import Quarry.Proofs.Keeping
import Quarry.Proofs.Moving

/-!
# What actions count

What an action adds to a counter may be told from how it ends. The laws below say it for the ways of
building an action. Most actions leave most counters alone: this is a step of a session, and follows
the laws of steps.
-/

namespace Quarry

namespace Action

variable {σ ε φ α β : Type} {c : Counter}

/-- The action adds to the counter what belongs to its outcome. -/
def Counts (c : Counter) (x : Action σ ε α) (amount : Except ε α → UInt64) : Prop :=
  ∀ w, (x.exec w).2.metrics.value c = w.metrics.value c + amount (x.exec w).1

theorem Counts.of_exec {x : Action σ ε α} {amount : Except ε α → UInt64} (h : Counts c x amount)
    {w w' : Session σ} {r : Except ε α} (hexec : x.exec w = (r, w')) :
    w'.metrics.value c = w.metrics.value c + amount r := by
  have hcounts := h w
  rwa [hexec] at hcounts

/-- The counter stands as it stood before. -/
abbrev SameCount (c : Counter) (w w' : Session σ) : Prop :=
  w'.metrics.value c = w.metrics.value c

instance : Std.Refl (SameCount (σ := σ) c) where
  refl _ := rfl

instance : Trans (SameCount (σ := σ) c) (SameCount c) (SameCount c) where
  trans hfirst hsecond := hsecond.trans hfirst

/-- The action leaves the counter as it is. -/
abbrev Leaves (c : Counter) (x : Action σ ε α) : Prop := Moves (SameCount c) x

/-! ## Single actions -/

theorem leaves_of_metrics {x : Action σ ε α} (h : ∀ w, (x.exec w).2.metrics = w.metrics) :
    Leaves c x :=
  fun w => congrArg (Metrics.value · c) (h w)

theorem leaves_attempt (f : σ → Except φ α × σ) : Leaves c (attempt f) := by
  refine leaves_of_metrics ?_
  intro w
  rw [exec_attempt]

theorem counts_count (c : Counter) (n : Nat) :
    Counts c (count c n : Action σ ε Unit) fun _ => .ofNat n := by
  intro w
  rw [exec_count, Metrics.add_value, if_pos rfl]

theorem leaves_count {d : Counter} (h : c ≠ d) (n : Nat) :
    Leaves c (count d n : Action σ ε Unit) := by
  intro w
  rw [exec_count, SameCount, Metrics.add_value, if_neg h]

/-! ## Composed actions -/

namespace Counts

variable {x : Action σ ε α} {amount : Except ε α → UInt64}

theorem bind {f : α → Action σ ε β} {next : α → Except ε β → UInt64}
    {total : Except ε β → UInt64} (hx : Counts c x amount) (hf : ∀ a, Counts c (f a) (next a))
    (herror : ∀ e, amount (.error e) = total (.error e))
    (hok : ∀ a r, amount (.ok a) + next a r = total r) : Counts c (x >>= f) total := by
  intro w
  cases hexec : x.exec w with
  | mk r w' =>
      have hfirst := hx.of_exec hexec
      cases r with
      | error e => rw [exec_bind_error hexec, hfirst, herror]
      | ok a => rw [exec_bind_ok hexec, hf a w', hfirst, UInt64.add_assoc, hok]

theorem adapt {total : Except φ α → UInt64} (hx : Counts c x amount) (wrap : ε → φ)
    (h : ∀ r, amount r = total (r.mapError wrap)) :
    Counts c (ExceptT.adapt wrap x : Action σ φ α) total := by
  intro w
  rw [exec_adapt, hx w, h]

end Counts

namespace Leaves

variable {x : Action σ ε α}

/-- What leaves the counter alone adds nothing to it. -/
theorem counts (hx : Leaves c x) : Counts c x fun _ => 0 :=
  fun w => (hx w).trans (UInt64.add_zero _).symm

/-- What leaves the counter alone may come first. -/
theorem bindCounts {f : α → Action σ ε β} {total : Except ε β → UInt64} (hx : Leaves c x)
    (hf : ∀ a, Counts c (f a) total) (herror : ∀ e, total (.error e) = 0) :
    Counts c (x >>= f) total :=
  hx.counts.bind hf (fun e => (herror e).symm) fun _ _ => UInt64.zero_add _

end Leaves

end Action

end Quarry
