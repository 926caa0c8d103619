import Quarry.Proofs.Counting

/-!
# What actions use

An action that uses a store by its operations alone, and adds to no other counters than some, is
built of these. So it keeps whatever the operations keep, and leaves all other counters alone.
-/

namespace Quarry

variable {σ ε φ α β : Type} {S : Store σ} {J : σ → Prop}

/-! ## Invariants of a store -/

/-- Asking and redeeming keep the invariant. -/
structure Store.Reads (S : Store σ) (J : σ → Prop) : Prop where
  ask : ∀ q s, J s → J (S.ask q s).2
  redeem : ∀ t s, J s → J (S.redeem t s).2

/-- All operations of the store keep the invariant. -/
structure Store.Stable (S : Store σ) (J : σ → Prop) : Prop extends S.Reads J where
  save : ∀ es s, J s → J (S.save es s).2
  update : ∀ es s, J s → J (S.update es s).2
  delete : ∀ ks s, J s → J (S.delete ks s).2

namespace Action

/-- The action is built of steps that leave store and counters alone, of round trips to the store,
and of additions to these counters. Its round trips are queries, unless it writes. -/
inductive Uses (S : Store σ) (writes : Prop) (counted : Counter → Prop) :
    {ε α : Type} → Action σ ε α → Prop
  | quiet {ε α : Type} {x : Action σ ε α}
      (h : ∀ w, (x.exec w).2.store = w.store ∧ (x.exec w).2.metrics = w.metrics) :
      Uses S writes counted x
  | count {ε : Type} {c : Counter} (hc : counted c) (n : Nat) :
      Uses S writes counted (count c n : Action σ ε Unit)
  | ask {ε : Type} (q : Query) : Uses S writes counted (onStore (S.ask q) : Action σ ε Ticket)
  | redeem (t : Ticket) : Uses S writes counted (attempt (S.redeem t))
  | save (hw : writes) (es : List Entity) : Uses S writes counted (attempt (S.save es))
  | update (hw : writes) (es : List Entity) : Uses S writes counted (attempt (S.update es))
  | delete (hw : writes) (ks : List Key) : Uses S writes counted (attempt (S.delete ks))
  | bind {ε α β : Type} {x : Action σ ε α} {f : α → Action σ ε β} (hx : Uses S writes counted x)
      (hf : ∀ a, Uses S writes counted (f a)) : Uses S writes counted (x >>= f)
  | adapt {ε φ α : Type} {x : Action σ ε α} (hx : Uses S writes counted x) (wrap : ε → φ) :
      Uses S writes counted (ExceptT.adapt wrap x : Action σ φ α)
  | outcome {ε φ α : Type} {x : Action σ ε α} (hx : Uses S writes counted x) :
      Uses S writes counted (outcome x : Action σ φ (Except ε α))
  | orElseDo {ε α : Type} {x : Action σ ε α} {after : ε → Action σ ε Unit}
      (hx : Uses S writes counted x) (hafter : ∀ e, Uses S writes counted (after e)) :
      Uses S writes counted (x.orElseDo after)

namespace Uses

variable {writes : Prop} {counted : Counter → Prop} {c : Counter}

/-- What is used keeps an invariant of the store. -/
theorem keeps {x : Action σ ε α} (hx : Uses S writes counted x) (hreads : S.Reads J)
    (hwrites : writes → S.Stable J) : Keeps J x fun _ => True := by
  have hattempt : ∀ {α φ : Type} {f : σ → Except φ α × σ}, (∀ s, J s → J (f s).2) →
      Keeps J (attempt f) fun _ => True :=
    fun h => keeps_attempt fun s hs => ⟨h s hs, fun _ _ => trivial⟩
  induction hx with
  | quiet h => exact keeps_of_store fun w => (h w).1
  | count _ n => exact keeps_count _ n
  | ask q => exact keeps_onStore fun s hs => ⟨hreads.ask q s hs, trivial⟩
  | redeem t => exact hattempt (hreads.redeem t)
  | save hw es => exact hattempt ((hwrites hw).save es)
  | update hw es => exact hattempt ((hwrites hw).update es)
  | delete hw ks => exact hattempt ((hwrites hw).delete ks)
  | bind _ _ hx hf => exact hx.bind fun a _ => hf a
  | adapt _ wrap hx => exact hx.adapt wrap
  | outcome _ hx => exact hx.outcome.mono fun _ _ => trivial
  | orElseDo _ _ hx hafter => exact hx.orElseDo hafter

theorem keeps_of_reads {x : Action σ ε α} (hx : Uses S False counted x) (h : S.Reads J) :
    Keeps J x fun _ => True := hx.keeps h False.elim

theorem keeps_of_stable {x : Action σ ε α} (hx : Uses S True counted x) (h : S.Stable J) :
    Keeps J x fun _ => True := hx.keeps h.toReads fun _ => h

/-- A counter that is not among those that are used stays as it is. -/
theorem leaves {x : Action σ ε α} (hx : Uses S True counted x) (hc : ¬ counted c) :
    Leaves c x := by
  induction hx with
  | quiet h => exact leaves_of_metrics fun w => (h w).2
  | count hd n =>
      refine leaves_count ?_ n
      rintro rfl
      exact hc hd
  | ask q => exact leaves_of_metrics fun _ => rfl
  | redeem t => exact leaves_attempt _
  | save _ es => exact leaves_attempt _
  | update _ es => exact leaves_attempt _
  | delete _ ks => exact leaves_attempt _
  | bind _ _ hx hf => exact hx.bind hf
  | adapt _ wrap hx => exact hx.adapt wrap
  | outcome _ hx => exact hx.outcome
  | orElseDo _ _ hx hafter => exact hx.orElseDo hafter

end Uses

/-! ## Quiet actions -/

variable {writes : Prop} {counted : Counter → Prop}

theorem uses_pure (a : α) : Uses S writes counted (pure a : Action σ ε α) :=
  .quiet fun _ => ⟨rfl, rfl⟩

theorem uses_throw (e : ε) : Uses S writes counted (throw e : Action σ ε α) :=
  .quiet fun _ => ⟨rfl, rfl⟩

theorem uses_report (severity : Severity) (event : Event) (fields : LineFields) :
    Uses S writes counted (report severity event fields : Action σ ε Unit) :=
  .quiet fun _ => ⟨rfl, rfl⟩

theorem uses_inquire (f : σ → α) : Uses S writes counted (inquire f : Action σ ε α) :=
  .quiet fun _ => ⟨rfl, rfl⟩

theorem uses_ofExcept (wrap : φ → ε) (r : Except φ α) :
    Uses S writes counted (ofExcept wrap r : Action σ ε α) := by
  refine .quiet ?_
  intro w
  rw [exec_ofExcept]
  exact ⟨rfl, rfl⟩

theorem uses_forM {as : List α} {f : α → Action σ ε Unit}
    (h : ∀ a ∈ as, Uses S writes counted (f a)) : Uses S writes counted (as.forM f) := by
  induction as with
  | nil => exact uses_pure ()
  | cons a as ih =>
      have hrest := ih fun b hb => h b (List.mem_cons_of_mem a hb)
      exact (h a List.mem_cons_self).bind fun _ => hrest

end Action

namespace Scope

open Quarry.Action

variable {writes : Prop} {counted : Counter → Prop}

theorem uses_enter (events : ScopeEvents) (fields : LineFields) :
    Uses S writes counted (enter events fields : Action σ ε Scope) := by
  refine .quiet ?_
  intro w
  cases h : events.opened <;> simp only [enter, h] <;> exact ⟨rfl, rfl⟩

theorem uses_complete (s : Scope) (more : LineFields) :
    Uses S writes counted (s.complete more : Action σ ε Unit) :=
  .quiet fun _ => ⟨rfl, rfl⟩

theorem uses_fail (s : Scope) (reason : String) :
    Uses S writes counted (s.fail reason : Action σ ε Unit) :=
  .quiet fun _ => ⟨rfl, rfl⟩

theorem uses_abandon (s : Scope) : Uses S writes counted (s.abandon : Action σ ε Unit) :=
  .quiet fun _ => ⟨rfl, rfl⟩

end Scope

end Quarry
