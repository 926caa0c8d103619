import Quarry.Proofs.Running

/-!
# Actions as steps

What every run of an action does to the session may be a step of some sort: a relation of the
session before to the session after. If steps can be chained, the laws below say it for each way of
building an action.
-/

namespace Quarry

namespace Action

variable {σ ε φ α β : Type} {R : Session σ → Session σ → Prop}

/-- Every run of the action is a step of this sort. -/
def Moves (R : Session σ → Session σ → Prop) (x : Action σ ε α) : Prop :=
  ∀ w, R w (x.exec w).2

namespace Moves

variable {x : Action σ ε α}

theorem of_exec (hx : Moves R x) {w w' : Session σ} {r : Except ε α}
    (hexec : x.exec w = (r, w')) : R w w' := by
  have h := hx w
  rwa [hexec] at h

theorem mono {R' : Session σ → Session σ → Prop} (hx : Moves R x)
    (h : ∀ {w w'}, R w w' → R' w w') : Moves R' x := fun w => h (hx w)

theorem adapt (hx : Moves R x) (wrap : ε → φ) :
    Moves R (ExceptT.adapt wrap x : Action σ φ α) := hx

theorem outcome (hx : Moves R x) : Moves R (outcome x : Action σ φ (Except ε α)) := hx

theorem bind [Trans R R R] {f : α → Action σ ε β} (hx : Moves R x) (hf : ∀ a, Moves R (f a)) :
    Moves R (x >>= f) := by
  intro w
  cases hexec : x.exec w with
  | mk r w' =>
      have hfirst := hx.of_exec hexec
      cases r with
      | error e =>
          rw [exec_bind_error hexec]
          exact hfirst
      | ok a =>
          rw [exec_bind_ok hexec]
          exact Trans.trans hfirst (hf a w')

end Moves

section Steps

variable [Std.Refl R]

theorem moves_pure (a : α) : Moves R (pure a : Action σ ε α) := fun w => Std.Refl.refl w

theorem moves_throw (e : ε) : Moves R (throw e : Action σ ε α) := fun w => Std.Refl.refl w

theorem moves_inquire (f : σ → α) : Moves R (inquire f : Action σ ε α) := fun w => Std.Refl.refl w

theorem moves_ofExcept (wrap : φ → ε) (r : Except φ α) :
    Moves R (ofExcept wrap r : Action σ ε α) := by
  intro w
  rw [exec_ofExcept]
  exact Std.Refl.refl w

variable [Trans R R R]

theorem Moves.orElseDo {x : Action σ ε α} {after : ε → Action σ ε Unit} (hx : Moves R x)
    (hafter : ∀ e, Moves R (after e)) : Moves R (x.orElseDo after) := by
  intro w
  rw [exec_orElseDo]
  cases hexec : x.exec w with
  | mk r w' =>
      have hfirst := hx.of_exec hexec
      cases r with
      | ok a => exact hfirst
      | error e =>
          have hthrow : Moves R (do after e; throw e : Action σ ε α) :=
            (hafter e).bind fun _ => moves_throw e
          exact Trans.trans hfirst (hthrow w')

theorem moves_forM {as : List α} {f : α → Action σ ε Unit} (h : ∀ a ∈ as, Moves R (f a)) :
    Moves R (as.forM f) := by
  induction as with
  | nil => exact moves_pure ()
  | cons a as ih =>
      have hrest := ih fun b hb => h b (List.mem_cons_of_mem a hb)
      exact (h a List.mem_cons_self).bind fun _ => hrest

end Steps

end Action

end Quarry
