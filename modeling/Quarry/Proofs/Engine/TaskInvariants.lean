import Quarry.Proofs.Engine.Schedules
import Quarry.Proofs.Moving

/-!
# What groups keep

Something may hold of the open tasks of a group, of the outcomes there are, and of the session. If
every run of a task keeps it, and giving up a task does, then the group keeps it. However a group is
ended, no task is open in the end.
-/

namespace Quarry

open Quarry.Action

variable {σ τ ρ ε : Type}

/-- `I queue outcomes w` does not depend on the order of the queue. A run keeps it, whatever becomes
of the task. A task can always be given up, and `I` then holds without it. -/
structure Work.Maintains (W : Work σ τ ρ ε)
    (I : List (Nat × τ) → List (Option (Except ε ρ)) → Session σ → Prop) : Prop where
  perm : ∀ {queue queue' outcomes w}, queue'.Perm queue → I queue outcomes w → I queue' outcomes w
  suspended : ∀ {place t t' queue outcomes w w'}, I ((place, t) :: queue) outcomes w →
    (W.run place t).exec w = (.ok (.suspended t'), w') → I ((place, t') :: queue) outcomes w'
  ended : ∀ {place t r queue outcomes w w'}, I ((place, t) :: queue) outcomes w →
    (W.run place t).exec w = (.ok (.ended r), w') →
      I queue (outcomes.set place (some (.ok r))) w'
  failed : ∀ {place t e queue outcomes w w'}, I ((place, t) :: queue) outcomes w →
    (W.run place t).exec w = (.error e, w') → I queue (outcomes.set place (some (.error e))) w'
  left : ∀ {place t queue outcomes w}, I ((place, t) :: queue) outcomes w →
    ∃ w', (W.leave t).exec w = (.ok (), w') ∧ I queue outcomes w'

/-- A task may be run out of its turn. -/
theorem Work.Maintains.polls {W : Work σ τ ρ ε}
    {I : List (Nat × τ) → List (Option (Except ε ρ)) → Session σ → Prop} (hW : W.Maintains I)
    {place : Nat} {g g' : TaskGroup τ ρ ε} {w w' : Session σ} (h : I g.queue g.outcomes w)
    (hpolls : TaskGroup.Polls W place g w g' w') : I g'.queue g'.outcomes w' := by
  cases hpolls with
  | passed _ => exact h
  | suspended _ hrun =>
      have hfirst := hW.perm List.perm_middle.symm h
      exact hW.perm (List.perm_append_singleton _ _) (hW.suspended hfirst hrun)
  | settled outcome _ hrun =>
      have hfirst := hW.perm List.perm_middle.symm h
      cases outcome with
      | error e => exact hW.failed hfirst hrun
      | ok r => exact hW.ended hfirst hrun

namespace TaskGroup

variable {W : Work σ τ ρ ε} {I : List (Nat × τ) → List (Option (Except ε ρ)) → Session σ → Prop}

/-- What is kept holds of the group that is left. After a failure no task is left. -/
def Upholds (I : List (Nat × τ) → List (Option (Except ε ρ)) → Session σ → Prop) :
    Except ε (TaskGroup τ ρ ε) × Session σ → Prop
  | (.ok g, w) => I g.queue g.outcomes w
  | (.error _, w) => ∃ outcomes, I [] outcomes w

theorem exists_exec_leaveAll (hW : W.Maintains I) {tasks : List (Nat × τ)}
    {outcomes : List (Option (Except ε ρ))} {w : Session σ} (h : I tasks outcomes w) :
    ∃ w', (leaveAll W tasks).exec w = (.ok (), w') ∧ I [] outcomes w' := by
  induction tasks generalizing w with
  | nil => exact ⟨w, rfl, h⟩
  | cons task tasks ih =>
      obtain ⟨w₁, hleave, hw₁⟩ := hW.left h
      obtain ⟨w', hrest, hw'⟩ := ih hw₁
      exact ⟨w', (exec_bind_ok hleave).trans hrest, hw'⟩

/-- A failure on whose way out all tasks are given up. -/
theorem exists_exec_leaveAll_throw (hW : W.Maintains I) {tasks : List (Nat × τ)}
    {outcomes : List (Option (Except ε ρ))} {w : Session σ} (h : I tasks outcomes w) (e : ε)
    {α : Type} : ∃ w', (do leaveAll W tasks; throw e : Action σ ε α).exec w = (.error e, w') ∧
      I [] outcomes w' := by
  obtain ⟨w', hleave, hw'⟩ := exists_exec_leaveAll hW h
  exact ⟨w', exec_bind_ok hleave, hw'⟩

/-! ## Turns of small groups -/

theorem upholds_round (hW : W.Maintains I) {before queue : List (Nat × τ)}
    {outcomes : List (Option (Except ε ρ))} {w : Session σ} (h : I (before ++ queue) outcomes w) :
    Upholds I ((round W outcomes before queue).exec w) := by
  induction queue generalizing before outcomes w with
  | nil =>
      rw [List.append_nil] at h
      exact h
  | cons task queue ih =>
      obtain ⟨place, t⟩ := task
      have hfirst := hW.perm List.perm_middle.symm h
      rw [round]
      cases hrun : (W.run place t).exec w with
      | mk r w₁ =>
          rcases r with e | t' | r
          · obtain ⟨w', hleave, hw'⟩ := exists_exec_leaveAll_throw hW (hW.failed hfirst hrun) e
              (α := Progress τ ρ)
            have hfails : ((W.run place t).orElseDo fun _ => leaveAll W (before ++ queue)).exec w =
                (.error e, w') := by
              rw [exec_orElseDo, hrun]
              exact hleave
            rw [exec_bind_error hfails]
            exact ⟨_, hw'⟩
          · rw [exec_bind_ok (exec_orElseDo_ok hrun)]
            refine ih (hW.perm ?_ (hW.suspended hfirst hrun))
            rw [List.append_assoc]
            exact List.perm_middle
          · rw [exec_bind_ok (exec_orElseDo_ok hrun)]
            exact ih (hW.ended hfirst hrun)

/-! ## Turns of large groups -/

theorem upholds_runSome (hW : W.Maintains I) (n : Nat) {g : TaskGroup τ ρ ε} {w : Session σ}
    (h : I g.queue g.outcomes w) :
    ∃ ended g' w', (runSome W n g).exec w = (.ok (ended, g'), w') ∧ I g'.queue g'.outcomes w' := by
  induction n generalizing g w with
  | zero => exact ⟨false, g, w, rfl, h⟩
  | succ n ih =>
      obtain ⟨queue, outcomes⟩ := g
      cases queue with
      | nil => exact ⟨false, _, w, rfl, h⟩
      | cons task queue =>
          obtain ⟨place, t⟩ := task
          rw [runSome]
          simp only
          rw [exec_bind_ok (exec_outcome (W.run place t) w)]
          cases hrun : (W.run place t).exec w with
          | mk r w₁ =>
              rcases r with e | t' | r
              · exact ⟨true, _, w₁, rfl, hW.failed h hrun⟩
              · exact ih (g := ⟨queue ++ [(place, t')], outcomes⟩)
                  (hW.perm (List.perm_append_singleton _ _) (hW.suspended h hrun))
              · exact ⟨true, _, w₁, rfl, hW.ended h hrun⟩

theorem upholds_turn (hW : W.Maintains I) (n : Nat) {g : TaskGroup τ ρ ε} {w : Session σ}
    (h : I g.queue g.outcomes w) : Upholds I ((turn W n g).exec w) := by
  induction n generalizing g w with
  | zero => exact h
  | succ n ih =>
      obtain ⟨ended, g', w', hexec, hg'⟩ := upholds_runSome hW (min 2 g.queue.length) h
      rw [turn, exec_bind_ok hexec]
      cases ended with
      | false => exact hg'
      | true =>
          cases hfailure : failure? g'.outcomes with
          | none =>
              simp only [if_true, hfailure]
              exact ih hg'
          | some e =>
              simp only [if_true, hfailure]
              obtain ⟨w'', hleave, hw''⟩ :=
                exists_exec_leaveAll_throw hW (hW.perm (List.reverse_perm _) hg') e
                  (α := TaskGroup τ ρ ε)
              rw [hleave]
              exact ⟨_, hw''⟩

/-! ## Groups of any size -/

theorem upholds_advance (hW : W.Maintains I) {g : TaskGroup τ ρ ε} {w : Session σ}
    (h : I g.queue g.outcomes w) : Upholds I ((g.advance W).exec w) := by
  unfold advance
  split
  · exact upholds_round hW h
  · exact upholds_turn hW _ h

/-- **However a group ends.** What its tasks keep holds in the end, and no task is open. -/
theorem upholds_complete (hW : W.Maintains I) (endless : Nat → ε) (patience : Nat)
    {g : TaskGroup τ ρ ε} {w : Session σ} (h : I g.queue g.outcomes w) :
    Upholds (fun queue outcomes w => queue = [] ∧ I queue outcomes w)
      ((g.complete W endless patience).exec w) := by
  induction patience generalizing g w with
  | zero =>
      obtain ⟨queue, outcomes⟩ := g
      cases queue with
      | nil => exact ⟨rfl, h⟩
      | cons task queue =>
          obtain ⟨w', hleave, hw'⟩ := exists_exec_leaveAll_throw hW h (endless task.1)
            (α := TaskGroup τ ρ ε)
          rw [complete, hleave]
          exact ⟨_, rfl, hw'⟩
  | succ patience ih =>
      rw [complete]
      cases hdone : g.isDone with
      | true => exact ⟨List.isEmpty_iff.1 hdone, h⟩
      | false =>
          have hadvance := upholds_advance hW h
          simp only [Bool.false_eq_true, if_false]
          cases hexec : (g.advance W).exec w with
          | mk r w' =>
              rw [hexec] at hadvance
              cases r with
              | error e =>
                  obtain ⟨outcomes, hw'⟩ := hadvance
                  rw [exec_bind_error hexec]
                  exact ⟨outcomes, rfl, hw'⟩
              | ok g' =>
                  rw [exec_bind_ok hexec]
                  exact ih hadvance

/-! ## Groups as steps -/

section Steps

variable {R : Session σ → Session σ → Prop} [Std.Refl R] [Trans R R R]
  (hrun : ∀ place t, Moves R (W.run place t))
  (hleave : ∀ t w, ∃ w', (W.leave t).exec w = (.ok (), w') ∧ R w w')

include hrun hleave

omit [Std.Refl R] in
theorem maintains_of_moves (w₀ : Session σ) : W.Maintains fun _ _ w => R w₀ w where
  perm _ h := h
  suspended h hexec := Trans.trans h ((hrun _ _).of_exec hexec)
  ended h hexec := Trans.trans h ((hrun _ _).of_exec hexec)
  failed h hexec := Trans.trans h ((hrun _ _).of_exec hexec)
  left h := by
    obtain ⟨w', hexec, hw'⟩ := hleave _ _
    exact ⟨w', hexec, Trans.trans h hw'⟩

theorem moves_advance (g : TaskGroup τ ρ ε) : Moves R (g.advance W) := by
  intro w
  have h := upholds_advance (g := g) (maintains_of_moves hrun hleave w) (Std.Refl.refl w)
  rcases hexec : (g.advance W).exec w with ⟨e | g', w'⟩
  · rw [hexec] at h
    exact h.elim fun _ hw' => hw'
  · rw [hexec] at h
    exact h

theorem moves_complete (endless : Nat → ε) (patience : Nat) (g : TaskGroup τ ρ ε) :
    Moves R (g.complete W endless patience) := by
  intro w
  have h := upholds_complete (g := g) (maintains_of_moves hrun hleave w) endless patience
    (Std.Refl.refl w)
  rcases hexec : (g.complete W endless patience).exec w with ⟨e | g', w'⟩
  · rw [hexec] at h
    exact h.elim fun _ hw' => hw'.2
  · rw [hexec] at h
    exact h.2

end Steps

end TaskGroup

end Quarry
