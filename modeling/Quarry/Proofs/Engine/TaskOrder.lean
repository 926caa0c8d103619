import Quarry.Engine.TaskGroup
import Quarry.Proofs.Keeping

/-!
# Every task before any task again

A group of either size takes the task at the head of its queue and puts it at the tail if it
suspends. So the tasks are run for the first time in their order, before any of them is run again.
What is known of a group whose tasks suspend when they are first run can be counted down by the
tasks that have not been run yet.
-/

namespace Quarry

open Quarry.Action

variable {σ τ ρ ε : Type}

/-- `P n queue s` is something that holds of a queue whose first `n` tasks have not been run, and of
the state of the store. Each run preserves it, and a task does not come to an end when it is first
run. -/
structure Work.CountsDown (W : Work σ τ ρ ε) (P : Nat → List (Nat × τ) → σ → Prop) : Prop where
  le : ∀ n queue s, P n queue s → n ≤ queue.length
  suspended : ∀ n place t t' rest w w', P n ((place, t) :: rest) w.store →
    (W.run place t).exec w = (.ok (.suspended t'), w') → P (n - 1) (rest ++ [(place, t')]) w'.store
  ended : ∀ n place t r rest w w', P n ((place, t) :: rest) w.store →
    (W.run place t).exec w = (.ok (.ended r), w') → P 0 rest w'.store
  failed : ∀ n place t e rest w w', P n ((place, t) :: rest) w.store →
    (W.run place t).exec w = (.error e, w') → P 0 rest w'.store
  leave : ∀ t w, ((W.leave t).exec w).2.store = w.store

namespace TaskGroup

variable {W : Work σ τ ρ ε} {P : Nat → List (Nat × τ) → σ → Prop} {n : Nat}

/-- A group goes on with no more than `n` tasks that have not been run. If it has failed, all were
run. -/
def Leaves (P : Nat → List (Nat × τ) → σ → Prop) (n : Nat) :
    Except ε (TaskGroup τ ρ ε) × Session σ → Prop
  | (.ok g, w) => ∃ k ≤ n, P k g.queue w.store
  | (.error _, w) => ∃ queue, P 0 queue w.store

theorem Leaves.mono {out : Except ε (TaskGroup τ ρ ε) × Session σ} {n' : Nat} (h : Leaves P n out)
    (hle : n ≤ n') : Leaves P n' out := by
  rcases out with ⟨e | g, w⟩
  · exact h
  · obtain ⟨k, hk, hP⟩ := h
    exact ⟨k, Nat.le_trans hk hle, hP⟩

/-- Giving up tasks on the way to a failure leaves the store alone. -/
theorem exec_leaveAll_throw (hW : W.CountsDown P) (tasks : List (Nat × τ)) (e : ε)
    (w : Session σ) {α : Type} :
    ∃ e' w', (do leaveAll W tasks; throw e : Action σ ε α).exec w = (.error e', w') ∧
      w'.store = w.store := by
  have hkeeps : Keeps (· = w.store) (leaveAll W tasks) fun _ => True := by
    apply keeps_forM
    intro task _ w₁ hw₁
    exact ⟨(hW.leave task.2 w₁).trans hw₁, fun _ _ => trivial⟩
  have hstore := (hkeeps w rfl).1
  cases hleave : (leaveAll W tasks).exec w with
  | mk r w' =>
      rw [hleave] at hstore
      cases r with
      | error e' => exact ⟨e', w', exec_bind_error hleave, hstore⟩
      | ok _ => exact ⟨e, w', exec_bind_ok hleave, hstore⟩

/-! ## Turns of small groups -/

theorem leaves_round (hW : W.CountsDown P) {before rest : List (Nat × τ)}
    {outcomes : List (Option (Except ε ρ))} {w : Session σ} (h : P n (rest ++ before) w.store) :
    Leaves P (n - rest.length) ((round W outcomes before rest).exec w) := by
  induction rest generalizing n before outcomes w with
  | nil => exact ⟨n, Nat.le_refl n, h⟩
  | cons task rest ih =>
      obtain ⟨place, t⟩ := task
      rw [List.cons_append] at h
      rw [round]
      cases hrun : (W.run place t).exec w with
      | mk r w₁ =>
          rcases r with e | t' | r
          · obtain ⟨e', w', hleave, hstore⟩ :=
              exec_leaveAll_throw hW (before ++ rest) e w₁ (α := Progress τ ρ)
            have hfails : ((W.run place t).orElseDo fun _ => leaveAll W (before ++ rest)).exec w =
                (.error e', w') := by
              rw [exec_orElseDo, hrun]
              exact hleave
            rw [exec_bind_error hfails]
            refine ⟨rest ++ before, ?_⟩
            rw [hstore]
            exact hW.failed n place t e _ w w₁ h hrun
          · rw [exec_bind_ok (exec_orElseDo_ok hrun)]
            have hnext := hW.suspended n place t t' _ w w₁ h hrun
            rw [List.append_assoc] at hnext
            apply (ih hnext).mono
            rw [Nat.sub_sub, Nat.add_comm]
            exact Nat.le_refl _
          · rw [exec_bind_ok (exec_orElseDo_ok hrun)]
            exact (ih (hW.ended n place t r _ w w₁ h hrun)).mono (by omega)

/-! ## Turns of large groups -/

theorem exec_runSome_counted (hW : W.CountsDown P) {m : Nat} {g : TaskGroup τ ρ ε}
    {w : Session σ} (h : P n g.queue w.store) (hm : m ≤ g.queue.length) :
    ∃ ended g' w', (runSome W m g).exec w = (.ok (ended, g'), w') ∧
      ∃ k ≤ n - m, P k g'.queue w'.store ∧ (ended = true → k = 0) := by
  induction m generalizing n g w with
  | zero => exact ⟨false, g, w, rfl, n, Nat.le_refl n, h, by rintro ⟨⟩⟩
  | succ m ih =>
      obtain ⟨queue, outcomes⟩ := g
      cases queue with
      | nil => exact absurd hm (Nat.not_succ_le_zero m)
      | cons task rest =>
          obtain ⟨place, t⟩ := task
          rw [runSome]
          simp only
          rw [exec_bind_ok (exec_outcome (W.run place t) w)]
          cases hrun : (W.run place t).exec w with
          | mk r w₁ =>
              rcases r with e | t' | r
              · exact ⟨true, _, w₁, rfl, 0, Nat.zero_le _,
                  hW.failed n place t e rest w w₁ h hrun, fun _ => rfl⟩
              · have hlength : m ≤ (rest ++ [(place, t')]).length := by
                  rw [List.length_append]
                  exact Nat.le_of_succ_le hm
                obtain ⟨ended, g', w', hexec, k, hk, hP, hended⟩ :=
                  ih (g := ⟨rest ++ [(place, t')], outcomes⟩)
                    (hW.suspended n place t t' rest w w₁ h hrun) hlength
                exact ⟨ended, g', w', hexec, k, by omega, hP, hended⟩
              · exact ⟨true, _, w₁, rfl, 0, Nat.zero_le _,
                  hW.ended n place t r rest w w₁ h hrun, fun _ => rfl⟩

/-- A turn runs a task at least, unless there is none. -/
theorem leaves_turn (hW : W.CountsDown P) {m : Nat} {g : TaskGroup τ ρ ε} {w : Session σ}
    (h : P n g.queue w.store) : Leaves P (n - min 1 m) ((turn W m g).exec w) := by
  induction m generalizing n g w with
  | zero => exact ⟨n, Nat.le_refl n, h⟩
  | succ m ih =>
      have hle := hW.le _ _ _ h
      obtain ⟨ended, g', w', hexec, k, hk, hP, hended⟩ :=
        exec_runSome_counted hW h (Nat.min_le_right 2 g.queue.length)
      rw [turn, exec_bind_ok hexec]
      cases ended with
      | false => exact ⟨k, by omega, hP⟩
      | true =>
          obtain rfl := hended rfl
          cases hfailure : failure? g'.outcomes with
          | none =>
              simp only [if_true, hfailure]
              exact (ih hP).mono (by omega)
          | some e =>
              simp only [if_true, hfailure]
              obtain ⟨e', w'', hleave, hstore⟩ :=
                exec_leaveAll_throw hW g'.queue.reverse e w' (α := TaskGroup τ ρ ε)
              rw [hleave]
              exact ⟨g'.queue, by rwa [hstore]⟩

/-! ## Groups of any size -/

theorem leaves_advance (hW : W.CountsDown P) {g : TaskGroup τ ρ ε} {w : Session σ}
    (h : P n g.queue w.store) (hopen : g.isDone = false) :
    Leaves P (n - 1) ((g.advance W).exec w) := by
  have hpos : 0 < g.queue.length :=
    List.length_pos_iff.2 fun hnil => by simp [isDone, hnil] at hopen
  unfold advance
  split
  · exact (leaves_round hW (by rwa [List.append_nil])).mono (by omega)
  · exact (leaves_turn hW h).mono (by omega)

/-- **No task is left out.** A group that is patient enough for its tasks has run each of them,
however it ends. -/
theorem exists_counted_complete (hW : W.CountsDown P) (endless : Nat → ε) {patience : Nat}
    {g : TaskGroup τ ρ ε} {w : Session σ} (h : P n g.queue w.store) (hle : n ≤ patience) :
    ∃ queue, P 0 queue ((g.complete W endless patience).exec w).2.store := by
  induction patience generalizing n g w with
  | zero =>
      obtain rfl := Nat.le_zero.1 hle
      obtain ⟨queue, outcomes⟩ := g
      cases queue with
      | nil => exact ⟨[], h⟩
      | cons task rest =>
          obtain ⟨e', w', hleave, hstore⟩ := exec_leaveAll_throw hW (task :: rest)
            (endless task.1) w (α := TaskGroup τ ρ ε)
          refine ⟨task :: rest, ?_⟩
          rw [complete, hleave, hstore]
          exact h
  | succ patience ih =>
      rw [complete]
      cases hdone : g.isDone with
      | true =>
          have hnil : g.queue = [] := List.isEmpty_iff.1 hdone
          have hzero := hW.le _ _ _ h
          rw [hnil] at h hzero
          obtain rfl := Nat.le_zero.1 hzero
          exact ⟨[], h⟩
      | false =>
          have hleaves := leaves_advance hW h hdone
          simp only [Bool.false_eq_true, if_false]
          cases hexec : (g.advance W).exec w with
          | mk r w' =>
              rw [hexec] at hleaves
              cases r with
              | error e =>
                  rw [exec_bind_error hexec]
                  exact hleaves
              | ok g' =>
                  obtain ⟨k, hk, hP⟩ := hleaves
                  rw [exec_bind_ok hexec]
                  exact ih hP (by omega)

end TaskGroup

end Quarry
