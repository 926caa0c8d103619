import Quarry.Proofs.Alike
import Quarry.Proofs.Engine.TaskResults

/-!
# Groups that end alike

Where every task ends alike on related stores, and within a known number of runs, so does the group,
small or large. It may be run with different patience on the two stores, as long as both suffice for
all runs.
-/

namespace Quarry

open Quarry.Action

variable {σ τ ρ ε : Type} {W : Work σ τ ρ ε} {R : σ → σ → Prop}

/-- Within `n` runs the task comes to its end, and each run ends alike on related stores. -/
def Work.EndsAlike (W : Work σ τ ρ ε) (R : σ → σ → Prop) (place : Nat) : Nat → τ → Prop
  | 0, _ => False
  | n + 1, t => Alike R (W.run place t) (W.run place t)
      (Progress.Meets (W.EndsAlike R place n) fun _ => True)

theorem Work.EndsAlike.mono {place n n' : Nat} {t : τ} (h : W.EndsAlike R place n t)
    (hle : n ≤ n') : W.EndsAlike R place n' t := by
  induction n generalizing n' t with
  | zero => exact h.elim
  | succ n ih =>
      cases n' with
      | zero => exact absurd hle (Nat.not_succ_le_zero n)
      | succ n' =>
          apply Alike.mono h
          intro progress hprogress
          cases progress with
          | ended r => trivial
          | suspended t' => exact ih hprogress (Nat.le_of_succ_le_succ hle)

namespace TaskGroup

/-- The open tasks end alike within so many runs altogether. -/
inductive Bounded (W : Work σ τ ρ ε) (R : σ → σ → Prop) : List (Nat × τ) → Nat → Prop
  | nil : Bounded W R [] 0
  | cons {place : Nat} {t : τ} {n total : Nat} {queue : List (Nat × τ)}
      (hends : W.EndsAlike R place n t) (hrest : Bounded W R queue total) :
      Bounded W R ((place, t) :: queue) (n + total)

/-- Tasks that are given up are given up alike. -/
def LeftAlike (W : Work σ τ ρ ε) (R : σ → σ → Prop) : Prop :=
  ∀ t, Alike R (W.leave t) (W.leave t) fun _ => True

variable {queue before : List (Nat × τ)} {g : TaskGroup τ ρ ε} {n total : Nat}

theorem Bounded.append {q₁ q₂ : List (Nat × τ)} {n₁ n₂ : Nat} (h₁ : Bounded W R q₁ n₁)
    (h₂ : Bounded W R q₂ n₂) : Bounded W R (q₁ ++ q₂) (n₁ + n₂) := by
  induction h₁ with
  | nil => rwa [List.nil_append, Nat.zero_add]
  | cons hends hrest ih =>
      rw [List.cons_append, Nat.add_assoc]
      exact .cons hends ih

theorem Bounded.singleton {place : Nat} {t : τ} (hends : W.EndsAlike R place n t) :
    Bounded W R [(place, t)] n :=
  .cons hends .nil

theorem Bounded.total_pos (h : Bounded W R queue total) (hne : queue ≠ []) : 0 < total := by
  cases h with
  | nil => exact absurd rfl hne
  | @cons _ _ n _ _ hends hrest =>
      cases n with
      | zero => exact hends.elim
      | succ n => omega

theorem alike_leaveAll (hleave : LeftAlike W R) (tasks : List (Nat × τ)) :
    Alike R (leaveAll W tasks) (leaveAll W tasks) fun _ => True :=
  alike_forM fun task _ => hleave task.2

/-! ## Turns of small groups -/

theorem alike_round (hleave : LeftAlike W R) (hqueue : Bounded W R queue total)
    (hbefore : Bounded W R before n) (outcomes : List (Option (Except ε ρ))) :
    Alike R (round W outcomes before queue) (round W outcomes before queue) fun g =>
      ∃ rest, Bounded W R g.queue rest ∧ rest + queue.length ≤ n + total := by
  induction hqueue generalizing before n outcomes with
  | nil => exact alike_pure ⟨n, hbefore, Nat.le_refl _⟩
  | @cons place t k total queue hends hrest ih =>
      cases k with
      | zero => exact hends.elim
      | succ k =>
          apply (Alike.orElseDo hends fun _ => alike_leaveAll hleave _).bind
          intro progress hprogress
          cases progress with
          | suspended t' =>
              apply (ih (hbefore.append (.singleton hprogress)) outcomes).mono
              rintro g ⟨rest, hg, hle⟩
              refine ⟨rest, hg, ?_⟩
              rw [List.length_cons]
              omega
          | ended r =>
              apply (ih hbefore (outcomes.set place (some (.ok r)))).mono
              rintro g ⟨rest, hg, hle⟩
              refine ⟨rest, hg, ?_⟩
              rw [List.length_cons]
              omega

/-! ## Turns of large groups -/

theorem alike_runSome (hg : Bounded W R g.queue total) :
    Alike R (runSome W n g) (runSome W n g) fun out =>
      ∃ rest, Bounded W R out.2.queue rest ∧ rest ≤ total ∧
        (0 < n → g.queue ≠ [] → rest < total) := by
  induction n generalizing g total with
  | zero => exact alike_pure ⟨total, hg, Nat.le_refl _, fun h => absurd h (Nat.lt_irrefl 0)⟩
  | succ n ih =>
      obtain ⟨queue, outcomes⟩ := g
      cases hg with
      | nil => exact alike_pure ⟨0, .nil, Nat.le_refl _, fun _ h => absurd rfl h⟩
      | @cons place t k total queue hends hrest =>
          cases k with
          | zero => exact hends.elim
          | succ k =>
              apply (Alike.outcome hends).bind
              intro result hresult
              have hended : ∃ rest, Bounded W R queue rest ∧ rest ≤ k + 1 + total ∧
                  (0 < n + 1 → (place, t) :: queue ≠ [] → rest < k + 1 + total) :=
                ⟨total, hrest, by omega, by omega⟩
              rcases result with e | t' | r
              · exact alike_pure hended
              · have hopen := hrest.append (Bounded.singleton (hresult _ rfl))
                apply (ih (g := ⟨queue ++ [(place, t')], outcomes⟩) hopen).mono
                rintro out ⟨rest, hout, hle, _⟩
                exact ⟨rest, hout, by omega, by omega⟩
              · exact alike_pure hended

theorem alike_turn (hleave : LeftAlike W R) (hg : Bounded W R g.queue total) :
    Alike R (turn W n g) (turn W n g) fun g' =>
      ∃ rest, Bounded W R g'.queue rest ∧ rest ≤ total ∧
        (0 < n → g.queue ≠ [] → rest < total) := by
  induction n generalizing g total with
  | zero => exact alike_pure ⟨total, hg, Nat.le_refl _, fun h => absurd h (Nat.lt_irrefl 0)⟩
  | succ n ih =>
      apply (alike_runSome hg).bind
      rintro ⟨ended, g₁⟩ ⟨rest₁, hg₁, hle₁, hlt₁⟩
      have hlt : g.queue ≠ [] → rest₁ < total := by
        intro hne
        have hlength := List.length_pos_iff.2 hne
        exact hlt₁ (by omega) hne
      cases ended with
      | false => exact alike_pure ⟨rest₁, hg₁, hle₁, fun _ => hlt⟩
      | true =>
          cases hfailure : failure? g₁.outcomes with
          | some e =>
              simp only [if_true, hfailure]
              exact (alike_leaveAll hleave _).bind fun _ _ => alike_throw e
          | none =>
              simp only [if_true, hfailure]
              apply (ih hg₁).mono
              rintro g' ⟨rest, hg', hle, _⟩
              refine ⟨rest, hg', Nat.le_trans hle hle₁, ?_⟩
              intro _ hne
              exact Nat.lt_of_le_of_lt hle (hlt hne)

/-! ## Groups of any size -/

/-- A turn of a group with open tasks takes at least one run off the total. -/
theorem alike_advance (hleave : LeftAlike W R) (hg : Bounded W R g.queue total)
    (hne : g.queue ≠ []) :
    Alike R (g.advance W) (g.advance W) fun g' =>
      ∃ rest, Bounded W R g'.queue rest ∧ rest < total := by
  have hlength := List.length_pos_iff.2 hne
  unfold advance
  split
  · apply (alike_round hleave hg .nil g.outcomes).mono
    rintro g' ⟨rest, hg', hle⟩
    exact ⟨rest, hg', by omega⟩
  · apply (alike_turn hleave hg).mono
    rintro g' ⟨rest, hg', _, hlt⟩
    exact ⟨rest, hg', hlt hlength hne⟩

/-- **A group ends alike** with any two patiences that suffice for all runs of its tasks. -/
theorem alike_complete (hleave : LeftAlike W R) (endless : Nat → ε) {g : TaskGroup τ ρ ε}
    {total p q : Nat} (hg : Bounded W R g.queue total) (hp : total ≤ p) (hq : total ≤ q) :
    Alike R (g.complete W endless p) (g.complete W endless q) fun _ => True := by
  by_cases hdone : g.queue = []
  · have hcomplete : ∀ patience, g.complete W endless patience = pure g := by
      intro patience
      cases patience with
      | zero => rw [complete, hdone]
      | succ patience => rw [complete, if_pos (by rw [isDone, hdone]; rfl)]
    rw [hcomplete p, hcomplete q]
    exact alike_pure trivial
  · have hpos := hg.total_pos hdone
    obtain ⟨p, rfl⟩ := Nat.exists_eq_add_one_of_ne_zero (by omega : p ≠ 0)
    obtain ⟨q, rfl⟩ := Nat.exists_eq_add_one_of_ne_zero (by omega : q ≠ 0)
    have hopen : ¬ g.isDone = true := by rwa [isDone, List.isEmpty_iff]
    rw [complete, complete, if_neg hopen, if_neg hopen]
    apply (alike_advance hleave hg hdone).bind
    rintro g' ⟨rest, hg', hlt⟩
    exact alike_complete hleave endless hg' (by omega) (by omega)

/-- A group of tasks that all end alike within `k` runs. -/
theorem bounded_start {k : Nat} (tasks : List τ)
    (h : ∀ t ∈ tasks, ∀ place, W.EndsAlike R place k t) :
    Bounded W R (start tasks : TaskGroup τ ρ ε).queue (k * tasks.length) := by
  have hfrom : ∀ place, Bounded W R ((tasks.zipIdx place).map fun task => (task.2, task.1))
      (k * tasks.length) := by
    induction tasks with
    | nil => exact fun _ => .nil
    | cons t tasks ih =>
        intro place
        have hrest := ih (fun x hx => h x (List.mem_cons_of_mem t hx)) (place + 1)
        rw [List.length_cons, Nat.mul_succ, Nat.add_comm]
        exact .cons (h t List.mem_cons_self place) hrest
  exact hfrom 0

end TaskGroup

end Quarry
