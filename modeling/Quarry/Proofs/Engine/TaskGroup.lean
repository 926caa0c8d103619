import Mathlib.Tactic.Abel
import Quarry.Engine.TaskGroup
import Quarry.Proofs.Running

/-!
# Groups whose tasks all succeed

Where every task comes to its end within a known number of runs, whatever runs in between, so does
the group, small or large. Each turn takes at least one run off the total, and the results stand in
the order of the tasks. Tasks may owe something, which they pay off until their end. What a group
owes is the sum of what its open tasks do.
-/

namespace Quarry

variable {σ τ ρ ε κ : Type} [AddCommMonoid κ]

/-- Within `n` runs the task comes to its end with the result `r`, whatever runs in between. By then
it has paid what it owes at first. `Inv x` holds of the sessions in which `x` is owed altogether. -/
def Work.Ends (W : Work σ τ ρ ε) (Inv : κ → Session σ → Prop) (place : Nat) (r : ρ) :
    Nat → κ → τ → Prop
  | 0, _, _ => False
  | n + 1, due, t => ∀ others w, Inv (due + others) w →
    ∃ progress w', (W.run place t).exec w = (.ok progress, w') ∧
      match progress with
      | .ended r' => r' = r ∧ Inv others w'
      | .suspended t' => ∃ due', Inv (due' + others) w' ∧ Ends W Inv place r n due' t'

/-- A task has time to spare. -/
theorem Work.Ends.mono {W : Work σ τ ρ ε} {Inv : κ → Session σ → Prop} {place n n' : Nat} {r : ρ}
    {due : κ} {t : τ} (h : W.Ends Inv place r n due t) (hle : n ≤ n') :
    W.Ends Inv place r n' due t := by
  induction n generalizing n' due t with
  | zero => exact h.elim
  | succ n ih =>
      cases n' with
      | zero => exact absurd hle (Nat.not_succ_le_zero n)
      | succ n' =>
          intro others w hw
          obtain ⟨progress, w', hrun, hprogress⟩ := h others w hw
          refine ⟨progress, w', hrun, ?_⟩
          cases progress with
          | ended r' => exact hprogress
          | suspended t' =>
              obtain ⟨due', hw', hrest⟩ := hprogress
              exact ⟨due', hw', ih hrest (Nat.le_of_succ_le_succ hle)⟩

namespace TaskGroup

variable {W : Work σ τ ρ ε} {Inv : κ → Session σ → Prop} {results : List ρ}

/-- The open tasks come to their ends with these results within so many runs altogether, and owe so
much. -/
inductive Open (W : Work σ τ ρ ε) (Inv : κ → Session σ → Prop) (results : List ρ) :
    List (Nat × τ) → Nat → κ → Prop
  | nil : Open W Inv results [] 0 0
  | cons {place : Nat} {t : τ} {n total : Nat} {due dues : κ} {r : ρ} {queue : List (Nat × τ)}
      (hresult : results[place]? = some r) (hends : W.Ends Inv place r n due t)
      (hrest : Open W Inv results queue total dues) :
      Open W Inv results ((place, t) :: queue) (n + total) (due + dues)

/-- What has become of each task: its result, or nothing yet if the task is open. -/
structure Settled (results : List ρ) (outcomes : List (Option (Except ε ρ)))
    (places : List Nat) : Prop where
  length_eq : outcomes.length = results.length
  outcome : ∀ place r, results[place]? = some r →
    outcomes[place]? = some (some (.ok r)) ∨ outcomes[place]? = some none ∧ place ∈ places

/-! ## Open tasks -/

theorem Open.append {q₁ q₂ : List (Nat × τ)} {n₁ n₂ : Nat} {due₁ due₂ : κ}
    (h₁ : Open W Inv results q₁ n₁ due₁) (h₂ : Open W Inv results q₂ n₂ due₂) :
    Open W Inv results (q₁ ++ q₂) (n₁ + n₂) (due₁ + due₂) := by
  induction h₁ with
  | nil => rwa [List.nil_append, Nat.zero_add, zero_add]
  | cons hresult hends hrest ih =>
      rw [List.cons_append, Nat.add_assoc, add_assoc]
      exact .cons hresult hends ih

theorem Open.singleton {place : Nat} {t : τ} {n : Nat} {due : κ} {r : ρ}
    (hresult : results[place]? = some r) (hends : W.Ends Inv place r n due t) :
    Open W Inv results [(place, t)] n due := by
  have h := Open.cons hresult hends .nil
  rwa [Nat.add_zero, add_zero] at h

/-! ## Outcomes -/

theorem Settled.set {outcomes : List (Option (Except ε ρ))} {places places' : List Nat}
    (h : Settled results outcomes places) {place : Nat} {r : ρ} (hr : results[place]? = some r)
    (hplaces : ∀ p ∈ places, p = place ∨ p ∈ places') :
    Settled results (outcomes.set place (some (.ok r))) places' where
  length_eq := by rw [List.length_set, h.length_eq]
  outcome := by
    intro p s hs
    by_cases hp : place = p
    · subst hp
      have hlt : place < outcomes.length := by
        rw [h.length_eq]
        exact (List.getElem?_eq_some_iff.1 hr).1
      rw [hr] at hs
      cases hs
      exact .inl (List.getElem?_set_self hlt)
    · rw [List.getElem?_set_ne hp]
      refine (h.outcome p s hs).imp id fun hopen => ⟨hopen.1, ?_⟩
      exact (hplaces p hopen.2).resolve_left fun heq => hp heq.symm

theorem Settled.mono {outcomes : List (Option (Except ε ρ))} {places places' : List Nat}
    (h : Settled results outcomes places) (hplaces : ∀ p ∈ places, p ∈ places') :
    Settled results outcomes places' where
  length_eq := h.length_eq
  outcome p r hr := (h.outcome p r hr).imp id fun hopen => ⟨hopen.1, hplaces p hopen.2⟩

/-- No task has failed. -/
theorem Settled.not_error {outcomes : List (Option (Except ε ρ))} {places : List Nat}
    (h : Settled results outcomes places) {e : ε} : some (.error e) ∉ outcomes := by
  intro hmem
  obtain ⟨place, hplace⟩ := List.getElem?_of_mem hmem
  have hlt : place < results.length := by
    rw [← h.length_eq]
    exact (List.getElem?_eq_some_iff.1 hplace).1
  rcases h.outcome place _ (List.getElem?_eq_getElem hlt) with hok | ⟨hnone, _⟩
  · rw [hok] at hplace
    cases hplace
  · rw [hnone] at hplace
    cases hplace

theorem failure?_eq_none {outcomes : List (Option (Except ε ρ))}
    (h : ∀ e, some (.error e) ∉ outcomes) : failure? outcomes = none := by
  induction outcomes with
  | nil => rfl
  | cons o outcomes ih =>
      rcases o with _ | e | r
      · rfl
      · exact absurd List.mem_cons_self (h e)
      · exact ih fun e he => h e (List.mem_cons_of_mem _ he)

/-- Where no task is open, every task has its result. -/
theorem Settled.outcomes_eq {outcomes : List (Option (Except ε ρ))}
    (h : Settled results outcomes []) : outcomes = results.map fun r => some (.ok r) := by
  refine List.ext_getElem? ?_
  intro place
  rw [List.getElem?_map]
  rcases hr : results[place]? with _ | r
  · rw [List.getElem?_eq_none_iff, ← h.length_eq] at hr
    exact List.getElem?_eq_none hr
  · rcases h.outcome place r hr with hok | ⟨_, hmem⟩
    · exact hok
    · cases hmem

/-- Where no task is open, the results are those of all tasks in their order. -/
theorem Settled.results_eq {g : TaskGroup τ ρ ε} (h : Settled results g.outcomes []) :
    g.results = results := by
  rw [TaskGroup.results, h.outcomes_eq, List.filterMap_map]
  exact List.filterMap_some

/-! ## Groups -/

/-- The places of open tasks. -/
def places (queue : List (Nat × τ)) : List Nat := queue.map Prod.fst

/-- **A group on its way.** Its open tasks come to their ends within so many runs altogether and owe
so much, and every other task has its result. -/
structure OnItsWay (W : Work σ τ ρ ε) (Inv : κ → Session σ → Prop) (results : List ρ)
    (g : TaskGroup τ ρ ε) (total : Nat) (due : κ) : Prop where
  open_ : Open W Inv results g.queue total due
  settled : Settled results g.outcomes (places g.queue)

/-- A group without open tasks has all its results and owes nothing. -/
theorem OnItsWay.of_done {g : TaskGroup τ ρ ε} {total : Nat} {due : κ}
    (h : OnItsWay W Inv results g total due) (hdone : g.queue = []) :
    g.results = results ∧ g.outcomes.length = results.length ∧ due = 0 := by
  obtain ⟨hopen, hsettled⟩ := h
  rw [hdone] at hopen hsettled
  cases hopen
  exact ⟨hsettled.results_eq, hsettled.length_eq, rfl⟩

theorem OnItsWay.total_pos {g : TaskGroup τ ρ ε} {total : Nat} {due : κ}
    (h : OnItsWay W Inv results g total due) (hne : g.queue ≠ []) : 0 < total := by
  obtain ⟨queue, outcomes⟩ := g
  cases h.open_ with
  | nil => exact absurd rfl hne
  | @cons _ _ n _ _ _ _ _ hresult hends hrest =>
      cases n with
      | zero => exact hends.elim
      | succ n => omega

/-! ## Turns of small groups -/

theorem exec_round {queue : List (Nat × τ)} {total : Nat} {due : κ}
    (hqueue : Open W Inv results queue total due) {before : List (Nat × τ)} {n : Nat} {due₀ : κ}
    (hbefore : Open W Inv results before n due₀) {outcomes : List (Option (Except ε ρ))}
    (houtcomes : Settled results outcomes (places (before ++ queue))) {others : κ} {w : Session σ}
    (hw : Inv (due₀ + due + others) w) :
    ∃ g w' rest due', (round W outcomes before queue).exec w = (.ok g, w') ∧
      Inv (due' + others) w' ∧ OnItsWay W Inv results g rest due' ∧
      rest + queue.length ≤ n + total := by
  -- The tasks that were suspended earlier in the turn wait in `before`, so that both lists make up
  -- the open tasks.
  induction hqueue generalizing before n due₀ outcomes w with
  | nil =>
      rw [List.append_nil] at houtcomes
      rw [add_zero] at hw
      exact ⟨_, w, n, due₀, rfl, hw, ⟨hbefore, houtcomes⟩, Nat.le_refl _⟩
  | @cons place t k total due dues r queue hresult hends hrest ih =>
      cases k with
      | zero => exact hends.elim
      | succ k =>
          have hshare : due₀ + (due + dues) + others = due + (due₀ + dues + others) := by abel
          rw [hshare] at hw
          obtain ⟨progress, w₁, hrun, hprogress⟩ := hends _ w hw
          rw [round, Action.exec_bind_ok (Action.exec_orElseDo_ok hrun)]
          cases progress with
          | ended r' =>
              obtain ⟨rfl, hw₁⟩ := hprogress
              have houtcomes' : Settled results (outcomes.set place (some (.ok r')))
                  (places (before ++ queue)) := by
                refine houtcomes.set hresult ?_
                intro p hp
                simpa [places, or_left_comm] using hp
              obtain ⟨g, w', rest, due', hexec, hw', hg, hrest'⟩ := ih hbefore houtcomes' hw₁
              refine ⟨g, w', rest, due', hexec, hw', hg, ?_⟩
              rw [List.length_cons]
              omega
          | suspended t' =>
              obtain ⟨due', hw₁, hends'⟩ := hprogress
              have hbefore' := hbefore.append (Open.singleton hresult hends')
              have houtcomes' : Settled results outcomes
                  (places (before ++ [(place, t')] ++ queue)) := by
                refine houtcomes.mono ?_
                intro p hp
                simpa [places] using hp
              have hshare' : due' + (due₀ + dues + others) = due₀ + due' + dues + others := by abel
              rw [hshare'] at hw₁
              obtain ⟨g, w', rest, due'', hexec, hw', hg, hrest'⟩ := ih hbefore' houtcomes' hw₁
              refine ⟨g, w', rest, due'', hexec, hw', hg, ?_⟩
              rw [List.length_cons]
              omega

/-! ## Turns of large groups -/

theorem exec_runSome {n total : Nat} {due others : κ} {g : TaskGroup τ ρ ε}
    (hg : OnItsWay W Inv results g total due) {w : Session σ} (hw : Inv (due + others) w) :
    ∃ ended g' w' rest due', (runSome W n g).exec w = (.ok (ended, g'), w') ∧
      Inv (due' + others) w' ∧ OnItsWay W Inv results g' rest due' ∧ rest ≤ total ∧
      (0 < n → g.queue ≠ [] → rest < total) := by
  induction n generalizing g total due w with
  | zero =>
      exact ⟨false, g, w, total, due, rfl, hw, hg, Nat.le_refl _,
        fun h => absurd h (Nat.lt_irrefl 0)⟩
  | succ n ih =>
      obtain ⟨queue, outcomes⟩ := g
      obtain ⟨hopen, hsettled⟩ := hg
      cases hopen with
      | nil =>
          exact ⟨false, _, w, 0, 0, rfl, hw, ⟨.nil, hsettled⟩, Nat.le_refl _,
            fun _ h => absurd rfl h⟩
      | @cons place t k total due dues r queue hresult hends hrest =>
          cases k with
          | zero => exact hends.elim
          | succ k =>
              rw [add_assoc] at hw
              obtain ⟨progress, w₁, hrun, hprogress⟩ := hends _ w hw
              rw [runSome, Action.exec_bind_ok (Action.exec_outcome _ _), hrun]
              cases progress with
              | ended r' =>
                  obtain ⟨rfl, hw₁⟩ := hprogress
                  refine ⟨true, ⟨queue, outcomes.set place (some (.ok r'))⟩, w₁, total, dues, rfl,
                    hw₁, ⟨hrest, hsettled.set hresult ?_⟩, by omega, by omega⟩
                  intro p hp
                  simpa [places] using hp
              | suspended t' =>
                  obtain ⟨due', hw₁, hends'⟩ := hprogress
                  have hopen := hrest.append (Open.singleton hresult hends')
                  have hsettled' : Settled results outcomes (places (queue ++ [(place, t')])) := by
                    refine hsettled.mono ?_
                    intro p hp
                    simpa [places, or_comm] using hp
                  have hshare : due' + (dues + others) = dues + due' + others := by abel
                  rw [hshare] at hw₁
                  obtain ⟨ended, g', w', rest, due'', hexec, hw', hg', hle, _⟩ :=
                    ih (g := ⟨queue ++ [(place, t')], outcomes⟩) ⟨hopen, hsettled'⟩ hw₁
                  exact ⟨ended, g', w', rest, due'', hexec, hw', hg', by omega, by omega⟩

theorem exec_turn {n total : Nat} {due others : κ} {g : TaskGroup τ ρ ε}
    (hg : OnItsWay W Inv results g total due) {w : Session σ} (hw : Inv (due + others) w) :
    ∃ g' w' rest due', (turn W n g).exec w = (.ok g', w') ∧ Inv (due' + others) w' ∧
      OnItsWay W Inv results g' rest due' ∧ rest ≤ total ∧
      (0 < n → g.queue ≠ [] → rest < total) := by
  induction n generalizing g total due w with
  | zero =>
      exact ⟨g, w, total, due, rfl, hw, hg, Nat.le_refl _, fun h => absurd h (Nat.lt_irrefl 0)⟩
  | succ n ih =>
      obtain ⟨ended, g₁, w₁, rest₁, due₁, hexec₁, hw₁, hg₁, hle₁, hlt₁⟩ :=
        exec_runSome (n := min 2 g.queue.length) hg hw
      have hlt₁' : g.queue ≠ [] → rest₁ < total := by
        intro hne
        have hlength := List.length_pos_iff.2 hne
        exact hlt₁ (by omega) hne
      rw [turn, Action.exec_bind_ok hexec₁]
      cases ended with
      | false => exact ⟨g₁, w₁, rest₁, due₁, rfl, hw₁, hg₁, hle₁, fun _ => hlt₁'⟩
      | true =>
          obtain ⟨g', w', rest, due', hexec, hw', hg', hle, _⟩ := ih hg₁ hw₁
          refine ⟨g', w', rest, due', ?_, hw', hg', by omega, ?_⟩
          · simp only [if_true, failure?_eq_none fun _ => hg₁.settled.not_error]
            exact hexec
          · intro _ hne
            exact Nat.lt_of_le_of_lt hle (hlt₁' hne)

/-! ## Groups of any size -/

/-- A turn of a group with open tasks takes at least one run off the total. -/
theorem exec_advance {g : TaskGroup τ ρ ε} {total : Nat} {due others : κ}
    (hg : OnItsWay W Inv results g total due) (hne : g.queue ≠ []) {w : Session σ}
    (hw : Inv (due + others) w) :
    ∃ g' w' rest due', (g.advance W).exec w = (.ok g', w') ∧ Inv (due' + others) w' ∧
      OnItsWay W Inv results g' rest due' ∧ rest < total := by
  have hlength := List.length_pos_iff.2 hne
  unfold advance
  split
  · rw [← zero_add due] at hw
    obtain ⟨g', w', rest, due', hexec, hw', hg', hrest⟩ :=
      exec_round hg.open_ Open.nil (by rw [List.nil_append]; exact hg.settled) hw
    exact ⟨g', w', rest, due', hexec, hw', hg', by omega⟩
  · obtain ⟨g', w', rest, due', hexec, hw', hg', _, hlt⟩ :=
      exec_turn (n := g.queue.length) hg hw
    exact ⟨g', w', rest, due', hexec, hw', hg', hlt hlength hne⟩

/-- **A group comes to its end** within as many turns as its tasks have runs, with the results of all
tasks in their order and with nothing owed. -/
theorem exec_complete (endless : Nat → ε) {patience total : Nat} {due others : κ}
    {g : TaskGroup τ ρ ε} (hg : OnItsWay W Inv results g total due) (hpatience : total ≤ patience)
    {w : Session σ} (hw : Inv (due + others) w) :
    ∃ g' w', (g.complete W endless patience).exec w = (.ok g', w') ∧ Inv others w' ∧
      g'.results = results ∧ g'.outcomes.length = results.length := by
  by_cases hdone : g.queue = []
  · obtain ⟨hresults, hlength, rfl⟩ := hg.of_done hdone
    rw [zero_add] at hw
    refine ⟨g, w, ?_, hw, hresults, hlength⟩
    cases patience with
    | zero =>
        rw [complete, hdone]
        rfl
    | succ patience =>
        rw [complete, if_pos (by rw [isDone, hdone]; rfl)]
        rfl
  · cases patience with
    | zero => exact absurd (hg.total_pos hdone) (by omega)
    | succ patience =>
        obtain ⟨g₁, w₁, rest, due₁, hexec₁, hw₁, hg₁, hlt⟩ := exec_advance hg hdone hw
        have hrest : rest ≤ patience := by omega
        -- A turn takes one off the patience and at least one off the total.
        obtain ⟨g', w', hexec, hw', hresults⟩ := exec_complete endless hg₁ hrest hw₁
        refine ⟨g', w', ?_, hw', hresults⟩
        rw [complete, if_neg (by rwa [isDone, List.isEmpty_iff]), Action.exec_bind_ok hexec₁]
        exact hexec

/-! ## Groups at their start -/

theorem open_zipIdx {k : Nat} {tasks : List τ} {dueOf : τ → κ} (place : Nat)
    (h : ∀ i t, tasks[i]? = some t → ∃ r n, results[place + i]? = some r ∧ n ≤ k ∧
      W.Ends Inv (place + i) r n (dueOf t) t) :
    ∃ total, total ≤ k * tasks.length ∧
      Open W Inv results ((tasks.zipIdx place).map fun (t, i) => (i, t)) total
        (tasks.map dueOf).sum := by
  induction tasks generalizing place with
  | nil => exact ⟨0, Nat.le_refl _, .nil⟩
  | cons t tasks ih =>
      obtain ⟨r, n, hresult, hn, hends⟩ := h 0 t rfl
      obtain ⟨total, htotal, hopen⟩ := ih (place + 1) (by
        intro i t ht
        rw [Nat.add_assoc, Nat.add_comm 1 i]
        exact h (i + 1) t ht)
      rw [List.map_cons, List.sum_cons]
      refine ⟨n + total, ?_, .cons hresult hends hopen⟩
      rw [List.length_cons, Nat.mul_add]
      omega

theorem places_start (ε ρ : Type) (tasks : List τ) :
    places (start tasks : TaskGroup τ ρ ε).queue = List.range tasks.length := by
  rw [places, start, List.map_map, List.range_eq_range']
  exact List.zipIdx_map_snd 0 tasks

/-- At first, every task is open. -/
theorem settled_start (tasks : List τ) (hlength : tasks.length = results.length) :
    Settled results (start tasks : TaskGroup τ ρ ε).outcomes
      (places (start tasks : TaskGroup τ ρ ε).queue) where
  length_eq := by rw [start, List.length_map, hlength]
  outcome := by
    intro place r hr
    have hlt : place < tasks.length := by
      rw [hlength]
      exact (List.getElem?_eq_some_iff.1 hr).1
    refine .inr ⟨?_, ?_⟩
    · rw [start, List.getElem?_map, List.getElem?_eq_getElem hlt]
      rfl
    · rw [places_start, List.mem_range]
      exact hlt

/-- A group of tasks that all end within `k` runs is on its way, and owes what they do. -/
theorem onItsWay_start {k : Nat} {tasks : List τ} {dueOf : τ → κ}
    (hlength : tasks.length = results.length)
    (h : ∀ i t, tasks[i]? = some t → ∃ r n, results[i]? = some r ∧ n ≤ k ∧
      W.Ends Inv i r n (dueOf t) t) :
    ∃ total, total ≤ k * tasks.length ∧
      OnItsWay W Inv results (start tasks) total (tasks.map dueOf).sum := by
  obtain ⟨total, htotal, hopen⟩ := open_zipIdx 0 (by
    intro i t ht
    rw [Nat.zero_add]
    exact h i t ht)
  exact ⟨total, htotal, hopen, settled_start tasks hlength⟩

end TaskGroup

end Quarry
