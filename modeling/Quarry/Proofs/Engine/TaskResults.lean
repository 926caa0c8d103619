import Quarry.Proofs.Engine.TaskGroup
import Quarry.Proofs.Keeping

/-!
# Groups whose tasks may fail

What each task keeps true of itself from run to run, and of its result, holds of the results of the
group, if it comes to an end without failure. Nothing is said of whether it does.
-/

namespace Quarry

open Quarry.Action

variable {σ τ ρ ε : Type}

/-- What is known of a task of this place that is suspended, or of its result. -/
def Progress.Meets (Good : τ → Prop) (Post : ρ → Prop) : Progress τ ρ → Prop
  | suspended t => Good t
  | ended r => Post r

/-- A run takes a task that is known to be good to one that is, or to a result of which something is
known. Whatever happens, the store keeps its invariant. -/
structure Work.Sound (W : Work σ τ ρ ε) (J : σ → Prop) (Good : Nat → τ → Prop)
    (Post : Nat → ρ → Prop) : Prop where
  run : ∀ place t, Good place t → Keeps J (W.run place t) (Progress.Meets (Good place) (Post place))
  leave : ∀ t, Keeps J (W.leave t) fun _ => True

namespace TaskGroup

variable {W : Work σ τ ρ ε} {J : σ → Prop} {Good : Nat → τ → Prop} {Post : Nat → ρ → Prop}
  {size : Nat}

/-- **A group in order.** Its open tasks are good, its results are as they should be, and a task
without an outcome is open. -/
structure InOrder (Good : Nat → τ → Prop) (Post : Nat → ρ → Prop) (size : Nat)
    (g : TaskGroup τ ρ ε) : Prop where
  length_eq : g.outcomes.length = size
  good : ∀ task ∈ g.queue, Good task.1 task.2
  results : ∀ place r, g.outcomes[place]? = some (some (.ok r)) → Post place r
  open_ : ∀ place, g.outcomes[place]? = some none → place ∈ places g.queue

/-- No task has failed. -/
def NoError (outcomes : List (Option (Except ε ρ))) : Prop := ∀ e, some (.error e) ∉ outcomes

/-! ## Single steps of a group -/

theorem keeps_leaveAll (hW : W.Sound J Good Post) (tasks : List (Nat × τ)) :
    Keeps J (leaveAll W tasks) fun _ => True :=
  keeps_forM fun task _ => hW.leave task.2

theorem InOrder.requeue {queue queue' : List (Nat × τ)} {outcomes : List (Option (Except ε ρ))}
    (h : InOrder Good Post size ⟨queue, outcomes⟩) (hgood : ∀ task ∈ queue', Good task.1 task.2)
    (hplaces : ∀ p ∈ places queue, p ∈ places queue') :
    InOrder Good Post size ⟨queue', outcomes⟩ :=
  ⟨h.length_eq, hgood, h.results, fun p hp => hplaces p (h.open_ p hp)⟩

/-- A task that was open has an outcome. -/
theorem InOrder.settle {queue queue' : List (Nat × τ)} {outcomes : List (Option (Except ε ρ))}
    (h : InOrder Good Post size ⟨queue, outcomes⟩) {place : Nat} {outcome : Except ε ρ}
    (hpost : ∀ r, outcome = .ok r → Post place r) (hgood : ∀ task ∈ queue', task ∈ queue)
    (hplaces : ∀ p ∈ places queue, p = place ∨ p ∈ places queue') :
    InOrder Good Post size ⟨queue', outcomes.set place (some outcome)⟩ := by
  refine ⟨?_, fun task htask => h.good task (hgood task htask), ?_, ?_⟩
  · rw [List.length_set]
    exact h.length_eq
  · intro p r hp
    rw [List.getElem?_set] at hp
    split at hp
    · rename_i heq
      subst heq
      split at hp
      · exact hpost r (Option.some.inj (Option.some.inj hp))
      · cases hp
    · exact h.results p r hp
  · intro p hp
    rw [List.getElem?_set] at hp
    split at hp
    · split at hp
      · cases hp
      · cases hp
    · rename_i hne
      exact (hplaces p (h.open_ p hp)).resolve_left fun heq => hne heq.symm

theorem NoError.settle {outcomes : List (Option (Except ε ρ))} (h : NoError outcomes) (place : Nat)
    (r : ρ) : NoError (outcomes.set place (some (.ok r))) := by
  intro e he
  rcases List.mem_or_eq_of_mem_set he with he | he
  · exact h e he
  · cases he

/-! ## Turns of small groups -/

theorem keeps_round (hW : W.Sound J Good Post) {queue before : List (Nat × τ)}
    {outcomes : List (Option (Except ε ρ))}
    (h : InOrder Good Post size ⟨before ++ queue, outcomes⟩) (hnone : NoError outcomes) :
    Keeps J (round W outcomes before queue) fun g =>
      InOrder Good Post size g ∧ NoError g.outcomes := by
  induction queue generalizing before outcomes with
  | nil =>
      rw [List.append_nil] at h
      exact keeps_pure ⟨h, hnone⟩
  | cons task queue ih =>
      obtain ⟨place, t⟩ := task
      have hrun := hW.run place t (h.good (place, t) (by simp))
      refine (hrun.orElseDo fun _ => keeps_leaveAll hW _).bind ?_
      intro progress hprogress
      cases progress with
      | suspended t' =>
          refine ih (h.requeue ?_ ?_) hnone
          · intro task htask
            simp only [List.append_assoc, List.singleton_append, List.mem_append,
              List.mem_cons] at htask
            rcases htask with htask | rfl | htask
            · exact h.good task (by simp [htask])
            · exact hprogress
            · exact h.good task (by simp [htask])
          · intro p hp
            simpa [places] using hp
      | ended r =>
          refine ih (h.settle ?_ ?_ ?_) (hnone.settle place r)
          · rintro _ ⟨⟩
            exact hprogress
          · intro task htask
            simp only [List.mem_append, List.mem_cons] at htask ⊢
            exact htask.imp id .inr
          · intro p hp
            simpa [places, or_left_comm] using hp

/-! ## Turns of large groups -/

theorem keeps_runSome (hW : W.Sound J Good Post) {n : Nat} {g : TaskGroup τ ρ ε}
    (h : InOrder Good Post size g) :
    Keeps J (runSome W n g) fun out =>
      InOrder Good Post size out.2 ∧ (out.1 = false → out.2.outcomes = g.outcomes) := by
  induction n generalizing g with
  | zero => exact keeps_pure ⟨h, fun _ => rfl⟩
  | succ n ih =>
      obtain ⟨queue, outcomes⟩ := g
      cases queue with
      | nil => exact keeps_pure ⟨h, fun _ => rfl⟩
      | cons task queue =>
          obtain ⟨place, t⟩ := task
          have hrun := hW.run place t (h.good (place, t) List.mem_cons_self)
          have hother : ∀ task ∈ queue, task ∈ (place, t) :: queue :=
            fun task htask => List.mem_cons_of_mem _ htask
          have hplaces : ∀ p ∈ places ((place, t) :: queue), p = place ∨ p ∈ places queue :=
            fun p hp => List.mem_cons.1 hp
          refine hrun.outcome.bind ?_
          intro result hresult
          rcases result with e | t' | r
          · refine keeps_pure ⟨h.settle ?_ hother hplaces, Bool.noConfusion⟩
            rintro _ ⟨⟩
          · refine ih (h.requeue ?_ ?_)
            · intro task htask
              rcases List.mem_append.1 htask with htask | htask
              · exact h.good task (hother task htask)
              · rw [List.mem_singleton.1 htask]
                exact hresult _ rfl
            · intro p hp
              simpa [places, or_comm] using hp
          · refine keeps_pure ⟨h.settle ?_ hother hplaces, Bool.noConfusion⟩
            rintro _ ⟨⟩
            exact hresult _ rfl

theorem keeps_turn (hW : W.Sound J Good Post) {n : Nat} {g : TaskGroup τ ρ ε}
    (h : InOrder Good Post size g) (hnone : failure? g.outcomes = none) :
    Keeps J (turn W n g) fun g' => InOrder Good Post size g' ∧ failure? g'.outcomes = none := by
  induction n generalizing g with
  | zero => exact keeps_pure ⟨h, hnone⟩
  | succ n ih =>
      refine (keeps_runSome hW h).bind ?_
      rintro ⟨ended, g'⟩ ⟨hg', hsame⟩
      cases ended with
      | false =>
          rw [← hsame rfl] at hnone
          exact keeps_pure ⟨hg', hnone⟩
      | true =>
          cases hfailure : failure? g'.outcomes with
          | none =>
              simp only [if_true, hfailure]
              exact ih hg' hfailure
          | some e =>
              simp only [if_true, hfailure]
              exact (keeps_leaveAll hW _).bind fun _ _ => keeps_throw e

/-! ## Groups of any size -/

/-- No failure has come to light, and in a small group there is none. -/
def Clean (size : Nat) (outcomes : List (Option (Except ε ρ))) : Prop :=
  failure? outcomes = none ∧ (size ≤ smallSize → NoError outcomes)

theorem keeps_advance (hW : W.Sound J Good Post) {g : TaskGroup τ ρ ε}
    (h : InOrder Good Post size g) (hclean : Clean size g.outcomes) :
    Keeps J (g.advance W) fun g' => InOrder Good Post size g' ∧ Clean size g'.outcomes := by
  unfold advance
  rw [h.length_eq]
  split
  · rename_i hsmall
    refine (keeps_round hW h (hclean.2 hsmall)).mono ?_
    rintro g' ⟨hg', hnone⟩
    exact ⟨hg', failure?_eq_none hnone, fun _ => hnone⟩
  · rename_i hlarge
    refine (keeps_turn hW h hclean.1).mono ?_
    rintro g' ⟨hg', hnone⟩
    exact ⟨hg', hnone, fun hsmall => absurd hsmall hlarge⟩

theorem keeps_complete (hW : W.Sound J Good Post) (endless : Nat → ε) {patience : Nat}
    {g : TaskGroup τ ρ ε} (h : InOrder Good Post size g) (hclean : Clean size g.outcomes) :
    Keeps J (g.complete W endless patience) fun g' =>
      InOrder Good Post size g' ∧ Clean size g'.outcomes ∧ g'.queue = [] := by
  induction patience generalizing g with
  | zero =>
      obtain ⟨queue, outcomes⟩ := g
      cases queue with
      | nil => exact keeps_pure ⟨h, hclean, rfl⟩
      | cons task queue => exact (keeps_leaveAll hW _).bind fun _ _ => keeps_throw _
  | succ patience ih =>
      unfold complete
      split
      · rename_i hdone
        exact keeps_pure ⟨h, hclean, List.isEmpty_iff.1 hdone⟩
      · exact (keeps_advance hW h hclean).bind fun g' hg' => ih hg'.1 hg'.2

/-! ## Results -/

/-- Where no outcome is missing and none is known to have failed, there are only results. -/
theorem exists_results {outcomes : List (Option (Except ε ρ))} (hnone : failure? outcomes = none)
    (hall : none ∉ outcomes) : ∃ rs : List ρ, outcomes = rs.map fun r => some (.ok r) := by
  induction outcomes with
  | nil => exact ⟨[], rfl⟩
  | cons o outcomes ih =>
      rcases o with _ | e | r
      · exact absurd List.mem_cons_self hall
      · cases hnone
      · obtain ⟨rs, hrs⟩ := ih hnone fun h => hall (List.mem_cons_of_mem _ h)
        exact ⟨r :: rs, by rw [hrs, List.map_cons]⟩

/-- A group of which no task is open and none has failed has the results of all tasks. -/
theorem InOrder.outcomes_of_done {g : TaskGroup τ ρ ε} (h : InOrder Good Post size g)
    (hclean : Clean size g.outcomes) (hdone : g.queue = []) :
    ∃ rs : List ρ, g.outcomes = rs.map fun r => some (.ok r) := by
  refine exists_results hclean.1 ?_
  intro hmem
  obtain ⟨place, hplace⟩ := List.getElem?_of_mem hmem
  have hopen := h.open_ place hplace
  rw [hdone] at hopen
  cases hopen

theorem InOrder.results_of_done {g : TaskGroup τ ρ ε} (h : InOrder Good Post size g)
    (hclean : Clean size g.outcomes) (hdone : g.queue = []) :
    g.results.length = size ∧ ∀ place r, g.results[place]? = some r → Post place r := by
  obtain ⟨rs, hrs⟩ := h.outcomes_of_done hclean hdone
  have hresults : g.results = rs := by
    rw [TaskGroup.results, hrs, List.filterMap_map]
    exact List.filterMap_some
  rw [hresults]
  constructor
  · rw [← h.length_eq, hrs, List.length_map]
  · intro place r hr
    refine h.results place r ?_
    rw [hrs, List.getElem?_map, hr]
    rfl

/-- In a group that has not been run, each task is in the queue with its place. -/
theorem getElem?_of_mem_start {tasks : List τ} {task : Nat × τ}
    (h : task ∈ (start tasks : TaskGroup τ ρ ε).queue) : tasks[task.1]? = some task.2 := by
  obtain ⟨⟨t, place⟩, hmem, rfl⟩ := List.mem_map.1 h
  exact List.mk_mem_zipIdx_iff_getElem?.1 hmem

theorem eq_none_of_mem_start {tasks : List τ} {o : Option (Except ε ρ)}
    (h : o ∈ (start tasks : TaskGroup τ ρ ε).outcomes) : o = none := by
  obtain ⟨_, _, rfl⟩ := List.mem_map.1 h
  rfl

theorem noError_start (tasks : List τ) : NoError (start tasks : TaskGroup τ ρ ε).outcomes := by
  intro e he
  cases eq_none_of_mem_start he

variable (ε Post) in
/-- A group of good tasks that has not been run is in order. -/
theorem inOrder_start {tasks : List τ} (h : ∀ place t, tasks[place]? = some t → Good place t) :
    InOrder Good Post tasks.length (start tasks : TaskGroup τ ρ ε) ∧
      Clean tasks.length (start tasks : TaskGroup τ ρ ε).outcomes := by
  refine ⟨⟨List.length_map _, ?_, ?_, ?_⟩, failure?_eq_none (noError_start tasks),
    fun _ => noError_start tasks⟩
  · intro task htask
    exact h task.1 task.2 (getElem?_of_mem_start htask)
  · intro place r hr
    cases eq_none_of_mem_start (List.mem_of_getElem? hr)
  · intro place hplace
    obtain ⟨hlt, _⟩ := List.getElem?_eq_some_iff.1 hplace
    rw [places_start, List.mem_range]
    rwa [start, List.length_map] at hlt

/-- **The results of a group.** A group of good tasks that comes to its end has a result of each
place, and all that is known of the result of a place holds of it. -/
theorem keeps_complete_start (hW : W.Sound J Good Post) (endless : Nat → ε) (patience : Nat)
    {tasks : List τ} (h : ∀ place t, tasks[place]? = some t → Good place t) :
    Keeps J ((start tasks).complete W endless patience) fun g =>
      g.results.length = tasks.length ∧ ∀ place r, g.results[place]? = some r → Post place r := by
  obtain ⟨horder, hclean⟩ := inOrder_start ε Post h
  refine (keeps_complete hW endless horder hclean).mono ?_
  rintro g ⟨hg, hgclean, hdone⟩
  exact hg.results_of_done hgclean hdone

end TaskGroup

end Quarry
