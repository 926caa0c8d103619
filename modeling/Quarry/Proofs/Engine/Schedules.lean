import Mathlib.Data.List.Induction
import Quarry.Proofs.Engine.TaskResults
import Quarry.Proofs.Except

/-!
# Tasks in any order

The turns of a group are one way of many to run its tasks. A schedule names the places of the tasks
in the order in which they are run, each as often as it likes, and places without an open task are
passed over. A failure takes its task out of the group and leaves the others alone. What a schedule
makes of a group is told by what one run can do. The turns follow a schedule, too.
-/

namespace Quarry

variable {σ τ ρ ε φ : Type}

namespace TaskGroup

/-! ## Schedules -/

/-- Runs the task of a place, if it is open. One that suspends goes to the tail of the queue. -/
def poll (W : Work σ τ ρ ε) (place : Nat) (g : TaskGroup τ ρ ε) : Action σ φ (TaskGroup τ ρ ε) :=
  match g.queue.find? fun task => task.1 == place with
  | none => return g
  | some (_, t) => do
    let rest := g.queue.eraseP fun task => task.1 == place
    match ← Action.outcome (W.run place t) with
    | .ok (.suspended t) => return { g with queue := rest ++ [(place, t)] }
    | .ok (.ended r) => return ⟨rest, g.outcomes.set place (some (.ok r))⟩
    | .error e => return ⟨rest, g.outcomes.set place (some (.error e))⟩

/-- Runs the tasks of these places one after another. -/
def follow (W : Work σ τ ρ ε) : List Nat → TaskGroup τ ρ ε → Action σ φ (TaskGroup τ ρ ε)
  | [], g => return g
  | place :: schedule, g => do
    let g ← g.poll W place
    follow W schedule g

/-- What a run of the task of a place can make of a group and a session. -/
inductive Polls (W : Work σ τ ρ ε) (place : Nat) :
    TaskGroup τ ρ ε → Session σ → TaskGroup τ ρ ε → Session σ → Prop
  | passed {g : TaskGroup τ ρ ε} {w : Session σ} (hclosed : place ∉ places g.queue) :
      Polls W place g w g w
  | suspended {before after : List (Nat × τ)} {t t' : τ} {outcomes : List (Option (Except ε ρ))}
      {w w' : Session σ} (hbefore : place ∉ places before)
      (hrun : (W.run place t).exec w = (.ok (.suspended t'), w')) :
      Polls W place ⟨before ++ (place, t) :: after, outcomes⟩ w
        ⟨before ++ after ++ [(place, t')], outcomes⟩ w'
  | settled {before after : List (Nat × τ)} {t : τ} {outcomes : List (Option (Except ε ρ))}
      (outcome : Except ε ρ) {w w' : Session σ} (hbefore : place ∉ places before)
      (hrun : (W.run place t).exec w = (outcome.map .ended, w')) :
      Polls W place ⟨before ++ (place, t) :: after, outcomes⟩ w
        ⟨before ++ after, outcomes.set place (some outcome)⟩ w'

variable {W : Work σ τ ρ ε} {place : Nat} {g : TaskGroup τ ρ ε} {w : Session σ}

/-- A queue is searched from its head. -/
theorem exists_open (h : place ∈ places g.queue) :
    ∃ before t after, g.queue = before ++ (place, t) :: after ∧ place ∉ places before := by
  obtain ⟨queue, outcomes⟩ := g
  induction queue with
  | nil => cases h
  | cons task queue ih =>
      by_cases htask : task.1 = place
      · subst htask
        exact ⟨[], task.2, queue, rfl, by simp [places]⟩
      · have hqueue : place ∈ places queue := by
          rcases List.mem_cons.1 h with heq | hmem
          · exact absurd heq.symm htask
          · exact hmem
        obtain ⟨before, t, after, hsplit, hbefore⟩ := ih hqueue
        refine ⟨task :: before, t, after, congrArg (task :: ·) hsplit, ?_⟩
        rintro (_ | ⟨_, hmem⟩)
        · exact htask rfl
        · exact hbefore hmem

theorem poll_of_closed (h : place ∉ places g.queue) :
    (g.poll W place : Action σ φ _) = return g := by
  have hnone : (g.queue.find? fun task => task.1 == place) = none := by
    rw [List.find?_eq_none]
    intro task htask heq
    exact h (List.mem_map.2 ⟨task, htask, beq_iff_eq.1 heq⟩)
  rw [poll, hnone]

theorem poll_of_open {before after : List (Nat × τ)} {t : τ}
    {outcomes : List (Option (Except ε ρ))} (h : place ∉ places before) :
    (poll W place ⟨before ++ (place, t) :: after, outcomes⟩ : Action σ φ _) = do
      match ← Action.outcome (W.run place t) with
      | .ok (.suspended t) => return ⟨before ++ after ++ [(place, t)], outcomes⟩
      | .ok (.ended r) => return ⟨before ++ after, outcomes.set place (some (.ok r))⟩
      | .error e => return ⟨before ++ after, outcomes.set place (some (.error e))⟩ := by
  have hbefore : ∀ task ∈ before, (task.1 == place) = false := by
    intro task htask
    exact beq_false_of_ne fun heq => h (List.mem_map.2 ⟨task, htask, heq⟩)
  have hfind : ((before ++ (place, t) :: after).find? fun task => task.1 == place) =
      some (place, t) := by
    rw [List.find?_append, List.find?_eq_none.2 (by simpa using hbefore),
      List.find?_cons_of_pos (by simp)]
    rfl
  have herase : ((before ++ (place, t) :: after).eraseP fun task => task.1 == place) =
      before ++ after := by
    rw [List.eraseP_append_right _ (by simpa using hbefore), List.eraseP_cons_of_pos (by simp)]
  simp only [poll, hfind, herase]

/-- A run of a task cannot fail, and this is all that it can do. -/
theorem exec_poll (W : Work σ τ ρ ε) (φ : Type) (place : Nat) (g : TaskGroup τ ρ ε)
    (w : Session σ) :
    ∃ g' w', (g.poll W place : Action σ φ _).exec w = (.ok g', w') ∧ Polls W place g w g' w' := by
  by_cases hopen : place ∈ places g.queue
  · obtain ⟨queue, outcomes⟩ := g
    obtain ⟨before, t, after, rfl, hbefore⟩ := exists_open hopen
    rw [poll_of_open hbefore, Action.exec_bind_ok (Action.exec_outcome (W.run place t) w)]
    cases hrun : (W.run place t).exec w with
    | mk r w' =>
        rcases r with e | t' | r
        · exact ⟨_, w', rfl, .settled (.error e) hbefore hrun⟩
        · exact ⟨_, w', rfl, .suspended hbefore hrun⟩
        · exact ⟨_, w', rfl, .settled (.ok r) hbefore hrun⟩
  · rw [poll_of_closed hopen]
    exact ⟨g, w, rfl, .passed hopen⟩

theorem follow_append (before after : List Nat) (g : TaskGroup τ ρ ε) :
    (g.follow W (before ++ after) : Action σ φ _) = g.follow W before >>= follow W after := by
  induction before generalizing g with
  | nil => rw [List.nil_append, follow, pure_bind]
  | cons place before ih => simp only [List.cons_append, follow, bind_assoc, ih]

theorem exec_follow_append {before after : List Nat} {g₁ : TaskGroup τ ρ ε} {w₁ : Session σ}
    (h : (g.follow W before : Action σ φ _).exec w = (.ok g₁, w₁)) :
    (g.follow W (before ++ after) : Action σ φ _).exec w =
      (g₁.follow W after : Action σ φ _).exec w₁ := by
  rw [follow_append, Action.exec_bind_ok h]

/-- **What every run preserves holds along every schedule.** -/
theorem exec_follow_of_polls (φ : Type) {P : List Nat → TaskGroup τ ρ ε → Session σ → Prop}
    (hstart : P [] g w)
    (hstep : ∀ done place g₁ w₁ g₂ w₂,
      (g.follow W done : Action σ φ _).exec w = (.ok g₁, w₁) → P done g₁ w₁ →
      Polls W place g₁ w₁ g₂ w₂ → P (done ++ [place]) g₂ w₂) (schedule : List Nat) :
    ∃ g' w', (g.follow W schedule : Action σ φ _).exec w = (.ok g', w') ∧ P schedule g' w' := by
  induction schedule using List.reverseRecOn with
  | nil => exact ⟨g, w, rfl, hstart⟩
  | append_singleton done place ih =>
      obtain ⟨g₁, w₁, hfollow, hP⟩ := ih
      obtain ⟨g₂, w₂, hpoll, hpolls⟩ := exec_poll W φ place g₁ w₁
      refine ⟨g₂, w₂, ?_, hstep done place g₁ w₁ g₂ w₂ hfollow hP hpolls⟩
      rw [exec_follow_append hfollow, follow, Action.exec_bind_ok hpoll]
      rfl

/-- An open task was open before, or it is the one that was run. -/
theorem Polls.mem_queue {g' : TaskGroup τ ρ ε} {w' : Session σ} (h : Polls W place g w g' w')
    {task : Nat × τ} (htask : task ∈ g'.queue) :
    task ∈ g.queue ∨ ∃ t t', (place, t) ∈ g.queue ∧ task = (place, t') ∧
      (W.run place t).exec w = (.ok (.suspended t'), w') := by
  cases h with
  | passed _ => exact .inl htask
  | @suspended before after t t' _ _ _ _ hrun =>
      rcases List.mem_append.1 htask with hold | hnew
      · refine .inl (List.perm_middle.mem_iff.2 (List.mem_cons_of_mem _ hold))
      · exact .inr ⟨t, t', by simp, List.mem_singleton.1 hnew, hrun⟩
  | settled _ _ _ => exact .inl (List.perm_middle.mem_iff.2 (List.mem_cons_of_mem _ htask))

/-- A result that is there was there before, or it is that of the task that was run. -/
theorem Polls.mem_outcomes {g' : TaskGroup τ ρ ε} {w' : Session σ} (h : Polls W place g w g' w')
    {r : ρ} (hr : some (.ok r) ∈ g'.outcomes) :
    some (.ok r) ∈ g.outcomes ∨ ∃ t, (place, t) ∈ g.queue ∧
      (W.run place t).exec w = (.ok (.ended r), w') := by
  cases h with
  | passed _ => exact .inl hr
  | suspended _ _ => exact .inl hr
  | @settled before after t outcomes outcome _ _ _ hrun =>
      rcases List.mem_or_eq_of_mem_set hr with hold | heq
      · exact .inl hold
      · cases heq
        exact .inr ⟨t, by simp, hrun⟩

/-- Nothing has been done but to run one open task, if anything. -/
theorem Polls.ran {g' : TaskGroup τ ρ ε} {w' : Session σ} (h : Polls W place g w g' w') :
    w' = w ∨ ∃ t, (place, t) ∈ g.queue ∧ w' = ((W.run place t).exec w).2 := by
  cases h with
  | passed _ => exact .inl rfl
  | @suspended _ _ t _ _ _ _ _ hrun => exact .inr ⟨t, by simp, by rw [hrun]⟩
  | @settled _ _ t _ _ _ _ _ hrun => exact .inr ⟨t, by simp, by rw [hrun]⟩

theorem Polls.metrics_eq {g' : TaskGroup τ ρ ε} {w' : Session σ}
    (hW : ∀ place t w, ((W.run place t).exec w).2.metrics = w.metrics)
    (h : Polls W place g w g' w') : w'.metrics = w.metrics := by
  rcases h.ran with rfl | ⟨t, _, rfl⟩
  · rfl
  · exact hW place t w

/-! ## Schedules that leave nobody out -/

/-- All tasks at their ends with results. -/
def ended (results : List ρ) : TaskGroup τ ρ ε := ⟨[], results.map fun r => some (.ok r)⟩

theorem results_ended (results : List ρ) :
    (ended results : TaskGroup τ ρ ε).results = results := by
  rw [TaskGroup.results, ended, List.filterMap_map]
  exact List.filterMap_some

variable {κ : Type} [AddCommMonoid κ] {Inv : κ → Session σ → Prop} {results : List ρ}
  {schedule : List Nat} {due others : κ}

/-- The open tasks come to their ends with these results within as many runs as the schedule has for
each, and owe so much altogether. -/
inductive Covered (W : Work σ τ ρ ε) (Inv : κ → Session σ → Prop) (results : List ρ)
    (schedule : List Nat) : List (Nat × τ) → κ → Prop
  | nil : Covered W Inv results schedule [] 0
  | cons {place : Nat} {t : τ} {due dues : κ} {r : ρ} {queue : List (Nat × τ)}
      (hresult : results[place]? = some r)
      (hends : W.Ends Inv place r (schedule.count place) due t)
      (hrest : Covered W Inv results schedule queue dues) :
      Covered W Inv results schedule ((place, t) :: queue) (due + dues)

namespace Covered

variable {queue before after : List (Nat × τ)}

theorem append {due₁ due₂ : κ} (h₁ : Covered W Inv results schedule before due₁)
    (h₂ : Covered W Inv results schedule after due₂) :
    Covered W Inv results schedule (before ++ after) (due₁ + due₂) := by
  induction h₁ with
  | nil => rwa [List.nil_append, zero_add]
  | cons hresult hends _ ih =>
      rw [List.cons_append, add_assoc]
      exact .cons hresult hends ih

/-- What is owed can be told apart by tasks. -/
theorem takeOut {t : τ}
    (h : Covered W Inv results schedule (before ++ (place, t) :: after) due) :
    ∃ share rest r, results[place]? = some r ∧
      W.Ends Inv place r (schedule.count place) share t ∧
      Covered W Inv results schedule (before ++ after) rest ∧ due = share + rest := by
  induction before generalizing due with
  | nil =>
      cases h with
      | cons hresult hends hrest => exact ⟨_, _, _, hresult, hends, hrest, rfl⟩
  | cons task before ih =>
      cases h with
      | cons hresult' hends' hrest' =>
          obtain ⟨share, rest, r, hresult, hends, hrest, rfl⟩ := ih hrest'
          exact ⟨share, _, r, hresult, hends, .cons hresult' hends' hrest, add_left_comm _ _ _⟩

/-- A run of one task is no run of the others. -/
theorem skip (h : Covered W Inv results (place :: schedule) queue due)
    (hclosed : place ∉ places queue) : Covered W Inv results schedule queue due := by
  induction h with
  | nil => exact .nil
  | @cons p t due dues r queue hresult hends _ ih =>
      obtain ⟨hne, hqueue⟩ := not_or.1 (mt List.mem_cons.2 hclosed)
      rw [List.count_cons_of_ne hne] at hends
      exact .cons hresult hends (ih hqueue)

end Covered

/-- A queue with the task of one place apart. -/
theorem places_perm (before after : List (Nat × τ)) (place : Nat) (t : τ) :
    (places (before ++ (place, t) :: after)).Perm (place :: places (before ++ after)) := by
  simp only [places, List.map_append, List.map_cons]
  exact List.perm_middle

/-- **A group on schedule.** The schedule leads its open tasks, no two of one place, to their ends,
and every other task has its result. -/
structure OnSchedule (W : Work σ τ ρ ε) (Inv : κ → Session σ → Prop) (results : List ρ)
    (schedule : List Nat) (g : TaskGroup τ ρ ε) (due : κ) : Prop where
  covered : Covered W Inv results schedule g.queue due
  settled : Settled results g.outcomes (places g.queue)
  nodup : (places g.queue).Nodup

/-- The next run of a schedule leaves the group on what is left of it. -/
theorem OnSchedule.polls {g' : TaskGroup τ ρ ε} {w' : Session σ}
    (h : OnSchedule W Inv results (place :: schedule) g due) (hpolls : Polls W place g w g' w')
    (hw : Inv (due + others) w) :
    ∃ due', OnSchedule W Inv results schedule g' due' ∧ Inv (due' + others) w' := by
  obtain ⟨hcovered, hsettled, hplaces⟩ := h
  cases hpolls with
  | passed hclosed => exact ⟨due, ⟨hcovered.skip hclosed, hsettled, hplaces⟩, hw⟩
  | @suspended before after t t' outcomes _ _ _ hrun =>
      obtain ⟨share, rest, r, hresult, hends, hrest, rfl⟩ := hcovered.takeOut
      have hperm := places_perm before after place t
      obtain ⟨hother, hnodup⟩ := List.nodup_cons.1 (hperm.nodup_iff.1 hplaces)
      rw [List.count_cons_self] at hends
      rw [add_assoc] at hw
      obtain ⟨progress, w', hrun', hprogress⟩ := hends (rest + others) w hw
      rw [hrun] at hrun'
      cases hrun'
      obtain ⟨share', hw', hends'⟩ := hprogress
      have htask : Covered W Inv results schedule [(place, t')] (share' + 0) :=
        .cons hresult hends' .nil
      have hback := places_perm (before ++ after) [] place t'
      rw [List.append_nil] at hback
      refine ⟨_, ⟨(hrest.skip hother).append htask, hsettled.mono ?_,
        hback.nodup_iff.2 (List.nodup_cons.2 ⟨hother, hnodup⟩)⟩, ?_⟩
      · intro p hp
        exact hback.mem_iff.2 (hperm.mem_iff.1 hp)
      · have hshare : rest + (share' + 0) + others = share' + (rest + others) := by abel
        rwa [hshare]
  | @settled before after t outcomes outcome _ _ _ hrun =>
      obtain ⟨share, rest, r, hresult, hends, hrest, rfl⟩ := hcovered.takeOut
      have hperm := places_perm before after place t
      obtain ⟨hother, hnodup⟩ := List.nodup_cons.1 (hperm.nodup_iff.1 hplaces)
      rw [List.count_cons_self] at hends
      rw [add_assoc] at hw
      obtain ⟨progress, w', hrun', hprogress⟩ := hends (rest + others) w hw
      rw [hrun] at hrun'
      cases outcome with
      | error e => cases hrun'
      | ok r' =>
          cases hrun'
          obtain ⟨rfl, hw'⟩ := hprogress
          refine ⟨rest, ⟨hrest.skip hother, hsettled.set hresult ?_, hnodup⟩, hw'⟩
          intro p hp
          exact List.mem_cons.1 (hperm.mem_iff.1 hp)

/-- A schedule that has led all tasks to their ends. -/
theorem OnSchedule.of_nil (h : OnSchedule W Inv results [] g due) :
    g = ended results ∧ due = 0 := by
  obtain ⟨queue, outcomes⟩ := g
  obtain ⟨hcovered, hsettled, _⟩ := h
  cases hcovered with
  | nil =>
      rw [ended, ← hsettled.outcomes_eq]
      exact ⟨rfl, rfl⟩
  | cons _ hends _ => exact hends.elim

/-- **Any order will do.** Where every open task comes to its end whatever runs in between, and the
schedule runs each of them often enough, the group comes to its end with all results. -/
theorem exec_follow_onSchedule (φ : Type) (h : OnSchedule W Inv results schedule g due)
    (hw : Inv (due + others) w) :
    ∃ w', (g.follow W schedule : Action σ φ _).exec w = (.ok (ended results), w') ∧
      Inv others w' := by
  induction schedule generalizing g due w with
  | nil =>
      obtain ⟨rfl, rfl⟩ := h.of_nil
      rw [zero_add] at hw
      exact ⟨w, rfl, hw⟩
  | cons place schedule ih =>
      obtain ⟨g₁, w₁, hpoll, hpolls⟩ := exec_poll W φ place g w
      obtain ⟨due', h', hw'⟩ := h.polls hpolls hw
      rw [follow, Action.exec_bind_ok hpoll]
      exact ih h' hw'

theorem covered_zipIdx {tasks : List τ} {dueOf : τ → κ} (place : Nat)
    (h : ∀ i t, tasks[i]? = some t → ∃ r, results[place + i]? = some r ∧
      W.Ends Inv (place + i) r (schedule.count (place + i)) (dueOf t) t) :
    Covered W Inv results schedule ((tasks.zipIdx place).map fun (t, i) => (i, t))
      (tasks.map dueOf).sum := by
  induction tasks generalizing place with
  | nil => exact .nil
  | cons t tasks ih =>
      obtain ⟨r, hresult, hends⟩ := h 0 t rfl
      rw [List.map_cons, List.sum_cons]
      refine .cons hresult hends (ih (place + 1) ?_)
      intro i t ht
      rw [Nat.add_assoc, Nat.add_comm 1 i]
      exact h (i + 1) t ht

/-- A group is on a schedule that has runs enough for each of its tasks. -/
theorem onSchedule_start {tasks : List τ} {dueOf : τ → κ} (hlength : tasks.length = results.length)
    (h : ∀ i t, tasks[i]? = some t → ∃ r, results[i]? = some r ∧
      W.Ends Inv i r (schedule.count i) (dueOf t) t) :
    OnSchedule W Inv results schedule (start tasks) (tasks.map dueOf).sum where
  covered := covered_zipIdx 0 (by
    intro i t ht
    rw [Nat.zero_add]
    exact h i t ht)
  settled := settled_start tasks hlength
  nodup := by
    rw [places_start]
    exact List.nodup_range

/-! ## Failures along a schedule -/

/-- When the schedule comes to the task of this place, the task is open, and it fails. -/
def FailsAlong (W : Work σ τ ρ ε) (g : TaskGroup τ ρ ε) (schedule : List Nat) (w : Session σ)
    (place : Nat) (e : ε) : Prop :=
  ∃ before after g₁ w₁ t, schedule = before ++ place :: after ∧
    (g.follow W before : Action σ ε _).exec w = (.ok g₁, w₁) ∧ (place, t) ∈ g₁.queue ∧
    ((W.run place t).exec w₁).1 = .error e

/-- A failure along a schedule comes with its last run or before. -/
theorem failsAlong_concat {done : List Nat} {p : Nat} {e : ε} {g₁ : TaskGroup τ ρ ε}
    {w₁ : Session σ} (h : (g.follow W done : Action σ ε _).exec w = (.ok g₁, w₁)) :
    FailsAlong W g (done ++ [place]) w p e ↔
      FailsAlong W g done w p e ∨
        p = place ∧ ∃ t, (place, t) ∈ g₁.queue ∧ ((W.run place t).exec w₁).1 = .error e := by
  constructor
  · rintro ⟨before, after, g₂, w₂, t, hsplit, hfollow, hopen, hfails⟩
    rcases List.eq_nil_or_concat after with rfl | ⟨after, last, rfl⟩
    · obtain ⟨rfl, hplace⟩ := List.append_inj' hsplit rfl
      cases hplace
      rw [h] at hfollow
      cases hfollow
      exact .inr ⟨rfl, t, hopen, hfails⟩
    · rw [List.concat_eq_append, ← List.cons_append, ← List.append_assoc] at hsplit
      obtain ⟨rfl, -⟩ := List.append_inj' hsplit rfl
      exact .inl ⟨before, after, g₂, w₂, t, rfl, hfollow, hopen, hfails⟩
  · rintro (⟨before, after, g₂, w₂, t, rfl, hfollow, hopen, hfails⟩ | ⟨rfl, t, hopen, hfails⟩)
    · exact ⟨before, after ++ [place], g₂, w₂, t, by simp, hfollow, hopen, hfails⟩
    · exact ⟨done, [], g₁, w₁, t, rfl, h, hopen, hfails⟩

/-- Of a place there is one task only. -/
theorem failsAlong_concat_open {done : List Nat} {before after : List (Nat × τ)} {t : τ}
    {outcomes : List (Option (Except ε ρ))} {w₁ : Session σ} {p : Nat} {e : ε}
    (h : (g.follow W done : Action σ ε _).exec w =
      (.ok ⟨before ++ (place, t) :: after, outcomes⟩, w₁))
    (hother : place ∉ places (before ++ after)) :
    FailsAlong W g (done ++ [place]) w p e ↔
      FailsAlong W g done w p e ∨ p = place ∧ ((W.run place t).exec w₁).1 = .error e := by
  rw [failsAlong_concat h]
  refine or_congr_right (and_congr_right fun _ => ?_)
  constructor
  · rintro ⟨t', htask, hfails⟩
    have hmem := List.perm_middle.mem_iff.1 htask
    rcases List.mem_cons.1 hmem with heq | hmem
    · cases heq
      exact hfails
    · exact absurd (List.mem_map.2 ⟨_, hmem, rfl⟩) hother
  · intro hfails
    exact ⟨t, by simp, hfails⟩

/-- The outcomes tell the failures along the schedule so far. The tasks in the queue, no two of one
place, have no outcome. -/
structure Tells (W : Work σ τ ρ ε) (g₀ : TaskGroup τ ρ ε) (w₀ : Session σ) (done : List Nat)
    (g : TaskGroup τ ρ ε) : Prop where
  nodup : (places g.queue).Nodup
  open_ : ∀ place ∈ places g.queue, g.outcomes[place]? = some none
  failed : ∀ place e,
    g.outcomes[place]? = some (some (.error e)) ↔ FailsAlong W g₀ done w₀ place e

theorem Tells.polls {done : List Nat} {g₁ g₂ : TaskGroup τ ρ ε} {w₁ w₂ : Session σ}
    (h : Tells W g w done g₁) (hfollow : (g.follow W done : Action σ ε _).exec w = (.ok g₁, w₁))
    (hpolls : Polls W place g₁ w₁ g₂ w₂) : Tells W g w (done ++ [place]) g₂ := by
  obtain ⟨hplaces, hopen, hfailed⟩ := h
  cases hpolls with
  | passed hclosed =>
      refine ⟨hplaces, hopen, ?_⟩
      intro p e
      rw [hfailed, failsAlong_concat hfollow]
      refine (or_iff_left ?_).symm
      rintro ⟨-, t, htask, -⟩
      exact hclosed (List.mem_map.2 ⟨_, htask, rfl⟩)
  | @suspended before after t t' outcomes _ _ _ hrun =>
      have hperm := places_perm before after place t
      have hback := places_perm (before ++ after) [] place t'
      rw [List.append_nil] at hback
      have hsame := hback.trans hperm.symm
      have hother := (List.nodup_cons.1 (hperm.nodup_iff.1 hplaces)).1
      refine ⟨hsame.nodup_iff.2 hplaces, fun p hp => hopen p (hsame.mem_iff.1 hp), ?_⟩
      intro p e
      rw [hfailed, failsAlong_concat_open hfollow hother, hrun]
      refine (or_iff_left ?_).symm
      rintro ⟨-, ⟨⟩⟩
  | @settled before after t outcomes outcome _ _ _ hrun =>
      have hperm := places_perm before after place t
      obtain ⟨hother, hnodup⟩ := List.nodup_cons.1 (hperm.nodup_iff.1 hplaces)
      have hnone : outcomes[place]? = some none := hopen place (hperm.mem_iff.2 List.mem_cons_self)
      refine ⟨hnodup, ?_, ?_⟩
      · intro p hp
        have hne : place ≠ p := fun heq => hother (heq ▸ hp)
        rw [List.getElem?_set_ne hne]
        exact hopen p (hperm.mem_iff.2 (List.mem_cons_of_mem _ hp))
      · intro p e
        rw [failsAlong_concat_open hfollow hother, hrun, ← hfailed]
        by_cases hp : p = place
        · subst hp
          rw [List.getElem?_set_self (List.getElem?_eq_some_iff.1 hnone).1, hnone]
          cases outcome <;> simp [Except.map]
        · rw [List.getElem?_set_ne (Ne.symm hp)]
          exact (or_iff_left fun hlast => hp hlast.1).symm

/-- **A failure is told, and what is told has failed.** -/
theorem exec_follow_tells (hplaces : (places g.queue).Nodup)
    (hopen : ∀ place ∈ places g.queue, g.outcomes[place]? = some none) (hnone : NoError g.outcomes)
    (schedule : List Nat) :
    ∃ g' w', (g.follow W schedule : Action σ ε _).exec w = (.ok g', w') ∧
      Tells W g w schedule g' := by
  refine exec_follow_of_polls ε (P := fun done g' _ => Tells W g w done g') ⟨hplaces, hopen, ?_⟩
    ?_ schedule
  · intro place e
    refine iff_of_false (fun h => hnone e (List.mem_of_getElem? h)) ?_
    rintro ⟨before, after, _, _, _, hsplit, _⟩
    cases before <;> cases hsplit
  · intro done place g₁ w₁ g₂ w₂ hfollow hP hpolls
    exact hP.polls hfollow hpolls

/-- **A failure is told, and what is told has failed,** from the start of a group on. -/
theorem exec_follow_start_tells (W : Work σ τ ρ ε) (tasks : List τ) (schedule : List Nat)
    (w : Session σ) :
    ∃ g' w', ((start tasks).follow W schedule : Action σ ε _).exec w = (.ok g', w') ∧
      Tells W (start tasks) w schedule g' := by
  refine exec_follow_tells ?_ ?_ (noError_start tasks) schedule
  · rw [places_start]
    exact List.nodup_range
  · intro place hplace
    rw [places_start, List.mem_range] at hplace
    rw [start, List.getElem?_map, List.getElem?_eq_getElem hplace]
    rfl

/-! ## Outcomes joined -/

/-- A way of joining the outcomes of tasks. Where all have ended, it yields their results in order.
Where some have failed, it fails with the failure of one of them. -/
structure JoinsAll (join : List (Option (Except ε ρ)) → Except ε (List ρ)) : Prop where
  ended : ∀ rs, join (rs.map fun r => some (.ok r)) = .ok rs
  failed : ∀ outcomes e, some (.error e) ∈ outcomes →
    ∃ e', some (.error e') ∈ outcomes ∧ join outcomes = .error e'

/-- Joins outcomes up to the first failure in the order of the tasks. -/
def joinInOrder (outcomes : List (Option (Except ε ρ))) : Except ε (List ρ) :=
  (outcomes.filterMap id).mapM id

@[simp] theorem joinInOrder_none (outcomes : List (Option (Except ε ρ))) :
    joinInOrder (none :: outcomes) = joinInOrder outcomes := rfl

@[simp] theorem joinInOrder_error (e : ε) (outcomes : List (Option (Except ε ρ))) :
    joinInOrder (some (.error e) :: outcomes) = .error e := by
  show List.mapM id (.error e :: outcomes.filterMap id) = _
  rw [List.mapM_cons]
  rfl

@[simp] theorem joinInOrder_ok (r : ρ) (outcomes : List (Option (Except ε ρ))) :
    joinInOrder (some (.ok r) :: outcomes) = (joinInOrder outcomes).map (r :: ·) := by
  show List.mapM id (.ok r :: outcomes.filterMap id) = _
  rw [List.mapM_cons, joinInOrder]
  show ((outcomes.filterMap id).mapM id >>= fun rs => pure (r :: rs)) = _
  cases (outcomes.filterMap id).mapM id <;> rfl

theorem joinsAll_joinInOrder : JoinsAll (joinInOrder : _ → Except ε (List ρ)) where
  ended rs := by
    induction rs with
    | nil => rfl
    | cons r rs ih => rw [List.map_cons, joinInOrder_ok, ih, Except.map]
  failed outcomes e he := by
    induction outcomes with
    | nil => cases he
    | cons o outcomes ih =>
        rcases o with _ | e' | r
        · obtain ⟨e', hmem, hjoin⟩ := ih (by simpa using he)
          exact ⟨e', List.mem_cons_of_mem _ hmem, hjoin⟩
        · exact ⟨e', List.mem_cons_self, joinInOrder_error e' outcomes⟩
        · obtain ⟨e', hmem, hjoin⟩ := ih (by simpa using he)
          exact ⟨e', List.mem_cons_of_mem _ hmem, by rw [joinInOrder_ok, hjoin, Except.map]⟩

/-- The results that are joined are outcomes. -/
theorem mem_of_joinInOrder {outcomes : List (Option (Except ε ρ))} {rs : List ρ}
    (h : joinInOrder outcomes = .ok rs) {r : ρ} (hr : r ∈ rs) : some (.ok r) ∈ outcomes := by
  obtain ⟨outcome, hmem, hok⟩ := exists_of_mem_right (mapM_eq_ok.1 h) hr
  obtain ⟨o, ho, hsome⟩ := List.mem_filterMap.1 hmem
  cases hsome
  cases hok
  exact ho

theorem joinInOrder_of_failure? {outcomes : List (Option (Except ε ρ))} {e : ε}
    (h : failure? outcomes = some e) : joinInOrder outcomes = .error e := by
  induction outcomes with
  | nil => cases h
  | cons o outcomes ih =>
      rcases o with _ | e' | r
      · cases h
      · cases h
        exact joinInOrder_error e outcomes
      · rw [joinInOrder_ok, ih h, Except.map]

/-- The only failure is the first. -/
theorem joinInOrder_set_error {outcomes : List (Option (Except ε ρ))} (h : NoError outcomes)
    {place : Nat} (hlt : place < outcomes.length) (e : ε) :
    joinInOrder (outcomes.set place (some (.error e))) = .error e := by
  obtain ⟨e', hmem, hjoin⟩ := joinsAll_joinInOrder.failed _ e (List.mem_set hlt _)
  rcases List.mem_or_eq_of_mem_set hmem with hold | heq
  · exact absurd hold (h e')
  · cases heq
    exact hjoin

/-! ## Turns along a schedule -/

/-- What becomes of the group is what becomes of it along some schedule. If it fails, this is with
the first failure in the order of the tasks. -/
def Follows (W : Work σ τ ρ ε) (g : TaskGroup τ ρ ε) (w : Session σ)
    (out : Except ε (TaskGroup τ ρ ε) × Session σ) : Prop :=
  ∃ schedule g', (g.follow W schedule : Action σ ε _).exec w = (.ok g', out.2) ∧
    (out.1 = .ok g' ∨ ∃ e, out.1 = .error e ∧ joinInOrder g'.outcomes = .error e)

variable {out : Except ε (TaskGroup τ ρ ε) × Session σ}

theorem follows_refl (g : TaskGroup τ ρ ε) (w : Session σ) : Follows W g w (.ok g, w) :=
  ⟨[], g, rfl, .inl rfl⟩

theorem follows_error {e : ε} (h : joinInOrder g.outcomes = .error e) (w : Session σ) :
    Follows W g w (.error e, w) :=
  ⟨[], g, rfl, .inr ⟨e, rfl, h⟩⟩

theorem Follows.poll {g₁ : TaskGroup τ ρ ε} {w₁ : Session σ}
    (hpoll : (g.poll W place : Action σ ε _).exec w = (.ok g₁, w₁)) (h : Follows W g₁ w₁ out) :
    Follows W g w out := by
  obtain ⟨schedule, g', hfollow, hout⟩ := h
  refine ⟨place :: schedule, g', ?_, hout⟩
  rw [follow, Action.exec_bind_ok hpoll, hfollow]

theorem Follows.trans {g₁ : TaskGroup τ ρ ε} {w₁ : Session σ} (h : Follows W g w (.ok g₁, w₁))
    (h₁ : Follows W g₁ w₁ out) : Follows W g w out := by
  obtain ⟨schedule, g', hfollow, hout⟩ := h
  obtain ⟨schedule₁, g₂, hfollow₁, hout₁⟩ := h₁
  rcases hout with heq | ⟨e, heq, _⟩
  · cases heq
    exact ⟨schedule ++ schedule₁, g₂, by rw [exec_follow_append hfollow, hfollow₁], hout₁⟩
  · cases heq

section Turns

variable (hleave : ∀ t, W.leave t = return)

include hleave

/-- Giving up tasks does nothing. -/
theorem exec_leaveAll (tasks : List (Nat × τ)) (w : Session σ) :
    (leaveAll W tasks).exec w = (.ok (), w) := by
  induction tasks with
  | nil => rfl
  | cons task tasks ih =>
      show (W.leave task.2 >>= fun _ => leaveAll W tasks).exec w = _
      rw [hleave, pure_bind, ih]

omit hleave in
theorem exec_poll_suspended {rest : List (Nat × τ)} {outcomes : List (Option (Except ε ρ))}
    {t t' : τ} {w' : Session σ} (hrun : (W.run place t).exec w = (.ok (.suspended t'), w')) :
    (poll W place ⟨(place, t) :: rest, outcomes⟩ : Action σ φ _).exec w =
      (.ok ⟨rest ++ [(place, t')], outcomes⟩, w') := by
  show (poll W place ⟨[] ++ (place, t) :: rest, outcomes⟩).exec w = _
  rw [poll_of_open List.not_mem_nil, Action.exec_bind_ok (Action.exec_outcome _ _), hrun]
  rfl

omit hleave in
theorem exec_poll_settled {rest : List (Nat × τ)} {outcomes : List (Option (Except ε ρ))}
    {t : τ} {w' : Session σ} (outcome : Except ε ρ)
    (hrun : (W.run place t).exec w = (outcome.map .ended, w')) :
    (poll W place ⟨(place, t) :: rest, outcomes⟩ : Action σ φ _).exec w =
      (.ok ⟨rest, outcomes.set place (some outcome)⟩, w') := by
  show (poll W place ⟨[] ++ (place, t) :: rest, outcomes⟩).exec w = _
  rw [poll_of_open List.not_mem_nil, Action.exec_bind_ok (Action.exec_outcome _ _), hrun]
  cases outcome <;> rfl

theorem follows_round {before rest : List (Nat × τ)} {outcomes : List (Option (Except ε ρ))}
    (hplaces : ∀ place ∈ places rest, place < outcomes.length) (hnone : NoError outcomes) :
    Follows W ⟨rest ++ before, outcomes⟩ w ((round W outcomes before rest).exec w) := by
  induction rest generalizing before outcomes w with
  | nil => exact follows_refl _ w
  | cons task rest ih =>
      obtain ⟨place, t⟩ := task
      have hplace : place < outcomes.length := hplaces place List.mem_cons_self
      have hrest : ∀ p ∈ places rest, p < outcomes.length :=
        fun p hp => hplaces p (List.mem_cons_of_mem _ hp)
      rw [round, List.cons_append]
      cases hrun : (W.run place t).exec w with
      | mk r w' =>
          rcases r with e | t' | r
          · have hround : ((W.run place t).orElseDo fun _ => leaveAll W (before ++ rest)).exec w =
                (.error e, w') := by
              rw [Action.exec_orElseDo, hrun]
              exact Action.exec_bind_ok (exec_leaveAll hleave _ _)
            rw [Action.exec_bind_error hround]
            have hjoin := joinInOrder_set_error hnone hplace e
            exact (follows_error hjoin w').poll (exec_poll_settled (.error e) hrun)
          · rw [Action.exec_bind_ok (Action.exec_orElseDo_ok hrun)]
            have hnext : Follows W ⟨rest ++ (before ++ [(place, t')]), outcomes⟩ w' _ :=
              ih hrest hnone
            rw [← List.append_assoc] at hnext
            exact hnext.poll (exec_poll_suspended hrun)
          · rw [Action.exec_bind_ok (Action.exec_orElseDo_ok hrun)]
            refine Follows.poll (exec_poll_settled (.ok r) hrun) (ih ?_ (hnone.settle place r))
            rwa [List.length_set]

omit hleave in
theorem exists_schedule_runSome (n : Nat) (g : TaskGroup τ ρ ε) (w : Session σ) :
    ∃ ended g' w', (runSome W n g).exec w = (.ok (ended, g'), w') ∧
      Follows W g w (.ok g', w') := by
  induction n generalizing g w with
  | zero => exact ⟨false, g, w, rfl, follows_refl g w⟩
  | succ n ih =>
      obtain ⟨queue, outcomes⟩ := g
      cases queue with
      | nil => exact ⟨false, _, w, rfl, follows_refl _ w⟩
      | cons task rest =>
          obtain ⟨place, t⟩ := task
          rw [runSome]
          simp only
          rw [Action.exec_bind_ok (Action.exec_outcome (W.run place t) w)]
          cases hrun : (W.run place t).exec w with
          | mk r w₁ =>
              rcases r with e | t' | r
              · exact ⟨true, _, w₁, rfl,
                  (follows_refl _ w₁).poll (exec_poll_settled (.error e) hrun)⟩
              · obtain ⟨ended, g', w', hexec, hfollows⟩ := ih ⟨rest ++ [(place, t')], outcomes⟩ w₁
                exact ⟨ended, g', w', hexec, hfollows.poll (exec_poll_suspended hrun)⟩
              · exact ⟨true, _, w₁, rfl,
                  (follows_refl _ w₁).poll (exec_poll_settled (.ok r) hrun)⟩

theorem follows_turn (n : Nat) (g : TaskGroup τ ρ ε) (w : Session σ) :
    Follows W g w ((turn W n g).exec w) := by
  induction n generalizing g w with
  | zero => exact follows_refl g w
  | succ n ih =>
      obtain ⟨ended, g', w', hsome, hfollows⟩ :=
        exists_schedule_runSome (W := W) (min 2 g.queue.length) g w
      rw [turn, Action.exec_bind_ok hsome]
      cases ended with
      | false => exact hfollows
      | true =>
          cases hfailure : failure? g'.outcomes with
          | none =>
              simp only [if_true, hfailure]
              exact hfollows.trans (ih g' w')
          | some e =>
              simp only [if_true, hfailure]
              rw [Action.exec_bind_ok (exec_leaveAll hleave _ _)]
              exact hfollows.trans (follows_error (joinInOrder_of_failure? hfailure) w')

/-- A group of so many tasks is in order. -/
abbrev Fair (size : Nat) (g : TaskGroup τ ρ ε) : Prop :=
  InOrder (fun place _ => place < size) (fun _ _ => True) size g ∧ Clean size g.outcomes

variable {size : Nat}

theorem follows_advance (h : Fair size g) (w : Session σ) :
    Follows W g w ((g.advance W).exec w) := by
  obtain ⟨horder, hclean⟩ := h
  unfold advance
  split
  · rename_i hsmall
    rw [horder.length_eq] at hsmall
    have hplaces : ∀ place ∈ places g.queue, place < g.outcomes.length := by
      intro place hplace
      obtain ⟨task, htask, rfl⟩ := List.mem_map.1 hplace
      rw [horder.length_eq]
      exact horder.good task htask
    have hround : Follows W ⟨g.queue ++ [], g.outcomes⟩ w _ :=
      follows_round hleave hplaces (hclean.2 hsmall)
    rwa [List.append_nil] at hround
  · exact follows_turn hleave g.queue.length g w

omit hleave in
theorem fair_start (tasks : List τ) :
    Fair tasks.length (start tasks : TaskGroup τ ρ ε) := by
  refine inOrder_start ε (fun _ _ => True) ?_
  intro place t ht
  exact (List.getElem?_eq_some_iff.1 ht).1

omit hleave in
variable (W) in
theorem sound_trivial (size : Nat) :
    W.Sound (fun _ => True) (fun place _ => place < size) fun _ _ => True where
  run place t hplace w _ := by
    refine ⟨trivial, ?_⟩
    rintro (t' | r) _
    · exact hplace
    · exact trivial
  leave _ _ _ := ⟨trivial, fun _ _ => trivial⟩

omit hleave in
/-- A group that is completed has the results of all tasks. -/
theorem ended_of_complete {endless : Nat → ε} {patience : Nat} (h : Fair size g)
    {g' : TaskGroup τ ρ ε} {w' : Session σ}
    (hcomplete : (g.complete W endless patience).exec w = (.ok g', w')) :
    ∃ rs, g' = ended rs := by
  have hkeeps : Action.Keeps _ (g.complete W endless patience) _ :=
    keeps_complete (sound_trivial W size) endless h.1 h.2
  obtain ⟨-, hend⟩ := hkeeps w trivial
  rw [hcomplete] at hend
  obtain ⟨horder, hclean, hdone⟩ := hend g' rfl
  obtain ⟨rs, hrs⟩ := horder.outcomes_of_done hclean hdone
  obtain ⟨queue, outcomes⟩ := g'
  cases hdone
  cases hrs
  exact ⟨rs, rfl⟩

/-- **A group follows a schedule** to its end, or its patience comes to an end. -/
theorem follows_complete (endless : Nat → ε) (patience : Nat) (h : Fair size g) (w : Session σ) :
    Follows W g w ((g.complete W endless patience).exec w) ∨
      ∃ place, ((g.complete W endless patience).exec w).1 = .error (endless place) := by
  induction patience generalizing g w with
  | zero =>
      obtain ⟨queue, outcomes⟩ := g
      cases queue with
      | nil => exact .inl (follows_refl _ w)
      | cons task queue =>
          refine .inr ⟨task.1, ?_⟩
          rw [complete, Action.exec_bind_ok (exec_leaveAll hleave _ _)]
          rfl
  | succ patience ih =>
      rw [complete]
      split
      · exact .inl (follows_refl g w)
      · have hadvance := follows_advance hleave h w
        have hkeeps := keeps_advance (sound_trivial W size) h.1 h.2 w trivial
        cases hexec : (g.advance W).exec w with
        | mk r w' =>
            rw [hexec] at hadvance hkeeps
            cases r with
            | error e =>
                rw [Action.exec_bind_error hexec]
                exact .inl hadvance
            | ok g' =>
                rw [Action.exec_bind_ok hexec]
                exact (ih (hkeeps.2 g' rfl) w').imp hadvance.trans id

end Turns

end TaskGroup

end Quarry
