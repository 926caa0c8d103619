import Mathlib.Data.Multiset.Bind
import Quarry.Proofs.Engine.FanOut
import Quarry.Proofs.Engine.Schedules

/-!
# Fan-outs in any order

The round trips of a fan-out may come in any order. On a memory that stays as it is, they lead to
the same results, and to the same counters, whatever the order. On any store, a round trip that
fails ends the fan-out with the failure of a query that has failed. The order that the engine keeps
is one of all these.
-/

namespace Quarry

variable {σ : Type}

/-- Runs queries side by side, their tasks as a schedule says. `join` makes one outcome of what has
become of them. -/
def executeAlong (S : Store σ)
    (join : List (Option (Except (Nat × StoreError) Drain)) →
      Except (Nat × StoreError) (List Drain))
    (schedule : List Nat) (queries : List Query) : Action σ ExecutionError ResultSet := do
  let f ← FanOut.enter queries
  let drains ← f.through do
    let group ← f.group.follow (Pull.work S) schedule
    Action.ofExcept id (join group.outcomes)
  FanOut.finish { f with group := .ended drains }

/-- The results of queries of which each is drained to `drain` through the pages of `pages`. What
one query yields stays together, and the queries keep their order. -/
structure ResultSet.IsJoined (queries : List Query) (drain : Query → Drain)
    (pages : Query → List Query) (r : ResultSet) : Prop where
  entities : r.entities = queries.flatMap fun q => (drain q).slots.filterMap id
  slots : r.placeholdersFiltered + r.entities.length =
    (queries.map fun q => (drain q).slots.length).sum
  batches : r.batchesRun = (queries.map fun q => (pages q).length).sum
  issued : r.queriesIssued = queries.length

/-! ## Counters -/

namespace Metrics

variable (m : Metrics)

theorem add_zero (c : Counter) : m.add c 0 = m := by
  cases m with
  | mk value =>
      rw [add]
      congr
      funext d
      rw [UInt64.add_zero, ite_self]

/-- The counters when a fan-out has come to its end. -/
def fannedOut (r : ResultSet) : Metrics :=
  ((m.add .queriesIssued (.ofNat r.queriesIssued)).add .placeholdersFiltered
    (.ofNat r.placeholdersFiltered)).add .entitiesReturned (.ofNat r.entities.length)

/-- The counters when a fan-out of so many queries has failed. -/
def failedToFanOut (queries : Nat) : Metrics :=
  (m.add .queriesIssued (.ofNat queries)).add .storeFailures 1

end Metrics

/-! ## Runs of a task -/

namespace Pull

/-- The query that a task drains. -/
def query : Pull → Query
  | fresh q => q
  | asked d _ => d.query

/-- What a run of a task of this place can come to, and the session it leaves. -/
inductive Runs (S : Store σ) (place : Nat) :
    Pull → Session σ → Except (Nat × StoreError) (Progress Pull Drain) × Session σ → Prop
  | asks (q : Query) (w : Session σ) :
      Runs S place (fresh q) w
        (.ok (.suspended (asked (.start q) (S.ask q w.store).1)),
          { w with store := (S.ask q w.store).2 })
  | fails {d : Drain} {t : Ticket} {w : Session σ} {e : StoreError} {s : σ}
      (hredeem : S.redeem t w.store = (.error e, s)) :
      Runs S place (asked d t) w (.error (place, e), { w with store := s })
  | ends {d : Drain} {t : Ticket} {w : Session σ} {page : Page} {s : σ}
      (hredeem : S.redeem t w.store = (.ok page, s)) (hnext : (d.add page).next? page = none) :
      Runs S place (asked d t) w (.ok (.ended (d.add page)), { w with store := s })
  | goesOn {d : Drain} {t : Ticket} {w : Session σ} {page : Page} {c : Cursor} {s : σ}
      (hredeem : S.redeem t w.store = (.ok page, s)) (hnext : (d.add page).next? page = some c) :
      Runs S place (asked d t) w
        (.ok (.suspended (asked (d.add page) (S.ask ((d.add page).queryFrom c) s).1)),
          { w with
            store := (S.ask ((d.add page).queryFrom c) s).2
            journal := w.journal ++ [continued (d.add page)] })

theorem runs (S : Store σ) (place : Nat) (p : Pull) (w : Session σ) :
    Runs S place p w (((work S).run place p).exec w) := by
  show Runs S place p w (Action.exec ((p.advance S).adapt _) w)
  rw [Action.exec_adapt]
  cases p with
  | fresh q => exact .asks q w
  | asked d t =>
      cases hredeem : S.redeem t w.store with
      | mk answer s =>
          cases answer with
          | error e =>
              rw [exec_asked_error hredeem]
              exact .fails hredeem
          | ok page =>
              cases hnext : (d.add page).next? page with
              | none =>
                  rw [exec_asked_last hredeem hnext]
                  exact .ends hredeem hnext
              | some c =>
                  rw [exec_asked_more hredeem hnext rfl]
                  exact .goesOn hredeem hnext

/-- A run counts nothing. -/
theorem metrics_run (S : Store σ) (place : Nat) (p : Pull) (w : Session σ) :
    (((work S).run place p).exec w).2.metrics = w.metrics := by
  have hruns := runs S place p w
  generalize ((work S).run place p).exec w = out at hruns
  cases hruns <;> rfl

/-- A task keeps to its query. -/
theorem query_of_suspended {S : Store σ} {place : Nat} {p p' : Pull} {w w' : Session σ}
    (h : ((work S).run place p).exec w = (.ok (.suspended p'), w')) : p'.query = p.query := by
  have hruns := runs S place p w
  rw [h] at hruns
  cases hruns <;> rfl

/-- A run that fails takes in a page that the store has failed to answer. -/
theorem run_fails_iff {S : Store σ} {place : Nat} {p : Pull} {w : Session σ}
    {e : Nat × StoreError} :
    (((work S).run place p).exec w).1 = .error e ↔
      ∃ d t, p = asked d t ∧ e.1 = place ∧ (S.redeem t w.store).1 = .error e.2 := by
  have hruns := runs S place p w
  generalize ((work S).run place p).exec w = out at hruns
  cases hruns with
  | asks q => simp
  | fails hredeem => simp [hredeem, Prod.ext_iff, eq_comm]
  | ends hredeem _ => simp [hredeem]
  | goesOn hredeem _ => simp [hredeem]

end Pull

/-! ## Results -/

/-- Every slot is an entity or a placeholder. -/
theorem countP_isNone_add_length {α : Type} (slots : List (Option α)) :
    slots.countP Option.isNone + (slots.filterMap id).length = slots.length := by
  induction slots with
  | nil => rfl
  | cons slot slots ih =>
      cases slot with
      | none =>
          rw [List.countP_cons_of_pos rfl, List.filterMap_cons_none rfl, List.length_cons]
          omega
      | some a =>
          have hsome : (some a :: slots).filterMap id = a :: slots.filterMap id := rfl
          rw [List.countP_cons_of_neg (by simp), hsome, List.length_cons, List.length_cons]
          omega

theorem isJoined_joined {m : Memory} {queries : List Query} {drain : Query → Drain}
    {pages : Query → List Query}
    (h : ∀ q ∈ queries, (drain q).slots = m.allSlots q ∧
      (pages q).length = Drain.pagesFor m.cap (m.allSlots q).length) :
    (joined queries m).IsJoined queries drain pages where
  entities := by
    show (queries.flatMap m.allSlots).filterMap id = _
    rw [List.filterMap_flatMap]
    exact List.flatMap_congr fun q hq => by rw [(h q hq).1]
  slots := by
    show (queries.flatMap m.allSlots).countP Option.isNone +
      ((queries.flatMap m.allSlots).filterMap id).length = _
    rw [countP_isNone_add_length, List.length_flatMap]
    exact congrArg List.sum (List.map_congr_left fun q hq => by rw [(h q hq).1])
  batches := by
    show queries.foldr (fun q n => Drain.pagesFor m.cap (m.allSlots q).length + n) 0 = _
    rw [List.sum_eq_foldr, List.foldr_map]
    refine List.foldr_ext _ _ _ ?_
    intro q hq n
    rw [(h q hq).2]
  issued := rfl

/-! ## Steps of a fan-out -/

namespace FanOut

theorem enter_spec (ε : Type) (queries : List Query) (w : Session σ) :
    ∃ f w₀, (enter queries : Action σ ε FanOut).exec w = (.ok f, w₀) ∧
      f.group = .start (queries.map .fresh) ∧ w₀.store = w.store ∧
      w₀.metrics = w.metrics.add .queriesIssued (.ofNat queries.length) :=
  ⟨_, _, rfl, rfl, rfl, rfl⟩

/-- The session after a fan-out has failed with this failure of one query. -/
def failed (f : FanOut) (e : Nat × StoreError) (w : Session σ) : Session σ :=
  ((do
    Action.count .storeFailures 1
    f.scope.fail e.2.message : Action σ ExecutionError Unit).exec w).2

theorem exec_through_error {α : Type} {f : FanOut} {x : Action σ (Nat × StoreError) α}
    {w w' : Session σ} {e : Nat × StoreError} (h : x.exec w = (.error e, w')) :
    (f.through x).exec w =
      (.error ⟨f.kind, e.1, f.group.outcomes.length, e.2⟩, f.failed e w') := by
  rw [through, Action.exec_bind_ok (Action.exec_outcome _ _), h]
  rfl

theorem metrics_finish (ε : Type) (f : FanOut) (w : Session σ) :
    ((f.finish : Action σ ε ResultSet).exec w).2.metrics =
      (w.metrics.add .placeholdersFiltered (.ofNat f.results.placeholdersFiltered)).add
        .entitiesReturned (.ofNat f.results.entities.length) := by
  unfold finish
  by_cases h : 0 < f.results.placeholdersFiltered
  · simp only [if_pos h]
    rfl
  · have hzero : f.results.placeholdersFiltered = 0 := Nat.eq_zero_of_not_pos h
    simp only [if_neg h]
    rw [hzero]
    show _ = (w.metrics.add .placeholdersFiltered 0).add _ _
    rw [Metrics.add_zero]
    rfl

end FanOut

section Outcomes

variable {S : Store σ} {queries : List Query} {schedule : List Nat} {f : FanOut}
  {w w₀ w₁ : Session σ}
  {g : TaskGroup Pull Drain (Nat × StoreError)}
  {join : List (Option (Except (Nat × StoreError) Drain)) → Except (Nat × StoreError) (List Drain)}

/-- A fan-out along a schedule ends as its outcomes are joined. -/
theorem exec_executeAlong_of_follow
    (henter : (FanOut.enter queries : Action σ ExecutionError FanOut).exec w = (.ok f, w₀))
    (hfollow : (f.group.follow (Pull.work S) schedule : Action σ (Nat × StoreError) _).exec w₀ =
      (.ok g, w₁)) :
    (executeAlong S join schedule queries).exec w =
      match join g.outcomes with
      | .ok drains =>
        (FanOut.finish { f with group := .ended drains } :
          Action σ ExecutionError ResultSet).exec w₁
      | .error e => (.error ⟨f.kind, e.1, f.group.outcomes.length, e.2⟩, f.failed e w₁) := by
  have hbody : (do
      let group ← f.group.follow (Pull.work S) schedule
      Action.ofExcept id (join group.outcomes)).exec w₀ = (join g.outcomes, w₁) := by
    rw [Action.exec_bind_ok hfollow, Action.exec_ofExcept]
    cases join g.outcomes <;> rfl
  rw [executeAlong, Action.exec_bind_ok henter]
  cases hjoin : join g.outcomes with
  | error e =>
      rw [hjoin] at hbody
      exact Action.exec_bind_error (FanOut.exec_through_error hbody)
  | ok drains =>
      rw [hjoin] at hbody
      exact Action.exec_bind_ok (FanOut.exec_through hbody)

/-- A fan-out ends as its group does. -/
theorem exec_execute_of_complete {r : Except (Nat × StoreError) _}
    (henter : (FanOut.enter queries : Action σ ExecutionError FanOut).exec w = (.ok f, w₀))
    (hcomplete : (f.group.complete (Pull.work S) (fun place => (place, Store.endless))
      (FanOut.turns (S.patience w.store) queries.length)).exec w₀ = (r, w₁)) :
    (execute S queries).exec w =
      match r with
      | .ok group => (FanOut.finish { f with group } : Action σ ExecutionError ResultSet).exec w₁
      | .error e => (.error ⟨f.kind, e.1, f.group.outcomes.length, e.2⟩, f.failed e w₁) := by
  rw [execute, Action.exec_bind_ok (Action.exec_inquire _ _), Action.exec_bind_ok henter,
    FanOut.complete, bind_assoc]
  cases r with
  | error e => exact Action.exec_bind_error (FanOut.exec_through_error hcomplete)
  | ok group => exact Action.exec_bind_ok (FanOut.exec_through hcomplete)

end Outcomes

/-! ## A memory that stays as it is -/

/-- The cost of a query is the query itself. -/
def Query.itself (q : Query) : Multiset Query := {q}

variable {m : Memory} {queries : List Query} {drain : Query → Drain} {pages : Query → List Query}
  {schedule : List Nat}

/-- The tasks of a fan-out owe the queries of their drains. -/
theorem FanOut.onSchedule_start (hfaults : m.faults.queries = 0)
    (hyields : ∀ q ∈ queries, Drain.Yields (fun _ => m) 0 (.start q) q (pages q) (drain q))
    (hschedule : ∀ i q, queries[i]? = some q → (pages q).length < schedule.count i)
    (all : Multiset Query) :
    TaskGroup.OnSchedule (Pull.work Memory.store) (Session.Owes Query.itself m all)
      (queries.map drain) schedule (.start (queries.map .fresh)) (queries.flatMap pages) := by
  have hdue : ((queries.map Pull.fresh).map fun p => (pages p.query : Multiset Query)).sum =
      queries.flatMap pages := by
    rw [List.map_map]
    exact Multiset.coe_bind queries pages
  rw [← hdue]
  refine TaskGroup.onSchedule_start (by simp) ?_
  intro i t ht
  rw [List.getElem?_map, Option.map_eq_some_iff] at ht
  obtain ⟨q, hq, rfl⟩ := ht
  have hends : (Pull.work Memory.store).Ends _ i _ _ _ _ :=
    Pull.ends_fresh_of_yields hfaults Query.itself all (hyields q (List.mem_of_getElem? hq))
  have hcost : ((pages q).map Query.itself).sum = pages q :=
    Multiset.sum_map_singleton (pages q : Multiset Query)
  rw [hcost] at hends
  exact ⟨drain q, by rw [List.getElem?_map, hq]; rfl, hends.mono (hschedule i q hq)⟩

theorem metrics_follow (S : Store σ) (g : TaskGroup Pull Drain (Nat × StoreError))
    (schedule : List Nat) (w : Session σ) :
    ∃ g' w', (g.follow (Pull.work S) schedule : Action σ (Nat × StoreError) _).exec w =
      (.ok g', w') ∧ w'.metrics = w.metrics :=
  TaskGroup.exec_follow_of_polls (Nat × StoreError) (P := fun _ _ w' => w'.metrics = w.metrics) rfl
    (fun _ _ _ _ _ _ _ hP hpolls => (hpolls.metrics_eq (Pull.metrics_run S)).trans hP) schedule

/-- Queries without a start are drained to all of their slots, and to what depends on the query
alone. -/
theorem exists_yields (hm : ∀ q ∈ queries, q.orders ≠ [] → m.Fits)
    (hstart : ∀ q ∈ queries, q.start = none) :
    ∃ (drain : Query → Drain) (pages : Query → List Query), ∀ q ∈ queries,
      Drain.Yields (fun _ => m) 0 (.start q) q (pages q) (drain q) ∧
      (drain q).slots = m.allSlots q ∧
      (pages q).length = Drain.pagesFor m.cap (m.allSlots q).length := by
  have hdrains : ∀ q, ∃ (d : Drain) (qs : List Query), q ∈ queries →
      Drain.Yields (fun _ => m) 0 (.start q) q qs d ∧ d.slots = m.allSlots q ∧
        qs.length = Drain.pagesFor m.cap (m.allSlots q).length := by
    intro q
    by_cases hq : q ∈ queries
    · obtain ⟨qs, d, hyields, hslots, hlength⟩ := Drain.yields_slots (hm q hq) (hstart q hq) 0
      exact ⟨d, qs, fun _ => ⟨hyields, hslots, hlength⟩⟩
    · exact ⟨.start q, [], fun h => absurd h hq⟩
  choose drain pages hdrain using hdrains
  exact ⟨drain, pages, hdrain⟩

/-- **In any order, the same results.** -/
theorem exec_executeAlong (hfaults : m.faults.queries = 0)
    (hyields : ∀ q ∈ queries, Drain.Yields (fun _ => m) 0 (.start q) q (pages q) (drain q))
    (hall : ∀ q ∈ queries, (drain q).slots = m.allSlots q ∧
      (drain q).batches = Drain.pagesFor m.cap (m.allSlots q).length)
    {join : List (Option (Except (Nat × StoreError) Drain)) →
      Except (Nat × StoreError) (List Drain)} (hjoin : TaskGroup.JoinsAll join)
    (hschedule : ∀ i q, queries[i]? = some q → (pages q).length < schedule.count i)
    {w : Session Memory} (hw : w.store = m) :
    ∃ w' log, (executeAlong Memory.store join schedule queries).exec w =
        (.ok (joined queries m), w') ∧
      w'.store = Pull.logged m (m.log ++ log) ∧ log.Perm (queries.flatMap pages) ∧
      w'.metrics = w.metrics.fannedOut (joined queries m) := by
  obtain ⟨f, w₀, henter, hgroup, hstore, hmetrics⟩ := FanOut.enter_spec ExecutionError queries w
  -- What the tasks owe at first is what the memory has logged in the end.
  have howes := w₀.owes_of_store Query.itself (hstore.trans hw) ((queries.flatMap pages) + 0)
  obtain ⟨w₁, hfollow, log, hlog, hpaid⟩ := TaskGroup.exec_follow_onSchedule (Nat × StoreError)
    (FanOut.onSchedule_start hfaults hyields hschedule _) howes
  obtain ⟨g, w₂, hfollow₂, hmetrics₂⟩ :=
    metrics_follow Memory.store (.start (queries.map .fresh)) schedule w₀
  rw [hfollow] at hfollow₂
  cases hfollow₂
  rw [← hgroup] at hfollow
  have hexec : (executeAlong Memory.store join schedule queries).exec w = _ :=
    exec_executeAlong_of_follow henter hfollow
  rw [TaskGroup.ended, hjoin.ended] at hexec
  obtain ⟨w₂, hfinish, hstore₂⟩ :=
    FanOut.exec_finish ExecutionError { f with group := .ended (queries.map drain) } w₁
  have hresults : FanOut.results { f with group := .ended (queries.map drain) } =
      joined queries m := by
    refine FanOut.results_eq_joined hall ?_ ?_
    · exact TaskGroup.results_ended _
    · simp [TaskGroup.ended]
  refine ⟨w₂, log, ?_, hstore₂.trans hlog, ?_, ?_⟩
  · rw [hexec]
    simp only [hfinish, hresults]
  · have hcost : (log.map Query.itself).sum = log :=
      Multiset.sum_map_singleton (log : Multiset Query)
    rw [hcost, add_zero, add_zero] at hpaid
    exact Multiset.coe_eq_coe.1 hpaid
  · have hcounted := FanOut.metrics_finish ExecutionError
      { f with group := .ended (queries.map drain) } w₁
    rw [hfinish, hresults, hmetrics₂, hmetrics] at hcounted
    exact hcounted

/-! ## Round trips that fail -/

namespace FanOut

/-- When the schedule comes to the query of this place, a page of it is under way, and the store
answers with this failure. -/
def FailsAlong (S : Store σ) (queries : List Query) (schedule : List Nat) (w : Session σ)
    (place : Nat) (source : StoreError) : Prop :=
  ∃ before after f w₀ g w₁ d t, schedule = before ++ place :: after ∧
    (enter queries : Action σ ExecutionError FanOut).exec w = (.ok f, w₀) ∧
    (f.group.follow (Pull.work S) before : Action σ (Nat × StoreError) _).exec w₀ = (.ok g, w₁) ∧
    (place, .asked d t) ∈ g.queue ∧ queries[place]? = some d.query ∧
    (S.redeem t w₁.store).1 = .error source

variable {S : Store σ} {place : Nat} {source : StoreError}

/-- The tasks stay with the queries of their places. -/
theorem query_of_follow {w₀ w₁ : Session σ} {g : TaskGroup Pull Drain (Nat × StoreError)}
    (h : ((TaskGroup.start (queries.map .fresh)).follow (Pull.work S) schedule :
      Action σ (Nat × StoreError) _).exec w₀ = (.ok g, w₁)) :
    ∀ task ∈ g.queue, queries[task.1]? = some task.2.query := by
  obtain ⟨g', w', hfollow, hqueries⟩ := TaskGroup.exec_follow_of_polls (Nat × StoreError)
    (W := Pull.work S) (g := TaskGroup.start (queries.map .fresh)) (w := w₀)
    (P := fun _ g _ => ∀ task ∈ g.queue, queries[task.1]? = some task.2.query)
    (by
      rintro ⟨place, p⟩ htask
      have hplace := TaskGroup.getElem?_of_mem_start htask
      rw [List.getElem?_map, Option.map_eq_some_iff] at hplace
      obtain ⟨q, hq, rfl⟩ := hplace
      exact hq)
    (by
      intro _ place g₁ w₁ g₂ w₂ _ hP hpolls task htask
      rcases hpolls.mem_queue htask with hold | ⟨p, p', hmem, rfl, hrun⟩
      · exact hP task hold
      · rw [Pull.query_of_suspended hrun]
        exact hP (place, p) hmem)
    schedule
  rw [h] at hfollow
  cases hfollow
  exact hqueries

/-- What fails along a schedule is a round trip. -/
theorem failsAlong_iff {w w₀ : Session σ} {f : FanOut} {e : Nat × StoreError}
    (henter : (enter queries : Action σ ExecutionError FanOut).exec w = (.ok f, w₀))
    (hgroup : f.group = .start (queries.map .fresh)) :
    TaskGroup.FailsAlong (Pull.work S) f.group schedule w₀ place e ↔
      e.1 = place ∧ FailsAlong S queries schedule w place e.2 := by
  constructor
  · rintro ⟨before, after, g, w₁, p, hsplit, hfollow, hopen, hfails⟩
    obtain ⟨d, t, rfl, hplace, hredeem⟩ := Pull.run_fails_iff.1 hfails
    have hquery : queries[place]? = some d.query :=
      query_of_follow (hgroup ▸ hfollow) (place, .asked d t) hopen
    exact ⟨hplace, before, after, f, w₀, g, w₁, d, t, hsplit, henter, hfollow, hopen, hquery,
      hredeem⟩
  · rintro ⟨hplace, before, after, f', w', g, w₁, d, t, hsplit, henter', hfollow, hopen, _, hredeem⟩
    rw [henter] at henter'
    cases henter'
    exact ⟨before, after, g, w₁, .asked d t, hsplit, hfollow, hopen,
      Pull.run_fails_iff.2 ⟨d, t, rfl, hplace, hredeem⟩⟩

end FanOut

/-- **A failed round trip fails the fan-out,** and with the failure of a query that has failed. -/
theorem exec_executeAlong_failed (S : Store σ)
    {join : List (Option (Except (Nat × StoreError) Drain)) →
      Except (Nat × StoreError) (List Drain)} (hjoin : TaskGroup.JoinsAll join) {w : Session σ}
    (h : ∃ place source, FanOut.FailsAlong S queries schedule w place source) :
    ∃ e w', (executeAlong S join schedule queries).exec w = (.error e, w') ∧
      e.index < queries.length ∧ e.total = queries.length ∧
      FanOut.FailsAlong S queries schedule w e.index e.source ∧
      w'.metrics = w.metrics.failedToFanOut queries.length := by
  obtain ⟨f, w₀, henter, hgroup, _, hmetrics⟩ := FanOut.enter_spec ExecutionError queries w
  obtain ⟨g, w₁, hfollow, htells⟩ := TaskGroup.exec_follow_start_tells (Pull.work S)
    (queries.map .fresh) schedule w₀
  obtain ⟨g', w₁', hfollow', hmetrics'⟩ :=
    metrics_follow S (.start (queries.map .fresh)) schedule w₀
  rw [hfollow] at hfollow'
  cases hfollow'
  rw [← hgroup] at hfollow htells
  have hfailed : ∀ place e, g.outcomes[place]? = some (some (.error e)) ↔
      e.1 = place ∧ FanOut.FailsAlong S queries schedule w place e.2 :=
    fun place e => (htells.failed place e).trans (FanOut.failsAlong_iff henter hgroup)
  obtain ⟨place, source, hfails⟩ := h
  have hmem := List.mem_of_getElem? ((hfailed place (place, source)).2 ⟨rfl, hfails⟩)
  -- Some query has failed, so the outcomes are joined to the failure of one that has.
  obtain ⟨e, he, hjoined⟩ := hjoin.failed _ _ hmem
  obtain ⟨place', hplace'⟩ := List.getElem?_of_mem he
  obtain ⟨rfl, hfails'⟩ := (hfailed place' e).1 hplace'
  have hexec : (executeAlong S join schedule queries).exec w = _ :=
    exec_executeAlong_of_follow henter hfollow
  rw [hjoined] at hexec
  have htotal : f.group.outcomes.length = queries.length := by
    rw [hgroup, TaskGroup.start, List.length_map, List.length_map]
  refine ⟨⟨f.kind, e.1, f.group.outcomes.length, e.2⟩, f.failed e w₁, hexec, ?_, htotal, hfails',
    ?_⟩
  · obtain ⟨_, _, _, _, _, _, d, _, _, _, _, _, hquery, _⟩ := hfails'
    exact (List.getElem?_eq_some_iff.1 hquery).1
  · show w₁.metrics.add .storeFailures 1 = _
    rw [hmetrics', hmetrics]
    rfl

/-! ## The order of the engine -/

/-- **The engine keeps one of these orders,** as long as its patience lasts. -/
theorem exec_execute_along (S : Store σ) (queries : List Query) (w : Session σ) :
    (∃ schedule, (execute S queries).exec w =
        (executeAlong S TaskGroup.joinInOrder schedule queries).exec w) ∨
      ∃ e w', (execute S queries).exec w = (.error e, w') ∧ e.source = Store.endless := by
  obtain ⟨f, w₀, henter, hgroup, _, _⟩ := FanOut.enter_spec ExecutionError queries w
  have hfair : TaskGroup.Fair (queries.map Pull.fresh).length f.group := by
    rw [hgroup]
    exact TaskGroup.fair_start _
  have hfollows := TaskGroup.follows_complete (W := Pull.work S) (fun _ => rfl)
    (fun place => (place, Store.endless)) (FanOut.turns (S.patience w.store) queries.length) hfair
    w₀
  cases hcomplete : (f.group.complete (Pull.work S) (fun place => (place, Store.endless))
    (FanOut.turns (S.patience w.store) queries.length)).exec w₀ with
  | mk r w₁ =>
      rw [hcomplete] at hfollows
      rw [exec_execute_of_complete henter hcomplete]
      rcases hfollows with ⟨schedule, g, hfollow, hout⟩ | ⟨place, hplace⟩
      · refine .inl ⟨schedule, ?_⟩
        rw [exec_executeAlong_of_follow henter hfollow]
        rcases hout with heq | ⟨e, heq, hjoin⟩
        · cases heq
          obtain ⟨drains, rfl⟩ := TaskGroup.ended_of_complete hfair hcomplete
          have hjoin : TaskGroup.joinInOrder
              (TaskGroup.ended drains : TaskGroup Pull Drain (Nat × StoreError)).outcomes =
                .ok drains := TaskGroup.joinsAll_joinInOrder.ended drains
          rw [hjoin]
        · cases heq
          rw [hjoin]
      · cases hplace
        exact .inr ⟨_, _, rfl, rfl⟩

/-! ## Any order -/

/-- **Any order will do.** On a memory without failures, and with no other clients, queries without
a start are drained to the same results in whatever order their round trips come, as long as each
query has a run to be asked and one for each of its pages. What a query is drained to depends on the
query alone, and the results join the drains in the order of the queries. The memory runs each query
of each drain once, and the counters grow by what is in the results. The engine ends with these
results, too.

On any store, where a round trip fails along the schedule, the fan-out fails with the failure of a
query whose round trip has failed, and the counters grow by the queries and one failure. What the
engine does is what comes of some schedule, as long as its patience lasts. -/
theorem executeAlong_any_order :
    (∀ (m : Memory) (queries : List Query), m.faults.queries = 0 →
      (∀ q ∈ queries, q.orders ≠ [] → m.Fits) → (∀ q ∈ queries, q.start = none) →
      ∃ drain pages r,
        (∀ q ∈ queries, Drain.Yields (fun _ => m) 0 (.start q) q (pages q) (drain q)) ∧
        ResultSet.IsJoined queries drain pages r ∧
        ∀ w : Session Memory, w.store = m →
          (∃ w', (execute Memory.store queries).exec w = (.ok r, w')) ∧
          ∀ join schedule, TaskGroup.JoinsAll join →
            (∀ i q, queries[i]? = some q → (pages q).length < schedule.count i) →
            ∃ w' log, (executeAlong Memory.store join schedule queries).exec w = (.ok r, w') ∧
              w'.store = Pull.logged m (m.log ++ log) ∧ log.Perm (queries.flatMap pages) ∧
              w'.metrics = w.metrics.fannedOut r) ∧
    ∀ (σ : Type) (S : Store σ) (queries : List Query) (w : Session σ),
      (∀ join schedule, TaskGroup.JoinsAll join →
        (∃ place source, FanOut.FailsAlong S queries schedule w place source) →
        ∃ e w', (executeAlong S join schedule queries).exec w = (.error e, w') ∧
          e.index < queries.length ∧ e.total = queries.length ∧
          FanOut.FailsAlong S queries schedule w e.index e.source ∧
          w'.metrics = w.metrics.failedToFanOut queries.length) ∧
      ((∃ join schedule, TaskGroup.JoinsAll join ∧
          (execute S queries).exec w = (executeAlong S join schedule queries).exec w) ∨
        ∃ e w', (execute S queries).exec w = (.error e, w') ∧ e.source = Store.endless) := by
  constructor
  · intro m queries hfaults hm hstart
    obtain ⟨drain, pages, hdrain⟩ := exists_yields hm hstart
    have hyields := fun q hq => (hdrain q hq).1
    refine ⟨drain, pages, joined queries m, hyields, isJoined_joined fun q hq => (hdrain q hq).2,
      ?_⟩
    intro w hw
    constructor
    · obtain ⟨w', hexec, _⟩ := exec_execute hfaults hm hstart hw
      exact ⟨w', hexec⟩
    · intro join schedule hjoin hschedule
      refine exec_executeAlong hfaults hyields ?_ hjoin hschedule hw
      intro q hq
      obtain ⟨hyields', hslots, hlength⟩ := hdrain q hq
      refine ⟨hslots, ?_⟩
      rw [Drain.batches_of_yields hyields', hlength]
      exact Nat.zero_add _
  · intro σ S queries w
    constructor
    · intro join schedule hjoin h
      exact exec_executeAlong_failed S hjoin h
    · refine (exec_execute_along S queries w).imp ?_ id
      rintro ⟨schedule, hexec⟩
      exact ⟨_, schedule, TaskGroup.joinsAll_joinInOrder, hexec⟩

open Pull (threeNotes)

/-- The notes are asked for twice. -/
def notesTwice : List Query := [.ofKind none "Note", .ofKind none "Note"]

/-- Two drains of the three notes have two pages each, and their round trips are mixed. Where the
memory fails once, so does the fan-out. -/
theorem executeAlong_any_order_threeNotes :
    (∃ (r : ResultSet) (w' : Session Memory),
      (executeAlong Memory.store TaskGroup.joinInOrder [1, 0, 0, 1, 1, 0] notesTwice).exec
        (.start threeNotes) = (.ok r, w') ∧
      r.entities = threeNotes.table.entities ++ threeNotes.table.entities ∧ r.batchesRun = 4) ∧
    ∃ (e : ExecutionError) (w' : Session Memory),
      (executeAlong Memory.store TaskGroup.joinInOrder [1, 0, 0] notesTwice).exec
        (.start { threeNotes with faults := ⟨1, 0, 0⟩ }) = (.error e, w') ∧
      e.index < 2 ∧ e.total = 2 := by
  constructor
  · obtain ⟨drain, pages, r, _, hjoined, hall⟩ := executeAlong_any_order.1 threeNotes notesTwice rfl
      (by simp [notesTwice, Query.ofKind]) (by simp [notesTwice, Query.ofKind])
    obtain ⟨⟨w₁, hexecute⟩, halong⟩ := hall (.start threeNotes) rfl
    have hresults : ((execute Memory.store notesTwice).exec (.start threeNotes)).1.map
        (fun r => (r.entities, r.batchesRun)) =
          .ok (threeNotes.table.entities ++ threeNotes.table.entities, 4) := by
      rw [Memory.store_eq_storeBy]
      decide +kernel
    rw [hexecute] at hresults
    obtain ⟨hentities, hbatches⟩ := Prod.mk.inj (Except.ok.inj hresults)
    have hpages := hjoined.batches
    simp only [hbatches, notesTwice, List.map_cons, List.map_nil, List.sum_cons,
      List.sum_nil] at hpages
    obtain ⟨w', _, hexec, _⟩ := halong _ [1, 0, 0, 1, 1, 0] TaskGroup.joinsAll_joinInOrder (by
      rintro (_ | _ | i) q hq
      · cases hq
        show _ < 3
        omega
      · cases hq
        show _ < 3
        omega
      · cases hq)
    exact ⟨r, w', hexec, hentities, hbatches⟩
  · have hfails : FanOut.FailsAlong Memory.store notesTwice [1, 0, 0]
        (.start { threeNotes with faults := ⟨1, 0, 0⟩ }) 0
        (.queryFailed ("injected failure on kind '" ++ "Note" ++ "'")) :=
      ⟨[1, 0], [], _, _, _, _, .start (.ofKind none "Note"), .running (.ofKind none "Note"), rfl,
        rfl, rfl, .tail _ (.head _), rfl, rfl⟩
    obtain ⟨e, w', hexec, hindex, htotal, _⟩ := (executeAlong_any_order.2 Memory Memory.store
      notesTwice (.start { threeNotes with faults := ⟨1, 0, 0⟩ })).1 TaskGroup.joinInOrder [1, 0, 0]
        TaskGroup.joinsAll_joinInOrder ⟨0, _, hfails⟩
    exact ⟨e, w', hexec, hindex, htotal⟩

end Quarry
