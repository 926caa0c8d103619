import Mathlib.Algebra.BigOperators.Group.Multiset.Basic
import Mathlib.Data.List.Basic
import Mathlib.Tactic.Choose
import Quarry.Proofs.Engine.Drive
import Quarry.Proofs.Engine.TaskGroup

/-!
# Fan-outs over a memory that stays as it is

The drains of a fan-out are run side by side, and each yields what it would yield alone. So the
joined results are those of the queries one after another, whatever the cap and however many queries
there are. The memory runs one query for each page. Each query is run once without a cursor, and any
other goes on from one.
-/

namespace Quarry

/-- What a drain of the query owes before its first page: to run the query, unless it goes on from a
cursor. -/
def Query.due (q : Query) : Multiset Query := if q.start = none then {q} else 0

/-- The session holds this memory, and so many more queries have been run. -/
def Session.HasRun (m : Memory) (n : Nat) (w : Session Memory) : Prop :=
  ∃ log, w.store = Pull.logged m (m.log ++ log) ∧ log.length = n

variable {κ : Type} [AddCommMonoid κ]

/-- The session holds this memory with more queries run. Each query has its cost, and of the cost of
all only `due` is left. -/
def Session.Owes (cost : Query → κ) (m : Memory) (all due : κ) (w : Session Memory) : Prop :=
  ∃ log, w.store = Pull.logged m (m.log ++ log) ∧ (log.map cost).sum + due = all

/-- The session holds this memory with more queries run, and of all that are to be run without a
cursor only those of `due` are left. -/
def Session.Awaits (m : Memory) (all due : Multiset Query) (w : Session Memory) : Prop :=
  ∃ log, w.store = Pull.logged m (m.log ++ log) ∧ (log.map Query.due).sum + due = all

variable {m : Memory} {all others : Multiset Query}

/-- Where each query costs the same and all are paid for, so many have been run. -/
theorem Session.Owes.hasRun {n : Nat} {w : Session Memory} (h : w.Owes (fun _ => 1) m n 0) :
    w.HasRun m n := by
  obtain ⟨log, hlog, hsum⟩ := h
  refine ⟨log, hlog, ?_⟩
  rwa [List.map_const', List.sum_const_nat, Nat.mul_one, add_zero] at hsum

theorem Session.HasRun.of_store {n : Nat} {w w' : Session Memory} (h : w.HasRun m n)
    (hstore : w'.store = w.store) : w'.HasRun m n := by
  rw [HasRun, hstore]
  exact h

theorem Session.Awaits.of_store {due : Multiset Query} {w w' : Session Memory}
    (h : w.Awaits m all due) (hstore : w'.store = w.store) : w'.Awaits m all due := by
  rw [Awaits, hstore]
  exact h

/-- At first, all is owed. -/
theorem Session.owes_of_store {w : Session Memory} (cost : Query → κ) (h : w.store = m) (due : κ) :
    w.Owes cost m due due := by
  refine ⟨[], ?_, ?_⟩
  · rw [h, List.append_nil]
    rfl
  · rw [List.map_nil, List.sum_nil, zero_add]

/-- At first, all is awaited that is to be run. -/
theorem Session.awaits_of_store {w : Session Memory} (h : w.store = m) (due : Multiset Query) :
    w.Awaits m due due :=
  w.owes_of_store Query.due h due

/-- A query that is run is paid for. -/
theorem Session.Owes.redeem {cost : Query → κ} {total rest : κ} (hfaults : m.faults.queries = 0)
    {q : Query} {w : Session Memory} (h : w.Owes cost m total (cost q + rest)) :
    ∃ s, Memory.store.redeem (.running q) w.store = (m.answer q, s) ∧
      ∀ w' : Session Memory, w'.store = s → w'.Owes cost m total rest := by
  obtain ⟨log, hlog, hsum⟩ := h
  refine ⟨Pull.logged m (m.log ++ (log ++ [q])), ?_, ?_⟩
  · rw [hlog, ← List.append_assoc]
    exact Pull.redeem_logged hfaults q _
  · intro w' hw'
    refine ⟨log ++ [q], hw', ?_⟩
    rw [List.map_append, List.sum_append, List.map_singleton, List.sum_singleton, add_assoc]
    exact hsum

/-- Of the queries of a drain only the first can be one without a cursor. -/
theorem Drain.sum_due_of_yields {moments : Nat → Memory} {i : Nat} {d d' : Drain} {q : Query}
    {qs : List Query} (h : Drain.Yields moments i d q qs d') : (qs.map Query.due).sum = q.due := by
  induction h with
  | last hpage hnext => rw [List.map_singleton, List.sum_singleton]
  | @more _ d q page c qs d' hpage hnext hrest ih =>
      have hbehind : ((d.add page).queryFrom c).due = 0 := if_neg (by simp [Drain.queryFrom])
      rw [List.map_cons, List.sum_cons, ih, hbehind, add_zero]

namespace Pull

/-- What a task owes that has not been run yet. -/
def dueOf (owed : Query → κ) : Pull → κ
  | fresh q => owed q
  | asked _ _ => 0

variable {place moment : Nat} {d d' : Drain} {q : Query} {qs : List Query}

/-- The drain of a fan-out ends as it ends page by page, and pays for its queries. -/
theorem ends_of_yields (hfaults : m.faults.queries = 0) (cost : Query → κ) (all : κ)
    (h : Drain.Yields (fun _ => m) moment d q qs d') :
    (work Memory.store).Ends (Session.Owes cost m all) place d' qs.length (qs.map cost).sum
      (asked d (.running q)) := by
  induction h with
  | @last _ d q page hpage hnext =>
      intro others w hw
      rw [List.map_singleton, List.sum_singleton] at hw
      obtain ⟨s, hredeem, hpaid⟩ := hw.redeem hfaults
      rw [hpage] at hredeem
      refine ⟨.ended (d.add page), { w with store := s }, ?_, rfl, hpaid _ rfl⟩
      show Action.exec (((asked d (.running q)).advance Memory.store).adapt _) w = _
      rw [Action.exec_adapt, exec_asked_last hredeem hnext]
      rfl
  | @more _ d q page c qs d' hpage hnext hrest ih =>
      intro others w hw
      rw [List.map_cons, List.sum_cons, add_assoc] at hw
      obtain ⟨s, hredeem, hpaid⟩ := hw.redeem hfaults
      rw [hpage] at hredeem
      have hask : Memory.store.ask ((d.add page).queryFrom c) s =
          (.running ((d.add page).queryFrom c), s) := rfl
      refine ⟨.suspended (asked (d.add page) (.running ((d.add page).queryFrom c))),
        { w with store := s, journal := w.journal ++ [continued (d.add page)] }, ?_,
        (qs.map cost).sum, hpaid _ rfl, ih⟩
      show Action.exec (((asked d (.running q)).advance Memory.store).adapt _) w = _
      rw [Action.exec_adapt, exec_asked_more hredeem hnext hask]
      rfl

/-- The first run of a task asks the query. -/
theorem ends_fresh_of_yields (hfaults : m.faults.queries = 0) (cost : Query → κ) (all : κ)
    (h : Drain.Yields (fun _ => m) moment (.start q) q qs d) :
    (work Memory.store).Ends (Session.Owes cost m all) place d (qs.length + 1) (qs.map cost).sum
      (fresh q) :=
  fun _ w hw => ⟨_, w, rfl, _, hw, ends_of_yields hfaults cost all h⟩

/-- What the drain of the query costs altogether, if it drains all slots. -/
def Costs (cost : Query → κ) (m : Memory) (q : Query) (owed : κ) : Prop :=
  ∀ qs d, Drain.Yields (fun _ => m) 0 (.start q) q qs d →
    qs.length = Drain.pagesFor m.cap (m.allSlots q).length → (qs.map cost).sum = owed

/-- A drain costs its first query if that alone is counted. -/
theorem costs_due (m : Memory) (q : Query) : Costs Query.due m q q.due :=
  fun _ _ hyields _ => Drain.sum_due_of_yields hyields

/-- A drain costs its pages if every query is counted once. -/
theorem costs_one (m : Memory) (q : Query) :
    Costs (fun _ => 1) m q (Drain.pagesFor m.cap (m.allSlots q).length) := by
  intro qs _ _ hlength
  rw [List.map_const', List.sum_const_nat, Nat.mul_one, hlength]

theorem ends_fresh {cost : Query → κ} {q : Query} {owed : κ} (hcosts : Costs cost m q owed)
    (hm : q.orders ≠ [] → m.Fits) (hfaults : m.faults.queries = 0) (hstart : q.start = none) :
    ∃ d, d.slots = m.allSlots q ∧ d.batches = Drain.pagesFor m.cap (m.allSlots q).length ∧
      ∀ all place, ∃ n, n ≤ m.table.entities.length + 2 ∧
        (work Memory.store).Ends (Session.Owes cost m all) place d n owed (fresh q) := by
  obtain ⟨qs, d, hyields, hslots, hlength⟩ := Drain.yields_slots hm hstart 0
  refine ⟨d, hslots, ?_, ?_⟩
  · rw [Drain.batches_of_yields hyields, hlength]
    exact Nat.zero_add _
  · intro all place
    refine ⟨qs.length + 1, ?_, ?_⟩
    · rw [hlength]
      exact Nat.succ_le_succ (m.pagesFor_allSlots_le q)
    · rw [← hcosts qs d hyields hlength]
      exact ends_fresh_of_yields hfaults cost all hyields

end Pull

/-! ## Fan-outs -/

/-- The results of queries on a memory that stays as it is, one query after another. -/
def joined (queries : List Query) (m : Memory) : ResultSet :=
  { entities := (queries.flatMap m.allSlots).filterMap id
    queriesIssued := queries.length
    batchesRun := queries.foldr (fun q n => Drain.pagesFor m.cap (m.allSlots q).length + n) 0
    placeholdersFiltered := (queries.flatMap m.allSlots).countP Option.isNone }

namespace FanOut

variable {σ α : Type}

theorem exec_enter (ε : Type) (queries : List Query) (w : Session σ) :
    ∃ f w', (enter queries : Action σ ε FanOut).exec w = (.ok f, w') ∧ w'.store = w.store ∧
      f.group = .start (queries.map .fresh) :=
  ⟨_, _, rfl, rfl, rfl⟩

theorem exec_through {f : FanOut} {x : Action σ (Nat × StoreError) α} {w w' : Session σ} {a : α}
    (h : x.exec w = (.ok a, w')) : (f.through x).exec w = (.ok a, w') := by
  rw [through, Action.exec_bind_ok (Action.exec_outcome _ _), h]
  rfl

theorem store_exec_through (f : FanOut) (x : Action σ (Nat × StoreError) α) (w : Session σ) :
    ((f.through x).exec w).2.store = (x.exec w).2.store := by
  rw [through, Action.exec_bind_ok (Action.exec_outcome _ _)]
  rcases (x.exec w).1 with ⟨index, source⟩ | a
  · rfl
  · rfl

theorem exec_finish (ε : Type) (f : FanOut) (w : Session σ) :
    ∃ w', (f.finish : Action σ ε ResultSet).exec w = (.ok f.results, w') ∧
      w'.store = w.store := by
  unfold finish
  by_cases h : 0 < f.results.placeholdersFiltered
  · simp only [if_pos h]
    exact ⟨_, rfl, rfl⟩
  · simp only [if_neg h]
    exact ⟨_, rfl, rfl⟩

/-- A fan-out with these drains for results joins its queries. -/
theorem results_eq_joined {f : FanOut} {queries : List Query} {drain : Query → Drain}
    (hdrain : ∀ q ∈ queries, (drain q).slots = m.allSlots q ∧
      (drain q).batches = Drain.pagesFor m.cap (m.allSlots q).length)
    (hresults : f.group.results = queries.map drain)
    (hlength : f.group.outcomes.length = queries.length) : f.results = joined queries m := by
  have hslots : f.group.results.flatMap Drain.slots = queries.flatMap m.allSlots := by
    rw [hresults, List.flatMap_map]
    exact List.flatMap_congr fun q hq => (hdrain q hq).1
  have hbatches : f.group.results.foldr (fun d n => d.batches + n) 0 =
      queries.foldr (fun q n => Drain.pagesFor m.cap (m.allSlots q).length + n) 0 := by
    rw [hresults, List.foldr_map]
    refine List.foldr_ext _ _ _ ?_
    intro q hq n
    rw [(hdrain q hq).2]
  rw [results, joined]
  simp only [hslots, hbatches, hlength]

/-- The drains of queries are on their way when a fan-out is opened, and at their end they are
joined. Every drain ends on its own, whichever of the others run between its runs. -/
theorem onItsWay_enter {cost owed : Query → κ} (hcosts : ∀ q, Pull.Costs cost m q (owed q))
    (hfaults : m.faults.queries = 0) {queries : List Query}
    (hm : ∀ q ∈ queries, q.orders ≠ [] → m.Fits) (hstart : ∀ q ∈ queries, q.start = none)
    (all : κ) :
    ∃ drains total, total ≤ turns (Memory.store.patience m) queries.length ∧
      TaskGroup.OnItsWay (Pull.work Memory.store) (Session.Owes cost m all) drains
        (.start (queries.map .fresh)) total (queries.map owed).sum ∧
      ∀ f : FanOut, f.group.results = drains → f.group.outcomes.length = drains.length →
        f.results = joined queries m := by
  have hdrains : ∀ q, ∃ d : Drain, q ∈ queries → d.slots = m.allSlots q ∧
      d.batches = Drain.pagesFor m.cap (m.allSlots q).length ∧
      ∀ all place, ∃ n, n ≤ m.table.entities.length + 2 ∧
        (Pull.work Memory.store).Ends (Session.Owes cost m all) place d n (owed q) (.fresh q) := by
    intro q
    by_cases hq : q ∈ queries
    · obtain ⟨d, hd⟩ := Pull.ends_fresh (hcosts q) (hm q hq) hfaults (hstart q hq)
      exact ⟨d, fun _ => hd⟩
    · exact ⟨.start q, fun h => absurd h hq⟩
  choose drain hdrain using hdrains
  have htasks : ∀ i t, (queries.map Pull.fresh)[i]? = some t → ∃ r n,
      (queries.map drain)[i]? = some r ∧ n ≤ m.table.entities.length + 2 ∧
        (Pull.work Memory.store).Ends (Session.Owes cost m all) i r n (t.dueOf owed) t := by
    intro i t ht
    rw [List.getElem?_map, Option.map_eq_some_iff] at ht
    obtain ⟨q, hq, rfl⟩ := ht
    obtain ⟨_, _, hends⟩ := hdrain q (List.mem_of_getElem? hq)
    obtain ⟨n, hn, hn'⟩ := hends all i
    exact ⟨drain q, n, by rw [List.getElem?_map, hq]; rfl, hn, hn'⟩
  obtain ⟨total, htotal, hway⟩ := TaskGroup.onItsWay_start (by simp) htasks
  rw [List.length_map] at htotal
  rw [List.map_map] at hway
  refine ⟨queries.map drain, total, htotal, hway, ?_⟩
  intro f hresults hlength
  rw [List.length_map] at hlength
  exact results_eq_joined (fun q hq => ⟨(hdrain q hq).1, (hdrain q hq).2.1⟩) hresults hlength

variable {f : FanOut} {drains : List Drain} {total : Nat} {due : Multiset Query}
  {w : Session Memory}

/-- A turn of a fan-out that is not done. -/
theorem exec_advance
    (hway : TaskGroup.OnItsWay (Pull.work Memory.store) (Session.Awaits m all) drains f.group total
      due) (hopen : f.isDone = false) (hw : w.Awaits m all (due + others)) :
    ∃ group w' rest due', (f.advance Memory.store).exec w = (.ok { f with group }, w') ∧
      w'.Awaits m all (due' + others) ∧
      TaskGroup.OnItsWay (Pull.work Memory.store) (Session.Awaits m all) drains group rest due' ∧
      rest < total := by
  have hne : f.group.queue ≠ [] := List.isEmpty_eq_false_iff.1 hopen
  obtain ⟨group, w', rest, due', hexec, hw', hway', hlt⟩ := TaskGroup.exec_advance hway hne hw
  refine ⟨group, w', rest, due', ?_, hw', hway', hlt⟩
  rw [advance, Action.exec_bind_ok (exec_through hexec)]
  rfl

end FanOut

/-- **A fan-out joins its queries.** On a memory without failures, and with no other clients, a
fan-out ends with the entities of every query in the order of the queries. As many queries are run
as the results have batches. -/
theorem exec_execute (hfaults : m.faults.queries = 0) {queries : List Query}
    (hm : ∀ q ∈ queries, q.orders ≠ [] → m.Fits) (hstart : ∀ q ∈ queries, q.start = none)
    {w : Session Memory} (hw : w.store = m) :
    ∃ w', (execute Memory.store queries).exec w = (.ok (joined queries m), w') ∧
      w'.HasRun m (joined queries m).batchesRun := by
  obtain ⟨f, w₁, henter, hstore₁, hgroup⟩ := FanOut.exec_enter ExecutionError queries w
  have hpages : (queries.map fun q => Drain.pagesFor m.cap (m.allSlots q).length).sum =
      (joined queries m).batchesRun := by
    rw [joined, List.sum, List.foldr_map]
  have howes := w₁.owes_of_store (fun _ => 1) (hstore₁.trans hw) ((joined queries m).batchesRun + 0)
  rw [← hpages] at howes
  obtain ⟨drains, total, htotal, hway, hjoined⟩ :=
    FanOut.onItsWay_enter (Pull.costs_one m) hfaults hm hstart _
  have hpatience : total ≤ FanOut.turns (Memory.store.patience w.store) queries.length := by
    rw [hw]
    exact htotal
  obtain ⟨g, w₂, hcomplete, hw₂, hresults, hlength⟩ :=
    TaskGroup.exec_complete (fun place => (place, Store.endless)) hway hpatience howes
  obtain ⟨w₃, hfinish, hstore₃⟩ :=
    FanOut.exec_finish ExecutionError { f with group := g } w₂
  have hrun : w₂.HasRun m (joined queries m).batchesRun := by
    rw [← hpages]
    exact hw₂.hasRun
  refine ⟨w₃, ?_, hrun.of_store hstore₃⟩
  have hgroup' : (f.complete Memory.store
      (FanOut.turns (Memory.store.patience w.store) queries.length)).exec w₁ =
      (.ok { f with group := g }, w₂) := by
    rw [FanOut.complete, hgroup, Action.exec_bind_ok (FanOut.exec_through hcomplete)]
    rfl
  rw [execute, Action.exec_bind_ok (Action.exec_inquire _ _), Action.exec_bind_ok henter,
    Action.exec_bind_ok hgroup', hfinish, hjoined { f with group := g } hresults hlength]

end Quarry
