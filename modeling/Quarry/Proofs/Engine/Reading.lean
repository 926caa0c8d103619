import Quarry.Proofs.Engine.FanOutSchedules
import Quarry.Proofs.Engine.Find
import Quarry.Proofs.Engine.Update
import Quarry.Proofs.Engine.Uses
import Quarry.Proofs.Store.OnlyRead

/-!
# Reading from a shared memory

Up to its write, an operation asks queries and redeems their tickets, and does nothing else to the
store. On a memory shared with other clients it has then written nothing, and every entity that it
has found was stored when its page was read.
-/

namespace Quarry

open Quarry.Action

variable {σ : Type}

/-! ## Fan-outs -/

section Shared

open Shared (OnlyRead Seen)

variable {c : Course} {patience : Nat} {m : Memory} {queries : List Query} {s s' : Shared}

theorem reads_shared (c : Course) (patience : Nat) (m : Memory) (n : Nat) :
    (Shared.store c patience).Reads fun s => OnlyRead c m s ∧ n ≤ s.trips.length where
  ask _ _ hs := hs
  redeem t s hs := ⟨hs.1.redeem t, Nat.le_trans hs.2 (Shared.length_trips_redeem c t s)⟩

/-- The drain is of one of these queries, and shows what was stored when its pages were read. -/
structure Drain.ShowsSeen (c : Course) (m : Memory) (queries : List Query) (s : Shared)
    (d : Drain) : Prop where
  query : d.query ∈ queries
  seen : ∀ e, some e ∈ d.slots → ∃ x, Seen c m s x ∧ e = d.query.shape x

theorem Drain.ShowsSeen.mono {d : Drain} (h : d.ShowsSeen c m queries s)
    (hle : s.trips.length ≤ s'.trips.length) : d.ShowsSeen c m queries s' := by
  refine ⟨h.query, ?_⟩
  intro e he
  obtain ⟨x, hx, hshape⟩ := h.seen e he
  exact ⟨x, hx.mono hle, hshape⟩

/-- A page that is redeemed for a drain goes into it. -/
theorem Drain.ShowsSeen.add {d : Drain} (h : d.ShowsSeen c m queries s) (hs : s.OnlyRead c m)
    {q : Query} (hshape : q.shape = d.query.shape) {page : Page}
    (hpage : Shared.redeem c (.running q) s = (.ok page, s')) :
    (d.add page).ShowsSeen c m queries s' := by
  have hle := Shared.length_trips_redeem c (.running q) s
  rw [hpage] at hle
  refine ⟨h.query, ?_⟩
  intro e he
  rcases List.mem_append.1 he with hold | hnew
  · exact (h.mono hle).seen e hold
  · have hseen := hs.seen_of_redeem hpage hnew
    rwa [hshape] at hseen

namespace Pull

/-- A task that has been asked waits for a page of its query. -/
def ShowsSeen (c : Course) (m : Memory) (queries : List Query) (s : Shared) : Pull → Prop
  | fresh q => q ∈ queries
  | asked d t =>
    d.ShowsSeen c m queries s ∧ ∃ q : Query, t = .running q ∧ q.shape = d.query.shape

theorem ShowsSeen.mono {p : Pull} (h : p.ShowsSeen c m queries s)
    (hle : s.trips.length ≤ s'.trips.length) : p.ShowsSeen c m queries s' := by
  cases p with
  | fresh q => exact h
  | asked d t => exact ⟨h.1.mono hle, h.2⟩

/-- **What one run of a task reads.** -/
theorem showsSeen_of_run {place : Nat} {p : Pull} {w w' : Session Shared}
    {r : Except (Nat × StoreError) (Progress Pull Drain)}
    (hrun : ((work (Shared.store c patience)).run place p).exec w = (r, w'))
    (hw : w.store.OnlyRead c m) (hp : p.ShowsSeen c m queries w.store) :
    (∀ p', r = .ok (.suspended p') → p'.ShowsSeen c m queries w'.store) ∧
      ∀ d, r = .ok (.ended d) → d.ShowsSeen c m queries w'.store := by
  have hruns := runs (Shared.store c patience) place p w
  rw [hrun] at hruns
  cases hruns with
  | asks q =>
      refine ⟨?_, ?_⟩
      · rintro _ ⟨⟩
        exact ⟨⟨hp, fun e he => absurd he List.not_mem_nil⟩, q, rfl, rfl⟩
      · rintro _ ⟨⟩
  | fails _ =>
      refine ⟨?_, ?_⟩
      · rintro _ ⟨⟩
      · rintro _ ⟨⟩
  | ends hredeem _ =>
      obtain ⟨hd, q, rfl, hshape⟩ := hp
      refine ⟨?_, ?_⟩
      · rintro _ ⟨⟩
      · rintro _ ⟨⟩
        exact hd.add hw hshape hredeem
  | goesOn hredeem _ =>
      obtain ⟨hd, q, rfl, hshape⟩ := hp
      refine ⟨?_, ?_⟩
      · rintro _ ⟨⟩
        exact ⟨hd.add hw hshape hredeem, _, rfl, rfl⟩
      · rintro _ ⟨⟩

end Pull

namespace FanOut

/-- A fan-out under way, which has only read, and whose drains show what was stored. -/
structure HasRead (c : Course) (m : Memory) (queries : List Query)
    (g : TaskGroup Pull Drain (Nat × StoreError)) (s : Shared) : Prop where
  store : s.OnlyRead c m
  tasks : ∀ task ∈ g.queue, task.2.ShowsSeen c m queries s
  drains : ∀ d, some (.ok d) ∈ g.outcomes → d.ShowsSeen c m queries s

theorem hasRead_start (hs : s.OnlyRead c m) :
    HasRead c m queries (.start (queries.map .fresh)) s := by
  refine ⟨hs, ?_, ?_⟩
  · rintro ⟨place, p⟩ htask
    have hplace := TaskGroup.getElem?_of_mem_start htask
    rw [List.getElem?_map, Option.map_eq_some_iff] at hplace
    obtain ⟨q, hq, rfl⟩ := hplace
    exact List.mem_of_getElem? hq
  · intro d hd
    cases TaskGroup.eq_none_of_mem_start hd

/-- Whichever task is run, what has been read stays read. -/
theorem HasRead.polls {g g' : TaskGroup Pull Drain (Nat × StoreError)} {place : Nat}
    {w w' : Session Shared} (h : HasRead c m queries g w.store)
    (hpolls : TaskGroup.Polls (Pull.work (Shared.store c patience)) place g w g' w') :
    HasRead c m queries g' w'.store := by
  obtain ⟨hs, htasks, hdrains⟩ := h
  have hkept : w'.store.OnlyRead c m ∧ w.store.trips.length ≤ w'.store.trips.length := by
    rcases hpolls.ran with rfl | ⟨p, _, rfl⟩
    · exact ⟨hs, Nat.le_refl _⟩
    · have huses : Uses (Shared.store c patience) False (fun _ => True)
          ((Pull.work (Shared.store c patience)).run place p) := Pull.uses_work.run place p
      have hkeeps := huses.keeps_of_reads (reads_shared c patience m w.store.trips.length)
      exact (hkeeps w ⟨hs, Nat.le_refl _⟩).1
  refine ⟨hkept.1, ?_, ?_⟩
  · intro task htask
    rcases hpolls.mem_queue htask with hold | ⟨p, p', hmem, rfl, hrun⟩
    · exact (htasks task hold).mono hkept.2
    · exact (Pull.showsSeen_of_run hrun hs (htasks (place, p) hmem)).1 p' rfl
  · intro d hd
    rcases hpolls.mem_outcomes hd with hold | ⟨p, hmem, hrun⟩
    · exact (hdrains d hold).mono hkept.2
    · exact (Pull.showsSeen_of_run hrun hs (htasks (place, p) hmem)).2 d rfl

end FanOut

/-- **What a fan-out finds was stored.** Whatever others do between its round trips, a fan-out that
comes to its end has written nothing, and each entity in its results was stored when its page was
read. -/
theorem seen_of_execute {w w' : Session Shared} {r : ResultSet} (hw : w.store.OnlyRead c m)
    (h : (execute (Shared.store c patience) queries).exec w = (.ok r, w')) :
    w'.store.OnlyRead c m ∧
      ∀ e ∈ r.entities, ∃ q ∈ queries, ∃ x, Seen c m w'.store x ∧ e = q.shape x := by
  rcases exec_execute_along (Shared.store c patience) queries w with
    ⟨schedule, halong⟩ | ⟨e, w₁, herror, _⟩
  · obtain ⟨f, w₀, henter, hgroup, hstore, _⟩ := FanOut.enter_spec ExecutionError queries w
    obtain ⟨g, w₁, hfollow, hread⟩ := TaskGroup.exec_follow_of_polls (Nat × StoreError)
      (P := fun _ g w => FanOut.HasRead c m queries g w.store) (g := f.group) (w := w₀)
      (by
        rw [hgroup, hstore]
        exact FanOut.hasRead_start hw)
      (fun _ _ _ _ _ _ _ hP hpolls => hP.polls hpolls) schedule
    rw [h, exec_executeAlong_of_follow henter hfollow] at halong
    cases hjoin : TaskGroup.joinInOrder g.outcomes with
    | error e =>
        rw [hjoin] at halong
        cases halong
    | ok drains =>
        obtain ⟨w₂, hfinish, hstore₂⟩ :=
          FanOut.exec_finish ExecutionError { f with group := .ended drains } w₁
        simp only [hjoin, hfinish] at halong
        cases halong
        rw [hstore₂]
        refine ⟨hread.store, ?_⟩
        intro e he
        rw [FanOut.results, List.mem_filterMap] at he
        obtain ⟨slot, hslot, rfl⟩ := he
        rw [TaskGroup.results_ended] at hslot
        obtain ⟨d, hd, hmem⟩ := List.mem_flatMap.1 hslot
        have hshows := hread.drains d (TaskGroup.mem_of_joinInOrder hjoin hd)
        exact ⟨d.query, hshows.query, hshows.seen e hmem⟩
  · rw [h] at herror
    cases herror

/-! ## What an operation reads -/

namespace Engine

/-- Criteria are compiled, and the queries are run. -/
theorem exec_run_ok {E : Engine σ} {M : Model} {criteria : Criteria} {r : ResultSet}
    {w w' : Session σ} (h : (E.run M criteria).exec w = (.ok r, w')) :
    ∃ queries w₁,
      (⟨E.store.space w.store, M, E.config.maxQueryLimit⟩ : Compiler).queries criteria =
        .ok queries ∧
      w₁.store = w.store ∧ (execute E.store queries).exec w₁ = (.ok r, w') := by
  cases hqueries : (⟨E.store.space w.store, M, E.config.maxQueryLimit⟩ : Compiler).queries
      criteria with
  | error e =>
      rw [exec_run_rejected hqueries] at h
      cases h
  | ok queries =>
      obtain ⟨w₁, hstore, hruns⟩ := exec_run_eq hqueries
      rw [hruns] at h
      exact ⟨queries, w₁, rfl, hstore, exec_adapt_eq_ok h⟩

variable {config : Config} {registry : Registry} {M : Model} {criteria : Criteria}
  {es : List Entity} {w w' : Session Shared}

/-- **What is to be written over was stored.** Each entity that matches is found once, as it was
when its page was read. -/
theorem seen_of_matched (hw : w.store.OnlyRead c m)
    (h : (matched ⟨Shared.store c patience, config, registry⟩ M criteria).exec w = (.ok es, w')) :
    w'.store.OnlyRead c m ∧ (es.map Entity.key).Nodup ∧ ∀ e ∈ es, Seen c m w'.store e := by
  obtain ⟨r, w₁, hrun, hdistinct⟩ := exec_bind_eq_ok.1 h
  cases hdistinct
  obtain ⟨queries, w₀, hqueries, hstore, hexecute⟩ := exec_run_ok hrun
  obtain ⟨hread, hseen⟩ := seen_of_execute (hstore ▸ hw) hexecute
  refine ⟨hread, nodup_distinct r.entities, ?_⟩
  intro e he
  obtain ⟨q, hq, x, hx, rfl⟩ := hseen e (mem_of_mem_distinct he)
  rwa [Compiler.shape_of_queries hqueries rfl hq x]

end Engine

end Shared

end Quarry
