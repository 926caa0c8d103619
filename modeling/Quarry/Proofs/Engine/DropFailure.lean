import Quarry.Proofs.Engine.DropAlone
import Quarry.Proofs.Engine.Interleaving
import Quarry.Proofs.Store.Shared

/-!
# Drops that fail

The round trips of a drop are page queries and page deletions by turns. The first of them that fails,
because the line breaks or the memory has a failure due, ends the drop. What was done before it is
what the drop reports and what the memory and the counters show.
-/

namespace Quarry

open Pull (logged threeNotes)

/-- Nobody else is there, but the line may break. -/
def Course.faulty (broken : Nat → Option StoreError) : Course := ⟨fun _ => [], broken⟩

namespace Trip

/-- The failure with which a call was answered. -/
def failure? : Trip → Option StoreError
  | query _ (.error e) => some e
  | save _ (.error e) => some e
  | update _ (.error e) => some e
  | delete _ (.error e) => some e
  | _ => none

/-- The call was a deletion that was carried out. -/
def isDeletion : Trip → Bool
  | delete _ (.ok _) => true
  | _ => false

end Trip

namespace Memory

variable {m : Memory}

/-- The failure that is due for the next query. -/
def queryFault? (kind : String) (m : Memory) : Option StoreError :=
  if m.faults.queries = 0 then none
  else some (.queryFailed ("injected failure on kind '" ++ kind ++ "'"))

/-- The failure that is due for the next deletion. -/
def deleteFault? (m : Memory) : Option StoreError :=
  if m.faults.deletes = 0 then none else some (.deleteFailed injected)

theorem queryFault?_eq_none {kind : String} (h : m.queryFault? kind = none) :
    m.faults.queries = 0 := by
  cases hfaults : m.faults.queries with
  | zero => rfl
  | succ n =>
      rw [queryFault?, hfaults] at h
      cases h

theorem deleteFault?_eq_none (h : m.deleteFault? = none) : m.faults.deletes = 0 := by
  cases hfaults : m.faults.deletes with
  | zero => rfl
  | succ n =>
      rw [deleteFault?, hfaults] at h
      cases h

theorem run_of_queryFault? {q : Query} {e : StoreError} (h : m.queryFault? q.kind = some e) :
    (m.run q).1 = .error e := by
  cases hfaults : m.faults.queries with
  | zero =>
      rw [queryFault?, hfaults] at h
      cases h
  | succ n =>
      rw [queryFault?, hfaults] at h
      cases h
      rw [run_of_fault hfaults]

theorem delete_of_deleteFault? {e : StoreError} (h : m.deleteFault? = some e) (ks : List Key) :
    ∃ faults, m.delete ks = (.error e, { m with faults }) := by
  cases hfaults : m.faults.deletes with
  | zero =>
      rw [deleteFault?, hfaults] at h
      cases h
  | succ n =>
      rw [deleteFault?, hfaults] at h
      cases h
      exact ⟨_, delete_of_fault hfaults⟩

end Memory

namespace Shared

variable {broken : Nat → Option StoreError} {α : Type} {record : Except StoreError α → Trip}
  {call : Memory → Except StoreError α × Memory} {s : Shared}

theorem trip_broken {e : StoreError} (h : broken s.trips.length = some e) :
    s.trip (.faulty broken) record call =
      (.error e, { s with trips := s.trips ++ [record (.error e)] }) := by
  have hbroken : (Course.faulty broken).broken s.trips.length = some e := h
  unfold trip
  simp only [hbroken]
  rfl

theorem trip_reaches (h : broken s.trips.length = none) :
    s.trip (.faulty broken) record call =
      ((call s.memory).1,
        { s with memory := (call s.memory).2, trips := s.trips ++ [record (call s.memory).1] }) := by
  have hbroken : (Course.faulty broken).broken s.trips.length = none := h
  unfold trip
  simp only [hbroken]
  rfl

end Shared

namespace Drop

/-- The failure that round trip `n` of a drop meets, if none has failed before. -/
def failure? (broken : Nat → Option StoreError) (m : Memory) (kind : String) (n : Nat) :
    Option StoreError :=
  (broken n).or (if n % 2 = 0 then m.queryFault? kind else m.deleteFault?)

/-- What round trip `n` of a drop is for. -/
def stageOf (n : Nat) : DropStage := if n % 2 = 0 then .query else .delete

variable {broken : Nat → Option StoreError} {m : Memory} {kind : String} {pageSize i k : Nat}
  {e : StoreError} {s : Shared}

theorem failure?_query (i : Nat) :
    failure? broken m kind (2 * i) = (broken (2 * i)).or (m.queryFault? kind) := by
  rw [failure?, if_pos (by omega)]

theorem failure?_delete (i : Nat) :
    failure? broken m kind (2 * i + 1) = (broken (2 * i + 1)).or m.deleteFault? := by
  rw [failure?, if_neg (by omega)]

/-! ## Round trips on a memory with nobody else -/

section Trips

variable {log : List Query} {q : Query} {ks : List Key}

theorem query_passes (hs : s.memory = logged (m.dropped kind k) log) (hcount : s.trips.length = 2 * i)
    (h : failure? broken m kind (2 * i) = none) :
    s.trip (.faulty broken) (.query q) (Memory.run q) =
      ((m.dropped kind k).answer q,
        { s with
          memory := logged (m.dropped kind k) (log ++ [q])
          trips := s.trips ++ [.query q ((m.dropped kind k).answer q)] }) := by
  rw [failure?_query, ← hcount, Option.or_eq_none_iff] at h
  have hrun := query_logged (Memory.queryFault?_eq_none h.2) kind k q log
  have hmemory : s.memory.run q = _ := hs ▸ hrun
  rw [Shared.trip_reaches h.1, hmemory]

theorem query_fails (hs : s.memory = logged (m.dropped kind k) log) (hcount : s.trips.length = 2 * i)
    (hq : q.kind = kind) (h : failure? broken m kind (2 * i) = some e) :
    ∃ s', s.trip (.faulty broken) (.query q) (Memory.run q) = (.error e, s') ∧
      s'.memory.bare = (m.dropped kind k).bare ∧ s'.trips = s.trips ++ [.query q (.error e)] := by
  rw [failure?_query, ← hcount, Option.or_eq_some_iff] at h
  rcases h with hbroken | ⟨hbroken, hfault⟩
  · refine ⟨_, Shared.trip_broken hbroken, ?_, rfl⟩
    rw [hs]
    rfl
  · have hfault' : s.memory.queryFault? q.kind = some e := by
      rw [hs, hq]
      exact hfault
    have hrun := Memory.run_of_queryFault? hfault'
    refine ⟨_, (Shared.trip_reaches hbroken).trans (Prod.ext hrun rfl), ?_, ?_⟩
    · show (s.memory.run q).2.bare = _
      rw [Memory.bare_run, hs]
      rfl
    · rw [hrun]

theorem delete_passes (hs : s.memory = logged (m.dropped kind k) log)
    (hcount : s.trips.length = 2 * i + 1) (h : failure? broken m kind (2 * i + 1) = none) :
    s.trip (.faulty broken) (.delete ks) (Memory.delete ks) =
      (.ok (), { s with
        memory := { s.memory with table := (m.dropped kind k).table.eraseAll ks }
        trips := s.trips ++ [.delete ks (.ok ())] }) := by
  rw [failure?_delete, ← hcount, Option.or_eq_none_iff] at h
  have hfaults : s.memory.faults.deletes = 0 := by
    rw [hs]
    exact Memory.deleteFault?_eq_none h.2
  have htable : s.memory.table = (m.dropped kind k).table := by rw [hs]; rfl
  rw [Shared.trip_reaches h.1, Memory.delete_of_no_faults hfaults, htable]

variable (ks) in
theorem delete_fails (hs : s.memory = logged (m.dropped kind k) log)
    (hcount : s.trips.length = 2 * i + 1) (h : failure? broken m kind (2 * i + 1) = some e) :
    ∃ s', s.trip (.faulty broken) (.delete ks) (Memory.delete ks) = (.error e, s') ∧
      s'.memory.bare = (m.dropped kind k).bare ∧ s'.trips = s.trips ++ [.delete ks (.error e)] := by
  rw [failure?_delete, ← hcount, Option.or_eq_some_iff] at h
  rcases h with hbroken | ⟨hbroken, hfault⟩
  · refine ⟨_, Shared.trip_broken hbroken, ?_, rfl⟩
    rw [hs]
    rfl
  · have hfault' : s.memory.deleteFault? = some e := by
      rw [hs]
      exact hfault
    obtain ⟨faults, hdelete⟩ := Memory.delete_of_deleteFault? hfault' ks
    rw [Shared.trip_reaches hbroken, hdelete]
    refine ⟨_, rfl, ?_, rfl⟩
    rw [hs]
    rfl

end Trips

/-! ## How far a drop comes -/

/-- After `n` round trips that were answered, `i` pages of a drop are deleted. -/
structure Reached (m : Memory) (kind : String) (pageSize i n : Nat) (s : Shared) : Prop where
  memory : ∃ log, s.memory = logged (m.dropped kind (i * min pageSize m.cap)) log
  count : s.trips.length = n
  answered : ∀ t ∈ s.trips, t.failure? = none
  deletions : s.trips.countP Trip.isDeletion = i

/-- Round trip `n` has failed, and nothing has happened since. -/
structure Stopped (m : Memory) (kind : String) (pageSize n : Nat) (e : StoreError) (s : Shared) :
    Prop where
  memory : s.memory.bare = (m.dropped kind (n / 2 * min pageSize m.cap)).bare
  trips : ∃ before last, s.trips = before ++ [last] ∧ before.length = n ∧
    (∀ t ∈ before, t.failure? = none) ∧ last.failure? = some e
  deletions : s.trips.countP Trip.isDeletion = n / 2

theorem answered_append {trips : List Trip} {t : Trip} (h : ∀ t ∈ trips, t.failure? = none)
    (ht : t.failure? = none) : ∀ t' ∈ trips ++ [t], t'.failure? = none := by
  intro t' ht'
  rw [List.mem_append, List.mem_singleton] at ht'
  rcases ht' with ht' | rfl
  · exact h t' ht'
  · exact ht

theorem reached_query {page : Page} (hs : Reached m kind pageSize i (2 * i) s)
    (h : failure? broken m kind (2 * i) = none) {q : Query}
    (hanswer : (m.dropped kind (i * min pageSize m.cap)).answer q = .ok page) :
    ∃ s', s.trip (.faulty broken) (.query q) (Memory.run q) = (.ok page, s') ∧
      Reached m kind pageSize i (2 * i + 1) s' := by
  obtain ⟨⟨log, hmemory⟩, hcount, hanswered, hdeletions⟩ := hs
  rw [query_passes hmemory hcount h, hanswer]
  refine ⟨_, rfl, ⟨_, rfl⟩, ?_, answered_append hanswered rfl, ?_⟩
  · rw [List.length_append, hcount]
    rfl
  · rw [List.countP_append, hdeletions]
    rfl

theorem reached_delete (hs : Reached m kind pageSize i (2 * i + 1) s)
    (h : failure? broken m kind (2 * i + 1) = none) :
    ∃ s', s.trip (.faulty broken) (.delete (m.dropKeys kind pageSize (i * min pageSize m.cap)))
        (Memory.delete (m.dropKeys kind pageSize (i * min pageSize m.cap))) = (.ok (), s') ∧
      Reached m kind pageSize (i + 1) (2 * (i + 1)) s' := by
  obtain ⟨⟨log, hmemory⟩, hcount, hanswered, hdeletions⟩ := hs
  rw [delete_passes hmemory hcount h]
  refine ⟨_, rfl, ⟨log, ?_⟩, ?_, answered_append hanswered rfl, ?_⟩
  · rw [m.table_eraseAll_dropKeys, hmemory, Nat.add_one_mul]
    rfl
  · rw [List.length_append, hcount]
    rfl
  · rw [List.countP_append, hdeletions]
    rfl

/-- A round trip that fails stops the drop where it has come to. -/
theorem stopped_of_reached {s' : Shared} {n : Nat} {t : Trip} (hs : Reached m kind pageSize i n s)
    (hn : n / 2 = i)
    (hmemory : s'.memory.bare = (m.dropped kind (i * min pageSize m.cap)).bare)
    (htrips : s'.trips = s.trips ++ [t]) (hfails : t.failure? = some e)
    (hkind : t.isDeletion = false) : Stopped m kind pageSize n e s' := by
  refine ⟨?_, ⟨s.trips, t, htrips, hs.count, hs.answered, hfails⟩, ?_⟩
  · rw [hn]
    exact hmemory
  · rw [htrips, List.countP_append, hs.deletions, hn, List.countP_singleton, hkind]
    rfl

theorem passes_of_reached (hsize : 0 < pageSize) (patience : Nat)
    (hs : Reached m kind pageSize i (2 * i) s) (hquery : failure? broken m kind (2 * i) = none)
    (hdelete : failure? broken m kind (2 * i + 1) = none) :
    ∃ s', Passes (Shared.store (.faulty broken) patience) m kind pageSize i s s' ∧
      Reached m kind pageSize (i + 1) (2 * (i + 1)) s' := by
  obtain ⟨page, hanswer, _, _⟩ := m.answer_dropped hsize kind (i * min pageSize m.cap)
  obtain ⟨s₁, hexec₁, hs₁⟩ := reached_query hs hquery hanswer
  obtain ⟨s₂, hexec₂, hs₂⟩ := reached_delete hs₁ hdelete
  have hspace : s.memory.space = m.space := by
    obtain ⟨log, hmemory⟩ := hs.memory
    rw [hmemory]
    rfl
  rw [← hanswer] at hexec₁
  exact ⟨s₂, ⟨hspace, s₁, hexec₁, hexec₂⟩, hs₂⟩

theorem space_of_reached {n : Nat} (hs : Reached m kind pageSize i n s) :
    s.memory.space = m.space := by
  obtain ⟨log, hmemory⟩ := hs.memory
  rw [hmemory]
  rfl

/-- A step whose query fails. -/
theorem exec_step_stops_query (patience : Nat) {w : Session Shared}
    (hw : Reached m kind pageSize i (2 * i) w.store)
    (hfails : failure? broken m kind (2 * i) = some e) :
    ∃ s, (step (Shared.store (.faulty broken) patience) pageSize
        (m.dropQuery kind pageSize (i * min pageSize m.cap)).start
        (doneAfter m kind pageSize i)).exec w =
        (.error ⟨.query, doneAfter m kind pageSize i, e⟩, { w with store := s }) ∧
      Stopped m kind pageSize (2 * i) e s := by
  obtain ⟨log, hmemory⟩ := hw.memory
  obtain ⟨s, hexec, hbare, htrips⟩ := query_fails
    (q := m.dropQuery kind pageSize (i * min pageSize m.cap)) hmemory hw.count rfl hfails
  refine ⟨s, exec_step_query_error ?_, stopped_of_reached hw (by omega) hbare htrips rfl rfl⟩
  show Store.query _ (pageQuery w.store.memory.space _ _ _) _ = _
  rw [space_of_reached hw]
  exact hexec

/-- A step whose deletion fails. -/
theorem exec_step_stops_delete (hsize : 0 < pageSize) (patience : Nat) {w : Session Shared}
    (hw : Reached m kind pageSize i (2 * i) w.store)
    (hpasses : failure? broken m kind (2 * i) = none)
    (hfails : failure? broken m kind (2 * i + 1) = some e)
    (hi : i * min pageSize m.cap < m.count kind) :
    ∃ s, (step (Shared.store (.faulty broken) patience) pageSize
        (m.dropQuery kind pageSize (i * min pageSize m.cap)).start
        (doneAfter m kind pageSize i)).exec w =
        (.error ⟨.delete, doneAfter m kind pageSize i, e⟩, { w with store := s }) ∧
      Stopped m kind pageSize (2 * i + 1) e s := by
  obtain ⟨page, hanswer, hkeys, _⟩ := m.answer_dropped hsize kind (i * min pageSize m.cap)
  obtain ⟨s₁, hexec₁, hs₁⟩ := reached_query hw hpasses hanswer
  obtain ⟨log, hmemory⟩ := hs₁.memory
  obtain ⟨s, hexec, hbare, htrips⟩ := delete_fails (keys page) hmemory hs₁.count hfails
  have hne : keys page ≠ [] := by
    have hcap := m.cap_pos
    rw [hkeys, ← List.length_pos_iff, m.length_dropKeys]
    omega
  have hfetch : (Shared.store (.faulty broken) patience).query (pageQuery w.store.memory.space kind
      pageSize (m.dropQuery kind pageSize (i * min pageSize m.cap)).start) w.store =
        (.ok page, s₁) := by
    rw [space_of_reached hw]
    exact hexec₁
  exact ⟨s, exec_step_delete_error hfetch hne hexec,
    stopped_of_reached hs₁ (by omega) hbare htrips rfl rfl⟩

/-- **The pages of a drop up to its first failure.** -/
theorem exec_pagesFrom_stops (hsize : 0 < pageSize) (patience n : Nat) {w : Session Shared}
    (hw : w.store = .ofMemory m) (hfirst : ∀ j < n, failure? broken m kind j = none)
    (hfails : failure? broken m kind n = some e)
    (hreached : n = 0 ∨ n / 2 * min pageSize m.cap < m.count kind)
    (hpatience : m.count kind < patience) :
    ∃ w', (pagesFrom (Shared.store (.faulty broken) patience) pageSize patience none
        ⟨kind, 0, 0⟩).exec w =
        (.error ⟨stageOf n, doneAfter m kind pageSize (n / 2), e⟩, w') ∧
      Stopped m kind pageSize n e w'.store ∧
      w.metrics.Grew w'.metrics (tally (doneAfter m kind pageSize (n / 2))) := by
  obtain ⟨i, hi⟩ : ∃ i, n = 2 * i ∨ n = 2 * i + 1 := ⟨n / 2, by omega⟩
  have hhalf : n / 2 = i := by omega
  rw [hhalf] at hreached ⊢
  have hcap := m.cap_pos
  have hbound : i < patience := by
    have hmul := Nat.le_mul_of_pos_right i (m := min pageSize m.cap) (by omega)
    omega
  have hstart : Reached m kind pageSize 0 (2 * 0) w.store := by
    rw [hw]
    refine ⟨⟨m.log, ?_⟩, rfl, ?_, rfl⟩
    · rw [Nat.zero_mul]
      rfl
    · intro t ht
      cases ht
  have hturns : i + (patience - i - 1 + 1) = patience := by omega
  -- The pages before the failing round trip pass, and the next step fails.
  obtain ⟨w₁, hw₁, hgrew, hexec⟩ := exec_pagesFrom_passes
    (S := Shared.store (.faulty broken) patience) (i := i)
    hsize (fun j s => Reached m kind pageSize j (2 * j) s)
    (fun j hj s hs => passes_of_reached hsize patience hs (hfirst _ (by omega))
      (hfirst _ (by omega)))
    (by omega) hstart (patience - i - 1 + 1)
  rw [hturns] at hexec
  have hstep : ∃ s, (step (Shared.store (.faulty broken) patience) pageSize
      (m.dropQuery kind pageSize (i * min pageSize m.cap)).start
      (doneAfter m kind pageSize i)).exec w₁ =
      (.error ⟨stageOf n, doneAfter m kind pageSize i, e⟩, { w₁ with store := s }) ∧
      Stopped m kind pageSize n e s := by
    rcases hi with rfl | rfl
    · rw [stageOf, if_pos (by omega)]
      exact exec_step_stops_query patience hw₁ hfails
    · rw [stageOf, if_neg (by omega)]
      exact exec_step_stops_delete hsize patience hw₁ (hfirst _ (by omega)) hfails (by omega)
  obtain ⟨s, hstep, hstopped⟩ := hstep
  rw [exec_pagesFrom_error hstep] at hexec
  exact ⟨_, hexec, hstopped, hgrew⟩

end Drop

/-- A drop without failures on what an earlier drop has left deletes the others of the kind. -/
theorem exec_dropAll_rest {m s : Memory} {kind : String} {n : Nat}
    (hs : s.bare = (m.dropped kind n).bare) (pageSize : Nat) {w : Session Memory}
    (hw : w.store = { s with faults := .none }) :
    ∃ pages w', (dropAll Memory.store pageSize kind).exec w =
        (.ok ⟨kind, pages, m.count kind - n⟩, w') ∧
      w'.store.table.entities =
        m.table.entities.filter (fun x => ¬ (x.key.space = m.space ∧ x.key.kind = kind)) := by
  have hentities : w.store.table.entities = (m.dropped kind n).table.entities := by
    rw [hw]
    exact congrArg Table.entities (Memory.table_of_bare hs)
  have hsame := Memory.space_of_bare hs
  have hspace : w.store.space = m.space := by
    rw [hw]
    exact hsame
  have hcount : w.store.count kind = m.count kind - n := by
    rw [Memory.count, hentities, hspace]
    show (m.dropped kind n).count kind = _
    rw [← Memory.length_ofKind, Memory.ofKind_dropped, List.length_drop, Memory.length_ofKind]
  obtain ⟨qs, w', hexec, hstore, _⟩ := exec_dropAll_alone w.store (by rw [hw]; rfl)
    (by rw [hw]; rfl) pageSize kind w rfl
  rw [hcount] at hexec
  refine ⟨_, w', hexec, ?_⟩
  rw [hstore]
  show (w.store.dropped kind _).table.entities = _
  rw [Memory.entities_dropped_all (Nat.le_refl _), hentities, hspace,
    Memory.filter_entities_dropped]

/-- **A drop that fails reports what it did.** Round trip `n` of a drop, a page query or a page
deletion, is the first that fails. The drop ends there, with the failure and its stage, and reports
the pages and the entities that were deleted before. These are the first entities of the kind in key
order, and nothing else has changed in the memory but its log and the failures that are due. The
counters have gone up by as much, and that of failures by one. Without failures, a later drop deletes
all others of the kind. -/
theorem dropAll_stopped (broken : Nat → Option StoreError) (patience pageSize : Nat)
    (kind : String) (m : Memory) (n : Nat) (e : StoreError)
    (hfirst : ∀ j < n, Drop.failure? broken m kind j = none)
    (hfails : Drop.failure? broken m kind n = some e)
    (hreached : n = 0 ∨ n / 2 * min (max pageSize 1) m.cap < m.count kind)
    (hpatience : m.count kind < patience) (w : Session Shared) (hw : w.store = .ofMemory m) :
    let deleted := n / 2 * min (max pageSize 1) m.cap
    ∃ w', (dropAll (Shared.store (.faulty broken) patience) pageSize kind).exec w =
        (.error ⟨Drop.stageOf n, ⟨kind, n / 2, deleted⟩, e⟩, w') ∧
      w'.store.trips.countP Trip.isDeletion = n / 2 ∧
      deleted ≤ m.count kind ∧
      w'.store.memory.bare = { m.bare with table := w'.store.memory.table } ∧
      w'.store.memory.table.entities = m.table.entities.filter
        (fun x => x.key ∉ ((m.ofKind kind).take deleted).map Entity.key) ∧
      (∃ before last, w'.store.trips = before ++ [last] ∧ before.length = n ∧
        (∀ t ∈ before, t.failure? = none) ∧ last.failure? = some e) ∧
      (∀ c, w'.metrics.value c = w.metrics.value c +
        .ofNat (if c = .storeFailures then 1 else Drop.tally ⟨kind, n / 2, deleted⟩ c)) ∧
      ∀ pageSize' w₁, w₁.store = { w'.store.memory with faults := .none } →
        ∃ pages w₂, (dropAll Memory.store pageSize' kind).exec w₁ =
            (.ok ⟨kind, pages, m.count kind - deleted⟩, w₂) ∧
          w₂.store.table.entities =
            m.table.entities.filter (fun x => ¬ (x.key.space = m.space ∧ x.key.kind = kind)) := by
  intro deleted
  have hsize : 0 < max pageSize 1 := by omega
  have hopened : w.opened.store = .ofMemory m := hw
  obtain ⟨w₁, hexec, hstopped, hgrew⟩ :=
    Drop.exec_pagesFrom_stops hsize patience n hopened hfirst hfails hreached hpatience
  obtain ⟨w', hdrop, hstore, hmetrics⟩ := exec_dropAll_error hexec
  have hle : deleted ≤ m.count kind := by
    have hzero : n = 0 → n / 2 * min (max pageSize 1) m.cap = 0 := by
      rintro rfl
      rw [Nat.zero_div, Nat.zero_mul]
    show n / 2 * min (max pageSize 1) m.cap ≤ _
    omega
  have hdone : Drop.doneAfter m kind (max pageSize 1) (n / 2) = ⟨kind, n / 2, deleted⟩ := by
    rw [Drop.doneAfter, Nat.min_eq_left hle]
  have hbare : w'.store.memory.bare = (m.dropped kind deleted).bare := by
    rw [hstore]
    exact hstopped.memory
  have htable := Memory.table_of_bare hbare
  rw [hdone] at hdrop hgrew
  refine ⟨w', hdrop, ?_, hle, ?_, ?_, ?_, ?_, ?_⟩
  · rw [hstore]
    exact hstopped.deletions
  · rw [hbare, htable]
    rfl
  · rw [htable, Memory.entities_dropped]
  · rw [hstore]
    exact hstopped.trips
  · intro c
    rw [hmetrics, Metrics.add_value, hgrew c]
    cases c <;> simp [Drop.tally, Session.opened]
  · intro pageSize' w₂ hw₂
    exact exec_dropAll_rest hbare pageSize' hw₂

/-- The line breaks on the fourth round trip, the deletion of the second page. -/
def fourthBreaks (n : Nat) : Option StoreError :=
  if n = 3 then some (.deleteFailed "line broken") else none

/-- Of three notes, two to a page, the first two are reported as deleted, and the third is left. -/
theorem dropAll_stopped_fourthBreaks :
    ∃ w', (dropAll (Shared.store (.faulty fourthBreaks) 9) 2 "Note").exec
        (.start (.ofMemory threeNotes)) =
        (.error ⟨.delete, ⟨"Note", 1, 2⟩, .deleteFailed "line broken"⟩, w') ∧
      w'.store.trips.length = 4 ∧
      w'.store.memory.table.entities.map Entity.key = [Pull.note 3] := by
  obtain ⟨w', hexec, _, _, _, hentities, ⟨before, last, htrips, hlength, _, _⟩, _⟩ :=
    dropAll_stopped fourthBreaks 9 2 "Note" threeNotes 3 (.deleteFailed "line broken")
      (by decide +kernel) rfl (.inr (by decide +kernel)) (by decide +kernel)
      (.start (.ofMemory threeNotes)) rfl
  refine ⟨w', hexec, ?_, ?_⟩
  · rw [htrips, List.length_append, hlength]
    rfl
  · rw [hentities]
    decide +kernel

end Quarry
