import Quarry.Proofs.Engine.Interleaving
import Quarry.Proofs.Store.Shared

/-!
# A shared memory that is only read

As long as a caller only reads from a shared memory, this is what the other clients make of it by
themselves. Queries change nothing but the log and the number of failures that are due for them. No
other client takes notice of these. What is read was stored when it was read.
-/

namespace Quarry

/-! ## Other clients by themselves -/

namespace Memory

theorem insertAll_quiet (m : Memory) (es : List Entity) :
    m.quiet.insertAll es = ((m.insertAll es).1, (m.insertAll es).2.quiet) := by
  induction es generalizing m with
  | nil => rfl
  | cons e es ih =>
      have hquiet := m.insert_quiet e
      cases hinsert : m.insert e with
      | mk answer m' =>
          rw [hinsert] at hquiet
          cases answer with
          | error err =>
              rw [(insertAll_cons_error hquiet es).1, (insertAll_cons_error hinsert es).1]
          | ok k => rw [(insertAll_cons_ok hquiet es).1, (insertAll_cons_ok hinsert es).1, ih]

end Memory

namespace Act

variable (m : Memory)

/-- What others do does not depend on what queries change. -/
theorem quiet_on (a : Act) : (a.on m).quiet = a.on m.quiet := by
  cases a with
  | insert e =>
      show _ = (m.quiet.insert e).2
      rw [m.insert_quiet e]
      rfl
  | save es =>
      cases hfaults : m.faults.writes with
      | zero =>
          have hquiet : m.quiet.faults.writes = 0 := hfaults
          rw [on, on, Memory.save_of_no_faults hfaults, Memory.save_of_no_faults hquiet,
            m.insertAll_quiet es]
      | succ n =>
          have hquiet : m.quiet.faults.writes = n + 1 := hfaults
          rw [on, on, Memory.save_of_fault hfaults, Memory.save_of_fault hquiet]
          rfl
  | update es =>
      cases hfaults : m.faults.writes with
      | zero =>
          have hquiet : m.quiet.faults.writes = 0 := hfaults
          cases hfind : es.find? fun e => (m.get? e.key).isNone with
          | some missing =>
              rw [on, on, Memory.update_of_missing hfaults hfind,
                Memory.update_of_missing hquiet hfind]
          | none =>
              rw [on, on, Memory.update_of_present hfaults hfind,
                Memory.update_of_present hquiet hfind]
              rfl
      | succ n =>
          have hquiet : m.quiet.faults.writes = n + 1 := hfaults
          rw [on, on, Memory.update_of_fault hfaults, Memory.update_of_fault hquiet]
          rfl
  | remove k => rfl
  | delete ks =>
      cases hfaults : m.faults.deletes with
      | zero =>
          have hquiet : m.quiet.faults.deletes = 0 := hfaults
          rw [on, on, Memory.delete_of_no_faults hfaults, Memory.delete_of_no_faults hquiet]
          rfl
      | succ n =>
          have hquiet : m.quiet.faults.deletes = n + 1 := hfaults
          rw [on, on, Memory.delete_of_fault hfaults, Memory.delete_of_fault hquiet]
          rfl

theorem quiet_foldl (acts : List Act) : (acts.foldl on m).quiet = acts.foldl on m.quiet :=
  (List.foldl_hom Memory.quiet fun m a => (quiet_on m a).symm).symm

end Act

/-- What others have made of a memory when `n` round trips have come to it, if nobody else writes. -/
def Course.alone (c : Course) (m : Memory) : Nat → Memory
  | 0 => m
  | n + 1 => (c.acts n).foldl Act.on (c.alone m n)

namespace Shared

variable {c : Course} {m : Memory} {s s' : Shared}

theorem memory_visited (s : Shared) (acts : List Act) :
    (s.visited acts).memory = acts.foldl Act.on s.memory :=
  (List.foldl_hom Shared.memory fun _ _ => rfl).symm

/-! ## Round trips that read -/

/-- So far the memory is what others have made of it. -/
def OnlyRead (c : Course) (m : Memory) (s : Shared) : Prop :=
  s.memory.quiet = (c.alone m s.trips.length).quiet

/-- The entity was stored when one of the round trips so far came to the memory, or at the start. -/
def Seen (c : Course) (m : Memory) (s : Shared) (e : Entity) : Prop :=
  ∃ i ≤ s.trips.length, (c.alone m i).get? e.key = some e

theorem onlyRead_ofMemory (c : Course) (m : Memory) : OnlyRead c m (.ofMemory m) := rfl

theorem Seen.mono {e : Entity} (h : Seen c m s e) (hle : s.trips.length ≤ s'.trips.length) :
    Seen c m s' e := by
  obtain ⟨i, hi, hget⟩ := h
  exact ⟨i, Nat.le_trans hi hle, hget⟩

theorem length_trips_trip {α : Type} (c : Course) (record : Except StoreError α → Trip)
    (call : Memory → Except StoreError α × Memory) (s : Shared) :
    (s.trip c record call).2.trips.length = s.trips.length + 1 := by
  rw [trips_trip, List.length_append, List.length_singleton]

/-- Before a round trip reaches the memory, others have come by. -/
theorem OnlyRead.visited (h : OnlyRead c m s) :
    (s.visited (c.acts s.trips.length)).memory.quiet =
      (c.alone m (s.trips.length + 1)).quiet := by
  rw [memory_visited, Act.quiet_foldl, h, Course.alone, Act.quiet_foldl]

/-- A round trip that changes nothing but what queries change. -/
theorem OnlyRead.trip {α : Type} {record : Except StoreError α → Trip}
    {call : Memory → Except StoreError α × Memory} (hcall : ∀ m, (call m).2.quiet = m.quiet)
    (h : OnlyRead c m s) : OnlyRead c m (s.trip c record call).2 := by
  rw [OnlyRead, length_trips_trip, ← h.visited]
  unfold Shared.trip
  cases c.broken s.trips.length with
  | none => exact hcall _
  | some e => rfl

theorem OnlyRead.redeem (h : OnlyRead c m s) (t : Ticket) : OnlyRead c m (redeem c t s).2 := by
  cases t with
  | running q => exact h.trip (Memory.quiet_run q)
  | answered answer => exact h

theorem length_trips_redeem (c : Course) (t : Ticket) (s : Shared) :
    s.trips.length ≤ (redeem c t s).2.trips.length := by
  cases t with
  | running q =>
      show _ ≤ (s.trip c _ _).2.trips.length
      rw [length_trips_trip]
      exact Nat.le_succ _
  | answered answer => exact Nat.le_refl _

/-- A page shows what was stored when it was read. -/
theorem OnlyRead.seen_of_redeem (h : OnlyRead c m s) {q : Query} {page : Page}
    (hpage : Shared.redeem c (.running q) s = (.ok page, s')) {e : Entity}
    (he : some e ∈ page.slots) : ∃ x, Seen c m s' x ∧ e = q.shape x := by
  have hlength : (s.trip c (.query q) (Memory.run q)).2.trips.length = _ :=
    length_trips_trip c (.query q) (Memory.run q) s
  have hrun : s.trip c (.query q) (Memory.run q) = _ := hpage
  obtain ⟨hanswer, -⟩ := trip_ok (congrArg Prod.fst hrun)
  obtain ⟨x, hx, hshape⟩ := Memory.stored_of_answer (Memory.answer_of_run hanswer) he
  rw [Memory.table_of_bare (Memory.bare_of_quiet h.visited)] at hx
  rw [hrun] at hlength
  exact ⟨x, ⟨_, Nat.le_of_eq hlength.symm, Table.get?_eq_some_iff.2 ⟨hx, rfl⟩⟩, hshape⟩

/-! ## The round trip that writes -/

/-- Entities are written over what others have made of the memory by then. All of them are there. -/
theorem OnlyRead.update (h : OnlyRead c m s) {es : List Entity}
    (hupdate : s.trip c (.update es) (Memory.update es) = (.ok (), s')) :
    s'.trips.length = s.trips.length + 1 ∧
      (∀ e ∈ es, (c.alone m s'.trips.length).get? e.key ≠ none) ∧
      s'.memory.table = (c.alone m s'.trips.length).table.insertAll es := by
  have htrips := length_trips_trip c (.update es) (Memory.update es) s
  obtain ⟨hanswer, hmemory⟩ := trip_ok (congrArg Prod.fst hupdate)
  rw [hupdate] at htrips hmemory
  have hlength : s'.trips.length = s.trips.length + 1 := htrips
  have htable : (s.visited (c.acts s.trips.length)).memory.table =
      (c.alone m s'.trips.length).table := by
    rw [hlength]
    exact Memory.table_of_bare (Memory.bare_of_quiet h.visited)
  rcases (s.visited (c.acts s.trips.length)).memory.update_cases es with
    ⟨e, faults, hcase⟩ | ⟨hall, hcase⟩
  · rw [hcase] at hanswer
    cases hanswer
  · rw [hcase] at hmemory
    refine ⟨hlength, ?_, ?_⟩
    · intro e he
      show (c.alone m s'.trips.length).table.get? e.key ≠ none
      rw [← htable]
      exact hall e he
    · rw [← htable]
      exact congrArg Memory.table hmemory

end Shared

end Quarry
