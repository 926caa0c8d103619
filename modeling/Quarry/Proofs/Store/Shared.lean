import Quarry.Proofs.Store.Writes

/-!
# A memory shared with other clients

A memory behind a line, on which other clients act as well. Before each round trip of the caller the
others do what the course has laid down, and the line may break, so that the trip never reaches the
memory. The trips and their answers are recorded, and so are the keys under which the others have
stored something. A key that is absent stays absent unless it is among these.
-/

namespace Quarry

/-! ## Other clients -/

/-- What another client does to a memory. -/
inductive Act where
  | insert (e : Entity)
  | save (es : List Entity)
  | update (es : List Entity)
  | remove (k : Key)
  | delete (ks : List Key)

namespace Act

/-- The memory behind an act, whether the act succeeds or not. -/
def on (m : Memory) : Act → Memory
  | insert e => (m.insert e).2
  | save es => (m.save es).2
  | update es => (m.update es).2
  | remove k => (m.remove k).2
  | delete ks => (m.delete ks).2

/-- The keys under which an act inserts or saves. -/
def stored (m : Memory) : Act → List Key
  | insert e => m.storedKeys [e]
  | save es => if m.faults.writes = 0 then m.storedKeys es else []
  | _ => []

variable {m : Memory} {k : Key}

/-- **What is absent comes in by being stored.** -/
theorem get?_on_eq_none (a : Act) (h : m.get? k = none) (hk : k ∉ a.stored m) :
    (a.on m).get? k = none := by
  cases a with
  | insert e =>
      rw [on, ← m.insertAll_singleton e]
      exact Memory.get?_insertAll_eq_none h hk
  | save es =>
      cases hfaults : m.faults.writes with
      | zero =>
          rw [stored, if_pos hfaults] at hk
          rw [on, Memory.save_of_no_faults hfaults]
          exact Memory.get?_insertAll_eq_none h hk
      | succ n =>
          rw [on, Memory.save_of_fault hfaults]
          exact h
  | update es =>
      rcases m.update_cases es with ⟨e, faults, hcase⟩ | ⟨hall, hcase⟩
      · rw [on, hcase]
        exact h
      · rw [on, hcase]
        refine (Table.get?_insertAll_of_ne ?_).trans h
        intro e he hkey
        exact hall e he (hkey ▸ h)
  | remove k' => exact Table.get?_eraseAll_eq_none h [k']
  | delete ks =>
      rcases m.delete_cases ks with ⟨e, faults, hcase⟩ | hcase
      · rw [on, hcase]
        exact h
      · rw [on, hcase]
        exact Table.get?_eraseAll_eq_none h ks

theorem space_on (a : Act) (m : Memory) : (a.on m).space = m.space := by
  cases a with
  | insert e =>
      rw [on, ← m.insertAll_singleton e]
      exact m.space_insertAll [e]
  | save es =>
      cases hfaults : m.faults.writes with
      | zero =>
          rw [on, Memory.save_of_no_faults hfaults]
          exact m.space_insertAll es
      | succ n => rw [on, Memory.save_of_fault hfaults]
  | update es =>
      rcases m.update_cases es with ⟨e, faults, hcase⟩ | ⟨_, hcase⟩
      · rw [on, hcase]
      · rw [on, hcase]
  | remove k => rfl
  | delete ks =>
      rcases m.delete_cases ks with ⟨e, faults, hcase⟩ | hcase
      · rw [on, hcase]
      · rw [on, hcase]

end Act

/-! ## Round trips -/

/-- A call over the line, and how it was answered. -/
inductive Trip where
  | query (q : Query) (answer : Except StoreError Page)
  | save (es : List Entity) (answer : Except StoreError (List Key))
  | update (es : List Entity) (answer : Except StoreError Unit)
  | delete (ks : List Key) (answer : Except StoreError Unit)

/-- The memory, the round trips so far, and the keys under which others have stored something. -/
structure Shared where
  memory : Memory
  trips : List Trip
  arrivals : List Key

/-- What happens from outside: what others do before a round trip, and whether the line breaks. -/
structure Course where
  acts : Nat → List Act
  broken : Nat → Option StoreError

namespace Shared

/-- Nobody has come by yet. -/
def ofMemory (m : Memory) : Shared := ⟨m, [], []⟩

def visit (s : Shared) (a : Act) : Shared :=
  { s with memory := a.on s.memory, arrivals := s.arrivals ++ a.stored s.memory }

def visited (s : Shared) (acts : List Act) : Shared := acts.foldl visit s

/-- A round trip: others act, and then the call reaches the memory unless the line is broken. -/
def trip {α : Type} (c : Course) (record : Except StoreError α → Trip)
    (call : Memory → Except StoreError α × Memory) (s : Shared) : Except StoreError α × Shared :=
  let v := s.visited (c.acts s.trips.length)
  match c.broken s.trips.length with
  | some e => (.error e, { v with trips := s.trips ++ [record (.error e)] })
  | none =>
    ((call v.memory).1,
      { v with memory := (call v.memory).2, trips := s.trips ++ [record (call v.memory).1] })

def redeem (c : Course) (t : Ticket) (s : Shared) : Except StoreError Page × Shared :=
  match t with
  | .running q => trip c (.query q) (Memory.run q) s
  | .answered answer => (answer, s)

/-- The shared memory as a store. -/
def store (c : Course) (patience : Nat) : Store Shared where
  space s := s.memory.space
  ask q s := (.running q, s)
  redeem := redeem c
  save es := trip c (.save es) (Memory.save es)
  update es := trip c (.update es) (Memory.update es)
  delete ks := trip c (.delete ks) (Memory.delete ks)
  patience _ := patience

/-! ## What time does -/

/-- The key is absent, unless others have stored something under it. -/
def Cleared (k : Key) (s : Shared) : Prop := k ∈ s.arrivals ∨ s.memory.get? k = none

/-- The namespace stays, and so does what is cleared. -/
structure Later (s s' : Shared) : Prop where
  space : s'.memory.space = s.memory.space
  cleared : ∀ k, s.Cleared k → s'.Cleared k

theorem Later.refl (s : Shared) : s.Later s := ⟨rfl, fun _ h => h⟩

theorem Later.trans {a b c : Shared} (hab : a.Later b) (hbc : b.Later c) : a.Later c :=
  ⟨hbc.space.trans hab.space, fun k h => hbc.cleared k (hab.cleared k h)⟩

theorem later_visit (s : Shared) (a : Act) : s.Later (s.visit a) := by
  constructor
  · exact a.space_on s.memory
  · intro k h
    by_cases hstored : k ∈ a.stored s.memory
    · exact .inl (List.mem_append_right _ hstored)
    · rcases h with h | h
      · exact .inl (List.mem_append_left _ h)
      · exact .inr (a.get?_on_eq_none h hstored)

theorem later_visited (s : Shared) (acts : List Act) : s.Later (s.visited acts) := by
  induction acts generalizing s with
  | nil => exact .refl s
  | cons a acts ih => exact (s.later_visit a).trans (ih (s.visit a))

section Trip

variable {α : Type} {c : Course} {record : Except StoreError α → Trip}
  {call : Memory → Except StoreError α × Memory}

theorem trips_trip (s : Shared) :
    (s.trip c record call).2.trips = s.trips ++ [record (s.trip c record call).1] := by
  unfold trip
  cases c.broken s.trips.length <;> rfl

/-- A round trip that is answered has reached the memory as others have left it. -/
theorem trip_ok {s : Shared} {a : α} (h : (s.trip c record call).1 = .ok a) :
    (call (s.visited (c.acts s.trips.length)).memory).1 = .ok a ∧
      (s.trip c record call).2.memory = (call (s.visited (c.acts s.trips.length)).memory).2 := by
  unfold trip at h ⊢
  cases hbroken : c.broken s.trips.length with
  | none =>
      simp only [hbroken] at h
      exact ⟨h, rfl⟩
  | some e =>
      simp only [hbroken] at h
      cases h

/-- A call that brings in nothing keeps what is cleared. -/
theorem visited_later_trip (hspace : ∀ m, (call m).2.space = m.space)
    (habsent : ∀ m k, m.get? k = none → (call m).2.get? k = none) (s : Shared) :
    (s.visited (c.acts s.trips.length)).Later (s.trip c record call).2 := by
  unfold trip
  cases c.broken s.trips.length with
  | none => exact ⟨hspace _, fun k h => h.imp id (habsent _ k)⟩
  | some e => exact ⟨rfl, fun _ h => h⟩

theorem later_trip (hspace : ∀ m, (call m).2.space = m.space)
    (habsent : ∀ m k, m.get? k = none → (call m).2.get? k = none) (s : Shared) :
    s.Later (s.trip c record call).2 :=
  (s.later_visited _).trans (visited_later_trip hspace habsent s)

end Trip

end Shared

end Quarry
