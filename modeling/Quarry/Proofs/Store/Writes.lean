import Quarry.Proofs.Except
import Quarry.Proofs.Store.Table

/-!
# What writes do to a memory

A write that is to fail changes nothing but the failures that are due. Otherwise entities to store
are taken one after another, each under its own key or under the next number, and nothing else comes
in. Updates and deletions take place at once.
-/

namespace Quarry

namespace Memory

variable {m : Memory}

/-! ## Entities, one after another -/

theorem insert_of_no_path {e : Entity} (h : e.key.path = []) :
    m.insert e = (.error (.writeFailed "key has an empty path"), m) := by
  rw [insert, completeKey, if_pos (List.isEmpty_iff.2 h)]

theorem insert_of_complete {e : Entity} (h : e.key.isComplete = true) :
    m.insert e = (.ok e.key, { m with table := m.table.insert e }) := by
  have hpath : ¬ e.key.path.isEmpty = true := by
    intro hempty
    rw [Key.isComplete, hempty] at h
    cases h
  rw [insert, completeKey, if_neg hpath, if_pos h]

/-- The entity of a key that lacks an id is stored under the next number. -/
theorem insert_of_incomplete {e : Entity} (hpath : e.key.path ≠ [])
    (h : e.key.isComplete = false) :
    m.insert e =
      (.ok (e.key.completeWith (.number m.nextId)),
        { m with
          nextId := m.nextId + 1
          table := m.table.insert { e with key := e.key.completeWith (.number m.nextId) } }) := by
  rw [insert, completeKey, if_neg (by rwa [List.isEmpty_iff]), if_neg (by rw [h]; decide)]

theorem insert_cases (m : Memory) (e : Entity) :
    (∃ err, m.insert e = (.error err, m)) ∨
      ∃ k id, m.insert e =
        (.ok k, { m with nextId := id, table := m.table.insert { e with key := k } }) := by
  by_cases hpath : e.key.path = []
  · exact .inl ⟨_, insert_of_no_path hpath⟩
  · cases hcomplete : e.key.isComplete with
    | true => exact .inr ⟨_, _, insert_of_complete hcomplete⟩
    | false => exact .inr ⟨_, _, insert_of_incomplete hpath hcomplete⟩

theorem insert_eq_ok {e : Entity} {k : Key} {m' : Memory} (h : m.insert e = (.ok k, m')) :
    ∃ id, m' = { m with nextId := id, table := m.table.insert { e with key := k } } := by
  rcases m.insert_cases e with ⟨err, hcase⟩ | ⟨k', id, hcase⟩
  · rw [hcase] at h
    cases h
  · rw [hcase] at h
    cases h
    exact ⟨id, rfl⟩

theorem insert_eq_error {e : Entity} {err : StoreError} {m' : Memory}
    (h : m.insert e = (.error err, m')) : e.key.path = [] ∧ m' = m := by
  by_cases hpath : e.key.path = []
  · rw [insert_of_no_path hpath] at h
    cases h
    exact ⟨hpath, rfl⟩
  · cases hcomplete : e.key.isComplete with
    | true =>
        rw [insert_of_complete hcomplete] at h
        cases h
    | false =>
        rw [insert_of_incomplete hpath hcomplete] at h
        cases h

theorem path_of_insert {e : Entity} {k : Key} {m' : Memory} (h : m.insert e = (.ok k, m')) :
    e.key.path ≠ [] := by
  intro hpath
  rw [insert_of_no_path hpath] at h
  cases h

/-- The keys under which entities are stored, one after another and up to one that fails. -/
def storedKeys : List Entity → Memory → List Key
  | [], _ => []
  | e :: es, m =>
    match m.insert e with
    | (.error _, _) => []
    | (.ok k, m) => k :: storedKeys es m

theorem insertAll_cons_error {e : Entity} {m m' : Memory} {err : StoreError}
    (h : m.insert e = (.error err, m')) (es : List Entity) :
    m.insertAll (e :: es) = (.error err, m') ∧ m.storedKeys (e :: es) = [] := by
  rw [insertAll, storedKeys, h]
  exact ⟨rfl, rfl⟩

theorem insertAll_cons_ok {e : Entity} {m m' : Memory} {k : Key} (h : m.insert e = (.ok k, m'))
    (es : List Entity) :
    m.insertAll (e :: es) = ((m'.insertAll es).1.map (k :: ·), (m'.insertAll es).2) ∧
      m.storedKeys (e :: es) = k :: m'.storedKeys es := by
  rw [insertAll, storedKeys, h]
  refine ⟨?_, rfl⟩
  simp only
  split <;> rename_i heq <;> rw [heq] <;> rfl

theorem insertAll_cons_eq_ok {e : Entity} {es : List Entity} {ks : List Key} {m' : Memory} :
    m.insertAll (e :: es) = (.ok ks, m') ↔
      ∃ k m₁ rest, m.insert e = (.ok k, m₁) ∧ m₁.insertAll es = (.ok rest, m') ∧
        ks = k :: rest := by
  rcases m.insert_cases e with ⟨err, hinsert⟩ | ⟨k, id, hinsert⟩
  · rw [(insertAll_cons_error hinsert es).1, hinsert]
    constructor
    · rintro ⟨⟩
    · rintro ⟨_, _, _, ⟨⟩, _⟩
  · rw [(insertAll_cons_ok hinsert es).1, hinsert]
    constructor
    · intro h
      obtain ⟨hkeys, rfl⟩ := Prod.mk.inj h
      obtain ⟨rest, hrest, rfl⟩ := map_eq_ok.1 hkeys
      exact ⟨k, _, rest, rfl, Prod.ext hrest rfl, rfl⟩
    · rintro ⟨_, _, rest, ⟨⟩, hrest, rfl⟩
      rw [hrest]
      rfl

theorem insertAll_cons_eq_error {e : Entity} {es : List Entity} {err : StoreError}
    {m' : Memory} (h : m.insertAll (e :: es) = (.error err, m')) :
    m.insert e = (.error err, m') ∨
      ∃ k m₁, m.insert e = (.ok k, m₁) ∧ m₁.insertAll es = (.error err, m') := by
  rcases m.insert_cases e with ⟨err', hinsert⟩ | ⟨k, id, hinsert⟩
  · rw [(insertAll_cons_error hinsert es).1] at h
    cases h
    exact .inl hinsert
  · rw [(insertAll_cons_ok hinsert es).1] at h
    obtain ⟨hkeys, hm'⟩ := Prod.mk.inj h
    exact .inr ⟨k, _, hinsert, Prod.ext (map_eq_error.1 hkeys) hm'⟩

theorem insertAll_singleton (m : Memory) (e : Entity) : (m.insertAll [e]).2 = (m.insert e).2 := by
  rcases m.insert_cases e with ⟨err, hinsert⟩ | ⟨k, id, hinsert⟩
  · rw [(insertAll_cons_error hinsert []).1, hinsert]
  · rw [(insertAll_cons_ok hinsert []).1, hinsert]
    rfl

/-- Storing entities brings in no other keys than those that they are stored under. -/
theorem get?_insertAll_eq_none {k : Key} {es : List Entity} (h : m.get? k = none)
    (hk : k ∉ m.storedKeys es) : (m.insertAll es).2.get? k = none := by
  induction es generalizing m with
  | nil => exact h
  | cons e es ih =>
      rcases m.insert_cases e with ⟨err, hinsert⟩ | ⟨stored, id, hinsert⟩
      · rw [(insertAll_cons_error hinsert es).1]
        exact h
      · obtain ⟨hall, hkeys⟩ := insertAll_cons_ok hinsert es
        rw [hkeys, List.mem_cons, not_or] at hk
        rw [hall]
        refine ih ?_ hk.2
        exact (Table.get?_insert _ _ _).trans ((if_neg (Ne.symm hk.1)).trans h)

/-- Storing entities changes nothing but the table and the next number. -/
theorem insertAll_frame (m : Memory) (es : List Entity) :
    ∃ id table, (m.insertAll es).2 = { m with nextId := id, table := table } := by
  induction es generalizing m with
  | nil => exact ⟨m.nextId, m.table, rfl⟩
  | cons e es ih =>
      rcases m.insert_cases e with ⟨err, hinsert⟩ | ⟨stored, id, hinsert⟩
      · rw [(insertAll_cons_error hinsert es).1]
        exact ⟨m.nextId, m.table, rfl⟩
      · obtain ⟨id', table, hrest⟩ :=
          ih { m with nextId := id, table := m.table.insert { e with key := stored } }
        rw [(insertAll_cons_ok hinsert es).1, hrest]
        exact ⟨id', table, rfl⟩

theorem space_insertAll (m : Memory) (es : List Entity) : (m.insertAll es).2.space = m.space := by
  obtain ⟨id, table, hframe⟩ := m.insertAll_frame es
  rw [hframe]

/-- Entities under the keys that were given to them. -/
def underKeys (ks : List Key) (es : List Entity) : List Entity :=
  (ks.zip es).map fun (k, e) => { e with key := k }

/-- Entities that have all been stored were written one after another, under the keys given. -/
theorem table_of_insertAll {es : List Entity} {ks : List Key} {m' : Memory}
    (h : m.insertAll es = (.ok ks, m')) : m'.table = m.table.insertAll (underKeys ks es) := by
  induction es generalizing m ks with
  | nil =>
      cases h
      rfl
  | cons x es ih =>
      obtain ⟨k, m₁, rest, hinsert, hrest, rfl⟩ := insertAll_cons_eq_ok.1 h
      obtain ⟨id, rfl⟩ := insert_eq_ok hinsert
      exact ih hrest

/-- Storing entities brings in no others. -/
theorem mem_of_insertAll {es : List Entity} {ks : List Key} {m' : Memory}
    (h : m.insertAll es = (.ok ks, m')) {e : Entity} (he : e ∈ m'.table.entities) :
    e ∈ m.table.entities ∨ e ∈ underKeys ks es := by
  rw [table_of_insertAll h] at he
  rcases Table.mem_of_insertAll he with hnew | ⟨hold, _⟩
  · exact .inr hnew
  · exact .inl hold

/-! ## Writes of a client -/

theorem save_of_no_faults (h : m.faults.writes = 0) (es : List Entity) :
    m.save es = m.insertAll es := by
  unfold save
  simp only [h]

theorem save_of_fault {n : Nat} (h : m.faults.writes = n + 1) (es : List Entity) :
    m.save es = (.error (.writeFailed injected),
      { m with faults := { m.faults with writes := n } }) := by
  unfold save
  simp only [h]

theorem writes_of_save {es : List Entity} {ks : List Key} {m' : Memory}
    (h : m.save es = (.ok ks, m')) : m.faults.writes = 0 := by
  cases hfaults : m.faults.writes with
  | zero => rfl
  | succ n =>
      rw [save_of_fault hfaults] at h
      cases h

theorem insertAll_of_save {es : List Entity} {ks : List Key} {m' : Memory}
    (h : m.save es = (.ok ks, m')) : m.insertAll es = (.ok ks, m') := by
  rwa [save_of_no_faults (writes_of_save h)] at h

theorem update_of_fault {es : List Entity} {n : Nat} (h : m.faults.writes = n + 1) :
    m.update es =
      (.error (.writeFailed injected), { m with faults := { m.faults with writes := n } }) := by
  unfold update
  simp only [h]

/-- An update of an entity that is not there changes nothing. -/
theorem update_of_missing {es : List Entity} (h : m.faults.writes = 0) {e : Entity}
    (he : es.find? (fun e => (m.get? e.key).isNone) = some e) :
    m.update es = (.error (.notFound e.key.text), m) := by
  unfold update
  simp only [h, he]

theorem update_of_present {es : List Entity} (h : m.faults.writes = 0)
    (hes : es.find? (fun e => (m.get? e.key).isNone) = none) :
    m.update es = (.ok (), { m with table := m.table.insertAll es }) := by
  unfold update
  simp only [h, hes]

theorem update_cases (m : Memory) (es : List Entity) :
    (∃ e faults, m.update es = (.error e, { m with faults })) ∨
      (∀ e ∈ es, m.get? e.key ≠ none) ∧
        m.update es = (.ok (), { m with table := m.table.insertAll es }) := by
  cases hdue : m.faults.writes with
  | succ n => exact .inl ⟨_, _, update_of_fault hdue⟩
  | zero =>
      cases hfind : es.find? fun e => (m.get? e.key).isNone with
      | some missing => exact .inl ⟨_, m.faults, update_of_missing hdue hfind⟩
      | none =>
          refine .inr ⟨?_, update_of_present hdue hfind⟩
          intro e he hnone
          have hsome := List.find?_eq_none.1 hfind e he
          simp [hnone] at hsome

theorem update_eq_ok {es : List Entity} {m' : Memory} (h : m.update es = (.ok (), m')) :
    m' = { m with table := m.table.insertAll es } := by
  rcases m.update_cases es with ⟨e, faults, hcase⟩ | ⟨_, hcase⟩
  · rw [hcase] at h
    cases h
  · rw [hcase] at h
    cases h
    rfl

theorem delete_of_no_faults {ks : List Key} (h : m.faults.deletes = 0) :
    m.delete ks = (.ok (), { m with table := m.table.eraseAll ks }) := by
  unfold delete
  simp only [h]

theorem delete_of_fault {ks : List Key} {n : Nat} (h : m.faults.deletes = n + 1) :
    m.delete ks =
      (.error (.deleteFailed injected), { m with faults := { m.faults with deletes := n } }) := by
  unfold delete
  simp only [h]

theorem delete_cases (m : Memory) (ks : List Key) :
    (∃ e faults, m.delete ks = (.error e, { m with faults })) ∨
      m.delete ks = (.ok (), { m with table := m.table.eraseAll ks }) := by
  cases hfaults : m.faults.deletes with
  | zero => exact .inr (delete_of_no_faults hfaults)
  | succ n => exact .inl ⟨_, _, delete_of_fault hfaults⟩

theorem delete_eq_ok {ks : List Key} {m' : Memory} (h : m.delete ks = (.ok (), m')) :
    m' = { m with table := m.table.eraseAll ks } := by
  rcases m.delete_cases ks with ⟨e, faults, hcase⟩ | hcase
  · rw [hcase] at h
    cases h
  · rw [hcase] at h
    cases h
    rfl

end Memory

end Quarry
