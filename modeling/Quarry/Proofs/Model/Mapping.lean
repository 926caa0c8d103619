import Quarry.Model.Mapping
import Quarry.Proofs.Except
import Quarry.Proofs.Record

/-!
# Records and entities mirror each other

A value is an id exactly if it is a string or an integer of the signed 64-bit range, and then the id
leads back to the value. From this the two ways between records and entities follow. A record is
refused only for a value in the primary-key column that is neither null nor an id. Else its entity
gives the record back, but for the order of the columns and a null in the primary-key column.
-/

namespace Quarry

open Json

/-! ## Ids and their values -/

/-- A value that names an entity. -/
def Json.Value.IsId : Value → Prop
  | .string _ => True
  | .number (.integer n _) => -9223372036854775808 ≤ n ∧ n < 9223372036854775808
  | _ => False

namespace KeyId

variable {v : Value} {id : KeyId}

theorem ofValue?_toValue (id : KeyId) : ofValue? id.toValue = some id := by
  cases id with
  | number n =>
      have hn : n.toInt < 9223372036854775808 := Int64.toInt_lt n
      simp [toValue, ofValue?, Number.ofInt64, Number.toInt64?, hn]
  | name text => rfl

/-- An id is read from its own value only. -/
theorem ofValue?_eq_some_iff : ofValue? v = some id ↔ v = id.toValue := by
  constructor
  · intro h
    cases v with
    | string s =>
        cases h
        rfl
    | number n =>
        obtain ⟨i, hi, rfl⟩ := Option.map_eq_some_iff.1 h
        cases n with
        | double d => cases hi
        | integer n fits =>
            by_cases hn : n < 9223372036854775808
            · rw [Number.toInt64?, if_pos hn, Option.some.injEq] at hi
              have hvalue : i.toInt = n := by
                rw [← hi]
                exact Int64.toInt_ofInt_of_le fits.1 hn
              simp [toValue, Number.ofInt64, hvalue]
            · rw [Number.toInt64?, if_neg hn] at hi
              cases hi
    | _ => cases h
  · rintro rfl
    exact ofValue?_toValue id

theorem exists_toValue_iff : (∃ id : KeyId, v = id.toValue) ↔ v.IsId := by
  constructor
  · rintro ⟨id, rfl⟩
    cases id with
    | number n => exact ⟨Int64.le_toInt n, Int64.toInt_lt n⟩
    | name text => trivial
  · intro h
    cases v with
    | string s => exact ⟨name s, rfl⟩
    | number n =>
        cases n with
        | double d => cases h
        | integer n fits =>
            have hid : ofValue? (.number (.integer n fits)) = some (number (.ofInt n)) := by
              simp [ofValue?, Number.toInt64?, h.2]
            exact ⟨_, ofValue?_eq_some_iff.1 hid⟩
    | _ => cases h

theorem ofValue?_eq_none_iff : ofValue? v = none ↔ ¬ v.IsId := by
  rw [← exists_toValue_iff, Option.eq_none_iff_forall_ne_some, not_exists]
  exact forall_congr' fun id => not_congr ofValue?_eq_some_iff

end KeyId

/-! ## The id in a record -/

namespace Record

variable {r : Record} {column : String} {v : Value}

theorem present?_of_get? (h : r.get? column = some v) (hnull : v ≠ .null) :
    r.present? column = some v := by
  rw [present?, h, Option.filter_some, if_pos]
  cases v <;> first | rfl | exact absurd rfl hnull

theorem present?_of_blank (h : ∀ v, r.get? column = some v → v = .null) :
    r.present? column = none := by
  rw [present?]
  cases hv : r.get? column with
  | none => rfl
  | some v =>
      rw [h v hv]
      rfl

end Record

namespace Model

variable {M : Model} {space : Option String} {r : Record} {e : Entity} {id : KeyId} {v : Value}

theorem idOf_of_toValue (h : r.get? M.primaryKeyColumn = some id.toValue) :
    M.idOf r = .ok (some id) := by
  rw [idOf, Record.present?_of_get? h (by cases id <;> simp [KeyId.toValue])]
  simp only [KeyId.ofValue?_toValue]

theorem idOf_of_blank (h : ∀ v, r.get? M.primaryKeyColumn = some v → v = .null) :
    M.idOf r = .ok none := by
  rw [idOf, Record.present?_of_blank h]

theorem idOf_of_other (h : r.get? M.primaryKeyColumn = some v) (hnull : v ≠ .null)
    (hid : ¬ v.IsId) : M.idOf r = .error ⟨M.kind, v⟩ := by
  rw [idOf, Record.present?_of_get? h hnull]
  simp only [KeyId.ofValue?_eq_none_iff.2 hid]

/-- The column holds nothing or null, or an id, or some other value. -/
theorem idOf_cases (M : Model) (r : Record) :
    ((∀ v, r.get? M.primaryKeyColumn = some v → v = .null) ∧ M.idOf r = .ok none) ∨
    (∃ id, r.get? M.primaryKeyColumn = some (KeyId.toValue id) ∧ M.idOf r = .ok (some id)) ∨
    (∃ v, r.get? M.primaryKeyColumn = some v ∧ v ≠ .null ∧ ¬ v.IsId ∧
      M.idOf r = .error ⟨M.kind, v⟩) := by
  by_cases hblank : ∀ v, r.get? M.primaryKeyColumn = some v → v = .null
  · exact .inl ⟨hblank, idOf_of_blank hblank⟩
  · obtain ⟨v, hv, hnull⟩ : ∃ v, r.get? M.primaryKeyColumn = some v ∧ v ≠ .null := by
      simpa using hblank
    by_cases hid : v.IsId
    · obtain ⟨id, rfl⟩ := KeyId.exists_toValue_iff.2 hid
      exact .inr (.inl ⟨id, hv, idOf_of_toValue hv⟩)
    · exact .inr (.inr ⟨v, hv, hnull, hid, idOf_of_other hv hnull hid⟩)

theorem toEntity_of_idOf {id : Option KeyId} (h : M.idOf r = .ok id) :
    M.toEntity space r = .ok ⟨M.keyOf space id, r.takeOut M.primaryKeyColumn⟩ := by
  rw [toEntity, h]
  rfl

/-- A record is refused for the value of its primary-key column, and for nothing else. -/
theorem toEntity_eq_error_iff {fault : RecordError} : M.toEntity space r = .error fault ↔
    ∃ v, r.get? M.primaryKeyColumn = some v ∧ v ≠ .null ∧ ¬ v.IsId ∧ fault = ⟨M.kind, v⟩ := by
  rw [toEntity, map_eq_error]
  constructor
  · intro h
    rcases M.idOf_cases r with ⟨_, hid⟩ | ⟨id, _, hid⟩ | ⟨v, hv, hnull, hnot, hid⟩
    · rw [hid] at h
      cases h
    · rw [hid] at h
      cases h
    · rw [hid] at h
      cases h
      exact ⟨v, hv, hnull, hnot, rfl⟩
  · rintro ⟨v, hv, hnull, hnot, rfl⟩
    exact idOf_of_other hv hnull hnot

/-! ## The record of an entity -/

@[simp] theorem id?_keyOf (id : Option KeyId) : (M.keyOf space id).id? = id := rfl

theorem columns_toRecord (M : Model) (e : Entity) : (M.toRecord e).columns =
    (e.key.id?.map fun id => (M.primaryKeyColumn, id.toValue)).toList ++
      (e.properties.restrict (· != M.primaryKeyColumn)).columns := by
  have hdistinct := (e.properties.restrict (· != M.primaryKeyColumn)).distinct
  rw [toRecord]
  cases e.key.id? with
  | none => exact Record.columns_ofColumns hdistinct
  | some id =>
      refine Record.columns_ofColumns (List.nodup_cons.2 ⟨?_, hdistinct⟩)
      intro hmem
      obtain ⟨c, hc, hname⟩ := List.mem_map.1 hmem
      have hne := (List.mem_filter.1 hc).2
      simp [hname] at hne

theorem get?_toRecord (M : Model) (e : Entity) (column : String) :
    (M.toRecord e).get? column =
      if column = M.primaryKeyColumn then e.key.id?.map KeyId.toValue
      else e.properties.get? column := by
  have hrest := e.properties.get?_restrict (· != M.primaryKeyColumn) column
  rw [Record.get?, columns_toRecord]
  cases e.key.id? with
  | none =>
      refine hrest.trans ?_
      by_cases h : column = M.primaryKeyColumn <;> simp [h]
  | some id =>
      refine (Record.lookup_cons _ _ column).trans ?_
      by_cases h : column = M.primaryKeyColumn
      · simp [h]
      · rw [if_neg h, if_neg h]
        exact hrest.trans (if_pos (by simpa using h))

/-! ## Both ways -/

theorem toRecord_of_toEntity (h : M.toEntity space r = .ok e) (column : String) :
    (M.toRecord e).get? column =
      if column = M.primaryKeyColumn then e.key.id?.map KeyId.toValue else r.get? column := by
  obtain ⟨id, _, rfl⟩ := map_eq_ok.1 h
  rw [get?_toRecord, Record.get?_takeOut]
  by_cases hcolumn : column = M.primaryKeyColumn <;> simp [hcolumn]

/-- A record with an id is given back, its id ahead of all else. -/
theorem toRecord_toEntity_of_id (h : r.get? M.primaryKeyColumn = some v) (hid : v.IsId) :
    ∃ e id, M.toEntity space r = .ok e ∧ e.key = M.keyOf space (some id) ∧ id.toValue = v ∧
      (M.toRecord e).Same r ∧ (M.toRecord e).columns.head? = some (M.primaryKeyColumn, v) := by
  obtain ⟨id, rfl⟩ := KeyId.exists_toValue_iff.2 hid
  have hentity : M.toEntity space r = _ := toEntity_of_idOf (idOf_of_toValue h)
  refine ⟨_, id, hentity, rfl, rfl, Record.same_iff.2 ?_, ?_⟩
  · intro column
    rw [toRecord_of_toEntity hentity]
    split
    · rename_i hcolumn
      rw [hcolumn, h]
      rfl
    · rfl
  · rw [columns_toRecord]
    rfl

/-- A record without an id is given back without its primary-key column. -/
theorem toRecord_toEntity_of_blank (h : ∀ v, r.get? M.primaryKeyColumn = some v → v = .null) :
    ∃ e, M.toEntity space r = .ok e ∧ e.key = M.keyOf space none ∧ e.key.isComplete = false ∧
      (M.toRecord e).Same (r.restrict (· != M.primaryKeyColumn)) := by
  have hentity : M.toEntity space r = _ := toEntity_of_idOf (idOf_of_blank h)
  refine ⟨_, hentity, rfl, rfl, Record.same_iff.2 ?_⟩
  intro column
  rw [toRecord_of_toEntity hentity, Record.get?_restrict]
  by_cases hcolumn : column = M.primaryKeyColumn <;> simp [hcolumn]

/-- An entity of the model is given back by its record. -/
theorem toEntity_toRecord {id : Option KeyId} (hkey : e.key = M.keyOf space id)
    (hproperties : e.properties.get? M.primaryKeyColumn = none) :
    ∃ e', M.toEntity space (M.toRecord e) = .ok e' ∧ e'.key = e.key ∧
      e'.properties.Same e.properties := by
  have hcolumn : (M.toRecord e).get? M.primaryKeyColumn = id.map KeyId.toValue := by
    rw [get?_toRecord, if_pos rfl, hkey, id?_keyOf]
  have hid : M.idOf (M.toRecord e) = .ok id := by
    cases id with
    | none => exact idOf_of_blank fun v hv => by simp [hcolumn] at hv
    | some id => exact idOf_of_toValue hcolumn
  refine ⟨_, toEntity_of_idOf hid, hkey.symm, Record.same_iff.2 ?_⟩
  intro column
  rw [Record.get?_takeOut, get?_toRecord]
  by_cases hcolumn : column = M.primaryKeyColumn <;> simp [hcolumn, hproperties]

/-- **Records and entities.** The one way is refused only for a value that is no id, and each way
undoes the other. -/
theorem records_mirror_entities (M : Model) (space : Option String) :
    (∀ r fault, M.toEntity space r = .error fault ↔
      ∃ v, r.get? M.primaryKeyColumn = some v ∧ v ≠ .null ∧ ¬ v.IsId ∧ fault = ⟨M.kind, v⟩) ∧
    (∀ r v, r.get? M.primaryKeyColumn = some v → v.IsId →
      ∃ e id, M.toEntity space r = .ok e ∧ e.key = M.keyOf space (some id) ∧ id.toValue = v ∧
        (M.toRecord e).Same r ∧ (M.toRecord e).columns.head? = some (M.primaryKeyColumn, v)) ∧
    (∀ r, (∀ v, r.get? M.primaryKeyColumn = some v → v = .null) →
      ∃ e, M.toEntity space r = .ok e ∧ e.key = M.keyOf space none ∧ e.key.isComplete = false ∧
        (M.toRecord e).Same (r.restrict (· != M.primaryKeyColumn))) ∧
    ∀ e id, e.key = M.keyOf space id → e.properties.get? M.primaryKeyColumn = none →
      ∃ e', M.toEntity space (M.toRecord e) = .ok e' ∧ e'.key = e.key ∧
        e'.properties.Same e.properties := by
  refine ⟨?_, ?_, ?_, ?_⟩
  · intro r fault
    exact toEntity_eq_error_iff
  · intro r v hv hid
    exact toRecord_toEntity_of_id hv hid
  · intro r hblank
    exact toRecord_toEntity_of_blank hblank
  · intro e id hkey hproperties
    exact toEntity_toRecord hkey hproperties

/-- A column in front of the id and two behind it, the last of which takes the place of the id. -/
def numbered (id : Value) : Record :=
  .ofColumns [("title", .string "a"), ("id", id), ("done", .bool true), ("tags", .array [])]

theorem records_mirror_entities_numbered :
    let notes : Model := ⟨"Note", "id", "id", []⟩
    let least : Value := .number (.ofInt64 Int64.minValue)
    let beyond : Value := .number (.ofNat 9223372036854775808)
    notes.toEntity none (numbered beyond) = .error ⟨"Note", beyond⟩ ∧
    (∃ e id, notes.toEntity none (numbered least) = .ok e ∧
      e.key = notes.keyOf none (some id) ∧ id.toValue = least ∧
      (notes.toRecord e).Same (numbered least) ∧
      (notes.toRecord e).columns.head? = some ("id", least)) ∧
    (∃ e, notes.toEntity none (numbered .null) = .ok e ∧ e.key = notes.keyOf none none ∧
      e.key.isComplete = false ∧
      (notes.toRecord e).Same ((numbered .null).restrict (· != "id"))) ∧
    ∃ e', notes.toEntity none (notes.toRecord
        ⟨notes.keyOf none (some (.name "a")), .ofColumns [("title", .string "a")]⟩) = .ok e' ∧
      e'.key = notes.keyOf none (some (.name "a")) ∧
      e'.properties.Same (.ofColumns [("title", .string "a")]) := by
  intro notes least beyond
  obtain ⟨hrefused, hnumbered, hblank, hback⟩ := records_mirror_entities notes none
  refine ⟨?_, ?_, ?_, ?_⟩
  · refine (hrefused _ _).2 ⟨beyond, rfl, by decide, ?_, rfl⟩
    rintro ⟨_, hsmall⟩
    exact absurd hsmall (by decide)
  · exact hnumbered _ least rfl ⟨by decide, by decide⟩
  · refine hblank _ ?_
    intro v hv
    cases hv
    rfl
  · exact hback ⟨notes.keyOf none (some (.name "a")), _⟩ (some (.name "a")) rfl rfl

end Model

end Quarry
