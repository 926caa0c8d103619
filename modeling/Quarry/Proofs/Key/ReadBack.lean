import Quarry.Key.Json
import Quarry.Proofs.Json.ReadBack

/-!
# Keys survive their JSON

Every key is read back from the tree of its JSON form, and no double occurs in that form.
-/

namespace Quarry

open Json

/-! ## Ids -/

namespace KeyId

theorem toInt64?_ofInt64 (n : Int64) : (Raw.ofInt n.toInt).toInt64? = some n := by
  have fits : -9223372036854775808 ≤ n.toInt ∧ n.toInt < 18446744073709551616 :=
    ⟨Int64.le_toInt n, Int.lt_trans (Int64.toInt_lt n) (by decide)⟩
  have hsmall : n.toInt < 9223372036854775808 := Int64.toInt_lt n
  rw [Raw.ofInt, Raw.toInt64?, toNumber?_integer fits]
  simp [Number.toInt64?, hsmall]

theorem ofRaw?_toJson (id : KeyId) : ofRaw? (Raw.ofValue id.toJson) = some id := by
  cases id with
  | number n =>
      show (Raw.ofInt n.toInt).toInt64?.map number = _
      rw [toInt64?_ofInt64]
      rfl
  | name text => rfl

theorem isExact_toJson (id : KeyId) : id.toJson.IsExact := by
  cases id <;> simp [toJson, Number.ofInt64, Value.IsExact, Value.MembersExact]

end KeyId

/-! ## Steps -/

namespace Step

/-- The tree of an id is no null, so that a step with an id has one when it is read. -/
theorem toOption?_toJson (id : KeyId) :
    Raw.toOption? KeyId.ofRaw? (Raw.ofValue id.toJson) = some (some id) := by
  have h := KeyId.ofRaw?_toJson id
  cases id with
  | number n =>
      show (KeyId.ofRaw? (Raw.ofValue (KeyId.number n).toJson)).map some = _
      rw [h]
      rfl
  | name text => rfl

theorem ofRaw?_toJson (s : Step) : ofRaw? (Raw.ofValue s.toJson) = some s := by
  obtain ⟨kind, id⟩ := s
  cases id with
  | none => rfl
  | some id =>
      show (do
        let id ← Raw.toOption? KeyId.ofRaw? (Raw.ofValue id.toJson)
        return (⟨kind, id⟩ : Step)) = _
      rw [toOption?_toJson]
      rfl

theorem isExact_toJson (s : Step) : s.toJson.IsExact := by
  obtain ⟨kind, id⟩ := s
  cases id with
  | none => simp [toJson, Value.ofOption, Value.IsExact, Value.MembersExact]
  | some id =>
      simp [toJson, Value.ofOption, Value.IsExact, Value.MembersExact, KeyId.isExact_toJson]

end Step

/-! ## Keys -/

namespace Key

theorem toList?_path (path : List Step) :
    Raw.toList? Step.ofRaw? (Raw.ofValue (.array (path.map Step.toJson))) = some path := by
  show (Raw.ofItems (path.map Step.toJson)).mapM Step.ofRaw? = some path
  induction path with
  | nil => rfl
  | cons s path ih =>
      rw [List.map_cons, Raw.ofItems, List.mapM_cons, Step.ofRaw?_toJson, ih]
      rfl

/-- **Round trip.** A key is read back from the tree of its JSON form. -/
theorem ofRaw?_toJson (k : Key) : ofRaw? (Raw.ofValue k.toJson) = some k := by
  obtain ⟨space, path⟩ := k
  have hpath := toList?_path path
  cases space with
  | none =>
      show (do
        let path ← Raw.toList? Step.ofRaw? (Raw.ofValue (.array (path.map Step.toJson)))
        return (⟨none, path⟩ : Key)) = _
      rw [hpath]
      rfl
  | some space =>
      show (do
        let path ← Raw.toList? Step.ofRaw? (Raw.ofValue (.array (path.map Step.toJson)))
        return (⟨some space, path⟩ : Key)) = _
      rw [hpath]
      rfl

theorem allExact_path (path : List Step) : Value.AllExact (path.map Step.toJson) := by
  induction path with
  | nil => trivial
  | cons s path ih => exact ⟨s.isExact_toJson, ih⟩

theorem isExact_toJson (k : Key) : k.toJson.IsExact := by
  obtain ⟨space, path⟩ := k
  cases space <;>
    simp [toJson, Value.ofOption, Value.IsExact, Value.MembersExact, allExact_path]

end Key

end Quarry
