import Quarry.Proofs.Engine.Conflicts
import Quarry.Proofs.Model.Mapping

/-!
# What passing a check means

A check passes exactly if no stored entity holds a proposed value, where a list holds its items and
not itself, and an id is held by the one entity of its key. What a check reports to be held is a
value that some record proposes, or else a list.
-/

namespace Quarry

open Json

/-! ## Values that are held -/

/-- The value is the other one, or a list with an item that is. -/
def Json.Value.Carries (actual v : Value) : Prop :=
  match actual with
  | .array items => ∃ item ∈ items, item.same v = true
  | actual => actual.same v = true

theorem Filter.accepts_eq_iff {actual v : Value} :
    accepts actual .eq v = true ↔ actual.Carries v := by
  cases actual with
  | array items => exact List.any_eq_true
  | _ => exact Iff.rfl

theorem Json.Value.Carries.trans {actual v w : Value} (h : actual.Carries v)
    (hvw : v.same w = true) : actual.Carries w := by
  cases actual with
  | array items =>
      obtain ⟨item, hitem, hsame⟩ := h
      exact ⟨item, hitem, same_trans hsame hvw⟩
  | _ => exact same_trans h hvw

/-- An id is equal to the value that it was read from. -/
theorem KeyId.same_of_ofValue? {v : Value} {id : KeyId} (h : ofValue? v = some id) :
    id.toValue.same v = true := by
  obtain rfl := ofValue?_eq_some_iff.1 h
  cases id <;> simp [toValue, Value.same, Number.ofInt64, Number.same]

namespace Memory

variable {m : Memory} {M : Model} {column : String} {v w : Value}

/-- An entity of the kind holds the value in the column. Under the primary-key column it is the
entity of the key with this id. -/
def HoldsValue (M : Model) (column : String) (v : Value) (m : Memory) : Prop :=
  if column = M.primaryKeyColumn then m.get? (M.keyOf m.space (KeyId.ofValue? v)) ≠ none
  else ∃ e ∈ m.ofKind M.kind, ∃ actual, e.properties.get? column = some actual ∧ actual.Carries v

theorem HoldsValue.trans (h : m.HoldsValue M column v) (hvw : v.same w = true) :
    m.HoldsValue M column w := by
  unfold HoldsValue at h ⊢
  split at h
  · rename_i hcolumn
    rw [if_pos hcolumn, ← KeyId.ofValue?_of_same hvw]
    exact h
  · rename_i hcolumn
    obtain ⟨e, he, actual, hactual, hcarries⟩ := h
    rw [if_neg hcolumn]
    exact ⟨e, he, actual, hactual, hcarries.trans hvw⟩

/-- A value is looked up by the entities that hold it. -/
theorem holders_eq_nil_iff : m.holders M column v = [] ↔ ¬ m.HoldsValue M column v := by
  unfold holders HoldsValue
  by_cases hcolumn : column = M.primaryKeyColumn
  · rw [if_pos hcolumn, if_pos hcolumn, not_not, Option.toList_eq_nil_iff]
  · rw [if_neg hcolumn, if_neg hcolumn, List.filter_eq_nil_iff]
    constructor
    · rintro hnone ⟨e, he, actual, hactual, hcarries⟩
      apply hnone e he
      rw [hactual, Option.any_some]
      exact Filter.accepts_eq_iff.2 hcarries
    · intro hnone e he hany
      obtain ⟨actual, hactual, haccepts⟩ := Option.any_eq_true _ _ |>.1 hany
      exact hnone ⟨e, he, actual, hactual, Filter.accepts_eq_iff.1 haccepts⟩

/-- What is held where a value is looked up is the value, or a list. -/
theorem same_of_mem_holders {e : Entity} (he : e ∈ m.holders M column v)
    (hid : column = M.primaryKeyColumn → KeyId.ofValue? v ≠ none)
    (hlist : ∀ items, Probe.held M e column ≠ .array items) :
    (Probe.held M e column).same v = true := by
  unfold holders at he
  unfold Probe.held at hlist ⊢
  by_cases hcolumn : column = M.primaryKeyColumn
  · rw [if_pos hcolumn] at he
    obtain ⟨id, hid⟩ := Option.ne_none_iff_exists'.1 (hid hcolumn)
    have hkey := key_of_get? (Option.mem_toList.1 he)
    rw [if_pos hcolumn, hkey, hid]
    exact KeyId.same_of_ofValue? hid
  · rw [if_neg hcolumn] at he hlist ⊢
    obtain ⟨actual, hactual, haccepts⟩ :=
      Option.any_eq_true _ _ |>.1 (List.mem_filter.1 he).2
    rw [hactual, Option.getD_some] at hlist ⊢
    have hcarries := Filter.accepts_eq_iff.1 haccepts
    cases actual with
    | array items => exact absurd rfl (hlist items)
    | _ => exact hcarries

end Memory

/-! ## Values that are reported -/

section Reports

variable {m : Memory} {c : Compiler} {records : List Record}

theorem conflicts_eq_nil_iff : m.conflicts c records = [] ↔
    ∀ a ∈ c.model.unique, ∀ r ∈ records, ∀ v, r.present? a.column = some v →
      ¬ m.HoldsValue c.model a.column v := by
  rw [Memory.conflicts, List.flatMap_eq_nil_iff]
  constructor
  · intro hnone a ha r hr v hv hholds
    obtain ⟨v₀, hv₀, hequal⟩ := Probe.exists_proposed hr hv
    have hholders := List.map_eq_nil_iff.1 (List.flatMap_eq_nil_iff.1 (hnone a ha) v₀ hv₀)
    rw [Memory.holders_eq_nil_iff] at hholders
    rcases hequal with rfl | hsame
    · exact hholders hholds
    · exact hholders (hholds.trans hsame)
  · intro hnone a ha
    rw [Probe.found, List.flatMap_eq_nil_iff]
    intro v hv
    obtain ⟨r, hr, hpresent⟩ := Probe.present?_of_proposed hv
    rw [List.map_eq_nil_iff, Memory.holders_eq_nil_iff]
    exact hnone a ha r hr v hpresent

/-- What is reported to be held is proposed, or a list. -/
theorem proposed_of_mem_conflicts (hids : ¬ ProposesNoId c.model records) {x : Conflict}
    (hx : x ∈ m.conflicts c records) (hlist : ∀ items, x.value ≠ .array items) :
    ∃ r ∈ records, ∃ v, r.present? x.unique.column = some v ∧ x.value.same v = true := by
  obtain ⟨a, ha, hx⟩ := List.mem_flatMap.1 hx
  obtain ⟨v, hv, hx⟩ := List.mem_flatMap.1 hx
  obtain ⟨e, he, rfl⟩ := List.mem_map.1 hx
  obtain ⟨r, hr, hpresent⟩ := Probe.present?_of_proposed hv
  refine ⟨r, hr, v, hpresent, ?_⟩
  exact Memory.same_of_mem_holders he (canLookUp_of_proposed hids ha hv) hlist

end Reports

/-- **A check that succeeds passes what nobody holds.** With no failures due and no other clients,
its list is empty if and only if no entity of the kind holds a value that a record proposes for a
unique column. A list holds its items, and an id is held by the entity of its key. A value that is
reported and is no list is equal to one that a record proposes for the column. -/
theorem findConflicts_nil_iff_unheld (c : Compiler) (records : List Record)
    (found : List Conflict) (w w' : Session Memory) (hspace : c.space = w.store.space)
    (hfaults : w.store.faults.queries = 0)
    (h : (findConflicts Memory.store c records).exec w = (.ok found, w')) :
    (found = [] ↔ ∀ a ∈ c.model.unique, ∀ r ∈ records, ∀ v, r.present? a.column = some v →
      ¬ w.store.HoldsValue c.model a.column v) ∧
    ∀ x ∈ found, (∀ items, x.value ≠ .array items) →
      ∃ r ∈ records, ∃ v, r.present? x.unique.column = some v ∧ x.value.same v = true := by
  have hids : ¬ ProposesNoId c.model records := by
    intro hno
    obtain ⟨err, _, herror⟩ := exec_findConflicts_error hno w
    rw [herror] at h
    cases h
  obtain ⟨_, hexec, _⟩ := exec_findConflicts hspace hfaults
    (fun a ha v hv => canLookUp_of_proposed hids ha hv) rfl
  rw [hexec] at h
  cases h
  refine ⟨conflicts_eq_nil_iff, ?_⟩
  intro x hx hlist
  exact proposed_of_mem_conflicts hids hx hlist

namespace Engine

/-- Nobody of the namespace has the email or the number, so both pass. -/
theorem findConflicts_nil_iff_unheld_threePeople :
    let records : List Record := [.ofColumns [("email", .string "c@x"), ("id", .number (.ofNat 4))]]
    ∃ w', (findConflicts Memory.store ⟨none, citizens, 10⟩ records).exec (.start threePeople) =
        (.ok [], w') ∧
      ¬ threePeople.HoldsValue citizens "email" (.string "c@x") ∧
      ¬ threePeople.HoldsValue citizens "id" (.number (.ofNat 4)) := by
  intro records
  generalize hrun : (findConflicts Memory.store ⟨none, citizens, 10⟩ records).exec
    (.start threePeople) = out
  have hok : out.1 = .ok [] := by
    rw [← hrun]
    decide +kernel
  obtain ⟨result, w'⟩ := out
  cases hok
  obtain ⟨hiff, _⟩ := findConflicts_nil_iff_unheld ⟨none, citizens, 10⟩ records []
    (.start threePeople) w' rfl rfl hrun
  have hunheld := hiff.1 rfl
  exact ⟨w', rfl, hunheld ⟨"email", "email"⟩ (by decide) _ List.mem_cons_self _ rfl,
    hunheld ⟨"number", "id"⟩ (by decide) _ List.mem_cons_self _ rfl⟩

/-- Two people whose emails are lists, and one of an organisation. -/
def listedPeople : Memory :=
  (Memory.insertAll [person 1 (.array [.string "a@x"]),
    person 2 (.array [.string "b@x", .string "c@x"]),
    ⟨⟨none, [⟨"Org", some (.number 1)⟩, ⟨"Person", some (.number 7)⟩]⟩, .empty⟩] (.empty none 10)).2

/-- A list passes that a person holds, and so does the number of a person of an organisation. A
person who has a proposed email among others is reported to hold all of them. -/
theorem findConflicts_not_by_equality :
    let check (column : String) (v : Value) : Except CheckError (List Conflict) :=
      ((findConflicts Memory.store ⟨none, citizens, 10⟩ [.ofColumns [(column, v)]]).exec
        (.start listedPeople)).1
    let holds (column : String) (v : Value) : Prop :=
      ∃ e ∈ listedPeople.ofKind "Person", (Probe.held citizens e column).same v = true
    (check "email" (.array [.string "a@x"]) = .ok [] ∧ holds "email" (.array [.string "a@x"])) ∧
    (check "id" (.number (.ofNat 7)) = .ok [] ∧ holds "id" (.number (.ofNat 7))) ∧
    check "email" (.string "b@x") = .ok [⟨⟨"email", "email"⟩, .array [.string "b@x", .string "c@x"],
      person 2 (.array [.string "b@x", .string "c@x"])⟩] ∧
    (Value.array [.string "b@x", .string "c@x"]).same (.string "b@x") = false := by
  intro check holds
  refine ⟨⟨by decide +kernel, ?_⟩, ⟨by decide +kernel, ?_⟩, by decide +kernel, by decide⟩
  · exact ⟨person 1 (.array [.string "a@x"]), by decide +kernel, by decide +kernel⟩
  · exact ⟨⟨⟨none, [⟨"Org", some (.number 1)⟩, ⟨"Person", some (.number 7)⟩]⟩, .empty⟩,
      by decide +kernel, by decide +kernel⟩

end Engine

end Quarry
