import Quarry.Criteria.Reader
import Quarry.Proofs.Criteria.Meaning

/-!
# The direct reading of a where value

A where value can be read without building a clause: null is true, an object is the conjunction of
its members, and a member says at once what it asks for. Under every valuation the clause of a where
value, and so its groups, agree with this reading.
-/

namespace Quarry

open Json

/-! ## The reading -/

namespace Comparison

/-- The names of a comparison in where values. -/
def names : Comparison → List String
  | eq => ["=", "eq"]
  | ne => ["!=", "ne", "not"]
  | lt => ["<", "lt"]
  | le => ["<=", "lte"]
  | gt => [">", "gt"]
  | ge => [">=", "gte"]

theorem exists_iff {P : Comparison → Prop} :
    (∃ op, P op) ↔ P .eq ∨ P .ne ∨ P .lt ∨ P .le ∨ P .gt ∨ P .ge := by
  constructor
  · rintro ⟨op, h⟩
    cases op <;> simp [h]
  · rintro (h | h | h | h | h | h) <;> exact ⟨_, h⟩

end Comparison

namespace Where

/-- The field is equal to one of the values. -/
def OneOf (v : Valuation) (field : String) (values : List Value) : Prop :=
  ∃ value ∈ values, v ⟨field, .eq, value⟩

/-- One operator, under any of its names. -/
def OperatorHolds (v : Valuation) (field operator : String) (operand : Value) : Prop :=
  (∃ op : Comparison, operator ∈ op.names ∧ v ⟨field, op, operand⟩) ∨
    operator = "in" ∧ ∃ values, operand = .array values ∧ OneOf v field values

/-- A member that names a field. -/
def FieldHolds (v : Valuation) (field : String) : Value → Prop
  | .array values => OneOf v field values
  | .object operators => ∀ o ∈ operators, OperatorHolds v field o.1 o.2
  | scalar => v ⟨field, .eq, scalar⟩

mutual

/-- The where value is true. -/
def Holds (v : Valuation) : Value → Prop
  | .null => True
  | .object members => MembersHold v members
  | _ => False

def MembersHold (v : Valuation) : List (String × Value) → Prop
  | [] => True
  | (name, value) :: rest => MemberHolds v name value ∧ MembersHold v rest

def MemberHolds (v : Valuation) (name : String) (value : Value) : Prop :=
  if name = "and" then
    match value with
    | .array branches => AllHold v branches
    | _ => False
  else if name = "or" then
    match value with
    | .array branches => AnyHolds v branches
    | _ => False
  else FieldHolds v name value

def AllHold (v : Valuation) : List Value → Prop
  | [] => True
  | branch :: rest => Holds v branch ∧ AllHold v rest

def AnyHolds (v : Valuation) : List Value → Prop
  | [] => False
  | branch :: rest => Holds v branch ∨ AnyHolds v rest

end

end Where

/-! ## Clauses agree with the reading -/

/-- The value is an array. -/
def Json.Value.isArray : Value → Bool
  | .array _ => true
  | _ => false

namespace Clause

variable {v : Valuation}

/-- Unwrapping a conjunction of one does not change its meaning. -/
theorem holds_conjunction {cs : List Clause} : (conjunction cs).Holds v ↔ AllHold v cs := by
  match cs with
  | [] => rw [conjunction, Holds]; simp
  | [c] => simp [conjunction, AllHold]
  | c :: d :: rest => rw [conjunction, Holds]; simp

theorem readList_eq_ok {field operator : String} {operand : Value} {values : List Value}
    (h : readList field operator operand = .ok values) : operand = .array values := by
  unfold readList at h
  split at h
  · cases h
  · cases h
    rfl
  · cases h

/-- A test that was read asks what its operator says. -/
theorem holds_of_readOperator {field operator : String} {operand : Value} {t : Test}
    (h : readOperator field operator operand = .ok t) :
    t.Holds v field ↔ Where.OperatorHolds v field operator operand := by
  unfold readOperator at h
  -- With the six comparisons written out, each name decides which of them are left.
  rw [Where.OperatorHolds, Comparison.exists_iff]
  split at h
  -- the two operators that take a list
  case h_14 | h_15 =>
    obtain ⟨values, hr, rfl⟩ := map_eq_ok.mp h
    cases readList_eq_ok hr
    simp [Comparison.names, Test.Holds, Where.OneOf]
  -- no known operator
  case h_20 => cases h
  all_goals
    cases h
    simp [Comparison.names, Test.Holds]

theorem allHold_of_readOperators {field : String} {operators : List (String × Value)}
    {tests : List Test}
    (h : List.Forall₂ (fun o t => readOperator field o.1 o.2 = .ok t) operators tests) :
    AllHold v (tests.map (test field)) ↔
      ∀ o ∈ operators, Where.OperatorHolds v field o.1 o.2 := by
  induction h with
  | nil => simp [AllHold]
  | cons ho _ ih =>
      rw [List.map_cons, AllHold, Holds, ih, List.forall_mem_cons, holds_of_readOperator ho]

/-- The clause of a member that names a field asks what the member says. -/
theorem holds_of_readField {field : String} {value : Value} {c : Clause}
    (h : readField field value = .ok c) : c.Holds v ↔ Where.FieldHolds v field value := by
  unfold readField at h
  split at h
  · obtain ⟨values, hr, rfl⟩ := map_eq_ok.mp h
    cases readList_eq_ok hr
    rw [Holds, Test.Holds, Where.FieldHolds, Where.OneOf]
  · cases h
  · obtain ⟨tests, ht, h⟩ := bind_eq_ok.mp h
    cases h
    rw [holds_conjunction, allHold_of_readOperators (mapM_eq_ok.mp ht), Where.FieldHolds]
  · cases h
    rw [equals, Holds, Test.Holds, Where.FieldHolds]
    all_goals assumption

theorem readMember_array_eq (name : String) (items : List Value) :
    readMember name (.array items) =
      if name = "and" then (readBranches items).map all
      else if name = "or" then
        match items with
        | [] => .error (.malformed .noBranches)
        | items => (readBranches items).map any
      else readField name (.array items) := by
  cases items <;> rfl

theorem readMember_eq_of_not_array {name : String} {value : Value} (hv : value.isArray = false) :
    readMember name value =
      if name = "and" then .error (.malformed (.branchesNotAnArray .and))
      else if name = "or" then .error (.malformed (.branchesNotAnArray .or))
      else readField name value := by
  cases value
  case array => cases hv
  all_goals rfl

/-- What a member with an array can be: branches under a combinator, or values for a field. -/
theorem readMember_array {name : String} {items : List Value} {c : Clause}
    (h : readMember name (.array items) = .ok c) :
    (name = "and" ∧ ∃ cs, readBranches items = .ok cs ∧ c = all cs) ∨
      (name = "or" ∧ ∃ cs, readBranches items = .ok cs ∧ c = any cs) ∨
      (name ≠ "and" ∧ name ≠ "or" ∧ readField name (.array items) = .ok c) := by
  rw [readMember_array_eq] at h
  by_cases hand : name = "and"
  · rw [if_pos hand] at h
    obtain ⟨cs, hcs, rfl⟩ := map_eq_ok.mp h
    exact Or.inl ⟨hand, cs, hcs, rfl⟩
  · rw [if_neg hand] at h
    by_cases hor : name = "or"
    · rw [if_pos hor] at h
      cases items with
      | nil => cases h
      | cons item rest =>
          obtain ⟨cs, hcs, rfl⟩ := map_eq_ok.mp h
          exact Or.inr (Or.inl ⟨hor, cs, hcs, rfl⟩)
    · rw [if_neg hor] at h
      exact Or.inr (Or.inr ⟨hand, hor, h⟩)

/-- A member without an array names a field. -/
theorem holds_of_readMember_scalar {name : String} {value : Value} {c : Clause}
    (hv : value.isArray = false) (h : readMember name value = .ok c) :
    c.Holds v ↔ Where.MemberHolds v name value := by
  rw [readMember_eq_of_not_array hv] at h
  by_cases hand : name = "and"
  · rw [if_pos hand] at h
    cases h
  · rw [if_neg hand] at h
    by_cases hor : name = "or"
    · rw [if_pos hor] at h
      cases h
    · rw [if_neg hor] at h
      rw [Where.MemberHolds, if_neg hand, if_neg hor]
      · exact holds_of_readField h
      · rintro branches rfl
        cases hv

mutual

/-- **Reading keeps the meaning.** The clause of a where value is true exactly when its direct
reading is. -/
theorem holds_of_read : ∀ (w : Value) {c : Clause}, read w = .ok c → (c.Holds v ↔ Where.Holds v w)
  | .null, c, h => by
      rw [read] at h
      cases h
      rw [everything, Holds, AllHold, Where.Holds]
  | .object members, c, h => by
      rw [read] at h
      obtain ⟨cs, hcs, rfl⟩ := map_eq_ok.mp h
      rw [holds_conjunction, Where.Holds]
      exact allHold_of_readMembers members hcs
  | .bool _, c, h => by cases h
  | .number _, c, h => by cases h
  | .string _, c, h => by cases h
  | .array _, c, h => by cases h

theorem allHold_of_readMembers : ∀ (members : List (String × Value)) {cs : List Clause},
    readMembers members = .ok cs → (AllHold v cs ↔ Where.MembersHold v members)
  | [], cs, h => by
      rw [readMembers] at h
      cases h
      rw [AllHold, Where.MembersHold]
  | (name, value) :: rest, cs, h => by
      rw [readMembers] at h
      obtain ⟨first, hf, h⟩ := bind_eq_ok.mp h
      obtain ⟨more, hm, h⟩ := bind_eq_ok.mp h
      cases h
      rw [AllHold, Where.MembersHold, holds_of_readMember name value hf,
        allHold_of_readMembers rest hm]

theorem holds_of_readMember : ∀ (name : String) (value : Value) {c : Clause},
    readMember name value = .ok c → (c.Holds v ↔ Where.MemberHolds v name value)
  | name, .array branches, c, h => by
      -- Only an array can hold branches, so that the recursion is in this case alone.
      rw [Where.MemberHolds]
      rcases readMember_array h with ⟨rfl, cs, hcs, rfl⟩ | ⟨rfl, cs, hcs, rfl⟩ | ⟨hand, hor, hf⟩
      · rw [if_pos rfl, Holds]
        exact allHold_of_readBranches branches hcs
      · rw [if_neg (by decide), if_pos rfl, Holds]
        exact anyHolds_of_readBranches branches hcs
      · rw [if_neg hand, if_neg hor]
        exact holds_of_readField hf
  | name, .null, c, h => holds_of_readMember_scalar rfl h
  | name, .bool _, c, h => holds_of_readMember_scalar rfl h
  | name, .number _, c, h => holds_of_readMember_scalar rfl h
  | name, .string _, c, h => holds_of_readMember_scalar rfl h
  | name, .object _, c, h => holds_of_readMember_scalar rfl h

theorem allHold_of_readBranches : ∀ (branches : List Value) {cs : List Clause},
    readBranches branches = .ok cs → (AllHold v cs ↔ Where.AllHold v branches)
  | [], cs, h => by
      rw [readBranches] at h
      cases h
      rw [AllHold, Where.AllHold]
  | branch :: rest, cs, h => by
      rw [readBranches] at h
      obtain ⟨first, hf, h⟩ := bind_eq_ok.mp h
      obtain ⟨more, hm, h⟩ := bind_eq_ok.mp h
      cases h
      rw [AllHold, Where.AllHold, holds_of_read branch hf, allHold_of_readBranches rest hm]

theorem anyHolds_of_readBranches : ∀ (branches : List Value) {cs : List Clause},
    readBranches branches = .ok cs → (AnyHolds v cs ↔ Where.AnyHolds v branches)
  | [], cs, h => by
      rw [readBranches] at h
      cases h
      rw [AnyHolds, Where.AnyHolds]
  | branch :: rest, cs, h => by
      rw [readBranches] at h
      obtain ⟨first, hf, h⟩ := bind_eq_ok.mp h
      obtain ⟨more, hm, h⟩ := bind_eq_ok.mp h
      cases h
      rw [AnyHolds, Where.AnyHolds, holds_of_read branch hf, anyHolds_of_readBranches rest hm]

end

/-- **Normalization keeps the meaning.** Some group of a where value has all its predicates true
exactly when the value is true as it is read. -/
theorem someHolds_groups_of_read (v : Valuation) {w : Value} {c : Clause} {gs : List Group}
    (hread : read w = .ok c) (hgroups : c.groups = .ok gs) :
    (∃ g ∈ gs, ∀ p ∈ g, v p) ↔ Where.Holds v w := by
  have hnormal : Group.SomeHolds v gs ↔ c.Holds v := someHolds_groups c hgroups
  have hreading : c.Holds v ↔ Where.Holds v w := holds_of_read w hread
  exact hnormal.trans hreading

/-- A disjunction whose second branch has two operators, beside a list of values. -/
def nestedWhere : Value :=
  .object [
    ("or", .array [
      .object [("a", .ofNat 1)],
      .object [("b", .object [("gte", .ofNat 2), ("in", .array [.ofNat 3, .ofNat 4])])]]),
    ("c", .array [.string "x", .string "y"])]

theorem someHolds_groups_nestedWhere : ∃ c gs, read nestedWhere = .ok c ∧ c.groups = .ok gs ∧
    gs.length = 6 ∧
    ((∃ g ∈ gs, ∀ p ∈ g, p.field ≠ "b") ↔ Where.Holds (fun p => p.field ≠ "b") nestedWhere) := by
  refine ⟨_, _, rfl, rfl, rfl, ?_⟩
  exact someHolds_groups_of_read (fun p => p.field ≠ "b") (w := nestedWhere) rfl rfl

end Clause

end Quarry
