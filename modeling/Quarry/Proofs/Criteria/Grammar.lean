import Quarry.Proofs.Criteria.Operators

/-!
# The grammar of where values

The grammar says which JSON values are where values, and the violations of it are listed in the
order of the document. A value is read exactly if it follows the grammar, and otherwise the first
violation is reported.
-/

namespace Quarry

open Json

namespace Where

/-! ## The grammar -/

/-- The operators that take any operand, under all their names. -/
def freeOperators : List String :=
  ["=", "eq", "!=", "ne", "not", "<", "lt", "<=", "lte", ">", "gt", ">=", "gte",
    "like", "contains", "startsWith", "endsWith"]

/-- The operators that take a list of values. -/
def listOperators : List String := ["in", "nin"]

/-- A known operator and an operand that it takes. -/
inductive AcceptsOperator : String → Value → Prop
  | free {operator : String} {operand : Value} (h : operator ∈ freeOperators) :
      AcceptsOperator operator operand
  | list {operator : String} {values : List Value} (h : operator ∈ listOperators)
      (hne : values ≠ []) : AcceptsOperator operator (.array values)

/-- What a field may stand with: a list of values, operators, or a scalar. -/
def AcceptsField : Value → Prop
  | .array values => values ≠ []
  | .object operators => operators ≠ [] ∧ ∀ o ∈ operators, AcceptsOperator o.1 o.2
  | _ => True

mutual

/-- The value follows the grammar. -/
inductive Accepts : Value → Prop
  | null : Accepts .null
  | object {members : List (String × Value)} (h : ∀ m ∈ members, AcceptsMember m.1 m.2) :
      Accepts (.object members)

inductive AcceptsMember : String → Value → Prop
  | and {branches : List Value} (h : ∀ b ∈ branches, Accepts b) :
      AcceptsMember "and" (.array branches)
  | or {branches : List Value} (hne : branches ≠ []) (h : ∀ b ∈ branches, Accepts b) :
      AcceptsMember "or" (.array branches)
  | field {name : String} {value : Value} (hand : name ≠ "and") (hor : name ≠ "or")
      (h : AcceptsField value) : AcceptsMember name value

end

/-! ## Violations -/

/-- A way not to follow the grammar. -/
inductive Violation where
  | notAnObject
  | notBranches (combinator : Combinator)
  | noBranches
  | noOperators (field : String)
  | notAList (field operator : String)
  | noValues (field operator : String)
  | unknownOperator (field operator : String)

/-- How a violation is reported. -/
def Violation.error : Violation → CriteriaError
  | notAnObject => .malformed .whereNotAnObject
  | notBranches combinator => .malformed (.branchesNotAnArray combinator)
  | noBranches => .malformed .noBranches
  | noOperators field => .badField field .noOperators
  | notAList field operator => .badField field (.listExpected operator)
  | noValues field operator => .badField field (.noValues operator)
  | unknownOperator field operator => .unsupported field operator

/-- Only unknown operators have a code of their own. -/
theorem Violation.code_error_iff (v : Violation) :
    v.error.code = "E_UNSUPPORTED_OPERATOR" ↔
      ∃ field operator, v = .unknownOperator field operator := by
  cases v <;> simp [error, CriteriaError.code]

/-- What is wrong with a list of values. -/
def listViolations (field operator : String) : Value → List Violation
  | .array [] => [.noValues field operator]
  | .array _ => []
  | _ => [.notAList field operator]

def operatorViolations (field operator : String) (operand : Value) : List Violation :=
  if operator ∈ freeOperators then []
  else if operator ∈ listOperators then listViolations field operator operand
  else [.unknownOperator field operator]

def fieldViolations (field : String) : Value → List Violation
  | .array values => listViolations field "in" (.array values)
  | .object [] => [.noOperators field]
  | .object operators => operators.flatMap fun o => operatorViolations field o.1 o.2
  | _ => []

mutual

/-- The violations in a where value, in the order of the document. -/
def violations : Value → List Violation
  | .null => []
  | .object members => memberViolations members
  | _ => [.notAnObject]

def memberViolations : List (String × Value) → List Violation
  | [] => []
  | (name, value) :: rest => violationsUnder name value ++ memberViolations rest

def violationsUnder (name : String) (value : Value) : List Violation :=
  if name = "and" then
    match value with
    | .array branches => branchViolations branches
    | _ => [.notBranches .and]
  else if name = "or" then
    match value with
    | .array [] => [.noBranches]
    | .array branches => branchViolations branches
    | _ => [.notBranches .or]
  else fieldViolations name value

def branchViolations : List Value → List Violation
  | [] => []
  | branch :: rest => violations branch ++ branchViolations rest

end

theorem violationsUnder_array_eq (name : String) (branches : List Value) :
    violationsUnder name (.array branches) =
      if name = "and" then branchViolations branches
      else if name = "or" then
        match branches with
        | [] => [.noBranches]
        | branches => branchViolations branches
      else fieldViolations name (.array branches) := by
  cases branches <;> rfl

theorem violationsUnder_of_not_array {name : String} {value : Value} (hv : value.isArray = false) :
    violationsUnder name value =
      if name = "and" then [.notBranches .and]
      else if name = "or" then [.notBranches .or]
      else fieldViolations name value := by
  cases value
  case array => cases hv
  all_goals rfl

/-! ### Without violations -/

theorem listViolations_eq_nil_iff {field operator : String} {operand : Value} :
    listViolations field operator operand = [] ↔
      ∃ values, operand = .array values ∧ values ≠ [] := by
  unfold listViolations
  split <;> simp_all

theorem operatorViolations_eq_nil_iff {field operator : String} {operand : Value} :
    operatorViolations field operator operand = [] ↔ AcceptsOperator operator operand := by
  unfold operatorViolations
  constructor
  · intro h
    split at h
    · exact .free ‹_›
    · split at h
      · obtain ⟨values, rfl, hne⟩ := listViolations_eq_nil_iff.1 h
        exact .list ‹_› hne
      · cases h
  · rintro (hfree | ⟨hlist, hne⟩)
    · rw [if_pos hfree]
    · by_cases hfree : operator ∈ freeOperators
      · rw [if_pos hfree]
      · rw [if_neg hfree, if_pos hlist]
        exact listViolations_eq_nil_iff.2 ⟨_, rfl, hne⟩

theorem fieldViolations_eq_nil_iff {field : String} {value : Value} :
    fieldViolations field value = [] ↔ AcceptsField value := by
  cases value with
  | array values =>
      rw [fieldViolations, listViolations_eq_nil_iff]
      simp [AcceptsField]
  | object operators =>
      cases operators with
      | nil => simp [fieldViolations, AcceptsField]
      | cons o rest =>
          rw [fieldViolations, List.flatMap_eq_nil_iff, AcceptsField]
          · simp only [operatorViolations_eq_nil_iff]
            simp
          · simp
  | _ => simp [fieldViolations, AcceptsField]

/-- A member with no branches under it follows the grammar if it names a field. -/
theorem acceptsMember_of_not_array {name : String} {value : Value} (hv : value.isArray = false) :
    violationsUnder name value = [] ↔ AcceptsMember name value := by
  rw [violationsUnder_of_not_array hv]
  constructor
  · intro h
    split at h
    · cases h
    · split at h
      · cases h
      · exact .field ‹_› ‹_› (fieldViolations_eq_nil_iff.1 h)
  · rintro (_ | _ | ⟨hand, hor, hfield⟩)
    · cases hv
    · cases hv
    · rw [if_neg hand, if_neg hor]
      exact fieldViolations_eq_nil_iff.2 hfield

mutual

/-- **The grammar is followed where it is not violated.** -/
theorem violations_eq_nil_iff : ∀ w : Value, violations w = [] ↔ Accepts w
  | .null => ⟨fun _ => .null, fun _ => rfl⟩
  | .object members => by
      rw [violations, memberViolations_eq_nil_iff members]
      constructor
      · exact .object
      · intro h
        cases h with
        | object h => exact h
  | .bool _ | .number _ | .string _ | .array _ => by
      constructor
      · rintro ⟨⟩
      · rintro ⟨⟩

theorem memberViolations_eq_nil_iff : ∀ members : List (String × Value),
    memberViolations members = [] ↔ ∀ m ∈ members, AcceptsMember m.1 m.2
  | [] => by simp [memberViolations]
  | (name, value) :: rest => by
      rw [memberViolations, List.append_eq_nil_iff, violationsUnder_eq_nil_iff name value,
        memberViolations_eq_nil_iff rest, List.forall_mem_cons]

theorem violationsUnder_eq_nil_iff : ∀ (name : String) (value : Value),
    violationsUnder name value = [] ↔ AcceptsMember name value
  | name, .array branches => by
      have hbranches := branchViolations_eq_nil_iff branches
      rw [violationsUnder_array_eq]
      constructor
      · intro h
        split at h
        · subst name
          exact .and (hbranches.1 h)
        · split at h
          · subst name
            cases branches with
            | nil => cases h
            | cons branch rest => exact .or (by simp) (hbranches.1 h)
          · exact .field ‹_› ‹_› (fieldViolations_eq_nil_iff.1 h)
      · rintro (h | ⟨hne, h⟩ | ⟨hand, hor, hfield⟩)
        · rw [if_pos rfl]
          exact hbranches.2 h
        · rw [if_neg (by decide), if_pos rfl]
          cases branches with
          | nil => exact absurd rfl hne
          | cons branch rest => exact hbranches.2 h
        · rw [if_neg hand, if_neg hor]
          exact fieldViolations_eq_nil_iff.2 hfield
  | _, .null => acceptsMember_of_not_array rfl
  | _, .bool _ => acceptsMember_of_not_array rfl
  | _, .number _ => acceptsMember_of_not_array rfl
  | _, .string _ => acceptsMember_of_not_array rfl
  | _, .object _ => acceptsMember_of_not_array rfl

theorem branchViolations_eq_nil_iff : ∀ branches : List Value,
    branchViolations branches = [] ↔ ∀ b ∈ branches, Accepts b
  | [] => by simp [branchViolations]
  | branch :: rest => by
      rw [branchViolations, List.append_eq_nil_iff, violations_eq_nil_iff branch,
        branchViolations_eq_nil_iff rest, List.forall_mem_cons]

end

end Where

/-! ## Reading -/

namespace Clause

open Where

theorem reports_readList {field operator : String} (operand : Value) :
    Reports (readList field operator operand)
      ((listViolations field operator operand).map Violation.error) := by
  cases operand with
  | array values => cases values <;> rfl
  | _ => rfl

theorem reports_readOperator (field operator : String) (operand : Value) :
    Reports (readOperator field operator operand)
      ((operatorViolations field operator operand).map Violation.error) := by
  unfold readOperator
  split
  -- the two operators that take a list
  case h_14 | h_15 => exact (reports_readList operand).map _
  -- no known operator
  case h_20 =>
    have hfree : operator ∉ freeOperators := by simp_all [freeOperators]
    have hlist : operator ∉ listOperators := by simp_all [listOperators]
    rw [operatorViolations, if_neg hfree, if_neg hlist]
    rfl
  all_goals rfl

theorem reports_readField (field : String) (value : Value) :
    Reports (readField field value) ((fieldViolations field value).map Violation.error) := by
  unfold readField
  split
  · exact (reports_readList _).map _
  · rfl
  · rename_i operators hne
    have hfield : fieldViolations field (.object operators) =
        operators.flatMap fun o => operatorViolations field o.1 o.2 := by
      rw [fieldViolations]
      exact hne
    rw [hfield, List.map_flatMap]
    exact (reports_mapM fun o _ => reports_readOperator field o.1 o.2).map _
  · rw [fieldViolations]
    · rfl
    all_goals assumption

/-- A member with no branches under it. -/
theorem reports_readMember_of_not_array {name : String} {value : Value}
    (hv : value.isArray = false) :
    Reports (readMember name value) ((violationsUnder name value).map Violation.error) := by
  rw [readMember_eq_of_not_array hv, violationsUnder_of_not_array hv]
  split
  · rfl
  · split
    · rfl
    · exact reports_readField name value

mutual

/-- **The first violation is reported.** -/
theorem reports_read : ∀ w : Value, Reports (read w) ((violations w).map Violation.error)
  | .null => rfl
  | .object members => by
      rw [read, violations]
      exact (reports_readMembers members).map conjunction
  | .bool _ | .number _ | .string _ | .array _ => rfl

theorem reports_readMembers : ∀ members : List (String × Value),
    Reports (readMembers members) ((memberViolations members).map Violation.error)
  | [] => rfl
  | (name, value) :: rest => by
      rw [readMembers, memberViolations, List.map_append]
      apply (reports_readMember name value).bind
      intro first _
      exact (reports_readMembers rest).map (first :: ·)

theorem reports_readMember : ∀ (name : String) (value : Value),
    Reports (readMember name value) ((violationsUnder name value).map Violation.error)
  | name, .array branches => by
      have hbranches := reports_readBranches branches
      rw [readMember_array_eq, violationsUnder_array_eq]
      split
      · exact hbranches.map all
      · split
        · cases branches with
          | nil => rfl
          | cons branch rest => exact hbranches.map any
        · exact reports_readField name _
  | _, .null => reports_readMember_of_not_array rfl
  | _, .bool _ => reports_readMember_of_not_array rfl
  | _, .number _ => reports_readMember_of_not_array rfl
  | _, .string _ => reports_readMember_of_not_array rfl
  | _, .object _ => reports_readMember_of_not_array rfl

theorem reports_readBranches : ∀ branches : List Value,
    Reports (readBranches branches) ((branchViolations branches).map Violation.error)
  | [] => rfl
  | branch :: rest => by
      rw [readBranches, branchViolations, List.map_append]
      apply (reports_read branch).bind
      intro first _
      exact (reports_readBranches rest).map (first :: ·)

end

/-! ## What is read -/

/-- **What is read and what is put to a store.** A JSON value is read as a clause exactly if it
follows the grammar of where values, and otherwise the error is that of the first violation in the
document, which has the code of operators exactly if it is an unknown operator. A clause that was
read has groups exactly if no operator stands in the value that cannot be expressed, and otherwise
the error names the first one in the document with its field. -/
theorem read_follows_grammar (w : Value) :
    ((∃ c, read w = .ok c) ↔ Accepts w) ∧
    (∀ e, read w = .error e ↔ ∃ v, (violations w).head? = some v ∧ e = v.error ∧
      (e.code = "E_UNSUPPORTED_OPERATOR" ↔
        ∃ field operator, v = .unknownOperator field operator)) ∧
    ∀ c, read w = .ok c →
      ((∃ gs, c.groups = .ok gs) ↔ ∀ o ∈ operators w, o.2 ∉ inexpressible) ∧
      ∀ e, c.groups = .error e ↔ ∃ field operator,
        (operators w).find? (fun o => o.2 ∈ inexpressible) = some (field, operator) ∧
          e = .unsupported field operator ∧ e.code ≠ "E_QUERY_INVALID" := by
  refine ⟨?_, ?_, ?_⟩
  · rw [(reports_read w).ok_iff, List.map_eq_nil_iff, violations_eq_nil_iff]
  · intro e
    rw [(reports_read w).error_iff, List.head?_map, Option.map_eq_some_iff]
    constructor
    · rintro ⟨v, hv, rfl⟩
      exact ⟨v, hv, rfl, v.code_error_iff⟩
    · rintro ⟨v, hv, rfl, _⟩
      exact ⟨v, hv, rfl⟩
  · intro c hc
    have hreports := reports_groups_of_read hc
    constructor
    · rw [hreports.ok_iff, unsupported, List.map_eq_nil_iff, List.filter_eq_nil_iff]
      simp only [decide_eq_true_eq]
    · intro e
      rw [hreports.error_iff, unsupported, List.head?_map, List.head?_filter,
        Option.map_eq_some_iff]
      constructor
      · rintro ⟨⟨field, operator⟩, hfind, rfl⟩
        exact ⟨field, operator, hfind, rfl,
          (by decide : "E_UNSUPPORTED_OPERATOR" ≠ "E_QUERY_INVALID")⟩
      · rintro ⟨field, operator, hfind, rfl, _⟩
        exact ⟨(field, operator), hfind, rfl⟩

/-- Two violations under one field, and an unknown operator behind them. -/
def brokenWhere : Value :=
  .object [
    ("or", .array [
      .object [("a", .object [("gt", .ofNat 1), ("in", .array []), ("nin", .ofNat 2)])],
      .object [("b", .object [("near", .ofNat 3)])]])]

/-- Patterns under two branches, which can be read. -/
def patternWhere : Value :=
  .object [
    ("a", .ofNat 1),
    ("or", .array [
      .object [("b", .object [("eq", .ofNat 2), ("like", .string "x")])],
      .object [("c", .object [("nin", .array [.ofNat 3])])]])]

theorem read_follows_grammar_broken :
    read brokenWhere = .error (.badField "a" (.noValues "in")) ∧ ¬ Accepts brokenWhere ∧
      Accepts patternWhere ∧
      ∀ c, read patternWhere = .ok c → c.groups = .error (.unsupported "b" "like") := by
  obtain ⟨haccepts, herror, _⟩ := read_follows_grammar brokenWhere
  obtain ⟨haccepts', _, hgroups⟩ := read_follows_grammar patternWhere
  have hbroken : read brokenWhere = .error (.badField "a" (.noValues "in")) :=
    (herror _).2 ⟨.noValues "a" "in", rfl, rfl, (Violation.noValues "a" "in").code_error_iff⟩
  refine ⟨hbroken, ?_, haccepts'.1 ⟨_, rfl⟩, ?_⟩
  · rw [← haccepts, hbroken]
    rintro ⟨c, ⟨⟩⟩
  · intro c hc
    exact ((hgroups c hc).2 _).2 ⟨"b", "like", by decide, rfl, by decide⟩

end Clause

end Quarry
