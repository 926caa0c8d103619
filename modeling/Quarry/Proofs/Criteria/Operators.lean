import Quarry.Proofs.Criteria.Faults
import Quarry.Proofs.Criteria.Reading

/-!
# The operators of where values

Nothing is wrong with a clause that was read from a where value but the operators that no store
query can express. So the value tells at once whether its clause has groups, and what is reported if
it has none.
-/

namespace Quarry

open Json

namespace Where

/-- The known operators that no store query can express. -/
def inexpressible : List String := ["nin", "like", "contains", "startsWith", "endsWith"]

/-- The operators under a field, with the field. -/
def fieldOperators (field : String) : Value → List (String × String)
  | .object operators => operators.map fun o => (field, o.1)
  | _ => []

mutual

/-- The operators in a where value, each with its field, in the order of the document. -/
def operators : Value → List (String × String)
  | .object members => memberOperators members
  | _ => []

def memberOperators : List (String × Value) → List (String × String)
  | [] => []
  | (name, value) :: rest => operatorsUnder name value ++ memberOperators rest

def operatorsUnder (name : String) (value : Value) : List (String × String) :=
  if name = "and" ∨ name = "or" then
    match value with
    | .array branches => branchOperators branches
    | _ => []
  else fieldOperators name value

def branchOperators : List Value → List (String × String)
  | [] => []
  | branch :: rest => operators branch ++ branchOperators rest

end

/-- What is reported of operators: those that cannot be expressed. -/
def unsupported (os : List (String × String)) : List CriteriaError :=
  (os.filter fun o => o.2 ∈ inexpressible).map fun o => .unsupported o.1 o.2

theorem unsupported_append (os ps : List (String × String)) :
    unsupported (os ++ ps) = unsupported os ++ unsupported ps := by
  rw [unsupported, List.filter_append, List.map_append]
  rfl

end Where

/-! ## The faults of what was read -/

namespace Clause

open Where

theorem faults_conjunction (cs : List Clause) : (conjunction cs).faults = faultsOfEach cs := by
  match cs with
  | [] => rfl
  | [c] => exact (List.append_nil c.faults).symm
  | c :: d :: rest =>
      rw [conjunction, faults]
      simp

theorem ne_nil_of_readList {field operator : String} {operand : Value} {values : List Value}
    (h : readList field operator operand = .ok values) : values ≠ [] := by
  unfold readList at h
  split at h
  · cases h
  · rename_i items hne
    cases h
    exact hne
  · cases h

/-- Only what cannot be expressed is wrong with a test that was read. -/
theorem faults_of_readOperator {field operator : String} {operand : Value} {t : Test}
    (h : readOperator field operator operand = .ok t) :
    t.faults field = unsupported [(field, operator)] := by
  unfold readOperator at h
  split at h
  case h_14 =>
    obtain ⟨values, hvalues, rfl⟩ := map_eq_ok.1 h
    exact Test.faults_oneOf (ne_nil_of_readList hvalues) field
  case h_15 =>
    obtain ⟨values, _, rfl⟩ := map_eq_ok.1 h
    rfl
  case h_20 => cases h
  all_goals
    cases h
    rfl

theorem faults_of_readOperators {field : String} {operators : List (String × Value)}
    {tests : List Test}
    (h : List.Forall₂ (fun o t => readOperator field o.1 o.2 = .ok t) operators tests) :
    faultsOfEach (tests.map (test field)) =
      unsupported (operators.map fun o => (field, o.1)) := by
  induction h with
  | nil => rfl
  | @cons o t operators tests ho _ ih =>
      rw [List.map_cons, faultsOfEach, faults, ih, faults_of_readOperator ho, ← unsupported_append]
      rfl

theorem faults_of_readField {field : String} {value : Value} {c : Clause}
    (h : readField field value = .ok c) : c.faults = unsupported (fieldOperators field value) := by
  unfold readField at h
  split at h
  · obtain ⟨values, hvalues, rfl⟩ := map_eq_ok.1 h
    exact Test.faults_oneOf (ne_nil_of_readList hvalues) field
  · cases h
  · obtain ⟨tests, htests, h⟩ := bind_eq_ok.1 h
    cases h
    rw [faults_conjunction, faults_of_readOperators (mapM_eq_ok.1 htests)]
    rfl
  · cases h
    rw [fieldOperators]
    · rfl
    · assumption

theorem ne_nil_of_readMember_or {branches : List Value} {c : Clause}
    (h : readMember "or" (.array branches) = .ok c) : branches ≠ [] := by
  rintro rfl
  cases h

theorem ne_nil_of_readBranches {branches : List Value} {cs : List Clause}
    (h : readBranches branches = .ok cs) (hne : branches ≠ []) : cs ≠ [] := by
  cases branches with
  | nil => exact absurd rfl hne
  | cons branch rest =>
      rw [readBranches] at h
      obtain ⟨first, _, h⟩ := bind_eq_ok.1 h
      obtain ⟨more, _, h⟩ := bind_eq_ok.1 h
      cases h
      exact List.cons_ne_nil first more

theorem faults_of_readMember_of_not_array {name : String} {value : Value} {c : Clause}
    (hv : value.isArray = false) (h : readMember name value = .ok c) :
    c.faults = unsupported (operatorsUnder name value) := by
  rw [readMember_eq_of_not_array hv] at h
  split at h
  · cases h
  · split at h
    · cases h
    · rename_i hand hor
      rw [operatorsUnder, if_neg (not_or.2 ⟨hand, hor⟩)]
      · exact faults_of_readField h
      · rintro branches rfl
        cases hv

mutual

/-- Only operators that cannot be expressed are wrong with a clause that was read. -/
theorem faults_of_read : ∀ (w : Value) {c : Clause}, read w = .ok c →
    c.faults = unsupported (operators w)
  | .null, c, h => by
      cases h
      rfl
  | .object members, c, h => by
      rw [read] at h
      obtain ⟨cs, hcs, rfl⟩ := map_eq_ok.1 h
      rw [faults_conjunction, operators]
      exact faults_of_readMembers members hcs
  | .bool _, c, h => by cases h
  | .number _, c, h => by cases h
  | .string _, c, h => by cases h
  | .array _, c, h => by cases h

theorem faults_of_readMembers : ∀ (members : List (String × Value)) {cs : List Clause},
    readMembers members = .ok cs → faultsOfEach cs = unsupported (memberOperators members)
  | [], cs, h => by
      cases h
      rfl
  | (name, value) :: rest, cs, h => by
      rw [readMembers] at h
      obtain ⟨first, hfirst, h⟩ := bind_eq_ok.1 h
      obtain ⟨more, hmore, h⟩ := bind_eq_ok.1 h
      cases h
      rw [faultsOfEach, memberOperators, unsupported_append, faults_of_readMember name value hfirst,
        faults_of_readMembers rest hmore]

theorem faults_of_readMember : ∀ (name : String) (value : Value) {c : Clause},
    readMember name value = .ok c → c.faults = unsupported (operatorsUnder name value)
  | name, .array branches, c, h => by
      rw [operatorsUnder]
      rcases readMember_array h with ⟨rfl, cs, hcs, rfl⟩ | ⟨rfl, cs, hcs, rfl⟩ | ⟨hand, hor, hf⟩
      · rw [if_pos (.inl rfl), faults]
        exact faults_of_readBranches branches hcs
      · have hbranches := faults_of_readBranches branches hcs
        rw [if_pos (.inr rfl), ← hbranches]
        exact faults_any (ne_nil_of_readBranches hcs (ne_nil_of_readMember_or h))
      · rw [if_neg (not_or.2 ⟨hand, hor⟩)]
        exact faults_of_readField hf
  | _, .null, _, h => faults_of_readMember_of_not_array rfl h
  | _, .bool _, _, h => faults_of_readMember_of_not_array rfl h
  | _, .number _, _, h => faults_of_readMember_of_not_array rfl h
  | _, .string _, _, h => faults_of_readMember_of_not_array rfl h
  | _, .object _, _, h => faults_of_readMember_of_not_array rfl h

theorem faults_of_readBranches : ∀ (branches : List Value) {cs : List Clause},
    readBranches branches = .ok cs → faultsOfEach cs = unsupported (branchOperators branches)
  | [], cs, h => by
      cases h
      rfl
  | branch :: rest, cs, h => by
      rw [readBranches] at h
      obtain ⟨first, hfirst, h⟩ := bind_eq_ok.1 h
      obtain ⟨more, hmore, h⟩ := bind_eq_ok.1 h
      cases h
      rw [faultsOfEach, branchOperators, unsupported_append, faults_of_read branch hfirst,
        faults_of_readBranches rest hmore]

end

/-- **Groups of what was read.** The first operator that cannot be expressed is reported. -/
theorem reports_groups_of_read {w : Value} {c : Clause} (h : read w = .ok c) :
    Reports c.groups (unsupported (operators w)) := by
  rw [← faults_of_read w h]
  exact c.reports_groups

end Clause

end Quarry
