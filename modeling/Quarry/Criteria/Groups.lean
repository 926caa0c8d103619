import Quarry.Criteria.Clause

/-!
# Groups

A store query is a conjunction, so a clause is flattened into groups of predicates, of which an
entity has to satisfy one. A disjunction lists the groups of its branches. A conjunction joins every
choice of one group from each child, the choices of the first child varying slowest. A membership
test is one group for each value.
-/

namespace Quarry

open Json

/-- A comparison of a field with a value. -/
structure Predicate where
  field : String
  op : Comparison
  value : Value
  deriving DecidableEq

/-- A conjunction of predicates. The empty group matches everything. -/
abbrev Group := List Predicate

/-- Every way to join a group of the first list with one of the second. -/
def Group.product (left right : List Group) : List Group :=
  left.flatMap fun l => right.map fun r => l ++ r

namespace Test

/-- The groups of one test. -/
def groups (field : String) : Test → Except CriteriaError (List Group)
  | compare op v => .ok [[⟨field, op, v⟩]]
  | oneOf [] => .error (.badField field (.noValues "in"))
  | oneOf vs => .ok (vs.map fun v => [⟨field, .eq, v⟩])
  | t => .error (.unsupported field t.operator)

end Test

namespace Clause

mutual

/-- The groups of a clause. Never an empty list. -/
def groups : Clause → Except CriteriaError (List Group)
  | all children => groupsOfAll children
  | any [] => .error (.malformed .noBranches)
  | any (c :: cs) => groupsOfAny (c :: cs)
  | test field t => t.groups field

def groupsOfAll : List Clause → Except CriteriaError (List Group)
  | [] => .ok [[]]
  | c :: cs => do
    let left ← c.groups
    let right ← groupsOfAll cs
    return Group.product left right

def groupsOfAny : List Clause → Except CriteriaError (List Group)
  | [] => .ok []
  | c :: cs => do
    let first ← c.groups
    let more ← groupsOfAny cs
    return first ++ more

end

end Clause

end Quarry
