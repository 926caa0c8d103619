import Quarry.Criteria.Groups
import Quarry.Proofs.Except

/-!
# What keeps a clause from having groups

A disjunction of nothing, a membership test without values, and a test that no store query can
express have no groups. A clause has groups if there is none of these in it, and otherwise the first
one is reported, in the order in which the clause is written.
-/

namespace Quarry

/-- What is wrong with a test. -/
def Test.faults (field : String) : Test → List CriteriaError
  | compare _ _ => []
  | oneOf [] => [.badField field (.noValues "in")]
  | oneOf _ => []
  | t => [.unsupported field t.operator]

theorem Test.faults_oneOf {values : List Json.Value} (h : values ≠ []) (field : String) :
    (Test.oneOf values).faults field = [] := by
  cases values with
  | nil => exact absurd rfl h
  | cons v values => rfl

theorem Test.reports_groups (field : String) (t : Test) :
    Reports (t.groups field) (t.faults field) := by
  cases t with
  | oneOf values => cases values <;> rfl
  | _ => rfl

namespace Clause

mutual

/-- What is wrong with a clause, part by part. -/
def faults : Clause → List CriteriaError
  | all children => faultsOfEach children
  | any [] => [.malformed .noBranches]
  | any (c :: cs) => faultsOfEach (c :: cs)
  | test field t => t.faults field

def faultsOfEach : List Clause → List CriteriaError
  | [] => []
  | c :: cs => c.faults ++ faultsOfEach cs

end

mutual

/-- **The first fault is reported.** -/
theorem reports_groups : ∀ c : Clause, Reports c.groups c.faults
  | all children => by
      rw [groups, faults]
      exact reports_groupsOfAll children
  | any [] => rfl
  | any (c :: cs) => by
      rw [groups, faults]
      exact reports_groupsOfAny (c :: cs)
  | test field t => by
      rw [groups, faults]
      exact t.reports_groups field

theorem reports_groupsOfAll : ∀ cs : List Clause, Reports (groupsOfAll cs) (faultsOfEach cs)
  | [] => rfl
  | c :: cs => by
      rw [groupsOfAll, faultsOfEach]
      apply (reports_groups c).bind
      intro left _
      exact (reports_groupsOfAll cs).map (Group.product left)

theorem reports_groupsOfAny : ∀ cs : List Clause, Reports (groupsOfAny cs) (faultsOfEach cs)
  | [] => rfl
  | c :: cs => by
      rw [groupsOfAny, faultsOfEach]
      apply (reports_groups c).bind
      intro first _
      exact (reports_groupsOfAny cs).map (first ++ ·)

end

theorem faults_any {cs : List Clause} (h : cs ≠ []) : (any cs).faults = faultsOfEach cs := by
  cases cs with
  | nil => exact absurd rfl h
  | cons c cs => rw [faults]

end Clause

end Quarry
