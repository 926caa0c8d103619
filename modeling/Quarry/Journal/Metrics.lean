import Quarry.Json.Value

/-!
# Counters

What the engine has done so far, in numbers of 64 bits that start over when they overflow.
-/

namespace Quarry

open Json

inductive Counter where
  | queriesIssued
  | entitiesReturned
  | placeholdersFiltered
  | uniqueChecks
  | uniqueViolations
  | dropPages
  | entitiesDeleted
  | storeFailures
  deriving DecidableEq

namespace Counter

def name : Counter → String
  | queriesIssued => "queries_issued"
  | entitiesReturned => "entities_returned"
  | placeholdersFiltered => "placeholders_filtered"
  | uniqueChecks => "unique_checks"
  | uniqueViolations => "unique_violations"
  | dropPages => "drop_pages"
  | entitiesDeleted => "entities_deleted"
  | storeFailures => "store_failures"

/-- Every counter. -/
def all : List Counter := [queriesIssued, entitiesReturned, placeholdersFiltered, uniqueChecks,
  uniqueViolations, dropPages, entitiesDeleted, storeFailures]

end Counter

structure Metrics where
  value : Counter → UInt64

namespace Metrics

def zero : Metrics := ⟨fun _ => 0⟩

def add (m : Metrics) (c : Counter) (n : UInt64) : Metrics :=
  ⟨fun d => if d = c then m.value d + n else m.value d⟩

@[simp] theorem add_value (m : Metrics) (c d : Counter) (n : UInt64) :
    (m.add c n).value d = if d = c then m.value d + n else m.value d := rfl

def toJson (m : Metrics) : Value :=
  .object (Counter.all.map fun c => (c.name, .ofNat (m.value c).toNat))

end Metrics

end Quarry
