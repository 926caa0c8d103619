import Quarry.Engine.FanOut
import Quarry.Criteria.Error
import Quarry.Model

/-!
# Conflicts

Entities that already hold a value which a record proposes for a unique attribute.
-/

namespace Quarry

open Json

structure Conflict where
  /-- the attribute in conflict -/
  unique : UniqueAttribute
  /-- what the entity holds -/
  value : Value
  existing : Entity
  deriving DecidableEq

namespace Conflict

/-- The attributes in conflict, each once, in the order in which they first appear. -/
def attributes (conflicts : List Conflict) : List String :=
  conflicts.foldl
    (fun acc c => if acc.contains c.unique.name then acc else acc ++ [c.unique.name]) []

def toJson (c : Conflict) : Value :=
  .object [
    ("attribute", .string c.unique.name),
    ("column", .string c.unique.column),
    ("value", c.value),
    ("existing", c.existing.toJson)]

end Conflict

/-- A write would repeat values of unique attributes. -/
structure UniqueError where
  conflicts : List Conflict
  deriving DecidableEq

namespace UniqueError

def code : String := "E_UNIQUE"

def attributes (e : UniqueError) : List String := Conflict.attributes e.conflicts

def message (e : UniqueError) : String :=
  code ++ ": " ++ toString e.conflicts.length ++
    " existing record(s) conflict on unique attribute(s) " ++
    String.intercalate ", " e.attributes

/-- The error as a caller reports it, conflicting entities standing by their keys. -/
def toJson (e : UniqueError) : Value :=
  .object [
    ("code", .string code),
    ("attrNames", .array (e.attributes.map .string)),
    ("records", .array (e.conflicts.map fun c => .object [
      ("attribute", .string c.unique.name),
      ("column", .string c.unique.column),
      ("value", c.value),
      ("key", .string c.existing.key.text)]))]

/-- No conflicts are no error. -/
def ofConflicts (conflicts : List Conflict) : Except UniqueError Unit :=
  if conflicts.isEmpty then .ok () else .error ⟨conflicts⟩

end UniqueError

/-- Why conflicts could not be looked for. -/
inductive CheckError where
  | criteria (e : CriteriaError)
  | execution (e : ExecutionError)
  deriving DecidableEq

namespace CheckError

def code : CheckError → String
  | criteria e => e.code
  | execution _ => ExecutionError.code

def message : CheckError → String
  | criteria e => e.text
  | execution e => e.message

end CheckError

end Quarry
