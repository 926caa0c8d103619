import Quarry.Json.Printer
import Quarry.Json.Shape

/-!
# Models

What is known of a kind: the column under which the id of an entity appears in its record, and the
columns whose values are to be unique.
-/

namespace Quarry

open Json

/-- An attribute whose value no two entities share, and the column that holds it. -/
structure UniqueAttribute where
  name : String
  column : String
  deriving DecidableEq

structure Model where
  kind : String
  primaryKey : String
  primaryKeyColumn : String
  unique : List UniqueAttribute
  deriving DecidableEq

namespace UniqueAttribute

def ofRaw? (r : Raw) : Option UniqueAttribute := do
  let fields ← Fields.find? ["name", "column"] r
  let name ← fields.required 0 Raw.toText?
  let column ← fields.required 1 Raw.toText?
  return ⟨name, column⟩

def toJson (a : UniqueAttribute) : Value :=
  .object [("name", .string a.name), ("column", .string a.column)]

end UniqueAttribute

namespace Model

/-- The model that a JSON record describes. All but the kind has a default. -/
def ofRaw? (r : Raw) : Option Model := do
  let fields ← Fields.find? ["kind", "primary_key", "primary_key_column", "unique"] r
  let kind ← fields.required 0 Raw.toText?
  let primaryKey ← fields.withDefault 1 "id" Raw.toText?
  let primaryKeyColumn ← fields.withDefault 2 "id" Raw.toText?
  let unique ← fields.withDefault 3 [] (Raw.toList? UniqueAttribute.ofRaw?)
  return ⟨kind, primaryKey, primaryKeyColumn, unique⟩

def toJson (m : Model) : Value :=
  .object [
    ("kind", .string m.kind),
    ("primary_key", .string m.primaryKey),
    ("primary_key_column", .string m.primaryKeyColumn),
    ("unique", .array (m.unique.map UniqueAttribute.toJson))]

end Model

end Quarry
