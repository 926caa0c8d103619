import Quarry.Json.Printer
import Quarry.Json.Shape
import Quarry.Key

/-!
# Keys in JSON

An id is an integer of the signed 64-bit range or a string where it stands in a record, and an
object with one member, `id` or `name`, inside the JSON form of a key.
-/

namespace Quarry

open Json

namespace KeyId

/-- The id that a value of a record stands for: integers are numbers, strings are names. -/
def ofValue? : Value → Option KeyId
  | .number n => n.toInt64?.map number
  | .string s => some (name s)
  | _ => none

/-- The id as a value of a record. -/
def toValue : KeyId → Value
  | number value => .number (Number.ofInt64 value)
  | name text => .string text

def toJson : KeyId → Value
  | number value => .object [("id", .number (Number.ofInt64 value))]
  | name text => .object [("name", .string text)]

def ofRaw? : Raw → Option KeyId
  | .object [(some "id", r)] => r.toInt64?.map number
  | .object [(some "name", r)] => r.toText?.map name
  | _ => none

end KeyId

namespace Step

def toJson (s : Step) : Value :=
  .object [("kind", .string s.kind), ("id", .ofOption KeyId.toJson s.id)]

def ofRaw? (r : Raw) : Option Step := do
  let fields ← Fields.find? ["kind", "id"] r
  let kind ← fields.required 0 Raw.toText?
  let id ← fields.nullable 1 KeyId.ofRaw?
  return ⟨kind, id⟩

end Step

namespace Key

def toJson (k : Key) : Value :=
  .object [("namespace", .ofOption .string k.space), ("path", .array (k.path.map Step.toJson))]

def ofRaw? (r : Raw) : Option Key := do
  let fields ← Fields.find? ["namespace", "path"] r
  let space ← fields.nullable 0 Raw.toText?
  let path ← fields.required 1 (Raw.toList? Step.ofRaw?)
  return ⟨space, path⟩

end Key

end Quarry
