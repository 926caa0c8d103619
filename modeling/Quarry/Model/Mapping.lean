import Quarry.Model
import Quarry.Store.Entity

/-!
# Records and entities

The id of an entity stands in its key and appears in its record under the primary-key column, ahead
of the properties. A record without an id becomes an entity whose key waits for one.
-/

namespace Quarry

open Json

namespace Record

/-- The value of a column, unless it is null. -/
def present? (r : Record) (column : String) : Option Value :=
  (r.get? column).filter fun v => !v.isNull

end Record

/-- A record's value in the primary-key column is not an id. -/
structure RecordError where
  kind : String
  value : Value
  deriving DecidableEq

namespace RecordError

def code : String := "E_QUERY_INVALID"

def message (e : RecordError) : String :=
  "Invalid primary key for " ++ e.kind ++ ": " ++ e.value.text ++ " is not an id or name"

end RecordError

namespace Model

/-- The key of an entity of this kind. -/
def keyOf (m : Model) (space : Option String) (id : Option KeyId) : Key := ⟨space, [⟨m.kind, id⟩]⟩

/-- The id that a record gives its entity. None if the column is missing or null. -/
def idOf (m : Model) (r : Record) : Except RecordError (Option KeyId) :=
  match r.present? m.primaryKeyColumn with
  | none => .ok none
  | some v =>
    match KeyId.ofValue? v with
    | some id => .ok (some id)
    | none => .error ⟨m.kind, v⟩

/-- The entity that a record describes. -/
def toEntity (m : Model) (space : Option String) (r : Record) : Except RecordError Entity :=
  (m.idOf r).map fun id => ⟨m.keyOf space id, r.takeOut m.primaryKeyColumn⟩

/-- The record of an entity: its id first, then its properties. -/
def toRecord (m : Model) (e : Entity) : Record :=
  let id :=
    match e.key.id? with
    | some id => [(m.primaryKeyColumn, id.toValue)]
    | none => []
  .ofColumns (id ++ e.properties.columns.filter fun c => c.1 != m.primaryKeyColumn)

end Model

end Quarry
