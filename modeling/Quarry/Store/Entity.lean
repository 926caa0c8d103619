import Quarry.Key.Json
import Quarry.Record

/-!
# Entities

What a store keeps under a key: a record of properties.
-/

namespace Quarry

open Json

structure Entity where
  key : Key
  properties : Record
  deriving DecidableEq

namespace Entity

/-- The entity without its properties. -/
def keyOnly (e : Entity) : Entity := ⟨e.key, .empty⟩

/-- The entity with the properties of these names, in their stored order. -/
def project (e : Entity) (names : List String) : Entity :=
  ⟨e.key, e.properties.restrict fun name => names.contains name⟩

def toJson (e : Entity) : Value :=
  .object [("key", e.key.toJson), ("properties", e.properties.toJson)]

end Entity

end Quarry
