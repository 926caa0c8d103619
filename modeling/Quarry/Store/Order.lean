import Quarry.Store.Query

/-!
# The order of results

Sort orders apply one after another and the key decides last, so that entities of different keys are
never level. A missing property comes before every value.
-/

namespace Quarry

open Json

/-- Missing before present, present by `Value.sortCompare`. -/
def sortCompareOptional : Option Value → Option Value → Ordering
  | none, none => .eq
  | none, some _ => .lt
  | some _, none => .gt
  | some a, some b => a.sortCompare b

namespace Order

/-- How two entities stand under one sort order. -/
def compare (o : Order) (a b : Entity) : Ordering :=
  let ascending :=
    if o.property = keyProperty then Ord.compare a.key b.key
    else sortCompareOptional (a.properties.get? o.property) (b.properties.get? o.property)
  if o.descending then ascending.swap else ascending

/-- How two entities stand under sort orders and then by key. -/
def compareAll : List Order → Entity → Entity → Ordering
  | [], a, b => Ord.compare a.key b.key
  | o :: rest, a, b => (o.compare a b).then (compareAll rest a b)

/-- The entities in order. -/
def sort (orders : List Order) (entities : List Entity) : List Entity :=
  entities.mergeSort fun a b => (compareAll orders a b).isLE

end Order

end Quarry
