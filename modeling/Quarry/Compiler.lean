import Quarry.Criteria.Groups
import Quarry.Model.Mapping
import Quarry.Store.Query

/-!
# From criteria to store queries

Each group becomes one query, with the sort order, limit, skip and selection of the criteria. What
the criteria say of the primary-key column, the query says of keys.
-/

namespace Quarry

open Json

structure Compiler where
  space : Option String
  model : Model
  /-- bounds every limit, itself bounded by what stores can represent -/
  maxLimit : Nat

namespace Compiler

/-- The limit of a query. A limit of nothing is none. -/
def limit (c : Compiler) : Option Nat → Option Nat
  | none => none
  | some 0 => none
  | some n => some (min n (min c.maxLimit Query.maxLimit))

/-- The key with this value as its id. -/
def keyFor (c : Compiler) (field : String) (v : Value) : Except CriteriaError Key :=
  match KeyId.ofValue? v with
  | some id => .ok (c.model.keyOf c.space (some id))
  | none => .error (.badField field (.notAnId v))

/-- A predicate as a filter on the key or on a property. -/
def filter (c : Compiler) (p : Predicate) : Except CriteriaError Filter :=
  if p.field = c.model.primaryKeyColumn then
    (c.keyFor p.field p.value).map fun k => ⟨keyProperty, p.op, .key k⟩
  else .ok ⟨p.field, p.op, .value p.value⟩

def order (c : Compiler) (s : Sorting) : Order :=
  ⟨if s.field = c.model.primaryKeyColumn then keyProperty else s.field,
    s.direction == .descending⟩

/-- The properties to fetch: the selected fields, each once, without the primary key. None for a
selection that the key alone satisfies. -/
def projection (c : Compiler) (names : List String) : List String :=
  (names.filter fun name => name != c.model.primaryKeyColumn).foldl
    (fun acc name => if acc.contains name then acc else acc ++ [name]) []

/-- Narrows a query to the selected fields. -/
def select (c : Compiler) (q : Query) : Selection → Query
  | .everything => q
  | .fields names =>
    match c.projection names with
    | [] => q.onlyKeys
    | properties => { q with projection := properties }

/-- The query of one group. -/
def compile (c : Compiler) (criteria : Criteria) (g : Group) : Except CriteriaError Query := do
  let filters ← g.mapM c.filter
  let query := { Query.ofKind c.space c.model.kind with
    filters
    orders := criteria.sort.map c.order
    limit := c.limit criteria.limit
    offset := criteria.skip.filter (0 < ·) }
  return c.select query criteria.select

/-- The queries of all groups. -/
def compileAll (c : Compiler) (criteria : Criteria) (groups : List Group) :
    Except CriteriaError (List Query) :=
  groups.mapM (c.compile criteria)

/-- The queries of criteria. -/
def queries (c : Compiler) (criteria : Criteria) : Except CriteriaError (List Query) := do
  let groups ← criteria.clause.groups
  c.compileAll criteria groups

end Compiler

end Quarry
