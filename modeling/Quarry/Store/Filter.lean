import Quarry.Store.Query

/-!
# Which entities a query matches

A property that is missing matches no filter. An array property matches if one of its items does.
Nothing is converted: a text is never equal to a number, and only values of one scalar kind are in a
range.
-/

namespace Quarry

open Json

namespace Filter

/-- A single value meets the comparison. -/
def meets (actual : Value) (op : Comparison) (expected : Value) : Bool :=
  match op with
  | .eq => actual.same expected
  | .ne => !actual.same expected
  | _ =>
    match actual.compare? expected with
    | some o => op.holds o
    | none => false

/-- A property meets the comparison: itself, or one of its items. -/
def accepts (actual : Value) (op : Comparison) (expected : Value) : Bool :=
  match actual with
  | .array items => items.any fun item => meets item op expected
  | v => meets v op expected

def admits (f : Filter) (e : Entity) : Bool :=
  match f.operand with
  | .key k => f.op.holds (compare e.key k)
  | .value expected =>
    match e.properties.get? f.property with
    | none => false
    | some actual => accepts actual f.op expected

end Filter

namespace Query

/-- The key belongs to the namespace and the kind of the query. -/
def covers (q : Query) (k : Key) : Bool := k.space == q.space && k.kind == q.kind

/-- The entity satisfies every filter. -/
def satisfiedBy (q : Query) (e : Entity) : Bool := q.filters.all fun f => f.admits e

end Query

end Quarry
