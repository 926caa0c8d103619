import Quarry.Comparison
import Quarry.Store.Entity

/-!
# Store queries

What a store can run: one kind, a conjunction of filters, sort orders, a limit, an offset, a
projection, and a cursor to start from. There is no disjunction. A filter compares a property with a
value, or the key of the entity with a key.
-/

namespace Quarry

open Json

/-- The name under which a query filters and sorts by key. -/
def keyProperty : String := "__key__"

/-- What a filter compares with. -/
inductive Operand where
  | value (v : Value)
  | key (k : Key)
  deriving DecidableEq

structure Filter where
  property : String
  op : Comparison
  operand : Operand
  deriving DecidableEq

/-- The filter compares keys. -/
def Filter.isKeyFilter (f : Filter) : Bool :=
  match f.operand with
  | .key _ => true
  | .value _ => false

structure Order where
  property : String
  descending : Bool
  deriving DecidableEq

/-- A token that a store hands out to continue a query. -/
abbrev Cursor := String

/-- How a page ended. -/
inductive More where
  | notFinished
  | afterLimit
  | afterCursor
  | exhausted
  deriving DecidableEq

/-- There may be more than the page held. -/
def More.hasMore : More → Bool
  | .exhausted => false
  | _ => true

/-- One page of answers. An empty slot stands for a key that was looked up and is not there. -/
structure Page where
  slots : List (Option Entity)
  cursor : Option Cursor
  more : More
  deriving DecidableEq

/-- A page after which there is nothing. -/
def Page.last (slots : List (Option Entity)) : Page := ⟨slots, none, .exhausted⟩

structure Query where
  space : Option String
  kind : String
  filters : List Filter
  orders : List Order
  limit : Option Nat
  offset : Option Nat
  projection : List String
  keysOnly : Bool
  start : Option Cursor
  deriving DecidableEq

namespace Query

/-- The largest limit that a store can represent. -/
def maxLimit : Nat := 2147483647

/-- Everything of one kind. -/
def ofKind (space : Option String) (kind : String) : Query :=
  ⟨space, kind, [], [], none, none, [], false, none⟩

def filter (q : Query) (property : String) (op : Comparison) (v : Value) : Query :=
  { q with filters := q.filters ++ [⟨property, op, .value v⟩] }

def keyFilter (q : Query) (op : Comparison) (k : Key) : Query :=
  { q with filters := q.filters ++ [⟨keyProperty, op, .key k⟩] }

def order (q : Query) (property : String) (descending : Bool) : Query :=
  { q with orders := q.orders ++ [⟨property, descending⟩] }

/-- Asks for keys without properties, whatever was selected before. -/
def onlyKeys (q : Query) : Query := { q with keysOnly := true, projection := [] }

/-- The key that the first equality filter on keys asks for. -/
def keyLookup? (q : Query) : Option Key :=
  q.filters.findSome? fun f =>
    match f.op, f.operand with
    | .eq, .key k => some k
    | _, _ => none

/-- What the query returns of an entity. -/
def shape (q : Query) (e : Entity) : Entity :=
  if q.keysOnly then e.keyOnly
  else if q.projection.isEmpty then e
  else e.project q.projection

end Query

/-! ## JSON -/

def Operand.toJson : Operand → Value
  | .value v => .object [("value", v)]
  | .key k => .object [("key", k.toJson)]

def Filter.toJson (f : Filter) : Value :=
  .object [("property", .string f.property), ("op", .string f.op.symbol),
    ("value", f.operand.toJson)]

def Order.toJson (o : Order) : Value :=
  .object [("property", .string o.property), ("descending", .bool o.descending)]

def Query.toJson (q : Query) : Value :=
  .object [
    ("namespace", .ofOption .string q.space),
    ("kind", .string q.kind),
    ("filters", .array (q.filters.map Filter.toJson)),
    ("orders", .array (q.orders.map Order.toJson)),
    ("limit", .ofOption .ofNat q.limit),
    ("offset", .ofOption .ofNat q.offset),
    ("projection", .array (q.projection.map .string)),
    ("keys_only", .bool q.keysOnly),
    ("start", .ofOption .string q.start)]

def More.name : More → String
  | .notFinished => "NOT_FINISHED"
  | .afterLimit => "MORE_RESULTS_AFTER_LIMIT"
  | .afterCursor => "MORE_RESULTS_AFTER_CURSOR"
  | .exhausted => "NO_MORE_RESULTS"

end Quarry
