import Quarry.Criteria.Reader
import Quarry.Compiler

/-!
# Plans

The groups and queries that criteria become, or why they are rejected, as JSON and as text. Nothing
is run.
-/

namespace Quarry

open Json

/-- What becomes of criteria. -/
inductive Outcome where
  | accepted (groups : List Group) (queries : List Query)
  | rejected (error : CriteriaError)

structure Plan where
  kind : String
  outcome : Outcome

namespace Plan

/-- The plan for criteria given as JSON. -/
def build (c : Compiler) (criteria : Value) : Plan :=
  let planned : Except CriteriaError Outcome := do
    let criteria ← Criteria.read criteria
    let groups ← criteria.clause.groups
    let queries ← c.compileAll criteria groups
    return .accepted groups queries
  match planned with
  | .ok outcome => ⟨c.model.kind, outcome⟩
  | .error e => ⟨c.model.kind, .rejected e⟩

def isAccepted (p : Plan) : Bool :=
  match p.outcome with
  | .accepted .. => true
  | .rejected _ => false

def queries (p : Plan) : List Query :=
  match p.outcome with
  | .accepted _ queries => queries
  | .rejected _ => []

/-- The number of queries that look up one key. -/
def keyLookups (p : Plan) : Nat := p.queries.countP fun q => q.keyLookup?.isSome

end Plan

/-! ## JSON -/

def Predicate.toJson (p : Predicate) : Value :=
  .object [("field", .string p.field), ("op", .string p.op.symbol), ("value", p.value)]

def Group.toJson (g : Group) : Value := .array (g.map Predicate.toJson)

namespace Plan

/-- A member for a list, left out if the list is empty. -/
def listMember (name : String) (items : List Value) : List (String × Value) :=
  if items.isEmpty then [] else [(name, .array items)]

def toJson (p : Plan) : Value :=
  .object (("kind", .string p.kind) :: ("accepted", .bool p.isAccepted) ::
    match p.outcome with
    | .accepted groups queries =>
      listMember "groups" (groups.map Group.toJson) ++
        listMember "queries" (queries.map Query.toJson)
    | .rejected e =>
      [("rejection_code", .string e.code), ("rejection_reason", .string e.message)])

end Plan

/-! ## Text -/

def Filter.describe (f : Filter) : String :=
  f.property ++ " " ++ f.op.symbol ++ " " ++
    match f.operand with
    | .value v => v.text
    | .key k => "KEY(" ++ k.text ++ ")"

def Order.describe (o : Order) : String := o.property ++ (if o.descending then " DESC" else " ASC")

namespace Query

/-- Words before a list, or nothing if the list is empty. -/
def listed (words separator : String) (items : List String) : String :=
  if items.isEmpty then "" else words ++ String.intercalate separator items

/-- A word before a number, or nothing. -/
def numbered (word : String) : Option Nat → String
  | none => ""
  | some n => word ++ toString n

/-- One line on a query. -/
def describe (q : Query) : String :=
  "SELECT " ++ q.kind ++
    (if q.keysOnly then " KEYS ONLY"
      else if q.projection.isEmpty then ""
      else " (" ++ String.intercalate ", " q.projection ++ ")") ++
    listed " WHERE " " AND " (q.filters.map Filter.describe) ++
    listed " ORDER BY " ", " (q.orders.map Order.describe) ++
    numbered " LIMIT " q.limit ++
    numbered " OFFSET " q.offset

end Query

namespace Plan

/-- The lines of a plan. -/
def lines (p : Plan) : List String :=
  ["=== EXPLAIN PLAN ===", "Kind: " ++ p.kind] ++
    match p.outcome with
    | .accepted _ queries =>
      ["Status: ACCEPTED",
        "Queries: " ++ toString queries.length ++ " (" ++ toString p.keyLookups ++
          " key lookups)"] ++
        queries.zipIdx.map fun q => "  [" ++ toString q.2 ++ "] " ++ q.1.describe
    | .rejected e => ["Status: REJECTED", "Error Code: " ++ e.code, "Reason: " ++ e.message]

def text (p : Plan) : String := String.join (p.lines.map (· ++ "\n"))

end Plan

end Quarry
