import Quarry.Engine.Drain
import Quarry.Engine.TaskGroup
import Quarry.Journal.Scope

/-!
# Fan-out

Several queries are drained side by side, a task for each. A task suspends whenever it has asked its
query, and takes in the page when it is run again. In the end the slots of all queries are joined in
the order of the queries.
-/

namespace Quarry

/-- A query of a fan-out failed. -/
structure ExecutionError where
  kind : String
  /-- the place of the query -/
  index : Nat
  /-- the number of queries -/
  total : Nat
  source : StoreError
  deriving DecidableEq

namespace ExecutionError

def code : String := "E_STORE_EXECUTION"

def message (e : ExecutionError) : String :=
  code ++ ": query " ++ toString e.index ++ " of " ++ toString e.total ++ " on kind '" ++ e.kind ++
    "' failed: " ++ e.source.message

end ExecutionError

/-- The joined results of a fan-out. An entity that answers several queries occurs several times. -/
structure ResultSet where
  entities : List Entity
  queriesIssued : Nat
  batchesRun : Nat
  /-- empty slots left out -/
  placeholdersFiltered : Nat
  deriving DecidableEq

/-- A query of a fan-out: still to be asked, or with a page under way. -/
inductive Pull where
  | fresh (query : Query)
  | asked (drain : Drain) (ticket : Ticket)

namespace Pull

variable {σ ε : Type}

/-- Asks the query, or takes in the page that is under way and asks for the next. -/
def advance (S : Store σ) : Pull → Action σ StoreError (Progress Pull Drain)
  | fresh q => do
    let ticket ← Action.onStore (S.ask q)
    return .suspended (asked (.start q) ticket)
  | asked d ticket => do
    let page ← Action.attempt (S.redeem ticket)
    let d := d.add page
    match d.next? page with
    | none => return .ended d
    | some cursor =>
      Action.report .trace .queryContinued [
        ("kind", d.query.kind),
        ("batch", toString d.batches),
        ("fetched", toString d.slots.length)]
      let ticket ← Action.onStore (S.ask (d.queryFrom cursor))
      return .suspended (asked d ticket)

/-- Draining as work of a group. A failure comes with the place of the query. -/
def work (S : Store σ) : Work σ Pull Drain (Nat × StoreError) where
  run place p := (p.advance S).adapt fun e => (place, e)
  leave _ := return

end Pull

/-- A fan-out under way. -/
structure FanOut where
  kind : String
  scope : Scope
  group : TaskGroup Pull Drain (Nat × StoreError)

namespace FanOut

variable {σ ε α : Type}

def events : ScopeEvents := ⟨some .fanOutBegin, .fanOutComplete, .fanOutFailed⟩

/-- Opens a fan-out. The first query names the kind. -/
def enter (queries : List Query) : Action σ ε FanOut := do
  let kind := (queries.head?.map Query.kind).getD ""
  let scope ← Scope.enter events [("kind", kind), ("queries", toString queries.length)]
  Action.count .queriesIssued queries.length
  return ⟨kind, scope, .start (queries.map .fresh)⟩

def isDone (f : FanOut) : Bool := f.group.isDone

/-- Runs an action on the tasks. If it fails, the failure of one query is that of the fan-out. -/
def through (f : FanOut) (x : Action σ (Nat × StoreError) α) : Action σ ExecutionError α := do
  match ← Action.outcome x with
  | .ok a => return a
  | .error (index, source) =>
    Action.count .storeFailures 1
    f.scope.fail source.message
    throw ⟨f.kind, index, f.group.outcomes.length, source⟩

/-- One turn. -/
def advance (S : Store σ) (f : FanOut) : Action σ ExecutionError FanOut := do
  let group ← f.through (f.group.advance (Pull.work S))
  return { f with group }

/-- Goes on to the end of all queries, through no more turns than `patience`. -/
def complete (S : Store σ) (patience : Nat) (f : FanOut) : Action σ ExecutionError FanOut := do
  let group ← f.through
    (f.group.complete (Pull.work S) (fun place => (place, Store.endless)) patience)
  return { f with group }

/-- The joined results of the queries. -/
def results (f : FanOut) : ResultSet :=
  let drains := f.group.results
  let slots := drains.flatMap Drain.slots
  { entities := slots.filterMap id
    queriesIssued := f.group.outcomes.length
    batchesRun := drains.foldr (fun d n => d.batches + n) 0
    placeholdersFiltered := slots.countP Option.isNone }

/-- Ends a fan-out whose queries are all at their end. -/
def finish (f : FanOut) : Action σ ε ResultSet := do
  let r := f.results
  if 0 < r.placeholdersFiltered then
    Action.report .info .placeholderFiltered [
      ("kind", f.kind),
      ("count", toString r.placeholdersFiltered)]
    Action.count .placeholdersFiltered r.placeholdersFiltered
  Action.count .entitiesReturned r.entities.length
  f.scope.complete [
    ("entities", toString r.entities.length),
    ("batches", toString r.batchesRun)]
  return r

/-- Gives up a fan-out because of something else. -/
def abandon (f : FanOut) : Action σ ε Unit := f.scope.abandon

/-- Turns enough for this many queries, none of which has more than `patience` pages: a turn asks a
query or takes in a page. -/
def turns (patience queries : Nat) : Nat := (patience + 1) * queries

end FanOut

/-- Runs queries side by side. -/
def execute {σ : Type} (S : Store σ) (queries : List Query) : Action σ ExecutionError ResultSet :=
  do
    let patience ← Action.inquire S.patience
    let f ← FanOut.enter queries
    let f ← f.complete S (FanOut.turns patience queries.length)
    f.finish

end Quarry
