import Quarry.Engine.Conflict
import Quarry.Compiler

/-!
# Looking for conflicts

Each unique attribute is looked up by a fan-out with one query for each distinct value that records
propose for it. The look-ups go side by side: a turn of a look-up is one turn of its fan-out. A
failure gives the others up. Nothing keeps another client from writing between the look-up and the
write that follows it.
-/

namespace Quarry

open Json

/-- The look-up of one attribute: still to be started, or under way. -/
inductive Probe where
  | fresh (unique : UniqueAttribute)
  | running (unique : UniqueAttribute) (fanOut : FanOut)

namespace Probe

variable {σ ε : Type}

/-- The distinct values that records propose for a column. Null proposes nothing. -/
def proposed (records : List Record) (column : String) : List Value :=
  (records.filterMap fun r => r.present? column).foldl
    (fun acc v => if acc.any v.same then acc else acc ++ [v]) []

/-- The value that an entity holds in a column. -/
def held (m : Model) (e : Entity) (column : String) : Value :=
  if column = m.primaryKeyColumn then .ofOption KeyId.toValue e.key.id?
  else (e.properties.get? column).getD .null

/-- What asks for the entities that hold one of these values. -/
def criteria (column : String) (values : List Value) : Criteria :=
  { Criteria.everything with
    clause := .any (values.map (Clause.equals column))
    select := .fields [column] }

def conflicts (m : Model) (a : UniqueAttribute) (r : ResultSet) : List Conflict :=
  r.entities.map fun e => ⟨a, held m e a.column, e⟩

/-- Takes in a turn of the fan-out. Once this is done, its results are the conflicts. -/
def settle (m : Model) (a : UniqueAttribute) (f : FanOut) :
    Action σ ε (Progress Probe (List Conflict)) :=
  if f.isDone then do
    let r ← f.finish
    return .ended (conflicts m a r)
  else return .suspended (running a f)

/-- Opens the fan-out for these values of an attribute. -/
def enter (c : Compiler) (a : UniqueAttribute) (values : List Value) :
    Action σ CheckError FanOut := do
  Action.count .uniqueChecks 1
  Action.report .info .uniqueCheck [
    ("kind", c.model.kind),
    ("attribute", a.name),
    ("values", toString values.length)]
  let queries ← Action.ofExcept .criteria (c.queries (criteria a.column values))
  FanOut.enter queries

/-- One turn of the fan-out, which is opened first if it is not yet. An attribute for which nothing
is proposed has no conflicts. -/
def advance (S : Store σ) (c : Compiler) (records : List Record) :
    Probe → Action σ CheckError (Progress Probe (List Conflict))
  | fresh a =>
    match proposed records a.column with
    | [] => return .ended []
    | values => do
      let f ← enter c a values
      let f ← (f.advance S).adapt .execution
      settle c.model a f
  | running a f => do
    let f ← (f.advance S).adapt .execution
    settle c.model a f

def abandon : Probe → Action σ ε Unit
  | fresh _ => return
  | running _ f => f.abandon

/-- Looking up as work of a group. -/
def work (S : Store σ) (c : Compiler) (records : List Record) :
    Work σ Probe (List Conflict) CheckError where
  run _ p := p.advance S c records
  leave := abandon

/-- The failure of a look-up that comes to no end. -/
def endless (m : Model) (place : Nat) : CheckError :=
  .execution ⟨m.kind, place, m.unique.length, Store.endless⟩

/-- Turns enough for all look-ups: a turn is one of a fan-out, which has no more queries than there
are records, or finds that nothing is proposed. -/
def turns (patience : Nat) (m : Model) (records : List Record) : Nat :=
  (FanOut.turns patience records.length + 1) * m.unique.length

end Probe

/-- The conflicts of records with stored entities, attribute by attribute. -/
def findConflicts {σ : Type} (S : Store σ) (c : Compiler) (records : List Record) :
    Action σ CheckError (List Conflict) := do
  let patience ← Action.inquire S.patience
  let probes : TaskGroup Probe (List Conflict) CheckError := .start (c.model.unique.map .fresh)
  let probes ← probes.complete (Probe.work S c records) (Probe.endless c.model)
    (Probe.turns patience c.model records)
  let conflicts := probes.results.flatten
  unless conflicts.isEmpty do
    Action.count .uniqueViolations 1
    Action.report .warn .uniqueViolation [
      ("kind", c.model.kind),
      ("attributes", String.intercalate "," (Conflict.attributes conflicts)),
      ("conflicts", toString conflicts.length)]
  return conflicts

end Quarry
