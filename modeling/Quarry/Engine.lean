import Quarry.Config
import Quarry.Engine.Failure
import Quarry.Engine.Uniqueness

/-!
# Operations

What a caller does with the entities of registered models. Reads compile criteria and fan out.
Writes look for conflicts first. An entity that answers several groups of the criteria is found
several times and written once.
-/

namespace Quarry

open Json

/-- A store with the settings and models under which it is used. -/
structure Engine (σ : Type) where
  store : Store σ
  config : Config
  registry : Registry

namespace Engine

variable {σ : Type}

/-- The model of a kind. -/
def model (E : Engine σ) (kind : String) : Action σ Failure Model :=
  Action.ofExcept .registry (E.registry.get kind)

/-- The compiler for a model over the store as it is. -/
def compiler (E : Engine σ) (m : Model) : Action σ Failure Compiler := do
  return ⟨← Action.inquire E.store.space, m, E.config.maxQueryLimit⟩

/-- Compiles criteria and runs the queries. -/
def run (E : Engine σ) (m : Model) (c : Criteria) : Action σ Failure ResultSet := do
  let compiler ← E.compiler m
  let queries ← Action.ofExcept .criteria (compiler.queries c)
  if E.config.logQueries then
    queries.forM fun q =>
      Action.report .trace .queryCompiled [("kind", m.kind), ("query", q.toJson.text)]
  (execute E.store queries).adapt .execution

/-- The conflicts of records with stored entities. -/
def conflicts (E : Engine σ) (m : Model) (records : List Record) :
    Action σ Failure (List Conflict) := do
  let compiler ← E.compiler m
  (findConflicts E.store compiler records).adapt .check

/-- A write to the store. A failure is counted. -/
def write {α : Type} (f : σ → Except StoreError α × σ) : Action σ Failure α :=
  Action.orElseDo ((Action.attempt f).adapt .store) fun _ => Action.count .storeFailures 1

/-- The first entity of each key. -/
def distinct (entities : List Entity) : List Entity :=
  entities.foldl
    (fun acc e => if acc.any fun x => x.key == e.key then acc else acc ++ [e]) []

/-- The entities that match criteria, each once and in full. -/
def matched (E : Engine σ) (m : Model) (c : Criteria) : Action σ Failure (List Entity) := do
  let found ← E.run m { c with select := .everything }
  return distinct found.entities

/-! ## Reading -/

/-- The records that match criteria. -/
def find (E : Engine σ) (kind : String) (c : Criteria) : Action σ Failure (List Record) := do
  let m ← E.model kind
  let found ← E.run m c
  return found.entities.map m.toRecord

/-- The number of records that `find` would return. Only keys are fetched. -/
def count (E : Engine σ) (kind : String) (c : Criteria) : Action σ Failure Nat := do
  let m ← E.model kind
  let found ← E.run m { c with select := .fields [m.primaryKeyColumn] }
  return found.entities.length

/-- Fails if records conflict with stored entities. -/
def enforceUniqueness (E : Engine σ) (m : Model) (records : List Record) :
    Action σ Failure Unit := do
  let conflicts ← E.conflicts m records
  Action.ofExcept .unique (UniqueError.ofConflicts conflicts)

/-! ## Writing -/

/-- Stores new records. Yields them with their ids. -/
def create (E : Engine σ) (kind : String) (records : List Record) :
    Action σ Failure (List Record) := do
  let m ← E.model kind
  E.enforceUniqueness m records
  let space ← Action.inquire E.store.space
  let entities ← Action.ofExcept .record (records.mapM (m.toEntity space))
  let keys ← write (E.store.save entities)
  Action.report .info .entitiesSaved [("kind", kind), ("count", toString keys.length)]
  return (keys.zip entities).map fun (k, e) => m.toRecord { e with key := k }

/-- The values that would be written to unique columns. -/
def uniqueValues (m : Model) (values : Record) : Record :=
  .ofColumns (m.unique.filterMap fun a => (values.present? a.column).map fun v => (a.column, v))

/-- An entity with values written over its properties. -/
def overlay (values : Record) (e : Entity) : Entity :=
  { e with properties := e.properties.putAll values.columns }

/-- Writes values into every matching entity. Conflicts with those entities are ignored, and the
primary key cannot be written. -/
def update (E : Engine σ) (kind : String) (c : Criteria) (values : Record) :
    Action σ Failure (List Record) := do
  let m ← E.model kind
  if (values.get? m.primaryKeyColumn).isSome then
    throw (.criteria (.badField m.primaryKeyColumn (.keyIsFixed m.primaryKey)))
  let entities ← E.matched m c
  if entities.isEmpty then return []
  else
    let conflicts ← E.conflicts m [uniqueValues m values]
    let others := conflicts.filter fun c => !entities.any fun e => e.key == c.existing.key
    Action.ofExcept .unique (UniqueError.ofConflicts others)
    let updated := entities.map (overlay values)
    write (E.store.update updated)
    Action.report .info .entitiesUpdated [("kind", kind), ("count", toString updated.length)]
    return updated.map m.toRecord

/-- Deletes every matching entity. Yields what was deleted. -/
def destroy (E : Engine σ) (kind : String) (c : Criteria) : Action σ Failure (List Record) := do
  let m ← E.model kind
  let entities ← E.matched m c
  if entities.isEmpty then return []
  else
    write (E.store.delete (entities.map Entity.key))
    Action.report .info .entitiesDestroyed [("kind", kind), ("count", toString entities.length)]
    return entities.map m.toRecord

/-- Deletes every entity of a kind, registered or not. -/
def drop (E : Engine σ) (kind : String) : Action σ Failure DropSummary :=
  (dropAll E.store E.config.dropPageSize kind).adapt .drop

end Engine

end Quarry
