/-!
# Events

What the engine reports, by the names under which journals are searched.
-/

namespace Quarry

inductive Event where
  | configLoaded
  | modelRegistered
  | modelTornDown
  | queryCompiled
  | fanOutBegin
  | fanOutComplete
  | fanOutFailed
  | placeholderFiltered
  | queryContinued
  | uniqueCheck
  | uniqueViolation
  | dropPage
  | dropStaleCursor
  | dropComplete
  | dropFailed
  | entitiesSaved
  | entitiesUpdated
  | entitiesDestroyed
  deriving DecidableEq

namespace Event

def name : Event → String
  | configLoaded => "CONFIG_LOADED"
  | modelRegistered => "MODEL_REGISTERED"
  | modelTornDown => "MODEL_TORN_DOWN"
  | queryCompiled => "QUERY_COMPILED"
  | fanOutBegin => "QUERY_FANOUT_BEGIN"
  | fanOutComplete => "QUERY_FANOUT_COMPLETE"
  | fanOutFailed => "QUERY_FANOUT_FAILED"
  | placeholderFiltered => "PLACEHOLDER_FILTERED"
  | queryContinued => "QUERY_CONTINUED"
  | uniqueCheck => "UNIQUE_CHECK"
  | uniqueViolation => "UNIQUE_VIOLATION"
  | dropPage => "DROP_PAGE"
  | dropStaleCursor => "DROP_STALE_CURSOR"
  | dropComplete => "DROP_COMPLETE"
  | dropFailed => "DROP_FAILED"
  | entitiesSaved => "ENTITIES_SAVED"
  | entitiesUpdated => "ENTITIES_UPDATED"
  | entitiesDestroyed => "ENTITIES_DESTROYED"

/-- The event ends an operation that did not succeed. -/
def isFailure : Event → Bool
  | fanOutFailed => true
  | dropFailed => true
  | _ => false

/-- Every event. -/
def all : List Event := [configLoaded, modelRegistered, modelTornDown, queryCompiled, fanOutBegin,
  fanOutComplete, fanOutFailed, placeholderFiltered, queryContinued, uniqueCheck, uniqueViolation,
  dropPage, dropStaleCursor, dropComplete, dropFailed, entitiesSaved, entitiesUpdated,
  entitiesDestroyed]

end Event

end Quarry
