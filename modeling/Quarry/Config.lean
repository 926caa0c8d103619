import Quarry.Json.Shape
import Quarry.Session
import Quarry.Store.Query

/-!
# Configuration

How the engine is set up. Every setting has a default, so that an empty object configures it.
-/

namespace Quarry

open Json

structure Config where
  projectId : Option String
  /-- the namespace of all keys and queries -/
  space : Option String
  /-- bounds the limit of every query -/
  maxQueryLimit : Nat
  /-- keys in one page of a drop -/
  dropPageSize : Nat
  /-- report every query before it is run -/
  logQueries : Bool
  deriving DecidableEq

/-- Why a configuration cannot be used. -/
inductive ConfigError where
  | unreadable
  | malformed
  | invalid (reason : String)
  deriving DecidableEq

namespace ConfigError

def message : ConfigError → String
  | unreadable => "failed to read config"
  | malformed => "failed to parse config"
  | invalid reason => "invalid config: " ++ reason

end ConfigError

namespace Config

def default : Config := ⟨none, none, Query.maxLimit, 500, false⟩

/-- The configuration that a JSON record describes. -/
def ofRaw? (r : Raw) : Option Config := do
  let fields ← Fields.find?
    ["project_id", "namespace", "max_query_limit", "drop_page_size", "log_queries"] r
  let projectId ← fields.withDefault 0 default.projectId (Raw.toOption? Raw.toText?)
  let space ← fields.withDefault 1 default.space (Raw.toOption? Raw.toText?)
  let maxQueryLimit ← fields.withDefault 2 default.maxQueryLimit (Raw.toNat? (Nat.pow 2 64))
  let dropPageSize ← fields.withDefault 3 default.dropPageSize (Raw.toNat? (Nat.pow 2 32))
  let logQueries ← fields.withDefault 4 default.logQueries Raw.toBool?
  return ⟨projectId, space, maxQueryLimit, dropPageSize, logQueries⟩

def toJson (c : Config) : Value :=
  .object [
    ("project_id", .ofOption .string c.projectId),
    ("namespace", .ofOption .string c.space),
    ("max_query_limit", .ofNat c.maxQueryLimit),
    ("drop_page_size", .ofNat c.dropPageSize),
    ("log_queries", .bool c.logQueries)]

/-- What makes the settings unusable, the page size coming first. -/
def defect? (c : Config) : Option String :=
  if c.dropPageSize = 0 then some "drop_page_size must be positive"
  else if c.maxQueryLimit = 0 then some "max_query_limit must be positive"
  else if Query.maxLimit < c.maxQueryLimit then
    some ("max_query_limit " ++ toString c.maxQueryLimit ++ " exceeds store maximum " ++
      toString Query.maxLimit)
  else none

/-- The usable configuration that a text holds. No text stands for a file that cannot be read. -/
def read : Option String → Except ConfigError Config
  | none => .error .unreadable
  | some text =>
    match (Raw.read text.toList).toOption.bind ofRaw? with
    | none => .error .malformed
    | some c =>
      match c.defect? with
      | some reason => .error (.invalid reason)
      | none => .ok c

/-- Reads the configuration of a file and reports it. -/
def load {σ : Type} (path : String) (text : Option String) : Action σ ConfigError Config := do
  let c ← Action.ofExcept id (read text)
  Action.report .info .configLoaded [("path", path)]
  return c

end Config

end Quarry
