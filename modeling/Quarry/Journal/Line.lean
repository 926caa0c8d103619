import Quarry.Journal.Event
import Quarry.Json.Printer
import Quarry.Record

/-!
# Journal lines

A line reports one event as a JSON object on a line of its own: the event, the severity, then the
fields in the order of their names. A field that comes again has its last value. A field named like
one of the first two takes its place.
-/

namespace Quarry

open Json

inductive Severity where
  | trace
  | info
  | warn
  | error
  deriving DecidableEq

def Severity.name : Severity → String
  | .trace => "TRACE"
  | .info => "INFO"
  | .warn => "WARN"
  | .error => "ERROR"

/-- Fields with their values. -/
abbrev LineFields := List (String × String)

structure Line where
  severity : Severity
  event : Event
  fields : LineFields
  deriving DecidableEq

namespace Line

/-- The fields in the order of their names, those of one name in the order given. -/
def ordered (fields : LineFields) : LineFields :=
  fields.mergeSort fun a b => (compare a.1 b.1).isLE

/-- The members of the line's object. -/
def record (l : Line) : Record :=
  .ofColumns (("event", .string l.event.name) :: ("severity", .string l.severity.name) ::
    (ordered l.fields).map fun f => (f.1, .string f.2))

def render (l : Line) : List Char := l.record.toJson.render ++ ['\n']

end Line

/-- Where lines go. -/
inductive Routing where
  /-- errors to the error stream, all else to the output -/
  | split
  /-- every line to the error stream -/
  | errors
  deriving DecidableEq

/-- Lines of this severity go to the error stream. -/
def Routing.toErrors : Routing → Severity → Bool
  | .split, .error => true
  | .split, _ => false
  | .errors, _ => true

end Quarry
