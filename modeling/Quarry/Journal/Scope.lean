import Quarry.Session

/-!
# Scopes

A scope brackets an operation in the journal: a line when it opens, if it has one, and exactly one
when it closes, be it by success, by failure, or because the operation was given up. All its lines
carry the same fields and the scope's id.
-/

namespace Quarry

/-- The events of one sort of scope. -/
structure ScopeEvents where
  opened : Option Event
  complete : Event
  failed : Event
  deriving DecidableEq

structure Scope where
  events : ScopeEvents
  id : String
  fields : LineFields
  /-- the clock when it was opened -/
  since : Nat
  deriving DecidableEq

namespace Scope

variable {σ ε : Type}

/-- The id of the scope of this number: 36 characters, digits in groups between hyphens. -/
def idOf (number : Nat) : String :=
  let digits := Nat.toDigits 10 number
  let padded := List.replicate (12 - digits.length) '0' ++ digits
  "00000000-0000-4000-8000-" ++ String.ofList padded

def report (s : Scope) (severity : Severity) (event : Event) (more : LineFields) :
    Action σ ε Unit :=
  Action.report severity event (s.fields ++ ("op_id", s.id) :: more)

/-- Opens a scope. -/
def enter (events : ScopeEvents) (fields : LineFields) : Action σ ε Scope := do
  let w ← getModify fun w => { w with scopes := w.scopes + 1 }
  let s : Scope := ⟨events, idOf w.scopes, fields, w.clock⟩
  match events.opened with
  | some event => s.report .info event []
  | none => pure ()
  return s

/-- Closes a scope with success. -/
def complete (s : Scope) (more : LineFields) : Action σ ε Unit := do
  let now := (← get).clock
  s.report .info s.events.complete (more ++ [("elapsed_ms", toString (now - s.since))])

/-- Closes a scope with failure. -/
def fail (s : Scope) (reason : String) : Action σ ε Unit :=
  s.report .error s.events.failed [("reason", reason)]

/-- Closes a scope whose operation is given up. -/
def abandon (s : Scope) : Action σ ε Unit :=
  s.report .warn s.events.failed [("reason", "scope dropped without completion")]

end Scope

end Quarry
