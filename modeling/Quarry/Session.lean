import Quarry.Journal.Line
import Quarry.Journal.Metrics
import Quarry.Store.Interface

/-!
# Sessions

A session is what the engine works on: the state of a store, the journal, and the counters. An
action ends with a result or a failure, and the session keeps what was done before a failure.
-/

namespace Quarry

structure Session (σ : Type) where
  store : σ
  journal : List Line
  metrics : Metrics
  /-- scopes opened so far -/
  scopes : Nat
  /-- the reading of the clock, in milliseconds -/
  clock : Nat

namespace Session

/-- A session in which nothing was done. -/
def start {σ : Type} (store : σ) : Session σ := ⟨store, [], .zero, 0, 0⟩

end Session

abbrev Action (σ ε α : Type) := ExceptT ε (StateM (Session σ)) α

namespace Action

variable {σ ε α : Type}

/-- Writes a line into the journal. -/
def report (severity : Severity) (event : Event) (fields : LineFields) : Action σ ε Unit :=
  modify fun w => { w with journal := w.journal ++ [⟨severity, event, fields⟩] }

/-- Adds to a counter. -/
def count (c : Counter) (n : Nat) : Action σ ε Unit :=
  modify fun w => { w with metrics := w.metrics.add c (.ofNat n) }

/-- Something that only the store is asked for. -/
def inquire (f : σ → α) : Action σ ε α := do return f (← get).store

/-- Something done to the store. -/
def onStore (f : σ → α × σ) : Action σ ε α :=
  modifyGet fun w => let (a, store) := f w.store; (a, { w with store })

/-- Something done to the store that can fail. -/
def attempt {φ : Type} (f : σ → Except φ α × σ) : Action σ φ α := do
  match ← onStore f with
  | .ok a => return a
  | .error e => throw e

/-- Runs an action and yields how it ended. -/
def outcome {φ : Type} (x : Action σ ε α) : Action σ φ (Except ε α) := ExceptT.lift x.run

/-- Runs an action. If it fails, `after` is run on the way out. -/
def orElseDo (x : Action σ ε α) (after : ε → Action σ ε Unit) : Action σ ε α :=
  tryCatch x fun e => do after e; throw e

/-- An outcome that is already there. -/
def ofExcept {φ : Type} (wrap : φ → ε) : Except φ α → Action σ ε α
  | .ok a => return a
  | .error e => throw (wrap e)

end Action

end Quarry
