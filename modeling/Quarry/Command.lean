import Quarry.Config
import Quarry.Plan
import Quarry.Text.Blank

/-!
# The command line

One command, `explain`, shows the plan for criteria and a model. The plan alone goes to the output,
and journal lines go to the error stream.
-/

namespace Quarry

open Json

/-- How a plan is shown. -/
inductive PlanFormat where
  | json
  | text
  deriving DecidableEq

/-- The options of `explain`. Files are given by their paths. -/
structure Explain where
  config : Option String
  model : String
  /-- read from the input if it is not given -/
  criteria : Option String
  format : PlanFormat
  deriving DecidableEq

/-! ## Arguments -/

namespace Explain

/-- The options in the order in which they were given. -/
abbrev Given := List (String × String)

/-- The text behind a mark at the start of another text. -/
def behind? (mark : List Char) (s : String) : Option (List Char) :=
  if mark.isPrefixOf s.toList then some (s.toList.drop mark.length) else none

/-- A text that cannot be the value of an option before it. A hyphen alone can. -/
def looksLikeOption (s : String) : Bool := (behind? ['-'] s).isSome && s != "-"

/-- Splits arguments into options with their values. None if an argument is neither. An option's
value stands behind an equals sign or in the next argument. -/
def split? : List String → Option Given
  | [] => some []
  | "--" :: rest => if rest.isEmpty then some [] else none
  | arg :: rest =>
    match behind? ['-', '-'] arg with
    | none => none
    | some option =>
      match option.dropWhile (· ≠ '=') with
      | _ :: value =>
        (split? rest).map
          ((String.ofList (option.takeWhile (· ≠ '=')), String.ofList value) :: ·)
      | [] =>
        match rest with
        | [] => none
        | value :: rest =>
          if looksLikeOption value then none
          else (split? rest).map ((String.ofList option, value) :: ·)

/-- The value of an option that may be given once. -/
def single? (given : Given) (name : String) : Option (Option String) :=
  match given.filter fun o => o.1 == name with
  | [] => some none
  | [o] => some (some o.2)
  | _ => none

/-- A path that is not empty, if there is one. -/
def path? : Option String → Option (Option String)
  | some "" => none
  | p => some p

def format? : Option String → Option PlanFormat
  | none => some .json
  | some "json" => some .json
  | some "text" => some .text
  | _ => none

/-- The options that arguments stand for. -/
def ofArguments? : List String → Option Explain
  | "explain" :: arguments => do
    let given ← split? arguments
    guard (given.all fun o => ["config", "model", "criteria", "format"].contains o.1)
    let config ← path? (← single? given "config")
    let model ← (← path? (← single? given "model"))
    let criteria ← single? given "criteria"
    let format ← format? (← single? given "format")
    return ⟨config, model, criteria, format⟩
  | _ => none

end Explain

/-! ## Running -/

/-- Why no plan is shown. -/
inductive CommandError where
  | config (e : ConfigError)
  | model (path : String)
  | noCriteria
  | criteria (reason : String)
  | input
  deriving DecidableEq

namespace CommandError

def code : CommandError → String
  | config _ => "E_CLI_CONFIG"
  | model _ => "E_CLI_MODEL"
  | noCriteria => "E_CLI_INPUT"
  | criteria _ => "E_CLI_INPUT"
  | input => "E_CLI_IO"

def message : CommandError → String
  | config e => "E_CLI_CONFIG: " ++ e.message
  | model path => "E_CLI_MODEL: " ++ path ++ ": no model can be read"
  | noCriteria => "E_CLI_INPUT: no criteria given"
  | criteria reason => "E_CLI_INPUT: criteria is not JSON: " ++ reason
  | input => "E_CLI_IO: stream did not contain valid UTF-8"

end CommandError

/-- What the command line can read: files by their paths, and the input. -/
structure Surroundings where
  file : String → Option String
  input : Option String

namespace Explain

variable {σ : Type}

/-- The model in a file. -/
def readModel (path : String) (text : Option String) : Except CommandError Model :=
  match text.bind fun t => (Raw.read t.toList).toOption.bind Model.ofRaw? with
  | some m => .ok m
  | none => .error (.model path)

/-- The criteria in a text that is not blank. -/
def readCriteria (text : Option String) : Except CommandError Value :=
  match text with
  | none => .error .input
  | some t =>
    if (Text.trim t.toList).isEmpty then .error .noCriteria
    else
      match Value.read t.toList with
      | .ok v => .ok v
      | .error fault => .error (.criteria (fault.message t.toList))

/-- A plan as it is shown. -/
def present (p : Plan) : PlanFormat → String
  | .json =>
    (Value.object [
      ("status", .string (if p.isAccepted then "ok" else "rejected")),
      ("plan", p.toJson)]).text ++ "\n"
  | .text => p.text

/-- What the command prints. -/
def run (e : Explain) (s : Surroundings) : Action σ CommandError String := do
  let config ←
    match e.config with
    | some path => (Config.load path (s.file path)).adapt CommandError.config
    | none => pure Config.default
  let model ← Action.ofExcept id (readModel e.model (s.file e.model))
  let criteria ← Action.ofExcept id (readCriteria (e.criteria <|> s.input))
  return present (Plan.build ⟨config.space, model, config.maxQueryLimit⟩ criteria) e.format

end Explain

end Quarry
