import Quarry.Model
import Quarry.Session

/-!
# Registered models

The models that an engine knows, at most one of each kind.
-/

namespace Quarry

inductive RegistryError where
  | duplicate (kind : String)
  | unknown (kind : String)
  deriving DecidableEq

namespace RegistryError

def code : RegistryError → String
  | duplicate _ => "E_DUPLICATE_MODEL"
  | unknown _ => "E_UNKNOWN_MODEL"

def message : RegistryError → String
  | duplicate kind => "Model already registered: " ++ kind
  | unknown kind => "Unknown model: " ++ kind

end RegistryError

structure Registry where
  models : List Model
  deriving DecidableEq

namespace Registry

variable {σ ε : Type}

def empty : Registry := ⟨[]⟩

def find? (r : Registry) (kind : String) : Option Model := r.models.find? fun m => m.kind == kind

def get (r : Registry) (kind : String) : Except RegistryError Model :=
  match r.find? kind with
  | some m => .ok m
  | none => .error (.unknown kind)

def contains (r : Registry) (kind : String) : Bool := (r.find? kind).isSome

def size (r : Registry) : Nat := r.models.length

def remove (r : Registry) (kind : String) : Registry := ⟨r.models.filter fun m => m.kind != kind⟩

/-- Registers a model of a kind that is not there yet. -/
def register (r : Registry) (m : Model) : Action σ RegistryError Registry := do
  if r.contains m.kind then throw (.duplicate m.kind)
  Action.report .info .modelRegistered [
    ("kind", m.kind),
    ("primary_key", m.primaryKeyColumn),
    ("unique", toString m.unique.length)]
  return ⟨r.models ++ [m]⟩

/-- Takes a model out. -/
def tearDown (r : Registry) (kind : String) : Action σ RegistryError (Model × Registry) := do
  let m ← Action.ofExcept id (r.get kind)
  Action.report .info .modelTornDown [("kind", kind)]
  return (m, r.remove kind)

/-- Takes every model out, in the order of the kinds. -/
def tearDownAll (r : Registry) : Action σ ε Registry := do
  let kinds := (r.models.map Model.kind).mergeSort fun a b => (compare a b).isLE
  kinds.forM fun kind => Action.report .info .modelTornDown [("kind", kind)]
  return empty

end Registry

end Quarry
