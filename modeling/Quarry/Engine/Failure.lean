import Quarry.Engine.Conflict
import Quarry.Engine.Drop
import Quarry.Model.Mapping
import Quarry.Registry

/-!
# Failures of operations

An operation fails with the failure of the part that could not do its work, under that part's code.
-/

namespace Quarry

inductive Failure where
  | registry (e : RegistryError)
  | criteria (e : CriteriaError)
  | execution (e : ExecutionError)
  | check (e : CheckError)
  | unique (e : UniqueError)
  | drop (e : DropError)
  | record (e : RecordError)
  | store (e : StoreError)
  deriving DecidableEq

namespace Failure

def code : Failure → String
  | registry e => e.code
  | criteria e => e.code
  | execution _ => ExecutionError.code
  | check e => e.code
  | unique _ => UniqueError.code
  | drop _ => DropError.code
  | record _ => RecordError.code
  | store e => e.code

def message : Failure → String
  | registry e => e.message
  | criteria e => e.text
  | execution e => e.message
  | check e => e.message
  | unique e => e.message
  | drop e => e.message
  | record e => e.message
  | store e => e.message

end Failure

end Quarry
