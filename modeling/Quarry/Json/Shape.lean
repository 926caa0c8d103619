import Quarry.Json.Reader

/-!
# Records in JSON

A record with named fields is read from an object or from an array. In an object the fields stand in
any order, members of other names are skipped, and a field may not occur twice. An array holds the
fields in their order, and nothing after the last. `Fields` is a record whose fields have been
found. The readers below say what becomes of a field that is missing.
-/

namespace Quarry.Json

namespace Raw

def toBool? : Raw → Option Bool
  | bool b => some b
  | _ => none

def toText? : Raw → Option String
  | string s => s
  | _ => none

/-- An integer below the bound. -/
def toNat? (bound : Nat) : Raw → Option Nat
  | number l => do
    let n ← (← l.toNumber?).toNat?
    if n < bound then some n else none
  | _ => none

def toInt64? : Raw → Option Int64
  | number l => do (← l.toNumber?).toInt64?
  | _ => none

/-- Null, or what `read` makes of anything else. -/
def toOption? {α : Type} (read : Raw → Option α) : Raw → Option (Option α)
  | null => some none
  | r => (read r).map some

def toList? {α : Type} (read : Raw → Option α) : Raw → Option (List α)
  | array items => items.mapM read
  | _ => none

end Raw

/-- The fields found of a record, in the order of their names. -/
structure Fields where
  /-- the record was written as an array -/
  positional : Bool
  values : List (Option Raw)

namespace Fields

/-- The members of one name: none, or the only one. -/
def single? (name : String) (members : List (Option String × Raw)) : Option (Option Raw) :=
  match members.filter fun m => m.1 == some name with
  | [] => some none
  | [m] => some (some m.2)
  | _ => none

/-- Finds the fields of these names. -/
def find? (names : List String) : Raw → Option Fields
  | .object members =>
    if members.any fun m => m.1.isNone then none
    else (names.mapM fun name => single? name members).map (⟨false, ·⟩)
  | .array items =>
    if items.length ≤ names.length then
      some ⟨true, items.map some ++ List.replicate (names.length - items.length) none⟩
    else none
  | _ => none

def get (f : Fields) (i : Nat) : Option Raw := (f.values[i]?).join

/-- A field that must be there. -/
def required {α : Type} (f : Fields) (i : Nat) (read : Raw → Option α) : Option α :=
  (f.get i).bind read

/-- A field that may be left out anywhere. -/
def withDefault {α : Type} (f : Fields) (i : Nat) (default : α) (read : Raw → Option α) :
    Option α :=
  match f.get i with
  | none => some default
  | some r => read r

/-- A field that may be null, and may be left out of an object. -/
def nullable {α : Type} (f : Fields) (i : Nat) (read : Raw → Option α) : Option (Option α) :=
  match f.get i with
  | none => if f.positional then none else some none
  | some r => r.toOption? read

end Fields

end Quarry.Json
