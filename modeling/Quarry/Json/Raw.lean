import Quarry.Json.Literal
import Quarry.Json.Value

/-!
# JSON as written

The tree of a JSON text before it is given a meaning: numbers as digits, members as often as they
occur, strings without a text if they hold an unpaired surrogate or octets that are no text, any
depth. Reading a value from it (`Raw.toValue?`) asks for strings with a text, numbers in range and a
bounded depth, and lets the last member of a name win in the place of the first. Whoever skips a
part of a text asks for none of this.
-/

namespace Quarry.Json

/-- The tree of a JSON text. A string is `none` if it has no text. -/
inductive Raw where
  | null
  | bool (b : Bool)
  | number (literal : Literal)
  | string (text : Option String)
  | array (items : List Raw)
  | object (members : List (Option String × Raw))
  deriving Inhabited

/-- Puts a member into an object: over the value of that name, or at the end. -/
def putMember {α : Type} (name : String) (v : α) : List (String × α) → List (String × α)
  | [] => [(name, v)]
  | (n, w) :: rest => if n = name then (n, v) :: rest else (n, w) :: putMember name v rest

namespace Raw

/-- Arrays and objects may nest this deep in a text that is read as a value. -/
def maxDepth : Nat := 127

mutual

/-- The value of a tree whose arrays and objects nest no deeper than `depth`. -/
def toValue? (depth : Nat) : Raw → Option Value
  | null => some .null
  | bool b => some (.bool b)
  | number l => l.toNumber?.map .number
  | string s => s.map .string
  | array items => if depth = 0 then none else (itemsToValue? (depth - 1) items).map .array
  | object members =>
    if depth = 0 then none
    else (membersToValue? (depth - 1) members).map fun ms =>
      .object (ms.foldl (fun acc m => putMember m.1 m.2 acc) [])

def itemsToValue? (depth : Nat) : List Raw → Option (List Value)
  | [] => some []
  | r :: rest => do
    let v ← r.toValue? depth
    let vs ← itemsToValue? depth rest
    return v :: vs

def membersToValue? (depth : Nat) : List (Option String × Raw) → Option (List (String × Value))
  | [] => some []
  | (name, r) :: rest => do
    let n ← name
    let v ← r.toValue? depth
    let vs ← membersToValue? depth rest
    return (n, v) :: vs

end

/-- The literal that is written for an integer. -/
def ofInt (n : Int) : Raw :=
  number ⟨decide (n < 0), Nat.toDigits 10 n.natAbs, none, none⟩

mutual

/-- The tree of a value's own text. Doubles, which no shape asks for, stand as a fraction. -/
def ofValue : Value → Raw
  | .null => null
  | .bool b => bool b
  | .number (.integer n _) => ofInt n
  | .number (.double d) => number ⟨d.negative, ['0'], some ['0'], none⟩
  | .string s => string (some s)
  | .array items => array (ofItems items)
  | .object members => object (ofMembers members)

def ofItems : List Value → List Raw
  | [] => []
  | v :: rest => ofValue v :: ofItems rest

def ofMembers : List (String × Value) → List (Option String × Raw)
  | [] => []
  | (name, v) :: rest => (some name, ofValue v) :: ofMembers rest

end

end Raw

end Quarry.Json
