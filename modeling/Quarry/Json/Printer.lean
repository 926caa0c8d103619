import Quarry.Json.Shortest
import Quarry.Json.Value

/-!
# Compact JSON text

Values are written without blanks, members in their order. Strings escape the quote, the backslash
and the controls below the space, and nothing else.
-/

namespace Quarry.Json

/-- Doubles are written plainly from `0.00001` up to sixteen digits before the point, and with a
power of ten otherwise. -/
def numberLayout : NumberLayout := ⟨-5, 15⟩

/-- The decimal digits of an integer. -/
def integerText (n : Int) : List Char :=
  if n < 0 then '-' :: Nat.toDigits 10 n.natAbs else Nat.toDigits 10 n.natAbs

def Number.render : Number → List Char
  | .integer n _ => integerText n
  | .double d => numberLayout.render d

/-- The letter behind the backslash, for the characters that have a short escape. -/
def escapeLetter? : Char → Option Char
  | '"' => some '"'
  | '\\' => some '\\'
  | '\x08' => some 'b'
  | '\x0c' => some 'f'
  | '\n' => some 'n'
  | '\r' => some 'r'
  | '\t' => some 't'
  | _ => none

def escapeChar (c : Char) : List Char :=
  match escapeLetter? c with
  | some l => ['\\', l]
  | none =>
    if c.toNat < 0x20 then
      ['\\', 'u', '0', '0', Nat.digitChar (c.toNat / 16), Nat.digitChar (c.toNat % 16)]
    else [c]

/-- A string in quotes. -/
def stringText (s : String) : List Char :=
  '"' :: s.toList.flatMap escapeChar ++ ['"']

namespace Value

mutual

/-- The compact text of a value. -/
def render : Value → List Char
  | null => ['n', 'u', 'l', 'l']
  | bool true => ['t', 'r', 'u', 'e']
  | bool false => ['f', 'a', 'l', 's', 'e']
  | number n => n.render
  | string s => stringText s
  | array items => '[' :: renderItems items
  | object members => '\x7b' :: renderMembers members

/-- The items with their separators, up to the closing bracket. -/
def renderItems : List Value → List Char
  | [] => [']']
  | [v] => v.render ++ [']']
  | v :: w :: rest => v.render ++ ',' :: renderItems (w :: rest)

/-- The members with their separators, up to the closing brace. -/
def renderMembers : List (String × Value) → List Char
  | [] => ['\x7d']
  | [(name, v)] => stringText name ++ ':' :: v.render ++ ['\x7d']
  | (name, v) :: m :: rest => stringText name ++ ':' :: v.render ++ ',' :: renderMembers (m :: rest)

end

/-- The compact text of a value. -/
def text (v : Value) : String := String.ofList v.render

end Value

end Quarry.Json
