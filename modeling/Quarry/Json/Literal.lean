import Quarry.Json.Number

/-!
# Number literals

A literal is kept as its digits until its value is asked for. Without a fraction and an exponent it
is an integer, if one of the 64-bit ranges holds it. Otherwise it is a double: its digits are read
as a 64-bit natural, as many of them as fit, which is rounded once to a double and then scaled by a
power of ten. The digits that do not fit count as zeros before the point and are dropped behind it.
-/

namespace Quarry.Json

/-- The digits of a number literal. -/
structure Literal where
  negative : Bool
  whole : List Char
  fraction : Option (List Char)
  /-- whether the exponent is negative, and its digits -/
  exponent : Option (Bool × List Char)
  deriving DecidableEq

namespace Literal

def digitValue (c : Char) : Nat := c.toNat - 48

/-- The value of a run of digits. -/
def natValue (digits : List Char) : Nat :=
  digits.foldl (fun n c => n * 10 + digitValue c) 0

/-- Takes in digits as long as the natural stays below `2 ^ 64`. The rest are given back. -/
def absorb (acc : Nat) : List Char → Nat × List Char
  | [] => (acc, [])
  | c :: rest =>
    if acc * 10 + digitValue c < Nat.pow 2 64 then absorb (acc * 10 + digitValue c) rest
    else (acc, c :: rest)

/-- The literal's value as a double. None if it is too large. -/
def toDouble? (l : Literal) : Option Double :=
  let (whole, beyond) := absorb 0 l.whole
  let fraction := l.fraction.getD []
  let (significand, dropped) := absorb whole fraction
  let places : Int := (fraction.length : Int) - dropped.length
  let written : Int :=
    match l.exponent with
    | none => 0
    | some (negative, digits) => if negative then -(natValue digits : Int) else natValue digits
  (Double.nearest? l.negative significand 1).bind fun d =>
    d.scaleByTen? (beyond.length - places + written)

/-- The literal's value. None if it is too large for a finite double. -/
def toNumber? (l : Literal) : Option Number :=
  match l.fraction, l.exponent with
  | none, none =>
    let n := natValue l.whole
    if l.negative then
      if n = 0 then some (.double (Double.zero true))
      else (Number.ofInt? (-(n : Int))).or (l.toDouble?.map .double)
    else (Number.ofInt? n).or (l.toDouble?.map .double)
  | _, _ => l.toDouble?.map .double

end Literal

end Quarry.Json
