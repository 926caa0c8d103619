import Quarry.Json.Double

/-!
# The fewest digits of a double

The text of a double has the fewest digits that read back to it, and among texts of that length the
nearest to its value. The reals that round to a double form an interval around it, its ends
included when the significand is even. For one digit, two digits, and so on, the two neighbours of
the value on the decimal grid of that precision are tried against the interval.
-/

namespace Quarry.Json

/-- A decimal, `digits * 10 ^ exponent`. -/
structure Decimal where
  digits : Nat
  exponent : Int
  deriving DecidableEq

namespace Decimal

/-- Compares `a * 10 ^ e` with `n / 2 ^ 1076`. -/
def compareUnits (a : Nat) (e : Int) (n : Nat) : Ordering :=
  compare (a * Nat.pow 10 e.toNat * (4 * Double.one)) (n * Nat.pow 10 (-e).toNat)

/-- The decimal lies among the reals that round to the double. -/
def readsBack (d : Double) (x : Decimal) : Bool :=
  let gap := Nat.pow 2 d.scale
  let center := 4 * d.magnitude
  let below := if d.significand = Nat.pow 2 52 ∧ 0 < d.scale then gap else 2 * gap
  let low := compareUnits x.digits x.exponent (center - below)
  let high := compareUnits x.digits x.exponent (center + 2 * gap)
  let closed := d.significand % 2 = 0
  (low == .gt || (closed && low == .eq)) && (high == .lt || (closed && high == .eq))

/-- The power of ten of the leading digit of a double that is not zero. -/
def leadingExponent (d : Double) : Int :=
  ((Nat.toDigits 10 (d.magnitude * Nat.pow 10 400 / Double.one)).length : Int) - 401

/-- The two neighbours of the magnitude on the grid of this power of ten, if the double reads back
from them; the nearer one if it does from both. -/
def onGrid? (d : Double) (exponent : Int) : Option Decimal :=
  let num := d.magnitude * Nat.pow 10 (-exponent).toNat
  let den := Double.one * Nat.pow 10 exponent.toNat
  let floor : Decimal := ⟨num / den, exponent⟩
  let ceil : Decimal := ⟨num / den + 1, exponent⟩
  if readsBack d floor then
    if readsBack d ceil then some ⟨roundHalfEven num den, exponent⟩ else some floor
  else if readsBack d ceil then some ceil
  else none

/-- Moves trailing zeros of the digits into the exponent. -/
def strip : Nat → Decimal → Decimal
  | 0, x => x
  | n + 1, x =>
    if x.digits ≠ 0 ∧ x.digits % 10 = 0 then strip n ⟨x.digits / 10, x.exponent + 1⟩ else x

/-- The magnitude itself: every double is a whole multiple of `10 ^ -1074`. -/
def exact (d : Double) : Decimal := ⟨d.magnitude * Nat.pow 5 1074, -1074⟩

/-- The decimal of fewest digits that reads back to the double, the nearest of those. -/
def shortest (d : Double) : Decimal :=
  let leading := leadingExponent d
  let found := (List.range 17).findSome? fun (n : Nat) => onGrid? d (leading - (n : Int))
  strip 20 (found.getD (exact d))

end Decimal

/-- How the digits of a double are laid out. -/
structure NumberLayout where
  /-- least exponent of the leading digit that is written without a power of ten -/
  plainFrom : Int
  /-- greatest exponent of the leading digit that is written without a power of ten -/
  plainTo : Int

namespace NumberLayout

/-- The decimal in plain notation, with at least one digit on either side of the point. -/
def plain (digits : List Char) (leading : Int) : List Char :=
  if leading < 0 then
    ['0', '.'] ++ List.replicate ((-leading).toNat - 1) '0' ++ digits
  else
    let whole := leading.toNat + 1
    let padded := digits ++ List.replicate (whole + 1 - digits.length) '0'
    padded.take whole ++ '.' :: padded.drop whole

/-- The decimal with one digit before the point and a signed power of ten; no point behind a
single digit. -/
def scientific (digits : List Char) (leading : Int) : List Char :=
  let mantissa :=
    match digits with
    | first :: second :: rest => first :: '.' :: second :: rest
    | short => short
  mantissa ++ 'e' :: (if leading < 0 then '-' else '+') :: Nat.toDigits 10 leading.natAbs

/-- The text of a double. The zeros differ by their sign. -/
def render (layout : NumberLayout) (d : Double) : List Char :=
  let sign := if d.negative then ['-'] else []
  if d.significand = 0 then sign ++ ['0', '.', '0']
  else
    let x := Decimal.shortest d
    let digits := Nat.toDigits 10 x.digits
    let leading := x.exponent + digits.length - 1
    sign ++
      if layout.plainFrom ≤ leading ∧ leading ≤ layout.plainTo then plain digits leading
      else scientific digits leading

end NumberLayout

end Quarry.Json
