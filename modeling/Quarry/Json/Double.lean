/-!
# Finite binary64 numbers

A finite double is a sign and a magnitude `significand * 2 ^ scale`, counted in units of
`2 ^ -1074`, the least positive double. Every finite double is a whole number of these units, so
comparing doubles is comparing integers, and arithmetic is exact arithmetic rounded once. Zero has
two signs, which compare equal.
-/

namespace Quarry.Json

/-- The nearest natural to `num / den`; a half goes to the even neighbour. -/
def roundHalfEven (num den : Nat) : Nat :=
  let q := num / den
  let r := num % den
  if 2 * r < den then q
  else if den < 2 * r then q + 1
  else if q % 2 = 0 then q else q + 1

/-- A finite double. The pair of `significand` and `scale` is the one with the least scale. -/
structure Double where
  negative : Bool
  significand : Nat
  scale : Nat
  significand_lt : significand < Nat.pow 2 53
  scale_le : scale ≤ 2045
  canonical : scale = 0 ∨ Nat.pow 2 52 ≤ significand
  deriving DecidableEq

namespace Double

/-- How many units of `2 ^ -1074` make one. -/
def one : Nat := Nat.pow 2 1074

/-- Distance from zero, in units of `2 ^ -1074`. -/
def magnitude (d : Double) : Nat := d.significand * Nat.pow 2 d.scale

/-- The value, in units of `2 ^ -1074`. -/
def units (d : Double) : Int :=
  if d.negative then -(d.magnitude : Int) else (d.magnitude : Int)

/-- The double with these parts, if they are in range. -/
def ofParts? (negative : Bool) (significand scale : Nat) : Option Double :=
  if h : significand < Nat.pow 2 53 ∧ scale ≤ 2045 ∧
      (scale = 0 ∨ Nat.pow 2 52 ≤ significand) then
    some ⟨negative, significand, scale, h.1, h.2.1, h.2.2⟩
  else none

def zero (negative : Bool) : Double := ⟨negative, 0, 0, by decide, by decide, .inl rfl⟩

/-- The double nearest to `num / den`, a tie going to the even significand. None if the value is
too large for a finite double. -/
def nearest? (negative : Bool) (num den : Nat) : Option Double :=
  let whole := num * one / den
  let scale := if whole < Nat.pow 2 53 then 0 else Nat.log2 whole - 52
  let significand := roundHalfEven (num * one) (den * Nat.pow 2 scale)
  if significand = Nat.pow 2 53 then ofParts? negative (Nat.pow 2 52) (scale + 1)
  else ofParts? negative significand scale

/-- Product, rounded once. -/
def mul? (a b : Double) : Option Double :=
  nearest? (a.negative != b.negative) (a.magnitude * b.magnitude) (one * one)

/-- Quotient, rounded once. The divisor is not zero. -/
def div? (a b : Double) : Option Double :=
  nearest? (a.negative != b.negative) a.magnitude b.magnitude

/-- The double nearest to a power of ten. -/
def powerOfTen? (n : Nat) : Option Double := nearest? false (Nat.pow 10 n) 1

/-- Quotient by a power of ten, the nearest double of that power standing for it. -/
def divByTen? (d : Double) (n : Nat) : Option Double := (powerOfTen? n).bind d.div?

/-- Divides by the largest power of ten, so many times, rounding each time. -/
def shrink? : Nat → Double → Option Double
  | 0, d => some d
  | n + 1, d => if d.significand = 0 then some d else (d.divByTen? 308).bind (shrink? n)

/-- Multiplies by ten to a power: one product or one quotient by the nearest double of that power,
after as many quotients by `10 ^ 308` as bring the power within reach. None on overflow. -/
def scaleByTen? (d : Double) (exponent : Int) : Option Double :=
  if d.significand = 0 then some d
  else if 308 < exponent then none
  else if 0 ≤ exponent then (powerOfTen? exponent.toNat).bind d.mul?
  else
    let places := (-exponent).toNat
    let steps := (places - 1) / 308
    (d.shrink? steps).bind fun smaller => smaller.divByTen? (places - 308 * steps)

end Double

end Quarry.Json
