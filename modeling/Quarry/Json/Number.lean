import Quarry.Json.Double

/-!
# Numbers

A number is an integer of the signed or unsigned 64-bit range, or a finite double. The two kinds
never equal each other. They are compared by size in two ways: `compareExact` looks at integers as
such when both are signed, and `compareRounded` always rounds an integer to the nearest double
first.
-/

namespace Quarry.Json

/-- An integer of the 64-bit ranges, or a finite double. -/
inductive Number where
  | integer (value : Int) (fits : -9223372036854775808 ≤ value ∧ value < 18446744073709551616)
  | double (value : Double)
  deriving DecidableEq

namespace Number

/-- The integer as a number, if it fits 64 bits. -/
def ofInt? (n : Int) : Option Number :=
  if h : -9223372036854775808 ≤ n ∧ n < 18446744073709551616 then some (integer n h) else none

/-- The natural as a number, reduced to 64 bits. -/
def ofNat (n : Nat) : Number :=
  integer ((n % 18446744073709551616 : Nat) : Int) (by omega)

def ofInt64 (n : Int64) : Number :=
  integer n.toInt ⟨Int64.le_toInt n, Int.lt_trans (Int64.toInt_lt n) (by decide)⟩

/-- The value of a non-negative integer. -/
def toNat? : Number → Option Nat
  | integer n _ => if 0 ≤ n then some n.toNat else none
  | double _ => none

/-- The value of an integer of the signed 64-bit range. -/
def toInt64? : Number → Option Int64
  | integer n _ => if n < 9223372036854775808 then some (Int64.ofInt n) else none
  | double _ => none

/-- Equality: integers by value, doubles by value with both zeros equal, never across. -/
def same : Number → Number → Bool
  | integer a _, integer b _ => a == b
  | double a, double b => a.units == b.units
  | _, _ => false

/-- A natural rounded to 53 significant binary digits, a half going to the even neighbour. -/
def roundTo53 (n : Nat) : Nat :=
  if n < Nat.pow 2 53 then n
  else
    let scale := Nat.log2 n - 52
    roundHalfEven n (Nat.pow 2 scale) * Nat.pow 2 scale

/-- The value as a double, in units of `2 ^ -1074`. -/
def rounded : Number → Int
  | integer n _ =>
    let magnitude := (roundTo53 n.natAbs * Double.one : Nat)
    if n < 0 then -(magnitude : Int) else (magnitude : Int)
  | double d => d.units

/-- Order by size, after rounding to doubles. -/
def compareRounded (a b : Number) : Ordering := compare a.rounded b.rounded

/-- Order by size: exact between signed 64-bit integers, rounded otherwise. -/
def compareExact (a b : Number) : Ordering :=
  match a.toInt64?, b.toInt64? with
  | some x, some y => compare x y
  | _, _ => compareRounded a b

end Number

end Quarry.Json
