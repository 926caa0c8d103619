/-!
# Octets as text

The URL-safe base-64 alphabet without padding. Three octets become four symbols; one or two octets
at the end become two or three, whose unused low bits are zero. Decoding is strict: it refuses
padding, symbols outside the alphabet, a single symbol left over, and unused bits that are set.
-/

namespace Quarry.Text.Base64

/-- Why a text is not the text of octets. Offsets count from zero. -/
inductive Fault where
  | badSymbol (offset : Nat) (octet : UInt8)
  | badLength
  | badLastSymbol (offset : Nat) (octet : UInt8)
  | padded
  deriving DecidableEq

def Fault.message : Fault → String
  | .badSymbol offset octet =>
    "Invalid byte " ++ toString octet.toNat ++ ", offset " ++ toString offset ++ "."
  | .badLength => "Encoded text cannot have a 6-bit remainder."
  | .badLastSymbol offset octet =>
    "Invalid last symbol " ++ toString octet.toNat ++ ", offset " ++ toString offset ++ "."
  | .padded => "Invalid padding"

/-- The symbol of six bits. -/
def symbol (n : Nat) : Char :=
  if n < 26 then Char.ofNat (65 + n)
  else if n < 52 then Char.ofNat (71 + n)
  else if n < 62 then Char.ofNat (n - 4)
  else if n = 62 then '-'
  else '_'

/-- The six bits of a symbol's octet. -/
def bits? (octet : UInt8) : Option Nat :=
  let n := octet.toNat
  if 65 ≤ n && n ≤ 90 then some (n - 65)
  else if 97 ≤ n && n ≤ 122 then some (n - 71)
  else if 48 ≤ n && n ≤ 57 then some (n + 4)
  else if n = 45 then some 62
  else if n = 95 then some 63
  else none

/-- The symbols of the octets. -/
def encode : List UInt8 → List Char
  | a :: b :: c :: rest =>
    let n := (a.toNat * 256 + b.toNat) * 256 + c.toNat
    symbol (n / 262144) :: symbol (n / 4096 % 64) :: symbol (n / 64 % 64) :: symbol (n % 64) ::
      encode rest
  | [a, b] =>
    let n := (a.toNat * 256 + b.toNat) * 4
    [symbol (n / 4096), symbol (n / 64 % 64), symbol (n % 64)]
  | [a] =>
    let n := a.toNat * 16
    [symbol (n / 64), symbol (n % 64)]
  | [] => []

/-- The octet of the padding sign. -/
def pad : UInt8 := 61

/-- The fault of a padding sign at this offset, with everything from it on. Signs that fill up the
last group of four are padding. Any other is a symbol outside the alphabet. -/
def padFault (offset : Nat) (tail : List UInt8) : Fault :=
  if offset % 4 ≥ 2 ∧ tail.length + offset % 4 ≤ 4 ∧ tail.all (· == pad) then .padded
  else .badSymbol offset pad

/-- The bits of every symbol, from this offset on. -/
def scan (offset : Nat) : List UInt8 → Except Fault (List Nat)
  | [] => .ok []
  | octet :: rest =>
    if octet = pad then .error (padFault offset (octet :: rest))
    else
      match bits? octet with
      | none => .error (.badSymbol offset octet)
      | some n =>
        match scan (offset + 1) rest with
        | .ok ns => .ok (n :: ns)
        | .error f => .error f

/-- The octets of the symbols. None if the last symbol has bits that no octet uses. -/
def assemble? : List Nat → Option (List UInt8)
  | a :: b :: c :: d :: rest =>
    let n := ((a * 64 + b) * 64 + c) * 64 + d
    (assemble? rest).map
      (UInt8.ofNat (n / 65536) :: UInt8.ofNat (n / 256 % 256) :: UInt8.ofNat (n % 256) :: ·)
  | [a, b, c] =>
    let n := (a * 64 + b) * 64 + c
    if n % 4 = 0 then some [UInt8.ofNat (n / 1024), UInt8.ofNat (n / 4 % 256)] else none
  | [a, b] =>
    let n := a * 64 + b
    if n % 16 = 0 then some [UInt8.ofNat (n / 16)] else none
  | [_] => none
  | [] => some []

/-- The octets that a text, given by its own octets, stands for. -/
def decode (text : List UInt8) : Except Fault (List UInt8) :=
  let last := text.getLast?.getD 0
  if text.length % 4 = 1 then
    if last = pad ∨ (bits? last).isSome then .error .badLength
    else .error (.badSymbol (text.length - 1) last)
  else
    match scan 0 text with
    | .error f => .error f
    | .ok ns =>
      match assemble? ns with
      | some octets => .ok octets
      | none => .error (.badLastSymbol (text.length - 1) last)

end Quarry.Text.Base64
