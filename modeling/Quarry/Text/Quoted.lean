import Quarry.Text.Glyph

/-!
# Quoted names

A name inside a key's text stands between double quotes. The quote, the backslash and five controls
have an escape of two characters; a character that does not show is written by its code point; all
others stand for themselves, the single quote among them.
-/

namespace Quarry.Text.Quoted

/-- The letter behind the backslash, for the characters that have one. -/
def letter? : Char → Option Char
  | '\x00' => some '0'
  | '\t' => some 't'
  | '\n' => some 'n'
  | '\r' => some 'r'
  | '"' => some '"'
  | '\\' => some '\\'
  | _ => none

/-- A code point in braces, in lower-case digits without leading zeros. -/
def codePoint (c : Char) : List Char :=
  ['\\', 'u', '\x7b'] ++ Nat.toDigits 16 c.toNat ++ ['\x7d']

def encodeChar (c : Char) : List Char :=
  match letter? c with
  | some l => ['\\', l]
  | none => if isAttaching c || isHidden c then codePoint c else [c]

/-- The quoted form of a name. -/
def encode (name : String) : String :=
  String.ofList ('"' :: name.toList.flatMap encodeChar ++ ['"'])

end Quarry.Text.Quoted
