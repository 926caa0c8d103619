/-!
# Blank characters

Blank is the White_Space property of characters, twenty-five of them. Trimming and splitting into
words go by it. Texts are lists of characters here, so that both are plain recursions.
-/

namespace Quarry.Text

/-- Closed ranges of code points, ascending and apart. -/
abbrev Ranges := List (Nat × Nat)

/-- Some range holds the code point. -/
def Ranges.holds (ranges : Ranges) (n : Nat) : Bool :=
  ranges.any fun r => r.1 ≤ n && n ≤ r.2

/-- The code points with the White_Space property. -/
def blankRanges : Ranges :=
  [(0x09, 0x0D), (0x20, 0x20), (0x85, 0x85), (0xA0, 0xA0), (0x1680, 0x1680), (0x2000, 0x200A),
   (0x2028, 0x2029), (0x202F, 0x202F), (0x205F, 0x205F), (0x3000, 0x3000)]

def isBlank (c : Char) : Bool := blankRanges.holds c.toNat

/-- Drops the blanks at both ends. -/
def trim (s : List Char) : List Char :=
  ((s.dropWhile isBlank).reverse.dropWhile isBlank).reverse

/-- The pieces between the separators, empty ones included. A text without a separator is one
piece. -/
def splitWhere (separates : Char → Bool) : List Char → List (List Char)
  | [] => [[]]
  | c :: rest =>
    if separates c then [] :: splitWhere separates rest
    else
      match splitWhere separates rest with
      | [] => [[c]]
      | piece :: pieces => (c :: piece) :: pieces

/-- The maximal runs of characters that are not blank. -/
def words (s : List Char) : List (List Char) :=
  (splitWhere isBlank s).filter fun piece => !piece.isEmpty

theorem splitWhere_ne_nil (separates : Char → Bool) (s : List Char) :
    splitWhere separates s ≠ [] := by
  cases s with
  | nil => simp [splitWhere]
  | cons c rest =>
    unfold splitWhere
    split
    · simp
    · split <;> simp

end Quarry.Text
