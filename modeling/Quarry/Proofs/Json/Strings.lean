import Quarry.Json.Printer
import Quarry.Json.Reader

/-!
# Strings survive their text

A printed string is read back: its characters come as pieces, the controls without a short escape as
units, and the pieces are put together to the string. No control is printed as it is.
-/

namespace Quarry.Json

theorem escapeLetter?_eq_some {c l : Char} (h : escapeLetter? c = some l) :
    l ≠ 'u' ∧ Reader.escaped? l = some c := by
  unfold escapeLetter? at h
  split at h <;> cases h <;> decide

theorem ne_of_escapeLetter?_eq_none {c : Char} (h : escapeLetter? c = none) :
    c ≠ '"' ∧ c ≠ '\\' := by
  constructor
  · rintro rfl
    cases h
  · rintro rfl
    cases h

namespace Reader

/-- The piece as which a printed character is read. -/
def pieceOf (c : Char) : Piece :=
  if (escapeLetter? c).isNone ∧ c.toNat < 0x20 then .unit c.toNat else .char c

/-! ## Reading the pieces -/

theorem pieces_quote (rest : List Char) : pieces ('"' :: rest) = .ok ([], rest) := by
  rw [pieces]

theorem pieces_escape {l c : Char} (hu : l ≠ 'u') (h : escaped? l = some c) (rest : List Char) :
    pieces ('\\' :: l :: rest) = onPieces (.char c) (pieces rest) := by
  rw [pieces]
  · rw [h]
  · intro a b d e more hl
    exact absurd hl hu

theorem pieces_unit {a b c d : Char} {n : Nat} (h : hexUnit? a b c d = some n)
    (rest : List Char) :
    pieces ('\\' :: 'u' :: a :: b :: c :: d :: rest) = onPieces (.unit n) (pieces rest) := by
  rw [pieces, h]

theorem pieces_plain {c : Char} (hq : c ≠ '"') (hb : c ≠ '\\') (hc : ¬ c.toNat < 0x20)
    (rest : List Char) : pieces (c :: rest) = onPieces (.char c) (pieces rest) := by
  rw [pieces, if_neg hb, if_neg hc]
  · intro h
    exact absurd h hq
  · intro a b d e more h
    exact absurd h hb
  · intro d more h
    exact absurd h hb

/-- **One character.** A printed character is read as its piece, whatever follows it. -/
theorem pieces_escapeChar (c : Char) (rest : List Char) :
    pieces (escapeChar c ++ rest) = onPieces (pieceOf c) (pieces rest) := by
  cases hl : escapeLetter? c with
  | some l =>
      obtain ⟨hu, he⟩ := escapeLetter?_eq_some hl
      have htext : escapeChar c = ['\\', l] := by simp [escapeChar, hl]
      have hpiece : pieceOf c = .char c := by simp [pieceOf, hl]
      rw [htext, hpiece]
      exact pieces_escape hu he rest
  | none =>
      obtain ⟨hq, hb⟩ := ne_of_escapeLetter?_eq_none hl
      by_cases hc : c.toNat < 0x20
      · have hunit : ∀ n < 0x20, hexUnit? '0' '0' (Nat.digitChar (n / 16))
            (Nat.digitChar (n % 16)) = some n := by decide
        have hpiece : pieceOf c = .unit c.toNat := by simp [pieceOf, hl, hc]
        rw [escapeChar, hl, hpiece]
        simp only [if_pos hc]
        exact pieces_unit (hunit c.toNat hc) rest
      · have htext : escapeChar c = [c] := by simp [escapeChar, hl, hc]
        have hpiece : pieceOf c = .char c := by simp [pieceOf, hc]
        rw [htext, hpiece]
        exact pieces_plain hq hb hc rest

theorem pieces_escaped (cs : List Char) (rest : List Char) :
    pieces (cs.flatMap escapeChar ++ '"' :: rest) = .ok (cs.map pieceOf, rest) := by
  induction cs with
  | nil => exact pieces_quote rest
  | cons c cs ih =>
      rw [List.flatMap_cons, List.append_assoc, pieces_escapeChar, ih]
      rfl

/-! ## Putting them together -/

/-- A unit that is no surrogate stands for itself. -/
theorem assemble?_unit {α : Type} (plain escaped : Char → List α) {n : Nat} (hn : n < 0xD800)
    (ps : List Piece) :
    assemble? plain escaped (.unit n :: ps) =
      (assemble? plain escaped ps).map (escaped (Char.ofNat n) ++ ·) := by
  have hhigh : isHighSurrogate n = false := by
    simp [isHighSurrogate]
    omega
  have hlow : isLowSurrogate n = false := by
    simp [isLowSurrogate]
    omega
  cases ps with
  | nil => simp [assemble?, hhigh, hlow]
  | cons p ps =>
      cases p with
      | char c => simp [assemble?, hhigh, hlow]
      | unit m => simp [assemble?, hhigh, hlow]

theorem ofChars_map_pieceOf (cs : List Char) : ofChars (cs.map pieceOf) = some (String.ofList cs) := by
  have h : assemble? (fun c => [c]) (fun c => [c]) (cs.map pieceOf) = some cs := by
    induction cs with
    | nil => rfl
    | cons c cs ih =>
        rw [List.map_cons, pieceOf]
        split
        · rename_i hc
          rw [assemble?_unit _ _ (by omega), ih, Char.ofNat_toNat]
          rfl
        · rw [assemble?, ih]
          rfl
  rw [ofChars, h]
  rfl

/-- **Round trip.** The text of a string, its opening quote apart, is read as that string. -/
theorem string_stringText (s : String) (rest : List Char) :
    string ofChars (s.toList.flatMap escapeChar ++ '"' :: rest) = .ok (some s, rest) := by
  rw [string, pieces_escaped]
  simp [ofChars_map_pieceOf]

end Reader

/-! ## Controls -/

/-- No character below the space occurs, a line feed least of all. -/
def Printable (text : List Char) : Prop := ∀ c ∈ text, 0x20 ≤ c.toNat

theorem Printable.newline_not_mem {text : List Char} (h : Printable text) : '\n' ∉ text :=
  fun hmem => absurd (h _ hmem) (by decide)

@[simp] theorem printable_nil : Printable [] := List.forall_mem_nil _

@[simp] theorem printable_cons {c : Char} {text : List Char} :
    Printable (c :: text) ↔ 0x20 ≤ c.toNat ∧ Printable text := List.forall_mem_cons

@[simp] theorem printable_append {s t : List Char} :
    Printable (s ++ t) ↔ Printable s ∧ Printable t := List.forall_mem_append

theorem printable_escapeChar (c : Char) : Printable (escapeChar c) := by
  unfold escapeChar
  split
  · rename_i l hl
    have hletter : 0x20 ≤ l.toNat := by
      unfold escapeLetter? at hl
      split at hl <;> cases hl <;> decide
    simp [hletter]
  · split
    · rename_i hc
      have hdigit : ∀ n < 16, 0x20 ≤ (Nat.digitChar n).toNat := by decide
      have hhigh := hdigit (c.toNat / 16) (by omega)
      have hlow := hdigit (c.toNat % 16) (by omega)
      simp [hhigh, hlow]
    · rename_i hc
      simpa using hc

@[simp] theorem printable_stringText (s : String) : Printable (stringText s) := by
  have hchars : Printable (s.toList.flatMap escapeChar) := by
    intro c hc
    obtain ⟨d, _, hd⟩ := List.mem_flatMap.1 hc
    exact printable_escapeChar d c hd
  simp [stringText, hchars]

end Quarry.Json
