import Mathlib.Data.List.TakeWhile
import Quarry.Text.Blank

/-!
# Pieces and words

Two things are to be known of splitting. Pieces part at a separator, whatever stands on its two
sides. Words are told by a relation between a list of words and the texts that hold them, with blanks
around and between: every text holds exactly one list of words, and `words` finds it. Trimming
changes no words, and leaves nothing exactly of a text without words.
-/

namespace Quarry.Text

/-! ## Pieces -/

section Pieces

variable {separates : Char → Bool} {c : Char} {s : List Char}

@[simp] theorem splitWhere_nil : splitWhere separates [] = [[]] := rfl

theorem splitWhere_cons_of_separates (h : separates c = true) (s : List Char) :
    splitWhere separates (c :: s) = [] :: splitWhere separates s := by
  rw [splitWhere, if_pos h]

/-- A character that does not separate goes to the first piece. -/
theorem splitWhere_cons_of_not {piece : List Char} {pieces : List (List Char)}
    (h : separates c = false) (hs : splitWhere separates s = piece :: pieces) :
    splitWhere separates (c :: s) = (c :: piece) :: pieces := by
  simp [splitWhere, h, hs]

/-- **Pieces part at a separator.** -/
theorem splitWhere_append (h : separates c = true) (s t : List Char) :
    splitWhere separates (s ++ c :: t) = splitWhere separates s ++ splitWhere separates t := by
  induction s with
  | nil => simp [splitWhere_cons_of_separates h]
  | cons d s ih =>
      cases hd : separates d with
      | true => simp [splitWhere_cons_of_separates hd, ih]
      | false =>
          obtain ⟨piece, pieces, hs⟩ := List.exists_cons_of_ne_nil (splitWhere_ne_nil separates s)
          rw [hs, List.cons_append] at ih
          rw [splitWhere_cons_of_not hd hs, List.cons_append, splitWhere_cons_of_not hd ih,
            List.cons_append]

/-- Without a separator a text is one piece. -/
theorem splitWhere_eq_singleton (h : ∀ c ∈ s, separates c = false) :
    splitWhere separates s = [s] := by
  induction s with
  | nil => rfl
  | cons c s ih =>
      have hs := ih fun d hd => h d (List.mem_cons_of_mem c hd)
      exact splitWhere_cons_of_not (h c List.mem_cons_self) hs

end Pieces

/-! ## Words -/

def AllBlank (s : List Char) : Prop := ∀ c ∈ s, isBlank c = true

instance (s : List Char) : Decidable (AllBlank s) :=
  decidable_of_iff (s.all isBlank = true) List.all_eq_true

def IsWord (w : List Char) : Prop := w ≠ [] ∧ ∀ c ∈ w, isBlank c = false

instance (w : List Char) : Decidable (IsWord w) :=
  decidable_of_iff ((!w.isEmpty && w.all fun c => !isBlank c) = true) (by simp [IsWord])

/-- The text holds the words, with blanks around them and at least one between any two. -/
inductive Spelled : List (List Char) → List Char → Prop where
  | blank {pad : List Char} (hpad : AllBlank pad) : Spelled [] pad
  | word {pad w rest : List Char} {ws : List (List Char)} (hpad : AllBlank pad)
      (hends : ∀ c ∈ rest.head?, isBlank c = true) (hrest : Spelled ws rest) :
      Spelled (w :: ws) (pad ++ w ++ rest)

variable {s t w pad rest : List Char} {ws : List (List Char)} {c : Char}

/-- **Words part at a blank.** Everything else about words follows from this. -/
theorem words_append_blank (h : isBlank c = true) (s t : List Char) :
    words (s ++ c :: t) = words s ++ words t := by
  rw [words, splitWhere_append h, List.filter_append]
  rfl

theorem words_eq_nil_of_allBlank (h : AllBlank pad) : words pad = [] := by
  induction pad with
  | nil => rfl
  | cons c pad ih =>
      have hsplit := words_append_blank (h c List.mem_cons_self) [] pad
      rw [List.nil_append] at hsplit
      rw [hsplit, ih fun d hd => h d (List.mem_cons_of_mem c hd)]
      rfl

theorem words_eq_singleton (h : IsWord w) : words w = [w] := by
  rw [words, splitWhere_eq_singleton h.2]
  simp [h.1]

/-- Blanks ahead of a text change no words. -/
theorem words_allBlank_append (h : AllBlank pad) (s : List Char) :
    words (pad ++ s) = words s := by
  induction pad with
  | nil => rfl
  | cons c pad ih =>
      have hsplit := words_append_blank (h c List.mem_cons_self) [] (pad ++ s)
      rw [List.nil_append] at hsplit
      rw [List.cons_append, hsplit, ih fun d hd => h d (List.mem_cons_of_mem c hd)]
      rfl

/-- A word that ends the text, or that a blank follows, is the first of its words. -/
theorem words_word_append (h : IsWord w) (hends : ∀ c ∈ rest.head?, isBlank c = true) :
    words (w ++ rest) = w :: words rest := by
  cases rest with
  | nil => rw [List.append_nil, words_eq_singleton h]; rfl
  | cons c rest =>
      have hc : isBlank c = true := hends c rfl
      have hrest := words_append_blank hc [] rest
      rw [List.nil_append] at hrest
      rw [words_append_blank hc, words_eq_singleton h, hrest]
      rfl

theorem words_append_allBlank (h : AllBlank pad) (s : List Char) :
    words (s ++ pad) = words s := by
  cases pad with
  | nil => rw [List.append_nil]
  | cons c pad =>
      have hpad : AllBlank pad := fun d hd => h d (List.mem_cons_of_mem c hd)
      rw [words_append_blank (h c List.mem_cons_self), words_eq_nil_of_allBlank hpad,
        List.append_nil]

theorem words_of_spelled (h : Spelled ws s) (hws : ∀ w ∈ ws, IsWord w) : words s = ws := by
  induction h with
  | blank hpad => exact words_eq_nil_of_allBlank hpad
  | word hpad hends hrest ih =>
      obtain ⟨hw, hws⟩ := List.forall_mem_cons.1 hws
      rw [List.append_assoc, words_allBlank_append hpad, words_word_append hw hends, ih hws]

/-- A text is blank, or some word is the first in it. -/
theorem allBlank_or_exists_word (s : List Char) :
    AllBlank s ∨ ∃ pad w rest, s = pad ++ w ++ rest ∧ AllBlank pad ∧ IsWord w ∧
      ∀ c ∈ rest.head?, isBlank c = true := by
  induction s with
  | nil => exact .inl (by simp [AllBlank])
  | cons c s ih =>
      cases hc : isBlank c with
      | true =>
          rcases ih with hblank | ⟨pad, w, rest, rfl, hpad, hword⟩
          · exact .inl (List.forall_mem_cons.2 ⟨hc, hblank⟩)
          · exact .inr ⟨c :: pad, w, rest, rfl, List.forall_mem_cons.2 ⟨hc, hpad⟩, hword⟩
      | false =>
          -- The word goes as far as there is no blank.
          refine .inr ⟨[], c :: s.takeWhile (!isBlank ·), s.dropWhile (!isBlank ·), ?_, ?_, ?_, ?_⟩
          · simp
          · simp [AllBlank]
          · refine ⟨by simp, ?_⟩
            intro d hd
            rcases List.mem_cons.1 hd with rfl | hd
            · exact hc
            · simpa using List.mem_takeWhile_imp hd
          · intro d hd
            have hstop := List.head?_dropWhile_not (!isBlank ·) s
            rw [Option.mem_def.1 hd] at hstop
            simpa using hstop

/-- Every text holds words. -/
theorem exists_spelled (s : List Char) : ∃ ws, Spelled ws s ∧ ∀ w ∈ ws, IsWord w := by
  rcases allBlank_or_exists_word s with hblank | ⟨pad, w, rest, rfl, hpad, hw, hends⟩
  · exact ⟨[], .blank hblank, by simp⟩
  · have hshorter : rest.length < (pad ++ w ++ rest).length := by
      have := List.length_pos_iff.2 hw.1
      simp only [List.length_append]
      omega
    obtain ⟨ws, hspelled, hws⟩ := exists_spelled rest
    exact ⟨w :: ws, .word hpad hends hspelled, List.forall_mem_cons.2 ⟨hw, hws⟩⟩
termination_by s.length

/-- **Words are what a text holds.** -/
theorem words_eq_iff : words s = ws ↔ Spelled ws s ∧ ∀ w ∈ ws, IsWord w := by
  constructor
  · rintro rfl
    obtain ⟨ws, hspelled, hws⟩ := exists_spelled s
    rw [words_of_spelled hspelled hws]
    exact ⟨hspelled, hws⟩
  · rintro ⟨hspelled, hws⟩
    exact words_of_spelled hspelled hws

/-! ## Trimming -/

/-- What is trimmed off is blank. -/
theorem exists_trim (s : List Char) :
    ∃ pad pad', AllBlank pad ∧ AllBlank pad' ∧ s = pad ++ trim s ++ pad' := by
  refine ⟨s.takeWhile isBlank, ((s.dropWhile isBlank).reverse.takeWhile isBlank).reverse, ?_, ?_, ?_⟩
  · intro c hc
    exact List.mem_takeWhile_imp hc
  · intro c hc
    exact List.mem_takeWhile_imp (List.mem_reverse.1 hc)
  · rw [trim, List.append_assoc, ← List.reverse_append, List.takeWhile_append_dropWhile,
      List.reverse_reverse, List.takeWhile_append_dropWhile]

theorem words_trim (s : List Char) : words (trim s) = words s := by
  obtain ⟨pad, pad', hpad, hpad', hs⟩ := exists_trim s
  have hwords : words s = words (pad ++ trim s ++ pad') := congrArg words hs
  rw [hwords, words_append_allBlank hpad', words_allBlank_append hpad]

/-- Nothing is left of a text exactly if it holds no words. -/
theorem trim_eq_nil_iff : trim s = [] ↔ words s = [] := by
  constructor
  · intro h
    rw [← words_trim, h]
    rfl
  · intro h
    cases (words_eq_iff.1 h).1 with
    | blank hpad =>
        have hdrop : s.dropWhile isBlank = [] := List.dropWhile_eq_nil_iff.2 hpad
        rw [trim, hdrop]
        rfl

end Quarry.Text
