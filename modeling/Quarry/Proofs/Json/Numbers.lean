import Quarry.Json.Printer
import Quarry.Json.Reader

/-!
# Integers survive their text

The decimal digits of an integer are read back as a literal whose value is that integer, as long as
no digit, point or exponent follows them.
-/

namespace Quarry.Json

open Reader

/-! ## Decimal digits -/

theorem isDigit_of_mem_toDigits {n : Nat} {c : Char} (h : c ∈ Nat.toDigits 10 n) :
    isDigit c = true := by
  have hc := Nat.isDigit_of_mem_toDigits (by decide) (Nat.le_refl 10) h
  simpa [isDigit, Char.isDigit, Char.le_def] using hc

/-- Only zero has a leading zero. -/
theorem head?_toDigits {n : Nat} (h : 0 < n) : (Nat.toDigits 10 n).head? ≠ some '0' := by
  induction n using Nat.strongRecOn with
  | ind n ih =>
      by_cases hn : n < 10
      · rw [Nat.toDigits_of_lt_base hn, List.head?_cons]
        intro hd
        have := Nat.digitChar_eq_zero.mp (Option.some.inj hd)
        omega
      · have hquot : 0 < n / 10 := by omega
        have hih := ih (n / 10) (by omega) hquot
        rw [Nat.toDigits_of_base_le (by decide) (by omega)]
        cases hd : Nat.toDigits 10 (n / 10) with
        | nil => exact absurd hd Nat.toDigits_ne_nil
        | cons c cs =>
            rw [hd] at hih
            exact hih

theorem natValue_toDigits (n : Nat) : Literal.natValue (Nat.toDigits 10 n) = n := by
  have hfold : ∀ (cs : List Char) (acc : Nat),
      cs.foldl (fun n c => n * 10 + Literal.digitValue c) acc = Nat.ofDigitChars 10 cs acc := by
    intro cs
    induction cs with
    | nil =>
        intro acc
        simp
    | cons c cs ih =>
        intro acc
        rw [List.foldl_cons, ih, Nat.ofDigitChars_cons, Nat.mul_comm acc 10]
        rfl
  rw [Literal.natValue, hfold]
  exact Nat.ofDigitChars_toDigits (by decide) (Nat.le_refl 10)

namespace Reader

/-- No digit, point or exponent comes next. -/
def NumberEnds (rest : List Char) : Prop :=
  ∀ c ∈ rest.head?, isDigit c = false ∧ c ≠ '.' ∧ c ≠ 'e' ∧ c ≠ 'E'

theorem takeWhile_isDigit_of_numberEnds {rest : List Char} (h : NumberEnds rest) :
    rest.takeWhile isDigit = [] := by
  cases rest with
  | nil => rfl
  | cons c rest => rw [List.takeWhile_cons_of_neg (by simp [(h c rfl).1])]

theorem digits_toDigits (n : Nat) {rest : List Char} (h : NumberEnds rest) :
    digits (Nat.toDigits 10 n ++ rest) = .ok (Nat.toDigits 10 n, rest) := by
  have htake : (Nat.toDigits 10 n ++ rest).takeWhile isDigit = Nat.toDigits 10 n := by
    rw [List.takeWhile_append_of_pos fun c hc => isDigit_of_mem_toDigits hc,
      takeWhile_isDigit_of_numberEnds h, List.append_nil]
  have hdrop : (Nat.toDigits 10 n ++ rest).dropWhile isDigit = rest := by
    rw [List.dropWhile_append_of_pos fun c hc => isDigit_of_mem_toDigits hc]
    cases rest with
    | nil => rfl
    | cons c rest => rw [List.dropWhile_cons_of_neg (by simp [(h c rfl).1])]
  rw [digits, htake, hdrop]
  split
  · exact absurd ‹_› Nat.toDigits_ne_nil
  · rfl

theorem exponent_of_numberEnds {rest : List Char} (h : NumberEnds rest) :
    exponent rest = .ok (none, rest) := by
  cases rest with
  | nil => rfl
  | cons c rest =>
      obtain ⟨_, _, he, hE⟩ := h c rfl
      simp [exponent, he, hE]

theorem unsigned_toDigits (negative : Bool) (n : Nat) {rest : List Char} (h : NumberEnds rest) :
    unsigned negative (Nat.toDigits 10 n ++ rest) =
      .ok (⟨negative, Nat.toDigits 10 n, none, none⟩, rest) := by
  have hzero : ∀ c more, Nat.toDigits 10 n ≠ '0' :: c :: more := by
    intro c more hd
    by_cases hn : n = 0
    · subst hn
      cases hd
    · exact head?_toDigits (Nat.pos_of_ne_zero hn) (by rw [hd]; rfl)
  have hpoint : ∀ more, rest ≠ '.' :: more := by
    rintro more rfl
    exact (h '.' rfl).2.1 rfl
  unfold unsigned
  rw [digits_toDigits n h]
  simp only [bind, Except.bind, exponent_of_numberEnds h]
  rfl

end Reader

/-! ## Values of literals -/

/-- The literal of an integer that fits 64 bits has that integer as its value. -/
theorem toNumber?_integer {n : Int}
    (fits : -9223372036854775808 ≤ n ∧ n < 18446744073709551616) :
    (⟨decide (n < 0), Nat.toDigits 10 n.natAbs, none, none⟩ : Literal).toNumber? =
      some (.integer n fits) := by
  have hofInt : Number.ofInt? n = some (.integer n fits) := dif_pos fits
  by_cases hneg : n < 0
  · have habs : -((n.natAbs : Nat) : Int) = n := by omega
    have hzero : n.natAbs ≠ 0 := by omega
    simp only [Literal.toNumber?, natValue_toDigits, decide_eq_true hneg, if_true, if_neg hzero,
      habs, hofInt, Option.some_or]
  · have habs : ((n.natAbs : Nat) : Int) = n := by omega
    simp only [Literal.toNumber?, natValue_toDigits, decide_eq_false hneg, Bool.false_eq_true,
      if_false, habs, hofInt, Option.some_or]

end Quarry.Json
