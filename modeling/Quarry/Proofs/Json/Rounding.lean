import Quarry.Json.Number

/-!
# Rounding keeps order

Rounding to 53 significant digits may make different integers level, and never turns them around.
Up to `2 ^ 53` it changes nothing. So the sizes by which numbers are compared as doubles rise with
the integers that they stand for.
-/

namespace Quarry.Json

/-! ## Quotients -/

section Quotients

variable {k num num' den : Nat}

theorem div_le_roundHalfEven (num den : Nat) : num / den ≤ roundHalfEven num den := by
  unfold roundHalfEven
  dsimp only
  repeat' split
  all_goals omega

theorem roundHalfEven_le_succ (num den : Nat) : roundHalfEven num den ≤ num / den + 1 := by
  unfold roundHalfEven
  dsimp only
  repeat' split
  all_goals omega

/-- A quotient is not rounded below a whole number that it reaches. -/
theorem le_roundHalfEven (hden : 0 < den) (h : k * den ≤ num) : k ≤ roundHalfEven num den :=
  Nat.le_trans ((Nat.le_div_iff_mul_le hden).2 h) (div_le_roundHalfEven num den)

/-- A quotient is not rounded above a whole number that it does not exceed. -/
theorem roundHalfEven_le (hden : 0 < den) (h : num ≤ k * den) : roundHalfEven num den ≤ k := by
  have hdiv : num / den ≤ k := Nat.div_le_of_le_mul (Nat.mul_comm k den ▸ h)
  by_cases heq : num / den = k
  · -- The quotient is `k` itself, and nothing is left to round.
    have hmod : num % den = 0 := by
      have hsplit := Nat.div_add_mod num den
      rw [heq, Nat.mul_comm den k] at hsplit
      omega
    unfold roundHalfEven
    rw [hmod, if_pos (by omega)]
    exact hdiv
  · have hsucc := roundHalfEven_le_succ num den
    omega

theorem roundHalfEven_mono (h : num ≤ num') : roundHalfEven num den ≤ roundHalfEven num' den := by
  rcases Nat.lt_or_ge (num / den) (num' / den) with hlt | hge
  · exact Nat.le_trans (roundHalfEven_le_succ num den)
      (Nat.le_trans hlt (div_le_roundHalfEven num' den))
  · -- The whole parts are the same, and what is left of the smaller one is not more.
    have hdiv : num / den = num' / den := Nat.le_antisymm (Nat.div_le_div_right h) hge
    have hmod : num % den ≤ num' % den := by
      have hnum := Nat.div_add_mod num den
      have hnum' := Nat.div_add_mod num' den
      rw [hdiv] at hnum
      omega
    unfold roundHalfEven
    dsimp only
    rw [hdiv]
    repeat' split
    all_goals omega

end Quotients

theorem Double.one_pos : 0 < Double.one := by decide +kernel

namespace Number

/-! ## Naturals -/

theorem roundTo53_of_lt {n : Nat} (h : n < Nat.pow 2 53) : roundTo53 n = n := if_pos h

theorem roundTo53_of_le {n : Nat} (h : n ≤ Nat.pow 2 53) : roundTo53 n = n := by
  rcases Nat.lt_or_eq_of_le h with hlt | rfl
  · exact roundTo53_of_lt hlt
  · rfl

theorem log2_of_le {n : Nat} (h : Nat.pow 2 53 ≤ n) :
    53 ≤ Nat.log2 n ∧ Nat.pow 2 (Nat.log2 n) ≤ n ∧ n < Nat.pow 2 (Nat.log2 n + 1) := by
  have hne : n ≠ 0 := by
    intro hzero
    rw [hzero] at h
    exact absurd h (by decide)
  have hhigh : n < Nat.pow 2 (Nat.log2 n + 1) := Nat.lt_log2_self
  refine ⟨(Nat.le_log2 hne).2 h, Nat.log2_self_le hne, hhigh⟩

/-- A natural with more digits is rounded to one between the powers of two around it. -/
theorem roundTo53_bounds {n : Nat} (h : Nat.pow 2 53 ≤ n) :
    Nat.pow 2 (Nat.log2 n) ≤ roundTo53 n ∧ roundTo53 n ≤ Nat.pow 2 (Nat.log2 n + 1) := by
  obtain ⟨hlog, hlow, hhigh⟩ := log2_of_le h
  have hpos : 0 < Nat.pow 2 (Nat.log2 n - 52) := Nat.pow_pos (by decide)
  have hscale : ∀ d, Nat.pow 2 (52 + d) * Nat.pow 2 (Nat.log2 n - 52) =
      Nat.pow 2 (Nat.log2 n + d) := by
    intro d
    have hadd : 52 + d + (Nat.log2 n - 52) = Nat.log2 n + d := by omega
    exact (Nat.pow_add 2 (52 + d) (Nat.log2 n - 52)).symm.trans (congrArg (Nat.pow 2) hadd)
  rw [roundTo53, if_neg (Nat.not_lt.2 h)]
  constructor
  · have hbase : Nat.pow 2 52 * Nat.pow 2 (Nat.log2 n - 52) = Nat.pow 2 (Nat.log2 n) := hscale 0
    rw [← hbase] at hlow ⊢
    exact Nat.mul_le_mul_right _ (le_roundHalfEven hpos hlow)
  · rw [← hscale 1] at hhigh ⊢
    exact Nat.mul_le_mul_right _ (roundHalfEven_le hpos (Nat.le_of_lt hhigh))

theorem roundTo53_mono {a b : Nat} (h : a ≤ b) : roundTo53 a ≤ roundTo53 b := by
  rcases Nat.lt_or_ge b (Nat.pow 2 53) with hb | hb
  · rwa [roundTo53_of_lt hb, roundTo53_of_lt (Nat.lt_of_le_of_lt h hb)]
  obtain ⟨hlogb, _, hbelow⟩ := log2_of_le hb
  obtain ⟨hlow, _⟩ := roundTo53_bounds hb
  rcases Nat.lt_or_ge a (Nat.pow 2 53) with ha | ha
  · rw [roundTo53_of_lt ha]
    have hpow : Nat.pow 2 53 ≤ Nat.pow 2 (Nat.log2 b) := Nat.pow_le_pow_right (by decide) hlogb
    exact Nat.le_trans (Nat.le_of_lt ha) (Nat.le_trans hpow hlow)
  obtain ⟨_, habove, _⟩ := log2_of_le ha
  obtain ⟨_, hhigh⟩ := roundTo53_bounds ha
  -- Either both are rounded to multiples of one power, or a power of two stands between them.
  rcases Nat.lt_or_ge (Nat.log2 a) (Nat.log2 b) with hlt | hge
  · have hpow : Nat.pow 2 (Nat.log2 a + 1) ≤ Nat.pow 2 (Nat.log2 b) :=
      Nat.pow_le_pow_right (by decide) hlt
    exact Nat.le_trans hhigh (Nat.le_trans hpow hlow)
  · have hlog : Nat.log2 a = Nat.log2 b := by
      refine Nat.le_antisymm ?_ hge
      have hpow : Nat.pow 2 (Nat.log2 a) < Nat.pow 2 (Nat.log2 b + 1) :=
        Nat.lt_of_le_of_lt habove (Nat.lt_of_le_of_lt h hbelow)
      exact Nat.le_of_lt_succ ((Nat.pow_lt_pow_iff_right (by decide)).1 hpow)
    rw [roundTo53, if_neg (Nat.not_lt.2 ha), roundTo53, if_neg (Nat.not_lt.2 hb), hlog]
    exact Nat.mul_le_mul_right _ (roundHalfEven_mono h)

/-! ## Integers -/

/-- How many units of the least double an integer has as a double. -/
def unitsOf (n : Int) : Int :=
  let magnitude := (roundTo53 n.natAbs * Double.one : Nat)
  if n < 0 then -(magnitude : Int) else (magnitude : Int)

theorem rounded_integer (n : Int) (fits : -9223372036854775808 ≤ n ∧ n < 18446744073709551616) :
    (integer n fits).rounded = unitsOf n := rfl

theorem unitsOf_mono {a b : Int} (h : a ≤ b) : unitsOf a ≤ unitsOf b := by
  have hunits : ∀ {x y : Nat}, x ≤ y → roundTo53 x * Double.one ≤ roundTo53 y * Double.one :=
    fun hxy => Nat.mul_le_mul_right _ (roundTo53_mono hxy)
  unfold unitsOf
  dsimp only
  split <;> rename_i ha <;> split <;> rename_i hb
  · have := hunits (x := b.natAbs) (y := a.natAbs) (by omega)
    omega
  · omega
  · omega
  · have := hunits (x := a.natAbs) (y := b.natAbs) (by omega)
    omega

/-- Up to `2 ^ 53` an integer is a double. -/
theorem unitsOf_of_le {n : Int} (h : n.natAbs ≤ Nat.pow 2 53) : unitsOf n = n * Double.one := by
  unfold unitsOf
  dsimp only
  rw [roundTo53_of_le h]
  by_cases hneg : n < 0
  · have habs : (n.natAbs : Int) = -n := by omega
    rw [if_pos hneg, Int.natCast_mul, habs, Int.neg_mul, Int.neg_neg]
  · have habs : (n.natAbs : Int) = n := by omega
    rw [if_neg hneg, Int.natCast_mul, habs]

theorem unitsOf_strictMono {a b : Int} (ha : a.natAbs ≤ Nat.pow 2 53)
    (hb : b.natAbs ≤ Nat.pow 2 53) (h : a < b) : unitsOf a < unitsOf b := by
  have hone : (0 : Int) < Double.one := Int.natCast_pos.2 Double.one_pos
  rw [unitsOf_of_le ha, unitsOf_of_le hb]
  exact Int.mul_lt_mul_of_pos_right h hone

end Number

end Quarry.Json
