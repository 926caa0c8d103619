import Quarry.Proofs.Json.Rounding
import Quarry.Store.Filter

/-!
# Numbers in ranges

A range filter compares two signed 64-bit integers as such and all other numbers as doubles, and an
equality filter tells numbers apart that are one double. So numbers are in one order up to two
things. Numbers that are one double can be neither less, nor equal, nor greater. And behind such a
number the lesser of two integers can follow the greater one, if they are the same double.
-/

namespace Quarry

open Json

namespace Json.Number

/-! ## Where rounding shows -/

/-- An integer of the signed 64-bit range. -/
def IsSigned : Number → Prop
  | integer n _ => n < 9223372036854775808
  | double _ => False

/-- Both numbers are signed 64-bit integers, or both are doubles. -/
def SameKind : Number → Number → Prop
  | integer a _, integer b _ => a < 9223372036854775808 ∧ b < 9223372036854775808
  | double _, double _ => True
  | _, _ => False

/-- The first is the lesser of two signed 64-bit integers that are one double. -/
def Merges : Number → Number → Prop
  | integer a _, integer b _ => a < b ∧ b < 9223372036854775808 ∧ unitsOf a = unitsOf b
  | _, _ => False

/-- The numbers are one double, but not equal, and they are not both signed 64-bit integers. -/
def Blurred (x y : Number) : Prop :=
  x.rounded = y.rounded ∧ x.same y = false ∧ ¬ (x.IsSigned ∧ y.IsSigned)

variable {x y z : Number}

theorem IsSigned.exists_integer (h : x.IsSigned) :
    ∃ n fits, x = integer n fits ∧ n < 9223372036854775808 := by
  cases x with
  | integer n fits => exact ⟨n, fits, rfl, h⟩
  | double d => exact h.elim

theorem Merges.exists_integers (h : x.Merges y) :
    ∃ a b fa fb, x = integer a fa ∧ y = integer b fb ∧ a < b ∧ b < 9223372036854775808 ∧
      unitsOf a = unitsOf b := by
  cases x with
  | double c => exact h.elim
  | integer a fa =>
      cases y with
      | double d => exact h.elim
      | integer b fb => exact ⟨a, b, fa, fb, rfl, rfl, h⟩

theorem Merges.rounded_eq (h : x.Merges y) : x.rounded = y.rounded := by
  obtain ⟨a, b, fa, fb, rfl, rfl, -, -, hunits⟩ := h.exists_integers
  exact hunits

theorem Merges.isSigned (h : x.Merges y) : x.IsSigned ∧ y.IsSigned := by
  obtain ⟨a, b, fa, fb, rfl, rfl, hlt, hb, -⟩ := h.exists_integers
  exact ⟨Int.lt_trans hlt hb, hb⟩

/-- Numbers of one kind are level only if they are equal. -/
theorem SameKind.not_blurred (h : x.SameKind y) : ¬ x.Blurred y := by
  rintro ⟨hrounded, hsame, hsigned⟩
  cases x with
  | integer a ha =>
      cases y with
      | integer b hb => exact hsigned h
      | double d => exact h
  | double c =>
      cases y with
      | integer b hb => exact h
      | double d =>
          rw [same, beq_eq_false_iff_ne] at hsame
          exact hsame hrounded

/-! ## The comparison of range filters -/

theorem toInt64?_integer {n : Int}
    {fits : -9223372036854775808 ≤ n ∧ n < 18446744073709551616}
    (h : n < 9223372036854775808) : (integer n fits).toInt64? = some (Int64.ofInt n) := if_pos h

theorem compare_ofInt {a b : Int} (ha : -9223372036854775808 ≤ a ∧ a < 9223372036854775808)
    (hb : -9223372036854775808 ≤ b ∧ b < 9223372036854775808) :
    compare (Int64.ofInt a) (Int64.ofInt b) = compare a b := by
  have hta : (Int64.ofInt a).toInt = a := Int64.toInt_ofInt_of_le ha.1 ha.2
  have htb : (Int64.ofInt b).toInt = b := Int64.toInt_ofInt_of_le hb.1 hb.2
  show compareOfLessAndEq (Int64.ofInt a) (Int64.ofInt b) = compareOfLessAndEq a b
  simp only [compareOfLessAndEq, Int64.lt_iff_toInt_lt, ← Int64.toInt_inj, hta, htb]

/-- Signed 64-bit integers are compared as integers. -/
theorem compareExact_integer {a b : Int}
    {fa : -9223372036854775808 ≤ a ∧ a < 18446744073709551616}
    {fb : -9223372036854775808 ≤ b ∧ b < 18446744073709551616}
    (ha : a < 9223372036854775808) (hb : b < 9223372036854775808) :
    (integer a fa).compareExact (integer b fb) = compare a b := by
  rw [compareExact, toInt64?_integer ha, toInt64?_integer hb]
  exact compare_ofInt ⟨fa.1, ha⟩ ⟨fb.1, hb⟩

theorem toInt64?_of_not_isSigned (h : ¬ x.IsSigned) : x.toInt64? = none := by
  cases x with
  | integer n fits => exact if_neg h
  | double d => rfl

/-- All other numbers are compared as doubles. -/
theorem compareExact_of_not_isSigned (h : ¬ (x.IsSigned ∧ y.IsSigned)) :
    x.compareExact y = x.compareRounded y := by
  rw [compareExact]
  rcases Classical.not_and_iff_not_or_not.1 h with h | h
  · rw [toInt64?_of_not_isSigned h]
  · rw [toInt64?_of_not_isSigned h]
    cases x.toInt64? <;> rfl

/-- A number is less than another if it is as a double, or by what is lost between doubles. -/
theorem compareExact_eq_lt_iff :
    x.compareExact y = .lt ↔ x.rounded < y.rounded ∨ x.Merges y := by
  by_cases hsigned : x.IsSigned ∧ y.IsSigned
  · obtain ⟨a, fa, rfl, ha⟩ := hsigned.1.exists_integer
    obtain ⟨b, fb, rfl, hb⟩ := hsigned.2.exists_integer
    rw [compareExact_integer ha hb, Std.compare_eq_lt, rounded_integer, rounded_integer]
    show a < b ↔ unitsOf a < unitsOf b ∨ a < b ∧ b < _ ∧ unitsOf a = unitsOf b
    constructor
    · intro hlt
      rcases Int.lt_or_eq_of_le (unitsOf_mono (Int.le_of_lt hlt)) with hunits | hunits
      · exact .inl hunits
      · exact .inr ⟨hlt, hb, hunits⟩
    · rintro (hunits | ⟨hlt, _⟩)
      · refine Int.not_le.1 fun hle => ?_
        exact Int.not_le.2 hunits (unitsOf_mono hle)
      · exact hlt
  · rw [compareExact_of_not_isSigned hsigned, compareRounded, Std.compare_eq_lt]
    exact ⟨.inl, fun h => h.resolve_right fun hmerges => hsigned hmerges.isSigned⟩

theorem compareExact_swap (x y : Number) : (x.compareExact y).swap = y.compareExact x := by
  by_cases hsigned : x.IsSigned ∧ y.IsSigned
  · obtain ⟨a, fa, rfl, ha⟩ := hsigned.1.exists_integer
    obtain ⟨b, fb, rfl, hb⟩ := hsigned.2.exists_integer
    rw [compareExact_integer ha hb, compareExact_integer hb ha]
    exact Std.OrientedOrd.eq_swap.symm
  · rw [compareExact_of_not_isSigned hsigned,
      compareExact_of_not_isSigned fun h => hsigned h.symm]
    exact Std.OrientedOrd.eq_swap.symm

theorem compareExact_eq_gt_iff :
    x.compareExact y = .gt ↔ y.rounded < x.rounded ∨ y.Merges x := by
  rw [← compareExact_eq_lt_iff, ← compareExact_swap x y, Ordering.swap_eq_lt]

theorem same_comm (x y : Number) : x.same y = y.same x := by
  cases x with
  | integer a fa =>
      cases y with
      | integer b fb => exact Bool.beq_comm
      | double d => rfl
  | double c =>
      cases y with
      | integer b fb => rfl
      | double d => exact Bool.beq_comm

theorem rounded_of_same (h : x.same y = true) : x.rounded = y.rounded := by
  cases x with
  | integer a ha =>
      cases y with
      | integer b hb =>
          obtain rfl : a = b := beq_iff_eq.1 h
          rfl
      | double d => cases h
  | double c =>
      cases y with
      | integer b hb => cases h
      | double d => exact beq_iff_eq.1 h

theorem Merges.not_same (h : x.Merges y) : x.same y = false := by
  obtain ⟨a, b, fa, fb, rfl, rfl, hlt, -, -⟩ := h.exists_integers
  exact beq_eq_false_iff_ne.2 (Int.ne_of_lt hlt)

/-- Signed integers that are one double are equal, or one of them is the lesser. -/
theorem same_or_merges (hx : x.IsSigned) (hy : y.IsSigned) (h : x.rounded = y.rounded) :
    x.same y = true ∨ x.Merges y ∨ y.Merges x := by
  obtain ⟨a, fa, rfl, ha⟩ := hx.exists_integer
  obtain ⟨b, fb, rfl, hb⟩ := hy.exists_integer
  rcases Int.lt_trichotomy a b with hlt | heq | hgt
  · exact .inr (.inl ⟨hlt, hb, h⟩)
  · exact .inl (beq_iff_eq.2 heq)
  · exact .inr (.inr ⟨hgt, ha, h.symm⟩)

/-- Among signed integers that are one double nothing leads back to the greater one. -/
theorem not_merges_of_chain (hy : y.IsSigned) (hxy : x.rounded = y.rounded)
    (hyz : y.rounded = z.rounded) (hyx : ¬ y.Merges x) (hzy : ¬ z.Merges y) : ¬ z.Merges x := by
  intro hzx
  obtain ⟨hz, hx⟩ := hzx.isSigned
  obtain ⟨a, fa, rfl, ha⟩ := hx.exists_integer
  obtain ⟨b, fb, rfl, hb⟩ := hy.exists_integer
  obtain ⟨c, fc, rfl, hc⟩ := hz.exists_integer
  have hab : a ≤ b := Int.not_lt.1 fun hlt => hyx ⟨hlt, ha, hxy.symm⟩
  have hbc : b ≤ c := Int.not_lt.1 fun hlt => hzy ⟨hlt, hb, hyz.symm⟩
  have hca : c < a := hzx.1
  omega

theorem not_same_of_isSigned (hx : x.IsSigned) (hy : ¬ y.IsSigned) : x.same y = false := by
  obtain ⟨a, fa, rfl, ha⟩ := hx.exists_integer
  cases y with
  | double d => rfl
  | integer b fb =>
      rw [same, beq_eq_false_iff_ne]
      rintro rfl
      exact hy ha

/-- Numbers are level if they are equal, or one double and not both integers to compare by. -/
theorem compareExact_eq_eq_iff : x.compareExact y = .eq ↔ x.same y = true ∨ x.Blurred y := by
  have hlt := compareExact_eq_lt_iff (x := x) (y := y)
  have hgt := compareExact_eq_gt_iff (x := x) (y := y)
  constructor
  · intro heq
    rw [heq] at hlt hgt
    have hnlt := mt hlt.2 Ordering.noConfusion
    have hngt := mt hgt.2 Ordering.noConfusion
    rw [not_or] at hnlt hngt
    have hrounded : x.rounded = y.rounded := by omega
    cases hsame : x.same y with
    | true => exact .inl rfl
    | false =>
        refine .inr ⟨hrounded, hsame, ?_⟩
        rintro ⟨hx, hy⟩
        rcases same_or_merges hx hy hrounded with h | h | h
        · rw [hsame] at h
          cases h
        · exact hnlt.2 h
        · exact hngt.2 h
  · intro h
    have hlevel : x.rounded = y.rounded ∧ ¬ x.Merges y ∧ ¬ y.Merges x := by
      rcases h with hsame | ⟨hrounded, _, hsigned⟩
      · refine ⟨rounded_of_same hsame, ?_, ?_⟩
        · intro hmerges
          rw [hmerges.not_same] at hsame
          cases hsame
        · intro hmerges
          rw [same_comm, hmerges.not_same] at hsame
          cases hsame
      · exact ⟨hrounded, fun hm => hsigned hm.isSigned, fun hm => hsigned hm.isSigned.symm⟩
    obtain ⟨hrounded, hxy, hyx⟩ := hlevel
    rcases hcompare : x.compareExact y with _ | _ | _
    · exact absurd (hlt.1 hcompare) (by simp [hrounded, hxy])
    · rfl
    · exact absurd (hgt.1 hcompare) (by simp [hrounded, hyx])

end Json.Number

/-! ## Filters -/

namespace Filter

/-- A property that is the number `x` is in the range that the operator and the bound `y` give. -/
def Meets (x : Number) (op : Comparison) (y : Number) : Prop :=
  accepts (.number x) op (.number y) = true

instance (x : Number) (op : Comparison) (y : Number) : Decidable (Meets x op y) :=
  inferInstanceAs (Decidable (_ = true))

theorem admits_iff_meets {e : Entity} {p : String} {x : Number}
    (h : e.properties.get? p = some (.number x)) (op : Comparison) (y : Number) :
    (Filter.mk p op (.value (.number y))).admits e = true ↔ Meets x op y := by
  rw [admits]
  simp only [h]
  rfl

variable {x y z : Number}

theorem meets_eq : Meets x .eq y ↔ x.same y = true := Iff.rfl

theorem meets_lt : Meets x .lt y ↔ x.compareExact y = .lt := beq_iff_eq

theorem meets_gt : Meets x .gt y ↔ x.compareExact y = .gt := beq_iff_eq

theorem meets_le : Meets x .le y ↔ x.compareExact y ≠ .gt := bne_iff_ne

theorem meets_ge : Meets x .ge y ↔ x.compareExact y ≠ .lt := bne_iff_ne

theorem meets_le_iff : Meets x .le y ↔ Meets x .lt y ∨ Meets x .eq y ∨ x.Blurred y := by
  rw [meets_le, meets_lt, meets_eq, ← Number.compareExact_eq_eq_iff]
  cases x.compareExact y <;> decide

theorem meets_ge_iff : Meets x .ge y ↔ Meets x .gt y ∨ Meets x .eq y ∨ x.Blurred y := by
  rw [meets_ge, meets_gt, meets_eq, ← Number.compareExact_eq_eq_iff]
  cases x.compareExact y <;> decide

/-- A number is less than a bound, equal to it, greater, or blurred with it. -/
theorem meets_or_blurred (x y : Number) :
    Meets x .lt y ∨ Meets x .eq y ∨ Meets x .gt y ∨ x.Blurred y := by
  have hlevel := Number.compareExact_eq_eq_iff (x := x) (y := y)
  rw [meets_lt, meets_eq, meets_gt]
  rcases hcompare : x.compareExact y with _ | _ | _
  · exact .inl rfl
  · exact (hlevel.1 hcompare).elim (fun h => .inr (.inl h)) fun h => .inr (.inr (.inr h))
  · exact .inr (.inr (.inl rfl))

/-- What is level is neither less nor greater. -/
theorem not_meets_of_level (h : x.same y = true ∨ x.Blurred y) :
    ¬ Meets x .lt y ∧ ¬ Meets x .gt y := by
  rw [meets_lt, meets_gt, Number.compareExact_eq_eq_iff.2 h]
  decide

theorem not_meets_eq_of_blurred (h : x.Blurred y) : ¬ Meets x .eq y := by
  rw [meets_eq, h.2.1]
  exact Bool.false_ne_true

/-- Ranges follow one another, unless the middle one lies where two integers are one double. -/
theorem meets_le_trans (hxy : Meets x .le y) (hyz : Meets y .le z) :
    Meets x .le z ∨ z.Merges x ∧ x.Blurred y ∧ y.Blurred z := by
  rw [meets_le, ne_eq, Number.compareExact_eq_gt_iff, not_or] at hxy hyz ⊢
  by_cases hmerges : z.Merges x
  · refine .inr ⟨hmerges, ?_⟩
    have hzx := hmerges.rounded_eq
    have hxy' : x.rounded = y.rounded := by omega
    have hyz' : y.rounded = z.rounded := by omega
    obtain ⟨hz, hx⟩ := hmerges.isSigned
    -- A signed integer in the middle would stand between the two.
    have hy : ¬ y.IsSigned := fun hy =>
      Number.not_merges_of_chain hy hxy' hyz' hxy.2 hyz.2 hmerges
    refine ⟨⟨hxy', Number.not_same_of_isSigned hx hy, fun h => hy h.2⟩, hyz', ?_, fun h => hy h.1⟩
    rw [Number.same_comm]
    exact Number.not_same_of_isSigned hz hy
  · exact .inl ⟨by omega, hmerges⟩

/-- **Numbers in ranges.** A filter with the bound `y` accepts a property that is the number `x` as
`Meets` says. Of the filters `x < y`, `x = y` and `x > y` no two accept together, and one accepts
unless the numbers are blurred: one double, but not equal and not both signed 64-bit integers. Then
`x <= y` and `x >= y` accept, which otherwise accept what is less or equal, and what is greater or
equal. From `x <= y` and `y <= z` it follows that `x <= z`, unless `z` is the lesser and `x` the
greater of two signed integers that are blurred with `y`. Among signed 64-bit integers, and among
doubles, nothing is blurred. -/
theorem number_ranges (x y z : Number) :
    (∀ (e : Entity) (p : String) (op : Comparison), e.properties.get? p = some (.number x) →
      ((Filter.mk p op (.value (.number y))).admits e = true ↔ Meets x op y)) ∧
    (¬ (Meets x .lt y ∧ Meets x .eq y) ∧ ¬ (Meets x .lt y ∧ Meets x .gt y) ∧
      ¬ (Meets x .eq y ∧ Meets x .gt y)) ∧
    ((Meets x .lt y ∨ Meets x .eq y ∨ Meets x .gt y) ↔ ¬ x.Blurred y) ∧
    (Meets x .le y ↔ Meets x .lt y ∨ Meets x .eq y ∨ x.Blurred y) ∧
    (Meets x .ge y ↔ Meets x .gt y ∨ Meets x .eq y ∨ x.Blurred y) ∧
    (Meets x .le y → Meets y .le z →
      Meets x .le z ∨ z.Merges x ∧ x.Blurred y ∧ y.Blurred z) ∧
    (x.SameKind y → ¬ x.Blurred y) := by
  refine ⟨fun e p op h => admits_iff_meets h op y, ⟨?_, ?_, ?_⟩, ⟨?_, ?_⟩, meets_le_iff,
    meets_ge_iff, meets_le_trans, Number.SameKind.not_blurred⟩
  · rintro ⟨hlt, heq⟩
    exact (not_meets_of_level (.inl heq)).1 hlt
  · rintro ⟨hlt, hgt⟩
    rw [meets_gt, meets_lt.1 hlt] at hgt
    cases hgt
  · rintro ⟨heq, hgt⟩
    exact (not_meets_of_level (.inl heq)).2 hgt
  · rintro (h | h | h) hblurred
    · exact (not_meets_of_level (.inr hblurred)).1 h
    · exact not_meets_eq_of_blurred hblurred h
    · exact (not_meets_of_level (.inr hblurred)).2 h
  · intro hblurred
    rcases meets_or_blurred x y with h | h | h | h
    · exact .inl h
    · exact .inr (.inl h)
    · exact .inr (.inr h)
    · exact absurd h hblurred

/-! ## An integer and a double -/

/-- A power of two as a double. -/
def powerOfTwo (n : Nat) (h : n ≤ 1023) : Double :=
  ⟨false, Nat.pow 2 52, 1022 + n, by decide, by omega, .inr (Nat.le_refl _)⟩

/-- Through the double `2 ^ 53`, with which the integer behind it is blurred, the integer is found
to be no more than `2 ^ 60`. Integers are less than one another, equal or greater. -/
theorem number_ranges_powers :
    let middle := powerOfTwo 53 (by decide)
    let large := powerOfTwo 60 (by decide)
    Meets (.ofNat 9007199254740993) .le (.double middle) ∧
      Meets (.double middle) .le (.double large) ∧
      Meets (.ofNat 9007199254740993) .le (.double large) ∧
      (Meets (.ofNat 1) .lt (.ofNat 2) ∨ Meets (.ofNat 1) .eq (.ofNat 2) ∨
        Meets (.ofNat 1) .gt (.ofNat 2)) := by
  intro middle large
  have hxy : Meets (.ofNat 9007199254740993) .le (.double middle) := by decide +kernel
  have hyz : Meets (.double middle) .le (.double large) := by decide +kernel
  obtain ⟨_, _, _, _, _, htrans, _⟩ :=
    number_ranges (.ofNat 9007199254740993) (.double middle) (.double large)
  obtain ⟨_, _, hone, _, _, _, hkind⟩ := number_ranges (.ofNat 1) (.ofNat 2) (.ofNat 2)
  refine ⟨hxy, hyz, ?_, hone.2 (hkind ⟨by decide, by decide⟩)⟩
  rcases htrans hxy hyz with h | ⟨hmerges, _⟩
  · exact h
  · exact hmerges.elim

/-- One as an integer is neither less than one as a double, nor equal to it, nor greater. Between
the integers `2 ^ 53 + 1` and `2 ^ 53`, in this order, stands the double `2 ^ 53`. -/
theorem number_ranges_broken :
    let one := powerOfTwo 0 (by decide)
    let middle := powerOfTwo 53 (by decide)
    (¬ Meets (.ofNat 1) .lt (.double one) ∧ ¬ Meets (.ofNat 1) .eq (.double one) ∧
      ¬ Meets (.ofNat 1) .gt (.double one) ∧ Meets (.ofNat 1) .le (.double one)) ∧
    (Meets (.ofNat 9007199254740993) .le (.double middle) ∧
      Meets (.double middle) .le (.ofNat 9007199254740992) ∧
      ¬ Meets (.ofNat 9007199254740993) .le (.ofNat 9007199254740992)) := by
  decide +kernel

end Filter

end Quarry
