import Quarry.Proofs.Store.NumberRanges
import Quarry.Proofs.Store.Order

/-!
# Sorted results and ranges

Of two entities that are sorted by a property, the first does not lie past the second in the sense
of range filters, with one exception. Sorting compares all numbers as doubles, and range filters
compare signed 64-bit integers as such. So the greater of two integers that are one double can come
first. Integers up to `2 ^ 53` come out in order.
-/

namespace Quarry

open Json

namespace Json.Value

variable {v w : Value}

/-- The first value is the lesser of two signed 64-bit integers that are one double. -/
def Merges (v w : Value) : Prop := ∃ x y, v = .number x ∧ w = .number y ∧ x.Merges y

theorem compare?_swap (v w : Value) : w.compare? v = (v.compare? w).map Ordering.swap := by
  cases v <;> cases w <;> try rfl
  case bool.bool a b => exact congrArg some Std.OrientedOrd.eq_swap
  case number.number x y => exact congrArg some (x.compareExact_swap y).symm
  case string.string a b => exact congrArg some Std.OrientedOrd.eq_swap

/-- What does not come later in the sort order is greater in ranges only where integers are one
double. -/
theorem compare?_eq_gt_iff (h : v.sortCompare w ≠ .gt) : v.compare? w = some .gt ↔ w.Merges v := by
  constructor
  · intro hgt
    cases v <;> cases w <;> try cases hgt
    case bool.bool a b => exact absurd (Option.some.inj hgt) h
    case number.number x y =>
      refine ⟨y, x, rfl, rfl, ?_⟩
      refine (Number.compareExact_eq_gt_iff.1 (Option.some.inj hgt)).resolve_left fun hlt => ?_
      exact h (Std.compare_eq_gt.2 hlt)
    case string.string a b => exact absurd (Option.some.inj hgt) h
  · rintro ⟨y, x, rfl, rfl, hmerges⟩
    exact congrArg some (Number.compareExact_eq_gt_iff.2 (.inr hmerges))

theorem compare?_eq_lt_iff (h : w.sortCompare v ≠ .gt) : v.compare? w = some .lt ↔ v.Merges w := by
  rw [compare?_swap w v, ← compare?_eq_gt_iff h]
  cases w.compare? v with
  | none => exact iff_of_false (by simp) (by simp)
  | some o => cases o <;> decide

/-- Integers in the sort order rise, or they are one double and one of them is larger than
`2 ^ 53`. -/
theorem le_or_unitsOf_eq {m n : Int} {fm : -9223372036854775808 ≤ m ∧ m < 18446744073709551616}
    {fn : -9223372036854775808 ≤ n ∧ n < 18446744073709551616}
    (h : (number (.integer m fm)).sortCompare (number (.integer n fn)) ≠ .gt) :
    m ≤ n ∨ Number.unitsOf m = Number.unitsOf n ∧
      ¬ (m.natAbs ≤ Nat.pow 2 53 ∧ n.natAbs ≤ Nat.pow 2 53) := by
  have hunits : Number.unitsOf m ≤ Number.unitsOf n := by
    rw [← Number.rounded_integer m fm, ← Number.rounded_integer n fn]
    exact Int.not_lt.1 fun hlt => h (Std.compare_eq_gt.2 hlt)
  by_cases hle : m ≤ n
  · exact .inl hle
  · have hlt : n < m := Int.not_le.1 hle
    have heq := Int.le_antisymm hunits (Number.unitsOf_mono (Int.le_of_lt hlt))
    refine .inr ⟨heq, ?_⟩
    rintro ⟨hm, hn⟩
    exact absurd heq.symm (Int.ne_of_lt (Number.unitsOf_strictMono hn hm hlt))

end Json.Value

/-! ## One sort order -/

namespace Filter

/-- The operator of the range that sorted results have left behind. -/
def past (descending : Bool) : Comparison := if descending then .lt else .gt

/-- How keys stand that a filter for what is past tells apart. -/
theorem admits_past_key_iff {e : Entity} {p : String} {k : Key} (descending : Bool) :
    (Filter.mk p (past descending) (.key k)).admits e = true ↔
      compare e.key k = if descending then .lt else .gt := by
  rw [admits]
  cases descending <;> exact beq_iff_eq

/-- How values stand that a filter for what is past tells apart. -/
theorem admits_past_value_iff {e : Entity} {p : String} {v w : Value}
    (hv : e.properties.get? p = some v) (hscalar : v.compare? w ≠ none) (descending : Bool) :
    (Filter.mk p (past descending) (.value w)).admits e = true ↔
      v.compare? w = some (if descending then .lt else .gt) := by
  obtain ⟨o, ho⟩ := Option.ne_none_iff_exists'.1 hscalar
  have haccepts : ∀ op, accepts v op w = meets v op w := by
    intro op
    cases v <;> first | rfl | cases ho
  rw [admits]
  simp only [hv, haccepts]
  cases descending <;> simp [past, meets, ho, Comparison.holds]

end Filter

namespace Order

/-- A sort order alone decides unless it finds entities level. -/
theorem compare_ne_gt {o : Order} {a b : Entity} (h : (compareAll [o] a b).isLE = true) :
    o.compare a b ≠ .gt := by
  intro hgt
  rw [compareAll, hgt] at h
  cases h

variable {p : String} {descending : Bool} {a b : Entity}

theorem keys_of_compare_ne_gt (hp : p = keyProperty)
    (h : (Order.mk p descending).compare a b ≠ .gt) :
    Ord.compare a.key b.key ≠ if descending then .lt else .gt := by
  rw [compare] at h
  simp only [hp, if_true] at h
  cases descending <;> cases hkeys : Ord.compare a.key b.key <;> simp_all

theorem values_of_compare_ne_gt (hp : p ≠ keyProperty) {v w : Value}
    (hv : a.properties.get? p = some v) (hw : b.properties.get? p = some w)
    (h : (Order.mk p descending).compare a b ≠ .gt) :
    if descending then w.sortCompare v ≠ .gt else v.sortCompare w ≠ .gt := by
  rw [compare] at h
  simp only [if_neg hp, hv, hw] at h
  cases descending with
  | false => exact h
  | true =>
      have hswap : sortCompareOptional (some w) (some v) =
          (sortCompareOptional (some v) (some w)).swap := Std.OrientedCmp.eq_swap
      intro hgt
      rw [← hswap] at h
      exact h hgt

/-- **Sorted results lie in ranges.** Let entities be sorted by one property, and let `a` come before
`b`. Sorted by key, `a` is not greater by key than `b`, or not less if the order is descending.
Sorted by a property that both have as two booleans, two strings or two numbers, the filter for what
is greater than the value of `b`, or less if the order is descending, accepts `a` if and only if the
values are signed 64-bit integers that are one double and come in the wrong order. Integers are in
order unless they are one double and one of them is larger than `2 ^ 53`. -/
theorem sort_within_ranges (p : String) (descending : Bool) (es : List Entity) :
    (sort [⟨p, descending⟩] es).Pairwise fun a b =>
      (p = keyProperty →
        (Filter.mk p (Filter.past descending) (.key b.key)).admits a = false) ∧
      (p ≠ keyProperty → ∀ v w, a.properties.get? p = some v → b.properties.get? p = some w →
        (v.compare? w ≠ none →
          ((Filter.mk p (Filter.past descending) (.value w)).admits a = true ↔
            if descending then v.Merges w else w.Merges v)) ∧
        ∀ m n fm fn, v = .number (.integer m fm) → w = .number (.integer n fn) →
          (if descending then n ≤ m else m ≤ n) ∨
            Number.unitsOf m = Number.unitsOf n ∧
              ¬ (m.natAbs ≤ Nat.pow 2 53 ∧ n.natAbs ≤ Nat.pow 2 53)) := by
  refine (pairwise_sort_isLE [⟨p, descending⟩] es).imp ?_
  intro a b hle
  have horder := compare_ne_gt hle
  constructor
  · intro hp
    rw [Bool.eq_false_iff, ne_eq, Filter.admits_past_key_iff]
    exact keys_of_compare_ne_gt hp horder
  · intro hp v w hv hw
    have hvalues := values_of_compare_ne_gt hp hv hw horder
    constructor
    · intro hscalar
      rw [Filter.admits_past_value_iff hv hscalar]
      cases descending with
      | false => exact Value.compare?_eq_gt_iff hvalues
      | true => exact Value.compare?_eq_lt_iff hvalues
    · rintro m n fm fn rfl rfl
      cases descending with
      | false => exact Value.le_or_unitsOf_eq hvalues
      | true =>
          refine (Value.le_or_unitsOf_eq hvalues).imp id ?_
          rintro ⟨hunits, hlarge⟩
          exact ⟨hunits.symm, fun h => hlarge h.symm⟩

/-- An entity with a number. -/
def numbered (id : Int64) (n : Nat) : Entity :=
  ⟨⟨none, [⟨"N", some (.number id)⟩]⟩, ⟨[("n", .number (.ofNat n))], by simp⟩⟩

/-- Of two small numbers the lesser comes first, and it is not greater. -/
theorem sort_within_ranges_small :
    sort [⟨"n", false⟩] [numbered 1 8, numbered 2 7] = [numbered 2 7, numbered 1 8] ∧
      (Filter.mk "n" .gt (.value (.number (.ofNat 8)))).admits (numbered 2 7) = false ∧
      ((7 : Int) ≤ 8 ∨ Number.unitsOf 7 = Number.unitsOf 8 ∧
        ¬ ((7 : Int).natAbs ≤ Nat.pow 2 53 ∧ (8 : Int).natAbs ≤ Nat.pow 2 53)) := by
  have hsort : sort [⟨"n", false⟩] [numbered 1 8, numbered 2 7] = [numbered 2 7, numbered 1 8] := by
    rw [sort_eq_insertionSort]
    decide +kernel
  have hpairs := sort_within_ranges "n" false [numbered 1 8, numbered 2 7]
  rw [hsort] at hpairs
  obtain ⟨_, hvalues⟩ := List.rel_of_pairwise_cons hpairs (List.mem_singleton.2 rfl)
  obtain ⟨hadmits, hintegers⟩ := hvalues (by decide) _ _ rfl rfl
  refine ⟨hsort, ?_, hintegers 7 8 (by decide) (by decide) rfl rfl⟩
  rw [Bool.eq_false_iff]
  intro hgt
  obtain ⟨x, y, hx, hy, hmerges⟩ := (hadmits (by decide +kernel)).1 hgt
  cases hx
  cases hy
  exact absurd hmerges.1 (by decide)

/-- In ascending order, `2 ^ 53 + 1` comes before `2 ^ 53`, and is greater in the sense of ranges. -/
theorem sort_within_ranges_broken :
    sort [⟨"n", false⟩] [numbered 1 9007199254740993, numbered 2 9007199254740992] =
        [numbered 1 9007199254740993, numbered 2 9007199254740992] ∧
      (Filter.mk "n" .gt (.value (.number (.ofNat 9007199254740992)))).admits
        (numbered 1 9007199254740993) = true := by
  rw [sort_eq_insertionSort]
  decide +kernel

end Order

end Quarry
