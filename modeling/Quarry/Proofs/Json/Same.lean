import Quarry.Json.Value

/-!
# Equal JSON values

Equality of values passes from one to the next. It has a direction only where an object repeats a
name, of which just the first member is seen in the second value.
-/

namespace Quarry.Json

namespace Number

theorem same_trans {a b c : Number} (hab : a.same b = true) (hbc : b.same c = true) :
    a.same c = true := by
  cases a <;> cases b <;> cases c <;> simp_all [same]

end Number

namespace Value

/-- The values are equal, whichever of them is compared with the other. -/
def Equal (a b : Value) : Prop := a.same b = true ∧ b.same a = true

theorem lookup_of_sameMembers {bs cs : List (String × Value)} (h : sameMembers bs cs = true)
    {name : String} {b : Value} (hb : bs.lookup name = some b) :
    ∃ c, cs.lookup name = some c ∧ b.same c = true := by
  induction bs with
  | nil => cases hb
  | cons member bs ih =>
      obtain ⟨n, v⟩ := member
      rw [sameMembers, Bool.and_eq_true] at h
      by_cases hn : name = n
      · subst hn
        rw [List.lookup_cons_self] at hb
        cases hb
        cases hc : cs.lookup name with
        | none =>
            rw [hc] at h
            cases h.1
        | some c =>
            rw [hc] at h
            exact ⟨c, rfl, h.1⟩
      · rw [List.lookup_cons, beq_eq_false_iff_ne.2 hn] at hb
        exact ih h.2 hb

theorem items_of_same {as : List Value} {b : Value} (h : (array as).same b = true) :
    ∃ bs, b = array bs ∧ sameItems as bs = true := by
  cases b <;> simp_all [same]

theorem members_of_same {as : List (String × Value)} {b : Value} (h : (object as).same b = true) :
    ∃ bs, b = object bs ∧ as.length = bs.length ∧ sameMembers as bs = true := by
  cases b <;> simp_all [same]

theorem null_of_same {b : Value} (h : null.same b = true) : b = null := by
  cases b <;> simp_all [same]

theorem Equal.ne_null {a b : Value} (h : a.Equal b) (ha : a ≠ null) : b ≠ null := by
  rintro rfl
  exact ha (null_of_same h.2)

theorem Equal.ne_array {a b : Value} (h : a.Equal b) (ha : ∀ items, a ≠ array items) :
    ∀ items, b ≠ array items := by
  rintro items rfl
  obtain ⟨items', heq, _⟩ := items_of_same h.2
  exact ha items' heq

theorem bool_of_same {a : Bool} {b : Value} (h : (bool a).same b = true) : b = bool a := by
  cases b <;> simp_all [same]

theorem string_of_same {a : String} {b : Value} (h : (string a).same b = true) :
    b = string a := by
  cases b <;> simp_all [same]

theorem number_of_same {a : Number} {b : Value} (h : (number a).same b = true) :
    ∃ b', b = number b' ∧ a.same b' = true := by
  cases b <;> simp_all [same]

mutual

/-- What is equal to a value is equal to what that is equal to. -/
theorem same_trans : ∀ {a b c : Value}, a.same b = true → b.same c = true → a.same c = true
  | null, b, c, hab, hbc => by rwa [null_of_same hab] at hbc
  | bool _, b, c, hab, hbc => by rwa [bool_of_same hab] at hbc
  | string _, b, c, hab, hbc => by rwa [string_of_same hab] at hbc
  | number a, b, c, hab, hbc => by
      obtain ⟨b, rfl, hab⟩ := number_of_same hab
      obtain ⟨c, rfl, hbc⟩ := number_of_same hbc
      rw [same]
      exact Number.same_trans hab hbc
  | array as, b, c, hab, hbc => by
      obtain ⟨bs, rfl, hab⟩ := items_of_same hab
      obtain ⟨cs, rfl, hbc⟩ := items_of_same hbc
      rw [same]
      exact sameItems_trans hab hbc
  | object as, b, c, hab, hbc => by
      obtain ⟨bs, rfl, hlength, hab⟩ := members_of_same hab
      obtain ⟨cs, rfl, hlength', hbc⟩ := members_of_same hbc
      rw [same, Bool.and_eq_true, beq_iff_eq]
      refine ⟨hlength.trans hlength', sameMembers_trans hab ?_⟩
      intro _ _ hb
      exact lookup_of_sameMembers hbc hb

theorem sameItems_trans : ∀ {as bs cs : List Value}, sameItems as bs = true →
    sameItems bs cs = true → sameItems as cs = true
  | [], [], _, _, hbc => hbc
  | _ :: _, _ :: _, [], _, hbc => by simp [sameItems] at hbc
  | a :: as, b :: bs, c :: cs, hab, hbc => by
      rw [sameItems, Bool.and_eq_true] at hab hbc ⊢
      exact ⟨same_trans hab.1 hbc.1, sameItems_trans hab.2 hbc.2⟩

theorem sameMembers_trans : ∀ {as bs cs : List (String × Value)}, sameMembers as bs = true →
    (∀ name b, bs.lookup name = some b → ∃ c, cs.lookup name = some c ∧ b.same c = true) →
    sameMembers as cs = true
  | [], _, _, _, _ => by rw [sameMembers]
  | (name, a) :: as, bs, cs, hab, hbc => by
      rw [sameMembers, Bool.and_eq_true] at hab ⊢
      refine ⟨?_, sameMembers_trans hab.2 hbc⟩
      cases hb : bs.lookup name with
      | none =>
          rw [hb] at hab
          cases hab.1
      | some b =>
          rw [hb] at hab
          obtain ⟨c, hc, hsame⟩ := hbc name b hb
          rw [hc]
          exact same_trans hab.1 hsame

end

end Value

end Quarry.Json
