import Quarry.Criteria.Groups
import Quarry.Proofs.Except

/-!
# What clauses mean

A valuation says which predicates are true. Under a valuation a clause is true or false, and so is
a group. The groups of a clause are its disjunctive normal form: one of them is true exactly when
the clause is.
-/

namespace Quarry

/-- Which predicates are true. -/
abbrev Valuation := Predicate → Prop

namespace Group

def Holds (v : Valuation) (g : Group) : Prop := ∀ p ∈ g, v p

/-- One of the groups is true. -/
def SomeHolds (v : Valuation) (gs : List Group) : Prop := ∃ g ∈ gs, Holds v g

variable {v : Valuation}

@[simp] theorem holds_nil : Holds v [] := by
  intro p hp
  cases hp

@[simp] theorem holds_append {g h : Group} : Holds v (g ++ h) ↔ Holds v g ∧ Holds v h := by
  unfold Holds
  exact List.forall_mem_append

@[simp] theorem holds_singleton {p : Predicate} : Holds v [p] ↔ v p := by
  simp [Holds]

@[simp] theorem someHolds_nil : ¬ SomeHolds v [] := by
  rintro ⟨g, hg, _⟩
  cases hg

@[simp] theorem someHolds_cons {g : Group} {gs : List Group} :
    SomeHolds v (g :: gs) ↔ Holds v g ∨ SomeHolds v gs := by
  simp [SomeHolds]

theorem someHolds_append {gs hs : List Group} :
    SomeHolds v (gs ++ hs) ↔ SomeHolds v gs ∨ SomeHolds v hs := by
  induction gs with
  | nil => simp
  | cons g gs ih =>
      rw [List.cons_append, someHolds_cons, someHolds_cons, ih, or_assoc]

theorem mem_product {left right : List Group} {g : Group} :
    g ∈ product left right ↔ ∃ l ∈ left, ∃ r ∈ right, g = l ++ r := by
  unfold product
  simp only [List.mem_flatMap, List.mem_map, eq_comm]

/-- Every choice of two groups is joined, so the joined groups are true together. -/
theorem someHolds_product {left right : List Group} :
    SomeHolds v (product left right) ↔ SomeHolds v left ∧ SomeHolds v right := by
  constructor
  · rintro ⟨g, hg, hv⟩
    obtain ⟨l, hl, r, hr, rfl⟩ := mem_product.mp hg
    rw [holds_append] at hv
    exact ⟨⟨l, hl, hv.1⟩, ⟨r, hr, hv.2⟩⟩
  · rintro ⟨⟨l, hl, hvl⟩, ⟨r, hr, hvr⟩⟩
    exact ⟨l ++ r, mem_product.mpr ⟨l, hl, r, hr, rfl⟩, holds_append.mpr ⟨hvl, hvr⟩⟩

end Group

namespace Test

/-- What a test asks. A test that no store query can express is never true. -/
def Holds (v : Valuation) (field : String) : Test → Prop
  | compare op value => v ⟨field, op, value⟩
  | oneOf values => ∃ value ∈ values, v ⟨field, .eq, value⟩
  | _ => False

/-- A membership test becomes a group for each value, a comparison a single one. -/
theorem someHolds_groups {v : Valuation} {field : String} {t : Test} {gs : List Group}
    (h : t.groups field = .ok gs) : Group.SomeHolds v gs ↔ t.Holds v field := by
  cases t with
  | compare op value =>
      cases h
      simp [Holds]
  | oneOf values =>
      cases values with
      | nil => cases h
      | cons value rest =>
          cases h
          rw [Holds, Group.SomeHolds]
          constructor
          · rintro ⟨g, hg, hv⟩
            obtain ⟨w, hw, rfl⟩ := List.mem_map.mp hg
            exact ⟨w, hw, Group.holds_singleton.mp hv⟩
          · rintro ⟨w, hw, hv⟩
            exact ⟨_, List.mem_map.mpr ⟨w, hw, rfl⟩, Group.holds_singleton.mpr hv⟩
  | noneOf _ => cases h
  | like _ => cases h
  | contains _ => cases h
  | startsWith _ => cases h
  | endsWith _ => cases h

end Test

namespace Clause

mutual

/-- The clause is true. -/
def Holds (v : Valuation) : Clause → Prop
  | all children => AllHold v children
  | any children => AnyHolds v children
  | test field t => t.Holds v field

/-- Every clause of the list is true. -/
def AllHold (v : Valuation) : List Clause → Prop
  | [] => True
  | c :: cs => c.Holds v ∧ AllHold v cs

/-- Some clause of the list is true. -/
def AnyHolds (v : Valuation) : List Clause → Prop
  | [] => False
  | c :: cs => c.Holds v ∨ AnyHolds v cs

end

theorem groupsOfAll_cons {c : Clause} {cs : List Clause} {gs : List Group}
    (h : groupsOfAll (c :: cs) = .ok gs) :
    ∃ left right, c.groups = .ok left ∧ groupsOfAll cs = .ok right ∧
      gs = Group.product left right := by
  rw [groupsOfAll] at h
  obtain ⟨left, hl, h⟩ := bind_eq_ok.mp h
  obtain ⟨right, hr, h⟩ := bind_eq_ok.mp h
  cases h
  exact ⟨left, right, hl, hr, rfl⟩

theorem groupsOfAny_cons {c : Clause} {cs : List Clause} {gs : List Group}
    (h : groupsOfAny (c :: cs) = .ok gs) :
    ∃ first more, c.groups = .ok first ∧ groupsOfAny cs = .ok more ∧ gs = first ++ more := by
  rw [groupsOfAny] at h
  obtain ⟨first, hf, h⟩ := bind_eq_ok.mp h
  obtain ⟨more, hm, h⟩ := bind_eq_ok.mp h
  cases h
  exact ⟨first, more, hf, hm, rfl⟩

variable {v : Valuation}

mutual

/-- **Disjunctive normal form.** One of the groups of a clause is true exactly when the clause is. -/
theorem someHolds_groups : ∀ (c : Clause) {gs : List Group}, c.groups = .ok gs →
    (Group.SomeHolds v gs ↔ c.Holds v)
  | all children, gs, h => by
      rw [groups] at h
      rw [Holds]
      exact someHolds_groupsOfAll children h
  | any [], gs, h => by
      rw [groups] at h
      cases h
  | any (c :: cs), gs, h => by
      rw [groups] at h
      rw [Holds]
      exact someHolds_groupsOfAny (c :: cs) h
  | test field t, gs, h => by
      rw [groups] at h
      rw [Holds]
      exact Test.someHolds_groups h

theorem someHolds_groupsOfAll : ∀ (cs : List Clause) {gs : List Group}, groupsOfAll cs = .ok gs →
    (Group.SomeHolds v gs ↔ AllHold v cs)
  | [], gs, h => by
      rw [groupsOfAll] at h
      cases h
      simp [AllHold]
  | c :: cs, gs, h => by
      obtain ⟨left, right, hl, hr, rfl⟩ := groupsOfAll_cons h
      rw [Group.someHolds_product, someHolds_groups c hl, someHolds_groupsOfAll cs hr, AllHold]

theorem someHolds_groupsOfAny : ∀ (cs : List Clause) {gs : List Group}, groupsOfAny cs = .ok gs →
    (Group.SomeHolds v gs ↔ AnyHolds v cs)
  | [], gs, h => by
      rw [groupsOfAny] at h
      cases h
      simp [AnyHolds]
  | c :: cs, gs, h => by
      obtain ⟨first, more, hf, hm, rfl⟩ := groupsOfAny_cons h
      rw [Group.someHolds_append, someHolds_groups c hf, someHolds_groupsOfAny cs hm, AnyHolds]

end

end Clause

end Quarry
