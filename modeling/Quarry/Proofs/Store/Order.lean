import Mathlib.Data.List.Nodup
import Quarry.Proofs.Store.Results

/-!
# The order of entities is total

Each sort order compares by the key or by a value's place in one linear order, so that sort orders
and the key that decides last make up a total order that equates no two keys. Sorted results are
therefore determined by the entities they hold.
-/

namespace Quarry

open Json

/-! ## Values -/

namespace Value

def bool? : Json.Value → Option Bool
  | .bool b => some b
  | _ => none

/-- The size of a number, in units of the least positive double. -/
def size? : Json.Value → Option Int
  | .number n => some n.rounded
  | _ => none

def string? : Json.Value → Option String
  | .string s => some s
  | _ => none

end Value

/-- The sort order of values, missing ones first, is lexicographic in these parts. -/
def comparePlaces : Option Json.Value → Option Json.Value → Ordering :=
  compareLex (compareOn fun v => v.map Json.Value.rank)
    (compareLex (compareOn fun v => v.bind Value.bool?)
      (compareLex (compareOn fun v => v.bind Value.size?)
        (compareOn fun v => v.bind Value.string?)))

theorem sortCompareOptional_eq : sortCompareOptional = comparePlaces := by
  funext a b
  cases a with
  | none => cases b <;> rfl
  | some a =>
      cases b with
      | none => rfl
      | some b =>
          -- Values of different kinds stand as their ranks do.
          cases a <;> cases b <;> try rfl
          all_goals
            simp only [comparePlaces, compareLex, compareOn, Option.map_some, Option.bind_some,
              Json.Value.rank, Value.bool?, Value.size?, Value.string?, Std.ReflCmp.compare_self,
              Ordering.then_eq, Ordering.eq_then]
            rfl

instance : Std.TransCmp sortCompareOptional := by
  rw [sortCompareOptional_eq]
  unfold comparePlaces
  infer_instance

/-! ## Entities -/

namespace Order

/-- What a sort order compares by, before it is turned around. -/
def ascending (o : Order) (a b : Entity) : Ordering :=
  if o.property = keyProperty then Ord.compare a.key b.key
  else sortCompareOptional (a.properties.get? o.property) (b.properties.get? o.property)

instance (o : Order) : Std.TransCmp o.ascending := by
  by_cases h : o.property = keyProperty
  · have heq : o.ascending = fun a b => Ord.compare a.key b.key := by
      funext a b
      exact if_pos h
    rw [heq]
    exact transCmp_on Entity.key
  · have heq : o.ascending = fun a b =>
        sortCompareOptional (a.properties.get? o.property) (b.properties.get? o.property) := by
      funext a b
      exact if_neg h
    rw [heq]
    exact transCmp_on fun e : Entity => e.properties.get? o.property

instance (o : Order) : Std.TransCmp o.compare := by
  cases h : o.descending with
  | false =>
      have heq : o.compare = o.ascending := by
        funext a b
        simp [compare, ascending, h]
      rw [heq]
      infer_instance
  | true =>
      have heq : o.compare = fun a b => o.ascending b a := by
        funext a b
        have hswap : o.ascending b a = (o.ascending a b).swap := Std.OrientedCmp.eq_swap
        rw [hswap]
        simp [compare, ascending, h]
      rw [heq]
      infer_instance

theorem transCmp_compareAll (os : List Order) : Std.TransCmp (compareAll os) := by
  induction os with
  | nil => exact transCmp_on Entity.key
  | cons o os ih =>
      have heq : compareAll (o :: os) = compareLex o.compare (compareAll os) := rfl
      rw [heq]
      infer_instance

instance (os : List Order) : Std.TransCmp (compareAll os) := transCmp_compareAll os

/-- Only entities of one key are level. -/
theorem key_eq_of_compareAll {os : List Order} {a b : Entity} (h : compareAll os a b = .eq) :
    a.key = b.key := by
  induction os with
  | nil => exact Std.LawfulEqOrd.eq_of_compare h
  | cons o os ih => exact ih (Ordering.then_eq_eq.1 h).2

/-! ## Sorted results -/

theorem sort_perm (os : List Order) (es : List Entity) : (sort os es).Perm es :=
  List.mergeSort_perm es _

theorem pairwise_sort_isLE (os : List Order) (es : List Entity) :
    (sort os es).Pairwise fun a b => (compareAll os a b).isLE = true :=
  pairwise_mergeSort_isLE es

/-- Entities of different keys are strictly in order when sorted. -/
theorem pairwise_sort_of_nodup {es : List Entity} (h : (es.map Entity.key).Nodup)
    (os : List Order) : (sort os es).Pairwise fun a b => compareAll os a b = .lt := by
  have hkeys : (sort os es).Pairwise fun a b => a.key ≠ b.key :=
    ((sort_perm os es).pairwise_iff fun hab => hab.symm).2 (List.pairwise_map.1 h)
  refine ((pairwise_sort_isLE os es).and hkeys).imp ?_
  rintro a b ⟨hle, hne⟩
  rcases hab : compareAll os a b with _ | _ | _
  · rfl
  · exact absurd (key_eq_of_compareAll hab) hne
  · rw [hab] at hle
    cases hle

theorem pairwise_sort {es : List Entity} (h : es.Pairwise Entities.Before) (os : List Order) :
    (sort os es).Pairwise fun a b => compareAll os a b = .lt :=
  pairwise_sort_of_nodup (List.pairwise_map.2 (h.imp Entities.Before.ne)) os

/-- Sorts by insertion, which can be evaluated in a proof. -/
def insertionSort (os : List Order) (es : List Entity) : List Entity :=
  es.insertionSort fun a b => (compareAll os a b).isLE = true

theorem sort_eq_insertionSort : sort = insertionSort := by
  funext os es
  exact mergeSort_eq_insertionSort es

/-! ## The only list in order -/

/-- The comparison puts these entities into one line. -/
structure LinearOn (os : List Order) (es : List Entity) : Prop where
  swap : ∀ a ∈ es, ∀ b ∈ es, compareAll os b a = (compareAll os a b).swap
  antisymm : ∀ a ∈ es, ∀ b ∈ es, (compareAll os a b).isLE = true →
    (compareAll os b a).isLE = true → a = b
  trans : ∀ a ∈ es, ∀ b ∈ es, ∀ c ∈ es, (compareAll os a b).isLE = true →
    (compareAll os b c).isLE = true → (compareAll os a c).isLE = true

variable {os : List Order} {es : List Entity}

theorem eq_of_level (h : (es.map Entity.key).Nodup) {a b : Entity} (ha : a ∈ es) (hb : b ∈ es)
    (hlevel : compareAll os a b = .eq) : a = b :=
  List.inj_on_of_nodup_map h ha hb (key_eq_of_compareAll hlevel)

theorem linearOn_of_nodup (h : (es.map Entity.key).Nodup) : LinearOn os es where
  swap _ _ _ _ := Std.OrientedCmp.eq_swap
  antisymm _ ha _ hb hab hba := eq_of_level h ha hb (Std.OrientedCmp.isLE_antisymm hab hba)
  trans _ _ _ _ _ _ := Std.TransCmp.isLE_trans

/-- **Sorting is canonical.** Whatever the sort orders and whatever the entities hold, the comparison
is a linear order on entities of different keys. So the sorted list is the only one that holds them
in order, and it does not depend on the order in which they came. -/
theorem sort_canonical (os : List Order) (es : List Entity) (h : (es.map Entity.key).Nodup) :
    LinearOn os es ∧ (sort os es).Perm es ∧
      (sort os es).Pairwise (fun a b => compareAll os a b = .lt) ∧
      (∀ l : List Entity, l.Perm es →
        l.Pairwise (fun a b => (compareAll os a b).isLE = true) → l = sort os es) ∧
      ∀ es' : List Entity, es'.Perm es → sort os es' = sort os es := by
  have hlevel : ∀ a ∈ es, ∀ b ∈ es, compareAll os a b = .eq → a = b :=
    fun _ ha _ hb => eq_of_level h ha hb
  refine ⟨linearOn_of_nodup h, sort_perm os es, pairwise_sort_of_nodup h os, ?_, ?_⟩
  · intro l hperm hordered
    exact eq_mergeSort_of_perm hlevel hperm hordered
  · intro es' hperm
    exact mergeSort_eq_of_perm hlevel hperm

/-- Entities of which every kind of value and none at all stands under one name. Two numbers are
level as doubles, and so are two lists. -/
def medley : List Entity :=
  let one := (Json.Double.nearest? false 1 1).getD (.zero false)
  let entity (id : Int64) (columns : List (String × Json.Value)) : Entity :=
    ⟨⟨none, [⟨"N", some (.number id)⟩]⟩, .ofColumns columns⟩
  [entity 1 [("v", .object [])], entity 2 [("v", .array [.null])], entity 3 [("v", .array [])],
    entity 4 [("v", .string "b")], entity 5 [("v", .number (.ofNat 1))],
    entity 6 [("v", .number (.double one))], entity 7 [("v", .bool true)],
    entity 8 [("v", .null)], entity 9 []]

/-- Backwards by the property, forwards by the same once more, and backwards by key. -/
theorem sort_canonical_medley :
    let os : List Order := [⟨"v", true⟩, ⟨"v", false⟩, ⟨keyProperty, true⟩]
    LinearOn os medley ∧ sort os medley.reverse = sort os medley ∧
      (sort os medley).filterMap (fun e => e.key.id?) =
        [1, 3, 2, 4, 6, 5, 7, 8, 9].map KeyId.number := by
  intro os
  obtain ⟨hlinear, _, _, _, hsame⟩ := sort_canonical os medley (by decide +kernel)
  refine ⟨hlinear, hsame _ (List.reverse_perm medley), ?_⟩
  rw [sort_eq_insertionSort]
  decide +kernel

end Order

end Quarry
