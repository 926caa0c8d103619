import Mathlib.Data.List.Sort

/-!
# Sorting by a comparison

Items that are level keep the order in which they came. Where no two items are level, the sorted
list is the only one in order.
-/

namespace Quarry

variable {α : Type} {cmp : α → α → Ordering} [Std.TransCmp cmp]

/-- Comparing by what a function makes of things is as good as the comparison of that. -/
theorem transCmp_on {β : Type} {c : β → β → Ordering} [Std.TransCmp c] (f : α → β) :
    Std.TransCmp fun a b => c (f a) (f b) where
  eq_swap := Std.OrientedCmp.eq_swap
  isLE_trans := Std.TransCmp.isLE_trans

theorem isLE_total (cmp : α → α → Ordering) [Std.TransCmp cmp] (a b : α) :
    ((cmp a b).isLE || (cmp b a).isLE) = true := by
  have hswap : cmp b a = (cmp a b).swap := Std.OrientedCmp.eq_swap
  rw [hswap]
  cases cmp a b <;> rfl

theorem pairwise_mergeSort_isLE (l : List α) :
    (l.mergeSort fun a b => (cmp a b).isLE).Pairwise fun a b => (cmp a b).isLE = true :=
  List.pairwise_mergeSort (fun _ _ _ => Std.TransCmp.isLE_trans) (isLE_total cmp) l

/-- Items that are all level stand as they came. -/
theorem filter_mergeSort {p : α → Bool}
    (h : ∀ a b, p a = true → p b = true → (cmp a b).isLE = true) (l : List α) :
    (l.mergeSort fun a b => (cmp a b).isLE).filter p = l.filter p := by
  have hlevel : (l.filter p).Pairwise fun a b => (cmp a b).isLE = true := by
    refine List.pairwise_of_forall_mem_list ?_
    intro a ha b hb
    exact h a b (List.mem_filter.1 ha).2 (List.mem_filter.1 hb).2
  have hsublist := (List.sublist_mergeSort (fun _ _ _ => Std.TransCmp.isLE_trans) (isLE_total cmp)
    hlevel List.filter_sublist).filter p
  simp only [List.filter_filter, Bool.and_self] at hsublist
  exact (hsublist.eq_of_length ((List.mergeSort_perm l _).filter p).length_eq.symm).symm

/-- Whatever holds the same items in order is the sorted list. -/
theorem eq_mergeSort_of_perm {l l' : List α} (h : ∀ a ∈ l, ∀ b ∈ l, cmp a b = .eq → a = b)
    (hperm : l'.Perm l) (hordered : l'.Pairwise fun a b => (cmp a b).isLE = true) :
    l' = l.mergeSort fun a b => (cmp a b).isLE := by
  have hsame := List.mergeSort_perm l fun a b => (cmp a b).isLE
  refine List.Perm.eq_of_pairwise ?_ hordered (pairwise_mergeSort_isLE l) (hperm.trans hsame.symm)
  intro a b ha hb hab hba
  exact h a (hperm.subset ha) b (hsame.subset hb) (Std.OrientedCmp.isLE_antisymm hab hba)

/-- The sorted list does not depend on the order in which the items came. -/
theorem mergeSort_eq_of_perm {l l' : List α} (h : ∀ a ∈ l, ∀ b ∈ l, cmp a b = .eq → a = b)
    (hperm : l'.Perm l) : (l'.mergeSort fun a b => (cmp a b).isLE) =
      l.mergeSort fun a b => (cmp a b).isLE :=
  eq_mergeSort_of_perm h ((List.mergeSort_perm l' _).trans hperm) (pairwise_mergeSort_isLE l')

/-- An item is put behind those that it may not stand before. -/
theorem orderedInsert_append {le : α → α → Bool} {a : α} {front behind : List α}
    (hfront : ∀ b ∈ front, (!le a b) = true) (hbehind : ∀ b ∈ behind, le a b = true) :
    (front ++ behind).orderedInsert (fun a b => le a b = true) a = front ++ a :: behind := by
  induction front with
  | nil =>
      cases behind with
      | nil => rfl
      | cons b behind => exact List.orderedInsert_cons_of_le _ behind (hbehind b List.mem_cons_self)
  | cons c front ih =>
      obtain ⟨hc, hrest⟩ := List.forall_mem_cons.1 hfront
      rw [List.cons_append, List.orderedInsert_cons, if_neg (by simpa using hc), ih hrest,
        List.cons_append]

/-- Both sorts are stable. Unlike the one by merging, the one by insertion can be evaluated in a
proof. -/
theorem mergeSort_eq_insertionSort (l : List α) : (l.mergeSort fun a b => (cmp a b).isLE) =
    l.insertionSort fun a b => (cmp a b).isLE = true := by
  induction l with
  | nil => exact List.mergeSort_nil
  | cons a l ih =>
      have hsorted : ((a :: l).mergeSort fun a b => (cmp a b).isLE).Pairwise _ :=
        pairwise_mergeSort_isLE (a :: l)
      obtain ⟨front, behind, hcons, hl, hfront⟩ :=
        List.mergeSort_cons (fun _ _ _ => Std.TransCmp.isLE_trans) (isLE_total cmp) a l
      rw [hcons] at hsorted
      have hbehind := (List.pairwise_cons.1 (List.pairwise_append.1 hsorted).2.1).1
      rw [hcons, List.insertionSort_cons, ← ih, hl, orderedInsert_append hfront hbehind]

end Quarry
