import Quarry.Proofs.Sorting
import Quarry.Proofs.Store.Cursor
import Quarry.Store.Memory

/-!
# The results of a query and where they go on

Without sort orders the results stand in strict key order, so that the keys up to a given one make
up a front part of them. Bisection finds the end of that part.
-/

namespace Quarry

/-! ## Front parts -/

section Fronts

variable {α : Type} {P : α → Bool} {l : List α}

/-- The predicate holds of a front part of the list and of nothing behind it. -/
def Fronts (P : α → Bool) (l : List α) : Prop := l.Pairwise fun a b => P b = true → P a = true

theorem filter_append_filter_not (h : Fronts P l) : l.filter P ++ l.filter (fun a => !P a) = l := by
  induction l with
  | nil => rfl
  | cons a l ih =>
      obtain ⟨ha, hl⟩ := List.pairwise_cons.1 h
      by_cases hP : P a = true
      · simp [hP, ih hl]
      · have hnone : l.filter P = [] := by
          rw [List.filter_eq_nil_iff]
          intro b hb hPb
          exact hP (ha b hb hPb)
        have hrest := ih hl
        rw [hnone, List.nil_append] at hrest
        simp [hP, hnone, hrest]

theorem drop_countP (h : Fronts P l) : l.drop (l.countP P) = l.filter fun a => !P a := by
  have hsplit := filter_append_filter_not h
  calc l.drop (l.countP P)
      = (l.filter P ++ l.filter fun a => !P a).drop (l.filter P).length := by
        rw [hsplit, List.countP_eq_length_filter]
    _ = l.filter fun a => !P a := List.drop_left

theorem any_getElem?_iff (h : Fronts P l) (i : Nat) :
    (l[i]?).any P = true ↔ i < l.countP P := by
  have hsplit := filter_append_filter_not h
  rw [List.countP_eq_length_filter]
  suffices h : ((l.filter P ++ l.filter fun a => !P a)[i]?).any P = true ↔
      i < (l.filter P).length by rwa [hsplit] at h
  by_cases hi : i < (l.filter P).length
  · rw [List.getElem?_append_left hi, List.getElem?_eq_getElem hi]
    have hmem := List.getElem_mem hi
    simp [(List.mem_filter.1 hmem).2, hi]
  · rw [List.getElem?_append_right (by omega)]
    refine iff_of_false ?_ hi
    intro hany
    obtain ⟨a, ha, hPa⟩ := (Option.any_eq_true _ _).1 hany
    have hnot := (List.mem_filter.1 (List.mem_of_getElem? ha)).2
    simp [hPa] at hnot

end Fronts

/-! ## Bisection -/

/-- Bisection finds the index from which on a predicate holds no more. -/
theorem bisect_eq {holds : Nat → Bool} {n : Nat} {base size : Nat} (hbase : base ≤ n)
    (hsize : n ≤ base + size) (h : ∀ i, holds i = true ↔ i < n) : bisect holds base size = n := by
  -- The index that is sought stays between the base and the end of what is left.
  induction size using Nat.strongRecOn generalizing base with
  | _ size ih =>
      unfold bisect
      by_cases hlarge : 1 < size
      · rw [if_pos hlarge]
        by_cases hhalf : holds (base + size / 2) = true
        · have hn := (h _).1 hhalf
          simp only [if_pos hhalf]
          exact ih (size - size / 2) (by omega) (by omega) (by omega)
        · have hn : ¬ base + size / 2 < n := fun hlt => hhalf ((h _).2 hlt)
          simp only [if_neg hhalf]
          exact ih (size - size / 2) (by omega) hbase (by omega)
      · rw [if_neg hlarge]
        by_cases hone : size = 1 ∧ holds base = true
        · have hn := (h _).1 hone.2
          rw [if_pos hone]
          omega
        · have hn : size = 1 → ¬ base < n := fun hs hlt => hone ⟨hs, (h _).2 hlt⟩
          rw [if_neg hone]
          omega

/-! ## Key order -/

theorem Entities.Before.ne {a b : Entity} (h : Entities.Before a b) : a.key ≠ b.key := by
  intro hkey
  have hself : compare b.key b.key = .eq := Std.ReflCmp.compare_self
  rw [Entities.Before, hkey, hself] at h
  cases h

/-- In strict key order a key occurs once. -/
theorem countP_key_eq_one {es : List Entity} (h : es.Pairwise Entities.Before) {e : Entity}
    (he : e ∈ es) : es.countP (fun x => x.key = e.key) = 1 := by
  induction es with
  | nil => cases he
  | cons x es ih =>
      obtain ⟨hx, hes⟩ := List.pairwise_cons.1 h
      rcases List.mem_cons.1 he with rfl | he
      · have hnone : es.countP (fun x => x.key = e.key) = 0 := by
          rw [List.countP_eq_zero]
          intro y hy hkey
          exact (hx y hy).ne (of_decide_eq_true hkey).symm
        rw [List.countP_cons_of_pos (by simp), hnone]
      · have hne : x.key ≠ e.key := (hx e he).ne
        rw [List.countP_cons_of_neg (by simp [hne]), ih hes he]

theorem Order.sort_nil {es : List Entity} (h : es.Pairwise Entities.Before) :
    Order.sort [] es = es := by
  refine List.mergeSort_of_pairwise (h.imp ?_)
  intro a b hab
  show (Ord.compare a.key b.key).isLE = true
  rw [hab]
  rfl

/-- The key is not after `k`. -/
def Entity.notAfter (k : Key) (e : Entity) : Bool := (compare e.key k).isLE

theorem Entity.notAfter_eq_false {k : Key} {e : Entity} :
    e.notAfter k = false ↔ compare k e.key = .lt := by
  rw [Entity.notAfter, Ordering.isLE_eq_false, Std.OrientedCmp.gt_iff_lt]

theorem fronts_notAfter {es : List Entity} (h : es.Pairwise Entities.Before) (k : Key) :
    Fronts (Entity.notAfter k) es := by
  refine h.imp ?_
  intro a b hab hb
  exact Std.TransCmp.isLE_trans (Ordering.isLE_of_eq_lt hab) hb

/-- Up to the key of an entity there are that entity and those before it. -/
theorem countP_notAfter {es : List Entity} (h : es.Pairwise Entities.Before) {i : Nat}
    (hi : i < es.length) : es.countP (Entity.notAfter es[i].key) = i + 1 := by
  have hfronts := fronts_notAfter h es[i].key
  have hiff := any_getElem?_iff hfronts
  have hself : i < es.countP (Entity.notAfter es[i].key) := by
    rw [← hiff, List.getElem?_eq_getElem hi]
    simp [Entity.notAfter]
  have hnext : ¬ i + 1 < es.countP (Entity.notAfter es[i].key) := by
    intro hlt
    obtain ⟨e, he, hle⟩ := (Option.any_eq_true _ _).1 ((hiff (i + 1)).2 hlt)
    obtain ⟨hlen, rfl⟩ := List.getElem?_eq_some_iff.1 he
    have hbefore : compare es[i].key es[i + 1].key = .lt :=
      List.pairwise_iff_getElem.1 h i (i + 1) hi hlen (Nat.lt_succ_self i)
    rw [Entity.notAfter_eq_false.2 hbefore] at hle
    cases hle
  omega

namespace Memory

variable {m : Memory} {q : Query}

/-- The entities that a query matches, in key order. -/
def selected (q : Query) (m : Memory) : List Entity :=
  m.table.entities.filter fun e => q.covers e.key && q.satisfiedBy e

theorem matching_eq (q : Query) (m : Memory) : m.matching q = Order.sort q.orders (m.selected q) :=
  rfl

theorem pairwise_selected (q : Query) (m : Memory) : (m.selected q).Pairwise Entities.Before :=
  m.table.sorted.filter _

theorem matching_perm (q : Query) (m : Memory) : (m.matching q).Perm (m.selected q) :=
  List.mergeSort_perm _ _

/-- A query finds each entity once. -/
theorem nodup_matching (q : Query) (m : Memory) : ((m.matching q).map Entity.key).Nodup := by
  have hkeys : ((m.selected q).map Entity.key).Nodup :=
    List.pairwise_map.2 ((m.pairwise_selected q).imp Entities.Before.ne)
  exact ((m.matching_perm q).map Entity.key).nodup_iff.2 hkeys

theorem matching_of_orders_nil (h : q.orders = []) : m.matching q = m.selected q := by
  rw [matching_eq, h, Order.sort_nil (m.pairwise_selected q)]

theorem length_matching_le (q : Query) (m : Memory) :
    (m.matching q).length ≤ m.table.entities.length := by
  rw [(m.matching_perm q).length_eq]
  exact List.length_filter_le _ _

/-! ## Where a query starts -/

theorem startIndex_none {es : List Entity} (h : q.start = none) : startIndex q es = .ok 0 := by
  rw [startIndex, h]

theorem startIndex_after {es : List Entity} {k : Key}
    (h : q.start = some (Position.after k).encode) (hes : es.Pairwise Entities.Before) :
    startIndex q es = .ok (es.countP (Entity.notAfter k)) := by
  have hfits : (Position.after k).Fits := trivial
  have hbisect := bisect_eq (Nat.zero_le _) (by simpa using List.countP_le_length)
    (any_getElem?_iff (fronts_notAfter hes k))
  rw [startIndex, h]
  simp only [Position.decode_encode hfits]
  exact congrArg Except.ok hbisect

theorem startIndex_index {es : List Entity} {i : Nat} (hi : i < Nat.pow 2 64)
    (h : q.start = some (Position.index i).encode) :
    startIndex q es = .ok (min i es.length) := by
  have hfits : (Position.index i).Fits := hi
  rw [startIndex, h]
  simp only [Position.decode_encode hfits]

end Memory

end Quarry
