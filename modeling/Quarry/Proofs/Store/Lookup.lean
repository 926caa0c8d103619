import Quarry.Proofs.Engine.Drain

/-!
# Keys looked up and keys filtered

An equality filter on the key selects at most the entity of that key, so that looking the key up
finds what filtering all entities would.
-/

namespace Quarry

namespace Memory

variable {m : Memory} {q : Query} {k : Key}

/-- The key that is looked up is the operand of an equality filter. -/
theorem filter_of_keyLookup? (h : q.keyLookup? = some k) :
    ∃ f ∈ q.filters, f.op = .eq ∧ f.operand = .key k := by
  obtain ⟨f, hf, hk⟩ := List.exists_of_findSome?_eq_some h
  obtain ⟨property, op, operand⟩ := f
  cases op <;> cases operand <;> cases hk
  exact ⟨_, hf, rfl, rfl⟩

theorem key_eq_of_satisfiedBy (h : q.keyLookup? = some k) {e : Entity} (he : q.satisfiedBy e) :
    e.key = k := by
  obtain ⟨f, hf, hop, hoperand⟩ := filter_of_keyLookup? h
  have hadmits := List.all_eq_true.1 he f hf
  rw [Filter.admits, hoperand, hop] at hadmits
  exact Std.LawfulEqOrd.eq_of_compare (beq_iff_eq.1 hadmits)

/-- A filter that holds of one key only finds what the search for that key finds. -/
theorem filter_eq_find? {es : List Entity} (h : es.Pairwise Entities.Before) {P : Entity → Bool}
    (hP : ∀ e, P e = true → e.key = k) :
    es.filter P = ((es.find? fun e => e.key == k).filter P).toList := by
  induction es with
  | nil => rfl
  | cons x es ih =>
      obtain ⟨hx, hes⟩ := List.pairwise_cons.1 h
      by_cases hkey : x.key = k
      · have hnone : es.filter P = [] := by
          rw [List.filter_eq_nil_iff]
          intro y hy hPy
          exact (hx y hy).ne (hkey.trans (hP y hPy).symm)
        rw [List.find?_cons_of_pos (by simp [hkey]), List.filter_cons, hnone]
        cases hPx : P x <;> simp [Option.filter_some, hPx]
      · have hPx : ¬ P x = true := fun hPx => hkey (hP x hPx)
        rw [List.find?_cons_of_neg (by simp [hkey]), List.filter_cons_of_neg hPx, ih hes]

/-- The entity of a key that is looked up, if the query matches it. -/
def found? (q : Query) (k : Key) (m : Memory) : Option Entity :=
  (m.get? k).filter fun e => q.covers e.key && q.satisfiedBy e

theorem selected_of_keyLookup? (h : q.keyLookup? = some k) :
    m.selected q = (m.found? q k).toList :=
  filter_eq_find? m.table.sorted fun _ he =>
    key_eq_of_satisfiedBy h (Bool.and_eq_true_iff.1 he).2

/-- There is nothing to sort in the results of a key that is looked up. -/
theorem matching_of_keyLookup? (h : q.keyLookup? = some k) :
    m.matching q = (m.found? q k).toList := by
  rw [matching_eq, selected_of_keyLookup? h]
  cases m.found? q k with
  | none => exact List.mergeSort_nil
  | some e => exact List.mergeSort_singleton e

theorem key_of_get? {e : Entity} (h : m.get? k = some e) : e.key = k := by
  have hkey := List.find?_some h
  exact beq_iff_eq.1 hkey

/-- In the namespace of the query, a lookup without an offset finds the entity of its key. -/
theorem entities_lookup (hspace : k.space = q.space) :
    (m.lookup q k).slots.filterMap id =
      if 0 < q.offset.getD 0 then [] else ((m.found? q k).map q.shape).toList := by
  unfold lookup found?
  by_cases hoffset : 0 < q.offset.getD 0
  · rw [if_pos hoffset, if_pos (by simp [hoffset])]
    rfl
  · rw [if_neg hoffset]
    cases hget : m.get? k with
    | none => split <;> rfl
    | some e =>
        have hcovers : q.covers e.key = (k.kind == q.kind) := by
          rw [key_of_get? hget, Query.covers, hspace, beq_self_eq_true, Bool.true_and]
        rw [Option.filter_some, hcovers]
        by_cases hkind : k.kind = q.kind <;> by_cases hmatch : q.satisfiedBy e = true <;>
          simp [hoffset, hkind, hmatch, Page.last]

theorem cut_drop_toList {α : Type} {limit : Option Nat} (hlimit : limit ≠ some 0) (offset : Nat)
    (o : Option α) : cut limit (o.toList.drop offset) = if 0 < offset then [] else o.toList := by
  by_cases hoffset : 0 < offset
  · have hdrop : o.toList.drop offset = [] := by
      refine List.drop_eq_nil_of_le (Nat.le_trans ?_ hoffset)
      cases o
      · exact Nat.zero_le 1
      · exact Nat.le_refl 1
    rw [if_pos hoffset, hdrop]
    cases limit
    · rfl
    · exact List.take_nil
  · have hzero : offset = 0 := Nat.eq_zero_of_not_pos hoffset
    rw [if_neg hoffset, hzero, List.drop_zero]
    cases limit with
    | none => rfl
    | some n =>
        have hn : n ≠ 0 := fun h => hlimit (congrArg some h)
        refine List.take_of_length_le (Nat.le_trans ?_ (Nat.one_le_iff_ne_zero.2 hn))
        cases o
        · exact Nat.zero_le 1
        · exact Nat.le_refl 1

/-- **Looking up is filtering.** In the namespace of the query, and under no limit of nothing, the
entities that a lookup finds are those that the offset and the limit leave of the matching ones. -/
theorem lookup_entities (h : q.keyLookup? = some k) (hspace : k.space = q.space)
    (hlimit : q.limit ≠ some 0) :
    (m.lookup q k).slots.filterMap id =
      (cut q.limit ((m.matching q).drop (q.offset.getD 0))).map q.shape := by
  rw [entities_lookup hspace, matching_of_keyLookup? h, cut_drop_toList hlimit]
  split
  · rfl
  · cases m.found? q k <;> rfl

end Memory

end Quarry
