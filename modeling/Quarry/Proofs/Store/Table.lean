import Mathlib.Data.List.Nodup
import Quarry.Proofs.Store.Lookup

/-!
# What a table holds

A table is told by what it holds under each key. Storing an entity changes that for its own key, and
erasing keys for these keys. The entities of other keys stay as they are, in their order.
-/

namespace Quarry

namespace Entities

/-- The entity of a key after another has been put in its place. -/
theorem find?_insert (e : Entity) (es : List Entity) (k : Key) :
    (insert e es).find? (fun x => x.key == k) =
      if e.key = k then some e else es.find? fun x => x.key == k := by
  induction es with
  | nil => by_cases h : e.key = k <;> simp [insert, h]
  | cons x es ih =>
      unfold insert
      split
      · by_cases h : e.key = k <;> simp [h]
      · rename_i heq
        have hkey : e.key = x.key := Std.LawfulEqOrd.eq_of_compare heq
        by_cases h : e.key = k
        · simp [h]
        · have hx : x.key ≠ k := hkey ▸ h
          simp [h, hx]
      · rename_i hgt
        by_cases hx : x.key = k
        · -- The entity goes behind the one of `k`, so its own key is another.
          have h : e.key ≠ k := by
            intro h
            have hself : compare e.key x.key = .eq := by
              rw [h, hx]
              exact Std.ReflCmp.compare_self
            rw [hself] at hgt
            cases hgt
          simp [h, hx]
        · simp [hx, ih]

/-- An entity under a new key is one more. -/
theorem length_insert {e : Entity} {es : List Entity} (h : ∀ x ∈ es, x.key ≠ e.key) :
    (insert e es).length = es.length + 1 := by
  induction es with
  | nil => rfl
  | cons x es ih =>
      obtain ⟨hx, hes⟩ := List.forall_mem_cons.1 h
      unfold insert
      split
      · rfl
      · rename_i heq
        exact absurd (Std.LawfulEqOrd.eq_of_compare heq).symm hx
      · rw [List.length_cons, ih hes, List.length_cons]

/-- A key stands for one entity. -/
theorem eq_of_key_eq {es : List Entity} (h : es.Pairwise Before) {x y : Entity} (hx : x ∈ es)
    (hy : y ∈ es) (hkey : x.key = y.key) : x = y := by
  induction es with
  | nil => cases hx
  | cons z es ih =>
      obtain ⟨hz, hes⟩ := List.pairwise_cons.1 h
      rcases List.mem_cons.1 hx with rfl | hx'
      · rcases List.mem_cons.1 hy with rfl | hy'
        · rfl
        · exact absurd hkey (hz y hy').ne
      · rcases List.mem_cons.1 hy with rfl | hy'
        · exact absurd hkey.symm (hz x hx').ne
        · exact ih hes hx' hy'

end Entities

namespace Table

variable {t : Table} {k : Key}

theorem get?_eq_some_iff {e : Entity} : t.get? k = some e ↔ e ∈ t.entities ∧ e.key = k := by
  constructor
  · intro h
    have hkey := List.find?_some h
    exact ⟨List.mem_of_find?_eq_some h, beq_iff_eq.1 hkey⟩
  · rintro ⟨he, rfl⟩
    cases hget : t.get? e.key with
    | none => exact absurd (List.find?_eq_none.1 hget e he) (by simp)
    | some x =>
        have hkey := List.find?_some hget
        rw [Entities.eq_of_key_eq t.sorted (List.mem_of_find?_eq_some hget) he (beq_iff_eq.1 hkey)]

theorem get?_insert (t : Table) (e : Entity) (k : Key) :
    (t.insert e).get? k = if e.key = k then some e else t.get? k :=
  Entities.find?_insert e t.entities k

theorem get?_insertAll_of_ne {es : List Entity} (h : ∀ e ∈ es, e.key ≠ k) :
    (t.insertAll es).get? k = t.get? k := by
  induction es generalizing t with
  | nil => rfl
  | cons e es ih =>
      have hrest : ∀ x ∈ es, x.key ≠ k := fun x hx => h x (List.mem_cons_of_mem e hx)
      have hinsert : (t.insert e).get? k = t.get? k := by
        rw [get?_insert, if_neg (h e List.mem_cons_self)]
      exact (ih hrest).trans hinsert

/-- Of entities that are stored one after another, the last one of a key is found. -/
theorem exists_get?_insertAll {es : List Entity} (h : ∃ e ∈ es, e.key = k) :
    ∃ e ∈ es, e.key = k ∧ (t.insertAll es).get? k = some e := by
  induction es generalizing t with
  | nil =>
      obtain ⟨e, he, _⟩ := h
      cases he
  | cons x es ih =>
      by_cases hrest : ∃ e ∈ es, e.key = k
      · obtain ⟨e, he, hkey, hget⟩ := ih (t := t.insert x) hrest
        exact ⟨e, List.mem_cons_of_mem x he, hkey, hget⟩
      · have hx : x.key = k := by
          obtain ⟨e, he, hkey⟩ := h
          rcases List.mem_cons.1 he with rfl | he
          · exact hkey
          · exact absurd ⟨e, he, hkey⟩ hrest
        refine ⟨x, List.mem_cons_self, hx, ?_⟩
        have hothers : ∀ e ∈ es, e.key ≠ k := fun e he hkey => hrest ⟨e, he, hkey⟩
        have hinsert : (t.insert x).get? k = some x := by rw [get?_insert, if_pos hx]
        exact (get?_insertAll_of_ne hothers).trans hinsert

/-- Of entities that are stored under keys of their own, each is found. -/
theorem get?_insertAll_of_mem {es : List Entity} (h : (es.map Entity.key).Nodup) {e : Entity}
    (he : e ∈ es) : (t.insertAll es).get? e.key = some e := by
  obtain ⟨x, hx, hkey, hget⟩ := exists_get?_insertAll (t := t) ⟨e, he, rfl⟩
  rw [hget, List.inj_on_of_nodup_map h hx he hkey]

/-- Entities that are written over a table are there, and those of other keys stay. -/
theorem mem_of_insertAll {es : List Entity} {e : Entity} (h : e ∈ (t.insertAll es).entities) :
    e ∈ es ∨ e ∈ t.entities ∧ ∀ x ∈ es, x.key ≠ e.key := by
  have hget := get?_eq_some_iff.2 ⟨h, rfl⟩
  by_cases hkey : ∃ x ∈ es, x.key = e.key
  · obtain ⟨x, hx, _, hx'⟩ := exists_get?_insertAll (t := t) hkey
    rw [hget] at hx'
    exact .inl (Option.some.inj hx' ▸ hx)
  · have hothers : ∀ x ∈ es, x.key ≠ e.key := fun x hx heq => hkey ⟨x, hx, heq⟩
    rw [get?_insertAll_of_ne hothers] at hget
    exact .inr ⟨(get?_eq_some_iff.1 hget).1, hothers⟩

theorem entities_erase (t : Table) (k : Key) :
    (t.erase k).entities = t.entities.filter fun e => e.key != k := rfl

/-- Erasing keys leaves the entities of all others. -/
theorem entities_eraseAll (t : Table) (ks : List Key) :
    (t.eraseAll ks).entities = t.entities.filter fun e => e.key ∉ ks := by
  induction ks generalizing t with
  | nil => exact (List.filter_eq_self.2 fun _ _ => rfl).symm
  | cons k ks ih =>
      show ((t.erase k).eraseAll ks).entities = _
      rw [ih, entities_erase, List.filter_filter]
      refine List.filter_congr ?_
      intro e _
      by_cases hk : e.key = k <;> by_cases hks : e.key ∈ ks <;> simp [hk, hks]

/-- Erasing the keys of stored entities leaves all other entities. -/
theorem entities_eraseAll_stored {es : List Entity} (h : ∀ e ∈ es, e ∈ t.entities) :
    (t.eraseAll (es.map Entity.key)).entities = t.entities.filter fun e => e ∉ es := by
  rw [entities_eraseAll]
  refine List.filter_congr ?_
  intro e he
  apply decide_eq_decide.2
  apply not_congr
  constructor
  · intro hkey
    obtain ⟨x, hx, hsame⟩ := List.mem_map.1 hkey
    rwa [← Entities.eq_of_key_eq t.sorted (h x hx) he hsame]
  · exact List.mem_map_of_mem

theorem get?_eq_none_iff : t.get? k = none ↔ ∀ e ∈ t.entities, e.key ≠ k := by
  rw [get?, List.find?_eq_none]
  constructor
  · intro h e he hkey
    exact h e he (beq_iff_eq.2 hkey)
  · intro h e he hkey
    exact h e he (beq_iff_eq.1 hkey)

theorem get?_eraseAll_of_mem {ks : List Key} (h : k ∈ ks) : (t.eraseAll ks).get? k = none := by
  rw [get?_eq_none_iff, entities_eraseAll]
  intro e he hkey
  obtain ⟨_, hnot⟩ := List.mem_filter.1 he
  exact of_decide_eq_true hnot (hkey ▸ h)

theorem get?_eraseAll_of_not_mem {ks : List Key} (h : k ∉ ks) :
    (t.eraseAll ks).get? k = t.get? k := by
  rw [get?, get?, entities_eraseAll, List.find?_filter]
  refine congrFun (congrArg List.find? (funext fun e => ?_)) t.entities
  by_cases hkey : e.key = k
  · simp [hkey, h]
  · simp [hkey]

/-- What is found under a key after entities were stored is one of them, or what was found before. -/
theorem get?_insertAll_congr {t' : Table} (h : t.get? k = t'.get? k) (es : List Entity) :
    (t.insertAll es).get? k = (t'.insertAll es).get? k := by
  induction es generalizing t t' with
  | nil => exact h
  | cons e es ih =>
      refine ih ?_
      rw [get?_insert, get?_insert, h]

/-- What is not there is not brought in by erasing. -/
theorem get?_eraseAll_eq_none (h : t.get? k = none) (ks : List Key) :
    (t.eraseAll ks).get? k = none := by
  rw [get?_eq_none_iff] at h ⊢
  rw [entities_eraseAll]
  intro e he
  exact h e (List.mem_filter.1 he).1

theorem eraseAll_append (t : Table) (ks ls : List Key) :
    t.eraseAll (ks ++ ls) = (t.eraseAll ks).eraseAll ls := List.foldl_append

end Table

end Quarry
