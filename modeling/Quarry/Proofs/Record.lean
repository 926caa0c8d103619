import Quarry.Record

/-!
# What a record holds

A record holds a value in a column exactly if the two stand together in it. Taking a column out
leaves the others as they are, though not in their order. Columns that are written one after another
leave those of other names as they are.
-/

namespace Quarry

open Json

namespace Record

variable {column name : String} {v : Value}

/-- With each name once, what is found under a name is what stands beside it. -/
theorem lookup_eq_some_iff {columns : List (String × Value)}
    (h : (columns.map Prod.fst).Nodup) :
    columns.lookup column = some v ↔ (column, v) ∈ columns := by
  induction columns with
  | nil => simp
  | cons c columns ih =>
      obtain ⟨n, w⟩ := c
      obtain ⟨hnot, hrest⟩ := List.nodup_cons.1 h
      by_cases hn : column = n
      · subst hn
        rw [List.lookup_cons_self, Option.some.injEq, List.mem_cons]
        constructor
        · rintro rfl
          exact .inl rfl
        · rintro (heq | hmem)
          · cases heq
            rfl
          · exact absurd (List.mem_map_of_mem hmem) hnot
      · rw [List.lookup_cons, beq_eq_false_iff_ne.2 hn, List.mem_cons]
        refine (ih hrest).trans ⟨.inr, ?_⟩
        rintro (heq | hmem)
        · cases heq
          exact absurd rfl hn
        · exact hmem

theorem get?_eq_some_iff {r : Record} : r.get? column = some v ↔ (column, v) ∈ r.columns :=
  lookup_eq_some_iff r.distinct

theorem get?_restrict (r : Record) (keep : String → Bool) (column : String) :
    (r.restrict keep).get? column = if keep column = true then r.get? column else none := by
  refine Option.ext ?_
  intro v
  rw [get?_eq_some_iff]
  show (column, v) ∈ r.columns.filter _ ↔ _
  rw [List.mem_filter, ← get?_eq_some_iff]
  by_cases h : keep column = true <;> simp [h]

theorem lookup_cons (c : String × Value) (columns : List (String × Value)) (column : String) :
    (c :: columns).lookup column = if column = c.1 then some c.2 else columns.lookup column := by
  by_cases h : column = c.1
  · rw [if_pos h, h, List.lookup_cons_self]
  · rw [if_neg h, List.lookup_cons, beq_eq_false_iff_ne.2 h]

theorem lookup_putMember (name : String) (v : Value) (columns : List (String × Value))
    (column : String) :
    (putMember name v columns).lookup column =
      if column = name then some v else columns.lookup column := by
  induction columns with
  | nil => exact lookup_cons (name, v) [] column
  | cons c columns ih =>
      obtain ⟨n, w⟩ := c
      unfold putMember
      by_cases hn : n = name
      · rw [if_pos hn, lookup_cons, lookup_cons, hn]
        split <;> rfl
      · rw [if_neg hn, lookup_cons, lookup_cons, ih]
        by_cases hcolumn : column = n
        · rw [if_pos hcolumn, if_pos hcolumn, if_neg (hcolumn ▸ hn)]
        · rw [if_neg hcolumn, if_neg hcolumn]

theorem get?_put (r : Record) (name : String) (v : Value) (column : String) :
    (r.put name v).get? column = if column = name then some v else r.get? column :=
  lookup_putMember name v r.columns column

/-- Of columns that are written one after another, the last one of a name counts. -/
theorem get?_putAll (r : Record) (columns : List (String × Value)) (column : String) :
    (r.putAll columns).get? column = (columns.reverse.lookup column).or (r.get? column) := by
  induction columns generalizing r with
  | nil => rfl
  | cons c columns ih =>
      have hrest := ih (r.put c.1 c.2)
      rw [get?_put] at hrest
      rw [List.reverse_cons, List.lookup_append, Option.or_assoc, lookup_cons, List.lookup_nil]
      refine hrest.trans ?_
      by_cases hc : column = c.1 <;> simp [hc]

theorem get?_putAll_of_not_mem (r : Record) {columns : List (String × Value)}
    (h : ∀ w, (column, w) ∉ columns) : (r.putAll columns).get? column = r.get? column := by
  have hnone : columns.reverse.lookup column = none := by
    rw [List.lookup_eq_none_iff]
    intro c hc
    rw [bne_iff_ne]
    rintro rfl
    exact h c.2 (List.mem_reverse.1 hc)
  rw [get?_putAll, hnone, Option.none_or]

/-- A column that is written with one value only has it. -/
theorem get?_putAll_of_mem (r : Record) {columns : List (String × Value)}
    (h : (column, v) ∈ columns) (honly : ∀ w, (column, w) ∈ columns → w = v) :
    (r.putAll columns).get? column = some v := by
  rw [get?_putAll]
  cases hlast : columns.reverse.lookup column with
  | none =>
      have hne := List.lookup_eq_none_iff.1 hlast _ (List.mem_reverse.2 h)
      simp at hne
  | some w =>
      obtain ⟨_, _, hsplit, _⟩ := List.lookup_eq_some_iff.1 hlast
      have hmem : (column, w) ∈ columns.reverse := by simp [hsplit]
      rw [honly w (List.mem_reverse.1 hmem), Option.some_or]

/-- A record written over another shows through it where it has no column. -/
theorem get?_putAll_columns (r values : Record) (column : String) :
    (r.putAll values.columns).get? column = (values.get? column).or (r.get? column) := by
  cases hv : values.get? column with
  | none =>
      refine get?_putAll_of_not_mem r ?_
      intro w hw
      rw [get?_eq_some_iff.2 hw] at hv
      cases hv
  | some v =>
      refine get?_putAll_of_mem r (get?_eq_some_iff.1 hv) ?_
      intro w hw
      rw [get?_eq_some_iff.2 hw] at hv
      exact Option.some.inj hv

/-- Columns of new names, each of them once, are written as they are, behind all others. -/
theorem columns_putAll (r : Record) {columns : List (String × Value)}
    (hdistinct : (columns.map Prod.fst).Nodup)
    (hnew : ∀ c ∈ columns, c.1 ∉ r.columns.map Prod.fst) :
    (r.putAll columns).columns = r.columns ++ columns := by
  induction columns generalizing r with
  | nil => exact (List.append_nil _).symm
  | cons c columns ih =>
      obtain ⟨hc, hdistinct⟩ := List.nodup_cons.1 hdistinct
      have hput : (r.put c.1 c.2).columns = r.columns ++ [c] :=
        Columns.putMember_of_not_mem (hnew c List.mem_cons_self)
      have hrest := ih (r.put c.1 c.2) hdistinct
      rw [hput] at hrest
      show ((r.put c.1 c.2).putAll columns).columns = _
      rw [hrest, List.append_assoc, List.singleton_append]
      intro d hd hmem
      rw [List.map_append, List.mem_append] at hmem
      rcases hmem with hmem | hmem
      · exact hnew d (List.mem_cons_of_mem c hd) hmem
      · rw [List.map_singleton, List.mem_singleton] at hmem
        exact hc (hmem ▸ List.mem_map_of_mem hd)

theorem columns_ofColumns {columns : List (String × Value)}
    (h : (columns.map Prod.fst).Nodup) : (ofColumns columns).columns = columns :=
  columns_putAll empty h fun _ _ => List.not_mem_nil

/-! ## Records but for the order of their columns -/

/-- The same columns with the same values, in any order. -/
def Same (r s : Record) : Prop := r.columns.Perm s.columns

theorem nodup_columns (r : Record) : r.columns.Nodup :=
  List.Pairwise.of_map Prod.fst (fun _ _ hne heq => hne (congrArg Prod.fst heq)) r.distinct

theorem same_iff {r s : Record} : r.Same s ↔ ∀ column, r.get? column = s.get? column := by
  constructor
  · intro h column
    refine Option.ext ?_
    intro v
    rw [get?_eq_some_iff, get?_eq_some_iff]
    exact h.mem_iff
  · intro h
    refine (List.perm_ext_iff_of_nodup r.nodup_columns s.nodup_columns).2 ?_
    rintro ⟨column, v⟩
    rw [← get?_eq_some_iff, ← get?_eq_some_iff, h]

theorem eraseP_eq_filter {columns : List (String × Value)} (h : (columns.map Prod.fst).Nodup) :
    (columns.eraseP fun c => c.1 = name) = columns.filter fun c => c.1 != name := by
  induction columns with
  | nil => rfl
  | cons c columns ih =>
      obtain ⟨hc, hrest⟩ := List.nodup_cons.1 h
      by_cases hn : c.1 = name
      · rw [List.eraseP_cons_of_pos (by simpa using hn), List.filter_cons_of_neg (by simpa using hn)]
        refine (List.filter_eq_self.2 ?_).symm
        intro d hd
        have hne : d.1 ≠ name := fun heq => hc (hn.trans heq.symm ▸ List.mem_map_of_mem hd)
        simpa using hne
      · rw [List.eraseP_cons_of_neg (by simpa using hn), List.filter_cons_of_pos (by simpa using hn),
          ih hrest]

/-- What is left when a column is taken out are the columns of other names. -/
theorem same_takeOut (r : Record) (name : String) :
    (r.takeOut name).Same (r.restrict (· != name)) := by
  have hperm := Columns.takeOut_perm name r.columns
  rw [eraseP_eq_filter r.distinct] at hperm
  exact hperm

theorem get?_takeOut (r : Record) (name column : String) :
    (r.takeOut name).get? column = if column = name then none else r.get? column := by
  rw [same_iff.1 (r.same_takeOut name), get?_restrict]
  by_cases h : column = name <;> simp [h]

end Record

end Quarry
