import Quarry.Proofs.Except
import Quarry.Proofs.Listing
import Quarry.Proofs.Store.Lookup

/-!
# What compiled queries find

The query of a group matches the entities of the group's listing, in its order, whether the store
filters all entities or looks up a key.
-/

namespace Quarry

open Json

namespace Compiler

variable {c : Compiler} {criteria : Criteria} {g : Group} {q : Query}

/-! ## Filters -/

/-- A filter compares the key, for a predicate on the primary-key column, or else a property. -/
theorem filter_cases {p : Predicate} {f : Filter} (h : c.filter p = .ok f) :
    (p.field = c.model.primaryKeyColumn ∧ ∃ id, KeyId.ofValue? p.value = some id ∧
      f = ⟨keyProperty, p.op, .key (c.model.keyOf c.space (some id))⟩) ∨
    (p.field ≠ c.model.primaryKeyColumn ∧ f = ⟨p.field, p.op, .value p.value⟩) := by
  by_cases hcolumn : p.field = c.model.primaryKeyColumn
  · rw [filter, if_pos hcolumn] at h
    obtain ⟨k, hk, rfl⟩ := map_eq_ok.1 h
    unfold keyFor at hk
    cases hid : KeyId.ofValue? p.value with
    | none =>
        rw [hid] at hk
        cases hk
    | some id =>
        rw [hid] at hk
        cases hk
        exact .inl ⟨hcolumn, id, rfl, rfl⟩
  · rw [filter, if_neg hcolumn] at h
    cases h
    exact .inr ⟨hcolumn, rfl⟩

/-- A filter admits the entities that satisfy its predicate. -/
theorem admits_filter {p : Predicate} {f : Filter} (h : c.filter p = .ok f) (e : Entity) :
    f.admits e = c.model.satisfies c.space e p := by
  unfold Model.satisfies
  rcases filter_cases h with ⟨hcolumn, id, hid, rfl⟩ | ⟨hcolumn, rfl⟩
  · rw [if_pos hcolumn, hid]
    rfl
  · rw [if_neg hcolumn]
    unfold Filter.admits
    cases e.properties.get? p.field <;> rfl

/-- A key that a filter compares with is one of the model's keys in the compiler's namespace. -/
theorem space_of_filter {p : Predicate} {f : Filter} (h : c.filter p = .ok f) {k : Key}
    (hk : f.operand = .key k) : k.space = c.space := by
  rcases filter_cases h with ⟨_, id, _, rfl⟩ | ⟨_, rfl⟩
  · cases hk
    rfl
  · cases hk

/-! ## Columns -/

theorem mem_distinct {name : String} {acc names : List String} :
    name ∈ names.foldl (fun acc n => if acc.contains n then acc else acc ++ [n]) acc ↔
      name ∈ acc ∨ name ∈ names := by
  induction names generalizing acc with
  | nil => simp
  | cons n names ih =>
      rw [List.foldl_cons, ih]
      by_cases hn : acc.contains n = true
      · have hmem : n ∈ acc := List.contains_iff_mem.1 hn
        rw [if_pos hn, List.mem_cons]
        constructor
        · exact Or.imp id .inr
        · rintro (h | rfl | h)
          · exact .inl h
          · exact .inl hmem
          · exact .inr h
      · rw [if_neg hn, List.mem_append, List.mem_singleton, List.mem_cons, or_assoc]

/-- The properties to fetch are the selected columns other than the primary key. -/
theorem mem_projection {name : String} {names : List String} :
    name ∈ c.projection names ↔ name ∈ names ∧ name ≠ c.model.primaryKeyColumn := by
  rw [projection, mem_distinct, List.mem_filter, bne_iff_ne]
  simp

/-- A record shows of an entity its key and the properties beside the primary-key column. -/
theorem toRecord_congr {m : Model} {a b : Entity} (hkey : a.key = b.key)
    (hcolumns : a.properties.columns.filter (fun c => c.1 != m.primaryKeyColumn) =
      b.properties.columns.filter fun c => c.1 != m.primaryKeyColumn) :
    m.toRecord a = m.toRecord b := by
  rw [Model.toRecord, Model.toRecord, hkey, hcolumns]

theorem toRecord_restrict {m : Model} {keep keep' : String → Bool} {e : Entity}
    (h : ∀ name, name ≠ m.primaryKeyColumn → keep name = keep' name) :
    m.toRecord { e with properties := e.properties.restrict keep } =
      m.toRecord { e with properties := e.properties.restrict keep' } := by
  refine toRecord_congr rfl ?_
  rw [Record.restrict, Record.restrict, List.filter_filter, List.filter_filter]
  refine List.filter_congr ?_
  intro column _
  by_cases hkey : column.1 = m.primaryKeyColumn
  · simp [hkey]
  · rw [h column.1 hkey]

/-- A query for selected fields returns what a record of these fields shows. -/
theorem toRecord_select {names : List String} (e : Entity) (hkeys : q.keysOnly = false) :
    c.model.toRecord ((c.select q (.fields names)).shape e) =
      c.model.recordOf (.fields names) e := by
  have hkeep : ∀ name, name ≠ c.model.primaryKeyColumn →
      (c.projection names).contains name = (Selection.fields names).includes name := by
    intro name hname
    rw [Bool.eq_iff_iff, Selection.includes, List.contains_iff_mem, List.contains_iff_mem,
      mem_projection]
    exact and_iff_left hname
  have hrecord := toRecord_restrict (e := e) hkeep
  rw [Model.recordOf, ← hrecord, select]
  cases hnames : c.projection names with
  | nil =>
      -- Without columns to fetch only keys are asked for, and such entities have no properties.
      have hnone : (e.properties.restrict ([] : List String).contains).columns = [] :=
        List.filter_eq_nil_iff.2 (by simp)
      refine toRecord_congr rfl ?_
      rw [hnone]
      rfl
  | cons name rest =>
      unfold Query.shape
      rw [hkeys]
      rfl

/-- A selection only narrows what a query returns. -/
theorem select_eq (c : Compiler) (q : Query) (s : Selection) :
    ∃ keysOnly projection, c.select q s = { q with keysOnly, projection } := by
  cases s with
  | everything => exact ⟨_, _, rfl⟩
  | fields names =>
      rw [select]
      split
      · exact ⟨_, _, rfl⟩
      · exact ⟨_, _, rfl⟩

/-! ## Queries -/

/-- What the query of a group consists of. -/
structure Compiles (c : Compiler) (criteria : Criteria) (g : Group) (q : Query) : Prop where
  filters : List.Forall₂ (fun p f => c.filter p = .ok f) g q.filters
  space : q.space = c.space
  kind : q.kind = c.model.kind
  orders : q.orders = criteria.sort.map c.order
  limit : q.limit = c.limit criteria.limit
  offset : q.offset = criteria.skip.filter (0 < ·)
  start : q.start = none
  record : ∀ e, c.model.toRecord (q.shape e) = c.model.recordOf criteria.select e

theorem compiles_of_compile (h : c.compile criteria g = .ok q) : Compiles c criteria g q := by
  obtain ⟨filters, hfilters, h⟩ := bind_eq_ok.1 h
  have hfilters' := mapM_eq_ok.1 hfilters
  generalize hbase : ({ Query.ofKind c.space c.model.kind with
    filters
    orders := criteria.sort.map c.order
    limit := c.limit criteria.limit
    offset := criteria.skip.filter (0 < ·) } : Query) = base at h
  have hq : c.select base criteria.select = q := Except.ok.inj h
  obtain ⟨keysOnly, projection, hselect⟩ := c.select_eq base criteria.select
  have hrecord : ∀ e, c.model.toRecord (q.shape e) = c.model.recordOf criteria.select e := by
    intro e
    rw [← hq]
    cases criteria.select with
    | everything =>
        rw [← hbase]
        refine toRecord_congr rfl ?_
        show _ = (e.properties.columns.filter fun _ => true).filter _
        rw [List.filter_true]
        rfl
    | fields names => exact toRecord_select e (by rw [← hbase]; rfl)
  rw [← hq, hselect, ← hbase] at hrecord ⊢
  exact ⟨hfilters', rfl, rfl, rfl, rfl, rfl, rfl, hrecord⟩

/-- Queries of criteria start anew. -/
theorem start_of_queries {queries : List Query} (h : c.queries criteria = .ok queries) :
    ∀ q ∈ queries, q.start = none := by
  obtain ⟨gs, _, hcompiled⟩ := bind_eq_ok.1 h
  intro q hq
  obtain ⟨g, _, hg⟩ := exists_of_mem_right (mapM_eq_ok.1 hcompiled) hq
  exact (compiles_of_compile hg).start

/-- Where everything is selected, entities come as they are. -/
theorem shape_of_compile (h : c.compile criteria g = .ok q)
    (hselect : criteria.select = .everything) (e : Entity) : q.shape e = e := by
  obtain ⟨filters, _, hcompiled⟩ := bind_eq_ok.1 h
  rw [hselect] at hcompiled
  cases hcompiled
  rfl

theorem shape_of_queries {queries : List Query} (h : c.queries criteria = .ok queries)
    (hselect : criteria.select = .everything) {q : Query} (hq : q ∈ queries) (e : Entity) :
    q.shape e = e := by
  obtain ⟨gs, _, hcompiled⟩ := bind_eq_ok.1 h
  obtain ⟨g, _, hg⟩ := exists_of_mem_right (mapM_eq_ok.1 hcompiled) hq
  exact shape_of_compile hg hselect e

/-! ## Results -/

theorem satisfiedBy_of_compiles (h : Compiles c criteria g q) (e : Entity) :
    q.satisfiedBy e = g.all (c.model.satisfies c.space e) := by
  have hfilters := h.filters
  rw [Query.satisfiedBy]
  generalize q.filters = filters at hfilters
  clear h
  induction hfilters with
  | nil => rfl
  | cons hf _ ih => rw [List.all_cons, List.all_cons, admits_filter hf, ih]

theorem ascending_order (c : Compiler) (s : Sorting) (a b : Entity) :
    (c.order s).ascending a b =
      if s.field = c.model.primaryKeyColumn ∨ s.field = keyProperty then compare a.key b.key
      else sortCompareOptional (a.properties.get? s.field) (b.properties.get? s.field) := by
  unfold Order.ascending
  by_cases hcolumn : s.field = c.model.primaryKeyColumn
  · have hproperty : (c.order s).property = keyProperty := if_pos hcolumn
    rw [if_pos hproperty, if_pos (Or.inl hcolumn)]
  · have hproperty : (c.order s).property = s.field := if_neg hcolumn
    rw [hproperty]
    by_cases hkey : s.field = keyProperty
    · rw [if_pos hkey, if_pos (Or.inr hkey)]
    · rw [if_neg hkey, if_neg (not_or.2 ⟨hcolumn, hkey⟩)]

/-- A compiled sort order ranks entities as its clause does. -/
theorem compare_order (c : Compiler) (s : Sorting) (a b : Entity) :
    (c.order s).compare a b = c.model.rankBy s a b := by
  show (if s.direction == .descending then ((c.order s).ascending a b).swap
    else (c.order s).ascending a b) = _
  rw [ascending_order]
  unfold Model.rankBy
  cases s.direction <;> rfl

theorem compareAll_order (c : Compiler) (sort : List Sorting) :
    Order.compareAll (sort.map c.order) = c.model.rank sort := by
  induction sort with
  | nil => rfl
  | cons s sort ih =>
      funext a b
      show ((c.order s).compare a b).then (Order.compareAll (sort.map c.order) a b) = _
      rw [compare_order, ih]
      rfl

/-- A listing is sorted as the results of its query are. -/
theorem listing_eq_sort (m : Model) (space : Option String) (sort : List Sorting)
    (entities : List Entity) (g : Group) : m.listing space sort entities g =
      Order.sort (sort.map (Compiler.order ⟨space, m, 1⟩))
        (entities.filter fun e => m.inScope space e && g.all (m.satisfies space e)) := by
  rw [Order.sort, compareAll_order]
  rfl

/-- A listing is strictly in order. -/
theorem pairwise_listing {m : Model} {entities : List Entity}
    (h : entities.Pairwise Entities.Before) (space : Option String) (sort : List Sorting)
    (g : Group) : (m.listing space sort entities g).Pairwise fun a b => m.rank sort a b = .lt := by
  have hsorted := Order.pairwise_sort
    (h.filter fun e => m.inScope space e && g.all (m.satisfies space e))
    (sort.map (Compiler.order ⟨space, m, 1⟩))
  rwa [← listing_eq_sort, compareAll_order] at hsorted

/-- The query of a group matches the entities of the group's listing, in its order. -/
theorem matching_of_compiles (h : Compiles c criteria g q) (m : Memory) :
    m.matching q = c.model.listing c.space criteria.sort m.table.entities g := by
  rw [Memory.matching_eq, Order.sort, h.orders, compareAll_order]
  have hselected : m.selected q = m.table.entities.filter fun e =>
      c.model.inScope c.space e && g.all (c.model.satisfies c.space e) := by
    refine List.filter_congr ?_
    intro e _
    rw [satisfiedBy_of_compiles h, Query.covers, h.space, h.kind]
    rfl
  rw [hselected, Model.listing]

theorem offset_of_compiles (h : Compiles c criteria g q) :
    q.offset.getD 0 = criteria.skip.getD 0 := by
  rw [h.offset]
  cases criteria.skip with
  | none => rfl
  | some n => cases n <;> rfl

/-- A key that is looked up comes from a filter of the group, so it lies in the namespace of the
query. -/
theorem space_of_keyLookup? (h : Compiles c criteria g q) {k : Key}
    (hlookup : q.keyLookup? = some k) : k.space = q.space := by
  obtain ⟨f, hf, _, hoperand⟩ := Memory.filter_of_keyLookup? hlookup
  obtain ⟨p, _, hp⟩ := exists_of_mem_right h.filters hf
  exact (space_of_filter hp hoperand).trans h.space.symm

/-- A query looks a key up if its group asks for equality with one. -/
theorem exists_keyLookup?_iff (h : Compiles c criteria g q) :
    (∃ k, q.keyLookup? = some k) ↔ c.model.NamesKey g := by
  constructor
  · rintro ⟨k, hk⟩
    obtain ⟨f, hf, hop, hoperand⟩ := Memory.filter_of_keyLookup? hk
    obtain ⟨p, hp, hfilter⟩ := exists_of_mem_right h.filters hf
    rcases filter_cases hfilter with ⟨hcolumn, _, _, rfl⟩ | ⟨_, rfl⟩
    · exact ⟨p, hp, hcolumn, hop⟩
    · cases hoperand
  · rintro ⟨p, hp, hcolumn, hop⟩
    obtain ⟨f, hf, hfilter⟩ := exists_of_mem_left h.filters hp
    rcases filter_cases hfilter with ⟨_, _, _, rfl⟩ | ⟨hother, _⟩
    · refine Option.isSome_iff_exists.1 (List.findSome?_isSome_iff.2 ⟨_, hf, ?_⟩)
      rw [hop]
      rfl
    · exact absurd hcolumn hother

theorem limit_some (c : Compiler) {n : Nat} (hpos : 1 ≤ n) :
    c.limit (some n) = some (min n (min c.maxLimit Query.maxLimit)) := by
  obtain ⟨k, rfl⟩ := Nat.exists_eq_add_of_le' hpos
  rfl

/-- A query leaves of its results what the criteria leave. Only under a limit does it matter how
limits are bounded. -/
theorem cut_window {α : Type} (hbound : criteria.limit.getD 0 = 0 ∨ 1 ≤ c.maxLimit)
    (h : Compiles c criteria g q) (l : List α) :
    cut q.limit (l.drop (q.offset.getD 0)) =
        criteria.window (min c.maxLimit Query.maxLimit) l ∧ q.limit ≠ some 0 := by
  rw [offset_of_compiles h, h.limit]
  unfold Criteria.window
  cases hlimit : criteria.limit with
  | none => exact ⟨rfl, by simp [limit]⟩
  | some n =>
      cases n with
      | zero => exact ⟨rfl, by simp [limit]⟩
      | succ n =>
          have hpos : 1 ≤ c.maxLimit := hbound.resolve_left (by simp [hlimit])
          have hmax : 1 ≤ Query.maxLimit := by decide
          refine ⟨rfl, ?_⟩
          show some (min (n + 1) (min c.maxLimit Query.maxLimit)) ≠ some 0
          rw [ne_eq, Option.some.injEq]
          omega

/-- **A compiled query finds its listing**, bounded as the criteria ask. -/
theorem entities_allSlots (hbound : criteria.limit.getD 0 = 0 ∨ 1 ≤ c.maxLimit)
    (h : Compiles c criteria g q) (m : Memory) :
    (m.allSlots q).filterMap id = (criteria.window (min c.maxLimit Query.maxLimit)
      (c.model.listing c.space criteria.sort m.table.entities g)).map q.shape := by
  obtain ⟨hcut, hlimit⟩ := cut_window hbound h (m.matching q)
  rw [← matching_of_compiles h, ← hcut]
  unfold Memory.allSlots
  split
  · rename_i k hlookup
    exact Memory.lookup_entities hlookup (space_of_keyLookup? h hlookup) hlimit
  · rw [List.filterMap_map]
    exact congrFun List.filterMap_eq_map' _

end Compiler

end Quarry
