import Quarry.Proofs.Engine.Matched

/-!
# Searches under a limit

The limit of criteria is bounded by the configured maximum and by the store's. The configured one may
be beyond the store's, but a configured maximum of 0 is not raised to 1, and then queries are sent
with a limit of 0. What a search finds under a limit is told for every configuration. With a maximum
of at least 1 it finds something exactly if some entity in scope meets the criteria. With a maximum
of 0 only groups that name a key still find their entity, since looking up goes by no limit.
-/

namespace Quarry

/-! ## Listings -/

namespace Model

variable {M : Model} {space : Option String}

/-- The entities in scope that the group is true of. -/
def Meets (M : Model) (space : Option String) (g : Group) (e : Entity) : Prop :=
  M.inScope space e = true ∧ Group.Holds (M.truth space e) g

theorem listing_ne_nil_iff (sort : List Sorting) {entities : List Entity} {g : Group} :
    M.listing space sort entities g ≠ [] ↔ ∃ e ∈ entities, M.Meets space g e := by
  constructor
  · intro h
    obtain ⟨e, he⟩ := List.exists_mem_of_ne_nil _ h
    obtain ⟨hmem, hscope, hall⟩ := mem_listing.1 he
    exact ⟨e, hmem, hscope, holds_truth_iff.2 hall⟩
  · rintro ⟨e, hmem, hscope, hholds⟩
    exact List.ne_nil_of_mem (mem_listing.2 ⟨hmem, hscope, holds_truth_iff.1 hholds⟩)

end Model

namespace Compiler

variable {c : Compiler} {criteria : Criteria} {g : Group} {q : Query} {n : Nat}

/-! ## Limits -/

/-- The limit of a query is in bounds, except that nothing keeps it from being 0. -/
theorem limit_bounds (c : Compiler) (hpos : 1 ≤ n) :
    ∃ l, c.limit (some n) = some l ∧ l ≤ min n Query.maxLimit ∧ (1 ≤ l ↔ 1 ≤ c.maxLimit) := by
  have hmax : 1 ≤ Query.maxLimit := by decide
  exact ⟨_, c.limit_some hpos, by omega, by omega⟩

/-! ## Slots -/

theorem cut_ne_nil_iff {α : Type} (l : Nat) (xs : List α) :
    cut (some l) xs ≠ [] ↔ 1 ≤ l ∧ xs ≠ [] := by
  rw [cut_some, Ne, List.take_eq_nil_iff, not_or, Nat.one_le_iff_ne_zero]

/-- Under a limit, the query of a group finds something if some entity meets the group, unless the
limit has become 0 and no key is looked up. -/
theorem allSlots_ne_nil_iff (h : Compiles c criteria g q) (hlimit : criteria.limit = some n)
    (hpos : 1 ≤ n) (hskip : criteria.skip.getD 0 = 0) (m : Memory) :
    (m.allSlots q).filterMap id ≠ [] ↔ (1 ≤ c.maxLimit ∨ c.model.NamesKey g) ∧
      ∃ e ∈ m.table.entities, c.model.Meets c.space g e := by
  have hoffset : q.offset.getD 0 = 0 := (offset_of_compiles h).trans hskip
  obtain ⟨l, hl, _, hiff⟩ := c.limit_bounds hpos
  rw [← exists_keyLookup?_iff h, ← Model.listing_ne_nil_iff criteria.sort,
    ← matching_of_compiles h, Memory.allSlots]
  cases hlookup : q.keyLookup? with
  | some k =>
      -- A look-up goes by no limit, so nothing is asked of the maximum here.
      show (m.lookup q k).slots.filterMap id ≠ [] ↔ _
      rw [Memory.entities_lookup (space_of_keyLookup? h hlookup), if_neg (by omega),
        Memory.matching_of_keyLookup? hlookup]
      cases m.found? q k <;> simp
  | none =>
      -- What is matched is cut, and nothing is left of it exactly if the limit has become 0.
      show ((cut q.limit _).map _).filterMap id ≠ [] ↔ _
      rw [List.filterMap_map, hoffset, List.drop_zero, h.limit, hlimit, hl, ← hiff]
      have hcut := cut_ne_nil_iff l (m.matching q)
      simpa using hcut

/-- The queries of groups find something together if one of them does. -/
theorem joined_ne_nil_iff {gs : List Group} {queries : List Query}
    (h : List.Forall₂ (fun g q => c.compile criteria g = .ok q) gs queries)
    (hlimit : criteria.limit = some n) (hpos : 1 ≤ n) (hskip : criteria.skip.getD 0 = 0)
    (m : Memory) :
    (joined queries m).entities ≠ [] ↔
      ∃ g ∈ gs, (1 ≤ c.maxLimit ∨ c.model.NamesKey g) ∧
        ∃ e ∈ m.table.entities, c.model.Meets c.space g e := by
  have hslots : ∀ {g q}, c.compile criteria g = .ok q → ((m.allSlots q).filterMap id ≠ [] ↔ _) :=
    fun hg => allSlots_ne_nil_iff (compiles_of_compile hg) hlimit hpos hskip m
  rw [joined, List.filterMap_flatMap, Ne, List.flatMap_eq_nil_iff]
  constructor
  · intro hsome
    obtain ⟨q, hq, hne⟩ : ∃ q ∈ queries, (m.allSlots q).filterMap id ≠ [] := by simpa using hsome
    obtain ⟨g, hg, hcompile⟩ := exists_of_mem_right h hq
    exact ⟨g, hg, (hslots hcompile).1 hne⟩
  · rintro ⟨g, hg, hmeets⟩ hnone
    obtain ⟨q, hq, hcompile⟩ := exists_of_mem_left h hg
    exact (hslots hcompile).2 hmeets (hnone q hq)

end Compiler

namespace Engine

open Quarry.Action

/-! ## Searches -/

/-- **A search under a limit**, for every configuration. Where the maximum is at least 1 it finds
something exactly if some entity in scope meets the criteria. -/
theorem find_under_limit (config : Config) (registry : Registry) (kind : String) (M : Model)
    (c : Criteria) (queries : List Query) (n : Nat) (w : Session Memory)
    (hmodel : registry.get kind = .ok M)
    (hqueries : (compilerFor config M w.store).queries c = .ok queries)
    (hlimit : c.limit = some n) (hpos : 1 ≤ n) (hskip : c.skip.getD 0 = 0)
    (hfits : w.store.Fits) (hfaults : w.store.faults.queries = 0) :
    (∀ q ∈ queries, ∃ l, q.limit = some l ∧ l ≤ min n Query.maxLimit ∧
      (1 ≤ l ↔ 1 ≤ config.maxQueryLimit)) ∧
    ∃ gs rs, c.clause.groups = .ok gs ∧
      ((Engine.find ⟨Memory.store, config, registry⟩ kind c).exec w).1 = .ok rs ∧
      (rs ≠ [] ↔ ∃ g ∈ gs, (1 ≤ config.maxQueryLimit ∨ M.NamesKey g) ∧
        ∃ e ∈ w.store.table.entities, M.Meets w.store.space g e) ∧
      (1 ≤ config.maxQueryLimit → (rs ≠ [] ↔ ∃ e ∈ w.store.table.entities,
        M.inScope w.store.space e = true ∧ c.clause.Holds (M.truth w.store.space e))) := by
  obtain ⟨gs, hgroups, hall⟩ := bind_eq_ok.1 hqueries
  have hcompiled := mapM_eq_ok.1 hall
  refine ⟨?_, gs, ?_⟩
  · intro q hq
    obtain ⟨g, _, hg⟩ := exists_of_mem_right hcompiled hq
    rw [(Compiler.compiles_of_compile hg).limit, hlimit]
    exact Compiler.limit_bounds _ hpos
  · obtain ⟨w', hrun, _⟩ :=
      exec_run registry hfits hfaults hqueries (Compiler.start_of_queries hqueries)
    have hfind := congrArg Prod.fst (exec_find hmodel hrun)
    have hfound := Compiler.joined_ne_nil_iff hcompiled hlimit hpos hskip w.store
    rw [Ne, ← List.map_eq_nil_iff (f := M.toRecord)] at hfound
    refine ⟨_, hgroups, hfind, hfound, ?_⟩
    intro hmax
    refine hfound.trans ?_
    constructor
    · rintro ⟨g, hg, _, e, he, hscope, hholds⟩
      exact ⟨e, he, hscope, (Clause.someHolds_groups c.clause hgroups).1 ⟨g, hg, hholds⟩⟩
    · rintro ⟨e, he, hscope, hholds⟩
      obtain ⟨g, hg, hholds⟩ := (Clause.someHolds_groups c.clause hgroups).2 hholds
      exact ⟨g, hg, .inl hmax, e, he, hscope, hholds⟩

/-- Any note, under the greatest limit that can be written. -/
def greedy : Criteria := { Criteria.everything with limit := some 18446744073709551615 }

/-- The greatest maximum is lowered to the store's. -/
theorem find_under_limit_greedy :
    let config : Config := { Config.default with maxQueryLimit := 18446744073709551615 }
    let w : Session Memory := .start Pull.threeNotes
    ∃ queries rs, (compilerFor config notes w.store).queries greedy = .ok queries ∧
      queries ≠ [] ∧ (∀ q ∈ queries, ∃ l, q.limit = some l ∧ 1 ≤ l ∧ l ≤ Query.maxLimit) ∧
      ((Engine.find ⟨Memory.store, config, ⟨[notes]⟩⟩ "Note" greedy).exec w).1 = .ok rs ∧
      rs ≠ [] := by
  intro config w
  obtain ⟨hlimits, gs, rs, _, hfind, _, hsome⟩ := find_under_limit config ⟨[notes]⟩ "Note" notes
    greedy [{ Query.ofKind none "Note" with limit := some Query.maxLimit }] 18446744073709551615 w
    rfl rfl rfl (by decide) rfl Pull.fits_threeNotes rfl
  refine ⟨_, rs, rfl, by simp, ?_, hfind, ?_⟩
  · intro q hq
    obtain ⟨l, hl, hle, hiff⟩ := hlimits q hq
    exact ⟨l, hl, hiff.2 (by decide), Nat.le_trans hle (Nat.min_le_right _ _)⟩
  · exact (hsome (by decide)).2 ⟨bareNote 1, by decide, rfl, trivial⟩

/-- One note, whichever. -/
def oneNote : Criteria := { Criteria.everything with limit := some 1 }

/-- A maximum of 0 starves a search for one of three notes. -/
theorem find_starved :
    let config : Config := { Config.default with maxQueryLimit := 0 }
    let w : Session Memory := .start Pull.threeNotes
    oneNote.limit = some 1 ∧ oneNote.skip = none ∧
      ((compilerFor config notes w.store).queries oneNote).map (List.map Query.limit) =
        .ok [some 0] ∧
      ((Engine.find ⟨Memory.store, config, ⟨[notes]⟩⟩ "Note" oneNote).exec w).1 = .ok [] ∧
      bareNote 1 ∈ w.store.table.entities ∧ notes.inScope w.store.space (bareNote 1) = true ∧
      oneNote.clause.Holds (notes.truth w.store.space (bareNote 1)) := by
  intro config w
  refine ⟨rfl, rfl, rfl, ?_, ?_, rfl, ?_⟩
  · rw [Memory.store_eq_storeBy]
    decide +kernel
  · decide
  · trivial

end Engine

end Quarry
