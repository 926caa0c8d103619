import Quarry.Proofs.Engine.Find
import Quarry.Proofs.Engine.Steps

/-!
# What a selection leaves alone

Criteria that differ only in what they select become queries that differ only in what they show of
an entity. Such queries find the same entities in the same order and fill as many pages, and such
criteria are rejected alike. So a count, which selects keys, is the number of records that a search
returns, and asks the store as often.
-/

namespace Quarry

open Quarry.Action

/-! ## Queries -/

/-- The query with its entities in full. -/
def Query.whole (q : Query) : Query := { q with keysOnly := false, projection := [] }

@[simp] theorem Query.shape_whole (q : Query) (e : Entity) : q.whole.shape e = e := rfl

namespace Compiler

variable (c : Compiler) (criteria : Criteria)

theorem whole_select (q : Query) (s : Selection) : (c.select q s).whole = q.whole := by
  obtain ⟨keysOnly, projection, hselect⟩ := c.select_eq q s
  rw [hselect]
  rfl

/-- Selecting everything yields the same query in full. -/
theorem compile_everything (g : Group) :
    c.compile { criteria with select := .everything } g =
      (c.compile criteria g).map Query.whole := by
  unfold compile
  cases g.mapM c.filter with
  | error e => rfl
  | ok filters =>
      apply congrArg Except.ok
      rw [whole_select]
      rfl

/-- A selection has no part in whether criteria are rejected. -/
theorem queries_everything :
    c.queries { criteria with select := .everything } =
      (c.queries criteria).map (List.map Query.whole) := by
  unfold queries compileAll
  cases criteria.clause.groups with
  | error e => rfl
  | ok groups =>
      show groups.mapM (c.compile { criteria with select := .everything }) =
        (groups.mapM (c.compile criteria)).map (List.map Query.whole)
      rw [← mapM_map]
      exact congrArg (List.mapM · groups) (funext fun g => c.compile_everything criteria g)

end Compiler

/-! ## Results -/

namespace Memory

variable (q : Query) (m : Memory)

theorem slots_lookup_whole (k : Key) :
    (m.lookup q k).slots = (m.lookup q.whole k).slots.map (Option.map q.shape) := by
  have hoffset : q.whole.offset = q.offset := rfl
  have hkind : q.whole.kind = q.kind := rfl
  have hsatisfied : q.whole.satisfiedBy = q.satisfiedBy := rfl
  unfold lookup
  rw [hoffset, hkind, hsatisfied]
  by_cases hout : (0 < q.offset.getD 0 || k.kind != q.kind) = true
  · rw [if_pos hout, if_pos hout]
    rfl
  · rw [if_neg hout, if_neg hout]
    cases m.get? k with
    | none => rfl
    | some e =>
        cases hsatisfied : q.satisfiedBy e with
        | true => simp [hsatisfied, Page.last]
        | false => simp [hsatisfied, Page.last]

/-- A query finds the entities that it finds in full, in the shape that it shows. -/
theorem allSlots_whole : m.allSlots q = (m.allSlots q.whole).map (Option.map q.shape) := by
  have hlookup : q.whole.keyLookup? = q.keyLookup? := rfl
  rw [allSlots, allSlots, hlookup]
  cases q.keyLookup? with
  | some k => exact m.slots_lookup_whole q k
  | none =>
      rw [List.map_map]
      rfl

end Memory

variable (queries : List Query) (m : Memory)

/-- In full, queries find entities of the same keys. -/
theorem keys_joined_whole :
    (joined (queries.map Query.whole) m).entities.map Entity.key =
      (joined queries m).entities.map Entity.key := by
  have hshape : ∀ (q : Query) (slots : List (Option Entity)),
      ((slots.map (Option.map q.shape)).filterMap id).map Entity.key =
        (slots.filterMap id).map Entity.key := by
    intro q slots
    rw [List.filterMap_map, List.map_filterMap, List.map_filterMap]
    congr 1
    funext slot
    cases slot with
    | none => rfl
    | some e => exact congrArg some (q.key_shape e)
  rw [joined, joined]
  dsimp only
  induction queries with
  | nil => rfl
  | cons q queries ih =>
      rw [List.map_cons, List.flatMap_cons, List.flatMap_cons, List.filterMap_append,
        List.filterMap_append, List.map_append, List.map_append, ih, m.allSlots_whole q, hshape]

/-- In full, queries fill as many pages. -/
theorem batchesRun_joined_whole :
    (joined (queries.map Query.whole) m).batchesRun = (joined queries m).batchesRun := by
  rw [joined, joined]
  dsimp only
  rw [List.foldr_map]
  apply List.foldr_ext
  intro q _ n
  rw [m.allSlots_whole q, List.length_map]

namespace Engine

variable (config : Config) (registry : Registry) (c : Criteria) {w : Session Memory}

/-- Whether everything is selected or less, criteria find entities of the same keys, or are rejected
with the same error, and the store is asked as often. -/
theorem run_everything (M : Model) (hfits : w.store.Fits) (hfaults : w.store.faults.queries = 0) :
    let E : Engine Memory := ⟨Memory.store, config, registry⟩
    let part := (E.run M c).exec w
    let full := (E.run M { c with select := .everything }).exec w
    full.1.map (fun r => r.entities.map Entity.key) =
        part.1.map (fun r => r.entities.map Entity.key) ∧
      full.2.store.log.length = part.2.store.log.length := by
  intro E part full
  have hwhole := (compilerFor config M w.store).queries_everything c
  cases hqueries : (compilerFor config M w.store).queries c with
  | error e =>
      rw [hqueries] at hwhole
      have hpart : part = (.error (.criteria e), w) := exec_run_rejected hqueries
      have hfull : full = (.error (.criteria e), w) := exec_run_rejected hwhole
      rw [hpart, hfull]
      exact ⟨rfl, rfl⟩
  | ok queries =>
      rw [hqueries] at hwhole
      obtain ⟨w₁, hpart, log₁, hlog₁, hlength₁⟩ :=
        exec_run registry hfits hfaults hqueries (Compiler.start_of_queries hqueries)
      obtain ⟨w₂, hfull, log₂, hlog₂, hlength₂⟩ :=
        exec_run registry hfits hfaults hwhole (Compiler.start_of_queries hwhole)
      rw [show part = _ from hpart, show full = _ from hfull]
      constructor
      · exact congrArg Except.ok (keys_joined_whole queries w.store)
      · show w₂.store.log.length = w₁.store.log.length
        rw [hlog₁, hlog₂]
        show (w.store.log ++ log₂).length = (w.store.log ++ log₁).length
        rw [List.length_append, List.length_append, hlength₁, hlength₂,
          batchesRun_joined_whole]

/-- A count ends as a search does, with the number of its records. -/
theorem exec_count_eq (kind : String) (hfits : w.store.Fits)
    (hfaults : w.store.faults.queries = 0) :
    let E : Engine Memory := ⟨Memory.store, config, registry⟩
    ((E.count kind c).exec w).1 = ((E.find kind c).exec w).1.map List.length ∧
      ((E.count kind c).exec w).2.store.log.length =
        ((E.find kind c).exec w).2.store.log.length := by
  intro E
  cases hmodel : registry.get kind with
  | error e =>
      have hunknown : (E.model kind).exec w = (.error (.registry e), w) := by
        rw [model, exec_ofExcept, hmodel]
        rfl
      rw [count, find, exec_bind_error hunknown, exec_bind_error hunknown]
      exact ⟨rfl, rfl⟩
  | ok M =>
      -- Both are told apart by their selections alone, so both are compared with everything.
      obtain ⟨hkeys, hlog⟩ := run_everything config registry
        { c with select := .fields [M.primaryKeyColumn] } M hfits hfaults
      obtain ⟨hkeys', hlog'⟩ := run_everything config registry c M hfits hfaults
      rw [count, find, exec_model_bind hmodel, exec_model_bind hmodel, exec_bind_pure,
        exec_bind_pure]
      constructor
      · have hlengths := congrArg (Except.map List.length) (hkeys.symm.trans hkeys')
        rw [map_map, map_map] at hlengths
        rw [map_map]
        simpa only [List.length_map] using hlengths
      · exact hlog.symm.trans hlog'

/-- **A count agrees with a search.** On a memory without failures, and with no other clients, a
count is the number of the records that a search with the same criteria returns, whatever they
select, and if one of the two is rejected, so is the other, with the same error. Both ask the store
as often. -/
theorem count_agrees_find (config : Config) (registry : Registry) (kind : String) (c : Criteria)
    (w : Session Memory) (hfits : w.store.Fits) (hfaults : w.store.faults.queries = 0) :
    let E : Engine Memory := ⟨Memory.store, config, registry⟩
    let counted := (E.count kind c).exec w
    let found := (E.find kind c).exec w
    (∀ n, counted.1 = .ok n ↔ ∃ rs, found.1 = .ok rs ∧ rs.length = n) ∧
      (∀ e, counted.1 = .error e ↔ found.1 = .error e) ∧
      counted.2.store.log.length = found.2.store.log.length := by
  intro E counted found
  obtain ⟨hresult, hlog⟩ := exec_count_eq config registry c kind hfits hfaults
  have hcounted : counted.1 = found.1.map List.length := hresult
  rw [hcounted]
  exact ⟨fun n => map_eq_ok, fun e => map_eq_error, hlog⟩

/-- The third note is found twice and counted twice. -/
theorem count_agrees_find_latestFirst :
    ((count ⟨Memory.store, .default, ⟨[notes]⟩⟩ "Note" latestFirst).exec
        (.start Pull.threeNotes)).1 = .ok 4 ∧
      ((count ⟨Memory.store, .default, ⟨[notes]⟩⟩ "Note" latestFirst).exec
        (.start Pull.threeNotes)).2.store.log.length = 3 := by
  obtain ⟨hcount, -, hlog⟩ := count_agrees_find .default ⟨[notes]⟩ "Note" latestFirst
    (.start Pull.threeNotes) Pull.fits_threeNotes rfl
  have hfound : ((find ⟨Memory.store, .default, ⟨[notes]⟩⟩ "Note" latestFirst).exec
      (.start Pull.threeNotes)).1.map List.length = .ok 4 := by
    rw [Memory.store_eq_storeBy]
    decide +kernel
  have hasked : ((find ⟨Memory.store, .default, ⟨[notes]⟩⟩ "Note" latestFirst).exec
      (.start Pull.threeNotes)).2.store.log.length = 3 := by
    rw [Memory.store_eq_storeBy]
    decide +kernel
  exact ⟨(hcount 4).2 (map_eq_ok.1 hfound), hlog.trans hasked⟩

end Engine

end Quarry
