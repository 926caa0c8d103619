import Quarry.Proofs.Engine.Uniqueness
import Quarry.Proofs.Record
import Quarry.Proofs.Store.Kind

/-!
# What look-ups find

Each distinct value that records propose for a unique column is looked up by one query. What the
query finds is told from the entities there are: under the primary-key column the entity of one key,
and under any other column the entities that the equality filter of the store accepts.
-/

namespace Quarry

open Json

/-! ## The first of each -/

/-- Appending what none so far is related to keeps the first of each. -/
theorem foldl_unless_any {α : Type} (r : α → α → Bool) (acc as : List α) :
    as.foldl (fun acc a => if acc.any (r a) then acc else acc ++ [a]) acc =
      acc ++ (as.filter fun a => !acc.any (r a)).eraseDupsBy r := by
  induction as generalizing acc with
  | nil => simp
  | cons a as ih =>
      rw [List.foldl_cons, ih]
      by_cases ha : acc.any (r a) = true
      · rw [if_pos ha, List.filter_cons_of_neg (by simp [ha])]
      · rw [if_neg ha, List.filter_cons_of_pos (by simp [ha]), List.eraseDupsBy_cons,
          List.filter_filter, List.append_assoc, List.singleton_append]
        congr 3
        apply List.filter_congr
        intro b _
        simp [Bool.and_comm]

theorem eraseDupsBy_sublist {α : Type} (r : α → α → Bool) :
    ∀ as : List α, (as.eraseDupsBy r).Sublist as
  | [] => .slnil
  | a :: as => by
      rw [List.eraseDupsBy_cons]
      exact ((eraseDupsBy_sublist r _).trans List.filter_sublist).cons_cons a
termination_by as => as.length
decreasing_by exact Nat.lt_succ_of_le (List.length_filter_le _ _)

/-- The proposed values are those that records hold, the first of equal ones each. -/
theorem Probe.proposed_eq (records : List Record) (column : String) :
    proposed records column =
      (records.filterMap fun r => r.present? column).eraseDupsBy Value.same := by
  rw [proposed, foldl_unless_any]
  simp

theorem Probe.present?_of_proposed {column : String} {v : Value} (h : v ∈ proposed records column) :
    ∃ r ∈ records, r.present? column = some v := by
  rw [proposed_eq] at h
  exact List.mem_filterMap.1 ((eraseDupsBy_sublist _ _).mem h)

theorem Probe.length_proposed_le (records : List Record) (column : String) :
    (proposed records column).length ≤ records.length := by
  rw [proposed_eq]
  exact Nat.le_trans (eraseDupsBy_sublist _ _).length_le (List.length_filterMap_le _ _)

theorem Conflict.attributes_eq (conflicts : List Conflict) :
    attributes conflicts = (conflicts.map fun c => c.unique.name).eraseDups := by
  have h := foldl_unless_any (fun a b : String => a == b) []
    (conflicts.map fun c => c.unique.name)
  rw [List.foldl_map] at h
  simpa [attributes, List.any_beq, List.eraseDups] using h

/-! ## Ids -/

/-- Equal values are the same id, or neither is one. -/
theorem KeyId.ofValue?_of_same {v w : Value} (h : v.same w = true) : ofValue? v = ofValue? w := by
  cases v with
  | null => rw [Value.null_of_same h]
  | bool b => rw [Value.bool_of_same h]
  | string s => rw [Value.string_of_same h]
  | array items =>
      obtain ⟨_, rfl, _⟩ := Value.items_of_same h
      rfl
  | object members =>
      obtain ⟨_, rfl, _⟩ := Value.members_of_same h
      rfl
  | number n =>
      obtain ⟨n', rfl, hn⟩ := Value.number_of_same h
      cases n <;> cases n' <;> simp_all [Number.same, ofValue?, Number.toInt64?]

/-! ## Queries for values -/

namespace Compiler

variable {c : Compiler} {column : String} {values : List Value} {v : Value}

/-- The query that looks up a value in a column. -/
def lookup (c : Compiler) (column : String) (v : Value) : Query :=
  if column = c.model.primaryKeyColumn then
    { Query.ofKind c.space c.model.kind with
      filters := [⟨keyProperty, .eq, .key (c.model.keyOf c.space (KeyId.ofValue? v))⟩]
      keysOnly := true }
  else
    { Query.ofKind c.space c.model.kind with
      filters := [⟨column, .eq, .value v⟩]
      projection := [column] }

/-- The value can be looked up in the column: under the primary-key column it is an id. -/
def CanLookUp (c : Compiler) (column : String) (v : Value) : Prop :=
  column = c.model.primaryKeyColumn → KeyId.ofValue? v ≠ none

theorem filter_equals (h : c.CanLookUp column v) :
    c.filter ⟨column, .eq, v⟩ = .ok (if column = c.model.primaryKeyColumn then
      ⟨keyProperty, .eq, .key (c.model.keyOf c.space (KeyId.ofValue? v))⟩
      else ⟨column, .eq, .value v⟩) := by
  unfold filter
  by_cases hcolumn : column = c.model.primaryKeyColumn
  · obtain ⟨id, hid⟩ := Option.ne_none_iff_exists'.1 (h hcolumn)
    rw [if_pos hcolumn, if_pos hcolumn, keyFor, hid]
    rfl
  · rw [if_neg hcolumn, if_neg hcolumn]

theorem projection_singleton (c : Compiler) (column : String) :
    c.projection [column] = if column = c.model.primaryKeyColumn then [] else [column] := by
  unfold projection
  by_cases hcolumn : column = c.model.primaryKeyColumn <;> simp [hcolumn]

theorem compile_equals (h : c.CanLookUp column v) (values : List Value) :
    c.compile (Probe.criteria column values) [⟨column, .eq, v⟩] = .ok (c.lookup column v) := by
  have hfilters : List.mapM c.filter [⟨column, .eq, v⟩] = .ok [if column =
      c.model.primaryKeyColumn then
      ⟨keyProperty, .eq, .key (c.model.keyOf c.space (KeyId.ofValue? v))⟩
      else ⟨column, .eq, .value v⟩] :=
    mapM_eq_ok.2 (.cons (filter_equals h) .nil)
  have hselect : ∀ q : Query, c.select q (.fields [column]) =
      if column = c.model.primaryKeyColumn then q.onlyKeys
      else { q with projection := [column] } := by
    intro q
    rw [select, projection_singleton]
    by_cases hcolumn : column = c.model.primaryKeyColumn <;> simp [hcolumn]
  rw [compile, bind_eq_ok]
  refine ⟨_, hfilters, congrArg Except.ok ((hselect _).trans ?_)⟩
  by_cases hcolumn : column = c.model.primaryKeyColumn
  · rw [if_pos hcolumn, if_pos hcolumn, lookup, if_pos hcolumn]
    rfl
  · rw [if_neg hcolumn, if_neg hcolumn, lookup, if_neg hcolumn]
    rfl

/-- There is one query for each value, in the order of the values. -/
theorem queries_criteria (hne : values ≠ []) (h : ∀ v ∈ values, c.CanLookUp column v) :
    c.queries (Probe.criteria column values) = .ok (values.map (c.lookup column)) := by
  rw [queries, bind_eq_ok]
  refine ⟨_, Probe.groups_criteria hne, mapM_eq_ok.2 ?_⟩
  rw [List.forall₂_map_left_iff, List.forall₂_map_right_iff, List.forall₂_same]
  intro v hv
  exact compile_equals (h v hv) values

/-- A value that cannot be looked up has no query. -/
theorem queries_ne_ok (hv : v ∈ values) (h : ¬ c.CanLookUp column v) (queries : List Query) :
    c.queries (Probe.criteria column values) ≠ .ok queries := by
  intro hqueries
  obtain ⟨hcolumn, hid⟩ := Classical.not_imp.1 h
  obtain ⟨q, _, hcompiles⟩ := Probe.exists_query hqueries hv
  obtain ⟨f, _, hf, _⟩ := List.forall₂_cons_left_iff.1 hcompiles.filters
  rw [filter, if_pos hcolumn] at hf
  obtain ⟨k, hk, _⟩ := map_eq_ok.1 hf
  rw [keyFor, not_not.1 hid] at hk
  cases hk

theorem start_lookup (c : Compiler) (column : String) (v : Value) :
    (c.lookup column v).start = none := by
  unfold lookup
  split <;> rfl

theorem orders_lookup (c : Compiler) (column : String) (v : Value) :
    (c.lookup column v).orders = [] := by
  unfold lookup
  split <;> rfl

end Compiler

/-! ## What is found -/

namespace Model

/-- What a look-up in a column returns of an entity. -/
def shown (M : Model) (column : String) (e : Entity) : Entity :=
  if column = M.primaryKeyColumn then e.keyOnly else e.project [column]

theorem key_shown (M : Model) (column : String) (e : Entity) : (M.shown column e).key = e.key := by
  unfold shown
  split <;> rfl

end Model

namespace Memory

variable {m : Memory} {c : Compiler} {column : String} {v : Value}

/-- The entities that a value is looked up by in a column, in key order: under the primary-key
column the entity of the key with this id, and under any other the entities of the kind whose
property the equality filter accepts. -/
def holders (M : Model) (column : String) (v : Value) (m : Memory) : List Entity :=
  if column = M.primaryKeyColumn then (m.get? (M.keyOf m.space (KeyId.ofValue? v))).toList
  else (m.ofKind M.kind).filter fun e =>
    (e.properties.get? column).any fun actual => Filter.accepts actual .eq v

theorem allSlots_lookup (hspace : c.space = m.space) :
    (m.allSlots (c.lookup column v)).filterMap id =
      (m.holders c.model column v).map (c.model.shown column) := by
  by_cases hcolumn : column = c.model.primaryKeyColumn
  · rw [Compiler.lookup, if_pos hcolumn, hspace]
    generalize hkey : c.model.keyOf m.space (KeyId.ofValue? v) = k
    have hk : k.space = m.space ∧ k.kind = c.model.kind := by
      rw [← hkey]
      exact ⟨rfl, rfl⟩
    show (m.lookup _ k).slots.filterMap id = _
    rw [entities_lookup hk.1, if_neg (by simp [Query.ofKind]), found?, holders, if_pos hcolumn,
      hkey]
    cases hget : m.get? k with
    | none => rfl
    | some e =>
        have he := key_of_get? hget
        simp [Query.covers, Query.satisfiedBy, Filter.admits, Query.ofKind, Query.shape,
          Model.shown, he, hk.1, hk.2, hcolumn, Comparison.holds]
  · have hshown : c.model.shown column = fun e => e.project [column] := by
      funext e
      rw [Model.shown, if_neg hcolumn]
    have hselected : m.selected (c.lookup column v) = m.holders c.model column v := by
      rw [holders, if_neg hcolumn, ofKind, List.filter_filter, Compiler.lookup, if_neg hcolumn,
        hspace, selected]
      apply List.filter_congr
      intro e _
      rw [Bool.and_comm]
      congr 1
      simp only [Query.satisfiedBy, List.all_cons, List.all_nil, Bool.and_true, Filter.admits]
      cases e.properties.get? column <;> rfl
    rw [← hselected, hshown, allSlots, Compiler.lookup, if_neg hcolumn]
    show (List.map (fun e => some (Query.shape _ e)) (m.matching _)).filterMap id = _
    rw [matching_of_orders_nil rfl, List.filterMap_map]
    exact congrFun List.filterMap_eq_map' _

end Memory

namespace Probe

variable {m : Memory} {c : Compiler} {a : UniqueAttribute}

/-- A conflict holds what the stored entity does, though it only shows a part of it. -/
theorem held_shown (M : Model) (e : Entity) (column : String) :
    held M (M.shown column e) column = held M e column := by
  unfold held
  rw [Model.key_shown]
  split
  · rfl
  · rename_i hcolumn
    rw [Model.shown, if_neg hcolumn, Entity.project, Record.get?_restrict, if_pos (by simp)]

/-- The conflict of an attribute with a stored entity. -/
def conflictWith (M : Model) (a : UniqueAttribute) (e : Entity) : Conflict :=
  ⟨a, held M e a.column, M.shown a.column e⟩

/-- The conflicts of an attribute are with the entities that each of its values is looked up by. -/
theorem conflicts_joined (hspace : c.space = m.space) (values : List Value) :
    conflicts c.model a (joined (values.map (c.lookup a.column)) m) =
      values.flatMap fun v => (m.holders c.model a.column v).map (conflictWith c.model a) := by
  have hentities : (joined (values.map (c.lookup a.column)) m).entities =
      values.flatMap fun v => (m.holders c.model a.column v).map (c.model.shown a.column) := by
    show ((values.map (c.lookup a.column)).flatMap m.allSlots).filterMap id = _
    rw [List.flatMap_map, List.filterMap_flatMap]
    exact List.flatMap_congr fun v _ => Memory.allSlots_lookup hspace
  rw [conflicts, hentities, List.map_flatMap]
  apply List.flatMap_congr
  intro v _
  rw [List.map_map]
  apply List.map_congr_left
  intro e _
  rw [Function.comp_apply, held_shown, conflictWith]

end Probe

end Quarry
