import Quarry.Proofs.Engine.Create
import Quarry.Proofs.Engine.Find
import Quarry.Proofs.Store.Completion

/-!
# In which order the columns of new records come back

The id of a new record comes back first. The other columns follow in the order given, unless two or
more of them stand behind the id that the record came with: the last of these then takes the place
from which the id was taken out.
-/

namespace Quarry

open Quarry.Action Json

/-! ## Taking a column out -/

namespace Columns

variable {name : String} {v : Value} {before behind : List (String × Value)}

theorem takeOut_of_not_mem {columns : List (String × Value)} (h : name ∉ columns.map Prod.fst) :
    takeOut name columns = columns := by
  induction columns with
  | nil => rfl
  | cons c columns ih =>
      rw [List.map_cons, List.mem_cons, not_or] at h
      obtain ⟨n, w⟩ := c
      rw [takeOut, if_neg fun heq => h.1 heq.symm, ih h.2]

/-- Of the columns behind the gap only the last one moves. -/
theorem takeOut_of_mem (h : name ∉ before.map Prod.fst) :
    takeOut name (before ++ (name, v) :: behind) =
      before ++ (behind.getLast?.toList ++ behind.dropLast) := by
  induction before with
  | nil =>
      rw [List.nil_append, List.nil_append, takeOut, if_pos rfl]
      cases hlast : behind.getLast? with
      | none =>
          rw [List.getLast?_eq_none_iff.1 hlast]
          rfl
      | some last => rfl
  | cons c before ih =>
      rw [List.map_cons, List.mem_cons, not_or] at h
      obtain ⟨n, w⟩ := c
      rw [List.cons_append, takeOut, if_neg fun heq => h.1 heq.symm, ih h.2, List.cons_append]

/-- Columns stay in order if there is at most one of them. -/
theorem getLast?_append_dropLast_eq_iff (h : behind.Nodup) :
    behind.getLast?.toList ++ behind.dropLast = behind ↔ behind.length ≤ 1 := by
  rcases List.eq_nil_or_concat behind with rfl | ⟨init, last, rfl⟩
  · exact iff_of_true rfl (Nat.zero_le 1)
  · rw [List.concat_eq_append] at h ⊢
    rw [List.getLast?_concat, List.dropLast_concat, List.length_append, List.length_singleton]
    cases init with
    | nil => exact iff_of_true rfl (Nat.le_refl 1)
    | cons c init =>
        refine iff_of_false ?_ (by simp)
        intro heq
        have hsame : last = c := (List.cons.inj heq).1
        rw [hsame, List.cons_append, List.nodup_cons] at h
        exact h.1 (List.mem_append_right init List.mem_cons_self)

theorem filter_eq_self {columns : List (String × Value)} (h : name ∉ columns.map Prod.fst) :
    columns.filter (fun c => c.1 != name) = columns := by
  rw [List.filter_eq_self]
  intro c hc
  rw [bne_iff_ne]
  rintro rfl
  exact h (List.mem_map_of_mem hc)

theorem not_mem_of_split (h : ((before ++ (name, v) :: behind).map Prod.fst).Nodup) :
    name ∉ before.map Prod.fst := by
  rw [List.map_append] at h
  obtain ⟨_, _, hdisjoint⟩ := List.nodup_append.1 h
  exact fun hmem => hdisjoint name hmem name List.mem_cons_self rfl

/-- The columns stay in order if at most one of them stands behind the gap. -/
theorem takeOut_eq_filter_of_mem (h : ((before ++ (name, v) :: behind).map Prod.fst).Nodup) :
    takeOut name (before ++ (name, v) :: behind) =
        (before ++ (name, v) :: behind).filter (fun c => c.1 != name) ↔
      behind.length ≤ 1 := by
  have hbefore := not_mem_of_split h
  rw [List.map_append] at h
  obtain ⟨hbehind, hdistinct⟩ := List.nodup_cons.1 (List.nodup_append.1 h).2.1
  have hnodup : behind.Nodup :=
    List.Pairwise.of_map Prod.fst (fun _ _ hne heq => hne (congrArg Prod.fst heq)) hdistinct
  rw [takeOut_of_mem hbefore, List.filter_append, List.filter_cons_of_neg (by simp),
    filter_eq_self hbefore, filter_eq_self hbehind, List.append_cancel_left_eq,
    getLast?_append_dropLast_eq_iff hnodup]

theorem takeOut_eq_filter_iff {columns : List (String × Value)} (h : (columns.map Prod.fst).Nodup) :
    takeOut name columns = columns.filter (fun c => c.1 != name) ↔
      ∀ before v behind, columns = before ++ (name, v) :: behind → behind.length ≤ 1 := by
  constructor
  · rintro heq before v behind rfl
    exact (takeOut_eq_filter_of_mem h).1 heq
  · intro hall
    by_cases hmem : name ∈ columns.map Prod.fst
    · obtain ⟨⟨n, v⟩, hc, rfl⟩ := List.mem_map.1 hmem
      obtain ⟨before, behind, rfl⟩ := List.append_of_mem hc
      exact (takeOut_eq_filter_of_mem h).2 (hall before v behind rfl)
    · rw [takeOut_of_not_mem hmem, filter_eq_self hmem]

end Columns

theorem Record.not_mem_takeOut (r : Record) (name : String) :
    name ∉ (r.takeOut name).columns.map Prod.fst := by
  intro hmem
  obtain ⟨c, hc, hname⟩ := List.mem_map.1 hmem
  have hfound : (r.takeOut name).get? name = some c.2 := get?_eq_some_iff.2 (hname ▸ hc)
  rw [get?_takeOut, if_pos rfl] at hfound
  cases hfound

/-! ## Records that come back -/

namespace Model

variable {M : Model} {space : Option String} {r o : Record} {v : Value} {id : KeyId}

/-- The record comes back with its id ahead of its other columns, which stand as they were given. -/
def InOrder (M : Model) (r o : Record) : Prop :=
  ∃ id : KeyId,
    o.columns = (M.primaryKeyColumn, id.toValue) :: (r.restrict (· != M.primaryKeyColumn)).columns

/-- How the columns of a new record come back: the last of those behind its id moves ahead of the
others behind it. -/
structure Returns (M : Model) (r o : Record) : Prop where
  moved : ∀ before v behind, r.columns = before ++ (M.primaryKeyColumn, v) :: behind →
    ∃ id : KeyId, (v ≠ .null → id.toValue = v) ∧
      o.columns = (M.primaryKeyColumn, id.toValue) ::
        (before ++ (behind.getLast?.toList ++ behind.dropLast))
  inOrder_iff : M.InOrder r o ↔
    ∀ before v behind, r.columns = before ++ (M.primaryKeyColumn, v) :: behind → behind.length ≤ 1

/-- The record of the entity of a record, once it has an id. -/
theorem columns_toRecord_takeOut {k : Key} (hid : k.id? = some id) :
    (M.toRecord ⟨k, r.takeOut M.primaryKeyColumn⟩).columns =
      (M.primaryKeyColumn, id.toValue) :: (r.takeOut M.primaryKeyColumn).columns := by
  have hrest : ((r.takeOut M.primaryKeyColumn).restrict (· != M.primaryKeyColumn)).columns =
      (r.takeOut M.primaryKeyColumn).columns :=
    Columns.filter_eq_self (r.not_mem_takeOut M.primaryKeyColumn)
  rw [columns_toRecord, hid, hrest]
  rfl

/-- A key of the model comes back with an id, with the one that was given if there was one. -/
theorem exists_id_of_filed {given : Option KeyId} {k : Key} (h : (M.keyOf space given).Filed k) :
    ∃ id, k.id? = some id ∧ ∀ i, given = some i → id = i := by
  have hanchored : (M.keyOf space given).Anchored := by
    intro s hs
    cases hs
  obtain ⟨s, _, hstep, hnil, hpath⟩ :=
    List.forall₂_cons_left_iff.1 (h.extends_of_anchored hanchored).steps
  cases hnil
  have hid : k.id? = s.id := by
    rw [Key.id?, hpath]
    rfl
  have hsome : s.id.isSome = true := by
    have hcomplete := h.complete_iff.2 hanchored
    rw [Key.isComplete, hpath] at hcomplete
    simpa using hcomplete
  obtain ⟨id, hs⟩ := Option.isSome_iff_exists.1 hsome
  refine ⟨id, hid.trans hs, ?_⟩
  intro i hi
  rw [hstep.2 i hi] at hs
  exact (Option.some.inj hs).symm

/-- The id that a record gives is the value of its primary-key column, unless this is null. -/
theorem toValue_of_idOf {given : Option KeyId} (h : M.idOf r = .ok given)
    (hv : r.get? M.primaryKeyColumn = some v) (hnull : v ≠ .null) :
    ∃ i, given = some i ∧ i.toValue = v := by
  rcases M.idOf_cases r with ⟨hblank, _⟩ | ⟨i, hi, hid⟩ | ⟨_, _, _, _, hid⟩
  · exact absurd (hblank v hv) hnull
  · rw [hid] at h
    rw [hi] at hv
    exact ⟨i, (Except.ok.inj h).symm, Option.some.inj hv⟩
  · rw [hid] at h
    cases h

/-- **One record.** A record that becomes an entity comes back like this under the key that the
entity is given. -/
theorem returns_of_filed {e : Entity} {k : Key} (h : M.toEntity space r = .ok e)
    (hfiled : e.key.Filed k) : M.Returns r (M.toRecord { e with key := k }) := by
  obtain ⟨given, hgiven, rfl⟩ := map_eq_ok.1 h
  obtain ⟨id, hid, hsame⟩ := exists_id_of_filed hfiled
  have hcolumns := columns_toRecord_takeOut (M := M) (r := r) hid
  constructor
  · intro before v behind hsplit
    have hnot : M.primaryKeyColumn ∉ before.map Prod.fst :=
      Columns.not_mem_of_split (hsplit ▸ r.distinct)
    refine ⟨id, ?_, ?_⟩
    · intro hnull
      have hv : r.get? M.primaryKeyColumn = some v := by
        rw [Record.get?_eq_some_iff, hsplit]
        exact List.mem_append_right before List.mem_cons_self
      obtain ⟨i, hi, hvalue⟩ := toValue_of_idOf hgiven hv hnull
      rw [hsame i hi, hvalue]
    · have htaken := congrArg (Columns.takeOut M.primaryKeyColumn) hsplit
      rw [Columns.takeOut_of_mem hnot] at htaken
      rw [hcolumns, ← htaken]
      rfl
  · have hinOrder : M.InOrder r (M.toRecord ⟨k, r.takeOut M.primaryKeyColumn⟩) ↔
        Columns.takeOut M.primaryKeyColumn r.columns =
          r.columns.filter fun c => c.1 != M.primaryKeyColumn := by
      constructor
      · rintro ⟨i, hi⟩
        exact (List.cons.inj (hcolumns.symm.trans hi)).2
      · intro heq
        exact ⟨id, hcolumns.trans (congrArg _ heq)⟩
    exact hinOrder.trans (Columns.takeOut_eq_filter_iff r.distinct)

/-- **A batch.** Records, entities and keys are paired off place by place. -/
theorem returns_of_stored {records : List Record} {es : List Entity} {ks : List Key}
    (h : List.Forall₂ (fun r e => M.toEntity space r = .ok e) records es)
    (hfiled : List.Forall₂ (fun e k => e.key.Filed k) es ks) :
    List.Forall₂ M.Returns records ((Memory.underKeys ks es).map M.toRecord) := by
  induction h generalizing ks with
  | nil =>
      cases hfiled
      exact .nil
  | cons hr _ ih =>
      obtain ⟨k, ks, hk, hrest, rfl⟩ := List.forall₂_cons_left_iff.1 hfiled
      exact .cons (returns_of_filed hr hk) (ih hrest)

end Model

namespace Engine

variable {config : Config} {registry : Registry} {M : Model}

/-- **The order of columns.** A creation that succeeds returns a record for each that was given, its
id first. The other columns are in the order given exactly if no two of them stand behind the
primary-key column. Else the last of these has moved ahead of the others behind it. -/
theorem columns_of_create (config : Config) (registry : Registry) (kind : String) (M : Model)
    (records out : List Record) (w w' : Session Memory) (hmodel : registry.get kind = .ok M)
    (hcreate : (create ⟨Memory.store, config, registry⟩ kind records).exec w = (.ok out, w')) :
    List.Forall₂ M.Returns records out := by
  obtain ⟨w₁, es, ks, _, hes, hsave, rfl⟩ := exec_create_ok hmodel hcreate
  have hpaths : ∀ e ∈ es, e.key.path ≠ [] := by
    intro e he
    obtain ⟨r, _, hr⟩ := exists_of_mem_right (mapM_eq_ok.1 hes) he
    obtain ⟨id, _, rfl⟩ := map_eq_ok.1 hr
    exact List.cons_ne_nil _ _
  obtain ⟨ks', m', hinsert, hfiled⟩ := w₁.store.exists_insertAll_filed hpaths
  rw [Memory.insertAll_of_save hsave] at hinsert
  cases hinsert
  exact Model.returns_of_stored (mapM_eq_ok.1 hes) hfiled

/-! ## Notes with columns behind their ids -/

/-- One column behind an id, two behind a null, and three behind an id. -/
def orderly : List Record := [
  .ofColumns [("title", .string "a"), ("id", .string "x"), ("done", .bool true)],
  .ofColumns [("id", .null), ("title", .string "b"), ("done", .bool true)],
  .ofColumns [("title", .string "c"), ("id", .string "z"), ("size", .ofNat 3), ("tags", .array []),
    ("done", .bool false)]]

/-- Creates notes where there are none. -/
def createNotes (records : List Record) : Except Failure (List Record) × Session Memory :=
  (create ⟨Memory.store, .default, ⟨[notes]⟩⟩ "Note" records).exec nobody

theorem columns_of_create_notes :
    ∃ out w', createNotes orderly = (.ok out, w') ∧ List.Forall₂ notes.Returns orderly out := by
  generalize hrun : createNotes orderly = run
  have hok : run.1.isOk = true := by
    rw [← hrun]
    decide +kernel
  rcases run with ⟨_ | out, w'⟩
  · cases hok
  · exact ⟨out, w', rfl, columns_of_create .default ⟨[notes]⟩ "Note" notes orderly out nobody w'
      rfl hrun⟩

/-- A note that begins with its id comes back with its other two columns the other way round. -/
theorem create_swaps_columns :
    let r : Record := .ofColumns [("id", .string "x"), ("title", .string "a"), ("done", .bool true)]
    let o : Record := .ofColumns [("id", .string "x"), ("done", .bool true), ("title", .string "a")]
    (createNotes [r]).1 = .ok [o] ∧ ¬ notes.InOrder r o := by
  intro r o
  refine ⟨by decide +kernel, ?_⟩
  rintro ⟨id, h⟩
  exact absurd (List.cons.inj h).2 (by decide)

end Engine

end Quarry
