import Quarry.Engine.Uniqueness
import Quarry.Proofs.Compiling
import Quarry.Proofs.Criteria.Flattening
import Quarry.Proofs.Engine.FanOutResults
import Quarry.Proofs.Engine.Sweep
import Quarry.Proofs.Json.Same

/-!
# What a check for conflicts rules out

A check looks up one value for each value that records propose, up to equality. Every stored entity
of the kind with a property that one of these values is looked up by is among the conflicts.
-/

namespace Quarry

open Quarry.Action Json

namespace Probe

variable {c : Compiler} {records : List Record} {column : String} {values : List Value}
  {queries : List Query} {m : Memory}

/-! ## What is looked up -/

theorem exists_distinct {acc values : List Value} {v : Value}
    (h : (∃ v₀ ∈ acc, v = v₀ ∨ v.same v₀ = true) ∨ v ∈ values) :
    ∃ v₀ ∈ values.foldl (fun acc v => if acc.any v.same then acc else acc ++ [v]) acc,
      v = v₀ ∨ v.same v₀ = true := by
  induction values generalizing acc with
  | nil =>
      rcases h with h | h
      · exact h
      · cases h
  | cons x values ih =>
      rw [List.foldl_cons]
      refine ih ?_
      by_cases hx : acc.any x.same = true
      · rw [if_pos hx]
        rcases h with h | h
        · exact .inl h
        · rcases List.mem_cons.1 h with rfl | h
          · obtain ⟨v₀, hv₀, hsame⟩ := List.any_eq_true.1 hx
            exact .inl ⟨v₀, hv₀, .inr hsame⟩
          · exact .inr h
      · rw [if_neg hx]
        rcases h with ⟨v₀, hv₀, hv⟩ | h
        · exact .inl ⟨v₀, List.mem_append_left _ hv₀, hv⟩
        · rcases List.mem_cons.1 h with rfl | h
          · exact .inl ⟨v, by simp, .inl rfl⟩
          · exact .inr h

/-- A value that a record proposes is looked up, or one that it is equal to. -/
theorem exists_proposed {r : Record} (hr : r ∈ records) {v : Value}
    (hv : r.present? column = some v) :
    ∃ v₀ ∈ proposed records column, v = v₀ ∨ v.same v₀ = true :=
  exists_distinct (.inr (List.mem_filterMap.2 ⟨r, hr, hv⟩))

/-- The criteria for some values have a group for each of them. -/
theorem groups_criteria (h : values ≠ []) : (criteria column values).clause.groups =
    .ok (values.map fun v => [⟨column, .eq, v⟩]) := by
  show (Clause.any (values.map (Clause.equals column))).groups = _
  rw [Clause.groups_any (by simpa using h), Clause.groupsOfAny_equals]

/-- There is a query for each value. -/
theorem exists_query (h : c.queries (criteria column values) = .ok queries) {v : Value}
    (hv : v ∈ values) :
    ∃ q ∈ queries, Compiler.Compiles c (criteria column values) [⟨column, .eq, v⟩] q := by
  obtain ⟨groups, hgroups, hcompiled⟩ := bind_eq_ok.1 h
  rw [groups_criteria (List.ne_nil_of_mem hv)] at hgroups
  cases hgroups
  obtain ⟨q, hq, hcompile⟩ := exists_of_mem_left (mapM_eq_ok.1 hcompiled)
    (List.mem_map_of_mem hv)
  exact ⟨q, hq, Compiler.compiles_of_compile hcompile⟩

/-- A query about a column other than that of the primary key looks up no key. -/
theorem keyLookup?_of_compiles {criteria : Criteria} {q : Query} {p : Predicate}
    (h : Compiler.Compiles c criteria [p] q) (hcolumn : p.field ≠ c.model.primaryKeyColumn) :
    q.keyLookup? = none := by
  refine Option.eq_none_iff_forall_ne_some.2 ?_
  intro k hk
  obtain ⟨p', hp', hkey, _⟩ := (Compiler.exists_keyLookup?_iff h).1 ⟨k, hk⟩
  rw [List.mem_singleton.1 hp'] at hkey
  exact hcolumn hkey

/-! ## What a drain meets -/

/-- A drain in key order meets each entity that its query matches. -/
theorem exists_slot {q : Query} {d : Drain} (hlookup : q.keyLookup? = none)
    (horders : q.orders = []) (hoffset : q.offset = none) (hlimit : q.limit = none)
    (hstart : q.start = none) (h : Drain.Drained m q d) {e : Entity} (he : e ∈ m.selected q) :
    ∃ x, some x ∈ d.slots ∧ x.key = e.key := by
  obtain ⟨i, qs, hyields⟩ := h
  have hfrom : q = q.fromKey none := by
    cases q
    cases hstart
    rfl
  obtain ⟨pages, hsweep, _, hslots⟩ :=
    Drain.sweep_of_yields hlookup horders hoffset hlimit hyields rfl hlimit hfrom
  obtain ⟨x, hx, hkey⟩ := hsweep.complete e.key rfl fun j _ => ⟨e, he, rfl⟩
  refine ⟨x, ?_, hkey⟩
  rw [hslots]
  exact List.mem_append_right _ (List.mem_map_of_mem hx)

/-- The queries for some values meet every entity of the kind with a property that one of the values
is looked up by. -/
theorem exists_of_accepts {r : ResultSet} (h : c.queries (criteria column values) = .ok queries)
    (hcolumn : column ≠ c.model.primaryKeyColumn) (hmeets : FanOut.Meets m queries r) {v : Value}
    (hv : v ∈ values) {e : Entity} (he : e ∈ m.table.entities)
    (hscope : c.model.inScope c.space e = true) {actual : Value}
    (hactual : e.properties.get? column = some actual)
    (haccepts : Filter.accepts actual .eq v = true) : ∃ x ∈ r.entities, x.key = e.key := by
  obtain ⟨q, hq, hcompiles⟩ := exists_query h hv
  obtain ⟨d, hdrained, hslots⟩ := hmeets q hq
  have hsatisfies : c.model.satisfies c.space e ⟨column, .eq, v⟩ = true := by
    rw [Model.satisfies, if_neg hcolumn, hactual]
    exact haccepts
  have hselected : e ∈ m.selected q := by
    rw [Memory.selected, List.mem_filter, Compiler.satisfiedBy_of_compiles hcompiles, Query.covers,
      hcompiles.space, hcompiles.kind, List.all_cons, hsatisfies]
    exact ⟨he, by simpa [Model.inScope] using hscope⟩
  obtain ⟨x, hx, hkey⟩ := exists_slot (keyLookup?_of_compiles hcompiles hcolumn) hcompiles.orders
    hcompiles.offset hcompiles.limit hcompiles.start hdrained hselected
  exact ⟨x, hslots x hx, hkey⟩

/-! ## Look-ups as work of a group -/

/-- The look-up of an attribute is still to be started, or is under way with its queries. -/
def LooksUp (m : Memory) (c : Compiler) (records : List Record) (a : UniqueAttribute) :
    Probe → Prop
  | fresh a' => a' = a
  | running a' f => a' = a ∧ ∃ queries,
    c.queries (criteria a.column (proposed records a.column)) = .ok queries ∧ f.IsFor m queries

/-- The conflicts are those of an attribute: there are none because nothing is proposed, or they are
what its queries meet. -/
def Finds (m : Memory) (c : Compiler) (records : List Record) (a : UniqueAttribute)
    (found : List Conflict) : Prop :=
  proposed records a.column = [] ∧ found = [] ∨
    ∃ queries r, c.queries (criteria a.column (proposed records a.column)) = .ok queries ∧
      FanOut.Meets m queries r ∧ FanOut.FromStored m queries r ∧ found = conflicts c.model a r

/-- The conflicts are those of all attributes. -/
def FindsAll (m : Memory) (c : Compiler) (records : List Record) (found : List Conflict) : Prop :=
  (∀ a ∈ c.model.unique, ∃ part, Finds m c records a part ∧ part ⊆ found) ∧
    ∀ x ∈ found, ∃ a part, Finds m c records a part ∧ x ∈ part

variable {a : UniqueAttribute}

/-- A stored value equal to a proposed one is found. Lists are left out, since they are looked up by
their items. -/
theorem exists_of_finds {found : List Conflict} (h : Finds m c records a found)
    (hcolumn : a.column ≠ c.model.primaryKeyColumn) {r : Record} (hr : r ∈ records) {v : Value}
    (hv : r.present? a.column = some v) {e : Entity} (he : e ∈ m.table.entities)
    (hscope : c.model.inScope c.space e = true) {actual : Value}
    (hactual : e.properties.get? a.column = some actual) (hlist : ∀ items, actual ≠ .array items)
    (hsame : actual.same v = true) : ∃ x ∈ found, x.existing.key = e.key := by
  obtain ⟨v₀, hv₀, hequal⟩ := exists_proposed hr hv
  have haccepts : Filter.accepts actual .eq v₀ = true := by
    have hsame₀ : actual.same v₀ = true := by
      rcases hequal with rfl | hequal
      · exact hsame
      · exact Value.same_trans hsame hequal
    cases actual with
    | array items => exact absurd rfl (hlist items)
    | _ => exact hsame₀
  rcases h with ⟨hnone, _⟩ | ⟨queries, results, hqueries, hmeets, _, rfl⟩
  · rw [hnone] at hv₀
    cases hv₀
  · obtain ⟨x, hx, hkey⟩ :=
      exists_of_accepts hqueries hcolumn hmeets hv₀ he hscope hactual haccepts
    exact ⟨_, List.mem_map_of_mem hx, hkey⟩

/-- Conflicts are with what is stored, as a query shapes it. -/
theorem stored_of_findsAll {found : List Conflict} (h : FindsAll m c records found) {x : Conflict}
    (hx : x ∈ found) : ∃ e ∈ m.table.entities, ∃ q : Query, x.existing = q.shape e := by
  obtain ⟨a, part, hfinds, hx⟩ := h.2 x hx
  rcases hfinds with ⟨_, rfl⟩ | ⟨queries, r, _, _, hstored, rfl⟩
  · cases hx
  · obtain ⟨y, hy, rfl⟩ := List.mem_map.1 hx
    obtain ⟨q, _, e, he, rfl⟩ := hstored y hy
    exact ⟨e, he, q, rfl⟩

/-- A look-up goes on as its fan-out does. It ends with the conflicts of a fan-out that is done, or
with none if nothing is proposed. -/
theorem keeps_advance_of {σ : Type} {S : Store σ} {J : σ → Prop} {P : FanOut → Prop}
    {Good : Probe → Prop} {Post : List Conflict → Prop} {p : Probe}
    (hp : p = fresh a ∨ ∃ f, p = running a f ∧ P f)
    (hnone : proposed records a.column = [] → Post [])
    (henter : ∀ queries, c.queries (criteria a.column (proposed records a.column)) = .ok queries →
      Keeps J (FanOut.enter queries : Action σ CheckError FanOut) P)
    (hadvance : ∀ f, P f → Keeps J (f.advance S) P)
    (hopen : ∀ f, P f → Good (running a f))
    (hdone : ∀ f, P f → f.isDone = true → Post (conflicts c.model a f.results)) :
    Keeps J (p.advance S c records) (Progress.Meets Good Post) := by
  have hturn : ∀ f, P f →
      Keeps J ((running a f).advance S c records) (Progress.Meets Good Post) := by
    intro f hf
    refine ((hadvance f hf).adapt _).bind ?_
    intro f' hf'
    unfold settle
    split
    · rename_i hends
      refine (FanOut.keeps_finish f').bind ?_
      rintro _ rfl
      exact keeps_pure (hdone f' hf' hends)
    · exact keeps_pure (hopen f' hf')
  rcases hp with rfl | ⟨f, rfl, hf⟩
  · cases hvalues : proposed records a.column with
    | nil =>
        simp only [advance, hvalues]
        exact keeps_pure (hnone hvalues)
    | cons v values =>
        simp only [advance, hvalues]
        refine Keeps.bind (P := P) ?_ hturn
        refine (keeps_count _ _).bind ?_
        intro _ _
        refine (keeps_report _ _ _).bind ?_
        intro _ _
        refine (keeps_ofExcept _ _).bind ?_
        intro queries hqueries
        rw [← hvalues] at hqueries
        exact henter queries hqueries
  · exact hturn f hf

theorem keeps_advance (m : Memory) {p : Probe} (h : p.LooksUp m c records a) :
    Keeps m.Is (p.advance Memory.store c records)
      (Progress.Meets (LooksUp m c records a) (Finds m c records a)) := by
  refine keeps_advance_of (a := a) (P := fun f => ∃ queries,
    c.queries (criteria a.column (proposed records a.column)) = .ok queries ∧ f.IsFor m queries)
    ?_ ?_ ?_ ?_ ?_ ?_
  · cases p with
    | fresh a' => exact .inl (congrArg fresh h)
    | running a' f =>
        obtain ⟨rfl, hf⟩ := h
        exact .inr ⟨f, rfl, hf⟩
  · intro hvalues
    exact .inl ⟨hvalues, rfl⟩
  · intro queries hqueries
    exact (FanOut.keeps_enter m queries).mono fun f hf => ⟨queries, hqueries, hf⟩
  · rintro f ⟨queries, hqueries, hf⟩
    exact (FanOut.keeps_advance hf).mono fun f' hf' => ⟨queries, hqueries, hf'⟩
  · intro f hf
    exact ⟨rfl, hf⟩
  · rintro f ⟨queries, hqueries, hf⟩ hdone
    have hjoins := FanOut.joins_of_done hf hdone
    exact .inr ⟨queries, f.results, hqueries, hjoins.meets, hjoins.fromStored, rfl⟩

theorem sound_work (m : Memory) (c : Compiler) (records : List Record) :
    (work Memory.store c records).Sound m.Is
      (fun place p => ∃ a, c.model.unique[place]? = some a ∧ p.LooksUp m c records a)
      (fun place found => ∃ a, c.model.unique[place]? = some a ∧ Finds m c records a found) := by
  constructor
  · rintro place p ⟨a, ha, hp⟩
    refine (keeps_advance m hp).mono ?_
    intro progress hprogress
    cases progress with
    | suspended p' => exact ⟨a, ha, hprogress⟩
    | ended found => exact ⟨a, ha, hprogress⟩
  · intro p
    cases p with
    | fresh a => exact keeps_pure trivial
    | running a f => exact f.scope.keeps_abandon

end Probe

/-- A check reports what its look-ups end with, attribute by attribute. -/
theorem keeps_findConflicts_of {σ : Type} {S : Store σ} {J : σ → Prop} {c : Compiler}
    {records : List Record} {Good : Nat → Probe → Prop} {Post : Nat → List Conflict → Prop}
    (hW : (Probe.work S c records).Sound J Good Post)
    (h : ∀ place a, c.model.unique[place]? = some a → Good place (.fresh a)) :
    Keeps J (findConflicts S c records) fun found =>
      ∃ parts : List (List Conflict), found = parts.flatten ∧
        parts.length = c.model.unique.length ∧
        ∀ place part, parts[place]? = some part → Post place part := by
  refine (keeps_inquire _).bind ?_
  intro patience _
  refine (TaskGroup.keeps_complete_start hW _ _ ?_).bind ?_
  · intro place p hp
    rw [List.getElem?_map, Option.map_eq_some_iff] at hp
    obtain ⟨a, ha, rfl⟩ := hp
    exact h place a ha
  · rintro probes ⟨hlength, hresults⟩
    rw [List.length_map] at hlength
    by_cases hempty : probes.results.flatten.isEmpty = true
    · simp only [hempty]
      exact keeps_pure ⟨_, rfl, hlength, hresults⟩
    · simp only [hempty]
      refine (keeps_count _ _).bind ?_
      intro _ _
      refine (keeps_report _ _ _).bind ?_
      intro _ _
      exact keeps_pure ⟨_, rfl, hlength, hresults⟩

/-- A check reports what is found for each attribute, and nothing else. -/
theorem keeps_findConflicts (m : Memory) (c : Compiler) (records : List Record) :
    Keeps m.Is (findConflicts Memory.store c records) (Probe.FindsAll m c records) := by
  refine (keeps_findConflicts_of (Probe.sound_work m c records) fun _ a ha => ⟨a, ha, rfl⟩).mono ?_
  rintro _ ⟨parts, rfl, hlength, hparts⟩
  constructor
  · intro a ha
    obtain ⟨place, hplace⟩ := List.getElem?_of_mem ha
    have hlt : place < parts.length := by
      rw [hlength]
      exact (List.getElem?_eq_some_iff.1 hplace).1
    obtain ⟨a', ha', hfound⟩ := hparts place _ (List.getElem?_eq_getElem hlt)
    rw [hplace] at ha'
    cases ha'
    refine ⟨_, hfound, ?_⟩
    intro x hx
    exact List.mem_flatten.2 ⟨_, List.getElem_mem hlt, hx⟩
  · intro x hx
    obtain ⟨found, hfound, hx⟩ := List.mem_flatten.1 hx
    obtain ⟨place, hplace⟩ := List.getElem?_of_mem hfound
    obtain ⟨a, _, hfinds⟩ := hparts place found hplace
    exact ⟨a, found, hfinds, hx⟩

end Quarry
