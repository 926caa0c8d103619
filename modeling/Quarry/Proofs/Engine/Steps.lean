import Quarry.Engine
import Quarry.Proofs.Engine.Uniqueness
import Quarry.Proofs.Store.Kind

/-!
# The steps of an operation

Up to its write, an operation only reads, whether it goes on or fails on the way. What it has found
by then is stored in the memory, and conflicts hold every entity that a proposed value is equal to.
-/

namespace Quarry

open Quarry.Action Json

namespace Engine

variable {config : Config} {registry : Registry} {M : Model}

/-- The compiler of an operation on this memory. -/
def compilerFor (config : Config) (M : Model) (m : Memory) : Compiler :=
  ⟨m.space, M, config.maxQueryLimit⟩

/-! ## Reading -/

/-- An operation on a registered kind goes on with its model. -/
theorem exec_model_bind {σ α : Type} {E : Engine σ} {kind : String}
    (h : E.registry.get kind = .ok M) (f : Model → Action σ Failure α) (w : Session σ) :
    (E.model kind >>= f).exec w = (f M).exec w := by
  have hmodel : (E.model kind).exec w = (.ok M, w) := by
    rw [model, exec_ofExcept, h]
    rfl
  exact exec_bind_ok hmodel

/-- What a search and a count have in common: criteria are run for a registered kind, and something
is made of what they find. -/
def reading {σ α : Type} (E : Engine σ) (kind : String) (criteria : Model → Criteria)
    (result : Model → ResultSet → α) : Action σ Failure α := do
  let M ← E.model kind
  let found ← E.run M (criteria M)
  return result M found

/-- Reading keeps what every run of the criteria keeps. -/
theorem keeps_reading {σ α : Type} {E : Engine σ} {kind : String} {criteria : Model → Criteria}
    {result : Model → ResultSet → α} {J : σ → Prop} {P : α → Prop}
    (h : ∀ M, Keeps J (E.run M (criteria M)) fun r => P (result M r)) :
    Keeps J (E.reading kind criteria result) P := by
  refine (keeps_ofExcept _ _).bind ?_
  intro M _
  exact (h M).bind fun _ hfound => keeps_pure hfound

theorem keeps_compiler (m : Memory) (config : Config) (registry : Registry) (M : Model) :
    Keeps m.Is (compiler ⟨Memory.store, config, registry⟩ M) fun c =>
      c = compilerFor config M m := by
  refine (keeps_inquire _).bind ?_
  rintro _ ⟨s, hs, rfl⟩
  refine keeps_pure ?_
  show (⟨s.space, M, config.maxQueryLimit⟩ : Compiler) = _
  rw [Memory.space_of_bare hs]
  rfl

/-- Criteria find what their queries yield, one after another. -/
theorem keeps_run (m : Memory) (config : Config) (registry : Registry) (M : Model) (c : Criteria) :
    Keeps m.Is (run ⟨Memory.store, config, registry⟩ M c) fun r =>
      ∃ queries, (compilerFor config M m).queries c = .ok queries ∧
        FanOut.Joins m queries r := by
  refine (keeps_compiler m config registry M).bind ?_
  rintro _ rfl
  refine (keeps_ofExcept _ _).bind ?_
  intro queries hqueries
  have hexecute : Keeps m.Is (ExceptT.adapt Failure.execution (execute Memory.store queries))
      fun r => ∃ queries, (compilerFor config M m).queries c = .ok queries ∧
        FanOut.Joins m queries r :=
    ((FanOut.keeps_execute m queries).adapt _).mono fun r hr => ⟨queries, hqueries, hr⟩
  cases hlog : config.logQueries with
  | false => exact hexecute
  | true =>
      simp only [if_true]
      exact (keeps_forM fun q _ => keeps_report _ _ _).bind fun _ _ => hexecute

theorem mem_of_mem_foldl_distinct {acc es : List Entity} {e : Entity}
    (h : e ∈ es.foldl (fun acc e => if acc.any fun x => x.key == e.key then acc else acc ++ [e])
      acc) : e ∈ acc ∨ e ∈ es := by
  induction es generalizing acc with
  | nil => exact .inl h
  | cons x es ih =>
      rw [List.foldl_cons] at h
      rcases ih h with hacc | hes
      · split at hacc
        · exact .inl hacc
        · rcases List.mem_append.1 hacc with hold | hx
          · exact .inl hold
          · exact .inr (List.mem_singleton.1 hx ▸ List.mem_cons_self)
      · exact .inr (List.mem_cons_of_mem x hes)

theorem mem_of_mem_distinct {es : List Entity} {e : Entity} (h : e ∈ distinct es) : e ∈ es :=
  (mem_of_mem_foldl_distinct h).resolve_left List.not_mem_nil

theorem nodup_foldl_distinct {acc : List Entity} (h : (acc.map Entity.key).Nodup)
    (es : List Entity) :
    ((es.foldl (fun acc e => if acc.any fun x => x.key == e.key then acc else acc ++ [e])
      acc).map Entity.key).Nodup := by
  induction es generalizing acc with
  | nil => exact h
  | cons e es ih =>
      rw [List.foldl_cons]
      apply ih
      split
      · exact h
      · rename_i hnew
        rw [List.map_append, List.nodup_append]
        refine ⟨h, by simp, ?_⟩
        intro k hk k' hk'
        obtain ⟨x, hx, rfl⟩ := List.mem_map.1 hk
        obtain rfl := List.mem_singleton.1 hk'
        intro hkey
        exact hnew (List.any_eq_true.2 ⟨x, hx, beq_iff_eq.2 hkey⟩)

/-- Each key is met once. -/
theorem nodup_distinct (es : List Entity) : ((distinct es).map Entity.key).Nodup := by
  have hnone : (([] : List Entity).map Entity.key).Nodup := List.nodup_nil
  exact nodup_foldl_distinct hnone es

/-- With everything selected, criteria find entities as they are stored. -/
theorem keeps_run_everything (m : Memory) (config : Config) (registry : Registry) (M : Model)
    (c : Criteria) :
    Keeps m.Is (run ⟨Memory.store, config, registry⟩ M { c with select := .everything }) fun r =>
      ∀ e ∈ r.entities, e ∈ m.table.entities := by
  refine (keeps_run m config registry M _).mono ?_
  rintro found ⟨queries, hqueries, hfound⟩ e he
  obtain ⟨q, hq, x, hx, rfl⟩ := hfound.fromStored e he
  rwa [Compiler.shape_of_queries hqueries rfl hq x]

/-- What is to be written over or deleted is stored. -/
theorem keeps_matched (m : Memory) (config : Config) (registry : Registry) (M : Model)
    (c : Criteria) :
    Keeps m.Is (matched ⟨Memory.store, config, registry⟩ M c) fun es =>
      ∀ e ∈ es, e ∈ m.table.entities := by
  refine (keeps_run_everything m config registry M c).bind ?_
  intro found hstored
  refine keeps_pure ?_
  intro e he
  exact hstored e (mem_of_mem_distinct he)

/-! ## The comparison with what is stored -/

theorem keeps_conflicts (m : Memory) (config : Config) (registry : Registry) (M : Model)
    (records : List Record) :
    Keeps m.Is (conflicts ⟨Memory.store, config, registry⟩ M records)
      (Probe.FindsAll m (compilerFor config M m) records) := by
  refine (keeps_compiler m config registry M).bind ?_
  rintro _ rfl
  exact (keeps_findConflicts m _ records).adapt _

theorem eq_nil_of_ofConflicts {conflicts : List Conflict}
    (h : UniqueError.ofConflicts conflicts = .ok ()) : conflicts = [] := by
  by_contra hne
  rw [UniqueError.ofConflicts, if_neg (by rwa [List.isEmpty_iff])] at h
  cases h

/-- Records that pass have been looked up, and nothing was found. -/
theorem keeps_enforceUniqueness (m : Memory) (config : Config) (registry : Registry) (M : Model)
    (records : List Record) :
    Keeps m.Is (enforceUniqueness ⟨Memory.store, config, registry⟩ M records) fun _ =>
      ∀ a ∈ M.unique, Probe.Finds m (compilerFor config M m) records a [] := by
  refine (keeps_conflicts m config registry M records).bind ?_
  intro conflicts hfinds
  refine (keeps_ofExcept _ _).mono ?_
  intro _ hnone a ha
  obtain ⟨found, hfound, hsubset⟩ := hfinds.1 a ha
  rw [eq_nil_of_ofConflicts hnone] at hsubset
  rwa [List.subset_nil.1 hsubset] at hfound

/-- An entity of the kind that holds a proposed value is found, unless the value is a list. -/
theorem exists_of_stored {m : Memory} {a : UniqueAttribute} {records : List Record}
    {found : List Conflict} (h : Probe.Finds m (compilerFor config M m) records a found)
    (hcolumn : a.column ≠ M.primaryKeyColumn) {e : Entity} (he : e ∈ m.ofKind M.kind) {v w : Value}
    (hv : e.properties.get? a.column = some v) (hlist : ∀ items, v ≠ .array items) {r : Record}
    (hr : r ∈ records) (hw : r.present? a.column = some w) (hsame : v.same w = true) :
    ∃ x ∈ found, x.existing.key = e.key := by
  obtain ⟨hmem, hspace, hkind⟩ := Memory.mem_ofKind.1 he
  have hscope : M.inScope m.space e = true := by simp [Model.inScope, hspace, hkind]
  exact Probe.exists_of_finds h hcolumn hr hw hmem hscope hv hlist hsame

/-! ## Writing -/

theorem exec_write_ok {σ α : Type} {f : σ → Except StoreError α × σ} {a : α} {w : Session σ}
    {s : σ} (h : f w.store = (.ok a, s)) : (write f).exec w = (.ok a, { w with store := s }) := by
  refine exec_orElseDo_ok ?_
  rw [exec_adapt, exec_attempt, h]
  rfl

theorem store_of_exec_write {σ α : Type} {f : σ → Except StoreError α × σ} {a : α}
    {w w' : Session σ} (h : (write f).exec w = (.ok a, w')) : f w.store = (.ok a, w'.store) := by
  rw [write, exec_orElseDo, exec_adapt, exec_attempt] at h
  cases hf : f w.store with
  | mk r s =>
      rw [hf] at h
      cases r with
      | error e => cases h
      | ok b =>
          cases h
          rfl

end Engine

end Quarry
