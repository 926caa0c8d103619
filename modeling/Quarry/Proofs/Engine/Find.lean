import Quarry.Engine
import Quarry.Proofs.Compiling
import Quarry.Proofs.Engine.FanOut

/-!
# What a search finds

On a memory without failures, and with no other clients, a search returns the records of the
listings of its groups, whatever the cap of the memory.
-/

namespace Quarry

namespace Engine

variable {σ : Type}

/-! ## Running criteria -/

theorem exec_reports (ε : Type) (queries : List Query) (line : Query → LineFields) (w : Session σ) :
    ∃ w', (queries.forM fun q => (Action.report .trace .queryCompiled (line q) :
      Action σ ε Unit)).exec w = (.ok (), w') ∧ w'.store = w.store := by
  induction queries generalizing w with
  | nil => exact ⟨w, rfl, rfl⟩
  | cons q queries ih =>
      obtain ⟨w', hexec, hstore⟩ := ih
        { w with journal := w.journal ++ [⟨.trace, .queryCompiled, line q⟩] }
      refine ⟨w', ?_, hstore⟩
      show ((Action.report .trace .queryCompiled (line q) : Action σ ε Unit) >>=
        fun _ => queries.forM _).exec w = _
      rw [Action.exec_bind_ok (Action.exec_report _ _ _ _), hexec]

/-- Criteria that do not compile are rejected, and nothing is run. -/
theorem exec_run_rejected {E : Engine σ} {m : Model} {c : Criteria} {e : CriteriaError}
    {w : Session σ}
    (h : (⟨E.store.space w.store, m, E.config.maxQueryLimit⟩ : Compiler).queries c = .error e) :
    (E.run m c).exec w = (.error (.criteria e), w) := by
  have hcompiler : (E.compiler m).exec w =
      (.ok ⟨E.store.space w.store, m, E.config.maxQueryLimit⟩, w) := rfl
  have hcompiled : (Action.ofExcept Failure.criteria ((⟨E.store.space w.store, m,
      E.config.maxQueryLimit⟩ : Compiler).queries c) : Action σ Failure (List Query)).exec w =
        (.error (.criteria e), w) := by
    rw [Action.exec_ofExcept, h]
    rfl
  rw [Engine.run, Action.exec_bind_ok hcompiler, Action.exec_bind_error hcompiled]

/-- Criteria that compile are run on the store as it is, whether the queries are reported or not. -/
theorem exec_run_eq {E : Engine σ} {m : Model} {c : Criteria} {queries : List Query} {w : Session σ}
    (h : (⟨E.store.space w.store, m, E.config.maxQueryLimit⟩ : Compiler).queries c =
      .ok queries) :
    ∃ w₁, w₁.store = w.store ∧ (E.run m c).exec w =
      Action.exec ((execute E.store queries).adapt Failure.execution) w₁ := by
  have hcompiler : (E.compiler m).exec w =
      (.ok ⟨E.store.space w.store, m, E.config.maxQueryLimit⟩, w) := rfl
  have hcompiled : (Action.ofExcept Failure.criteria ((⟨E.store.space w.store, m,
      E.config.maxQueryLimit⟩ : Compiler).queries c) : Action σ Failure (List Query)).exec w =
        (.ok queries, w) := by
    rw [Action.exec_ofExcept, h]
    rfl
  rw [Engine.run, Action.exec_bind_ok hcompiler, Action.exec_bind_ok hcompiled]
  cases E.config.logQueries with
  | false => exact ⟨w, rfl, rfl⟩
  | true =>
      obtain ⟨w₁, hreports, hstore⟩ := exec_reports Failure queries
        (fun q => [("kind", m.kind), ("query", q.toJson.text)]) w
      refine ⟨w₁, hstore, ?_⟩
      simp only [if_true]
      rw [Action.exec_bind_ok hreports]

/-- Criteria that compile end with the joined results of their queries. Nothing else is run. -/
theorem exec_run {config : Config} (registry : Registry) {m : Model} {c : Criteria}
    {queries : List Query} {w : Session Memory} (hfits : w.store.Fits)
    (hfaults : w.store.faults.queries = 0)
    (hqueries : (⟨w.store.space, m, config.maxQueryLimit⟩ : Compiler).queries c = .ok queries)
    (hstart : ∀ q ∈ queries, q.start = none) :
    ∃ w', (Engine.run ⟨Memory.store, config, registry⟩ m c).exec w =
        (.ok (joined queries w.store), w') ∧
        w'.HasRun w.store (joined queries w.store).batchesRun := by
  have hrun : ∃ w₁, w₁.store = w.store ∧
      (Engine.run ⟨Memory.store, config, registry⟩ m c).exec w =
        Action.exec ((execute Memory.store queries).adapt Failure.execution) w₁ :=
    exec_run_eq hqueries
  obtain ⟨w₁, hstore, hruns⟩ := hrun
  obtain ⟨w₂, hexec, hw₂⟩ := exec_execute hfaults (fun _ _ _ => hfits) hstart hstore
  refine ⟨w₂, ?_, hw₂⟩
  rw [hruns, Action.exec_adapt, hexec]
  rfl

/-! ## Records -/

/-- The slots of compiled queries are the listings of their groups, whatever is made of the entities
that they show. -/
theorem map_slots_eq {α : Type} {compiler : Compiler} {c : Criteria} {gs : List Group}
    {queries : List Query} (shown full : Entity → α)
    (hbound : c.limit.getD 0 = 0 ∨ 1 ≤ compiler.maxLimit)
    (hshown : ∀ g q, compiler.compile c g = .ok q → ∀ e, shown (q.shape e) = full e)
    (h : List.Forall₂ (fun g q => compiler.compile c g = .ok q) gs queries) (memory : Memory) :
    ((queries.flatMap memory.allSlots).filterMap id).map shown =
      gs.flatMap fun g => (c.window (min compiler.maxLimit Query.maxLimit)
        (compiler.model.listing compiler.space c.sort memory.table.entities g)).map full := by
  induction h with
  | nil => rfl
  | cons hq _ ih =>
      have hcompiles := Compiler.compiles_of_compile hq
      rw [List.flatMap_cons, List.filterMap_append, List.map_append, ih, List.flatMap_cons,
        Compiler.entities_allSlots hbound hcompiles, List.map_map]
      refine congrArg (· ++ _) (List.map_congr_left ?_)
      intro e _
      exact hshown _ _ hq e

/-- The slots of compiled queries, as records, are the listings of their groups, as records. -/
theorem records_eq {compiler : Compiler} {c : Criteria} {gs : List Group} {queries : List Query}
    (hpos : 1 ≤ compiler.maxLimit) (hmax : compiler.maxLimit ≤ Query.maxLimit)
    (h : List.Forall₂ (fun g q => compiler.compile c g = .ok q) gs queries) (memory : Memory) :
    ((queries.flatMap memory.allSlots).filterMap id).map compiler.model.toRecord =
      gs.flatMap fun g => (c.window compiler.maxLimit (compiler.model.listing compiler.space c.sort
        memory.table.entities g)).map (compiler.model.recordOf c.select) := by
  have hrecords := map_slots_eq compiler.model.toRecord (compiler.model.recordOf c.select)
    (.inr hpos) (fun g q hq => (Compiler.compiles_of_compile hq).record) h memory
  rwa [Nat.min_eq_left hmax] at hrecords

/-- **A search returns its listings.** Over a memory without failures, and with no other clients,
a search whose criteria compile returns, group after group, the records of the entities in scope
that satisfy the group, strictly in the order of the sort clauses, behind what is skipped and up to
the limit. Without a skip and a limit, an entity in scope is met as often as there are groups that it
satisfies, and it is met exactly if the clause is true of it. The cap has no part in this. -/
theorem find_eq_listings (config : Config) (registry : Registry) (kind : String) (m : Model)
    (c : Criteria) (gs : List Group) (queries : List Query) (w : Session Memory)
    (hmodel : registry.get kind = .ok m) (hgroups : c.clause.groups = .ok gs)
    (hqueries : (⟨w.store.space, m, config.maxQueryLimit⟩ : Compiler).compileAll c gs =
      .ok queries)
    (hpos : 1 ≤ config.maxQueryLimit) (hmax : config.maxQueryLimit ≤ Query.maxLimit)
    (hfits : w.store.Fits) (hfaults : w.store.faults.queries = 0) :
    ((Engine.find ⟨Memory.store, config, registry⟩ kind c).exec w).1 =
        .ok (gs.flatMap fun g => (c.window config.maxQueryLimit
          (m.listing w.store.space c.sort w.store.table.entities g)).map (m.recordOf c.select)) ∧
      (∀ g ∈ gs, (m.listing w.store.space c.sort w.store.table.entities g).Pairwise
        fun a b => m.rank c.sort a b = .lt) ∧
      (c.skip.getD 0 = 0 → c.limit.getD 0 = 0 → ∀ e ∈ w.store.table.entities,
        m.inScope w.store.space e →
          (gs.flatMap fun g => c.window config.maxQueryLimit
            (m.listing w.store.space c.sort w.store.table.entities g)).count e =
              (gs.countP fun g => g.all (m.satisfies w.store.space e)) ∧
          ((e ∈ gs.flatMap fun g => c.window config.maxQueryLimit
            (m.listing w.store.space c.sort w.store.table.entities g)) ↔
              c.clause.Holds (m.truth w.store.space e))) := by
  have hcompiled := mapM_eq_ok.1 hqueries
  have hstart : ∀ q ∈ queries, q.start = none := by
    intro q hq
    obtain ⟨g, _, hg⟩ := exists_of_mem_right hcompiled hq
    exact (Compiler.compiles_of_compile hg).start
  have hall : (⟨w.store.space, m, config.maxQueryLimit⟩ : Compiler).queries c = .ok queries := by
    rw [Compiler.queries, bind_eq_ok]
    exact ⟨gs, hgroups, hqueries⟩
  refine ⟨?_, ?_, ?_⟩
  · obtain ⟨w', hrun, _⟩ := exec_run registry hfits hfaults hall hstart
    have hfound : (Engine.model ⟨Memory.store, config, registry⟩ kind).exec w = (.ok m, w) := by
      rw [Engine.model, Action.exec_ofExcept, hmodel]
      rfl
    rw [Engine.find, Action.exec_bind_ok hfound, Action.exec_bind_ok hrun, Action.exec_pure]
    exact congrArg Except.ok (records_eq hpos hmax hcompiled w.store)
  · intro g _
    exact Compiler.pairwise_listing w.store.table.sorted w.store.space c.sort g
  · intro hskip hlimit e he hscope
    -- Nothing is skipped and nothing is cut, so a window is its whole list.
    have hwindow : (c.window config.maxQueryLimit : List Entity → List Entity) = id := by
      funext l
      unfold Criteria.window
      rw [hskip, List.drop_zero]
      cases h : c.limit with
      | none => rfl
      | some n =>
          rw [h] at hlimit
          cases n with
          | zero => rfl
          | succ n => cases hlimit
    rw [hwindow]
    exact ⟨Model.count_listings w.store.table.sorted he hscope gs,
      Model.mem_listings hgroups he hscope⟩

/-- The model of notes, which have no columns but their ids. -/
def notes : Model := ⟨"Note", "id", "id", []⟩

/-- The note of number three, or any note, the latest first. -/
def latestFirst : Criteria :=
  { Criteria.everything with
    clause := .any [.equals "id" (.number (.ofNat 3)), .everything]
    sort := [⟨"id", .descending⟩] }

/-- The third note answers both branches and is found twice. -/
theorem find_eq_listings_latestFirst :
    ((Engine.find ⟨Memory.store, .default, ⟨[notes]⟩⟩ "Note" latestFirst).exec
      (.start Pull.threeNotes)).1 =
        .ok ([3, 3, 2, 1].map fun n => .ofColumns [("id", .number (.ofInt64 n))]) := by
  obtain ⟨hfind, _, _⟩ := find_eq_listings .default ⟨[notes]⟩ "Note" notes latestFirst
    [[⟨"id", .eq, .number (.ofNat 3)⟩], []] _ (.start Pull.threeNotes) rfl rfl rfl (by decide)
    (by decide) Pull.fits_threeNotes rfl
  rw [hfind]
  simp only [Compiler.listing_eq_sort, Order.sort_eq_insertionSort]
  rfl

end Engine

end Quarry
