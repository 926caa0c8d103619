import Quarry.Plan
import Quarry.Proofs.Engine.Asking
import Quarry.Proofs.Engine.Find
import Quarry.Proofs.Engine.Steps

/-!
# What a plan says of a search

A plan is made for the namespace of the configuration, and a search is made in the namespace of the
store, whatever the configuration says. Apart from that they agree. A search first asks the queries
of the plan, in their order, and if the plan is rejected the search is as well, for the same reason
and before anything is asked.
-/

namespace Quarry

open Quarry.Action Json

/-! ## Namespaces of queries -/

def Filter.inSpace (space : Option String) (f : Filter) : Filter :=
  match f.operand with
  | .value _ => f
  | .key k => { f with operand := .key { k with space } }

/-- The query in another namespace, with all its keys. -/
def Query.inSpace (space : Option String) (q : Query) : Query :=
  { q with space, filters := q.filters.map (Filter.inSpace space) }

/-- The query asks for entities of this namespace and compares with keys of no other. -/
structure Query.IsScoped (space : Option String) (q : Query) : Prop where
  space_eq : q.space = space
  key_space : ∀ f ∈ q.filters, ∀ k, f.operand = .key k → k.space = space

theorem Filter.inSpace_eq_self {space : Option String} {f : Filter}
    (h : ∀ k, f.operand = .key k → k.space = space) : f.inSpace space = f := by
  unfold inSpace
  split
  · rfl
  · rename_i k hk
    rw [← h k hk, ← hk]

theorem Query.inSpace_eq_self {space : Option String} {q : Query} (h : q.IsScoped space) :
    q.inSpace space = q := by
  have hfilters : q.filters.map (Filter.inSpace space) = q.filters.map id :=
    List.map_congr_left fun f hf => Filter.inSpace_eq_self (h.key_space f hf)
  rw [List.map_id] at hfilters
  rw [inSpace, hfilters, ← h.space_eq]

theorem Query.isScoped_inSpace (space : Option String) (q : Query) :
    (q.inSpace space).IsScoped space := by
  refine ⟨rfl, ?_⟩
  intro f hf k hk
  obtain ⟨f₀, _, rfl⟩ := List.mem_map.1 hf
  unfold Filter.inSpace at hk
  split at hk
  · rename_i hoperand
    rw [hoperand] at hk
    cases hk
  · cases hk
    rfl

namespace Compiler

variable (c : Compiler) (space : Option String) (criteria : Criteria)

theorem filter_inSpace (p : Predicate) :
    ({ c with space } : Compiler).filter p = (c.filter p).map (Filter.inSpace space) := by
  unfold filter
  by_cases hkey : p.field = c.model.primaryKeyColumn
  · rw [if_pos hkey, if_pos hkey]
    unfold keyFor
    cases KeyId.ofValue? p.value <;> rfl
  · rw [if_neg hkey, if_neg hkey]
    rfl

theorem select_inSpace (q : Query) (s : Selection) :
    ({ c with space } : Compiler).select (q.inSpace space) s = (c.select q s).inSpace space := by
  cases s with
  | everything => rfl
  | fields names =>
      have hnames : ({ c with space } : Compiler).projection names = c.projection names := rfl
      rw [select, select, hnames]
      cases c.projection names <;> rfl

theorem compile_inSpace (g : Group) :
    ({ c with space } : Compiler).compile criteria g =
      (c.compile criteria g).map (Query.inSpace space) := by
  unfold compile
  have hfilters : g.mapM ({ c with space } : Compiler).filter =
      (g.mapM c.filter).map (List.map (Filter.inSpace space)) := by
    rw [← mapM_map]
    exact congrArg (List.mapM · g) (funext fun p => c.filter_inSpace space p)
  rw [hfilters]
  cases g.mapM c.filter with
  | error e => rfl
  | ok filters =>
      apply congrArg Except.ok
      rw [← c.select_inSpace space]
      rfl

/-- In another namespace, criteria become the same queries there. -/
theorem queries_inSpace :
    ({ c with space } : Compiler).queries criteria =
      (c.queries criteria).map (List.map (Query.inSpace space)) := by
  unfold queries compileAll
  cases criteria.clause.groups with
  | error e => rfl
  | ok groups =>
      show groups.mapM (({ c with space } : Compiler).compile criteria) =
        (groups.mapM (c.compile criteria)).map (List.map (Query.inSpace space))
      rw [← mapM_map]
      exact congrArg (List.mapM · groups) (funext fun g => c.compile_inSpace space criteria g)

end Compiler

/-! ## Plans -/

namespace Plan

variable {c : Compiler} {json : Value}

/-- A plan is made for criteria that can be read, from the queries that they become. -/
theorem outcome_build (c : Compiler) (json : Value) :
    (∃ e, Criteria.read json = .error e ∧ (build c json).outcome = .rejected e) ∨
      ∃ criteria, Criteria.read json = .ok criteria ∧
        match c.queries criteria with
        | .error e => (build c json).outcome = .rejected e
        | .ok queries => ∃ groups, (build c json).outcome = .accepted groups queries := by
  unfold build
  cases hread : Criteria.read json with
  | error e => exact .inl ⟨e, rfl, rfl⟩
  | ok criteria =>
      refine .inr ⟨criteria, rfl, ?_⟩
      simp only [Compiler.queries, bind, Except.bind]
      cases hgroups : criteria.clause.groups with
      | error e => rfl
      | ok groups =>
          simp only
          cases c.compileAll criteria groups with
          | error e => rfl
          | ok queries => exact ⟨groups, rfl⟩

theorem queries_of_accepted {groups : List Group} {queries : List Query}
    (h : (build c json).outcome = .accepted groups queries) :
    ∃ criteria, Criteria.read json = .ok criteria ∧ c.queries criteria = .ok queries := by
  rcases outcome_build c json with ⟨e, _, hrejected⟩ | ⟨criteria, hread, houtcome⟩
  · rw [hrejected] at h
    cases h
  · refine ⟨criteria, hread, ?_⟩
    cases hqueries : c.queries criteria with
    | error e =>
        rw [hqueries] at houtcome
        rw [houtcome] at h
        cases h
    | ok queries' =>
        rw [hqueries] at houtcome
        obtain ⟨groups', haccepted⟩ := houtcome
        rw [haccepted] at h
        cases h
        rfl

theorem error_of_rejected {e : CriteriaError} (h : (build c json).outcome = .rejected e) :
    Criteria.read json = .error e ∨
      ∃ criteria, Criteria.read json = .ok criteria ∧ c.queries criteria = .error e := by
  rcases outcome_build c json with ⟨e', hread, hrejected⟩ | ⟨criteria, hread, houtcome⟩
  · rw [hrejected] at h
    cases h
    exact .inl hread
  · refine .inr ⟨criteria, hread, ?_⟩
    cases hqueries : c.queries criteria with
    | error e' =>
        rw [hqueries] at houtcome
        rw [houtcome] at h
        cases h
        rfl
    | ok queries =>
        rw [hqueries] at houtcome
        obtain ⟨groups, haccepted⟩ := houtcome
        rw [haccepted] at h
        cases h

end Plan

/-! ## Searches -/

namespace Engine

variable {σ : Type} {S : Store σ} {config : Config} {registry : Registry} {kind : String}
  {M : Model} {c : Criteria}

/-- The compiler of a search, in the namespace of the store. -/
def searchCompiler (S : Store σ) (config : Config) (M : Model) (s : σ) : Compiler :=
  ⟨S.space s, M, config.maxQueryLimit⟩

theorem asksAll_find {w : Session (σ × List Query)} (hmodel : registry.get kind = .ok M)
    {queries : List Query}
    (hqueries : (searchCompiler S config M w.store.1).queries c = .ok queries) :
    AsksAll w.store.2 queries
      ((find ⟨S.recorded, config, registry⟩ kind c).exec w).2.store.2 := by
  have hrun : ∃ w₁, w₁.store = w.store ∧ (run ⟨S.recorded, config, registry⟩ M c).exec w =
      Action.exec ((execute S.recorded queries).adapt Failure.execution) w₁ := exec_run_eq hqueries
  obtain ⟨w₁, hstore, hruns⟩ := hrun
  rw [find, exec_model_bind hmodel, store_exec_bind fun _ _ => rfl, hruns, ← hstore]
  exact asksAll_execute S queries w₁

theorem exec_find_rejected {w : Session (σ × List Query)} (hmodel : registry.get kind = .ok M)
    {e : CriteriaError}
    (hqueries : (searchCompiler S config M w.store.1).queries c = .error e) :
    (find ⟨S.recorded, config, registry⟩ kind c).exec w = (.error (.criteria e), w) := by
  have hrun : (run ⟨S.recorded, config, registry⟩ M c).exec w = (.error (.criteria e), w) :=
    exec_run_rejected hqueries
  rw [find, exec_model_bind hmodel, exec_bind_error hrun]

/-- **A plan says what a search asks, in the namespace of the store.** All queries of a plan are
scoped to the namespace of the configuration. A search with the same configuration first asks these
queries, each once and in their order, in the namespace of the store, and so exactly as they are in
the plan if the two namespaces are the same. Whatever it asks after that continues one of them. If a
plan is rejected, either the criteria cannot be read or a search fails, with the plan's error. Then
the search has asked nothing and has left everything as it was. -/
theorem find_asks_plan (S : Store σ) (config : Config) (registry : Registry) (kind : String)
    (M : Model) (json : Value) (w : Session (σ × List Query))
    (hmodel : registry.get kind = .ok M) :
    let E : Engine (σ × List Query) := ⟨S.recorded, config, registry⟩
    let space := S.space w.store.1
    match (Plan.build ⟨config.space, M, config.maxQueryLimit⟩ json).outcome with
    | .accepted _ queries =>
      (∀ q ∈ queries, q.IsScoped config.space) ∧ ∃ c, Criteria.read json = .ok c ∧
        AsksAll w.store.2 (queries.map (Query.inSpace space)) ((E.find kind c).exec w).2.store.2 ∧
        (space = config.space → AsksAll w.store.2 queries ((E.find kind c).exec w).2.store.2)
    | .rejected e =>
      Criteria.read json = .error e ∨ ∃ c, Criteria.read json = .ok c ∧
        (E.find kind c).exec w = (.error (.criteria e), w) := by
  intro E space
  have hcompiler : ∀ c : Criteria, (searchCompiler S config M w.store.1).queries c =
      ((⟨config.space, M, config.maxQueryLimit⟩ : Compiler).queries c).map
        (List.map (Query.inSpace space)) :=
    fun c => Compiler.queries_inSpace ⟨config.space, M, config.maxQueryLimit⟩ space c
  split
  · rename_i groups queries haccepted
    obtain ⟨c, hread, hqueries⟩ := Plan.queries_of_accepted haccepted
    have hscoped : ∀ q ∈ queries, q.IsScoped config.space := by
      have hself := Compiler.queries_inSpace ⟨config.space, M, config.maxQueryLimit⟩ config.space c
      rw [hqueries] at hself
      intro q hq
      rw [Except.ok.inj hself] at hq
      obtain ⟨q₀, _, rfl⟩ := List.mem_map.1 hq
      exact q₀.isScoped_inSpace config.space
    have hasks : AsksAll w.store.2 (queries.map (Query.inSpace space))
        ((E.find kind c).exec w).2.store.2 :=
      asksAll_find hmodel (by rw [hcompiler, hqueries]; rfl)
    refine ⟨hscoped, c, hread, hasks, ?_⟩
    intro hspace
    have hsame : queries.map (Query.inSpace space) = queries.map id :=
      List.map_congr_left fun q hq => Query.inSpace_eq_self (hspace ▸ hscoped q hq)
    rwa [hsame, List.map_id] at hasks
  · rename_i e hrejected
    apply (Plan.error_of_rejected hrejected).imp id
    rintro ⟨c, hread, hqueries⟩
    exact ⟨c, hread, exec_find_rejected hmodel (by rw [hcompiler, hqueries]; rfl)⟩

def tenantConfig : Config := { Config.default with space := some "tenant" }

/-- The note of number one, or any note of this title. -/
def eitherNote : Value :=
  .object [("where", .object [("or", .array [
    .object [("id", .number (.ofNat 1))],
    .object [("title", .string "x")]])])]

/-- In the namespace of the configuration, both queries of a plan are asked as they are. -/
theorem find_asks_plan_tenant :
    ∃ groups queries c,
      (Plan.build ⟨tenantConfig.space, notes, tenantConfig.maxQueryLimit⟩ eitherNote).outcome =
        .accepted groups queries ∧
      queries.length = 2 ∧ Criteria.read eitherNote = .ok c ∧
      AsksAll [] queries ((find ⟨Memory.store.recorded, tenantConfig, ⟨[notes]⟩⟩ "Note" c).exec
        (.start (.empty (some "tenant") 10, []))).2.store.2 := by
  have hplan := find_asks_plan Memory.store tenantConfig ⟨[notes]⟩ "Note" notes eitherNote
    (.start (.empty (some "tenant") 10, [])) rfl
  have hlength : (Plan.build ⟨tenantConfig.space, notes, tenantConfig.maxQueryLimit⟩
      eitherNote).queries.length = 2 := by decide +kernel
  rw [Plan.queries] at hlength
  cases houtcome : (Plan.build ⟨tenantConfig.space, notes, tenantConfig.maxQueryLimit⟩
    eitherNote).outcome with
  | rejected e =>
      rw [houtcome] at hlength
      cases hlength
  | accepted groups queries =>
      rw [houtcome] at hlength hplan
      obtain ⟨_, c, hread, _, hasks⟩ := hplan
      exact ⟨groups, queries, c, rfl, hlength, hread, hasks rfl⟩

def users : Model := ⟨"User", "id", "id", []⟩

/-- A search on a store without a namespace asks for what the plan of its configuration does not
show, and nothing of what it shows. -/
theorem find_asks_other_space :
    Criteria.read (.object []) = .ok .everything ∧
      (Plan.build ⟨tenantConfig.space, users, tenantConfig.maxQueryLimit⟩ (.object [])).queries =
        [.ofKind (some "tenant") "User"] ∧
      ((find ⟨Memory.store.recorded, tenantConfig, ⟨[users]⟩⟩ "User" .everything).exec
        (.start (.empty none 10, []))).2.store.2 = [.ofKind none "User"] :=
  ⟨rfl, by decide +kernel, by decide +kernel⟩

end Engine

end Quarry
