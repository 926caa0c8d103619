import Quarry.Proofs.Engine.Calls
import Quarry.Proofs.Engine.Isolation

/-!
# One kind at a time

A call about a kind has to do with the entities of that kind in the namespace of the store, and with
no others.
-/

namespace Quarry

open Quarry.Action

/-! ## Reading -/

section Lifting

variable {kinds : List String} {kind : String} {m m₁ m₂ : Memory} {ε α : Type}
  {x y : Action Memory ε α} {P Q : α → Prop}

/-- Memories beside others that are in step are in step as well. -/
theorem Memory.InStep.of_beside {s₁ s₂ t₁ t₂ : Memory} (h : InStep kinds kind m₁ m₂ s₁ s₂)
    (ht : Beside s₁ s₂ t₁ t₂) : InStep kinds kind m₁ m₂ t₁ t₂ := by
  obtain ⟨h₁, h₂, hfaults⟩ := ht
  refine h.of_tables ⟨space_of_bare h₁, h₁.cap_eq, fun k _ => h₁.get?_eq k⟩
    ⟨space_of_bare h₂, h₂.cap_eq, fun k _ => h₂.get?_eq k⟩ ?_ hfaults ?_
  · rw [nextId_of_bare h₁, nextId_of_bare h₂, h.agrees.nextId_eq]
  · intro k hk
    rw [h₁.get?_eq, h₂.get?_eq, hk]

/-- Actions that only read keep memories in step. -/
theorem alike_of_beside (h : ∀ s₁ s₂, Memory.InStep kinds kind m₁ m₂ s₁ s₂ →
    Alike (Memory.Beside s₁ s₂) x y Q) : Alike (Memory.InStep kinds kind m₁ m₂) x y Q :=
  Alike.refine_store Memory.Beside (fun _ _ hs => ⟨rfl, rfl, hs.agrees.faults_eq⟩)
    (fun _ _ _ _ hs ht => hs.of_beside ht) h

/-- What holds of a result on the entities of one kind holds of it on all. -/
theorem keeps_of_only (h : Alike (Memory.Beside m (m.only kind)) x x P)
    (hx : Keeps (m.only kind).Is x Q) : Keeps m.Is x Q := by
  refine h.keeps hx ?_ fun _ _ hs => hs.1
  intro s hs
  exact ⟨{ m.only kind with faults := s.faults }, ⟨hs, rfl, rfl⟩, rfl⟩

end Lifting

namespace Registry

/-- A model is registered under its own kind. -/
theorem kind_of_get {registry : Registry} {kind : String} {M : Model}
    (h : registry.get kind = .ok M) : M.kind = kind := by
  unfold get find? at h
  cases hfind : registry.models.find? fun m => m.kind == kind with
  | none =>
      rw [hfind] at h
      cases h
  | some M' =>
      rw [hfind] at h
      cases h
      exact beq_iff_eq.1 (List.find?_some hfind :)

end Registry

namespace Engine

/-- An operation that has succeeded on a kind went on with its model. -/
theorem exists_model {σ α : Type} {E : Engine σ} {kind : String} {f : Model → Action σ Failure α}
    {a : α} {w w' : Session σ} (h : (E.model kind >>= f).exec w = (.ok a, w')) :
    ∃ M, E.registry.get kind = .ok M ∧ M.kind = kind ∧ (f M).exec w = (.ok a, w') := by
  obtain ⟨M, w₁, hmodel, hrest⟩ := exec_bind_eq_ok.1 h
  obtain ⟨hM, rfl⟩ := exec_ofExcept_eq_ok hmodel
  exact ⟨M, hM, Registry.kind_of_get hM, hrest⟩

variable {config : Config} {registry : Registry} {M : Model} {kinds : List String} {kind : String}
  {m m₁ m₂ : Memory}

theorem alike_compiler (hagrees : m₁.Agrees kinds m₂) :
    Alike (Memory.Beside m₁ m₂) (compiler ⟨Memory.store, config, registry⟩ M)
      (compiler ⟨Memory.store, config, registry⟩ M) fun c => c = compilerFor config M m₁ := by
  apply alike_inquire_bind
  intro s t hs
  have hsame : (⟨t.space, M, config.maxQueryLimit⟩ : Compiler) =
      ⟨s.space, M, config.maxQueryLimit⟩ := by rw [(hagrees.of_beside hs).space_eq]
  show Alike _ _ (pure (⟨t.space, M, config.maxQueryLimit⟩ : Compiler)) _
  rw [hsame]
  apply alike_pure
  show (⟨s.space, M, config.maxQueryLimit⟩ : Compiler) = _
  rw [Memory.space_of_bare hs.1]
  rfl

/-- Criteria find the same on memories that agree on the kind of their model. -/
theorem alike_run (hagrees : m₁.Agrees kinds m₂) (hkind : M.kind ∈ kinds) (c : Criteria) :
    Alike (Memory.Beside m₁ m₂) (run ⟨Memory.store, config, registry⟩ M c)
      (run ⟨Memory.store, config, registry⟩ M c) fun _ => True := by
  apply (alike_compiler hagrees).bind
  rintro _ rfl
  apply (alike_ofExcept _ _).bind
  intro queries hqueries
  have hexecute := (alike_execute hagrees
    (Compiler.allWithin_of_queries hqueries hkind)).adapt Failure.execution
  cases hlog : config.logQueries with
  | false => exact hexecute
  | true =>
      simp only [if_true]
      exact (alike_forM fun q _ => alike_report _ _ _).bind fun _ _ => hexecute

theorem alike_matched (hagrees : m₁.Agrees kinds m₂) (hkind : M.kind ∈ kinds) (c : Criteria) :
    Alike (Memory.Beside m₁ m₂) (matched ⟨Memory.store, config, registry⟩ M c)
      (matched ⟨Memory.store, config, registry⟩ M c) fun _ => True :=
  (alike_run hagrees hkind _).bind fun _ _ => alike_pure trivial

theorem alike_conflicts (hagrees : m₁.Agrees kinds m₂) (hkind : M.kind ∈ kinds)
    (records : List Record) :
    Alike (Memory.Beside m₁ m₂) (conflicts ⟨Memory.store, config, registry⟩ M records)
      (conflicts ⟨Memory.store, config, registry⟩ M records) fun _ => True := by
  apply (alike_compiler hagrees).bind
  rintro _ rfl
  exact (alike_findConflicts hagrees rfl hkind records).adapt _

/-! ## What is found -/

/-- The entity is one of the kind, as a query shows it. -/
def Shows (m : Memory) (kind : String) (e : Entity) : Prop :=
  ∃ x ∈ m.ofKind kind, ∃ q : Query, e = q.shape x

/-- Whatever criteria find is of the kind of their model. -/
theorem keeps_run_shows (m : Memory) (config : Config) (registry : Registry) (M : Model)
    (c : Criteria) :
    Keeps m.Is (run ⟨Memory.store, config, registry⟩ M c) fun r =>
      ∀ e ∈ r.entities, Shows m M.kind e := by
  apply keeps_of_only (alike_run (m.agrees_only M.kind) List.mem_cons_self c)
  apply (keeps_run (m.only M.kind) config registry M c).mono
  rintro r ⟨queries, _, hfound⟩ e he
  obtain ⟨q, _, x, hx, hshape⟩ := hfound.fromStored e he
  exact ⟨x, hx, q, hshape⟩

/-- What is to be written over or deleted is of the kind. -/
theorem keeps_matched_ofKind (m : Memory) (config : Config) (registry : Registry) (M : Model)
    (c : Criteria) :
    Keeps m.Is (matched ⟨Memory.store, config, registry⟩ M c) fun es =>
      ∀ e ∈ es, e ∈ m.ofKind M.kind :=
  keeps_of_only (alike_matched (m.agrees_only M.kind) List.mem_cons_self c)
    (keeps_matched (m.only M.kind) config registry M c)

/-- Conflicts are with entities of the kind. -/
theorem keeps_conflicts_shows (m : Memory) (config : Config) (registry : Registry) (M : Model)
    (records : List Record) :
    Keeps m.Is (conflicts ⟨Memory.store, config, registry⟩ M records) fun found =>
      ∀ x ∈ found, Shows m M.kind x.existing := by
  apply keeps_of_only (alike_conflicts (m.agrees_only M.kind) List.mem_cons_self records)
  apply (keeps_conflicts (m.only M.kind) config registry M records).mono
  intro found hfound x hx
  exact Probe.stored_of_findsAll hfound hx

/-! ## Single calls -/

section Calls

variable {R : Memory → Memory → Prop}

theorem alike_write {α : Type} {f : Memory → Except StoreError α × Memory}
    (h : ∀ s t, R s t → (f t).1 = (f s).1 ∧ R (f s).2 (f t).2) :
    Alike R (write f) (write f) fun _ => True := by
  refine Alike.orElseDo (Alike.adapt (alike_attempt ?_) _) fun _ => alike_count _ _
  intro s t hs
  obtain ⟨hsame, hrelated⟩ := h s t hs
  exact ⟨hsame, hrelated, fun _ _ => trivial⟩

/-- What goes alike with the model of a kind goes alike on the kind. -/
theorem alike_model_bind {α : Type} {f : Model → Action Memory Failure α} {P : α → Prop}
    (h : ∀ M, M.kind = kind → Alike R (f M) (f M) P) :
    Alike R (model ⟨Memory.store, config, registry⟩ kind >>= f)
      (model ⟨Memory.store, config, registry⟩ kind >>= f) P :=
  (alike_ofExcept _ _).bind fun M hM => h M (Registry.kind_of_get hM)

theorem alike_reading {α : Type} (hkind : kind ∈ kinds) (criteria : Model → Criteria)
    (result : Model → ResultSet → α) :
    Alike (Memory.InStep kinds kind m₁ m₂)
      (reading ⟨Memory.store, config, registry⟩ kind criteria result)
      (reading ⟨Memory.store, config, registry⟩ kind criteria result) fun _ => True := by
  apply alike_model_bind
  rintro M rfl
  apply (alike_of_beside fun _ _ hs => alike_run hs.agrees hkind (criteria M)).bind
  intro found _
  exact alike_pure trivial

theorem keysIn_of_mapM {space : Option String} {records : List Record} {es : List Entity}
    (h : records.mapM (M.toEntity space) = .ok es) :
    Memory.KeysIn space M.kind (es.map Entity.key) := by
  intro k hk
  obtain ⟨e, he, rfl⟩ := List.mem_map.1 hk
  obtain ⟨r, _, hr⟩ := exists_of_mem_right (mapM_eq_ok.1 h) he
  obtain ⟨id, _, rfl⟩ := map_eq_ok.1 hr
  exact ⟨rfl, rfl⟩

theorem alike_create (hkind : kind ∈ kinds) (records : List Record) :
    Alike (Memory.InStep kinds kind m₁ m₂) (create ⟨Memory.store, config, registry⟩ kind records)
      (create ⟨Memory.store, config, registry⟩ kind records) fun _ => True := by
  apply alike_model_bind
  rintro M rfl
  have hconflicts : Alike (Memory.InStep kinds M.kind m₁ m₂)
      (conflicts ⟨Memory.store, config, registry⟩ M records)
      (conflicts ⟨Memory.store, config, registry⟩ M records) fun _ => True :=
    alike_of_beside fun _ _ hs => alike_conflicts hs.agrees hkind records
  apply (hconflicts.bind fun _ _ => (alike_ofExcept _ _).mono fun _ _ => trivial).bind
  intro _ _
  apply alike_inquire_bind
  intro s t hs
  have hspace : Memory.store.space t = Memory.store.space s := hs.agrees.space_eq
  rw [hspace]
  apply (alike_ofExcept _ _).bind
  intro es hes
  have hkeys : Memory.KeysIn m₁.space M.kind (es.map Entity.key) := by
    rw [← hs.left.space_eq]
    exact keysIn_of_mapM hes
  apply (alike_write fun s' t' hs' => hs'.save (by rwa [hs'.left.space_eq])).bind
  intro ks _
  exact (alike_report _ _ _).bind fun _ _ => alike_pure trivial

/-- What is to be written is found alike, under keys of the kind. -/
theorem alike_matched_keys (hkind : M.kind ∈ kinds) (c : Criteria) :
    Alike (Memory.InStep kinds M.kind m₁ m₂) (matched ⟨Memory.store, config, registry⟩ M c)
      (matched ⟨Memory.store, config, registry⟩ M c) fun es =>
        Memory.KeysIn m₁.space M.kind (es.map Entity.key) := by
  apply alike_of_beside
  intro s₁ s₂ hs
  refine ((alike_matched hs.agrees hkind c).and_keeps
    (keeps_matched_ofKind s₁ config registry M c) fun _ _ ht => ht.1).mono ?_
  rintro es ⟨_, hes⟩ k hk
  obtain ⟨e, he, rfl⟩ := List.mem_map.1 hk
  rw [← hs.left.space_eq]
  exact (Memory.mem_ofKind.1 (hes e he)).2

theorem alike_update (hkind : kind ∈ kinds) (c : Criteria) (values : Record) :
    Alike (Memory.InStep kinds kind m₁ m₂)
      (update ⟨Memory.store, config, registry⟩ kind c values)
      (update ⟨Memory.store, config, registry⟩ kind c values) fun _ => True := by
  apply alike_model_bind
  rintro M rfl
  split
  · exact alike_throw _
  · apply (alike_matched_keys hkind c).bind
    intro es hes
    split
    · exact alike_pure trivial
    · apply (alike_of_beside fun _ _ hs => alike_conflicts hs.agrees hkind _).bind
      intro found _
      apply (alike_ofExcept _ _).bind
      intro _ _
      have hkeys : Memory.KeysIn m₁.space M.kind ((es.map (overlay values)).map Entity.key) := by
        rwa [List.map_map]
      apply (alike_write fun s t hs => hs.update hkind (by rwa [hs.left.space_eq])).bind
      intro _ _
      exact (alike_report _ _ _).bind fun _ _ => alike_pure trivial

theorem alike_destroy (hkind : kind ∈ kinds) (c : Criteria) :
    Alike (Memory.InStep kinds kind m₁ m₂) (destroy ⟨Memory.store, config, registry⟩ kind c)
      (destroy ⟨Memory.store, config, registry⟩ kind c) fun _ => True := by
  apply alike_model_bind
  rintro M rfl
  apply (alike_matched_keys hkind c).bind
  intro es hes
  split
  · exact alike_pure trivial
  · apply (alike_write fun s t hs => hs.delete (by rwa [hs.left.space_eq])).bind
    intro _ _
    exact (alike_report _ _ _).bind fun _ _ => alike_pure trivial

theorem alike_serve (hkind : kind ∈ kinds) (call : Call) :
    Alike (Memory.InStep kinds kind m₁ m₂) (serve ⟨Memory.store, config, registry⟩ kind call)
      (serve ⟨Memory.store, config, registry⟩ kind call) fun _ => True := by
  cases call with
  | find c => exact (alike_reading hkind _ _).bind fun _ _ => alike_pure trivial
  | count c => exact (alike_reading hkind _ _).bind fun _ _ => alike_pure trivial
  | create records => exact (alike_create hkind records).bind fun _ _ => alike_pure trivial
  | update c values => exact (alike_update hkind c values).bind fun _ _ => alike_pure trivial
  | destroy c => exact (alike_destroy hkind c).bind fun _ _ => alike_pure trivial

end Calls

end Engine

end Quarry
