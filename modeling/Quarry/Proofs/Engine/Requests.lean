import Quarry.Proofs.Engine.DropIsolation
import Quarry.Proofs.Engine.Tenancy
import Quarry.Proofs.Engine.Update

/-!
# Requests about one kind

Whoever uses an engine sends it requests, one after another and each about one kind. A request has
to do with the entities of its kind in the namespace of the store. It changes no others and shows
none of them, and its answer does not depend on them.
-/

namespace Quarry

open Quarry.Action

namespace Engine

/-! ## Requests -/

/-- What is asked of an engine about a kind. -/
inductive Request where
  | call (call : Call)
  /-- what in the kind records are in conflict with -/
  | check (records : List Record)
  /-- the kind need not be registered -/
  | drop

inductive Answer where
  | reply (reply : Reply)
  | conflicts (found : List Conflict)
  | dropped (done : DropSummary)

section Handling

variable {σ : Type}

/-- Handles a request about a kind. -/
def handle (E : Engine σ) (kind : String) : Request → Action σ Failure Answer
  | .call call => do return .reply (← E.serve kind call)
  | .check records => do
    let M ← E.model kind
    return .conflicts (← E.conflicts M records)
  | .drop => do return .dropped (← E.drop kind)

/-- A request that has been handled, with the sessions before and behind it. -/
structure Exchange (σ : Type) where
  kind : String
  request : Request
  before : Session σ
  response : Except Failure Answer
  after : Session σ

/-- Handles requests one after another, each with its kind. A failure does not keep the next request
from being handled. -/
def handleAll (E : Engine σ) : List (String × Request) → Session σ → List (Exchange σ) × Session σ
  | [], w => ([], w)
  | (kind, request) :: rest, w =>
    let (response, w') := (E.handle kind request).exec w
    let (exchanges, w'') := handleAll E rest w'
    (⟨kind, request, w, response, w'⟩ :: exchanges, w'')

end Handling

variable {config : Config} {registry : Registry} {M : Model} {kinds : List String} {kind : String}
  {m m₁ m₂ : Memory}

/-- A request is handled alike on memories that agree on its kind. -/
theorem alike_handle (hkind : kind ∈ kinds) (request : Request) :
    Alike (Memory.InStep kinds kind m₁ m₂) (handle ⟨Memory.store, config, registry⟩ kind request)
      (handle ⟨Memory.store, config, registry⟩ kind request) fun _ => True := by
  cases request with
  | call call => exact (alike_serve hkind call).bind fun _ _ => alike_pure trivial
  | check records =>
      apply alike_model_bind
      rintro M rfl
      apply (alike_of_beside fun _ _ hs => alike_conflicts hs.agrees hkind records).bind
      intro found _
      exact alike_pure trivial
  | drop => exact ((alike_dropAll hkind _).adapt _).bind fun _ _ => alike_pure trivial

/-- From memories that agree on its kind, a request ends with the same response. -/
theorem exec_handle_alike (hkind : kind ∈ kinds) (request : Request) {w : Session Memory}
    {t : Memory} (ht : w.store.Agrees kinds t) :
    let E : Engine Memory := ⟨Memory.store, config, registry⟩
    ∃ response w' t', (E.handle kind request).exec w = (response, w') ∧
      (E.handle kind request).exec { w with store := t } = (response, { w' with store := t' }) ∧
      Memory.InStep kinds kind w.store t w'.store t' := by
  obtain ⟨response, w', t', hexec, hother, hstep, _⟩ :=
    alike_handle hkind request w t (Memory.inStep_start ht kind)
  exact ⟨response, w', t', hexec, hother, hstep⟩

/-! ## What a request shows -/

/-- The entity is one of the kind as it was, or is stored under a key of the kind now. -/
def Belongs (m m' : Memory) (kind : String) (e : Entity) : Prop :=
  Shows m kind e ∨ ∃ x ∈ m'.ofKind kind, x.key = e.key

/-- The records show entities that belong to the kind. -/
def Records (registry : Registry) (kind : String) (m m' : Memory) (rs : List Record) : Prop :=
  ∃ M, registry.get kind = .ok M ∧ ∃ es : List Entity, rs = es.map M.toRecord ∧
    ∀ e ∈ es, Belongs m m' kind e

/-- If the failure tells of conflicts, they are with entities of the kind. -/
def Blames (m : Memory) (kind : String) (e : Failure) : Prop :=
  ∀ u, e = .unique u → ∀ x ∈ u.conflicts, Shows m kind x.existing

/-- Whatever a response shows is of the kind. -/
def RespondsWithin (registry : Registry) (kind : String) (m m' : Memory) :
    Except Failure Answer → Prop
  | .ok (.reply (.records rs)) => Records registry kind m m' rs
  | .ok (.reply (.number _)) => True
  | .ok (.conflicts found) => ∀ x ∈ found, Shows m kind x.existing
  | .ok (.dropped _) => True
  | .error e => Blames m kind e

theorem shows_of_mem {e : Entity} (h : e ∈ m.ofKind kind) : Shows m kind e :=
  ⟨e, h, .ofKind m.space kind, rfl⟩

/-! ### Records -/

/-- What is written under keys of the kind is found in the kind afterwards. -/
theorem belongs_of_insertAll {m' : Memory} (m₁ : Memory) {es : List Entity}
    (hspace : m'.space = m₁.space) (htable : m'.table = m₁.table.insertAll es)
    (hkeys : Memory.KeysIn m₁.space kind (es.map Entity.key)) :
    ∀ e ∈ es, Belongs m m' kind e := by
  intro e he
  obtain ⟨x, _, hkey, hget⟩ := Table.exists_get?_insertAll (t := m₁.table) ⟨e, he, rfl⟩
  rw [← htable] at hget
  obtain ⟨hx, _⟩ := Table.get?_eq_some_iff.1 hget
  obtain ⟨hspace', hkind⟩ := hkeys e.key (List.mem_map_of_mem he)
  refine .inr ⟨x, Memory.mem_ofKind.2 ⟨hx, ?_, ?_⟩, hkey⟩
  · rw [hkey, hspace', hspace]
  · rw [hkey, hkind]

theorem records_of_find {c : Criteria} {rs : List Record} {w w' : Session Memory}
    (h : (find ⟨Memory.store, config, registry⟩ kind c).exec w = (.ok rs, w')) :
    Records registry kind w.store w'.store rs := by
  obtain ⟨M, hM, rfl, hfinds⟩ := exists_model h
  obtain ⟨found, _, hrun, hreturns⟩ := exec_bind_eq_ok.1 hfinds
  cases hreturns
  have hshows := (keeps_run_shows w.store config registry M c w rfl).2
  rw [hrun] at hshows
  exact ⟨M, hM, found.entities, rfl, fun e he => .inl (hshows found rfl e he)⟩

theorem records_of_create {records rs : List Record} {w w' : Session Memory}
    (h : (create ⟨Memory.store, config, registry⟩ kind records).exec w = (.ok rs, w')) :
    Records registry kind w.store w'.store rs := by
  obtain ⟨M, hM, rfl, _⟩ := exists_model h
  obtain ⟨w₁, es, ks, _, hes, hsave, rfl⟩ := exec_create_ok hM h
  have hinserted := Memory.insertAll_of_save hsave
  have hspace := w₁.store.space_insertAll es
  rw [hinserted] at hspace
  have htable := Memory.table_of_insertAll hinserted
  refine ⟨M, hM, _, rfl, belongs_of_insertAll w₁.store hspace htable ?_⟩
  intro k hk
  obtain ⟨e, he, rfl⟩ := List.mem_map.1 hk
  obtain ⟨p, hp, rfl⟩ := List.mem_map.1 he
  exact Memory.keysIn_of_insertAll hinserted (keysIn_of_mapM hes) p.1 (List.of_mem_zip hp).1

theorem records_of_update {c : Criteria} {values : Record} {rs : List Record}
    {w w' : Session Memory}
    (h : (update ⟨Memory.store, config, registry⟩ kind c values).exec w = (.ok rs, w')) :
    Records registry kind w.store w'.store rs := by
  obtain ⟨M, hM, rfl, _⟩ := exists_model h
  obtain ⟨es, w₁, hmatched, rfl, ⟨rfl, rfl⟩ | ⟨found, w₂, hconflicts, _, hupdate⟩⟩ :=
    exec_update_ok hM h
  · refine ⟨M, hM, _, rfl, ?_⟩
    rintro _ ⟨⟩
  · have hkept := keeps_matched_ofKind w.store config registry M c w rfl
    rw [hmatched] at hkept
    have hbare := (keeps_conflicts w₁.store config registry M [uniqueValues M values] w₁ rfl).1
    rw [hconflicts] at hbare
    have hstored := Memory.update_eq_ok hupdate
    refine ⟨M, hM, _, rfl, belongs_of_insertAll w₂.store ?_ ?_ ?_⟩
    · rw [hstored]
    · rw [hstored]
    · rw [List.map_map, Memory.space_of_bare hbare, Memory.space_of_bare hkept.1]
      intro k hk
      obtain ⟨e, he, rfl⟩ := List.mem_map.1 hk
      exact (Memory.mem_ofKind.1 (hkept.2 es rfl e he)).2

/-- A deletion that succeeds has found nothing to delete, or has deleted what it found. -/
theorem exec_destroy_ok {σ : Type} {E : Engine σ} {c : Criteria} {rs : List Record}
    {w w' : Session σ} (hmodel : E.registry.get kind = .ok M)
    (h : (E.destroy kind c).exec w = (.ok rs, w')) :
    ∃ es w₁, (E.matched M c).exec w = (.ok es, w₁) ∧ rs = es.map M.toRecord ∧
      (es = [] ∧ w' = w₁ ∨
        E.store.delete (es.map Entity.key) w₁.store = (.ok (), w'.store)) := by
  rw [destroy, exec_model_bind hmodel] at h
  obtain ⟨es, w₁, hmatched, hwrites⟩ := exec_bind_eq_ok.1 h
  refine ⟨es, w₁, hmatched, ?_⟩
  split at hwrites
  · rename_i hempty
    cases hwrites
    obtain rfl := List.isEmpty_iff.1 hempty
    exact ⟨rfl, .inl ⟨rfl, rfl⟩⟩
  · obtain ⟨_, w₂, hdeleted, hreports⟩ := exec_bind_eq_ok.1 hwrites
    rw [exec_bind_ok (exec_report _ _ _ _)] at hreports
    cases hreports
    have hstored := store_of_exec_write hdeleted
    exact ⟨rfl, .inr hstored⟩

theorem records_of_destroy {c : Criteria} {rs : List Record} {w w' : Session Memory}
    (h : (destroy ⟨Memory.store, config, registry⟩ kind c).exec w = (.ok rs, w')) :
    Records registry kind w.store w'.store rs := by
  obtain ⟨M, hM, rfl, _⟩ := exists_model h
  obtain ⟨es, _, hmatched, hout, _⟩ := exec_destroy_ok hM h
  have hkept := (keeps_matched_ofKind w.store config registry M c w rfl).2
  rw [hmatched] at hkept
  exact ⟨M, hM, es, hout, fun e he => .inl (shows_of_mem (hkept es rfl e he))⟩

/-! ### Failures -/

theorem blames_of_wrap {e : Failure} (h : ∀ u, e ≠ .unique u) : Blames m kind e :=
  fun u hu => absurd hu (h u)

theorem throws_run (m : Memory) (c : Criteria) :
    Throws m.Is (run ⟨Memory.store, config, registry⟩ M c) (Blames m kind) := by
  refine Throws.bind (keeps_compiler m config registry M) ?_ ?_
  · exact Succeeds.throws fun w => ⟨_, w, rfl⟩
  · intro compiler _
    refine Throws.bind (keeps_ofExcept _ _)
      (throws_ofExcept fun e _ => blames_of_wrap (by rintro _ ⟨⟩)) ?_
    intro queries _
    have hexecute : Throws m.Is ((execute Memory.store queries).adapt Failure.execution)
        (Blames m kind) := throws_adapt _ fun e => blames_of_wrap (by rintro _ ⟨⟩)
    cases hlog : config.logQueries with
    | false => exact hexecute
    | true =>
        simp only [if_true]
        refine Throws.bind (keeps_forM fun q _ => keeps_report _ _ _) ?_ fun _ _ => hexecute
        apply Succeeds.throws
        intro w
        obtain ⟨w', hexec, _⟩ := exec_reports Failure queries _ w
        exact ⟨(), w', hexec⟩

theorem throws_model_bind {α : Type} {f : Model → Action Memory Failure α}
    (h : ∀ M, M.kind = kind → Throws m.Is (f M) (Blames m kind)) :
    Throws m.Is (model ⟨Memory.store, config, registry⟩ kind >>= f) (Blames m kind) :=
  Throws.bind (keeps_ofExcept _ _) (throws_ofExcept fun _ _ => blames_of_wrap (by rintro _ ⟨⟩))
    fun M hM => h M (Registry.kind_of_get hM)

theorem throws_matched (m : Memory) (c : Criteria) :
    Throws m.Is (matched ⟨Memory.store, config, registry⟩ M c) (Blames m kind) :=
  (throws_run m _).bind_succeeds fun _ => succeeds_pure _

theorem throws_conflicts (m : Memory) (records : List Record) :
    Throws m.Is (conflicts ⟨Memory.store, config, registry⟩ M records) (Blames m kind) := by
  refine Throws.bind (keeps_compiler m config registry M) ?_ ?_
  · exact Succeeds.throws fun w => ⟨_, w, rfl⟩
  · intro compiler _
    exact throws_adapt _ fun e => blames_of_wrap (by rintro _ ⟨⟩)

theorem throws_ofConflicts {found : List Conflict}
    (h : ∀ x ∈ found, Shows m kind x.existing) :
    Throws m.Is (ofExcept Failure.unique (UniqueError.ofConflicts found)) (Blames m kind) := by
  apply throws_ofExcept
  rintro e he _ ⟨⟩
  rw [UniqueError.ofConflicts] at he
  split at he
  · cases he
  · cases he
    exact h

theorem throws_write {α : Type} {J : Memory → Prop} {f : Memory → Except StoreError α × Memory} :
    Throws J (write f) (Blames m kind) :=
  (throws_adapt _ fun _ => blames_of_wrap (by rintro _ ⟨⟩)).orElseDo fun _ w => ⟨(), _, rfl⟩

theorem throws_create (m : Memory) (records : List Record) :
    Throws m.Is (create ⟨Memory.store, config, registry⟩ kind records) (Blames m kind) := by
  apply throws_model_bind
  rintro M rfl
  refine Throws.bind (keeps_enforceUniqueness m config registry M records) ?_ ?_
  · exact Throws.bind (keeps_conflicts_shows m config registry M records)
      (throws_conflicts m records) fun _ hfound => throws_ofConflicts hfound
  · intro _ _
    refine Throws.bind (keeps_inquire _) (Succeeds.throws fun w => ⟨_, w, rfl⟩) ?_
    intro space _
    refine Throws.bind (keeps_ofExcept _ _)
      (throws_ofExcept fun _ _ => blames_of_wrap (by rintro _ ⟨⟩)) ?_
    intro es _
    exact throws_write.bind_succeeds fun _ => succeeds_report _ _ _ _

theorem throws_update (m : Memory) (c : Criteria) (values : Record) :
    Throws m.Is (update ⟨Memory.store, config, registry⟩ kind c values) (Blames m kind) := by
  apply throws_model_bind
  rintro M rfl
  split
  · exact throws_throw (blames_of_wrap (by rintro _ ⟨⟩))
  · apply Throws.bind (keeps_matched m config registry M c) (throws_matched m c)
    intro es _
    split
    · exact (succeeds_pure _).throws
    · apply Throws.bind (keeps_conflicts_shows m config registry M _) (throws_conflicts m _)
      intro found hfound
      refine Throws.bind (keeps_ofExcept _ _)
        (throws_ofConflicts fun x hx => hfound x (List.mem_of_mem_filter hx)) ?_
      intro _ _
      exact throws_write.bind_succeeds fun _ => succeeds_report _ _ _ _

theorem throws_destroy (m : Memory) (c : Criteria) :
    Throws m.Is (destroy ⟨Memory.store, config, registry⟩ kind c) (Blames m kind) := by
  apply throws_model_bind
  intro M _
  apply Throws.bind (keeps_matched m config registry M c) (throws_matched m c)
  intro es _
  split
  · exact (succeeds_pure _).throws
  · exact throws_write.bind_succeeds fun _ => succeeds_report _ _ _ _

theorem throws_reading {α : Type} (m : Memory) (criteria : Model → Criteria)
    (result : Model → ResultSet → α) :
    Throws m.Is (reading ⟨Memory.store, config, registry⟩ kind criteria result)
      (Blames m kind) := by
  apply throws_model_bind
  intro M _
  exact (throws_run m (criteria M)).bind_succeeds fun _ => succeeds_pure _

theorem throws_handle (m : Memory) (request : Request) :
    Throws m.Is (handle ⟨Memory.store, config, registry⟩ kind request) (Blames m kind) := by
  cases request with
  | call call =>
      refine Throws.bind_succeeds ?_ fun _ => succeeds_pure _
      cases call with
      | find c => exact (throws_reading m _ _).bind_succeeds fun _ => succeeds_pure _
      | count c => exact (throws_reading m _ _).bind_succeeds fun _ => succeeds_pure _
      | create records => exact (throws_create m records).bind_succeeds fun _ => succeeds_pure _
      | update c values => exact (throws_update m c values).bind_succeeds fun _ => succeeds_pure _
      | destroy c => exact (throws_destroy m c).bind_succeeds fun _ => succeeds_pure _
  | check records =>
      apply throws_model_bind
      intro M _
      exact (throws_conflicts m records).bind_succeeds fun _ => succeeds_pure _
  | drop =>
      refine Throws.bind_succeeds ?_ fun _ => succeeds_pure _
      exact throws_adapt _ fun _ => blames_of_wrap (by rintro _ ⟨⟩)

/-! ### Responses -/

theorem respondsWithin_serve {call : Call} {reply : Reply} {w w' : Session Memory}
    (h : (serve ⟨Memory.store, config, registry⟩ kind call).exec w = (.ok reply, w')) :
    RespondsWithin registry kind w.store w'.store (.ok (.reply reply)) := by
  cases call with
  | find c =>
      obtain ⟨rs, _, hfind, hreturns⟩ := exec_bind_eq_ok.1 h
      cases hreturns
      exact records_of_find hfind
  | count c =>
      obtain ⟨n, _, _, hreturns⟩ := exec_bind_eq_ok.1 h
      cases hreturns
      trivial
  | create records =>
      obtain ⟨rs, _, hcreate, hreturns⟩ := exec_bind_eq_ok.1 h
      cases hreturns
      exact records_of_create hcreate
  | update c values =>
      obtain ⟨rs, _, hupdate, hreturns⟩ := exec_bind_eq_ok.1 h
      cases hreturns
      exact records_of_update hupdate
  | destroy c =>
      obtain ⟨rs, _, hdestroy, hreturns⟩ := exec_bind_eq_ok.1 h
      cases hreturns
      exact records_of_destroy hdestroy

theorem respondsWithin_handle {request : Request} {response : Except Failure Answer}
    {w w' : Session Memory}
    (h : (handle ⟨Memory.store, config, registry⟩ kind request).exec w = (response, w')) :
    RespondsWithin registry kind w.store w'.store response := by
  cases response with
  | error e => exact throws_handle w.store request w e w' rfl h
  | ok answer =>
      cases request with
      | call call =>
          obtain ⟨reply, _, hserve, hreturns⟩ := exec_bind_eq_ok.1 h
          cases hreturns
          exact respondsWithin_serve hserve
      | check records =>
          obtain ⟨M, _, rfl, hchecks⟩ := exists_model h
          obtain ⟨found, _, hconflicts, hreturns⟩ := exec_bind_eq_ok.1 hchecks
          cases hreturns
          have hshows := (keeps_conflicts_shows w.store config registry M records w rfl).2
          rw [hconflicts] at hshows
          exact hshows found rfl
      | drop =>
          obtain ⟨done, _, _, hreturns⟩ := exec_bind_eq_ok.1 h
          cases hreturns
          trivial

/-! ## Requests in a row -/

/-- The request has to do with its kind in the namespace of the memory, and with nothing else. -/
structure Exchange.IsIsolated (config : Config) (registry : Registry) (x : Exchange Memory) :
    Prop where
  /-- Other entities stay as they are. -/
  kept : x.before.store.ChangedIn x.kind x.after.store
  /-- No other entity is shown. -/
  shown : RespondsWithin registry x.kind x.before.store x.after.store x.response
  /-- Whatever else is stored, the response is the same. -/
  alone : ∀ t, x.before.store.Agrees [x.kind] t →
    ∃ t', (handle ⟨Memory.store, config, registry⟩ x.kind x.request).exec
        { x.before with store := t } = (x.response, { x.after with store := t' }) ∧
      x.after.store.Agrees [x.kind] t'

/-- Every request is isolated, in any session. -/
theorem isIsolated_of_exec {request : Request} {response : Except Failure Answer}
    {w w' : Session Memory}
    (h : (handle ⟨Memory.store, config, registry⟩ kind request).exec w = (response, w')) :
    Exchange.IsIsolated config registry ⟨kind, request, w, response, w'⟩ where
  kept := by
    obtain ⟨_, _, _, hexec, _, hstep⟩ := exec_handle_alike (List.mem_singleton_self kind) request
      (Memory.Agrees.refl [kind] w.store)
    rw [h] at hexec
    cases hexec
    exact hstep.left
  shown := respondsWithin_handle h
  alone := by
    intro t ht
    obtain ⟨_, _, t', hexec, hother, hstep⟩ :=
      exec_handle_alike (List.mem_singleton_self kind) request ht
    rw [h] at hexec
    cases hexec
    exact ⟨t', hother, hstep.agrees⟩

theorem handleAll_cons {E : Engine Memory} {request : Request} {response : Except Failure Answer}
    {w w' : Session Memory} (h : (E.handle kind request).exec w = (response, w'))
    (rest : List (String × Request)) :
    E.handleAll ((kind, request) :: rest) w =
      (⟨kind, request, w, response, w'⟩ :: (E.handleAll rest w').1, (E.handleAll rest w').2) := by
  rw [handleAll, h]

/-- Entities of kinds that no request is about stay through all requests. -/
theorem get?_handleAll (requests : List (String × Request)) (w : Session Memory) :
    let w' := (handleAll ⟨Memory.store, config, registry⟩ requests w).2
    w'.store.space = w.store.space ∧
      ∀ k, (k.space = w.store.space → k.kind ∉ requests.map Prod.fst) →
        w'.store.get? k = w.store.get? k := by
  induction requests generalizing w with
  | nil => exact ⟨rfl, fun _ _ => rfl⟩
  | cons x rest ih =>
      obtain ⟨kind, request⟩ := x
      cases hexec : (handle ⟨Memory.store, config, registry⟩ kind request).exec w with
      | mk response w₁ =>
          obtain ⟨hspace, _, hget⟩ := (isIsolated_of_exec hexec).kept
          obtain ⟨hspace', hget'⟩ := ih w₁
          rw [handleAll_cons hexec]
          refine ⟨hspace'.trans hspace, ?_⟩
          intro k hk
          have hkept := hget k fun h => hk h.1 (h.2 ▸ List.mem_cons_self)
          have hrest := hget' k fun h hmem =>
            hk (h.trans hspace) (List.mem_cons_of_mem kind hmem)
          exact hrest.trans hkept

/-- Requests are handled alike on memories that agree on their kinds. -/
theorem responses_handleAll (config : Config) (registry : Registry)
    (requests : List (String × Request)) (hkinds : ∀ x ∈ requests, x.1 ∈ kinds)
    (w : Session Memory) (t : Memory) (ht : w.store.Agrees kinds t) :
    let E : Engine Memory := ⟨Memory.store, config, registry⟩
    ∃ t', (E.handleAll requests { w with store := t }).2 =
        { (E.handleAll requests w).2 with store := t' } ∧
      (E.handleAll requests w).2.store.Agrees kinds t' ∧
      (E.handleAll requests { w with store := t }).1.map Exchange.response =
        (E.handleAll requests w).1.map Exchange.response := by
  induction requests generalizing w t with
  | nil => exact ⟨t, rfl, ht, rfl⟩
  | cons x rest ih =>
      obtain ⟨kind, request⟩ := x
      obtain ⟨response, w₁, t₁, hexec, hother, hstep⟩ :=
        exec_handle_alike (hkinds (kind, request) List.mem_cons_self) request ht
      obtain ⟨t', hend, hagrees, hresponses⟩ :=
        ih (fun y hy => hkinds y (List.mem_cons_of_mem _ hy)) w₁ t₁ hstep.agrees
      intro E
      rw [handleAll_cons hexec, handleAll_cons hother]
      refine ⟨t', hend, hagrees, ?_⟩
      rw [List.map_cons, List.map_cons, hresponses]

/-- Whatever holds of each request by itself holds of all exchanges. -/
theorem forall_mem_handleAll {E : Engine Memory} {P : Exchange Memory → Prop}
    (h : ∀ kind request (w : Session Memory) response w',
      (E.handle kind request).exec w = (response, w') → P ⟨kind, request, w, response, w'⟩)
    (requests : List (String × Request)) (w : Session Memory) :
    ∀ x ∈ (E.handleAll requests w).1, P x := by
  induction requests generalizing w with
  | nil => rintro _ ⟨⟩
  | cons y rest ih =>
      obtain ⟨kind, request⟩ := y
      cases hexec : (E.handle kind request).exec w with
      | mk response w₁ =>
          rw [handleAll_cons hexec]
          intro x hx
          rcases List.mem_cons.1 hx with rfl | hx
          · exact h kind request w response w₁ hexec
          · exact ih w₁ x hx

theorem isIsolated_of_mem (requests : List (String × Request)) (w : Session Memory) :
    ∀ x ∈ (handleAll ⟨Memory.store, config, registry⟩ requests w).1,
      x.IsIsolated config registry :=
  forall_mem_handleAll (fun _ _ _ _ _ hexec => isIsolated_of_exec hexec) requests w

/-- **Kinds and namespaces are isolated from each other.** Of any requests in a row, whatever they
ask for and whatever failures are due, each has to do with its kind in the namespace of the memory
alone. So entities of other kinds and namespaces stay through all of them, and the responses are the
same on every memory that agrees on the kinds asked for. -/
theorem requests_isolated (config : Config) (registry : Registry)
    (requests : List (String × Request)) (w : Session Memory) :
    let E : Engine Memory := ⟨Memory.store, config, registry⟩
    (∀ x ∈ (E.handleAll requests w).1, x.IsIsolated config registry) ∧
      (∀ k, (k.space = w.store.space → k.kind ∉ requests.map Prod.fst) →
        (E.handleAll requests w).2.store.get? k = w.store.get? k) ∧
      ∀ t, w.store.Agrees (requests.map Prod.fst) t →
        (E.handleAll requests { w with store := t }).1.map Exchange.response =
          (E.handleAll requests w).1.map Exchange.response := by
  intro E
  refine ⟨isIsolated_of_mem requests w, (get?_handleAll requests w).2, ?_⟩
  intro t ht
  obtain ⟨_, _, _, hresponses⟩ :=
    responses_handleAll config registry requests (fun x hx => List.mem_map_of_mem hx) w t ht
  exact hresponses

/-- An entity of another kind than notes, and a note of another namespace. -/
def strangers : List Entity :=
  [⟨⟨none, [⟨"Org", some (.number 1)⟩]⟩, .empty⟩,
    ⟨⟨some "other", [⟨"Note", some (.number 1)⟩]⟩, .empty⟩]

def crowded : Memory :=
  { Pull.threeNotes with table := Pull.threeNotes.table.insertAll strangers }

def findThenDrop : List (String × Request) := [("Note", .call (.find latestFirst)), ("Note", .drop)]

theorem agrees_crowded : Pull.threeNotes.Agrees (findThenDrop.map Prod.fst) crowded where
  space_eq := rfl
  cap_eq := rfl
  nextId_eq := rfl
  faults_eq := rfl
  get?_eq := by
    intro k hspace hkind
    refine Table.get?_insertAll_of_ne ?_
    rintro e he rfl
    have hapart : ∀ e ∈ strangers,
        ¬ (e.key.space = none ∧ e.key.kind ∈ findThenDrop.map Prod.fst) := by decide
    exact hapart e he ⟨hspace, hkind⟩

/-- Notes are found and dropped among strangers as they are alone, and the strangers stay. -/
theorem requests_isolated_crowded :
    ((handleAll ⟨Memory.store, .default, ⟨[notes]⟩⟩ findThenDrop
        (.start Pull.threeNotes)).1.map fun x => x.response.isOk) = [true, true] ∧
      (handleAll ⟨Memory.store, .default, ⟨[notes]⟩⟩ findThenDrop
          (.start crowded)).1.map Exchange.response =
        (handleAll ⟨Memory.store, .default, ⟨[notes]⟩⟩ findThenDrop
          (.start Pull.threeNotes)).1.map Exchange.response ∧
      ∀ e ∈ strangers, (handleAll ⟨Memory.store, .default, ⟨[notes]⟩⟩ findThenDrop
        (.start crowded)).2.store.get? e.key = some e := by
  obtain ⟨_, _, hsame⟩ :=
    requests_isolated .default ⟨[notes]⟩ findThenDrop (.start Pull.threeNotes)
  obtain ⟨_, hkept, _⟩ := requests_isolated .default ⟨[notes]⟩ findThenDrop (.start crowded)
  refine ⟨?_, hsame crowded agrees_crowded, ?_⟩
  · rw [Memory.store_eq_storeBy]
    decide +kernel
  intro e he
  have hapart : ∀ e ∈ strangers, e.key.space = none → e.key.kind ∉ findThenDrop.map Prod.fst := by
    decide
  have hstored : ∀ e ∈ strangers, crowded.get? e.key = some e := by decide
  rw [hkept e.key (hapart e he)]
  exact hstored e he

end Engine

end Quarry
