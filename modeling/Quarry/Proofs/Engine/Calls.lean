import Quarry.Proofs.Engine.Find
import Quarry.Proofs.Engine.Steps
import Quarry.Proofs.Store.Batches

/-!
# What a failed call leaves

A call writes once, after all that it reads and compares, and nothing can fail behind the write. The
write itself changes the memory altogether or not at all, since the keys of a call's entities have a
step. So a call that fails has changed no entity, whatever it fails of.
-/

namespace Quarry

open Quarry.Action

namespace Engine

/-! ## Calls -/

/-- What a caller asks of an engine. -/
inductive Call where
  | find (c : Criteria)
  | count (c : Criteria)
  | create (records : List Record)
  | update (c : Criteria) (values : Record)
  | destroy (c : Criteria)

/-- What a call returns. -/
inductive Reply where
  | records (rs : List Record)
  | number (n : Nat)

/-- Serves a call about a kind. -/
def serve {σ : Type} (E : Engine σ) (kind : String) : Call → Action σ Failure Reply
  | .find c => do return .records (← E.find kind c)
  | .count c => do return .number (← E.count kind c)
  | .create records => do return .records (← E.create kind records)
  | .update c values => do return .records (← E.update kind c values)
  | .destroy c => do return .records (← E.destroy kind c)

/-! ## Writes that fail -/

variable {config : Config} {registry : Registry} {M : Model} {kind : String} {m : Memory}

theorem keepsIfFails_write {α : Type} {f : Memory → Except StoreError α × Memory}
    (h : ∀ s err s', f s = (.error err, s') → ∃ faults, s' = { s with faults }) :
    KeepsIfFails m.Is (write f) := by
  intro w e w' hw hexec
  rw [write, exec_orElseDo, exec_adapt, exec_attempt] at hexec
  cases hf : f w.store with
  | mk r s =>
      rw [hf] at hexec
      cases r with
      | ok a => cases hexec
      | error err =>
          cases hexec
          obtain ⟨faults, rfl⟩ := h _ _ _ hf
          exact hw

theorem path_of_toEntity {space : Option String} {r : Record} {e : Entity}
    (h : M.toEntity space r = .ok e) : e.key.path ≠ [] := by
  obtain ⟨id, _, rfl⟩ := map_eq_ok.1 h
  exact List.cons_ne_nil _ _

/-- The entities of records are saved altogether or not at all. -/
theorem keepsIfFails_save {space : Option String} {records : List Record} {es : List Entity}
    (h : records.mapM (M.toEntity space) = .ok es) :
    KeepsIfFails m.Is (write (Memory.save es)) := by
  refine keepsIfFails_write ?_
  intro s err s' hsave
  rcases Memory.save_eq_error hsave with hfaults | ⟨before, e, after, _, rfl, hpath, _⟩
  · exact hfaults
  · obtain ⟨r, _, hr⟩ := exists_of_mem_right (mapM_eq_ok.1 h)
      (List.mem_append_right before List.mem_cons_self)
    exact absurd hpath (path_of_toEntity hr)

/-- What is reported of a write and returned. -/
theorem succeeds_report {σ ε α : Type} (severity : Severity) (event : Event) (fields : LineFields)
    (a : α) : Succeeds (do report severity event fields; return a : Action σ ε α) :=
  fun _ => ⟨_, _, rfl⟩

/-! ## Single calls -/

theorem keepsIfFails_reading {α : Type} (m : Memory) {config : Config} {registry : Registry}
    {kind : String} (criteria : Model → Criteria) (result : Model → ResultSet → α) :
    KeepsIfFails m.Is (reading ⟨Memory.store, config, registry⟩ kind criteria result) := by
  have hkeeps : Keeps m.Is (reading ⟨Memory.store, config, registry⟩ kind criteria result)
      fun _ => True :=
    keeps_reading fun M => (keeps_run m config registry M (criteria M)).mono fun _ _ => trivial
  exact hkeeps.ifFails

theorem keepsIfFails_create (m : Memory) (config : Config) (registry : Registry) (kind : String)
    (records : List Record) :
    KeepsIfFails m.Is (create ⟨Memory.store, config, registry⟩ kind records) := by
  refine (keeps_ofExcept _ _).bindIfFails ?_
  intro M _
  refine (keeps_enforceUniqueness m config registry M records).bindIfFails ?_
  intro _ _
  refine (keeps_inquire _).bindIfFails ?_
  intro space _
  refine (keeps_ofExcept _ _).bindIfFails ?_
  intro es hes
  exact (keepsIfFails_save hes).bind fun _ => succeeds_report _ _ _ _

theorem keepsIfFails_update (m : Memory) (config : Config) (registry : Registry) (kind : String)
    (c : Criteria) (values : Record) :
    KeepsIfFails m.Is (update ⟨Memory.store, config, registry⟩ kind c values) := by
  refine (keeps_ofExcept _ _).bindIfFails ?_
  intro M _
  split
  · exact (keeps_throw (Q := fun _ => True) _).ifFails
  · refine (keeps_matched m config registry M c).bindIfFails ?_
    intro es _
    split
    · exact (keeps_pure (Q := fun _ => True) trivial).ifFails
    · refine (keeps_conflicts m config registry M _).bindIfFails ?_
      intro conflicts _
      refine (keeps_ofExcept _ _).bindIfFails ?_
      intro _ _
      refine (keepsIfFails_write ?_).bind fun _ => succeeds_report _ _ _ _
      exact fun s err s' h => Memory.update_eq_error h

theorem keepsIfFails_destroy (m : Memory) (config : Config) (registry : Registry) (kind : String)
    (c : Criteria) :
    KeepsIfFails m.Is (destroy ⟨Memory.store, config, registry⟩ kind c) := by
  refine (keeps_ofExcept _ _).bindIfFails ?_
  intro M _
  refine (keeps_matched m config registry M c).bindIfFails ?_
  intro es _
  split
  · exact (keeps_pure (Q := fun _ => True) trivial).ifFails
  · refine (keepsIfFails_write ?_).bind fun _ => succeeds_report _ _ _ _
    exact fun s err s' h => Memory.delete_eq_error h

/-! ## All calls -/

theorem keepsIfFails_serve (m : Memory) (config : Config) (registry : Registry) (kind : String)
    (call : Call) : KeepsIfFails m.Is (serve ⟨Memory.store, config, registry⟩ kind call) := by
  cases call with
  | find c => exact (keepsIfFails_reading m _ _).bind fun _ => succeeds_pure _
  | count c => exact (keepsIfFails_reading m _ _).bind fun _ => succeeds_pure _
  | create records =>
      exact (keepsIfFails_create m config registry kind records).bind fun _ => succeeds_pure _
  | update c values =>
      exact (keepsIfFails_update m config registry kind c values).bind fun _ => succeeds_pure _
  | destroy c =>
      exact (keepsIfFails_destroy m config registry kind c).bind fun _ => succeeds_pure _

/-- **A call that fails changes nothing.** Whatever failures are due, and whether the kind is
registered or not, a call that fails leaves the entities as they were, and gives no number away. -/
theorem table_of_failed_call (config : Config) (registry : Registry) (kind : String) (call : Call)
    (w w' : Session Memory) (err : Failure)
    (h : (serve ⟨Memory.store, config, registry⟩ kind call).exec w = (.error err, w')) :
    w'.store.table = w.store.table ∧ w'.store.nextId = w.store.nextId := by
  have hstore := keepsIfFails_serve w.store config registry kind call w err w' rfl h
  exact ⟨Memory.table_of_bare hstore, Memory.nextId_of_bare hstore⟩

/-! ## Notes that stay -/

theorem exists_error {ε α β : Type} (p : Except ε α × β) (h : p.1.isOk = false) :
    ∃ err, p = (.error err, p.2) := by
  rcases p with ⟨err | a, b⟩
  · exact ⟨err, rfl⟩
  · cases h

/-- Of two records, the second has no proper id, so that neither is stored. A deletion that is to
fail deletes none of the notes that it has found. -/
theorem table_of_failed_call_threeNotes :
    let E : Engine Memory := ⟨Memory.store, .default, ⟨[notes]⟩⟩
    let records : List Record := [.empty, .ofColumns [("id", .bool true)]]
    let faulty : Memory := { Pull.threeNotes with faults := ⟨0, 0, 1⟩ }
    (∃ err w', (E.serve "Note" (.create records)).exec (.start Pull.threeNotes) =
        (.error err, w') ∧ w'.store.table = Pull.threeNotes.table) ∧
      ∃ err w', (E.serve "Note" (.destroy .everything)).exec (.start faulty) =
        (.error err, w') ∧ w'.store.table = Pull.threeNotes.table := by
  intro E records faulty
  have hdestroy : ((E.serve "Note" (.destroy .everything)).exec (.start faulty)).1.isOk = false := by
    simp only [E, Memory.store_eq_storeBy]
    decide +kernel
  obtain ⟨e₁, h₁⟩ := exists_error
    ((E.serve "Note" (.create records)).exec (.start Pull.threeNotes)) (by decide +kernel)
  obtain ⟨e₂, h₂⟩ := exists_error _ hdestroy
  exact ⟨⟨e₁, _, h₁, (table_of_failed_call .default ⟨[notes]⟩ "Note" _ _ _ e₁ h₁).1⟩,
    e₂, _, h₂, (table_of_failed_call .default ⟨[notes]⟩ "Note" _ _ _ e₂ h₂).1⟩

end Engine

end Quarry
