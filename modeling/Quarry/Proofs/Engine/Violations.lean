import Quarry.Proofs.Engine.Gate
import Quarry.Proofs.Engine.Uses

/-!
# What counts as a violation

A check counts once if it has found conflicts. A creation is then rejected, so that it is counted
exactly if it is rejected. An update that has met nobody but the entities that it writes over is
counted as well, and succeeds.
-/

namespace Quarry

open Quarry.Action

variable {σ α β φ : Type}

/-! ## Rejections -/

/-- The outcome is a rejection because of conflicts. -/
def rejected : Except Failure α → Bool
  | .error (.unique _) => true
  | _ => false

/-- How often an outcome counts as a rejection. -/
def rejections (r : Except Failure α) : UInt64 := .ofNat (rejected r).toNat

/-- Whether a failure is a rejection does not depend on what it stands for. -/
theorem rejected_error (e : Failure) :
    rejected (.error e : Except Failure α) = rejected (.error e : Except Failure β) := by
  cases e <;> rfl

theorem rejected_map (f : α → β) (r : Except Failure α) : rejected (r.map f) = rejected r := by
  cases r with
  | ok a => rfl
  | error e => exact rejected_error e

/-- The failure is another one than conflicts. -/
def Failure.IsOther (e : Failure) : Prop := ∀ u, e ≠ .unique u

namespace Action

/-- The action is never rejected because of conflicts. -/
def Spares (x : Action σ Failure α) : Prop := Throws (fun _ => True) x Failure.IsOther

theorem Spares.bind {x : Action σ Failure α} {f : α → Action σ Failure β} (hx : Spares x)
    (hf : ∀ a, Spares (f a)) : Spares (x >>= f) :=
  Throws.bind (keeps_true x) hx fun a _ => hf a

theorem Spares.rejected_eq {x : Action σ Failure α} (hx : Spares x) {w w' : Session σ}
    {r : Except Failure α} (hexec : x.exec w = (r, w')) : rejected r = false := by
  cases r with
  | ok a => rfl
  | error e =>
      have hother := hx w e w' trivial hexec
      cases e with
      | unique u => exact absurd rfl (hother u)
      | _ => rfl

/-- What is never rejected and leaves the counter alone counts its rejections. -/
theorem counts_of_spares {x : Action σ Failure α} (hleaves : Leaves .uniqueViolations x)
    (hspares : Spares x) : Counts .uniqueViolations x rejections := by
  intro w
  cases hexec : x.exec w with
  | mk r w' =>
      rw [hleaves.of_exec hexec, rejections, hspares.rejected_eq hexec]
      exact (UInt64.add_zero _).symm

theorem Counts.bind_rejections {x : Action σ Failure α} {f : α → Action σ Failure β}
    (hx : Counts .uniqueViolations x rejections)
    (hf : ∀ a, Counts .uniqueViolations (f a) rejections) :
    Counts .uniqueViolations (x >>= f) rejections :=
  hx.bind hf (fun e => congrArg (fun b : Bool => UInt64.ofNat b.toNat) (rejected_error e))
    fun _ _ => UInt64.zero_add _

end Action

namespace Engine

variable {E : Engine σ} {M : Model} {criteria : Criteria} {records : List Record} {kind : String}

/-! ## What is never rejected -/

theorem spares_model (E : Engine σ) (kind : String) : Spares (E.model kind) :=
  throws_ofExcept fun _ _ _ => by rintro ⟨⟩

theorem spares_compiler (E : Engine σ) (M : Model) : Spares (E.compiler M) :=
  Succeeds.throws fun w => ⟨_, w, rfl⟩

theorem spares_run (E : Engine σ) (M : Model) (criteria : Criteria) :
    Spares (E.run M criteria) := by
  refine (spares_compiler E M).bind ?_
  intro compiler
  refine Spares.bind (throws_ofExcept fun _ _ _ => by rintro ⟨⟩) ?_
  intro queries
  have hexecute : Spares ((execute E.store queries).adapt Failure.execution) :=
    throws_adapt _ fun _ _ => by rintro ⟨⟩
  cases hlog : E.config.logQueries with
  | false => exact hexecute
  | true =>
      simp only [if_true]
      refine Spares.bind (Succeeds.throws ?_) fun _ => hexecute
      intro w
      obtain ⟨w', hexec, _⟩ := exec_reports Failure queries _ w
      exact ⟨(), w', hexec⟩

theorem spares_reading {α : Type} (E : Engine σ) (kind : String) (criteria : Model → Criteria)
    (result : Model → ResultSet → α) : Spares (E.reading kind criteria result) :=
  (spares_model E kind).bind fun M =>
    (spares_run E M (criteria M)).bind fun _ => (succeeds_pure _).throws

theorem spares_matched (E : Engine σ) (M : Model) (criteria : Criteria) :
    Spares (E.matched M criteria) :=
  (spares_run E M _).bind fun _ => (succeeds_pure _).throws

theorem spares_conflicts (E : Engine σ) (M : Model) (records : List Record) :
    Spares (E.conflicts M records) :=
  (spares_compiler E M).bind fun _ => throws_adapt _ fun _ _ => by rintro ⟨⟩

theorem spares_write (f : σ → Except StoreError α × σ) : Spares (write f) :=
  (throws_adapt _ fun _ _ => by rintro ⟨⟩).orElseDo fun _ w => ⟨(), _, rfl⟩

theorem spares_destroy (E : Engine σ) (kind : String) (criteria : Criteria) :
    Spares (E.destroy kind criteria) := by
  refine (spares_model E kind).bind ?_
  intro M
  refine (spares_matched E M criteria).bind ?_
  intro es
  split
  · exact (succeeds_pure _).throws
  · exact (spares_write _).bind fun _ => (succeeds_report _ _ _ _).throws

end Engine

/-! ## Checks for conflicts -/

/-- How often a check that ends like this counts as one with conflicts. -/
def violations {ε : Type} : Except ε (List Conflict) → UInt64
  | .ok (_ :: _) => 1
  | _ => 0

/-- A check counts once if it has found conflicts. -/
theorem counts_findConflicts (S : Store σ) (C : Compiler) (records : List Record) :
    Counts .uniqueViolations (findConflicts S C records) violations := by
  refine Leaves.bindCounts (moves_inquire _) ?_ fun _ => rfl
  intro patience
  have hwork : (Probe.work S C records).Uses S True (· ≠ .uniqueViolations) :=
    Probe.uses_work (by rintro _ hc rfl; cases hc) (by decide) C records
  have hlook := (TaskGroup.uses_complete hwork (Probe.endless C.model)
    (Probe.turns patience C.model records) (.start (C.model.unique.map .fresh))).leaves
    (c := .uniqueViolations) fun hne => hne rfl
  refine hlook.bindCounts ?_ fun _ => rfl
  intro probes
  cases hfound : probes.results.flatten with
  | nil => exact fun w => (UInt64.add_zero _).symm
  | cons x found =>
      intro w
      exact counts_count (ε := CheckError) .uniqueViolations 1 w

namespace Engine

variable {E : Engine σ} {M : Model} {criteria : Criteria} {records : List Record} {kind : String}

theorem counts_conflicts (E : Engine σ) (M : Model) (records : List Record) :
    Counts .uniqueViolations (E.conflicts M records) violations := by
  have hcompiler : Leaves .uniqueViolations (E.compiler M) :=
    (moves_inquire _).bind fun _ => moves_pure _
  refine hcompiler.bindCounts ?_ fun _ => rfl
  intro compiler
  refine (counts_findConflicts E.store compiler records).adapt _ ?_
  rintro (e | _ | _) <;> rfl

/-! ## Creations -/

theorem counts_enforceUniqueness (E : Engine σ) (M : Model) (records : List Record) :
    Counts .uniqueViolations (E.enforceUniqueness M records) rejections := by
  intro w
  cases hexec : (E.conflicts M records).exec w with
  | mk result w' =>
      have hcounted := (counts_conflicts E M records).of_exec hexec
      cases result with
      | error e =>
          have hspared := (spares_conflicts E M records).rejected_eq hexec
          rw [enforceUniqueness, exec_bind_error hexec, hcounted, rejections,
            rejected_error (β := List Conflict), hspared]
          rfl
      | ok found =>
          rw [enforceUniqueness, exec_bind_ok hexec, exec_ofExcept, hcounted]
          cases found <;> rfl

/-- A creation counts exactly if it is rejected. -/
theorem counts_create (E : Engine σ) (kind : String) (records : List Record) :
    Counts .uniqueViolations (E.create kind records) rejections := by
  refine (counts_of_spares (moves_ofExcept _ _) (spares_model E kind)).bind_rejections ?_
  intro M
  refine (counts_enforceUniqueness E M records).bind_rejections ?_
  intro _
  refine counts_of_spares ?_ ?_
  · refine (moves_inquire _).bind ?_
    intro space
    refine (moves_ofExcept _ _).bind ?_
    intro es
    have hwrite : Uses E.store True (·.ofFanOut = true) (write (E.store.save es)) :=
      uses_write (fun _ hc => hc) (.save trivial es)
    refine (hwrite.leaves (by decide)).bind ?_
    intro ks
    exact Moves.bind (leaves_of_metrics fun _ => rfl) fun _ => moves_pure _
  · refine Spares.bind (Succeeds.throws fun w => ⟨_, w, rfl⟩) ?_
    intro space
    refine Spares.bind (throws_ofExcept fun _ _ _ => by rintro ⟨⟩) ?_
    intro es
    exact (spares_write _).bind fun _ => (succeeds_report _ _ _ _).throws

/-! ## Updates -/

section Updates

variable {config : Config} {registry : Registry} {values : Record} {m : Memory}
  {w w' : Session Memory}

/-- A value that is proposed for a unique column is held there already. -/
def Meets (M : Model) (values : Record) (m : Memory) : Bool :=
  M.unique.any fun a => (values.present? a.column).any fun v => !(m.holders M a.column v).isEmpty

/-- The update has written records, and a value of theirs was held already. -/
def rewrites (M : Model) (values : Record) (m : Memory) : Except Failure (List Record) → Bool
  | .ok (_ :: _) => Meets M values m
  | _ => false

/-- How often an update counts that ends like this. -/
def counted (M : Model) (values : Record) (m : Memory) (r : Except Failure (List Record)) :
    UInt64 :=
  .ofNat ((rejected r).toNat + (rewrites M values m r).toNat)

theorem counted_eq_zero {r : Except Failure (List Record)} (hrejected : rejected r = false)
    (hnone : ∀ rs, r = .ok rs → rs = []) : counted M values m r = 0 := by
  cases r with
  | error e =>
      rw [counted, hrejected]
      rfl
  | ok rs =>
      rw [hnone rs rfl]
      rfl

/-- What an update compares meets nobody exactly if none of it is held. -/
theorem conflicts_uniqueValues_eq_nil_iff :
    m.conflicts (compilerFor config M m) [uniqueValues M values] = [] ↔
      Meets M values m = false := by
  rw [conflicts_eq_nil_iff, Meets, List.any_eq_false]
  refine forall₂_congr ?_
  intro a ha
  rw [List.forall_mem_singleton, present?_uniqueValues_eq (M := M) ha]
  cases values.present? a.column with
  | none => simp
  | some v => simp [Memory.holders_eq_nil_iff, compilerFor]

theorem reads_logged (hfaults : m.faults.queries = 0) :
    Memory.store.Reads fun s => ∃ log, s = Pull.logged m log where
  ask _ _ hs := hs
  redeem t s hs := by
    obtain ⟨log, rfl⟩ := hs
    cases t with
    | running q => exact ⟨_, congrArg Prod.snd (Pull.redeem_logged hfaults q log)⟩
    | answered answer => exact ⟨log, rfl⟩

/-- A check that succeeds has found what is held, and has changed nothing but the log. -/
theorem conflicts_of_exec {found : List Conflict} (hfaults : w.store.faults.queries = 0)
    (h : (conflicts ⟨Memory.store, config, registry⟩ M records).exec w = (.ok found, w')) :
    found = w.store.conflicts (compilerFor config M w.store) records ∧
      ∃ log, w'.store = Pull.logged w.store log := by
  have hfind : (findConflicts Memory.store (compilerFor config M w.store) records).exec w =
      (.ok found, w') := by
    obtain ⟨_, _, hcompiler, hadapted⟩ := exec_bind_eq_ok.1 h
    cases hcompiler
    exact exec_adapt_eq_ok hadapted
  have hids : ¬ ProposesNoId M records := by
    intro hno
    obtain ⟨err, _, herror⟩ :=
      exec_findConflicts_error (c := compilerFor config M w.store) hno w
    rw [herror] at hfind
    cases hfind
  obtain ⟨w₁, hexec, hw₁⟩ := exec_findConflicts (c := compilerFor config M w.store) rfl hfaults
    (fun a ha v hv => canLookUp_of_proposed hids ha hv) rfl
  rw [hexec] at hfind
  cases hfind
  obtain ⟨log, hlog, _⟩ := hw₁
  exact ⟨rfl, w.store.log ++ log, hlog⟩

/-- What an update finds on a memory that nobody else works on can be written over. -/
theorem exists_update {es : List Entity} (hfaults : m.faults.writes = 0)
    (hes : ∀ e ∈ es, e ∈ m.table.entities) (values : Record) :
    ∃ s, m.update (es.map (overlay values)) = (.ok (), s) := by
  refine ⟨_, Memory.update_of_present hfaults ?_⟩
  rw [List.find?_eq_none]
  intro x hx
  obtain ⟨e, he, rfl⟩ := List.mem_map.1 hx
  have hstored : m.get? e.key = some e := Table.get?_eq_some_iff.2 ⟨hes e he, rfl⟩
  have hkey : (overlay values e).key = e.key := rfl
  rw [hkey, hstored]
  exact Bool.noConfusion

/-- An update that is not rejected counts if it has met somebody. -/
theorem violations_eq_counted {es : List Entity} {found : List Conflict} (hne : es ≠ [])
    (hmeets : found = [] ↔ Meets M values m = false) :
    violations (.ok found : Except Failure (List Conflict)) =
      counted M values m (.ok ((es.map (overlay values)).map M.toRecord)) := by
  obtain ⟨e, es, rfl⟩ := List.exists_cons_of_ne_nil hne
  cases found with
  | nil =>
      show 0 = UInt64.ofNat (0 + (Meets M values m).toNat)
      rw [hmeets.1 rfl]
      rfl
  | cons x found =>
      have hheld : Meets M values m = true := by
        rw [← Bool.not_eq_false, ← hmeets]
        exact List.cons_ne_nil x found
      show 1 = UInt64.ofNat (0 + (Meets M values m).toNat)
      rw [hheld]
      rfl

/-- What an update does with the entities that it has found. -/
def overwrite (E : Engine σ) (M : Model) (kind : String) (values : Record) (es : List Entity) :
    Action σ Failure (List Record) := do
  let found ← E.conflicts M [uniqueValues M values]
  Action.ofExcept .unique (UniqueError.ofConflicts
    (found.filter fun c => !es.any fun e => e.key == c.existing.key))
  write (E.store.update (es.map (overlay values)))
  Action.report .info .entitiesUpdated [
    ("kind", kind),
    ("count", toString (es.map (overlay values)).length)]
  return (es.map (overlay values)).map M.toRecord

theorem value_overwrite {es : List Entity} {r : Except Failure (List Record)} (hne : es ≠ [])
    (hes : ∀ e ∈ es, e ∈ w.store.table.entities) (hfaults : w.store.faults = .none)
    (h : (overwrite ⟨Memory.store, config, registry⟩ M kind values es).exec w = (r, w')) :
    w'.metrics.value .uniqueViolations =
      w.metrics.value .uniqueViolations + counted M values w.store r := by
  have hqueries : w.store.faults.queries = 0 := by
    rw [hfaults]
    rfl
  cases hconflicts : (conflicts ⟨Memory.store, config, registry⟩ M
      [uniqueValues M values]).exec w with
  | mk result w₁ =>
      have hcounted := (counts_conflicts _ M _).of_exec hconflicts
      cases result with
      | error e =>
          have hspared := (spares_conflicts _ M _).rejected_eq hconflicts
          rw [overwrite, exec_bind_error hconflicts] at h
          cases h
          rw [hcounted, counted_eq_zero ((rejected_error e).trans hspared) (by rintro _ ⟨⟩)]
          rfl
      | ok found =>
          obtain ⟨hfound, log, hstore⟩ := conflicts_of_exec hqueries hconflicts
          have hmeets : found = [] ↔ Meets M values w.store = false := by
            rw [hfound]
            exact conflicts_uniqueValues_eq_nil_iff
          rw [overwrite, exec_bind_ok hconflicts] at h
          generalize hothers : (found.filter fun c =>
            !es.any fun e => e.key == c.existing.key) = others at h
          cases others with
          | cons x others =>
              cases h
              obtain ⟨y, ys, rfl⟩ : ∃ y ys, found = y :: ys := by
                refine List.exists_cons_of_ne_nil ?_
                rintro rfl
                cases hothers
              exact hcounted
          | nil =>
              -- No failure is due and what was found is still there, so that the write succeeds.
              have hwrites : w₁.store.faults.writes = 0 := by
                rw [hstore]
                exact congrArg Faults.writes hfaults
              obtain ⟨s, hs⟩ := exists_update hwrites (by rwa [hstore]) values
              have hpassed : Action.exec (ofExcept Failure.unique (UniqueError.ofConflicts []) :
                  Action Memory Failure Unit) w₁ = (.ok (), w₁) := rfl
              have hwritten : (write (Memory.store.update (es.map (overlay values)))).exec w₁ =
                  (.ok (), { w₁ with store := s }) := exec_write_ok hs
              rw [exec_bind_ok hpassed, exec_bind_ok hwritten] at h
              cases h
              refine hcounted.trans (congrArg (w.metrics.value .uniqueViolations + ·) ?_)
              exact violations_eq_counted hne hmeets

/-- An update counts if it is rejected, and also if it writes what was held already. -/
theorem value_update {r : Except Failure (List Record)} {criteria : Criteria}
    (hmodel : registry.get kind = .ok M) (hfaults : w.store.faults = .none)
    (h : (update ⟨Memory.store, config, registry⟩ kind criteria values).exec w = (r, w')) :
    w'.metrics.value .uniqueViolations =
      w.metrics.value .uniqueViolations + counted M values w.store r := by
  have hqueries : w.store.faults.queries = 0 := by
    rw [hfaults]
    rfl
  rw [update, exec_model_bind hmodel] at h
  split at h
  · cases h
    rw [counted_eq_zero rfl (by rintro _ ⟨⟩), UInt64.add_zero]
  · cases hmatched : (matched ⟨Memory.store, config, registry⟩ M criteria).exec w with
    | mk result w₁ =>
        have huses : Uses Memory.store True (·.ofFanOut = true)
            (matched ⟨Memory.store, config, registry⟩ M criteria) :=
          uses_matched (E := ⟨Memory.store, config, registry⟩) fun _ hc => hc
        have hsame := (huses.leaves (c := .uniqueViolations) (by decide)).of_exec hmatched
        cases result with
        | error e =>
            have hspared := (spares_matched _ M criteria).rejected_eq hmatched
            rw [exec_bind_error hmatched] at h
            cases h
            rw [hsame, counted_eq_zero ((rejected_error e).trans hspared) (by rintro _ ⟨⟩),
              UInt64.add_zero]
        | ok es =>
            rw [exec_bind_ok hmatched] at h
            split at h
            · cases h
              rw [hsame, counted_eq_zero rfl (by rintro _ ⟨⟩; rfl), UInt64.add_zero]
            · rename_i hempty
              have hkeeps : Keeps (fun s => ∃ log, s = Pull.logged w.store log)
                  (matched ⟨Memory.store, config, registry⟩ M criteria) fun _ => True :=
                (uses_matched fun _ _ => trivial).keeps_of_reads (reads_logged hqueries)
              have hlogged := (hkeeps w ⟨w.store.log, rfl⟩).1
              have hstored := (keeps_matched w.store config registry M criteria w rfl).2
              rw [hmatched] at hlogged hstored
              obtain ⟨log, hstore⟩ := hlogged
              rw [List.isEmpty_iff] at hempty
              have hvalue := value_overwrite hempty (by rw [hstore]; exact hstored es rfl)
                (by rw [hstore]; exact hfaults) h
              rw [hvalue, hsame, hstore]
              rfl

end Updates

/-! ## Requests in a row -/

namespace Exchange

def isRejected (x : Exchange Memory) : Bool := rejected x.response

/-- The request was for conflicts, and some were found. -/
def hasConflicts (x : Exchange Memory) : Bool :=
  match x.response with
  | .ok (.conflicts (_ :: _)) => true
  | _ => false

/-- The request was an update that has written records, and a value of theirs was held already. As
it was not rejected, only entities that it wrote over held it. -/
def rewrites (registry : Registry) (x : Exchange Memory) : Bool :=
  match registry.get x.kind, x.request, x.response with
  | .ok M, .call (.update _ values), .ok (.reply (.records rs)) =>
    Engine.rewrites M values x.before.store (.ok rs)
  | _, _, _ => false

theorem rewrites_eq_false {registry : Registry} {x : Exchange Memory}
    (h : ∀ criteria values, x.request ≠ .call (.update criteria values)) :
    x.rewrites registry = false := by
  unfold rewrites
  split
  · rename_i hrequest _
    exact absurd hrequest (h _ _)
  · rfl

/-- How often a request counts. -/
def counted (registry : Registry) (x : Exchange Memory) : Nat :=
  x.isRejected.toNat + x.hasConflicts.toNat + (x.rewrites registry).toNat

theorem sum_counted (registry : Registry) (exchanges : List (Exchange Memory)) :
    (exchanges.map (counted registry)).sum =
      exchanges.countP isRejected + exchanges.countP hasConflicts +
        exchanges.countP (rewrites registry) := by
  induction exchanges with
  | nil => rfl
  | cons x exchanges ih =>
      rw [List.map_cons, List.sum_cons, ih, counted, List.countP_cons, List.countP_cons,
        List.countP_cons]
      simp only [Bool.toNat, Bool.cond_eq_ite]
      omega

end Exchange

section Requests

variable {config : Config} {registry : Registry} {w w' : Session Memory}

/-- A call that is no update counts if it is rejected. -/
theorem counts_serve {call : Call} (hcall : ∀ criteria values, call ≠ .update criteria values)
    (E : Engine σ) (kind : String) : Counts .uniqueViolations (E.serve kind call) rejections := by
  have hreturn : ∀ reply,
      Counts .uniqueViolations (pure reply : Action σ Failure Reply) rejections :=
    fun _ => counts_of_spares (moves_pure _) (succeeds_pure _).throws
  have hreads : ∀ {α : Type} {x : Action σ Failure α} (reply : α → Reply),
      Uses E.store True (·.ofFanOut = true) x → Spares x →
      Counts .uniqueViolations (x >>= fun a => pure (reply a)) rejections :=
    fun _ huses hspares =>
      (counts_of_spares (huses.leaves (by decide)) hspares).bind_rejections fun _ => hreturn _
  cases call with
  | find criteria =>
      exact hreads _ (uses_reading (fun _ hc => hc) kind _ _) (spares_reading E kind _ _)
  | count criteria =>
      exact hreads _ (uses_reading (fun _ hc => hc) kind _ _) (spares_reading E kind _ _)
  | create records => exact (counts_create E kind records).bind_rejections fun _ => hreturn _
  | update criteria values => exact absurd rfl (hcall criteria values)
  | destroy criteria =>
      exact hreads _ (uses_destroy (fun _ hc => hc) trivial kind) (spares_destroy E kind criteria)

/-- A request whose rejections count, and which is neither a check nor an update. -/
theorem counted_of_rejections {request : Request} {response : Except Failure Answer}
    (hwarned : ∀ found, response ≠ .ok (.conflicts found))
    (hupdate : ∀ criteria values, request ≠ .call (.update criteria values)) :
    Exchange.counted registry ⟨kind, request, w, response, w'⟩ = (rejected response).toNat := by
  have hconflicts : Exchange.hasConflicts ⟨kind, request, w, response, w'⟩ = false := by
    unfold Exchange.hasConflicts
    split
    · rename_i hresponse
      exact absurd hresponse (hwarned _)
    · rfl
  rw [Exchange.counted, hconflicts, Exchange.rewrites_eq_false hupdate]
  rfl

theorem value_handle_update {criteria : Criteria} {values : Record}
    {response : Except Failure Answer} (hfaults : w.store.faults = .none)
    (h : (handle ⟨Memory.store, config, registry⟩ kind
      (.call (.update criteria values))).exec w = (response, w')) :
    w'.metrics.value .uniqueViolations = w.metrics.value .uniqueViolations +
      .ofNat (Exchange.counted registry
        ⟨kind, .call (.update criteria values), w, response, w'⟩) := by
  cases hexec : (update ⟨Memory.store, config, registry⟩ kind criteria values).exec w with
  | mk r w₁ =>
      have hserve := (exec_bind_pure (update ⟨Memory.store, config, registry⟩ kind criteria values)
        Reply.records w)
      have hhandle := exec_bind_pure (serve ⟨Memory.store, config, registry⟩ kind
        (.update criteria values)) Answer.reply w
      rw [handle, hhandle, serve, hserve, hexec] at h
      cases h
      cases hmodel : registry.get kind with
      | error e =>
          have hunknown : (model ⟨Memory.store, config, registry⟩ kind).exec w =
              (.error (.registry e), w) := by
            rw [model, exec_ofExcept, hmodel]
            rfl
          rw [update, exec_bind_error hunknown] at hexec
          cases hexec
          simp only [Exchange.counted, Exchange.rewrites, hmodel]
          exact (UInt64.add_zero _).symm
      | ok M =>
          rw [value_update hmodel hfaults hexec]
          simp only [Exchange.counted, Exchange.rewrites, hmodel]
          rcases r with e | rs
          · rw [counted, Exchange.isRejected, rejected_map, rejected_map]
            rfl
          · rfl

/-- A check counts if it has found conflicts. -/
theorem value_handle_check {records : List Record} {response : Except Failure Answer}
    (h : (handle ⟨Memory.store, config, registry⟩ kind (.check records)).exec w = (response, w')) :
    w'.metrics.value .uniqueViolations = w.metrics.value .uniqueViolations +
      .ofNat (Exchange.counted registry ⟨kind, .check records, w, response, w'⟩) := by
  let E : Engine Memory := ⟨Memory.store, config, registry⟩
  have hcounts : Counts .uniqueViolations (E.model kind >>= fun M => E.conflicts M records)
      violations :=
    Leaves.bindCounts (moves_ofExcept _ _) (fun M => counts_conflicts E M records) fun _ => rfl
  have hspares : Spares (E.model kind >>= fun M => E.conflicts M records) :=
    (spares_model E kind).bind fun M => spares_conflicts E M records
  have hhandle : handle E kind (.check records) =
      (E.model kind >>= fun M => E.conflicts M records) >>= fun found => pure (.conflicts found) :=
    (bind_assoc _ _ _).symm
  cases hexec : (E.model kind >>= fun M => E.conflicts M records).exec w with
  | mk r w₁ =>
      have hspared := hspares.rejected_eq hexec
      rw [hhandle, exec_bind_pure, hexec] at h
      cases h
      rw [hcounts.of_exec hexec, Exchange.counted, Exchange.isRejected, rejected_map, hspared,
        Exchange.rewrites_eq_false (by rintro _ _ ⟨⟩)]
      rcases r with e | _ | _ <;> rfl

theorem value_handle {request : Request} {response : Except Failure Answer}
    (hfaults : w.store.faults = .none)
    (h : (handle ⟨Memory.store, config, registry⟩ kind request).exec w = (response, w')) :
    w'.metrics.value .uniqueViolations = w.metrics.value .uniqueViolations +
      .ofNat (Exchange.counted registry ⟨kind, request, w, response, w'⟩) := by
  cases request with
  | call call =>
      by_cases hcall : ∃ criteria values, call = .update criteria values
      · obtain ⟨criteria, values, rfl⟩ := hcall
        exact value_handle_update hfaults h
      · have hother : ∀ criteria values, call ≠ .update criteria values :=
          fun criteria values heq => hcall ⟨criteria, values, heq⟩
        cases hexec : (serve ⟨Memory.store, config, registry⟩ kind call).exec w with
        | mk r w₁ =>
            have hcounted := (counts_serve hother _ kind).of_exec hexec
            rw [handle, exec_bind_pure, hexec] at h
            cases h
            rw [counted_of_rejections, rejected_map]
            · exact hcounted
            · rintro found heq
              cases r <;> cases heq
            · rintro criteria values ⟨⟩
              exact hother criteria values rfl
  | check records => exact value_handle_check h
  | drop =>
      have hcounts : Counts .uniqueViolations
          (handle ⟨Memory.store, config, registry⟩ kind .drop) rejections := by
        refine counts_of_spares ?_ ?_
        · have huses : Uses Memory.store True (fun c => c.ofDrop = true ∨ c = .storeFailures)
              (dropAll Memory.store config.dropPageSize kind) :=
            uses_dropAll (fun _ hc => .inl hc) (.inr rfl) trivial _ kind
          exact ((huses.leaves (by decide)).adapt _).bind fun _ => moves_pure _
        · exact Spares.bind (throws_adapt _ fun _ _ => by rintro ⟨⟩)
            fun _ => (succeeds_pure _).throws
      have hcounted := hcounts.of_exec h
      rw [handle, exec_bind_pure] at h
      cases h
      rw [counted_of_rejections]
      · exact hcounted
      · intro found heq
        cases hr : ((drop ⟨Memory.store, config, registry⟩ kind).exec w).1 <;>
          rw [hr] at heq <;> cases heq
      · rintro criteria values ⟨⟩

/-- Requests on a memory of which no failures are due leave none. -/
theorem stable_faults : Memory.store.Stable fun m => m.faults = .none where
  ask _ _ hm := hm
  redeem t m hm := by
    cases t with
    | running q =>
        show (m.run q).2.faults = .none
        rw [Memory.run_of_no_faults (congrArg Faults.queries hm)]
        exact hm
    | answered answer => exact hm
  save es m hm := by
    show (m.save es).2.faults = .none
    obtain ⟨id, table, hframe⟩ := m.insertAll_frame es
    rw [Memory.save_of_no_faults (congrArg Faults.writes hm), hframe]
    exact hm
  update es m hm := by
    show (m.update es).2.faults = .none
    have hwrites : m.faults.writes = 0 := congrArg Faults.writes hm
    cases hmissing : es.find? fun e => (m.get? e.key).isNone with
    | some e =>
        rw [Memory.update_of_missing hwrites hmissing]
        exact hm
    | none =>
        rw [Memory.update_of_present hwrites hmissing]
        exact hm
  delete ks m hm := by
    show (m.delete ks).2.faults = .none
    rw [Memory.delete_of_no_faults (congrArg Faults.deletes hm)]
    exact hm

/-- **What counts as a violation.** As long as no failures are due, requests in a row add to the
counter the number of those that are rejected, of the checks that find conflicts, and of the updates
that write records although a value of theirs was held already. The last succeed: nobody held the
value but the entities that they wrote over. -/
theorem uniqueViolations_of_requests (config : Config) (registry : Registry)
    (requests : List (String × Request)) (w : Session Memory) (hfaults : w.store.faults = .none) :
    let run := handleAll ⟨Memory.store, config, registry⟩ requests w
    run.2.metrics.value .uniqueViolations = w.metrics.value .uniqueViolations +
      .ofNat (run.1.countP Exchange.isRejected + run.1.countP Exchange.hasConflicts +
        run.1.countP (Exchange.rewrites registry)) := by
  intro run
  rw [← Exchange.sum_counted]
  refine value_handleAll (J := fun m => m.faults = .none) ?_ requests w hfaults
  intro kind request w response w' hw hexec
  have hkeeps : Keeps (fun m : Memory => m.faults = .none)
      (handle ⟨Memory.store, config, registry⟩ kind request) fun _ => True :=
    (uses_handle trivial kind request).keeps_of_stable stable_faults
  have hkept := (hkeeps w hw).1
  rw [hexec] at hkept
  exact ⟨hkept, value_handle hw hexec⟩

/-- A person is created, is given the email that the person has, and is created again. -/
def samePerson : List (String × Request) :=
  let holder : Record := .ofColumns [("email", .string "a@x")]
  [("Person", .call (.create [holder])), ("Person", .call (.update .everything holder)),
    ("Person", .call (.create [holder]))]

theorem uniqueViolations_of_samePerson :
    let run := handleAll ⟨Memory.store, .default, ⟨[people]⟩⟩ samePerson nobody
    nobody.store.faults = .none ∧
      (run.1.countP Exchange.isRejected, run.1.countP Exchange.hasConflicts,
        run.1.countP (Exchange.rewrites ⟨[people]⟩)) = (1, 0, 1) ∧
      run.2.metrics.value .uniqueViolations = 2 := by
  intro run
  have hcounts : (run.1.countP Exchange.isRejected, run.1.countP Exchange.hasConflicts,
      run.1.countP (Exchange.rewrites ⟨[people]⟩)) = (1, 0, 1) := by decide +kernel
  refine ⟨rfl, hcounts, ?_⟩
  obtain ⟨hrejected, hrest⟩ := Prod.mk.inj hcounts
  obtain ⟨hfound, hrewritten⟩ := Prod.mk.inj hrest
  rw [uniqueViolations_of_requests .default ⟨[people]⟩ samePerson nobody rfl, hrejected, hfound,
    hrewritten]
  decide

/-- A person is created and given the same email. Neither is rejected, and the counter is at one. -/
theorem uniqueViolations_without_rejection :
    let run := handleAll ⟨Memory.store, .default, ⟨[people]⟩⟩ (samePerson.take 2) nobody
    (run.1.map fun x => (x.response.isOk, x.isRejected)) = [(true, false), (true, false)] ∧
      run.2.metrics.value .uniqueViolations = 1 := by
  decide +kernel

end Requests

end Engine

end Quarry
