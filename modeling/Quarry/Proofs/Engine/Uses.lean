import Quarry.Proofs.Engine.Requests
import Quarry.Proofs.Using

/-!
# What operations use

Operations use the store by its operations alone. Reading adds to the counters of queries and
results and to that of the failures, and a check for conflicts to those of the checks. The counters
of deletions are left to drops.
-/

namespace Quarry

open Quarry.Action

variable {σ τ ρ ε : Type} {S : Store σ} {writes : Prop} {counted : Counter → Prop}

namespace Counter

/-- Fan-outs add to the counter. -/
def ofFanOut : Counter → Bool
  | queriesIssued | entitiesReturned | placeholdersFiltered | storeFailures => true
  | uniqueChecks | uniqueViolations | dropPages | entitiesDeleted => false

/-- Drops alone add to the counter. -/
def ofDrop : Counter → Bool
  | dropPages | entitiesDeleted => true
  | _ => false

/-- Checks for conflicts add to the counter, or the fan-outs that they are made of. -/
def ofCheck (c : Counter) : Bool := !c.ofDrop

theorem ofCheck_of_ofFanOut (c : Counter) (hc : c.ofFanOut = true) : c.ofCheck = true := by
  cases c <;> first | rfl | cases hc

end Counter

/-! ## Groups -/

/-- The tasks use no more than that. -/
structure Work.Uses (W : Work σ τ ρ ε) (S : Store σ) (writes : Prop) (counted : Counter → Prop) :
    Prop where
  run : ∀ place t, Action.Uses S writes counted (W.run place t)
  leave : ∀ t, Action.Uses S writes counted (W.leave t)

namespace TaskGroup

variable {W : Work σ τ ρ ε}

theorem uses_leaveAll (hW : W.Uses S writes counted) (tasks : List (Nat × τ)) :
    Uses S writes counted (leaveAll W tasks) :=
  uses_forM fun task _ => hW.leave task.2

theorem uses_round (hW : W.Uses S writes counted) (outcomes : List (Option (Except ε ρ)))
    (before queue : List (Nat × τ)) : Uses S writes counted (round W outcomes before queue) := by
  induction queue generalizing before outcomes with
  | nil => exact uses_pure _
  | cons task queue ih =>
      obtain ⟨place, t⟩ := task
      refine ((hW.run place t).orElseDo fun _ => uses_leaveAll hW _).bind ?_
      rintro (t' | r)
      · exact ih outcomes _
      · exact ih _ before

theorem uses_runSome (hW : W.Uses S writes counted) (n : Nat) (g : TaskGroup τ ρ ε) :
    Uses S writes counted (runSome W n g) := by
  induction n generalizing g with
  | zero => exact uses_pure _
  | succ n ih =>
      obtain ⟨queue, outcomes⟩ := g
      cases queue with
      | nil => exact uses_pure _
      | cons task queue =>
          obtain ⟨place, t⟩ := task
          refine (hW.run place t).outcome.bind ?_
          rintro (e | t' | r)
          · exact uses_pure _
          · exact ih _
          · exact uses_pure _

theorem uses_turn (hW : W.Uses S writes counted) (n : Nat) (g : TaskGroup τ ρ ε) :
    Uses S writes counted (turn W n g) := by
  induction n generalizing g with
  | zero => exact uses_pure _
  | succ n ih =>
      refine (uses_runSome hW _ g).bind ?_
      rintro ⟨ended, g'⟩
      cases ended with
      | false => exact uses_pure _
      | true =>
          cases hfailure : failure? g'.outcomes with
          | none =>
              simp only [if_true, hfailure]
              exact ih g'
          | some e =>
              simp only [if_true, hfailure]
              exact (uses_leaveAll hW _).bind fun _ => uses_throw e

theorem uses_advance (hW : W.Uses S writes counted) (g : TaskGroup τ ρ ε) :
    Uses S writes counted (g.advance W) := by
  unfold advance
  split
  · exact uses_round hW _ _ _
  · exact uses_turn hW _ g

theorem uses_complete (hW : W.Uses S writes counted) (endless : Nat → ε) (patience : Nat)
    (g : TaskGroup τ ρ ε) : Uses S writes counted (g.complete W endless patience) := by
  induction patience generalizing g with
  | zero =>
      obtain ⟨queue, outcomes⟩ := g
      cases queue with
      | nil => exact uses_pure _
      | cons task queue => exact (uses_leaveAll hW _).bind fun _ => uses_throw _
  | succ patience ih =>
      unfold complete
      split
      · exact uses_pure g
      · exact (uses_advance hW g).bind ih

end TaskGroup

/-! ## Fan-outs -/

theorem Pull.uses_work : (Pull.work S).Uses S writes counted where
  run place p := by
    refine Uses.adapt ?_ _
    cases p with
    | fresh q => exact (Uses.ask q).bind fun _ => uses_pure _
    | asked d t =>
        refine (Uses.redeem t).bind ?_
        intro page
        cases hnext : (d.add page).next? page with
        | none =>
            simp only [hnext]
            exact uses_pure _
        | some cursor =>
            simp only [hnext]
            refine (uses_report _ _ _).bind ?_
            intro _
            exact (Uses.ask _).bind fun _ => uses_pure _
  leave _ := uses_pure ()

section Reading

variable (hread : ∀ c : Counter, c.ofFanOut = true → counted c)

include hread

namespace FanOut

theorem uses_enter (queries : List Query) :
    Uses S writes counted (enter queries : Action σ ε FanOut) := by
  refine (Scope.uses_enter _ _).bind ?_
  intro scope
  exact (Uses.count (hread _ rfl) _).bind fun _ => uses_pure _

theorem uses_through {α : Type} (f : FanOut) {x : Action σ (Nat × StoreError) α}
    (hx : Uses S writes counted x) : Uses S writes counted (f.through x) := by
  refine hx.outcome.bind ?_
  rintro (⟨index, source⟩ | a)
  · refine (Uses.count (hread _ rfl) 1).bind ?_
    intro _
    exact (f.scope.uses_fail _).bind fun _ => uses_throw _
  · exact uses_pure a

theorem uses_advance (f : FanOut) : Uses S writes counted (f.advance S) :=
  (uses_through hread f (TaskGroup.uses_advance Pull.uses_work _)).bind fun _ => uses_pure _

theorem uses_complete (patience : Nat) (f : FanOut) :
    Uses S writes counted (f.complete S patience) :=
  (uses_through hread f (TaskGroup.uses_complete Pull.uses_work _ _ _)).bind fun _ => uses_pure _

theorem uses_finish (f : FanOut) : Uses S writes counted (f.finish : Action σ ε ResultSet) := by
  have hrest : Uses S writes counted (do
      Action.count .entitiesReturned f.results.entities.length
      f.scope.complete [
        ("entities", toString f.results.entities.length),
        ("batches", toString f.results.batchesRun)]
      return f.results : Action σ ε ResultSet) :=
    (Uses.count (hread _ rfl) _).bind fun _ => (f.scope.uses_complete _).bind fun _ => uses_pure _
  unfold finish
  by_cases hsome : 0 < f.results.placeholdersFiltered
  · simp only [if_pos hsome]
    refine (uses_report _ _ _).bind ?_
    intro _
    exact (Uses.count (hread _ rfl) _).bind fun _ => hrest
  · simp only [if_neg hsome]
    exact hrest

end FanOut

theorem uses_execute (queries : List Query) : Uses S writes counted (execute S queries) := by
  refine (uses_inquire _).bind ?_
  intro patience
  refine (FanOut.uses_enter hread queries).bind ?_
  intro f
  exact (FanOut.uses_complete hread _ f).bind fun f' => FanOut.uses_finish hread f'

end Reading

/-! ## Checks for conflicts -/

namespace Probe

section Looking

variable (hread : ∀ c : Counter, c.ofFanOut = true → counted c) (hcheck : counted .uniqueChecks)

include hread

theorem uses_settle (m : Model) (a : UniqueAttribute) (f : FanOut) :
    Uses S writes counted (settle m a f : Action σ ε (Progress Probe (List Conflict))) := by
  unfold settle
  split
  · exact (FanOut.uses_finish hread f).bind fun _ => uses_pure _
  · exact uses_pure _

include hcheck

theorem uses_enter (C : Compiler) (a : UniqueAttribute) (values : List Json.Value) :
    Uses S writes counted (enter C a values : Action σ CheckError FanOut) := by
  refine (Uses.count hcheck 1).bind ?_
  intro _
  refine (uses_report _ _ _).bind ?_
  intro _
  exact (uses_ofExcept _ _).bind fun queries => FanOut.uses_enter hread queries

theorem uses_work (C : Compiler) (records : List Record) :
    (work S C records).Uses S writes counted where
  run place p := by
    have hturn : ∀ a f, Uses S writes counted (do
        let f ← (FanOut.advance S f).adapt CheckError.execution
        settle C.model a f) :=
      fun a f => ((FanOut.uses_advance hread f).adapt _).bind fun f' => uses_settle hread _ a f'
    cases p with
    | fresh a =>
        show Uses S writes counted (advance S C records (fresh a))
        cases hvalues : proposed records a.column with
        | nil =>
            simp only [advance, hvalues]
            exact uses_pure _
        | cons v values =>
            simp only [advance, hvalues]
            exact (uses_enter hread hcheck C a _).bind fun f => hturn a f
    | running a f => exact hturn a f
  leave p := by
    cases p with
    | fresh a => exact uses_pure ()
    | running a f => exact f.scope.uses_abandon

end Looking

end Probe

theorem uses_findConflicts (hcheck : ∀ c : Counter, c.ofCheck = true → counted c) (C : Compiler)
    (records : List Record) : Uses S writes counted (findConflicts S C records) := by
  refine (uses_inquire _).bind ?_
  intro patience
  have hwork : (Probe.work S C records).Uses S writes counted :=
    Probe.uses_work (fun c hc => hcheck c (c.ofCheck_of_ofFanOut hc)) (hcheck _ rfl) C records
  refine (TaskGroup.uses_complete hwork _ _ _).bind ?_
  intro probes
  cases hfound : probes.results.flatten with
  | nil => exact uses_pure _
  | cons x found =>
      refine (Uses.count (hcheck _ rfl) 1).bind ?_
      intro _
      exact (uses_report _ _ _).bind fun _ => uses_pure _

/-! ## Operations -/

namespace Engine

variable {E : Engine σ} {M : Model} {criteria : Criteria} {records : List Record}

theorem uses_model (E : Engine σ) (kind : String) : Uses S writes counted (E.model kind) :=
  uses_ofExcept _ _

theorem uses_compiler (E : Engine σ) (M : Model) : Uses S writes counted (E.compiler M) :=
  (uses_inquire _).bind fun _ => uses_pure _

section Reading

variable (hread : ∀ c : Counter, c.ofFanOut = true → counted c)

include hread

theorem uses_run : Uses E.store writes counted (E.run M criteria) := by
  refine (uses_compiler E M).bind ?_
  intro compiler
  refine (uses_ofExcept _ _).bind ?_
  intro queries
  have hexecute : Uses E.store writes counted
      ((execute E.store queries).adapt Failure.execution) := (uses_execute hread queries).adapt _
  cases hlog : E.config.logQueries with
  | false => exact hexecute
  | true =>
      simp only [if_true]
      exact (uses_forM fun q _ => uses_report _ _ _).bind fun _ => hexecute

theorem uses_matched : Uses E.store writes counted (E.matched M criteria) :=
  (uses_run hread).bind fun _ => uses_pure _

theorem uses_reading {α : Type} (kind : String) (criteria : Model → Criteria)
    (result : Model → ResultSet → α) :
    Uses E.store writes counted (E.reading kind criteria result) :=
  (uses_model E kind).bind fun _ => (uses_run hread).bind fun _ => uses_pure _

theorem uses_write {α : Type} {f : σ → Except StoreError α × σ}
    (hf : Uses S writes counted (attempt f)) : Uses S writes counted (write f) :=
  (hf.adapt _).orElseDo fun _ => Uses.count (hread _ rfl) 1

theorem uses_destroy (hw : writes) (kind : String) :
    Uses E.store writes counted (E.destroy kind criteria) := by
  refine (uses_model E kind).bind ?_
  intro M
  refine (uses_matched hread).bind ?_
  intro es
  split
  · exact uses_pure _
  · refine (uses_write hread (.delete hw _)).bind ?_
    intro _
    exact (uses_report _ _ _).bind fun _ => uses_pure _

end Reading

section Checking

variable (hcheck : ∀ c : Counter, c.ofCheck = true → counted c)

include hcheck

theorem uses_conflicts : Uses E.store writes counted (E.conflicts M records) :=
  (uses_compiler E M).bind fun compiler => (uses_findConflicts hcheck compiler _).adapt _

theorem uses_create (hw : writes) (kind : String) :
    Uses E.store writes counted (E.create kind records) := by
  refine (uses_model E kind).bind ?_
  intro M
  refine ((uses_conflicts hcheck).bind fun _ => uses_ofExcept _ _).bind ?_
  intro _
  refine (uses_inquire _).bind ?_
  intro space
  refine (uses_ofExcept _ _).bind ?_
  intro es
  refine (uses_write (fun c hc => hcheck c (c.ofCheck_of_ofFanOut hc)) (.save hw es)).bind ?_
  intro ks
  exact (uses_report _ _ _).bind fun _ => uses_pure _

theorem uses_update (hw : writes) (kind : String) (values : Record) :
    Uses E.store writes counted (E.update kind criteria values) := by
  have hread : ∀ c : Counter, c.ofFanOut = true → counted c :=
    fun c hc => hcheck c (c.ofCheck_of_ofFanOut hc)
  refine (uses_model E kind).bind ?_
  intro M
  split
  · exact uses_throw _
  · refine (uses_matched hread).bind ?_
    intro es
    split
    · exact uses_pure _
    · refine (uses_conflicts hcheck).bind ?_
      intro found
      refine (uses_ofExcept _ _).bind ?_
      intro _
      refine (uses_write hread (.update hw _)).bind ?_
      intro _
      exact (uses_report _ _ _).bind fun _ => uses_pure _

/-- **Calls use the store by its operations**, and leave the counters of drops alone. -/
theorem uses_serve (hw : writes) (kind : String) (call : Call) :
    Uses E.store writes counted (E.serve kind call) := by
  have hread : ∀ c : Counter, c.ofFanOut = true → counted c :=
    fun c hc => hcheck c (c.ofCheck_of_ofFanOut hc)
  cases call with
  | find criteria => exact (uses_reading hread kind _ _).bind fun _ => uses_pure _
  | count criteria => exact (uses_reading hread kind _ _).bind fun _ => uses_pure _
  | create records => exact (uses_create hcheck hw kind).bind fun _ => uses_pure _
  | update criteria values => exact (uses_update hcheck hw kind values).bind fun _ => uses_pure _
  | destroy criteria => exact (uses_destroy hread hw kind).bind fun _ => uses_pure _

end Checking

end Engine

/-! ## Drops -/

section Dropping

variable (hdrop : ∀ c : Counter, c.ofDrop = true → counted c)

include hdrop

namespace Drop

theorem uses_note (done : DropSummary) (n : Nat) :
    Uses S writes counted (note done n : Action σ ε DropSummary) := by
  refine (Uses.count (hdrop _ rfl) 1).bind ?_
  intro _
  refine (Uses.count (hdrop _ rfl) n).bind ?_
  intro _
  exact (uses_report _ _ _).bind fun _ => uses_pure _

theorem uses_step (hw : writes) (pageSize : Nat) (start : Option Cursor) (done : DropSummary) :
    Uses S writes counted (step S pageSize start done) := by
  refine (uses_inquire _).bind ?_
  intro space
  refine (Uses.ask _).bind ?_
  intro ticket
  refine ((Uses.redeem ticket).adapt _).bind ?_
  intro page
  by_cases hempty : (keys page).isEmpty = true
  · simp only [if_pos hempty]
    by_cases hmore : page.more.hasMore = true
    · simp only [if_pos hmore]
      exact (uses_report _ _ _).bind fun _ => uses_pure _
    · simp only [if_neg hmore]
      exact uses_pure _
  · simp only [if_neg hempty]
    refine ((Uses.delete hw _).adapt _).bind ?_
    intro _
    exact (uses_note hdrop done _).bind fun _ => uses_pure _

theorem uses_pagesFrom (hw : writes) (pageSize n : Nat) (start : Option Cursor)
    (done : DropSummary) : Uses S writes counted (pagesFrom S pageSize n start done) := by
  induction n generalizing start done with
  | zero => exact uses_throw _
  | succ n ih =>
      refine (uses_step hdrop hw pageSize start done).bind ?_
      rintro ⟨done', _ | next⟩
      · exact uses_pure _
      · exact ih (some next) done'

end Drop

theorem uses_dropAll (hfailure : counted .storeFailures) (hw : writes) (pageSize : Nat)
    (kind : String) : Uses S writes counted (dropAll S pageSize kind) := by
  refine (uses_inquire _).bind ?_
  intro patience
  refine (Scope.uses_enter _ _).bind ?_
  intro scope
  refine ((Drop.uses_pagesFrom hdrop hw _ patience none _).orElseDo fun e => ?_).bind ?_
  · exact (Uses.count hfailure 1).bind fun _ => scope.uses_fail _
  · intro done
    exact (scope.uses_complete _).bind fun _ => uses_pure _

end Dropping

/-! ## Requests -/

namespace Engine

variable {c : Counter}

/-- **Requests use the store by its operations.** -/
theorem uses_handle {E : Engine σ} (hw : writes) (kind : String) (request : Request) :
    Uses E.store writes (fun _ => True) (E.handle kind request) := by
  cases request with
  | call call => exact (uses_serve (fun _ _ => trivial) hw kind call).bind fun _ => uses_pure _
  | check records =>
      refine (uses_model E kind).bind ?_
      intro M
      exact (uses_conflicts fun _ _ => trivial).bind fun _ => uses_pure _
  | drop =>
      exact ((uses_dropAll (fun _ _ => trivial) trivial hw _ kind).adapt _).bind fun _ =>
        uses_pure _

/-- If each request adds its amount to a counter, then requests in a row add the sum of theirs. -/
theorem value_handleAll {E : Engine Memory} {J : Memory → Prop} {amount : Exchange Memory → Nat}
    (h : ∀ kind request (w : Session Memory) response w', J w.store →
      (E.handle kind request).exec w = (response, w') → J w'.store ∧
        w'.metrics.value c =
          w.metrics.value c + .ofNat (amount ⟨kind, request, w, response, w'⟩))
    (requests : List (String × Request)) (w : Session Memory) (hw : J w.store) :
    (E.handleAll requests w).2.metrics.value c =
      w.metrics.value c + .ofNat ((E.handleAll requests w).1.map amount).sum := by
  induction requests generalizing w with
  | nil => exact (UInt64.add_zero _).symm
  | cons x rest ih =>
      obtain ⟨kind, request⟩ := x
      cases hexec : (E.handle kind request).exec w with
      | mk response w₁ =>
          obtain ⟨hw₁, hadded⟩ := h kind request w response w₁ hw hexec
          rw [handleAll_cons hexec, List.map_cons, List.sum_cons, UInt64.ofNat_add, ih w₁ hw₁,
            hadded, UInt64.add_assoc]

end Engine

end Quarry
