import Quarry.Proofs.Engine.CheckScopes
import Quarry.Proofs.Engine.Requests

/-!
# Every observed operation says how it came out

Each fan-out and each drop that a request starts is reported with exactly one outcome, whatever
fails and wherever. The counts in the journal are those of what was returned.
-/

namespace Quarry

open Quarry.Action Scope

variable {σ ε : Type} {S : Store σ}

/-! ## Drops -/

namespace Drop

theorem plainly_note (done : DropSummary) (n : Nat) :
    Moves Plainly (note done n : Action σ ε DropSummary) :=
  (plainly_count _ _).bind fun _ => (plainly_count _ _).bind fun _ =>
    (plainly_report ⟨rfl, by simp⟩).bind fun _ => moves_pure _

theorem plainly_step (S : Store σ) (pageSize : Nat) (start : Option Cursor) (done : DropSummary) :
    Moves Plainly (step S pageSize start done) := by
  refine (moves_inquire _).bind fun space => (plainly_onStore _).bind fun ticket =>
    ((plainly_attempt _).adapt _).bind ?_
  intro page
  by_cases hempty : (keys page).isEmpty = true
  · simp only [if_pos hempty]
    by_cases hmore : page.more.hasMore = true
    · simp only [if_pos hmore]
      exact (plainly_report ⟨rfl, by simp⟩).bind fun _ => moves_pure _
    · simp only [if_neg hmore]
      exact moves_pure _
  · simp only [if_neg hempty]
    exact ((plainly_attempt _).adapt _).bind fun _ =>
      (plainly_note done _).bind fun _ => moves_pure _

theorem plainly_pagesFrom (S : Store σ) (pageSize n : Nat) (start : Option Cursor)
    (done : DropSummary) : Moves Plainly (pagesFrom S pageSize n start done) := by
  induction n generalizing start done with
  | zero => exact moves_throw _
  | succ n ih =>
      refine (plainly_step S pageSize start done).bind ?_
      rintro ⟨done', _ | next⟩
      · exact moves_pure _
      · exact ih (some next) done'

end Drop

/-- **One drop.** A drop opens one scope, which says how the drop ended. -/
theorem exec_dropAll_scopes {pageSize : Nat} {kind : String} {w w' : Session σ}
    {r : Except DropError DropSummary} (h : (dropAll S pageSize kind).exec w = (r, w')) :
    w'.scopes = w.scopes + 1 ∧ ∀ P : String → List Line → Prop,
      (∀ lines, Drop.Ended kind (max pageSize 1) (idOf w.scopes) r lines →
        P (idOf w.scopes) lines) → Balances P [] [] w w' := by
  have hfields : "op_id" ∉ ([("kind", kind), ("page_size", toString (max pageSize 1))] :
      LineFields).map Prod.fst := by simp
  obtain ⟨w₀, henter, hscopes, hopened⟩ := exists_exec_enter DropError Drop.events hfields w
  rw [dropAll, exec_bind_ok (exec_inquire _ _), exec_bind_ok henter] at h
  cases hpages : (Drop.pagesFrom S (max pageSize 1) (S.patience w.store) none
      ⟨kind, 0, 0⟩).exec w₀ with
  | mk out w₁ =>
      have hplain : Plainly w₀ w₁ := (Drop.plainly_pagesFrom S _ _ _ _).of_exec hpages
      cases out with
      | error e =>
          have hcount : Plainly w₁ { w₁ with metrics := w₁.metrics.add .storeFailures (.ofNat 1) } :=
            plainly_count (ε := DropError) .storeFailures 1 w₁
          rw [exec_bind, exec_orElseDo, hpages] at h
          cases h
          refine ⟨hplain.scopes_eq.trans hscopes, ?_⟩
          intro P hP
          refine (hopened P).trans (.trans (.of_plainly (Trans.trans hplain hcount)) ?_)
          exact balances_close hfields (by simp) (hP _ (.failed e))
      | ok done =>
          rw [exec_bind_ok (exec_orElseDo_ok hpages)] at h
          cases h
          refine ⟨hplain.scopes_eq.trans hscopes, ?_⟩
          intro P hP
          refine (hopened P).trans (.trans (.of_plainly hplain) ?_)
          exact balances_close hfields (by simp) (hP _ (.completed done _))

/-! ## Operations -/

/-- Whatever scopes the action opens, it closes. -/
abbrev Closes (S : Store σ) {ε α : Type} (x : Action σ ε α) : Prop :=
  Moves (Balances (Closed S) [] []) x

theorem closes_execute (S : Store σ) (queries : List Query) : Closes S (execute S queries) := by
  intro w
  refine (exec_execute_scopes (Prod.mk.eta).symm).2 _ ?_
  intro lines hlines hfound
  exact .fanOut hlines hfound

theorem closes_findConflicts (S : Store σ) (C : Compiler) (records : List Record) :
    Closes S (findConflicts S C records) :=
  fun _ => (exec_findConflicts_scopes (Prod.mk.eta).symm).1

theorem closes_dropAll (S : Store σ) (pageSize : Nat) (kind : String) :
    Closes S (dropAll S pageSize kind) := by
  intro w
  refine (exec_dropAll_scopes (Prod.mk.eta).symm).2 _ ?_
  intro lines hlines
  exact .drop hlines

namespace Engine

variable {E : Engine σ}

theorem closes_run (E : Engine σ) (M : Model) (criteria : Criteria) :
    Closes E.store (E.run M criteria) := by
  refine ((moves_inquire _).bind fun _ => moves_pure _).bind ?_
  intro compiler
  refine (moves_ofExcept _ _).bind ?_
  intro queries
  have hexecute : Closes E.store ((execute E.store queries).adapt Failure.execution) :=
    (closes_execute E.store queries).adapt _
  cases hlog : E.config.logQueries with
  | false => exact hexecute
  | true =>
      simp only [if_true]
      have hlogged : Moves Plainly (queries.forM fun q =>
          Action.report .trace .queryCompiled [("kind", M.kind), ("query", q.toJson.text)] :
          Action σ Failure Unit) := moves_forM fun q _ => plainly_report ⟨rfl, by simp⟩
      exact hlogged.balances.bind fun _ => hexecute

theorem closes_conflicts (E : Engine σ) (M : Model) (records : List Record) :
    Closes E.store (E.conflicts M records) :=
  ((moves_inquire _).bind fun _ => moves_pure _).bind fun compiler =>
    (closes_findConflicts E.store compiler records).adapt _

theorem plainly_write {α : Type} (f : σ → Except StoreError α × σ) : Moves Plainly (write f) :=
  ((plainly_attempt f).adapt _).orElseDo fun _ => plainly_count _ 1

theorem closes_reading {α : Type} (E : Engine σ) (kind : String) (criteria : Model → Criteria)
    (result : Model → ResultSet → α) : Closes E.store (E.reading kind criteria result) :=
  (moves_ofExcept _ _).bind fun M => (closes_run E M (criteria M)).bind fun _ => moves_pure _

theorem closes_matched (E : Engine σ) (M : Model) (criteria : Criteria) :
    Closes E.store (E.matched M criteria) :=
  (closes_run E M _).bind fun _ => moves_pure _

theorem closes_enforceUniqueness (E : Engine σ) (M : Model) (records : List Record) :
    Closes E.store (E.enforceUniqueness M records) :=
  (closes_conflicts E M records).bind fun _ => moves_ofExcept _ _

theorem closes_create (E : Engine σ) (kind : String) (records : List Record) :
    Closes E.store (E.create kind records) := by
  refine (moves_ofExcept _ _).bind fun M => (closes_enforceUniqueness E M records).bind ?_
  intro _
  refine (moves_inquire _).bind fun space => (moves_ofExcept _ _).bind ?_
  intro es
  refine (plainly_write _).balances.bind ?_
  intro ks
  exact (plainly_report ⟨rfl, by simp⟩).balances.bind fun _ => moves_pure _

theorem closes_update (E : Engine σ) (kind : String) (criteria : Criteria) (values : Record) :
    Closes E.store (E.update kind criteria values) := by
  refine (moves_ofExcept _ _).bind ?_
  intro M
  split
  · exact moves_throw _
  · refine (closes_matched E M criteria).bind ?_
    intro es
    split
    · exact moves_pure _
    · refine (closes_conflicts E M _).bind fun found => (moves_ofExcept _ _).bind ?_
      intro _
      refine (plainly_write _).balances.bind ?_
      intro _
      exact (plainly_report ⟨rfl, by simp⟩).balances.bind fun _ => moves_pure _

theorem closes_destroy (E : Engine σ) (kind : String) (criteria : Criteria) :
    Closes E.store (E.destroy kind criteria) := by
  refine (moves_ofExcept _ _).bind fun M => (closes_matched E M criteria).bind ?_
  intro es
  split
  · exact moves_pure _
  · refine (plainly_write _).balances.bind ?_
    intro _
    exact (plainly_report ⟨rfl, by simp⟩).balances.bind fun _ => moves_pure _

theorem closes_serve (E : Engine σ) (kind : String) (call : Call) :
    Closes E.store (E.serve kind call) := by
  cases call with
  | find criteria => exact (closes_reading E kind _ _).bind fun _ => moves_pure _
  | count criteria => exact (closes_reading E kind _ _).bind fun _ => moves_pure _
  | create records => exact (closes_create E kind records).bind fun _ => moves_pure _
  | update criteria values => exact (closes_update E kind criteria values).bind fun _ => moves_pure _
  | destroy criteria => exact (closes_destroy E kind criteria).bind fun _ => moves_pure _

theorem closes_handle (E : Engine σ) (kind : String) (request : Request) :
    Closes E.store (E.handle kind request) := by
  cases request with
  | call call => exact (closes_serve E kind call).bind fun _ => moves_pure _
  | check records =>
      exact (moves_ofExcept _ _).bind fun M => (closes_conflicts E M records).bind fun _ =>
        moves_pure _
  | drop => exact ((closes_dropAll E.store _ kind).adapt _).bind fun _ => moves_pure _

theorem balances_handleAll (E : Engine σ) (requests : List (String × Request)) (w : Session σ) :
    Balances (Closed E.store) [] [] w (E.handleAll requests w).2 := by
  induction requests generalizing w with
  | nil => exact .refl _ _ w
  | cons request requests ih =>
      obtain ⟨kind, request⟩ := request
      exact (closes_handle E kind request w).trans (ih _)

/-- **One outcome each.** Whatever is asked of an engine, and whatever its store answers, every scope
that is opened is closed once: a fan-out says that it begins and then how it comes out, and a drop
how it comes out. Looking up attributes is no exception, in whatever order the look-ups run, and
wherever they are stopped. A fan-out that completes reports the counts of the result set that it
returns, and so does each look-up of a check that succeeds. A drop that completes reports its
summary. -/
theorem each_scope_told (E : Engine σ) (w : Session σ) :
    (∀ requests, Told (Closed E.store) w (E.handleAll requests w).2) ∧
    (∀ M records, Told (Closed E.store) w ((E.enforceUniqueness M records).exec w).2) ∧
    (∀ C records schedule,
      Told (Closed E.store) w ((lookUpAlong E.store C records schedule).exec w).2) ∧
    (∀ C records, let out := (findConflicts E.store C records).exec w
      Told (Closed E.store) w out.2 ∧ ∀ found, out.1 = .ok found →
        ∃ parts, found = parts.flatten ∧
          List.Forall₂ (Probe.Reported E.store C.model records w out.2) C.model.unique parts) ∧
    (∀ queries, let out := (execute E.store queries).exec w
      out.2.scopes = w.scopes + 1 ∧ Told (fun id => FanOut.Ended queries id out.1) w out.2) ∧
    ∀ pageSize kind, let out := (dropAll E.store pageSize kind).exec w
      out.2.scopes = w.scopes + 1 ∧
        Told (fun id => Drop.Ended kind (max pageSize 1) id out.1) w out.2 := by
  refine ⟨?_, ?_, ?_, ?_, ?_, ?_⟩
  · intro requests
    exact (balances_handleAll E requests w).told
  · intro M records
    exact (closes_enforceUniqueness E M records w).told
  · intro C records schedule
    exact (balances_lookUpAlong E.store C records schedule w).told
  · intro C records out
    obtain ⟨hbalances, hreported⟩ := exec_findConflicts_scopes (Prod.mk.eta (p := out)).symm
    exact ⟨hbalances.told, hreported⟩
  · intro queries out
    obtain ⟨hscopes, hbalances⟩ := exec_execute_scopes (Prod.mk.eta (p := out)).symm
    exact ⟨hscopes, (hbalances _ fun lines hlines _ => hlines).told⟩
  · intro pageSize kind out
    obtain ⟨hscopes, hbalances⟩ := exec_dropAll_scopes (Prod.mk.eta (p := out)).symm
    exact ⟨hscopes, (hbalances _ fun lines hlines => hlines).told⟩

/-! ## Siblings -/

/-- The model of members, whose emails and phones are to be unique. -/
def members : Model := ⟨"Member", "id", "id", [⟨"email", "email"⟩, ⟨"phone", "phone"⟩]⟩

/-- Looks for conflicts of one member while so many queries fail. -/
def checkMember (failures : Nat) :
    Session Memory × Except CheckError (List Conflict) × Session Memory :=
  let w : Session Memory := .start { Memory.empty none 10 with faults := ⟨failures, 0, 0⟩ }
  (w, (findConflicts Memory.store ⟨none, members, Query.maxLimit⟩
    [.ofColumns [("email", .string "a@x"), ("phone", .string "1")]]).exec w)

/-- The look-up of emails fails, and that of phones is given up. With no failure both complete. -/
theorem each_scope_told_siblings :
    (((checkMember 1).2.2.journal.map fun l => (l.event, l.severity)) =
        [(.uniqueCheck, .info), (.fanOutBegin, .info), (.uniqueCheck, .info), (.fanOutBegin, .info),
          (.fanOutFailed, .error), (.fanOutFailed, .warn)] ∧
      Told (Closed Memory.store) (checkMember 1).1 (checkMember 1).2.2) ∧
    (checkMember 0).2.1 = .ok [] ∧
      ∃ parts, [] = parts.flatten ∧ List.Forall₂ (Probe.Reported Memory.store members
        [.ofColumns [("email", .string "a@x"), ("phone", .string "1")]] (checkMember 0).1
        (checkMember 0).2.2) members.unique parts := by
  have hcheck : (checkMember 0).2.1 = .ok [] := by decide +kernel
  have hchecks : ∀ failures, _ := fun failures =>
    (each_scope_told ⟨Memory.store, .default, ⟨[members]⟩⟩ (checkMember failures).1).2.2.2.1
      ⟨none, members, Query.maxLimit⟩
      [.ofColumns [("email", .string "a@x"), ("phone", .string "1")]]
  exact ⟨⟨by decide +kernel, (hchecks 1).1⟩, hcheck, (hchecks 0).2 [] hcheck⟩

end Engine

end Quarry
