import Quarry.Proofs.Engine.Schedules
import Quarry.Proofs.Engine.FanOut
import Quarry.Proofs.Engine.TaskInvariants
import Quarry.Proofs.Journal.Scopes

/-!
# What fan-outs say of themselves

A fan-out says when it begins and, once, how it came out: with the counts of what it returns, with
its failure, or that it was given up. It is so wherever it stops, and for every fan-out of a group
of look-ups.
-/

namespace Quarry

open Quarry.Action

variable {σ ε : Type} {S : Store σ}

namespace FanOut

/-! ## Outcomes -/

/-- The kind that queries name. -/
def kindOf (queries : List Query) : String := (queries.head?.map Query.kind).getD ""

/-- A line of the fan-out of these queries. -/
def line (queries : List Query) (id : String) (severity : Severity) (event : Event)
    (more : LineFields) : Line :=
  ⟨severity, event, ("kind", kindOf queries) :: ("queries", toString queries.length) ::
    ("op_id", id) :: more⟩

/-- The line with which a fan-out completes. -/
def completion (queries : List Query) (id : String) (r : ResultSet) (elapsed : String) : Line :=
  line queries id .info .fanOutComplete [("entities", toString r.entities.length),
    ("batches", toString r.batchesRun), ("elapsed_ms", elapsed)]

/-- All lines of a fan-out that ended like this. -/
inductive Ended (queries : List Query) (id : String) :
    Except ExecutionError ResultSet → List Line → Prop
  | completed (r : ResultSet) (elapsed : String) : Ended queries id (.ok r)
      [line queries id .info .fanOutBegin [], completion queries id r elapsed]
  | failed (e : ExecutionError) : Ended queries id (.error e)
      [line queries id .info .fanOutBegin [],
        line queries id .error .fanOutFailed [("reason", e.source.message)]]

/-- All lines of a fan-out that was given up. -/
def abandoned (queries : List Query) (id : String) : List Line :=
  [line queries id .info .fanOutBegin [],
    line queries id .warn .fanOutFailed [("reason", "scope dropped without completion")]]

/-- A fan-out of these queries that was opened and has gone on without failure. -/
inductive Reached (S : Store σ) (queries : List Query) : FanOut → Prop
  | entered {ε : Type} {f : FanOut} {w w' : Session σ}
      (h : (enter queries : Action σ ε FanOut).exec w = (.ok f, w')) : Reached S queries f
  | advanced {f f' : FanOut} {w w' : Session σ} (hf : Reached S queries f)
      (h : (f.advance S).exec w = (.ok f', w')) : Reached S queries f'
  | completed {f f' : FanOut} {w w' : Session σ} {patience : Nat} (hf : Reached S queries f)
      (h : (f.complete S patience).exec w = (.ok f', w')) : Reached S queries f'

/-! ## Scopes of fan-outs -/

variable {queries : List Query} {f f' : FanOut} {w w' : Session σ} {P : String → List Line → Prop}

/-- The scope is that of a fan-out of these queries. -/
structure Observes (queries : List Query) (f : FanOut) : Prop where
  events : f.scope.events = FanOut.events
  fields : f.scope.fields = [("kind", kindOf queries), ("queries", toString queries.length)]

namespace Observes

theorem events_complete (h : Observes queries f) : f.scope.events.complete = .fanOutComplete := by
  rw [h.events]
  rfl

theorem line_eq (h : Observes queries f) (severity : Severity) (event : Event)
    (more : LineFields) :
    f.scope.line severity event more = line queries f.scope.id severity event more := by
  rw [Scope.line, h.fields]
  rfl

theorem opening_eq (h : Observes queries f) :
    f.scope.opening = [line queries f.scope.id .info .fanOutBegin []] := by
  rw [Scope.opening, h.events, ← h.line_eq]
  rfl

theorem not_mem_fields (h : Observes queries f) : "op_id" ∉ f.scope.fields.map Prod.fst := by
  rw [h.fields]
  simp

/-- The scope of a fan-out is closed with a last line. -/
theorem balances_close (h : Observes queries f) {severity : Severity} {event : Event}
    {more : LineFields} (hmore : "op_id" ∉ more.map Prod.fst)
    (hclosed : P f.scope.id [line queries f.scope.id .info .fanOutBegin [],
      line queries f.scope.id severity event more]) :
    Balances P [f.scope] [] w
      { w with journal := w.journal ++ [f.scope.line severity event more] } := by
  refine Scope.balances_close h.not_mem_fields hmore ?_
  rw [h.opening_eq, h.line_eq]
  exact hclosed

end Observes

/-- The scope of the fan-out is that of the next number. -/
theorem exists_exec_enter (ε : Type) (queries : List Query) (w : Session σ) :
    ∃ f w', (enter queries : Action σ ε FanOut).exec w = (.ok f, w') ∧ Observes queries f ∧
      f.scope.id = Scope.idOf w.scopes ∧ w'.scopes = w.scopes + 1 ∧
      ∀ P, Balances P [] [f.scope] w w' := by
  refine ⟨_, _, rfl, ⟨rfl, rfl⟩, rfl, rfl, ?_⟩
  intro P
  refine .enter rfl ?_ rfl rfl
  simp

/-! ## Turns -/

theorem plainly_run (S : Store σ) (place : Nat) (p : Pull) :
    Moves Plainly ((Pull.work S).run place p) := by
  refine Moves.adapt ?_ _
  cases p with
  | fresh q => exact (plainly_onStore _).bind fun _ => moves_pure _
  | asked d t =>
      refine (plainly_attempt _).bind ?_
      intro page
      cases hnext : (d.add page).next? page with
      | none =>
          simp only [hnext]
          exact moves_pure _
      | some cursor =>
          simp only [hnext]
          refine (plainly_report ?_).bind fun _ => (plainly_onStore _).bind fun _ => moves_pure _
          exact ⟨rfl, by simp⟩

theorem plainly_advance (g : TaskGroup Pull Drain (Nat × StoreError)) :
    Moves Plainly (g.advance (Pull.work S)) :=
  TaskGroup.moves_advance (plainly_run S) (fun _ w => ⟨w, rfl, Std.Refl.refl w⟩) g

theorem plainly_complete (patience : Nat) (g : TaskGroup Pull Drain (Nat × StoreError)) :
    Moves Plainly (g.complete (Pull.work S) (fun place => (place, Store.endless)) patience) :=
  TaskGroup.moves_complete (plainly_run S) (fun _ w => ⟨w, rfl, Std.Refl.refl w⟩) _ patience g

/-- A fan-out that goes on keeps its scope. If it fails, the scope is closed. -/
theorem exec_onward {y : Action σ (Nat × StoreError) (TaskGroup Pull Drain (Nat × StoreError))}
    (hy : Moves Plainly y) {r : Except ExecutionError FanOut}
    (h : (do let group ← f.through y; return { f with group }).exec w = (r, w')) :
    match r with
    | .ok f' => f'.scope = f.scope ∧ y.exec w = (.ok f'.group, w') ∧ Plainly w w'
    | .error e => w'.scopes = w.scopes ∧ ∀ P queries, Observes queries f →
        (∀ lines, Ended queries f.scope.id (.error e) lines → P f.scope.id lines) →
          Balances P [f.scope] [] w w' := by
  cases hexec : y.exec w with
  | mk out w₁ =>
      have hplain : Plainly w w₁ := hy.of_exec hexec
      cases out with
      | ok group =>
          rw [exec_bind_ok (exec_through hexec)] at h
          cases h
          exact ⟨rfl, rfl, hplain⟩
      | error e =>
          have hthrough : (f.through y).exec w = (.error ⟨f.kind, e.1, f.group.outcomes.length, e.2⟩,
              { w₁ with
                metrics := w₁.metrics.add .storeFailures (.ofNat 1)
                journal := w₁.journal ++
                  [f.scope.line .error f.scope.events.failed [("reason", e.2.message)]] }) := by
            rw [through, exec_bind_ok (exec_outcome _ _), hexec]
            rfl
          rw [exec_bind_error hthrough] at h
          cases h
          refine ⟨hplain.scopes_eq, ?_⟩
          intro P queries hf hclosed
          have hcount : Plainly w { w₁ with metrics := w₁.metrics.add .storeFailures (.ofNat 1) } :=
            Trans.trans hplain (plainly_count (ε := ExecutionError) .storeFailures 1 w₁)
          refine (Balances.of_plainly hcount).trans (hf.balances_close ?_ ?_)
          · simp
          · rw [hf.events]
            exact hclosed _ (.failed _)

theorem Reached.observes (h : Reached S queries f) : Observes queries f := by
  have hsame : ∀ {f f' : FanOut}, Observes queries f → f'.scope = f.scope → Observes queries f' := by
    intro f f' hf heq
    exact ⟨heq ▸ hf.events, heq ▸ hf.fields⟩
  induction h with
  | entered h =>
      obtain ⟨f, w', hexec, hf, _⟩ := exists_exec_enter _ queries _
      rw [hexec] at h
      cases h
      exact hf
  | advanced _ h ih => exact hsame ih (exec_onward (plainly_advance _) h).1
  | completed _ h ih => exact hsame ih (exec_onward (plainly_complete _ _) h).1

/-! ## The end -/

/-- A fan-out is finished with its completion, behind a line on placeholders if there are any. -/
theorem exists_exec_finish (ε : Type) (hf : Observes queries f) (w : Session σ) :
    ∃ w₁ elapsed, Plainly w w₁ ∧ (f.finish : Action σ ε ResultSet).exec w = (.ok f.results,
      { w₁ with journal := w₁.journal ++ [completion queries f.scope.id f.results elapsed] }) := by
  have hexec : ∀ w₁ : Session σ, ((do
      f.scope.complete [
        ("entities", toString f.results.entities.length),
        ("batches", toString f.results.batchesRun)]
      return f.results : Action σ ε ResultSet)).exec w₁ = (.ok f.results, { w₁ with
        journal := w₁.journal ++ [completion queries f.scope.id f.results
          (toString (w₁.clock - f.scope.since))] }) := by
    intro w₁
    rw [completion, ← hf.line_eq, ← hf.events_complete]
    rfl
  by_cases hsome : 0 < f.results.placeholdersFiltered
  · refine ⟨{ w with
        journal := w.journal ++ [⟨.info, .placeholderFiltered, [
          ("kind", f.kind), ("count", toString f.results.placeholdersFiltered)]⟩]
        metrics := (w.metrics.add .placeholdersFiltered (.ofNat f.results.placeholdersFiltered)).add
          .entitiesReturned (.ofNat f.results.entities.length) },
      toString (w.clock - f.scope.since),
      ⟨_, rfl, List.forall_mem_singleton.2 ⟨rfl, by simp⟩, rfl⟩, ?_⟩
    simp only [finish, if_pos hsome]
    exact hexec _
  · refine ⟨_, toString (w.clock - f.scope.since),
      plainly_count (ε := ε) .entitiesReturned f.results.entities.length w, ?_⟩
    simp only [finish, if_neg hsome]
    exact hexec _

theorem Observes.balances_completion (hf : Observes queries f) {elapsed : String}
    (hclosed : P f.scope.id [line queries f.scope.id .info .fanOutBegin [],
      completion queries f.scope.id f.results elapsed]) :
    Balances P [f.scope] [] w
      { w with journal := w.journal ++ [completion queries f.scope.id f.results elapsed] } := by
  rw [completion, ← hf.line_eq]
  exact hf.balances_close (by simp) hclosed

/-! ## Whole fan-outs -/

/-- What a fan-out of these queries under this id returns when it has come to its end. -/
inductive Yields (S : Store σ) (queries : List Query) (id : String) : ResultSet → Prop
  | intro {f : FanOut} (hf : Reached S queries f) (hdone : f.isDone = true)
      (hid : f.scope.id = id) : Yields S queries id f.results

theorem isDone_of_complete {patience : Nat}
    (h : (f.complete S patience).exec w = (.ok f', w')) : f'.isDone = true := by
  obtain ⟨-, hexec, -⟩ := exec_onward (plainly_complete _ _) h
  have hends := TaskGroup.upholds_complete (g := f.group)
    (TaskGroup.maintains_of_moves (plainly_run S) (fun _ w => ⟨w, rfl, Std.Refl.refl w⟩) w)
    (fun place => (place, Store.endless)) patience (Std.Refl.refl w)
  rw [hexec] at hends
  exact List.isEmpty_iff.2 hends.1

end FanOut

open FanOut in
/-- **One fan-out.** Running queries opens one scope, which says how the run ended. -/
theorem exec_execute_scopes {queries : List Query} {w w' : Session σ}
    {r : Except ExecutionError ResultSet} (h : (execute S queries).exec w = (r, w')) :
    w'.scopes = w.scopes + 1 ∧ ∀ P : String → List Line → Prop,
      (∀ lines, Ended queries (Scope.idOf w.scopes) r lines →
        (∀ found, r = .ok found → Yields S queries (Scope.idOf w.scopes) found) →
          P (Scope.idOf w.scopes) lines) → Balances P [] [] w w' := by
  obtain ⟨f, w₀, henter, hf, hid, hscopes, hopened⟩ := exists_exec_enter ExecutionError queries w
  rw [execute, exec_bind_ok (exec_inquire _ _), exec_bind_ok henter] at h
  cases hcomplete : (f.complete S (turns (S.patience w.store) queries.length)).exec w₀ with
  | mk out w₁ =>
      have honward := exec_onward (plainly_complete _ _) hcomplete
      cases out with
      | error e =>
          rw [exec_bind_error hcomplete] at h
          cases h
          obtain ⟨hsame, hclose⟩ := honward
          refine ⟨hsame.trans hscopes, ?_⟩
          intro P hP
          rw [← hid] at hP
          refine (hopened P).trans (hclose P queries hf ?_)
          intro lines hlines
          refine hP lines hlines ?_
          rintro _ ⟨⟩
      | ok f' =>
          obtain ⟨hscope, -, hplain⟩ := honward
          have hreached : Reached S queries f' := .completed (.entered henter) hcomplete
          obtain ⟨w₂, elapsed, hplain', hfinish⟩ :=
            exists_exec_finish ExecutionError hreached.observes w₁
          rw [exec_bind_ok hcomplete, hfinish] at h
          cases h
          refine ⟨hplain'.scopes_eq.trans (hplain.scopes_eq.trans hscopes), ?_⟩
          intro P hP
          rw [← hid, ← hscope] at hP
          have hclosed := hP _ (.completed f'.results elapsed) <| by
            rintro _ ⟨⟩
            exact .intro hreached (isDone_of_complete hcomplete) rfl
          refine (hopened P).trans (.trans (.of_plainly hplain) (.trans (.of_plainly hplain') ?_))
          rw [← hscope]
          exact hreached.observes.balances_completion hclosed

end Quarry
