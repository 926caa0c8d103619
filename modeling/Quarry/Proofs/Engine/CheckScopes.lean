import Quarry.Engine.Drop
import Quarry.Engine.Uniqueness
import Quarry.Proofs.Engine.FanOutScopes

/-!
# What look-ups say of themselves

The look-ups of a check are open side by side, and each says how it came out: with what was found,
with its failure, or that it was given up because another one failed. What a check returns are the
conflicts of the result sets that its look-ups report.
-/

namespace Quarry

open Quarry.Action

variable {σ ε : Type} {S : Store σ}

namespace Drop

/-- A line of the drop of a kind. -/
def line (kind : String) (pageSize : Nat) (id : String) (severity : Severity) (event : Event)
    (more : LineFields) : Line :=
  ⟨severity, event, ("kind", kind) :: ("page_size", toString pageSize) :: ("op_id", id) :: more⟩

/-- All lines of a drop that ended like this. -/
inductive Ended (kind : String) (pageSize : Nat) (id : String) :
    Except DropError DropSummary → List Line → Prop
  | completed (done : DropSummary) (elapsed : String) : Ended kind pageSize id (.ok done)
      [line kind pageSize id .info .dropComplete [("pages", toString done.pages),
        ("deleted", toString done.deleted), ("elapsed_ms", elapsed)]]
  | failed (e : DropError) : Ended kind pageSize id (.error e)
      [line kind pageSize id .error .dropFailed [("reason", e.message)]]

end Drop

/-- All lines of a scope that is closed. It is that of a fan-out or of a drop. -/
inductive Scope.Closed (S : Store σ) (id : String) : List Line → Prop
  | fanOut {queries : List Query} {r : Except ExecutionError ResultSet} {lines : List Line}
      (h : FanOut.Ended queries id r lines)
      (hr : ∀ found, r = .ok found → FanOut.Yields S queries id found) : Closed S id lines
  | abandoned (queries : List Query) : Closed S id (FanOut.abandoned queries id)
  | drop {kind : String} {pageSize : Nat} {r : Except DropError DropSummary} {lines : List Line}
      (h : Drop.Ended kind pageSize id r lines) : Closed S id lines

namespace Probe

/-- The scopes that a look-up has open. -/
def scopes : Probe → List Scope
  | fresh _ => []
  | running _ f => [f.scope]

/-- The attribute that is looked up. -/
def unique : Probe → UniqueAttribute
  | fresh a => a
  | running a _ => a

/-- The fan-out of a look-up under way was opened and has gone on without failure. -/
def Sound (S : Store σ) : Probe → Prop
  | fresh _ => True
  | running _ f => ∃ queries, f.Reached S queries

/-- The conflicts of an attribute are those of a result set that was reported between two sessions,
or there are none because nothing is proposed. -/
def Reported (S : Store σ) (m : Model) (records : List Record) (w w' : Session σ)
    (a : UniqueAttribute) (found : List Conflict) : Prop :=
  proposed records a.column = [] ∧ found = [] ∨
    ∃ queries id r elapsed, FanOut.Yields S queries id r ∧ found = conflicts m a r ∧
      Wrote w w' (FanOut.completion queries id r elapsed)

variable {m : Model} {C : Compiler} {records : List Record} {a : UniqueAttribute}
  {w w₁ w' : Session σ}

theorem Reported.mono {w₂ : Session σ} {found : List Conflict}
    (h : Reported S m records w₁ w₂ a found) (hbefore : w.journal <+: w₁.journal)
    (hafter : w₂.journal <+: w'.journal) : Reported S m records w w' a found := by
  rcases h with hnone | ⟨queries, id, r, elapsed, hr, hfound, hreport⟩
  · exact .inl hnone
  · exact .inr ⟨queries, id, r, elapsed, hr, hfound, hreport.mono hbefore hafter⟩

/-! ## One run of a look-up -/

/-- Where a run leaves the look-up of an attribute that had these scopes open. -/
def Turns (S : Store σ) (m : Model) (records : List Record) (a : UniqueAttribute)
    (opened : List Scope) (w : Session σ) :
    Except ε (Progress Probe (List Conflict)) × Session σ → Prop
  | (.ok (.suspended p), w') =>
    p.unique = a ∧ p.Sound S ∧ Balances (Scope.Closed S) opened p.scopes w w'
  | (.ok (.ended found), w') =>
    Reported S m records w w' a found ∧ Balances (Scope.Closed S) opened [] w w'
  | (.error _, w') => Balances (Scope.Closed S) opened [] w w'

theorem Turns.after {opened opened₁ : List Scope}
    {out : Except ε (Progress Probe (List Conflict)) × Session σ}
    (h : Turns S m records a opened₁ w₁ out)
    (hfirst : Balances (Scope.Closed S) opened opened₁ w w₁) :
    Turns S m records a opened w out := by
  rcases out with ⟨e | p | found, w'⟩
  · exact hfirst.trans h
  · exact ⟨h.1, h.2.1, hfirst.trans h.2.2⟩
  · exact ⟨h.1.mono hfirst.grown List.prefix_rfl, hfirst.trans h.2⟩

theorem turns_settle {queries : List Query} {f : FanOut} (hf : f.Reached S queries)
    (records : List Record) (w : Session σ) :
    Turns S m records a [f.scope] w
      ((settle m a f : Action σ ε (Progress Probe (List Conflict))).exec w) := by
  unfold settle
  split
  · rename_i hdone
    obtain ⟨w₁, elapsed, hplain, hfinish⟩ := FanOut.exists_exec_finish ε hf.observes w
    rw [exec_bind_ok hfinish]
    have hyields : FanOut.Yields S queries f.scope.id f.results := .intro hf hdone rfl
    have hgrown : w.journal <+: w₁.journal := hplain.elim fun more hmore => ⟨more, hmore.1.symm⟩
    refine ⟨.inr ⟨queries, f.scope.id, f.results, elapsed, hyields, rfl,
      .mono ?_ hgrown List.prefix_rfl⟩,
      .trans (.of_plainly hplain) (hf.observes.balances_completion ?_)⟩
    · exact ⟨_, rfl, List.mem_singleton_self _⟩
    refine .fanOut (.completed _ elapsed) ?_
    rintro _ ⟨⟩
    exact hyields
  · exact ⟨rfl, ⟨queries, hf⟩, .refl _ _ w⟩

/-- One turn of a fan-out under way. -/
theorem turns_advance {queries : List Query} {f : FanOut} (hf : f.Reached S queries)
    (m : Model) (a : UniqueAttribute) (records : List Record) (w : Session σ) :
    Turns S m records a [f.scope] w ((do
      let f ← (f.advance S).adapt CheckError.execution
      settle m a f : Action σ CheckError _).exec w) := by
  have hadapt := exec_adapt (f.advance S) CheckError.execution w
  cases hexec : (f.advance S).exec w with
  | mk r w₁ =>
      have honward := FanOut.exec_onward (FanOut.plainly_advance _) hexec
      rw [hexec] at hadapt
      cases r with
      | error e =>
          rw [exec_bind_error hadapt]
          refine honward.2 _ queries hf.observes ?_
          intro lines hlines
          refine .fanOut hlines ?_
          rintro _ ⟨⟩
      | ok f' =>
          rw [exec_bind_ok hadapt]
          refine (turns_settle (.advanced hf hexec) records w₁).after ?_
          rw [honward.1]
          exact .of_plainly honward.2.2

/-- A look-up that is started opens a fan-out, unless its criteria are refused. -/
theorem exec_enter_cases (S : Store σ) (C : Compiler) (a : UniqueAttribute)
    (values : List Json.Value) (w : Session σ) :
    (∃ e w', (enter C a values : Action σ CheckError FanOut).exec w = (.error e, w') ∧
      Plainly w w') ∨
    ∃ queries f w', (enter C a values : Action σ CheckError FanOut).exec w = (.ok f, w') ∧
      f.Reached S queries ∧ ∀ P, Balances P [] [f.scope] w w' := by
  have hplain : Moves Plainly (do
      Action.count .uniqueChecks 1
      Action.report .info .uniqueCheck [
        ("kind", C.model.kind),
        ("attribute", a.name),
        ("values", toString values.length)] : Action σ CheckError Unit) :=
    (plainly_count _ _).bind fun _ => plainly_report ⟨rfl, by simp⟩
  have hfirst := hplain w
  rw [exec_bind_ok (exec_count _ _ _), exec_report] at hfirst
  rw [enter, exec_bind_ok (exec_count _ _ _), exec_bind_ok (exec_report _ _ _ _)]
  cases hqueries : C.queries (criteria a.column values) with
  | error e => exact .inl ⟨_, _, exec_bind_error (exec_ofExcept _ _ _), hfirst⟩
  | ok queries =>
      obtain ⟨f, w', hexec, -, -, -, hopened⟩ :=
        FanOut.exists_exec_enter CheckError queries { w with
          metrics := w.metrics.add .uniqueChecks (.ofNat 1)
          journal := w.journal ++ [⟨.info, .uniqueCheck, [
            ("kind", C.model.kind),
            ("attribute", a.name),
            ("values", toString values.length)]⟩] }
      refine .inr ⟨queries, f, w', (exec_bind_ok (exec_ofExcept _ _ _)).trans hexec,
        .entered hexec, ?_⟩
      intro P
      exact (Balances.of_plainly hfirst).trans (hopened P)

theorem turns_run {p : Probe} (hp : p.Sound S) {place : Nat}
    {out : Except CheckError (Progress Probe (List Conflict)) × Session σ}
    (hexec : ((work S C records).run place p).exec w = out) :
    Turns S C.model records p.unique p.scopes w out := by
  rw [← hexec]
  show Turns S C.model records p.unique p.scopes w ((p.advance S C records).exec w)
  cases p with
  | running a f =>
      obtain ⟨queries, hf⟩ := hp
      exact turns_advance hf C.model a records w
  | fresh a =>
      rw [advance]
      cases hvalues : proposed records a.column with
      | nil => exact ⟨.inl ⟨hvalues, rfl⟩, .refl _ _ w⟩
      | cons v values =>
          simp only
          rcases exec_enter_cases S C a (v :: values) w with
            ⟨e, w₁, henter, hplain⟩ | ⟨queries, f, w₁, henter, hf, hopened⟩
          · rw [exec_bind_error henter]
            exact .of_plainly hplain
          · rw [exec_bind_ok henter]
            exact (turns_advance hf C.model a records w₁).after (hopened _)

/-- A look-up that is given up closes what it has open. -/
theorem exists_exec_abandon {p : Probe} (hp : p.Sound S) (w : Session σ) :
    ∃ w', (p.abandon : Action σ ε Unit).exec w = (.ok (), w') ∧
      Balances (Scope.Closed S) p.scopes [] w w' := by
  cases p with
  | fresh a => exact ⟨w, rfl, .refl _ _ w⟩
  | running a f =>
      obtain ⟨queries, hf⟩ := hp
      refine ⟨_, rfl, hf.observes.balances_close (by simp) ?_⟩
      rw [hf.observes.events]
      exact .abandoned queries

/-! ## All look-ups -/

/-- How look-ups stand that were started with the session `w₀`. -/
structure Standing (S : Store σ) (C : Compiler) (records : List Record) (w₀ : Session σ)
    (queue : List (Nat × Probe)) (outcomes : List (Option (Except CheckError (List Conflict))))
    (w : Session σ) : Prop where
  balances : Balances (Scope.Closed S) [] (queue.flatMap fun task => task.2.scopes) w₀ w
  sound : ∀ task ∈ queue, C.model.unique[task.1]? = some task.2.unique ∧ task.2.Sound S
  reported : ∀ (place : Nat) (found : List Conflict),
    outcomes[place]? = some (some (Except.ok found)) → ∃ a,
      C.model.unique[place]? = some a ∧ Reported S C.model records w₀ w a found

namespace Standing

variable {w₀ : Session σ} {place : Nat} {p p' : Probe} {queue : List (Nat × Probe)}
  {outcomes : List (Option (Except CheckError (List Conflict)))}

theorem suspend (h : Standing S C records w₀ ((place, p) :: queue) outcomes w)
    (hsame : p'.unique = p.unique) (hsound : p'.Sound S)
    (hturn : Balances (Scope.Closed S) p.scopes p'.scopes w w') :
    Standing S C records w₀ ((place, p') :: queue) outcomes w' := by
  obtain ⟨⟨hattribute, -⟩, hrest⟩ := List.forall_mem_cons.1 h.sound
  refine ⟨h.balances.trans (hturn.frame _), List.forall_mem_cons.2 ⟨⟨?_, hsound⟩, hrest⟩, ?_⟩
  · rw [hsame]
    exact hattribute
  · intro place' found hfound
    obtain ⟨a, ha, hreported⟩ := h.reported place' found hfound
    exact ⟨a, ha, hreported.mono List.prefix_rfl hturn.grown⟩

/-- A look-up has come to its end, or was given up. -/
theorem close (h : Standing S C records w₀ ((place, p) :: queue) outcomes w)
    (hturn : Balances (Scope.Closed S) p.scopes [] w w') :
    Standing S C records w₀ queue outcomes w' := by
  obtain ⟨-, hrest⟩ := List.forall_mem_cons.1 h.sound
  refine ⟨h.balances.trans (hturn.frame _), hrest, ?_⟩
  intro place' found hfound
  obtain ⟨a, ha, hreported⟩ := h.reported place' found hfound
  exact ⟨a, ha, hreported.mono List.prefix_rfl hturn.grown⟩

theorem settle (h : Standing S C records w₀ queue outcomes w)
    {outcome : Except CheckError (List Conflict)}
    (houtcome : ∀ found, outcome = .ok found →
      ∃ a, C.model.unique[place]? = some a ∧ Reported S C.model records w₀ w a found) :
    Standing S C records w₀ queue (outcomes.set place (some outcome)) w := by
  refine ⟨h.balances, h.sound, ?_⟩
  intro place' found hfound
  rw [List.getElem?_set] at hfound
  split at hfound
  · rename_i heq
    subst heq
    split at hfound
    · exact houtcome found (Option.some.inj (Option.some.inj hfound))
    · cases hfound
  · exact h.reported place' found hfound

end Standing

/-- Look-ups run side by side stand well in whatever order they are run. -/
theorem maintains_standing (S : Store σ) (C : Compiler) (records : List Record)
    (w₀ : Session σ) : (work S C records).Maintains (Standing S C records w₀) where
  perm hperm h :=
    ⟨h.balances.perm (hperm.flatMap_right _), fun task htask => h.sound task (hperm.subset htask),
      h.reported⟩
  suspended h hexec := by
    have hturn := turns_run (h.sound _ List.mem_cons_self).2 hexec
    exact h.suspend hturn.1 hturn.2.1 hturn.2.2
  ended h hexec := by
    obtain ⟨hattribute, hsound⟩ := h.sound _ List.mem_cons_self
    have hturn := turns_run hsound hexec
    refine (h.close hturn.2).settle ?_
    rintro _ ⟨⟩
    exact ⟨_, hattribute, hturn.1.mono h.balances.grown List.prefix_rfl⟩
  failed h hexec := by
    refine (h.close (turns_run (h.sound _ List.mem_cons_self).2 hexec)).settle ?_
    rintro _ ⟨⟩
  left h := by
    obtain ⟨w', hexec, hclosed⟩ := exists_exec_abandon (h.sound _ List.mem_cons_self).2 _
    exact ⟨w', hexec, h.close hclosed⟩

end Probe

theorem Probe.standing_start (S : Store σ) (C : Compiler) (records : List Record)
    (w : Session σ) :
    Standing S C records w (TaskGroup.start (C.model.unique.map fresh) :
      TaskGroup Probe (List Conflict) CheckError).queue
      (TaskGroup.start (C.model.unique.map fresh) :
        TaskGroup Probe (List Conflict) CheckError).outcomes w := by
  have hfresh : ∀ task ∈ (TaskGroup.start (C.model.unique.map fresh) :
      TaskGroup Probe (List Conflict) CheckError).queue,
      ∃ a, C.model.unique[task.1]? = some a ∧ task.2 = fresh a := by
    intro task htask
    have hplace := TaskGroup.getElem?_of_mem_start htask
    rw [List.getElem?_map, Option.map_eq_some_iff] at hplace
    obtain ⟨a, ha, heq⟩ := hplace
    exact ⟨a, ha, heq.symm⟩
  refine ⟨?_, ?_, ?_⟩
  · have hnone : (TaskGroup.start (C.model.unique.map fresh) :
        TaskGroup Probe (List Conflict) CheckError).queue.flatMap (fun task => task.2.scopes) =
          [] := by
      rw [List.flatMap_eq_nil_iff]
      intro task htask
      obtain ⟨a, _, heq⟩ := hfresh task htask
      rw [heq]
      rfl
    rw [hnone]
    exact .refl _ _ w
  · intro task htask
    obtain ⟨a, ha, heq⟩ := hfresh task htask
    rw [heq]
    exact ⟨ha, trivial⟩
  · intro place found hfound
    cases TaskGroup.eq_none_of_mem_start (List.mem_of_getElem? hfound)

/-- A group of look-ups that has come to its end has the reported conflicts of each attribute. -/
theorem Probe.forall₂_reported {C : Compiler} {records : List Record} {w w' : Session σ}
    {patience : Nat} {g : TaskGroup Probe (List Conflict) CheckError}
    (hcomplete : ((TaskGroup.start (C.model.unique.map fresh)).complete (work S C records)
      (endless C.model) patience).exec w = (.ok g, w'))
    (h : Standing S C records w [] g.outcomes w') :
    List.Forall₂ (Reported S C.model records w w') C.model.unique g.results := by
  have hlength : g.results.length = C.model.unique.length := by
    have hkeeps := TaskGroup.keeps_complete_start
      (TaskGroup.sound_trivial (work S C records) (C.model.unique.map fresh).length)
      (endless C.model) patience (fun place t ht => (List.getElem?_eq_some_iff.1 ht).1) w trivial
    rw [hcomplete] at hkeeps
    rw [(hkeeps.2 g rfl).1, List.length_map]
  obtain ⟨rs, rfl⟩ := TaskGroup.ended_of_complete (TaskGroup.fair_start _) hcomplete
  rw [TaskGroup.results_ended] at hlength ⊢
  refine List.forall₂_iff_get.2 ⟨hlength.symm, ?_⟩
  intro place ha hr
  have hfound : (TaskGroup.ended rs : TaskGroup Probe (List Conflict) CheckError).outcomes[place]? =
      some (some (Except.ok rs[place])) := by
    rw [TaskGroup.ended, List.getElem?_map, List.getElem?_eq_getElem hr]
    rfl
  obtain ⟨a, hplace, hreported⟩ := h.reported place _ hfound
  rw [List.getElem?_eq_getElem ha] at hplace
  cases hplace
  exact hreported

/-- What a check says of conflicts has nothing to do with scopes. -/
theorem exists_exec_announce (C : Compiler) (found : List Conflict) (w : Session σ) :
    ∃ w', (do
      unless found.isEmpty do
        Action.count .uniqueViolations 1
        Action.report .warn .uniqueViolation [
          ("kind", C.model.kind),
          ("attributes", String.intercalate "," (Conflict.attributes found)),
          ("conflicts", toString found.length)]
      return found : Action σ CheckError (List Conflict)).exec w = (.ok found, w') ∧
        Plainly w w' := by
  cases found with
  | nil => exact ⟨w, rfl, Std.Refl.refl w⟩
  | cons x found =>
      refine ⟨_, rfl, [_], rfl, List.forall_mem_singleton.2 ⟨rfl, ?_⟩, rfl⟩
      simp

/-- **A check closes what it opens**, and what it returns are the conflicts that its look-ups
reported, attribute by attribute. -/
theorem exec_findConflicts_scopes {C : Compiler} {records : List Record} {w w' : Session σ}
    {r : Except CheckError (List Conflict)} (h : (findConflicts S C records).exec w = (r, w')) :
    Balances (Scope.Closed S) [] [] w w' ∧ ∀ found, r = .ok found →
      ∃ parts, found = parts.flatten ∧
        List.Forall₂ (Probe.Reported S C.model records w w') C.model.unique parts := by
  rw [findConflicts, exec_bind_ok (exec_inquire _ _)] at h
  simp only at h
  have hends := TaskGroup.upholds_complete (Probe.maintains_standing S C records w)
    (Probe.endless C.model) (Probe.turns (S.patience w.store) C.model records)
    (Probe.standing_start S C records w)
  cases hcomplete : ((TaskGroup.start (C.model.unique.map Probe.fresh)).complete
      (Probe.work S C records) (Probe.endless C.model)
      (Probe.turns (S.patience w.store) C.model records)).exec w with
  | mk out w₁ =>
      rw [hcomplete] at hends
      cases out with
      | error e =>
          rw [exec_bind_error hcomplete] at h
          cases h
          obtain ⟨_, -, hstanding⟩ := hends
          refine ⟨hstanding.balances, ?_⟩
          rintro _ ⟨⟩
      | ok g =>
          obtain ⟨w₂, htail, hplain⟩ := exists_exec_announce C g.results.flatten w₁
          rw [exec_bind_ok hcomplete] at h
          obtain ⟨rfl, rfl⟩ := Prod.mk.inj (h.symm.trans htail)
          have hsame : Balances (Scope.Closed S) [] [] w₁ w' := .of_plainly hplain
          obtain ⟨hnone, hstanding⟩ := hends
          rw [hnone] at hstanding
          refine ⟨hstanding.balances.trans hsame, ?_⟩
          rintro _ ⟨⟩
          refine ⟨g.results, rfl, ?_⟩
          exact (Probe.forall₂_reported hcomplete hstanding).imp fun _ _ hr =>
            hr.mono List.prefix_rfl hsame.grown

/-! ## Look-ups in any order -/

/-- Runs the look-ups of a check in any order, and gives up those that are still open. -/
def lookUpAlong (S : Store σ) (C : Compiler) (records : List Record) (schedule : List Nat) :
    Action σ CheckError Unit := do
  let probes : TaskGroup Probe (List Conflict) CheckError := .start (C.model.unique.map .fresh)
  let probes ← probes.follow (Probe.work S C records) schedule
  TaskGroup.leaveAll (Probe.work S C records) probes.queue

/-- Wherever look-ups are stopped, what they opened is closed. -/
theorem balances_lookUpAlong (S : Store σ) (C : Compiler) (records : List Record)
    (schedule : List Nat) :
    Moves (Balances (Scope.Closed S) [] []) (lookUpAlong S C records schedule) := by
  intro w
  have hwork := Probe.maintains_standing S C records w
  obtain ⟨g, w₁, hfollow, hstanding⟩ := TaskGroup.exec_follow_of_polls CheckError
    (P := fun _ g w₁ => Probe.Standing S C records w g.queue g.outcomes w₁)
    (Probe.standing_start S C records w) (fun _ _ _ _ _ _ _ h hpolls => hwork.polls h hpolls)
    schedule
  obtain ⟨w', hleave, hclosed⟩ := TaskGroup.exists_exec_leaveAll hwork hstanding
  rw [lookUpAlong, exec_bind_ok hfollow, hleave]
  exact hclosed.balances

end Quarry
