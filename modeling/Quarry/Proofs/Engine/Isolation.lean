import Quarry.Proofs.Engine.Lookups
import Quarry.Proofs.Engine.Steps
import Quarry.Proofs.Engine.TaskPairs
import Quarry.Proofs.Store.Scope

/-!
# Reading within a kind

Queries of a kind are drained alike on two memories that agree on the kind, and so are fan-outs and
checks for conflicts, whatever else the memories hold and whatever failures are due. What is found
is therefore what is found on a memory that holds nothing else.
-/

namespace Quarry

open Quarry.Action

/-- The memories are two others, up to their logs and to failures that are due on both. -/
def Memory.Beside (m₁ m₂ s₁ s₂ : Memory) : Prop :=
  m₁.Is s₁ ∧ m₂.Is s₂ ∧ s₂.faults = s₁.faults

namespace Memory

variable {kinds : List String} {m m₁ m₂ s s₁ s₂ : Memory}

theorem Is.cap_eq (h : m.Is s) : s.cap = m.cap := by
  show s.bare.cap = m.bare.cap
  rw [h]

theorem Is.get?_eq (h : m.Is s) (k : Key) : s.get? k = m.get? k :=
  congrArg (fun t => t.get? k) (table_of_bare h)

theorem Agrees.of_beside (h : m₁.Agrees kinds m₂) (hs : Beside m₁ m₂ s₁ s₂) :
    s₁.Agrees kinds s₂ := by
  obtain ⟨h₁, h₂, hfaults⟩ := hs
  refine ⟨?_, ?_, ?_, hfaults, ?_⟩
  · rw [space_of_bare h₁, space_of_bare h₂, h.space_eq]
  · rw [h₁.cap_eq, h₂.cap_eq, h.cap_eq]
  · rw [nextId_of_bare h₁, nextId_of_bare h₂, h.nextId_eq]
  · intro k hspace hkind
    rw [space_of_bare h₁] at hspace
    rw [h₁.get?_eq, h₂.get?_eq, h.get?_eq k hspace hkind]

/-- Beside memories in agreement, others are run alike. -/
theorem Agrees.run_beside (h : m₁.Agrees kinds m₂) (hs : Beside m₁ m₂ s₁ s₂) {q : Query}
    (hq : q.IsWithin m₁.space kinds) :
    (s₂.run q).1 = (s₁.run q).1 ∧ Beside m₁ m₂ (s₁.run q).2 (s₂.run q).2 := by
  obtain ⟨hsame, hfaults⟩ := (h.of_beside hs).run_eq (by rwa [space_of_bare hs.1])
  exact ⟨hsame, hs.1.run q, hs.2.1.run q, hfaults⟩

end Memory

namespace Drain

/-- A drain goes on within the kinds of its query. -/
theorem isWithin_queryFrom {space : Option String} {kinds : List String} {d : Drain}
    (h : d.query.IsWithin space kinds) (c : Cursor) : (d.queryFrom c).IsWithin space kinds :=
  ⟨h.space_eq, h.kind_mem, h.lookup_space⟩

end Drain

/-! ## Drains -/

namespace Pull

variable {kinds : List String} {m₁ m₂ : Memory} {q : Query}

theorem alike_redeem (hagrees : m₁.Agrees kinds m₂) (hq : q.IsWithin m₁.space kinds) :
    Alike (Memory.Beside m₁ m₂) (attempt (Memory.store.redeem (.running q)))
      (attempt (Memory.store.redeem (.running q))) fun page => m₁.answer q = .ok page := by
  apply alike_attempt
  intro s t hs
  obtain ⟨hsame, hbeside⟩ := hagrees.run_beside hs hq
  refine ⟨hsame, hbeside, ?_⟩
  intro page hpage
  rw [← hs.1.answer q]
  exact Memory.answer_of_run hpage

theorem alike_ask {R : Memory → Memory → Prop} {ε : Type} (q : Query) :
    Alike R (onStore (Memory.store.ask q) : Action Memory ε Ticket)
      (onStore (Memory.store.ask q)) fun t => t = .running q :=
  alike_onStore fun _ _ hs => ⟨rfl, hs, rfl⟩

theorem leftAlike_work {R : Memory → Memory → Prop} :
    TaskGroup.LeftAlike (work Memory.store) R :=
  fun _ => alike_pure trivial

/-- A drain under way reads a page for each cursor that it follows, and one more. -/
theorem endsAlike_asked (hagrees : m₁.Agrees kinds m₂) (place : Nat) {n : Nat} {d : Drain}
    (hd : d.query.IsWithin m₁.space kinds) (hq : q.IsWithin m₁.space kinds)
    (hends : d.EndsWithin m₁ n q) :
    (work Memory.store).EndsAlike (Memory.Beside m₁ m₂) place (n + 1) (asked d (.running q)) := by
  induction n generalizing d q with
  | zero =>
      refine Alike.adapt ((alike_redeem hagrees hq).bind ?_) _
      intro page hpage
      simp only [hends page hpage]
      exact alike_pure trivial
  | succ n ih =>
      refine Alike.adapt ((alike_redeem hagrees hq).bind ?_) _
      intro page hpage
      cases hnext : (d.add page).next? page with
      | none =>
          simp only [hnext]
          exact alike_pure trivial
      | some c =>
          simp only [hnext]
          apply (alike_report _ _ _).bind
          intro _ _
          apply (alike_ask _).bind
          rintro _ rfl
          have hd' : (d.add page).query.IsWithin m₁.space kinds := hd
          exact alike_pure (ih hd' (Drain.isWithin_queryFrom hd' c) (hends page c hpage hnext))

/-- A drain takes a run to ask its query, a run for each cursor, and one more. -/
theorem endsAlike_fresh (hagrees : m₁.Agrees kinds m₂) (hq : q.IsWithin m₁.space kinds)
    (hstart : q.start = none) (place : Nat) :
    (work Memory.store).EndsAlike (Memory.Beside m₁ m₂) place
      (min m₁.table.entities.length m₂.table.entities.length + 2) (fresh q) := by
  have hasked := endsAlike_asked hagrees place (d := .start q) hq hq
    (Drain.endsWithin_start m₁ hstart)
  have hlength : (m₁.matching q).length ≤
      min m₁.table.entities.length m₂.table.entities.length := by
    refine Nat.le_min.2 ⟨m₁.length_matching_le q, ?_⟩
    rw [← hagrees.matching_eq hq]
    exact m₂.length_matching_le q
  refine Alike.adapt ((alike_ask q).bind ?_) _
  rintro _ rfl
  exact alike_pure (hasked.mono (Nat.succ_le_succ hlength))

end Pull

/-! ## Fan-outs -/

namespace FanOut

variable {kinds : List String} {m₁ m₂ : Memory} {queries : List Query} {f : FanOut} {total : Nat}
  {R : Memory → Memory → Prop} {ε : Type}

/-- The queries of a fan-out are of these kinds, and go on from no cursor. -/
def AllWithin (space : Option String) (kinds : List String) (queries : List Query) : Prop :=
  ∀ q ∈ queries, q.IsWithin space kinds ∧ q.start = none

theorem alike_enter (queries : List Query) :
    Alike R (enter queries : Action Memory ε FanOut) (enter queries) fun f =>
      f.group = .start (queries.map .fresh) := by
  apply (Scope.alike_enter _ _).bind
  intro scope _
  apply (alike_count _ _).bind
  intro _ _
  exact alike_pure rfl

theorem alike_through {α : Type} {Q : α → Prop} {x y : Action Memory (Nat × StoreError) α}
    (h : Alike R x y Q) : Alike R (f.through x) (f.through y) Q := by
  apply h.outcome.bind
  intro r hr
  rcases r with ⟨index, source⟩ | a
  · apply (alike_count _ _).bind
    intro _ _
    exact (f.scope.alike_fail _).bind fun _ _ => alike_throw _
  · exact alike_pure (hr a rfl)

/-- The open drains of the fan-out end alike within so many runs altogether. -/
def EndsAlike (R : Memory → Memory → Prop) (f : FanOut) (total : Nat) : Prop :=
  TaskGroup.Bounded (Pull.work Memory.store) R f.group.queue total

theorem alike_advance (hf : f.EndsAlike R total) (hopen : f.isDone = false) :
    Alike R (f.advance Memory.store) (f.advance Memory.store) fun f' =>
      ∃ rest, f'.EndsAlike R rest ∧ rest < total := by
  have hne : f.group.queue ≠ [] := List.isEmpty_eq_false_iff.1 hopen
  exact (alike_through (TaskGroup.alike_advance Pull.leftAlike_work hf hne)).bind
    fun _ hg => alike_pure hg

theorem alike_complete (hf : f.EndsAlike R total) {p q : Nat} (hp : total ≤ p) (hq : total ≤ q) :
    Alike R (f.complete Memory.store p) (f.complete Memory.store q) fun _ => True :=
  (alike_through (TaskGroup.alike_complete Pull.leftAlike_work _ hf hp hq)).bind
    fun _ _ => alike_pure trivial

theorem alike_finish (f : FanOut) :
    Alike R (f.finish : Action Memory ε ResultSet) f.finish fun _ => True := by
  apply alike_of_blind
  intro w s
  unfold finish
  by_cases h : 0 < f.results.placeholdersFiltered
  · simp only [if_pos h]
    rfl
  · simp only [if_neg h]
    rfl

/-- Fan-outs are opened with drains that end alike. -/
theorem endsAlike_start (hagrees : m₁.Agrees kinds m₂)
    (hqueries : AllWithin m₁.space kinds queries)
    (hgroup : f.group = .start (queries.map .fresh)) :
    f.EndsAlike (Memory.Beside m₁ m₂)
      ((min m₁.table.entities.length m₂.table.entities.length + 2) * queries.length) := by
  rw [EndsAlike, hgroup]
  have hstart := TaskGroup.bounded_start (W := Pull.work Memory.store)
    (R := Memory.Beside m₁ m₂)
    (k := min m₁.table.entities.length m₂.table.entities.length + 2)
    (queries.map Pull.fresh) (by
      intro t ht place
      obtain ⟨q, hq, rfl⟩ := List.mem_map.1 ht
      exact Pull.endsAlike_fresh hagrees (hqueries q hq).1 (hqueries q hq).2 place)
  rwa [List.length_map] at hstart

end FanOut

section Executions

variable {kinds : List String} {m₁ m₂ s : Memory} {queries : List Query}

theorem Memory.patience_of_is {m : Memory} (h : m.Is s) :
    Memory.store.patience s = m.table.entities.length + 1 := by
  show s.table.entities.length + 1 = _
  rw [table_of_bare h]

/-- **Queries of a kind are run alike** on memories that agree on the kind. -/
theorem alike_execute (hagrees : m₁.Agrees kinds m₂)
    (hqueries : FanOut.AllWithin m₁.space kinds queries) :
    Alike (Memory.Beside m₁ m₂) (execute Memory.store queries) (execute Memory.store queries)
      fun _ => True := by
  apply alike_inquire_bind
  intro s t hs
  apply (FanOut.alike_enter queries).bind
  intro f hf
  have hbound := FanOut.endsAlike_start hagrees hqueries hf
  rw [Memory.patience_of_is hs.1, Memory.patience_of_is hs.2.1]
  refine (FanOut.alike_complete hbound ?_ ?_).bind ?_
  · exact Nat.mul_le_mul_right _ (by omega)
  · exact Nat.mul_le_mul_right _ (by omega)
  · intro f' _
    exact FanOut.alike_finish f'

end Executions

/-! ## Compiled queries -/

namespace Compiler

variable {c : Compiler} {criteria : Criteria} {queries : List Query} {kinds : List String}

/-- Compiled queries are of the kind of the model, in the namespace of the compiler. -/
theorem allWithin_of_queries (h : c.queries criteria = .ok queries)
    (hkind : c.model.kind ∈ kinds) : FanOut.AllWithin c.space kinds queries := by
  intro q hq
  obtain ⟨groups, _, hcompiled⟩ := bind_eq_ok.1 h
  obtain ⟨g, _, hcompile⟩ := exists_of_mem_right (mapM_eq_ok.1 hcompiled) hq
  have hcompiles := compiles_of_compile hcompile
  refine ⟨⟨hcompiles.space, hcompiles.kind ▸ hkind, ?_⟩, hcompiles.start⟩
  intro k hk
  obtain ⟨f, hf, _, hoperand⟩ := Memory.filter_of_keyLookup? hk
  obtain ⟨p, _, hp⟩ := exists_of_mem_right hcompiles.filters hf
  exact space_of_filter hp hoperand

theorem length_queries_criteria {column : String} {values : List Json.Value} (hne : values ≠ [])
    (h : c.queries (Probe.criteria column values) = .ok queries) :
    queries.length = values.length := by
  obtain ⟨groups, hgroups, hcompiled⟩ := bind_eq_ok.1 h
  rw [Probe.groups_criteria hne] at hgroups
  cases hgroups
  rw [← (mapM_eq_ok.1 hcompiled).length_eq, List.length_map]

end Compiler

/-! ## Checks for conflicts -/

namespace Probe

variable {kinds : List String} {m₁ m₂ : Memory} {c : Compiler} {records : List Record}
  {a : UniqueAttribute} {f : FanOut} {total : Nat} {R : Memory → Memory → Prop}

theorem leftAlike_work : TaskGroup.LeftAlike (work Memory.store c records) R := by
  intro p
  cases p with
  | fresh a => exact alike_pure trivial
  | running a f => exact f.scope.alike_abandon

theorem alike_settle {place n : Nat} (h : f.isDone = false →
    (work Memory.store c records).EndsAlike R place n (running a f)) :
    Alike R (settle c.model a f : Action Memory CheckError (Progress Probe (List Conflict)))
      (settle c.model a f)
      (Progress.Meets ((work Memory.store c records).EndsAlike R place n) fun _ => True) := by
  unfold settle
  cases hdone : f.isDone with
  | true =>
      simp only [if_true]
      exact (FanOut.alike_finish f).bind fun _ _ => alike_pure trivial
  | false =>
      simp only [Bool.false_eq_true, if_false]
      exact alike_pure (h hdone)

/-- A look-up under way takes no more turns than its drains have runs. -/
theorem endsAlike_running (hf : f.EndsAlike R total) (hopen : f.isDone = false) (place : Nat) :
    (work Memory.store c records).EndsAlike R place total (running a f) := by
  induction total using Nat.strongRecOn generalizing f with
  | _ total ih =>
      cases total with
      | zero =>
          have hpos := TaskGroup.Bounded.total_pos hf (List.isEmpty_eq_false_iff.1 hopen)
          exact absurd hpos (Nat.lt_irrefl 0)
      | succ n =>
          apply ((FanOut.alike_advance hf hopen).adapt _).bind
          rintro f' ⟨rest, hf', hlt⟩
          exact alike_settle fun hdone => (ih rest hlt hf' hdone).mono (Nat.le_of_lt_succ hlt)

theorem alike_enter (c : Compiler) (a : UniqueAttribute) (values : List Json.Value) :
    Alike R (enter c a values : Action Memory CheckError FanOut) (enter c a values) fun f =>
      ∃ queries, c.queries (criteria a.column values) = .ok queries ∧
        f.group = .start (queries.map .fresh) := by
  apply (alike_count _ _).bind
  intro _ _
  apply (alike_report _ _ _).bind
  intro _ _
  apply (alike_ofExcept _ _).bind
  intro queries hqueries
  exact (FanOut.alike_enter queries).mono fun f hf => ⟨queries, hqueries, hf⟩

/-- The most turns that a look-up takes on memories that agree on its kind. -/
def bound (m₁ m₂ : Memory) (records : List Record) : Nat :=
  (min m₁.table.entities.length m₂.table.entities.length + 2) * records.length + 1

theorem endsAlike_fresh (hagrees : m₁.Agrees kinds m₂) (hspace : c.space = m₁.space)
    (hkind : c.model.kind ∈ kinds) (a : UniqueAttribute) (place : Nat) :
    (work Memory.store c records).EndsAlike (Memory.Beside m₁ m₂) place
      (bound m₁ m₂ records) (fresh a) := by
  show Alike (Memory.Beside m₁ m₂) (advance Memory.store c records (fresh a))
    (advance Memory.store c records (fresh a)) (Progress.Meets _ fun _ => True)
  cases hvalues : proposed records a.column with
  | nil =>
      simp only [advance, hvalues]
      exact alike_pure trivial
  | cons v values =>
      simp only [advance, hvalues]
      apply (alike_enter c a (v :: values)).bind
      rintro f ⟨queries, hqueries, hgroup⟩
      have hwithin := Compiler.allWithin_of_queries hqueries hkind
      rw [hspace] at hwithin
      have hlength := Compiler.length_queries_criteria (List.cons_ne_nil v values) hqueries
      have hopen : f.isDone = false := by
        cases queries with
        | nil => cases hlength
        | cons q queries =>
            rw [FanOut.isDone, hgroup]
            rfl
      have hf := FanOut.endsAlike_start hagrees hwithin hgroup
      apply ((FanOut.alike_advance hf hopen).adapt _).bind
      rintro f' ⟨rest, hf', hlt⟩
      -- There are no more queries than there are records.
      have hrest : rest ≤ (min m₁.table.entities.length m₂.table.entities.length + 2) *
          records.length := by
        have hle := length_proposed_le records a.column
        rw [hvalues, ← hlength] at hle
        exact Nat.le_trans (Nat.le_of_lt hlt) (Nat.mul_le_mul_left _ hle)
      exact alike_settle fun hdone => (endsAlike_running hf' hdone place).mono hrest

end Probe

section Checks

variable {kinds : List String} {m₁ m₂ : Memory} {c : Compiler}

/-- **Conflicts within a kind are looked up alike** on memories that agree on the kind. -/
theorem alike_findConflicts (hagrees : m₁.Agrees kinds m₂) (hspace : c.space = m₁.space)
    (hkind : c.model.kind ∈ kinds) (records : List Record) :
    Alike (Memory.Beside m₁ m₂) (findConflicts Memory.store c records)
      (findConflicts Memory.store c records) fun _ => True := by
  apply alike_inquire_bind
  intro s t hs
  have hbound := TaskGroup.bounded_start (W := Probe.work Memory.store c records)
    (R := Memory.Beside m₁ m₂) (k := Probe.bound m₁ m₂ records)
    (c.model.unique.map Probe.fresh) (by
      intro p hp place
      obtain ⟨a, _, rfl⟩ := List.mem_map.1 hp
      exact Probe.endsAlike_fresh hagrees hspace hkind a place)
  rw [List.length_map] at hbound
  have hturns : ∀ n, min m₁.table.entities.length m₂.table.entities.length ≤ n →
      Probe.bound m₁ m₂ records * c.model.unique.length ≤
        Probe.turns (n + 1) c.model records := by
    intro n hn
    refine Nat.mul_le_mul_right _ (Nat.succ_le_succ ?_)
    exact Nat.mul_le_mul_right _ (by omega)
  rw [Memory.patience_of_is hs.1, Memory.patience_of_is hs.2.1]
  refine (TaskGroup.alike_complete Probe.leftAlike_work _ hbound
    (hturns _ (Nat.min_le_left _ _)) (hturns _ (Nat.min_le_right _ _))).bind ?_
  intro probes _
  by_cases hempty : probes.results.flatten.isEmpty = true
  · simp only [hempty]
    exact alike_pure trivial
  · simp only [hempty]
    apply (alike_count _ _).bind
    intro _ _
    apply (alike_report _ _ _).bind
    intro _ _
    exact alike_pure trivial

end Checks

end Quarry
