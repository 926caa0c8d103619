import Quarry.Proofs.Engine.Drive
import Quarry.Proofs.Engine.FanOut
import Quarry.Proofs.Engine.TaskOrder

/-!
# What a store is asked

A store may keep a record of the queries that it is asked. A fan-out asks each of its queries once,
in their order, before it takes in any page. Whatever it asks after that continues one of them from
a cursor. This holds however the store answers, and whether the fan-out fails or not.
-/

namespace Quarry

open Quarry.Action

variable {σ : Type}

/-- The store with a record of what it was asked. -/
def Store.recorded (S : Store σ) : Store (σ × List Query) where
  space s := S.space s.1
  ask q s := ((S.ask q s.1).1, (S.ask q s.1).2, s.2 ++ [q])
  redeem t s := ((S.redeem t s.1).1, (S.redeem t s.1).2, s.2)
  save es s := ((S.save es s.1).1, (S.save es s.1).2, s.2)
  update es s := ((S.update es s.1).1, (S.update es s.1).2, s.2)
  delete ks s := ((S.delete ks s.1).1, (S.delete ks s.1).2, s.2)
  patience s := S.patience s.1

/-- The query asks for more of what the other one asks for, from a cursor on. -/
def Query.Continues (q q₀ : Query) : Prop :=
  ∃ limit cursor, q = { q₀ with offset := none, limit, start := some cursor }

/-- Behind a record, each of these queries was asked once, in their order, and after that only
queries that continue one of them. -/
def AsksAll (before queries after : List Query) : Prop :=
  ∃ rest, after = before ++ queries ++ rest ∧ ∀ q ∈ rest, ∃ q₀ ∈ queries, q.Continues q₀

namespace Pull

variable {S : Store σ} {before queries : List Query}

/-- The task has asked one of these queries. -/
def IsAsked (queries : List Query) (p : Pull) : Prop :=
  ∃ d ticket, p = asked d ticket ∧ d.query ∈ queries

/-- The queries of `first` have been asked, and those of `later` are to be asked next. Until all are
asked, none is continued. -/
structure Midway (before first later : List Query) (queue : List (Nat × Pull))
    (record : List Query) : Prop where
  tasks : ∃ running, queue.map Prod.snd = later.map fresh ++ running ∧
    ∀ p ∈ running, p.IsAsked first
  record : ∃ rest, record = before ++ first ++ rest ∧ (later ≠ [] → rest = []) ∧
    ∀ q ∈ rest, ∃ q₀ ∈ first, q.Continues q₀

/-- Of these queries, all but the last `n` have been asked. -/
def Asking (before queries : List Query) (n : Nat) (queue : List (Nat × Pull))
    (s : σ × List Query) : Prop :=
  ∃ first later, first ++ later = queries ∧ later.length = n ∧ Midway before first later queue s.2

/-! ## Single runs -/

theorem IsAsked.mono {first first' : List Query} {p : Pull} (h : p.IsAsked first)
    (hsub : first ⊆ first') : p.IsAsked first' := by
  obtain ⟨d, ticket, rfl, hd⟩ := h
  exact ⟨d, ticket, rfl, hsub hd⟩

section Midway

variable {first later record : List Query} {place : Nat} {p : Pull} {rest : List (Nat × Pull)}

/-- The task to be run next asks its query, if some are still to be asked. -/
theorem Midway.fresh_of_cons {q : Query}
    (h : Midway before first (q :: later) ((place, p) :: rest) record) :
    p = fresh q ∧ ∀ ticket,
      Midway before (first ++ [q]) later (rest ++ [(place, asked (.start q) ticket)])
        (record ++ [q]) := by
  obtain ⟨⟨running, hqueue, hrunning⟩, ⟨more, hrecord, hnone, _⟩⟩ := h
  obtain ⟨rfl, htasks⟩ := List.cons.inj hqueue
  obtain rfl := hnone (List.cons_ne_nil q later)
  refine ⟨rfl, fun ticket => ⟨⟨running ++ [asked (.start q) ticket], ?_, ?_⟩, ⟨[], ?_, ?_, ?_⟩⟩⟩
  · rw [List.map_append, htasks]
    exact List.append_assoc _ _ _
  · intro p hp
    rcases List.mem_append.1 hp with hp | hp
    · exact (hrunning p hp).mono (List.subset_append_left _ _)
    · exact ⟨_, ticket, List.mem_singleton.1 hp,
        List.mem_append_right first (List.mem_singleton_self q)⟩
  · rw [hrecord]
    simp only [List.append_nil, List.append_assoc]
  · exact fun _ => rfl
  · rintro _ ⟨⟩

/-- The task to be run next has asked its query, if all have been asked. -/
theorem Midway.asked_of_nil (h : Midway before first [] ((place, p) :: rest) record) :
    p.IsAsked first ∧ Midway before first [] rest record := by
  obtain ⟨⟨running, hqueue, hrunning⟩, hrecord⟩ := h
  rw [List.map_nil, List.nil_append] at hqueue
  subst hqueue
  exact ⟨hrunning p List.mem_cons_self,
    ⟨_, rfl, fun p' hp' => hrunning p' (List.mem_cons_of_mem p hp')⟩, hrecord⟩

theorem Midway.continue (h : Midway before first [] rest record) {d : Drain}
    (hd : d.query ∈ first) (ticket : Ticket) (c : Cursor) :
    Midway before first [] (rest ++ [(place, asked d ticket)]) (record ++ [d.queryFrom c]) := by
  obtain ⟨⟨running, hqueue, hrunning⟩, ⟨more, hrecord, _, hmore⟩⟩ := h
  refine ⟨⟨running ++ [asked d ticket], ?_, ?_⟩, ⟨more ++ [d.queryFrom c], ?_, ?_, ?_⟩⟩
  · rw [List.map_append, hqueue, List.append_assoc]
    rfl
  · intro p hp
    rcases List.mem_append.1 hp with hp | hp
    · exact hrunning p hp
    · exact ⟨d, ticket, List.mem_singleton.1 hp, hd⟩
  · rw [hrecord, List.append_assoc]
  · exact fun h => absurd rfl h
  · intro q hq
    rcases List.mem_append.1 hq with hq | hq
    · exact hmore q hq
    · exact ⟨d.query, hd, d.remaining, c, List.mem_singleton.1 hq⟩

end Midway

/-- A task that has asked its query either asks for more of it or asks nothing. -/
theorem exec_asked_recorded (d : Drain) (ticket : Ticket) (w : Session (σ × List Query)) :
    (∃ d' ticket' c w', ((asked d ticket).advance S.recorded).exec w =
        (.ok (.suspended (asked d' ticket')), w') ∧ d'.query = d.query ∧
          w'.store.2 = w.store.2 ++ [d'.queryFrom c]) ∨
      ∃ r w', ((asked d ticket).advance S.recorded).exec w = (r, w') ∧
        (∀ p, r ≠ .ok (.suspended p)) ∧ w'.store.2 = w.store.2 := by
  cases hanswer : (S.redeem ticket w.store.1).1 with
  | error e =>
      have hredeem : S.recorded.redeem ticket w.store =
          (.error e, (S.redeem ticket w.store.1).2, w.store.2) := Prod.ext hanswer rfl
      refine .inr ⟨_, _, exec_asked_error hredeem, ?_, rfl⟩
      rintro _ ⟨⟩
  | ok page =>
      have hredeem : S.recorded.redeem ticket w.store =
          (.ok page, (S.redeem ticket w.store.1).2, w.store.2) := Prod.ext hanswer rfl
      cases hnext : (d.add page).next? page with
      | none =>
          refine .inr ⟨_, _, exec_asked_last hredeem hnext, ?_, rfl⟩
          rintro _ ⟨⟩
      | some c => exact .inl ⟨_, _, c, _, exec_asked_more hredeem hnext rfl, rfl, rfl⟩

/-- A run of a task that comes to its end or fails has asked nothing, and all queries were asked
before. -/
theorem Asking.settle {n place : Nat} {p : Pull} {rest : List (Nat × Pull)}
    {w w' : Session (σ × List Query)} {r : Except (Nat × StoreError) (Progress Pull Drain)}
    (h : Asking before queries n ((place, p) :: rest) w.store)
    (hrun : ((work S.recorded).run place p).exec w = (r, w'))
    (hr : ∀ p', r ≠ .ok (.suspended p')) : Asking before queries 0 rest w'.store := by
  obtain ⟨first, _ | ⟨q, later⟩, hqueries, hlength, hmidway⟩ := h
  · obtain ⟨⟨d, ticket, rfl, _⟩, hrest⟩ := hmidway.asked_of_nil
    rcases exec_asked_recorded (S := S) d ticket w with
      ⟨d', ticket', c, w₁, hexec, _⟩ | ⟨r', w₁, hexec, _, hrecord⟩
    · rw [work, exec_adapt, hexec] at hrun
      cases hrun
      exact absurd rfl (hr _)
    · rw [work, exec_adapt, hexec] at hrun
      cases hrun
      exact ⟨first, [], hqueries, rfl, by rwa [hrecord]⟩
  · obtain ⟨rfl, _⟩ := hmidway.fresh_of_cons
    rw [work, exec_adapt, exec_fresh] at hrun
    cases hrun
    exact absurd rfl (hr _)

theorem countsDown_asking (S : Store σ) (before queries : List Query) :
    (work S.recorded).CountsDown (Asking before queries) where
  le := by
    rintro _ queue s ⟨first, later, _, rfl, ⟨running, hqueue, _⟩, _⟩
    have hlength := congrArg List.length hqueue
    simp only [List.length_map, List.length_append] at hlength
    exact hlength ▸ Nat.le_add_right _ _
  suspended := by
    rintro _ place p p' rest w w' ⟨first, _ | ⟨q, later⟩, hqueries, rfl, hmidway⟩ hrun
    · obtain ⟨⟨d, ticket, rfl, hd⟩, hrest⟩ := hmidway.asked_of_nil
      rcases exec_asked_recorded (S := S) d ticket w with
        ⟨d', ticket', c, w₁, hexec, hquery, hrecord⟩ | ⟨r, w₁, hexec, hr, _⟩
      · rw [work, exec_adapt, hexec] at hrun
        cases hrun
        refine ⟨first, [], hqueries, rfl, ?_⟩
        rw [hrecord]
        exact hrest.continue (hquery ▸ hd) ticket' c
      · rw [work, exec_adapt, hexec] at hrun
        obtain ⟨hsame, _⟩ := Prod.mk.inj hrun
        cases r with
        | error e => cases hsame
        | ok progress =>
            cases hsame
            exact absurd rfl (hr p')
    · obtain ⟨rfl, hnext⟩ := hmidway.fresh_of_cons
      rw [work, exec_adapt, exec_fresh] at hrun
      cases hrun
      exact ⟨first ++ [q], later, by rw [List.append_assoc]; exact hqueries, rfl, hnext _⟩
  ended := by
    intro n place p r rest w w' h hrun
    exact h.settle hrun (by rintro _ ⟨⟩)
  failed := by
    intro n place p e rest w w' h hrun
    exact h.settle hrun (by rintro _ ⟨⟩)
  leave := fun _ _ => rfl

theorem asking_start (before queries : List Query) (s : σ) :
    Asking before queries queries.length
      (TaskGroup.start (queries.map fresh) : TaskGroup Pull Drain (Nat × StoreError)).queue
      (s, before) := by
  refine ⟨[], queries, rfl, rfl, ⟨[], ?_, ?_⟩, ⟨[], ?_, fun _ => rfl, ?_⟩⟩
  · rw [TaskGroup.start, List.map_map, List.append_nil]
    exact List.zipIdx_map_fst _ _
  · rintro _ ⟨⟩
  · rw [List.append_nil, List.append_nil]
  · rintro _ ⟨⟩

theorem asksAll_of_asking {queue : List (Nat × Pull)} {s : σ × List Query}
    (h : Asking before queries 0 queue s) : AsksAll before queries s.2 := by
  obtain ⟨first, later, hqueries, hlength, hmidway⟩ := h
  obtain rfl := List.length_eq_zero_iff.1 hlength
  rw [List.append_nil] at hqueries
  subst hqueries
  obtain ⟨rest, hrecord, _, hrest⟩ := hmidway.record
  exact ⟨rest, hrecord, hrest⟩

end Pull

/-! ## Whole runs -/

/-- A fan-out asks all its queries first. -/
theorem asksAll_execute (S : Store σ) (queries : List Query) (w : Session (σ × List Query)) :
    AsksAll w.store.2 queries ((execute S.recorded queries).exec w).2.store.2 := by
  obtain ⟨f, w₁, henter, hstore, hgroup⟩ := FanOut.exec_enter ExecutionError queries w
  have hstart : Pull.Asking w.store.2 queries queries.length f.group.queue w₁.store := by
    rw [hgroup, hstore]
    exact Pull.asking_start _ _ _
  have hpatience : queries.length ≤ FanOut.turns (S.recorded.patience w.store) queries.length :=
    Nat.le_mul_of_pos_left _ (Nat.succ_pos _)
  obtain ⟨queue, hasking⟩ := TaskGroup.exists_counted_complete
    (Pull.countsDown_asking S w.store.2 queries) (fun place => (place, Store.endless)) hstart
    hpatience
  have hfinish : ∀ (f : FanOut) (w : Session (σ × List Query)),
      ((f.finish : Action _ ExecutionError ResultSet).exec w).2.store = w.store := by
    intro f w
    obtain ⟨w', hexec, hstore'⟩ := FanOut.exec_finish ExecutionError f w
    rw [hexec]
    exact hstore'
  rw [execute, exec_bind_ok (exec_inquire _ _), exec_bind_ok henter, store_exec_bind hfinish,
    FanOut.complete, store_exec_bind fun _ _ => rfl, FanOut.store_exec_through]
  exact Pull.asksAll_of_asking hasking

end Quarry
