import Quarry.Proofs.Engine.FanOut
import Quarry.Proofs.Engine.Interleaving
import Quarry.Proofs.Engine.TaskResults

/-!
# What a fan-out meets

A fan-out on a memory that nobody else works on may fail, if failures are due. If it comes to its
end, it has met everything that its queries would have met one after another, and nothing else.
Meanwhile nothing but the log of the memory and the failures that are due have changed.
-/

namespace Quarry

open Quarry.Action

/-- The memory is the other one, up to its log and the failures that are due. -/
def Memory.Is (m s : Memory) : Prop := s.bare = m.bare

theorem Memory.Is.answer {m s : Memory} (h : m.Is s) (q : Query) : s.answer q = m.answer q := by
  rw [← answer_bare q s, h, answer_bare]

theorem Memory.Is.run {m s : Memory} (h : m.Is s) (q : Query) : m.Is (s.run q).2 :=
  (s.bare_run q).trans h

namespace Drain

variable {m : Memory}

/-- A drain of the query that has the memory to itself ends like this. -/
def Drained (m : Memory) (q : Query) (d : Drain) : Prop :=
  ∃ i qs, Yields (fun _ => m) i (start q) q qs d

/-- On a memory that stays as it is, it does not matter when a page is read. -/
theorem Yields.shift {i : Nat} {d d' : Drain} {q : Query} {qs : List Query}
    (h : Yields (fun _ => m) i d q qs d') (j : Nat) : Yields (fun _ => m) j d q qs d' := by
  induction h generalizing j with
  | last hpage hnext => exact .last hpage hnext
  | more hpage hnext _ ih => exact .more hpage hnext (ih (j + 1))

/-- What is gathered from pages of a memory is stored in it. -/
theorem stored_of_yields {i : Nat} {d d' : Drain} {q : Query} {qs : List Query}
    (h : Yields (fun _ => m) i d q qs d') (hshape : q.shape = d.query.shape) {e : Entity}
    (he : some e ∈ d'.slots) :
    some e ∈ d.slots ∨ ∃ x ∈ m.table.entities, e = d.query.shape x := by
  induction h with
  | last hpage hnext =>
      rcases List.mem_append.1 he with hold | hnew
      · exact .inl hold
      · rw [← hshape]
        exact .inr (Memory.stored_of_answer hpage hnew)
  | more hpage hnext hrest ih =>
      rcases ih rfl he with hadded | hstored
      · rcases List.mem_append.1 hadded with hold | hnew
        · exact .inl hold
        · rw [← hshape]
          exact .inr (Memory.stored_of_answer hpage hnew)
      · exact .inr hstored

theorem stored_of_drained {q : Query} {d : Drain} (h : Drained m q d) {e : Entity}
    (he : some e ∈ d.slots) : ∃ x ∈ m.table.entities, e = q.shape x := by
  obtain ⟨i, qs, hyields⟩ := h
  rcases stored_of_yields hyields rfl he with hnone | hstored
  · cases hnone
  · exact hstored

end Drain

/-! ## Tasks -/

namespace Pull

variable {m : Memory} {queries : List Query}

/-- However the task goes on by itself, it ends as a drain of the query does. -/
def DrainsTo (m : Memory) (q : Query) : Pull → Prop
  | fresh q' => q' = q
  | asked d (.running q') =>
    ∀ qs d', Drain.Yields (fun _ => m) 0 d q' qs d' → Drain.Drained m q d'
  | asked _ (.answered _) => False

/-- The task of a place drains the query of that place. -/
def InPlace (m : Memory) (queries : List Query) (place : Nat) (p : Pull) : Prop :=
  ∃ q, queries[place]? = some q ∧ p.DrainsTo m q

def DoneInPlace (m : Memory) (queries : List Query) (place : Nat) (d : Drain) : Prop :=
  ∃ q, queries[place]? = some q ∧ Drain.Drained m q d

/-- The page that is redeemed is the one that the memory has. -/
theorem keeps_redeem (m : Memory) (q : Query) :
    Keeps m.Is (attempt (Memory.store.redeem (.running q))) fun page => m.answer q = .ok page := by
  refine keeps_attempt ?_
  intro s hs
  refine ⟨hs.run q, ?_⟩
  intro page hpage
  rw [← hs.answer q]
  exact Memory.answer_of_run hpage

theorem keeps_ask (m : Memory) (q : Query) :
    Keeps m.Is (onStore (Memory.store.ask q) : Action Memory StoreError Ticket) fun t =>
      t = .running q :=
  keeps_onStore fun _ hs => ⟨hs, rfl⟩

theorem sound_work (m : Memory) (queries : List Query) :
    (work Memory.store).Sound m.Is (InPlace m queries) (DoneInPlace m queries) := by
  constructor
  · rintro place p ⟨q, hq, hp⟩
    refine Keeps.adapt ?_ _
    cases p with
    | fresh q' =>
        cases hp
        refine (keeps_ask m q).bind ?_
        rintro _ rfl
        exact keeps_pure ⟨q, hq, fun qs d' h => ⟨0, qs, h⟩⟩
    | asked d ticket =>
        cases ticket with
        | answered _ => exact hp.elim
        | running q' =>
            refine (keeps_redeem m q').bind ?_
            intro page hpage
            cases hnext : (d.add page).next? page with
            | none =>
                simp only [hnext]
                exact keeps_pure ⟨q, hq, hp _ _ (.last hpage hnext)⟩
            | some c =>
                simp only [hnext]
                refine (keeps_report _ _ _).bind ?_
                intro _ _
                refine (keeps_ask m _).bind ?_
                rintro _ rfl
                exact keeps_pure ⟨q, hq, fun qs d' h => hp _ _ (.more hpage hnext (h.shift 1))⟩
  · intro p
    exact keeps_pure trivial

end Pull

/-! ## Fan-outs -/

namespace FanOut

variable {m : Memory} {queries : List Query} {ε : Type}

/-- The fan-out is for these queries, and has come to where it is with them. -/
def IsFor (m : Memory) (queries : List Query) (f : FanOut) : Prop :=
  f.group.InOrder (Pull.InPlace m queries) (Pull.DoneInPlace m queries) queries.length ∧
    TaskGroup.Clean queries.length f.group.outcomes

/-- The results are what drains of the queries have yielded, one after another. -/
def Joins (m : Memory) (queries : List Query) (r : ResultSet) : Prop :=
  ∃ drains, List.Forall₂ (Drain.Drained m) queries drains ∧
    r.entities = (drains.flatMap Drain.slots).filterMap id

/-- The results hold what each query meets. -/
def Meets (m : Memory) (queries : List Query) (r : ResultSet) : Prop :=
  ∀ q ∈ queries, ∃ d, Drain.Drained m q d ∧ ∀ e, some e ∈ d.slots → e ∈ r.entities

/-- The results hold nothing but what is stored, as one of the queries shapes it. -/
def FromStored (m : Memory) (queries : List Query) (r : ResultSet) : Prop :=
  ∀ e ∈ r.entities, ∃ q ∈ queries, ∃ x ∈ m.table.entities, e = q.shape x

/-- A fan-out is opened with a task for each query. -/
theorem keeps_enter_of {σ : Type} {J : σ → Prop} {Good : Nat → Pull → Prop}
    {Post : Nat → Drain → Prop}
    (h : ∀ place q, queries[place]? = some q → Good place (.fresh q)) :
    Keeps J (enter queries : Action σ ε FanOut) fun f =>
      f.group.InOrder Good Post queries.length ∧
        TaskGroup.Clean queries.length f.group.outcomes := by
  refine (Scope.keeps_enter _ _).bind ?_
  intro scope _
  refine (keeps_count _ _).bind ?_
  intro _ _
  refine keeps_pure ?_
  have hplaces : ∀ place t, (queries.map Pull.fresh)[place]? = some t → Good place t := by
    intro place t ht
    rw [List.getElem?_map, Option.map_eq_some_iff] at ht
    obtain ⟨q, hq, rfl⟩ := ht
    exact h place q hq
  have hstart := TaskGroup.inOrder_start (Nat × StoreError) Post hplaces
  rwa [List.length_map] at hstart

theorem keeps_enter (m : Memory) (queries : List Query) :
    Keeps m.Is (enter queries : Action Memory ε FanOut) (IsFor m queries) :=
  keeps_enter_of fun _ q hq => ⟨q, hq, rfl⟩

theorem keeps_through {σ α : Type} {J : σ → Prop} {f : FanOut} {x : Action σ (Nat × StoreError) α}
    {Q : α → Prop} (h : Keeps J x Q) : Keeps J (f.through x) Q := by
  refine h.outcome.bind ?_
  intro r hr
  rcases r with ⟨index, source⟩ | a
  · refine (keeps_count _ _).bind ?_
    intro _ _
    exact (f.scope.keeps_fail _).bind fun _ _ => keeps_throw _
  · exact keeps_pure (hr a rfl)

/-- A turn of a fan-out is one of its group. -/
theorem keeps_advance_of {σ : Type} {S : Store σ} {J : σ → Prop} {Good : Nat → Pull → Prop}
    {Post : Nat → Drain → Prop} {size : Nat} (hW : (Pull.work S).Sound J Good Post) {f : FanOut}
    (horder : f.group.InOrder Good Post size) (hclean : TaskGroup.Clean size f.group.outcomes) :
    Keeps J (f.advance S) fun f' =>
      f'.group.InOrder Good Post size ∧ TaskGroup.Clean size f'.group.outcomes :=
  (keeps_through (TaskGroup.keeps_advance hW horder hclean)).bind fun _ hg => keeps_pure hg

theorem keeps_advance {f : FanOut} (h : f.IsFor m queries) :
    Keeps m.Is (f.advance Memory.store) (IsFor m queries) :=
  keeps_advance_of (Pull.sound_work m queries) h.1 h.2

theorem keeps_complete {f : FanOut} (h : f.IsFor m queries) (patience : Nat) :
    Keeps m.Is (f.complete Memory.store patience) fun f' =>
      f'.IsFor m queries ∧ f'.isDone = true := by
  refine (keeps_through (TaskGroup.keeps_complete (Pull.sound_work m queries) _ h.1 h.2)).bind ?_
  rintro group ⟨horder, hclean, hdone⟩
  exact keeps_pure ⟨⟨horder, hclean⟩, List.isEmpty_iff.2 hdone⟩

theorem keeps_finish {σ : Type} {J : σ → Prop} (f : FanOut) :
    Keeps J (f.finish : Action σ ε ResultSet) fun r => r = f.results := by
  intro w hw
  obtain ⟨w', hexec, hstore⟩ := exec_finish ε f w
  rw [hexec]
  refine ⟨?_, ?_⟩
  · show J w'.store
    rwa [hstore]
  · rintro _ ⟨⟩
    rfl

theorem drained_of_done {f : FanOut} (h : f.IsFor m queries) (hdone : f.isDone = true) :
    f.group.results.length = queries.length ∧
      ∀ place d, f.group.results[place]? = some d → Pull.DoneInPlace m queries place d :=
  h.1.results_of_done h.2 (List.isEmpty_iff.1 hdone)

/-- **A fan-out at its end joins what its queries yield.** -/
theorem joins_of_done {f : FanOut} (h : f.IsFor m queries) (hdone : f.isDone = true) :
    Joins m queries f.results := by
  obtain ⟨hlength, hresults⟩ := drained_of_done h hdone
  refine ⟨f.group.results, ?_, rfl⟩
  rw [List.forall₂_iff_get]
  refine ⟨hlength.symm, ?_⟩
  intro place hquery hresult
  obtain ⟨q, hq, hdrained⟩ := hresults place _ (List.getElem?_eq_getElem hresult)
  rw [List.getElem?_eq_getElem hquery] at hq
  rwa [← Option.some.inj hq] at hdrained

theorem Joins.meets {r : ResultSet} (h : Joins m queries r) : Meets m queries r := by
  obtain ⟨drains, hdrained, hentities⟩ := h
  intro q hq
  obtain ⟨d, hd, hyields⟩ := exists_of_mem_left hdrained hq
  refine ⟨d, hyields, ?_⟩
  intro e he
  rw [hentities, List.mem_filterMap]
  exact ⟨some e, List.mem_flatMap.2 ⟨d, hd, he⟩, rfl⟩

theorem Joins.fromStored {r : ResultSet} (h : Joins m queries r) : FromStored m queries r := by
  obtain ⟨drains, hdrained, hentities⟩ := h
  intro e he
  rw [hentities, List.mem_filterMap] at he
  obtain ⟨slot, hslot, rfl⟩ := he
  obtain ⟨d, hd, hmem⟩ := List.mem_flatMap.1 hslot
  obtain ⟨q, hq, hyields⟩ := exists_of_mem_right hdrained hd
  exact ⟨q, hq, Drain.stored_of_drained hyields hmem⟩

/-- A fan-out that is run to its end joins what its queries yield. -/
theorem keeps_execute (m : Memory) (queries : List Query) :
    Keeps m.Is (execute Memory.store queries) (Joins m queries) := by
  refine (keeps_inquire _).bind ?_
  intro patience _
  refine (keeps_enter m queries).bind ?_
  intro f hf
  refine (keeps_complete hf _).bind ?_
  rintro f' ⟨hf', hdone⟩
  refine (keeps_finish f').mono ?_
  rintro _ rfl
  exact joins_of_done hf' hdone

end FanOut

end Quarry
