import Quarry.Proofs.Running
import Quarry.Proofs.Store.Kind

/-!
# Drops page by page

What a drop does with one page is told for any store: it fails on the query or on the deletion, it
ends on a page without keys, or it takes the page off and goes on behind it. On a memory that only
the drop works on, the pages are the entities of the kind, so many at a time.
-/

namespace Quarry

/-- Asks a query and redeems the ticket at once. -/
def Store.query {σ : Type} (S : Store σ) (q : Query) (s : σ) : Except StoreError Page × σ :=
  S.redeem (S.ask q s).1 (S.ask q s).2

namespace Metrics

/-- The counters have gone up by so much. -/
def Grew (before after : Metrics) (amount : Counter → Nat) : Prop :=
  ∀ c, after.value c = before.value c + .ofNat (amount c)

theorem Grew.trans {a b c : Metrics} {f g : Counter → Nat} (hab : Grew a b f) (hbc : Grew b c g) :
    Grew a c fun d => f d + g d := by
  intro d
  rw [hbc d, hab d, UInt64.ofNat_add, UInt64.add_assoc]

end Metrics

namespace Drop

variable {σ : Type} {S : Store σ} {pageSize : Nat} {start : Option Cursor} {done : DropSummary}
  {w w' : Session σ} {s s' : σ}

/-- What a drop adds to the counters. -/
def tally (done : DropSummary) : Counter → Nat
  | .dropPages => done.pages
  | .entitiesDeleted => done.deleted
  | _ => 0

/-! ## One page -/

theorem exec_step_query_error {e : StoreError}
    (h : S.query (pageQuery (S.space w.store) done.kind pageSize start) w.store = (.error e, s)) :
    (step S pageSize start done).exec w = (.error ⟨.query, done, e⟩, { w with store := s }) := by
  rw [Store.query] at h
  rw [step, Action.exec_bind_ok (Action.exec_inquire _ _),
    Action.exec_bind_ok (Action.exec_onStore _ _)]
  apply Action.exec_bind_error
  rw [Action.exec_adapt, Action.exec_attempt, h]
  rfl

section Fetched

variable {page : Page}
  (h : S.query (pageQuery (S.space w.store) done.kind pageSize start) w.store = (.ok page, s))

include h

/-- A drop that has fetched its page goes on with it. -/
theorem exec_fetch {β : Type} (next : Page → Action σ DropError β) :
    Action.exec (do
      let space ← Action.inquire S.space
      let ticket ← Action.onStore (S.ask (pageQuery space done.kind pageSize start))
      let page ← (Action.attempt (S.redeem ticket)).adapt fun e => ⟨.query, done, e⟩
      next page) w = (next page).exec { w with store := s } := by
  rw [Store.query] at h
  rw [Action.exec_bind_ok (Action.exec_inquire _ _),
    Action.exec_bind_ok (Action.exec_onStore _ _)]
  apply Action.exec_bind_ok
  rw [Action.exec_adapt, Action.exec_attempt, h]
  rfl

theorem exec_step_empty (hkeys : keys page = []) :
    ∃ w', (step S pageSize start done).exec w = (.ok (done, none), w') ∧ w'.store = s ∧
      w'.metrics = w.metrics := by
  rw [step, exec_fetch h]
  simp only [hkeys, List.isEmpty_nil, if_true]
  by_cases hmore : page.more.hasMore = true
  · rw [if_pos hmore]
    exact ⟨_, rfl, rfl, rfl⟩
  · rw [if_neg hmore]
    exact ⟨_, rfl, rfl, rfl⟩

theorem exec_step_delete_error {e : StoreError} (hkeys : keys page ≠ [])
    (hdelete : S.delete (keys page) s = (.error e, s')) :
    (step S pageSize start done).exec w = (.error ⟨.delete, done, e⟩, { w with store := s' }) := by
  rw [step, exec_fetch h]
  simp only [List.isEmpty_iff, hkeys, if_false]
  apply Action.exec_bind_error
  rw [Action.exec_adapt, Action.exec_attempt, hdelete]
  rfl

theorem exec_step_deleted (hkeys : keys page ≠ [])
    (hdelete : S.delete (keys page) s = (.ok (), s')) :
    ∃ w', (step S pageSize start done).exec w =
        (.ok (⟨done.kind, done.pages + 1, done.deleted + (keys page).length⟩, next? page), w') ∧
      w'.store = s' ∧
      w.metrics.Grew w'.metrics (tally ⟨done.kind, 1, (keys page).length⟩) := by
  rw [step, exec_fetch h]
  simp only [List.isEmpty_iff, hkeys, if_false]
  have hexec : Action.exec ((Action.attempt (S.delete (keys page))).adapt fun e =>
      (⟨.delete, done, e⟩ : DropError)) { w with store := s } = (.ok (), { w with store := s' }) := by
    rw [Action.exec_adapt, Action.exec_attempt, hdelete]
    rfl
  rw [Action.exec_bind_ok hexec]
  refine ⟨_, rfl, rfl, ?_⟩
  intro c
  cases c <;> simp [tally]

end Fetched

/-! ## From page to page -/

section Pages

variable {n : Nat} {done' : DropSummary}

theorem exec_pagesFrom_last (h : (step S pageSize start done).exec w = (.ok (done', none), w')) :
    (pagesFrom S pageSize (n + 1) start done).exec w = (.ok done', w') := by
  rw [pagesFrom, Action.exec_bind_ok h]
  rfl

theorem exec_pagesFrom_more {c : Cursor}
    (h : (step S pageSize start done).exec w = (.ok (done', some c), w')) :
    (pagesFrom S pageSize (n + 1) start done).exec w =
      (pagesFrom S pageSize n (some c) done').exec w' := by
  rw [pagesFrom, Action.exec_bind_ok h]

theorem exec_pagesFrom_error {e : DropError}
    (h : (step S pageSize start done).exec w = (.error e, w')) :
    (pagesFrom S pageSize (n + 1) start done).exec w = (.error e, w') := by
  rw [pagesFrom, Action.exec_bind_error h]

end Pages

/-! ## Pages that pass -/

section Passing

variable {m : Memory} {kind : String} {i : Nat}

/-- What a drop has done after `i` pages, of which only the last can be short. -/
def doneAfter (m : Memory) (kind : String) (pageSize i : Nat) : DropSummary :=
  ⟨kind, i, min (i * min pageSize m.cap) (m.count kind)⟩

/-- Page `i` is read as the memory has it after so many pages, and deleted. -/
def Passes (S : Store σ) (m : Memory) (kind : String) (pageSize i : Nat) (s s' : σ) : Prop :=
  S.space s = m.space ∧
    ∃ between,
      S.query (m.dropQuery kind pageSize (i * min pageSize m.cap)) s =
        ((m.dropped kind (i * min pageSize m.cap)).answer
          (m.dropQuery kind pageSize (i * min pageSize m.cap)), between) ∧
      S.delete (m.dropKeys kind pageSize (i * min pageSize m.cap)) between = (.ok (), s')

theorem tally_doneAfter_succ (c : Counter) :
    tally (doneAfter m kind pageSize (i + 1)) c =
      tally (doneAfter m kind pageSize i) c + tally ⟨kind, 1,
        (m.dropKeys kind pageSize (i * min pageSize m.cap)).length⟩ c := by
  rw [m.length_dropKeys]
  cases c <;> simp only [tally, doneAfter, Nat.add_mul, Nat.one_mul]
  omega

theorem grew_doneAfter_zero (metrics : Metrics) :
    metrics.Grew metrics (tally (doneAfter m kind pageSize 0)) := by
  intro c
  cases c <;> simp [tally, doneAfter]

theorem exec_step_passes (hsize : 0 < pageSize)
    (hi : i * min pageSize m.cap < m.count kind) (h : Passes S m kind pageSize i w.store s) :
    ∃ w', (step S pageSize (m.dropQuery kind pageSize (i * min pageSize m.cap)).start
        (doneAfter m kind pageSize i)).exec w =
        (.ok (doneAfter m kind pageSize (i + 1),
          if m.count kind ≤ (i + 1) * min pageSize m.cap then none
          else (m.dropQuery kind pageSize ((i + 1) * min pageSize m.cap)).start), w') ∧
      w'.store = s ∧
      w.metrics.Grew w'.metrics (tally ⟨kind, 1,
        (m.dropKeys kind pageSize (i * min pageSize m.cap)).length⟩) := by
  obtain ⟨hspace, between, hquery, hdelete⟩ := h
  obtain ⟨page, hanswer, hkeys, hnext⟩ := m.answer_dropped hsize kind (i * min pageSize m.cap)
  have hcap := m.cap_pos
  have hlength := m.length_dropKeys kind pageSize (i * min pageSize m.cap)
  have hne : keys page ≠ [] := by
    rw [hkeys, ← List.length_pos_iff, hlength]
    omega
  rw [hanswer] at hquery
  rw [← hkeys] at hdelete hlength
  have hpage : S.query (pageQuery (S.space w.store) (doneAfter m kind pageSize i).kind pageSize
      (m.dropQuery kind pageSize (i * min pageSize m.cap)).start) w.store =
      (.ok page, between) := by
    rw [hspace]
    exact hquery
  obtain ⟨w', hstep, hstore, hgrew⟩ := exec_step_deleted hpage hne hdelete
  rw [hkeys] at hgrew
  refine ⟨w', ?_, hstore, hgrew⟩
  have hsum : min (i * min pageSize m.cap) (m.count kind) + (keys page).length =
      min ((i + 1) * min pageSize m.cap) (m.count kind) := by
    rw [hlength, Nat.add_mul, Nat.one_mul]
    omega
  rw [hstep, hnext, ← Nat.add_one_mul]
  simp only [doneAfter, hsum]

/-- **Pages that pass.** While pages pass and there are others behind them, a drop takes them off,
each in one turn. -/
theorem exec_pagesFrom_passes (hsize : 0 < pageSize) (Holds : Nat → σ → Prop)
    (hpass : ∀ j < i, ∀ s, Holds j s → ∃ s', Passes S m kind pageSize j s s' ∧ Holds (j + 1) s')
    (hi : i = 0 ∨ i * min pageSize m.cap < m.count kind) (hw : Holds 0 w.store) (n : Nat) :
    ∃ w', Holds i w'.store ∧
      w.metrics.Grew w'.metrics (tally (doneAfter m kind pageSize i)) ∧
      (pagesFrom S pageSize (i + n) none ⟨kind, 0, 0⟩).exec w =
        (pagesFrom S pageSize n (m.dropQuery kind pageSize (i * min pageSize m.cap)).start
          (doneAfter m kind pageSize i)).exec w' := by
  induction i generalizing n with
  | zero =>
      refine ⟨w, hw, grew_doneAfter_zero _, ?_⟩
      rw [Nat.zero_add, Nat.zero_mul, doneAfter, Nat.zero_mul, Nat.zero_min]
      rfl
  | succ i ih =>
      have hbeyond : (i + 1) * min pageSize m.cap < m.count kind := by
        rcases hi with hi | hi
        · cases hi
        · exact hi
      have hbefore : i * min pageSize m.cap < m.count kind := by
        rw [Nat.add_mul] at hbeyond
        omega
      have hcap := m.cap_pos
      obtain ⟨w₁, hw₁, hgrew₁, hexec₁⟩ :=
        ih (fun j hj => hpass j (Nat.lt_succ_of_lt hj)) (.inr hbefore) (n + 1)
      obtain ⟨s, hpasses, hs⟩ := hpass i (Nat.lt_succ_self i) w₁.store hw₁
      obtain ⟨w₂, hstep, hstore₂, hgrew₂⟩ := exec_step_passes hsize hbefore hpasses
      have hkind : 0 < m.count kind := by omega
      obtain ⟨c, hc⟩ := Memory.start_dropQuery
        (n := (i + 1) * min pageSize m.cap) (Nat.mul_pos (Nat.succ_pos i) (by omega)) hkind pageSize
      rw [if_neg (by omega), hc] at hstep
      refine ⟨w₂, by rwa [hstore₂], ?_, ?_⟩
      · intro d
        rw [tally_doneAfter_succ]
        exact hgrew₁.trans hgrew₂ d
      · rw [Nat.add_right_comm, Nat.add_assoc, hexec₁, exec_pagesFrom_more hstep, hc]

end Passing

/-! ## Whole drops -/

end Drop

section Whole

variable {σ : Type} {S : Store σ} {pageSize : Nat} {kind : String} {w w' : Session σ}

/-- The session in which a drop asks for its first page. -/
def Session.opened (w : Session σ) : Session σ := { w with scopes := w.scopes + 1 }

theorem exec_enter_drop (fields : LineFields) (w : Session σ) :
    ∃ scope, (Scope.enter Drop.events fields : Action σ DropError Scope).exec w =
      (.ok scope, w.opened) := ⟨_, rfl⟩

theorem exec_dropAll_ok {done : DropSummary}
    (h : (Drop.pagesFrom S (max pageSize 1) (S.patience w.store) none ⟨kind, 0, 0⟩).exec w.opened =
      (.ok done, w')) :
    ∃ w'', (dropAll S pageSize kind).exec w = (.ok done, w'') ∧ w''.store = w'.store ∧
      w''.metrics = w'.metrics := by
  obtain ⟨scope, hscope⟩ :=
    exec_enter_drop [("kind", kind), ("page_size", toString (max pageSize 1))] w
  rw [dropAll, Action.exec_bind_ok (Action.exec_inquire _ _), Action.exec_bind_ok hscope,
    Action.exec_bind_ok (Action.exec_orElseDo_ok h)]
  exact ⟨_, rfl, rfl, rfl⟩

theorem exec_dropAll_error {e : DropError}
    (h : (Drop.pagesFrom S (max pageSize 1) (S.patience w.store) none ⟨kind, 0, 0⟩).exec w.opened =
      (.error e, w')) :
    ∃ w'', (dropAll S pageSize kind).exec w = (.error e, w'') ∧ w''.store = w'.store ∧
      w''.metrics = w'.metrics.add .storeFailures 1 := by
  obtain ⟨scope, hscope⟩ :=
    exec_enter_drop [("kind", kind), ("page_size", toString (max pageSize 1))] w
  have hfailed : ∃ w'', ((Drop.pagesFrom S (max pageSize 1) (S.patience w.store) none
      ⟨kind, 0, 0⟩).orElseDo fun e => do
        Action.count .storeFailures 1
        scope.fail e.message).exec w.opened = (.error e, w'') ∧ w''.store = w'.store ∧
      w''.metrics = w'.metrics.add .storeFailures 1 := by
    rw [Action.exec_orElseDo, h]
    exact ⟨_, rfl, rfl, rfl⟩
  obtain ⟨w'', hexec, hstore, hmetrics⟩ := hfailed
  rw [dropAll, Action.exec_bind_ok (Action.exec_inquire _ _), Action.exec_bind_ok hscope,
    Action.exec_bind_error hexec]
  exact ⟨w'', rfl, hstore, hmetrics⟩

end Whole

end Quarry
