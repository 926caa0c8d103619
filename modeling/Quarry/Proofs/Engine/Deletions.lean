import Quarry.Proofs.Engine.Uses

/-!
# What counts as deleted

A drop counts every entity that it takes off the memory, whether it comes to its end or fails on the
way. It is the only operation whose deletions are counted.
-/

namespace Quarry

open Quarry.Action

/-! ## Entities that are gone -/

namespace Entities

/-- Of entities in key order, as many have a key of some of them as there are of these. -/
theorem countP_key_mem {es some : List Entity} (h : es.Pairwise Before) (hsome : some.Sublist es) :
    (es.countP fun e => e.key ∈ some.map Entity.key) = some.length := by
  have hapart : ∀ {x y : Entity}, Before x y → x ≠ y := by
    rintro x _ hxy rfl
    exact hxy.ne rfl
  have hnodup : es.Nodup := h.imp hapart
  rw [List.countP_eq_length_filter]
  refine List.Perm.length_eq ?_
  rw [List.perm_ext_iff_of_nodup (hnodup.filter _) (hnodup.sublist hsome)]
  intro e
  rw [List.mem_filter, decide_eq_true_eq]
  constructor
  · rintro ⟨he, hkey⟩
    obtain ⟨x, hx, hsame⟩ := List.mem_map.1 hkey
    rwa [← eq_of_key_eq h (hsome.subset hx) he hsame]
  · intro he
    exact ⟨hsome.subset he, List.mem_map_of_mem he⟩

end Entities

namespace Memory

variable {a b m m' : Memory} {n k : Nat}

/-- The number of entities that the other memory has no more. -/
def gone (m m' : Memory) : Nat := m.table.entities.countP fun e => (m'.get? e.key).isNone

/-- The other memory holds the same entities but for so many of them. -/
structure Lost (m m' : Memory) (n : Nat) : Prop where
  sublist : m'.table.entities.Sublist m.table.entities
  length_eq : m.table.entities.length = m'.table.entities.length + n

theorem lost_of_table (h : m'.table = m.table) : Lost m m' 0 := by
  refine ⟨?_, ?_⟩
  · rw [h]
  · rw [h, Nat.add_zero]

theorem Lost.trans (hab : Lost a b n) (hbm : Lost b m k) : Lost a m (n + k) := by
  refine ⟨hbm.sublist.trans hab.sublist, ?_⟩
  rw [hab.length_eq, hbm.length_eq, Nat.add_assoc, Nat.add_comm k n]

theorem Lost.gone_eq (h : Lost m m' n) : m.gone m' = n := by
  have hlength := List.length_eq_countP_add_countP (l := m.table.entities)
    fun e => decide (e.key ∈ m'.table.entities.map Entity.key)
  have hgone : m.gone m' = m.table.entities.countP fun e =>
      ¬ (decide (e.key ∈ m'.table.entities.map Entity.key) = true) := by
    refine List.countP_congr ?_
    intro e _
    rw [Option.isNone_iff_eq_none, get?, Table.get?_eq_none_iff]
    simp
  rw [← hgone, Entities.countP_key_mem m.table.sorted h.sublist, h.length_eq] at hlength
  exact (Nat.add_left_cancel hlength).symm

/-- A page of a kind holds the keys of some of its entities, in key order. -/
theorem exists_sublist_keys {kind : String} {pageSize : Nat} {start : Option Cursor} {page : Page}
    (h : m.answer (Drop.pageQuery m.space kind pageSize start) = .ok page) :
    ∃ es : List Entity, es.Sublist m.table.entities ∧ Drop.keys page = es.map Entity.key := by
  rw [answer_eq_page (.inl rfl), matching_of_orders_nil rfl, selected_pageQuery] at h
  obtain ⟨s, _, rfl⟩ := map_eq_ok.1 h
  refine ⟨((m.ofKind kind).drop s).take (min pageSize m.cap), ?_, keys_pageAt _ _ _ _ _ _⟩
  exact ((List.take_sublist _ _).trans (List.drop_sublist _ _)).trans List.filter_sublist

/-- Deleting a page takes as many entities off as it holds keys. -/
theorem lost_of_delete {es : List Entity} (h : es.Sublist m.table.entities)
    (hdelete : m.delete (es.map Entity.key) = (.ok (), m')) : Lost m m' es.length := by
  obtain rfl := delete_eq_ok hdelete
  have hleft := m.table.entities_eraseAll (es.map Entity.key)
  have hlength := List.length_eq_countP_add_countP (l := m.table.entities)
    fun e => decide (e.key ∈ es.map Entity.key)
  refine ⟨hleft ▸ List.filter_sublist, ?_⟩
  rw [Entities.countP_key_mem m.table.sorted h, Nat.add_comm] at hlength
  rw [hlength, hleft, ← List.countP_eq_length_filter]
  simp only [decide_eq_true_eq]

end Memory

/-! ## Drops -/

namespace Drop

variable {pageSize : Nat} {start : Option Cursor} {done : DropSummary} {w w' : Session Memory}

/-- What a drop reports to have deleted, whether it came to its end or not. -/
def reported : Except DropError DropSummary → Nat
  | .ok done => done.deleted
  | .error e => e.done.deleted

/-- The deletions that lead from one session to the other are counted. -/
structure Accounts (w w' : Session Memory) (n : Nat) : Prop where
  lost : w.store.Lost w'.store n
  counted : w'.metrics.value .entitiesDeleted = w.metrics.value .entitiesDeleted + .ofNat n

theorem accounts_of_table (hstore : w'.store.table = w.store.table)
    (hmetrics : w'.metrics.value .entitiesDeleted = w.metrics.value .entitiesDeleted) :
    Accounts w w' 0 :=
  ⟨Memory.lost_of_table hstore, hmetrics.trans (UInt64.add_zero _).symm⟩

theorem Accounts.trans {v : Session Memory} {n k : Nat} (hv : Accounts w v n)
    (hw' : Accounts v w' k) : Accounts w w' (n + k) := by
  refine ⟨hv.lost.trans hw'.lost, ?_⟩
  rw [hw'.counted, hv.counted, UInt64.ofNat_add, UInt64.add_assoc]

/-- What a page adds to the summary of a drop is what it takes off, and is counted. -/
theorem accounts_step {r : Except DropError (DropSummary × Option Cursor)}
    (h : (step Memory.store pageSize start done).exec w = (r, w')) :
    ∃ n, Accounts w w' n ∧
      (∀ done' next, r = .ok (done', next) → done'.deleted = done.deleted + n) ∧
      ∀ e, r = .error e → e.done.deleted = done.deleted + n := by
  let q := pageQuery w.store.space done.kind pageSize start
  obtain ⟨faults, hframe⟩ := Memory.run_frame q w.store
  cases hquery : w.store.run q with
  | mk answer s =>
      have htable : s.table = w.store.table := by
        rw [hquery] at hframe
        rw [show s = _ from hframe]
      cases answer with
      | error e =>
          rw [exec_step_query_error (S := Memory.store) hquery] at h
          cases h
          refine ⟨0, accounts_of_table htable rfl, ?_, ?_⟩
          · rintro _ _ ⟨⟩
          · rintro _ ⟨⟩
            rfl
      | ok page =>
          by_cases hkeys : keys page = []
          · obtain ⟨w₁, hexec, hstore, hmetrics⟩ :=
              exec_step_empty (S := Memory.store) hquery hkeys
            rw [hexec] at h
            cases h
            refine ⟨0, accounts_of_table (hstore ▸ htable) (by rw [hmetrics]), ?_, ?_⟩
            · rintro _ _ ⟨⟩
              rfl
            · rintro _ ⟨⟩
          · obtain ⟨es, hes, hpage⟩ :=
              Memory.exists_sublist_keys (Memory.answer_of_run (congrArg Prod.fst hquery))
            cases hdelete : s.delete (keys page) with
            | mk result s' =>
                cases result with
                | error e =>
                    rw [exec_step_delete_error (S := Memory.store) hquery hkeys hdelete] at h
                    cases h
                    obtain ⟨faults', rfl⟩ := Memory.delete_eq_error hdelete
                    refine ⟨0, accounts_of_table htable rfl, ?_, ?_⟩
                    · rintro _ _ ⟨⟩
                    · rintro _ ⟨⟩
                      rfl
                | ok _ =>
                    obtain ⟨w₁, hexec, hstore, hgrew⟩ :=
                      exec_step_deleted (S := Memory.store) hquery hkeys hdelete
                    rw [hexec] at h
                    cases h
                    rw [hpage] at hdelete
                    have hlost := Memory.lost_of_delete (htable ▸ hes) hdelete
                    rw [← List.length_map (f := Entity.key), ← hpage, ← hstore] at hlost
                    have hboth := (Memory.lost_of_table htable).trans hlost
                    rw [Nat.zero_add] at hboth
                    refine ⟨(keys page).length, ⟨hboth, hgrew .entitiesDeleted⟩, ?_, ?_⟩
                    · rintro _ _ ⟨⟩
                      rfl
                    · rintro _ ⟨⟩

theorem accounts_pagesFrom {n : Nat} {r : Except DropError DropSummary}
    (h : (pagesFrom Memory.store pageSize n start done).exec w = (r, w')) :
    ∃ k, Accounts w w' k ∧ reported r = done.deleted + k := by
  induction n generalizing start done w with
  | zero =>
      cases h
      exact ⟨0, accounts_of_table rfl rfl, rfl⟩
  | succ n ih =>
      cases hstep : (step Memory.store pageSize start done).exec w with
      | mk result w₁ =>
          obtain ⟨k, haccounts, hok, herror⟩ := accounts_step hstep
          rcases result with e | ⟨done', _ | c⟩
          · rw [exec_pagesFrom_error hstep] at h
            cases h
            exact ⟨k, haccounts, herror e rfl⟩
          · rw [exec_pagesFrom_last hstep] at h
            cases h
            exact ⟨k, haccounts, hok done' none rfl⟩
          · rw [exec_pagesFrom_more hstep] at h
            obtain ⟨l, hrest, hreported⟩ := ih h
            refine ⟨k + l, haccounts.trans hrest, ?_⟩
            rw [hreported, hok done' (some c) rfl, Nat.add_assoc]

end Drop

/-- **A drop counts what it takes off.** Whatever failures are due, what a drop reports to have
deleted is the number of entities that are gone, and the counter has gone up by it. -/
theorem accounts_dropAll {pageSize : Nat} {kind : String} {r : Except DropError DropSummary}
    {w w' : Session Memory} (h : (dropAll Memory.store pageSize kind).exec w = (r, w')) :
    Drop.Accounts w w' (Drop.reported r) := by
  cases hpages : (Drop.pagesFrom Memory.store (max pageSize 1) (Memory.store.patience w.store) none
      ⟨kind, 0, 0⟩).exec w.opened with
  | mk result w₁ =>
      obtain ⟨k, ⟨hlost, hcounted⟩, hreported⟩ := Drop.accounts_pagesFrom hpages
      obtain rfl := (hreported.trans (Nat.zero_add k)).symm
      cases result with
      | error e =>
          obtain ⟨w₂, hexec, hstore, hmetrics⟩ := exec_dropAll_error hpages
          rw [hexec] at h
          cases h
          refine ⟨hstore ▸ hlost, ?_⟩
          rw [hmetrics]
          exact hcounted
      | ok done =>
          obtain ⟨w₂, hexec, hstore, hmetrics⟩ := exec_dropAll_ok hpages
          rw [hexec] at h
          cases h
          refine ⟨hstore ▸ hlost, ?_⟩
          rw [hmetrics]
          exact hcounted

/-! ## Requests in a row -/

namespace Engine

variable {config : Config} {registry : Registry} {kind : String} {w w' : Session Memory}

def Request.isDrop : Request → Bool
  | .drop => true
  | _ => false

/-- The number of entities that a drop has taken off, and nothing for other requests. -/
def Exchange.dropped (x : Exchange Memory) : Nat :=
  if x.request.isDrop then x.before.store.gone x.after.store else 0

/-- A drop reports what it has taken off, and counts it. -/
theorem accounts_handle_drop {response : Except Failure Answer}
    (h : (handle ⟨Memory.store, config, registry⟩ kind .drop).exec w = (response, w')) :
    Drop.Accounts w w' (w.store.gone w'.store) ∧
      ((∃ done, response = .ok (.dropped done) ∧ done.deleted = w.store.gone w'.store) ∨
        ∃ e, response = .error (.drop e) ∧ e.done.deleted = w.store.gone w'.store) := by
  cases hdrop : (dropAll Memory.store config.dropPageSize kind).exec w with
  | mk r w₁ =>
      have haccounts := accounts_dropAll hdrop
      rw [handle, exec_bind_pure, drop, exec_adapt, hdrop] at h
      cases h
      rw [haccounts.lost.gone_eq]
      refine ⟨haccounts, ?_⟩
      cases r with
      | error e => exact .inr ⟨e, rfl, rfl⟩
      | ok done => exact .inl ⟨done, rfl, rfl⟩

theorem deleted_handle {request : Request} {response : Except Failure Answer}
    (h : (handle ⟨Memory.store, config, registry⟩ kind request).exec w = (response, w')) :
    w'.metrics.value .entitiesDeleted = w.metrics.value .entitiesDeleted +
      .ofNat (Exchange.dropped ⟨kind, request, w, response, w'⟩) := by
  let E : Engine Memory := ⟨Memory.store, config, registry⟩
  have hother : Uses E.store True (·.ofCheck = true) (E.handle kind request) →
      w'.metrics.value .entitiesDeleted = w.metrics.value .entitiesDeleted + 0 :=
    fun huses => (huses.leaves (by decide)).counts.of_exec h
  cases request with
  | call call =>
      exact hother ((uses_serve (fun _ hc => hc) trivial kind call).bind fun _ => uses_pure _)
  | check records =>
      refine hother ((uses_model E kind).bind fun M => ?_)
      exact (uses_conflicts fun _ hc => hc).bind fun _ => uses_pure _
  | drop => exact (accounts_handle_drop h).1.counted

/-- **Drops count what they delete.** Whatever requests are made in a row and whatever failures are
due, the counter of deleted entities grows by the number of entities that the drops have taken off
the memory, those included that failed. Each drop reports this number for itself. -/
theorem entitiesDeleted_of_drops (config : Config) (registry : Registry)
    (requests : List (String × Request)) (w : Session Memory) :
    let E : Engine Memory := ⟨Memory.store, config, registry⟩
    (E.handleAll requests w).2.metrics.value .entitiesDeleted =
        w.metrics.value .entitiesDeleted +
          .ofNat ((E.handleAll requests w).1.map Exchange.dropped).sum ∧
      ∀ x ∈ (E.handleAll requests w).1, x.request = .drop →
        (∃ done, x.response = .ok (.dropped done) ∧
            done.deleted = x.before.store.gone x.after.store) ∨
          ∃ e, x.response = .error (.drop e) ∧
            e.done.deleted = x.before.store.gone x.after.store := by
  intro E
  constructor
  · refine value_handleAll (J := fun _ => True) ?_ requests w trivial
    intro kind request w response w' _ hexec
    exact ⟨trivial, deleted_handle hexec⟩
  · refine forall_mem_handleAll ?_ requests w
    rintro kind request w response w' hexec rfl
    exact (accounts_handle_drop hexec).2

/-- All three notes are destroyed, and the counter stays at zero. -/
theorem entitiesDeleted_misses_destroy :
    let E : Engine Memory := ⟨Memory.store, .default, ⟨[notes]⟩⟩
    let run := E.handleAll [("Note", .call (.destroy .everything))] (.start Pull.threeNotes)
    (run.1.map fun x => x.response.isOk) = [true] ∧
      (run.1.map fun x => x.before.store.gone x.after.store) = [3] ∧
      run.2.metrics.value .entitiesDeleted = 0 := by
  rw [Memory.store_eq_storeBy]
  decide +kernel

end Engine

end Quarry
