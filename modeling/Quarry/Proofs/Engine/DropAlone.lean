import Quarry.Proofs.Engine.Drive
import Quarry.Proofs.Engine.Drop
import Quarry.Proofs.Store.Writes

/-!
# A drop that has the memory to itself

On a memory without failures and without other clients, a drop deletes the entities of its kind page
by page, and nothing else. Dropping the kind again finds nothing.
-/

namespace Quarry

open Pull (logged threeNotes)

namespace Drop

variable {m : Memory} {kind : String} {pageSize : Nat} {w : Session Memory}

/-- The number of pages that a drop deletes. -/
def pagesOf (m : Memory) (kind : String) (pageSize : Nat) : Nat :=
  (m.count kind + min pageSize m.cap - 1) / min pageSize m.cap

/-- The memory after some pages, with a query logged for each. -/
def After (m : Memory) (kind : String) (pageSize i : Nat) (s : Memory) : Prop :=
  ∃ qs, s = logged (m.dropped kind (i * min pageSize m.cap)) (m.log ++ qs) ∧ qs.length = i

theorem query_logged (hqueries : m.faults.queries = 0) (kind : String) (n : Nat) (q : Query)
    (log : List Query) :
    Memory.store.query q (logged (m.dropped kind n) log) =
      ((m.dropped kind n).answer q, logged (m.dropped kind n) (log ++ [q])) :=
  Pull.redeem_logged (m := m.dropped kind n) hqueries q log

theorem passes_after (hqueries : m.faults.queries = 0) (hdeletes : m.faults.deletes = 0) (i : Nat)
    {s : Memory} (hs : After m kind pageSize i s) :
    ∃ s', Passes Memory.store m kind pageSize i s s' ∧ After m kind pageSize (i + 1) s' := by
  obtain ⟨qs, rfl, hqs⟩ := hs
  refine ⟨_, ⟨rfl, _, query_logged hqueries _ _ _ _, Memory.delete_of_no_faults hdeletes⟩,
    qs ++ [m.dropQuery kind pageSize (i * min pageSize m.cap)], ?_, ?_⟩
  · rw [Nat.add_one_mul, ← List.append_assoc]
    unfold logged Memory.dropped
    simp only
    congr 1
    exact m.table_eraseAll_dropKeys kind pageSize _
  · rw [List.length_append, hqs]
    rfl

theorem pagesOf_eq_succ (hsize : 0 < pageSize) (hkind : 0 < m.count kind) :
    ∃ i, pagesOf m kind pageSize = i + 1 ∧ i * min pageSize m.cap < m.count kind ∧
      m.count kind ≤ (i + 1) * min pageSize m.cap := by
  have hcap := m.cap_pos
  have hmin : 0 < min pageSize m.cap := by omega
  unfold pagesOf
  generalize min pageSize m.cap = size at hmin ⊢
  have hdiv := Nat.div_add_mod (m.count kind + size - 1) size
  have hmod := Nat.mod_lt (m.count kind + size - 1) hmin
  have hpos : 0 < (m.count kind + size - 1) / size := Nat.div_pos (by omega) hmin
  obtain ⟨i, hi⟩ := Nat.exists_eq_succ_of_ne_zero (Nat.ne_of_gt hpos)
  rw [hi, Nat.mul_succ] at hdiv
  refine ⟨i, hi, ?_, ?_⟩
  · rw [Nat.mul_comm]
    omega
  · rw [Nat.mul_comm, Nat.mul_succ]
    omega

theorem pagesOf_eq_zero (hsize : 0 < pageSize) (hkind : m.count kind = 0) :
    pagesOf m kind pageSize = 0 := by
  have hcap := m.cap_pos
  rw [pagesOf, hkind]
  exact Nat.div_eq_of_lt (by omega)

theorem count_le_length (m : Memory) (kind : String) : m.count kind ≤ m.table.entities.length :=
  List.countP_le_length

/-- A drop of a kind of which there is nothing ends on its first page. -/
theorem exec_pagesFrom_none (hqueries : m.faults.queries = 0) (hsize : 0 < pageSize)
    (hkind : m.count kind = 0) {w : Session Memory} (hw : w.store = m) (n : Nat) :
    ∃ w', (pagesFrom Memory.store pageSize (n + 1) none ⟨kind, 0, 0⟩).exec w =
        (.ok ⟨kind, 0, 0⟩, w') ∧
      w'.store = logged m (m.log ++ [m.dropQuery kind pageSize 0]) ∧
      w'.metrics = w.metrics := by
  obtain ⟨page, hanswer, hkeys, _⟩ := m.answer_dropped hsize kind 0
  have hnil : keys page = [] := by
    rw [hkeys, ← List.length_eq_zero_iff, m.length_dropKeys, hkind]
    exact Nat.min_zero _
  have hquery := query_logged hqueries kind 0 (m.dropQuery kind pageSize 0) m.log
  rw [hanswer] at hquery
  have hstore : w.store = logged (m.dropped kind 0) m.log := hw
  have hfetch : Memory.store.query (pageQuery w.store.space kind pageSize none) w.store =
      (.ok page, logged (m.dropped kind 0) (m.log ++ [m.dropQuery kind pageSize 0])) := by
    rw [hstore]
    exact hquery
  obtain ⟨w', hstep, hstore', hmetrics⟩ : ∃ w',
      (step Memory.store pageSize none ⟨kind, 0, 0⟩).exec w = (.ok (⟨kind, 0, 0⟩, none), w') ∧
        w'.store = _ ∧ w'.metrics = w.metrics := exec_step_empty hfetch hnil
  exact ⟨w', exec_pagesFrom_last hstep, hstore', hmetrics⟩

end Drop

open Drop in
/-- A drop on a memory to itself: what it reports, what it leaves and what it has asked. -/
theorem exec_dropAll_alone (m : Memory) (hqueries : m.faults.queries = 0)
    (hdeletes : m.faults.deletes = 0) (pageSize : Nat) (kind : String) (w : Session Memory)
    (hw : w.store = m) :
    ∃ qs w', (dropAll Memory.store pageSize kind).exec w =
        (.ok ⟨kind, pagesOf m kind (max pageSize 1), m.count kind⟩, w') ∧
      w'.store = logged (m.dropped kind (m.count kind)) (m.log ++ qs) ∧
      qs.length = max 1 (pagesOf m kind (max pageSize 1)) := by
  have hsize : 0 < max pageSize 1 := by omega
  have hpatience : Memory.store.patience w.store = m.table.entities.length + 1 := by
    rw [hw]
    rfl
  rcases Nat.eq_zero_or_pos (m.count kind) with hkind | hkind
  · obtain ⟨w₁, hexec, hstore, _⟩ := exec_pagesFrom_none hqueries hsize hkind
      (w := w.opened) hw m.table.entities.length
    rw [← hpatience] at hexec
    obtain ⟨w', hdrop, hstore', _⟩ := exec_dropAll_ok hexec
    have hpages := pagesOf_eq_zero hsize hkind
    refine ⟨[m.dropQuery kind (max pageSize 1) 0], w', ?_, ?_, ?_⟩
    · rw [hdrop, hpages, hkind]
    · rw [hstore', hstore, hkind, Memory.dropped_zero]
    · rw [hpages]
      rfl
  · obtain ⟨i, hpages, hbefore, hafter⟩ := pagesOf_eq_succ hsize hkind
    have hpass : ∀ j, ∀ s, After m kind (max pageSize 1) j s →
        ∃ s', Passes Memory.store m kind (max pageSize 1) j s s' ∧
          After m kind (max pageSize 1) (j + 1) s' :=
      fun j s hs => passes_after hqueries hdeletes j hs
    have hnone : After m kind (max pageSize 1) 0 w.opened.store :=
      ⟨[], by rw [Nat.zero_mul, Memory.dropped_zero, List.append_nil]; exact hw, rfl⟩
    have hcap := m.cap_pos
    have hi : i ≤ m.table.entities.length := by
      have hcount := count_le_length m kind
      have hmul := Nat.le_mul_of_pos_right i (m := min (max pageSize 1) m.cap) (by omega)
      omega
    -- All pages but the last are followed by another, and the last ends the drop.
    obtain ⟨w₁, hw₁, _, hexec₁⟩ := exec_pagesFrom_passes hsize (After m kind (max pageSize 1))
      (fun j _ => hpass j) (.inr hbefore) hnone (m.table.entities.length - i + 1)
    obtain ⟨s, hpasses, qs, hs, hqs⟩ := hpass i w₁.store hw₁
    obtain ⟨w₂, hstep, hstore₂, _⟩ := exec_step_passes hsize hbefore hpasses
    rw [if_pos hafter] at hstep
    rw [exec_pagesFrom_last hstep] at hexec₁
    have hturns : i + (m.table.entities.length - i + 1) = Memory.store.patience w.store := by
      rw [hpatience]
      omega
    rw [hturns] at hexec₁
    obtain ⟨w', hdrop, hstore', _⟩ := exec_dropAll_ok hexec₁
    refine ⟨qs, w', ?_, ?_, ?_⟩
    · rw [hdrop, doneAfter, hpages, Nat.min_eq_right hafter]
    · rw [hstore', hstore₂, hs, Memory.dropped_of_le hafter]
    · rw [hqs, hpages]
      omega

/-- **A drop takes all of its kind, and only that.** On a memory without failures and without other
clients, a drop reports every entity of its kind in the namespace as deleted, in as many pages as
they fill. It runs a query for each page, and at least one. No entity of the kind is left, and
nothing else has changed but the log. Dropping the kind again finds nothing to delete. -/
theorem dropAll_alone (m : Memory) (hqueries : m.faults.queries = 0)
    (hdeletes : m.faults.deletes = 0) (pageSize : Nat) (kind : String) (w : Session Memory)
    (hw : w.store = m) :
    let size := min (max pageSize 1) m.cap
    let pages := (m.count kind + size - 1) / size
    ∃ qs w', (dropAll Memory.store pageSize kind).exec w =
        (.ok ⟨kind, pages, m.count kind⟩, w') ∧
      qs.length = max 1 pages ∧
      w'.store = { m with table := w'.store.table, log := m.log ++ qs } ∧
      w'.store.count kind = 0 ∧
      w'.store.table.entities =
        m.table.entities.filter (fun e => ¬ (e.key.space = m.space ∧ e.key.kind = kind)) ∧
      ∀ pageSize', ∃ w'', (dropAll Memory.store pageSize' kind).exec w' =
          (.ok ⟨kind, 0, 0⟩, w'') ∧
        w''.store.table = w'.store.table := by
  intro size pages
  obtain ⟨qs, w', hexec, hstore, hqs⟩ :=
    exec_dropAll_alone m hqueries hdeletes pageSize kind w hw
  have hcount : w'.store.count kind = 0 := by
    rw [hstore]
    exact m.count_dropped kind
  refine ⟨qs, w', hexec, hqs, ?_, hcount, ?_, ?_⟩
  · rw [hstore]
    rfl
  · rw [hstore]
    exact Memory.entities_dropped_all (Nat.le_refl _)
  · intro pageSize'
    obtain ⟨_, w'', hexec', hstore', _⟩ := exec_dropAll_alone w'.store
      (by rw [hstore]; exact hqueries) (by rw [hstore]; exact hdeletes) pageSize' kind w' rfl
    rw [Drop.pagesOf_eq_zero (by omega) hcount, hcount] at hexec'
    refine ⟨w'', hexec', ?_⟩
    rw [hstore', hcount]
    rfl

/-- A page size of nothing counts as one, so that three notes are dropped in three pages. -/
theorem dropAll_alone_threeNotes :
    ∃ (qs : List Query) (w' : Session Memory),
      (dropAll Memory.store 0 "Note").exec (.start threeNotes) = (.ok ⟨"Note", 3, 3⟩, w') ∧
      w'.store.log = qs ∧ qs.length = 3 ∧ w'.store.count "Note" = 0 := by
  obtain ⟨qs, w', hexec, hqs, hstore, hcount, _⟩ :=
    dropAll_alone threeNotes rfl rfl 0 "Note" (.start threeNotes) rfl
  refine ⟨qs, w', hexec, ?_, hqs, hcount⟩
  rw [hstore]
  rfl

end Quarry
