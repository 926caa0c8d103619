import Quarry.Proofs.Store.Writes

/-!
# Batches that fail

A batch to be saved is stored one entity after another. It stops at a key with an empty path, and
what it has stored by then remains. Updates and deletions look at the whole batch before they write
anything.
-/

namespace Quarry

namespace Memory

variable {m m' : Memory} {es fs : List Entity} {ks : List Key}

/-! ## Batches in parts -/

/-- A batch that is stored is stored part by part. -/
theorem insertAll_append_eq_ok (h : m.insertAll (es ++ fs) = (.ok ks, m')) :
    ∃ ks₁ m₁ ks₂, m.insertAll es = (.ok ks₁, m₁) ∧ m₁.insertAll fs = (.ok ks₂, m') ∧
      ks = ks₁ ++ ks₂ := by
  induction es generalizing m ks with
  | nil => exact ⟨[], m, ks, rfl, h, rfl⟩
  | cons e es ih =>
      obtain ⟨k, m₁, rest, hinsert, hrest, rfl⟩ := insertAll_cons_eq_ok.1 h
      obtain ⟨ks₁, m₂, ks₂, hes, hfs, rfl⟩ := ih hrest
      exact ⟨k :: ks₁, m₂, ks₂, insertAll_cons_eq_ok.2 ⟨k, m₁, ks₁, hinsert, hes, rfl⟩, hfs, rfl⟩

/-- A batch that fails has met a key with an empty path, and has stored what stands before it. -/
theorem insertAll_eq_error {err : StoreError} (h : m.insertAll es = (.error err, m')) :
    ∃ before e after ks, es = before ++ e :: after ∧ e.key.path = [] ∧
      m.insertAll before = (.ok ks, m') := by
  induction es generalizing m with
  | nil => cases h
  | cons e es ih =>
      rcases insertAll_cons_eq_error h with hinsert | ⟨k, m₁, hinsert, hrest⟩
      · obtain ⟨hpath, rfl⟩ := insert_eq_error hinsert
        exact ⟨[], e, es, [], rfl, hpath, rfl⟩
      · obtain ⟨before, x, after, ks, rfl, hx, hbefore⟩ := ih hrest
        exact ⟨e :: before, x, after, k :: ks, rfl, hx,
          insertAll_cons_eq_ok.2 ⟨k, m₁, ks, hinsert, hbefore, rfl⟩⟩

/-! ## Failures -/

theorem update_eq_error {err : StoreError} (h : m.update es = (.error err, m')) :
    ∃ faults, m' = { m with faults } := by
  rcases m.update_cases es with ⟨e, faults, hcase⟩ | ⟨_, hcase⟩
  · rw [hcase] at h
    cases h
    exact ⟨faults, rfl⟩
  · rw [hcase] at h
    cases h

theorem delete_eq_error {err : StoreError} (h : m.delete ks = (.error err, m')) :
    ∃ faults, m' = { m with faults } := by
  rcases m.delete_cases ks with ⟨e, faults, hcase⟩ | hcase
  · rw [hcase] at h
    cases h
    exact ⟨faults, rfl⟩
  · rw [hcase] at h
    cases h

/-- A batch to be saved fails because it is due to, or at a key with an empty path. -/
theorem save_eq_error {err : StoreError} (h : m.save es = (.error err, m')) :
    (∃ faults, m' = { m with faults }) ∨
      ∃ before e after ks, es = before ++ e :: after ∧ e.key.path = [] ∧
        m.insertAll before = (.ok ks, m') := by
  cases hfaults : m.faults.writes with
  | zero =>
      rw [save_of_no_faults hfaults] at h
      exact .inr (insertAll_eq_error h)
  | succ n =>
      rw [save_of_fault hfaults] at h
      cases h
      exact .inl ⟨_, rfl⟩

/-- **What a failed write leaves.** An update or a deletion that fails has changed no entity. A
batch to be saved has changed none either, unless it holds a key with an empty path behind other
entities: then it has stored those. -/
theorem table_of_failed_write (m : Memory) :
    (∀ es err m', m.update es = (.error err, m') → m'.table = m.table) ∧
      (∀ ks err m', m.delete ks = (.error err, m') → m'.table = m.table) ∧
      ∀ es err m', m.save es = (.error err, m') → m'.table = m.table ∨
        ∃ before e after ks, es = before ++ e :: after ∧ before ≠ [] ∧ e.key.path = [] ∧
          m.insertAll before = (.ok ks, m') := by
  refine ⟨?_, ?_, ?_⟩
  · intro es err m' h
    obtain ⟨faults, rfl⟩ := update_eq_error h
    rfl
  · intro ks err m' h
    obtain ⟨faults, rfl⟩ := delete_eq_error h
    rfl
  · intro es err m' h
    rcases save_eq_error h with ⟨faults, rfl⟩ | ⟨before, e, after, ks, rfl, hpath, hbefore⟩
    · exact .inl rfl
    · cases before with
      | nil =>
          cases hbefore
          exact .inl rfl
      | cons x before =>
          exact .inr ⟨x :: before, e, after, ks, rfl, List.cons_ne_nil x before, hpath, hbefore⟩

/-! ## A key that leads nowhere -/

/-- An entity for the next number. -/
def unnumbered : Entity := ⟨⟨none, [⟨"Note", none⟩]⟩, .empty⟩

/-- An entity whose key has an empty path. -/
def nowhere : Entity := ⟨⟨none, []⟩, .empty⟩

/-- Where a deletion is to fail, nothing is deleted, and what is not there is not updated. A batch
is stored up to the key with an empty path. -/
theorem table_of_failed_write_nowhere :
    let m := { ((empty none 10).insert unnumbered).2 with faults := ⟨0, 0, 1⟩ }
    (m.update [unnumbered]).2.table = m.table ∧ (m.delete [unnumbered.key]).2.table = m.table ∧
      ∃ ks, m.insertAll [unnumbered] = (.ok ks, (m.save [unnumbered, nowhere]).2) := by
  intro m
  obtain ⟨hupdate, hdelete, hsave⟩ := table_of_failed_write m
  refine ⟨hupdate [unnumbered] (.notFound "Note(?)") _ (by decide +kernel),
    hdelete [unnumbered.key] (.deleteFailed injected) _ rfl, ?_⟩
  rcases hsave [unnumbered, nowhere] (.writeFailed "key has an empty path") _ rfl with
    htable | ⟨before, e, after, ks, hes, hne, _, hrun⟩
  · exact absurd htable (by decide +kernel)
  · obtain ⟨x, rest, rfl⟩ := List.exists_cons_of_ne_nil hne
    obtain ⟨rfl, hrest⟩ := List.cons.inj hes
    cases rest with
    | nil => exact ⟨ks, hrun⟩
    | cons y rest =>
        have hlength := congrArg List.length hrest
        simp at hlength

/-- A batch fails although the entity before the failure has been stored. -/
theorem save_not_atomic :
    ∃ (err : StoreError) (m' : Memory),
      (empty none 10).save [unnumbered, nowhere] = (.error err, m') ∧
      m'.table ≠ (empty none 10).table :=
  ⟨_, _, rfl, by decide +kernel⟩

end Memory

end Quarry
