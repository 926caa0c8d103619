import Quarry.Proofs.Store.Pages
import Quarry.Proofs.Store.Writes

/-!
# Memories up to what queries change

A query changes nothing but the log and the number of failures that are due for queries. Neither is
looked at by an answer, by an insertion or by a removal.
-/

namespace Quarry

namespace Memory

variable {m s : Memory}

/-- The memory without what queries change. -/
def quiet (m : Memory) : Memory := { m with log := [], faults := { m.faults with queries := 0 } }

/-- The memory without its log and its failures. -/
def bare (m : Memory) : Memory := { m with faults := .none, log := [] }

theorem bare_of_quiet (h : s.quiet = m.quiet) : s.bare = m.bare := by
  show s.quiet.bare = m.quiet.bare
  rw [h]

theorem space_of_bare (h : s.bare = m.bare) : s.space = m.space := by
  show s.bare.space = m.bare.space
  rw [h]

theorem table_of_bare (h : s.bare = m.bare) : s.table = m.table := by
  show s.bare.table = m.bare.table
  rw [h]

theorem nextId_of_bare (h : s.bare = m.bare) : s.nextId = m.nextId := by
  show s.bare.nextId = m.bare.nextId
  rw [h]

theorem answer_bare (q : Query) (m : Memory) : m.bare.answer q = m.answer q := answer_congr rfl rfl

theorem quiet_run (q : Query) (m : Memory) : (m.run q).2.quiet = m.quiet := by
  cases hfaults : m.faults.queries with
  | zero =>
      rw [run_of_no_faults hfaults]
      rfl
  | succ n =>
      rw [run_of_fault hfaults]
      rfl

theorem bare_run (q : Query) (m : Memory) : (m.run q).2.bare = m.bare :=
  bare_of_quiet (quiet_run q m)

/-- A query that is answered is answered by what is stored. -/
theorem answer_of_run {q : Query} {page : Page} (h : (m.run q).1 = .ok page) :
    m.answer q = .ok page := by
  cases hfaults : m.faults.queries with
  | zero =>
      rw [run_of_no_faults hfaults] at h
      exact h
  | succ n =>
      rw [run_of_fault hfaults] at h
      cases h

/-- An insertion does not depend on the log and on failures that are due, and leaves both. -/
theorem insert_with (m : Memory) (faults : Faults) (log : List Query) (e : Entity) :
    ({ m with faults, log } : Memory).insert e =
      ((m.insert e).1, { (m.insert e).2 with faults, log }) := by
  by_cases hpath : e.key.path = []
  · rw [insert_of_no_path hpath, insert_of_no_path hpath]
  · cases hcomplete : e.key.isComplete with
    | true =>
        rw [insert_of_complete hcomplete, insert_of_complete hcomplete]
    | false =>
        rw [insert_of_incomplete hpath hcomplete, insert_of_incomplete hpath hcomplete]

theorem faults_insert (m : Memory) (e : Entity) : (m.insert e).2.faults = m.faults := by
  rcases m.insert_cases e with ⟨err, hcase⟩ | ⟨k, id, hcase⟩ <;> rw [hcase]

theorem insert_bare (m : Memory) (e : Entity) :
    m.bare.insert e = ((m.insert e).1, (m.insert e).2.bare) :=
  m.insert_with .none [] e

theorem insert_quiet (m : Memory) (e : Entity) :
    m.quiet.insert e = ((m.insert e).1, (m.insert e).2.quiet) := by
  rw [quiet, quiet, faults_insert]
  exact m.insert_with { m.faults with queries := 0 } [] e

end Memory

end Quarry
