import Quarry.Proofs.Engine.Drive
import Quarry.Proofs.Engine.Sweep
import Quarry.Proofs.Store.Quiet
import Quarry.Store.Rehearsal

/-!
# Drains among other clients

Other clients insert, overwrite and remove entities between the runs of a drain. The memory that a
page is read from is that of its moment, up to the log and the failures that are due.
-/

namespace Quarry

open Rehearsal

/-! ## The course of a memory -/

namespace Memory

/-- What clients other than the drain do to a memory before its run `i`. -/
def written (schedule : Nat → List Deed) (i : Nat) (m : Memory) : Memory :=
  (schedule i).foldl act m

/-- The memory after all that others have done up to run `i`. -/
def moment (schedule : Nat → List Deed) (m : Memory) : Nat → Memory
  | 0 => m.written schedule 0
  | i + 1 => (m.moment schedule i).written schedule (i + 1)

theorem bare_act (m : Memory) (d : Deed) : (act m d).bare = act m.bare d := by
  cases d with
  | fail e => rfl
  | remove k => rfl
  | insert e =>
      show (m.insert e).2.bare = (m.bare.insert e).2
      rw [m.insert_bare e]

theorem bare_written (schedule : Nat → List Deed) (i : Nat) (m : Memory) :
    (m.written schedule i).bare = m.bare.written schedule i :=
  (List.foldl_hom bare fun m d => (bare_act m d).symm).symm

end Memory

/-! ## Drains -/

namespace Pull

variable {schedule : Nat → List Deed} {m : Memory}

/-- A drain that is run to its end among others has ended page by page. -/
theorem yields_of_drive {n i : Nat} {d d' : Drain} {q : Query} {w w' : Session Memory}
    (hw : w.store.bare = (m.moment schedule i).bare)
    (h : (drive Memory.store (Memory.written schedule) (i + 1) n (asked d (.running q))).exec w =
      (.ok (some d'), w')) :
    ∃ qs, Drain.Yields (m.moment schedule) (i + 1) d q qs d' := by
  induction n generalizing i d q w with
  | zero => cases h
  | succ n ih =>
      -- Before its run, the drain finds what the others have made of the memory. Only the log and
      -- the failures can differ, and no page shows these.
      have hstore : (w.store.written schedule (i + 1)).bare = (m.moment schedule (i + 1)).bare := by
        rw [Memory.moment, Memory.bare_written, Memory.bare_written, hw]
      cases hrun : (w.store.written schedule (i + 1)).run q with
      | mk answer s =>
          cases answer with
          | error e =>
              rw [exec_drive_failed (S := Memory.store) (t := .running q) hrun] at h
              cases h
          | ok page =>
              have hpage : (m.moment schedule (i + 1)).answer q = .ok page := by
                rw [← Memory.answer_bare, ← hstore, Memory.answer_bare]
                exact Memory.answer_of_run (congrArg Prod.fst hrun)
              cases hnext : (d.add page).next? page with
              | none =>
                  rw [exec_drive_last (S := Memory.store) (t := .running q) hrun hnext] at h
                  cases h
                  exact ⟨[q], .last hpage hnext⟩
              | some c =>
                  rw [exec_drive_more (S := Memory.store) (t := .running q) hrun hnext rfl] at h
                  have hs : s.bare = (m.moment schedule (i + 1)).bare := by
                    rw [← hstore, ← Memory.bare_run q (w.store.written schedule (i + 1)), hrun]
                  obtain ⟨qs, hrest⟩ := ih (i := i + 1) hs h
                  exact ⟨q :: qs, .more hpage hnext hrest⟩

/-- **Draining in key order among writers.** Other clients insert, overwrite and remove entities
before each run of a drain that has no sort order, offset, limit or start and looks up no key. If
the drain comes to its end, its slots hold entities in strict key order, so that none comes twice.
Each entity was stored and matched when its page was read. A key whose entity was stored and matched
whenever a page was read occurs exactly once. -/
theorem drive_among_writers (schedule : Nat → List Deed) (q : Query)
    (hlookup : q.keyLookup? = none) (horders : q.orders = []) (hoffset : q.offset = none)
    (hlimit : q.limit = none) (hstart : q.start = none) (n : Nat) (d : Drain)
    (w w' : Session Memory)
    (h : ((fresh q).drive Memory.store (Memory.written schedule) 0 n).exec w =
      (.ok (some d), w')) :
    ∃ pages : List (List Entity),
      d.slots = pages.flatten.map some ∧ d.batches = pages.length ∧
      pages.flatten.Pairwise (fun a b => compare a.key b.key = .lt) ∧
      (∀ i page, pages[i]? = some page → ∀ e ∈ page,
        ∃ x ∈ (w.store.moment schedule (i + 1)).table.entities,
          q.covers x.key ∧ q.satisfiedBy x ∧ e = q.shape x) ∧
      ∀ k, (∀ i < pages.length, ∃ x ∈ (w.store.moment schedule (i + 1)).table.entities,
          x.key = k ∧ q.covers x.key ∧ q.satisfiedBy x) →
        pages.flatten.countP (fun e => e.key = k) = 1 := by
  rcases n with _ | n
  · cases h
  rw [exec_drive_suspended (exec_fresh _ _ _)] at h
  obtain ⟨qs, hyields⟩ := yields_of_drive (m := w.store) (i := 0) rfl h
  have hfrom : q = q.fromKey none := by
    cases q
    cases hstart
    rfl
  obtain ⟨pages, hsweep, hlength, hslots⟩ :=
    Drain.sweep_of_yields hlookup horders hoffset hlimit hyields rfl hlimit hfrom
  refine ⟨pages, hslots, ?_, hsweep.ordered, ?_, ?_⟩
  · rw [Drain.batches_of_yields hyields, hlength]
    exact Nat.zero_add _
  · intro i page hpage e he
    obtain ⟨x, hx, hshape⟩ := hsweep.stored i page hpage e he
    rw [Nat.add_comm] at hx
    obtain ⟨hmem, hmatch⟩ := List.mem_filter.1 hx
    rw [Bool.and_eq_true] at hmatch
    exact ⟨x, hmem, hmatch.1, hmatch.2, hshape⟩
  · intro k hk
    obtain ⟨e, he, hkey⟩ := hsweep.complete k rfl (by
      intro i hi
      obtain ⟨x, hx, hkey, hcovers, hmatch⟩ := hk i hi
      rw [Nat.add_comm]
      exact ⟨x, List.mem_filter.2 ⟨hx, by rw [hcovers, hmatch]; rfl⟩, hkey⟩)
    rw [← hkey]
    exact countP_key_eq_one hsweep.ordered he

/-- The key of a note. -/
def note (n : Int64) : Key := ⟨none, [⟨"Note", some (.number n)⟩]⟩

/-- The first note is removed when the first page has been read. -/
def firstRemoved : Nat → List Deed
  | 2 => [.remove (note 1)]
  | _ => []

/-- The third note is met once, on the second page, although the first is gone by then. -/
theorem drive_among_writers_firstRemoved :
    ∃ (d : Drain) (w' : Session Memory) (pages : List (List Entity)),
      ((fresh (.ofKind none "Note")).drive Memory.store (Memory.written firstRemoved) 0 4).exec
        (.start threeNotes) = (.ok (some d), w') ∧
      d.slots = pages.flatten.map some ∧ pages.length = 2 ∧
      pages.flatten.countP (fun e => e.key = note 3) = 1 := by
  generalize hrun : ((fresh (.ofKind none "Note")).drive Memory.store
    (Memory.written firstRemoved) 0 4).exec (.start threeNotes) = out
  have hends : out.1.toOption.join.map Drain.batches = some 2 := by
    rw [← hrun, Memory.store_eq_storeBy]
    decide +kernel
  rcases out with ⟨_ | _ | d, w'⟩
  · cases hends
  · cases hends
  · obtain ⟨pages, hslots, hlength, _, _, honce⟩ :=
      drive_among_writers firstRemoved (.ofKind none "Note") rfl rfl rfl rfl rfl 4 d
        (.start threeNotes) w' hrun
    have htwo : pages.length = 2 := hlength.symm.trans (Option.some.inj hends)
    have hpresent := honce (note 3) (by rw [htwo]; decide +kernel)
    exact ⟨d, w', pages, rfl, hslots, htwo, hpresent⟩

end Pull

end Quarry
