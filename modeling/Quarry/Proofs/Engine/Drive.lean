import Quarry.Engine.FanOut
import Quarry.Proofs.Engine.Drain
import Quarry.Proofs.Running
import Quarry.Proofs.Store.Evaluation

/-!
# One drain run to its end

A drain is run on its own, and other clients may act on the store between its runs. On a memory that
stays as it is, the drain comes to its end, and the memory has logged its queries and is otherwise
unchanged.
-/

namespace Quarry

namespace Pull

variable {σ : Type}

/-- Runs the task of a drain to its end, through no more than `n` runs. Before run `i`, others do
`others i` to the store. None if the task is still open. -/
def drive (S : Store σ) (others : Nat → σ → σ) :
    Nat → Nat → Pull → Action σ StoreError (Option Drain)
  | _, 0, _ => return none
  | i, n + 1, p => do
    Action.onStore fun s => ((), others i s)
    match ← p.advance S with
    | .ended d => return some d
    | .suspended p => drive S others (i + 1) n p

/-! ## Single runs -/

theorem exec_fresh (S : Store σ) (q : Query) (w : Session σ) :
    ((fresh q).advance S).exec w =
      (.ok (.suspended (asked (.start q) (S.ask q w.store).1)),
        { w with store := (S.ask q w.store).2 }) := rfl

theorem exec_asked_error {S : Store σ} {d : Drain} {t : Ticket} {w : Session σ} {e : StoreError}
    {s : σ} (h : S.redeem t w.store = (.error e, s)) :
    ((asked d t).advance S).exec w = (.error e, { w with store := s }) := by
  rw [advance, Action.exec_bind, Action.exec_attempt, h]

theorem exec_asked_last {S : Store σ} {d : Drain} {t : Ticket} {w : Session σ} {page : Page}
    {s : σ} (h : S.redeem t w.store = (.ok page, s)) (hnext : (d.add page).next? page = none) :
    ((asked d t).advance S).exec w = (.ok (.ended (d.add page)), { w with store := s }) := by
  rw [advance, Action.exec_bind, Action.exec_attempt, h]
  simp only [hnext]
  rfl

/-- The line that is written before a drain asks for more. -/
def continued (d : Drain) : Line :=
  ⟨.trace, .queryContinued, [
    ("kind", d.query.kind),
    ("batch", toString d.batches),
    ("fetched", toString d.slots.length)]⟩

theorem exec_asked_more {S : Store σ} {d : Drain} {t : Ticket} {w : Session σ} {page : Page}
    {c : Cursor} {s s' : σ} {t' : Ticket} (h : S.redeem t w.store = (.ok page, s))
    (hnext : (d.add page).next? page = some c)
    (hask : S.ask ((d.add page).queryFrom c) s = (t', s')) :
    ((asked d t).advance S).exec w =
      (.ok (.suspended (asked (d.add page) t')),
        { w with store := s', journal := w.journal ++ [continued (d.add page)] }) := by
  rw [advance, Action.exec_bind, Action.exec_attempt, h]
  simp only [hnext]
  rw [Action.exec_bind_ok (Action.exec_report _ _ _ _),
    Action.exec_bind_ok (Action.exec_onStore _ _), hask]
  rfl

/-! ## Runs to the end -/

section Steps

variable {S : Store σ} {others : Nat → σ → σ} {i n : Nat} {p : Pull} {w w' : Session σ}

theorem exec_drive_ended {d : Drain}
    (h : (p.advance S).exec { w with store := others i w.store } = (.ok (.ended d), w')) :
    (drive S others i (n + 1) p).exec w = (.ok (some d), w') := by
  rw [drive, Action.exec_bind_ok (Action.exec_onStore _ _), Action.exec_bind_ok h]
  rfl

theorem exec_drive_suspended {p' : Pull}
    (h : (p.advance S).exec { w with store := others i w.store } = (.ok (.suspended p'), w')) :
    (drive S others i (n + 1) p).exec w = (drive S others (i + 1) n p').exec w' := by
  rw [drive, Action.exec_bind_ok (Action.exec_onStore _ _), Action.exec_bind_ok h]

theorem exec_drive_error {e : StoreError}
    (h : (p.advance S).exec { w with store := others i w.store } = (.error e, w')) :
    (drive S others i (n + 1) p).exec w = (.error e, w') := by
  rw [drive, Action.exec_bind_ok (Action.exec_onStore _ _), Action.exec_bind_error h]

variable {d : Drain} {t t' : Ticket} {page : Page} {s s' : σ}

theorem exec_drive_asks {q : Query} (h : S.ask q (others i w.store) = (t, s)) :
    (drive S others i (n + 1) (fresh q)).exec w =
      (drive S others (i + 1) n (asked (.start q) t)).exec { w with store := s } := by
  have hrun := exec_fresh S q { w with store := others i w.store }
  rw [h] at hrun
  exact exec_drive_suspended hrun

theorem exec_drive_failed {e : StoreError} (h : S.redeem t (others i w.store) = (.error e, s)) :
    (drive S others i (n + 1) (asked d t)).exec w = (.error e, { w with store := s }) :=
  exec_drive_error (exec_asked_error h)

theorem exec_drive_last (h : S.redeem t (others i w.store) = (.ok page, s))
    (hnext : (d.add page).next? page = none) :
    (drive S others i (n + 1) (asked d t)).exec w =
      (.ok (some (d.add page)), { w with store := s }) :=
  exec_drive_ended (exec_asked_last h hnext)

theorem exec_drive_more {c : Cursor} (h : S.redeem t (others i w.store) = (.ok page, s))
    (hnext : (d.add page).next? page = some c)
    (hask : S.ask ((d.add page).queryFrom c) s = (t', s')) :
    (drive S others i (n + 1) (asked d t)).exec w =
      (drive S others (i + 1) n (asked (d.add page) t')).exec
        { w with store := s', journal := w.journal ++ [continued (d.add page)] } :=
  exec_drive_suspended (exec_asked_more h hnext hask)

end Steps

/-! ## A memory that stays as it is -/

/-- Nobody else does anything. -/
def alone : Nat → Memory → Memory := fun _ m => m

variable {m : Memory}

/-- The memory with more queries run. -/
def logged (m : Memory) (log : List Query) : Memory := { m with log }

theorem redeem_logged (hfaults : m.faults.queries = 0) (q : Query) (log : List Query) :
    Memory.store.redeem (.running q) (logged m log) = (m.answer q, logged m (log ++ [q])) := by
  show (logged m log).run q = _
  rw [Memory.run_of_no_faults (m := logged m log) hfaults]
  exact congrArg (·, logged m (log ++ [q])) (Memory.answer_congr rfl rfl)

/-- A drain that ends page by page ends when it is run. -/
theorem exec_drive_of_yields (hfaults : m.faults.queries = 0) {moment : Nat} {d d' : Drain}
    {q : Query} {qs : List Query} (h : Drain.Yields (fun _ => m) moment d q qs d')
    {w : Session Memory} {log : List Query} (hw : w.store = logged m log) :
    ∃ w', w'.store = logged m (log ++ qs) ∧ ∀ i n, qs.length ≤ n →
      (drive Memory.store alone i n (asked d (.running q))).exec w = (.ok (some d'), w') := by
  induction h generalizing w log with
  | @last _ d q page hpage hnext =>
      have hredeem := redeem_logged hfaults q log
      rw [hpage, ← hw] at hredeem
      refine ⟨{ w with store := logged m (log ++ [q]) }, rfl, ?_⟩
      rintro i (_ | n) hn
      · exact absurd hn (Nat.not_succ_le_zero _)
      · exact exec_drive_last hredeem hnext
  | @more _ d q page c qs d' hpage hnext hrest ih =>
      have hredeem := redeem_logged hfaults q log
      rw [hpage, ← hw] at hredeem
      obtain ⟨w', hstore, hexec⟩ := ih (w := { w with
        store := logged m (log ++ [q])
        journal := w.journal ++ [continued (d.add page)] }) rfl
      refine ⟨w', ?_, ?_⟩
      · rw [hstore, List.append_assoc]
        rfl
      · rintro i (_ | n) hn
        · exact absurd hn (Nat.not_succ_le_zero _)
        · rw [exec_drive_more hredeem hnext rfl]
          exact hexec (i + 1) n (Nat.le_of_succ_le_succ hn)

/-- **Draining hides the cap.** On a memory without failures, and with no other clients, a drain of
a query without a start comes to its end with the slots that one page without a bound has. It runs
one query for each page that they fill, and at least one. The queries are logged, and nothing else
in the memory has changed. -/
theorem drive_alone (m : Memory) (q : Query) (hm : m.Fits) (hfaults : m.faults.queries = 0)
    (hstart : q.start = none) (u : Nat) (hu : 0 < u) (hlarge : m.table.entities.length ≤ u)
    (w : Session Memory) (hw : w.store = m) :
    ∃ page d qs w',
      ({ m with cap := u, cap_pos := hu }.run q).1 = .ok page ∧
      (∀ n, qs.length < n →
        ((fresh q).drive Memory.store alone 0 n).exec w = (.ok (some d), w')) ∧
      d.slots = page.slots ∧
      d.batches = qs.length ∧
      qs.length = max 1 ((page.slots.length + m.cap - 1) / m.cap) ∧
      w'.store = { m with log := m.log ++ qs } := by
  obtain ⟨qs, d, hyields, hslots, hlength⟩ := Drain.yields_allSlots hm hstart 0
  obtain ⟨page, hanswer, hpage⟩ := Memory.answer_of_large_cap
    (m := { m with cap := u, cap_pos := hu }) hstart hlarge
  have hall : Memory.allSlots q { m with cap := u, cap_pos := hu } = m.allSlots q := rfl
  have hstore : w.store = logged m m.log := hw
  obtain ⟨w', hlog, hexec⟩ := exec_drive_of_yields hfaults hyields hstore
  refine ⟨page, d, qs, w', ?_, ?_, ?_, ?_, ?_, hlog⟩
  · rw [Memory.run_of_no_faults (m := { m with cap := u, cap_pos := hu }) hfaults]
    exact hanswer
  · rintro (_ | n) hn
    · exact absurd hn (Nat.not_lt_zero _)
    · -- The first run asks the query, and the others read the pages.
      rw [exec_drive_suspended (exec_fresh _ _ _)]
      exact hexec 1 n (Nat.le_of_lt_succ hn)
  · rw [hslots, hpage, hall]
  · rw [Drain.batches_of_yields hyields]
    exact Nat.zero_add _
  · rw [hlength, hpage, hall]
    rfl

/-- A memory of three notes, two to a page. -/
def threeNotes : Memory :=
  (Memory.insertAll ([1, 2, 3].map fun n => ⟨⟨none, [⟨"Note", some (.number n)⟩]⟩, .empty⟩)
    (.empty none 2)).2

theorem fits_threeNotes : threeNotes.Fits := by
  unfold Memory.Fits
  decide

/-- Three notes, two to a page, are read in two pages. -/
theorem drive_alone_threeNotes :
    ∃ d w', (∀ n, 2 < n → ((fresh (.ofKind none "Note")).drive Memory.store alone 0 n).exec
        (.start threeNotes) = (.ok (some d), w')) ∧
      d.slots = threeNotes.table.entities.map some ∧ d.batches = 2 := by
  obtain ⟨page, d, qs, w', hpage, hexec, hslots, hbatches, hlength, _⟩ :=
    drive_alone threeNotes (.ofKind none "Note") fits_threeNotes rfl rfl 3 (by decide) (by decide)
      (.start threeNotes) rfl
  have hall : (({ threeNotes with cap := 3, cap_pos := by decide }.run
      (.ofKind none "Note")).1.map Page.slots) = .ok (threeNotes.table.entities.map some) := by
    rw [Memory.run_eq_runBy]
    rfl
  rw [hpage] at hall
  have hpage' : page.slots = threeNotes.table.entities.map some := Except.ok.inj hall
  have hqs : qs.length = 2 := by
    rw [hlength, hpage']
    rfl
  refine ⟨d, w', ?_, hslots.trans hpage', hbatches.trans hqs⟩
  rwa [hqs] at hexec

end Pull

end Quarry
