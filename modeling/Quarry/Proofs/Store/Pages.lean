import Quarry.Proofs.Except
import Quarry.Proofs.Store.Results

/-!
# Pages

A page is a window of the results. It is the last one if the window reaches their end or is as long
as the limit. Otherwise its cursor leads to where the window ends.
-/

namespace Quarry

/-- What a limit leaves of a list. -/
def cut {α : Type} (limit : Option Nat) (l : List α) : List α :=
  match limit with
  | some n => l.take n
  | none => l

@[simp] theorem cut_none {α : Type} (l : List α) : cut none l = l := rfl

@[simp] theorem cut_some {α : Type} (n : Nat) (l : List α) : cut (some n) l = l.take n := rfl

theorem length_cut_le {α : Type} (limit : Option Nat) (l : List α) :
    (cut limit l).length ≤ l.length := by
  cases limit with
  | none => exact Nat.le_refl _
  | some n => exact List.length_take_le' _ _

theorem cut_eq_append {α : Type} {limit : Option Nat} {n : Nat}
    (h : ∀ k, limit = some k → n ≤ k) (l : List α) :
    cut limit l = l.take n ++ cut (limit.map (· - n)) (l.drop n) := by
  cases limit with
  | none => exact (List.take_append_drop n l).symm
  | some k =>
      have hk : n + (k - n) = k := Nat.add_sub_cancel' (h k rfl)
      rw [Option.map_some, cut_some, cut_some, ← List.take_add, hk]

namespace Query

/-- The most slots of one page. -/
def pageSize (cap : Nat) (q : Query) : Nat :=
  match q.limit with
  | some limit => min limit cap
  | none => cap

theorem pageSize_le (cap : Nat) (q : Query) : q.pageSize cap ≤ cap := by
  unfold pageSize
  split
  · exact Nat.min_le_right _ _
  · exact Nat.le_refl _

/-- Results that the cap does not cut are cut by the limit alone. -/
theorem take_pageSize {α : Type} {cap : Nat} (q : Query) {l : List α} (h : l.length ≤ cap) :
    l.take (q.pageSize cap) = cut q.limit l := by
  unfold pageSize
  split
  · rename_i limit hlimit
    rw [hlimit, cut_some, List.take_eq_take_iff]
    omega
  · rename_i hlimit
    rw [hlimit, cut_none, List.take_of_length_le h]

/-- A page that no limit ends is as long as the cap allows, and the limit goes beyond it. -/
theorem pageSize_eq_cap {cap : Nat} {q : Query} (h : q.limit ≠ some (q.pageSize cap)) :
    q.pageSize cap = cap ∧ ∀ k, q.limit = some k → cap < k := by
  unfold pageSize at h ⊢
  cases hlimit : q.limit with
  | none => exact ⟨rfl, by intro k hk; cases hk⟩
  | some limit =>
      rw [hlimit] at h
      have hne : limit ≠ min limit cap := fun heq => h (congrArg some heq)
      refine ⟨?_, ?_⟩
      · show min limit cap = cap
        omega
      · rintro k hk
        cases hk
        omega

/-- The cursor behind the first `a` results. -/
def behind (q : Query) (results : List Entity) (a : Nat) : Option Cursor :=
  (results[a - 1]?).map fun e =>
    (if q.orders.isEmpty then Position.after e.key else .index a).encode

end Query

namespace Memory

theorem take_drop_min {α : Type} (l : List α) (a n : Nat) :
    (l.drop (min a l.length)).take (min (min a l.length + n) l.length - min a l.length) =
      (l.drop a).take n := by
  by_cases ha : a ≤ l.length
  · rw [Nat.min_eq_left ha, List.take_eq_take_iff, List.length_drop]
    omega
  · have hmin : min a l.length = l.length := Nat.min_eq_right (by omega)
    have hdrop : l.drop a = [] := List.drop_eq_nil_of_le (by omega)
    rw [hmin, hdrop, List.drop_length, List.take_nil, List.take_nil]

theorem getLast?_take_drop {α : Type} {l : List α} {a n : Nat} (hn : 0 < n)
    (h : a + n ≤ l.length) : ((l.drop a).take n).getLast? = some l[a + n - 1] := by
  have hindex : a + (n - 1) = a + n - 1 := by omega
  have hlength : ((l.drop a).take n).length = n := by
    rw [List.length_take, List.length_drop]
    omega
  rw [List.getLast?_eq_getElem?, hlength, List.getElem?_take_of_lt (by omega),
    List.getElem?_drop, hindex]
  exact List.getElem?_eq_getElem _

section Page

variable (cap : Nat) (q : Query) (results : List Entity) (start : Nat)

theorem slots_pageAt : (pageAt cap q results start).slots =
    ((results.drop (start + q.offset.getD 0)).take (q.pageSize cap)).map
      fun e => some (q.shape e) := by
  rw [← take_drop_min]
  rfl

theorem more_pageAt : (pageAt cap q results start).more =
    if results.length ≤ start + q.offset.getD 0 + q.pageSize cap then .exhausted
    else if q.limit = some (q.pageSize cap) then .afterLimit
    else .notFinished := by
  show (if min (min (start + q.offset.getD 0) results.length + q.pageSize cap) results.length =
      results.length then More.exhausted
    else if q.limit = some (min (min (start + q.offset.getD 0) results.length + q.pageSize cap)
      results.length - min (start + q.offset.getD 0) results.length) then .afterLimit
    else .notFinished) = _
  generalize q.offset.getD 0 = offset
  generalize q.pageSize cap = size
  by_cases hend : results.length ≤ start + offset + size
  · rw [if_pos hend, if_pos (by omega)]
  · have hlast : min (min (start + offset) results.length + size) results.length -
        min (start + offset) results.length = size := by omega
    rw [if_neg hend, if_neg (by omega), hlast]

theorem cursor_pageAt : (pageAt cap q results start).cursor =
    match ((results.drop (start + q.offset.getD 0)).take (q.pageSize cap)).getLast? with
    | none => q.start
    | some e => some (if q.orders.isEmpty then Position.after e.key else
        .index (min (min (start + q.offset.getD 0) results.length + q.pageSize cap)
          results.length)).encode := by
  rw [← take_drop_min]
  rfl

/-- **What a page is.** From index `a` of the results on, a page holds all that the limit leaves and
is the last, or it is as long as the cap allows and its cursor leads on behind it. -/
theorem pageAt_cases {a : Nat} (ha : start + q.offset.getD 0 = a) (hcap : 0 < cap) :
    ((pageAt cap q results start).more ≠ .notFinished ∧
      (pageAt cap q results start).slots =
        (cut q.limit (results.drop a)).map (fun e => some (q.shape e)) ∧
      (cut q.limit (results.drop a)).length ≤ cap) ∨
    ((pageAt cap q results start).more = .notFinished ∧
      (pageAt cap q results start).slots =
        ((results.drop a).take cap).map (fun e => some (q.shape e)) ∧
      (pageAt cap q results start).cursor = q.behind results (a + cap) ∧
      a + cap < results.length ∧ ∀ k, q.limit = some k → cap < k) := by
  have hsize := q.pageSize_le cap
  rw [slots_pageAt, more_pageAt, cursor_pageAt, ha]
  -- A page is the last because the results end on it, or because it meets the limit.
  by_cases hend : results.length ≤ a + q.pageSize cap
  · have hlength : (results.drop a).length ≤ cap := by
      rw [List.length_drop]
      omega
    rw [if_pos hend, q.take_pageSize hlength]
    refine .inl ⟨by decide, rfl, ?_⟩
    rw [← q.take_pageSize hlength, List.length_take]
    omega
  · rw [if_neg hend]
    by_cases hmet : q.limit = some (q.pageSize cap)
    · have hcut : cut q.limit (results.drop a) = (results.drop a).take (q.pageSize cap) := by
        rw [hmet, cut_some]
      rw [if_pos hmet, hcut]
      refine .inl ⟨by decide, rfl, ?_⟩
      rw [List.length_take]
      omega
    · obtain ⟨hfull, hbeyond⟩ := Query.pageSize_eq_cap hmet
      rw [hfull] at hend ⊢
      rw [if_neg (by rwa [← hfull]), getLast?_take_drop hcap (by omega), Nat.min_eq_left (by omega),
        Nat.min_eq_left (by omega)]
      refine .inr ⟨rfl, rfl, ?_, by omega, hbeyond⟩
      rw [Query.behind, List.getElem?_eq_getElem (by omega)]
      rfl

end Page

/-! ## Answers -/

variable {m : Memory} {q : Query}

/-- A query that asks for no key, or goes on somewhere, is answered with a window of its results. -/
theorem answer_eq_page (h : q.keyLookup? = none ∨ q.start ≠ none) :
    m.answer q = (startIndex q (m.matching q)).map (pageAt m.cap q (m.matching q)) := by
  unfold answer
  split
  · rename_i hlookup hstart
    rcases h with h | h
    · rw [h] at hlookup
      cases hlookup
    · exact absurd hstart h
  · rfl

theorem answer_eq_lookup {k : Key} (hlookup : q.keyLookup? = some k) (hstart : q.start = none) :
    m.answer q = .ok (m.lookup q k) := by
  rw [answer, hlookup, hstart]

/-- A key that is looked up has one slot or none, and nothing behind it. -/
theorem lookup_last (q : Query) (k : Key) (m : Memory) :
    ∃ slots, m.lookup q k = .last slots ∧ slots.length ≤ 1 := by
  unfold lookup
  split
  · exact ⟨[], rfl, by decide⟩
  · split
    · exact ⟨[none], rfl, by decide⟩
    · split
      · exact ⟨[_], rfl, Nat.le_refl 1⟩
      · exact ⟨[], rfl, by decide⟩

/-- Every entity of an answer is one that is stored, as the query shapes it. -/
theorem stored_of_answer {page : Page} (h : m.answer q = .ok page) {e : Entity}
    (he : some e ∈ page.slots) : ∃ x ∈ m.table.entities, e = q.shape x := by
  by_cases hwindow : q.keyLookup? = none ∨ q.start ≠ none
  · rw [answer_eq_page hwindow] at h
    obtain ⟨start, _, rfl⟩ := map_eq_ok.1 h
    rw [slots_pageAt] at he
    obtain ⟨x, hx, heq⟩ := List.mem_map.1 he
    have hmatching := List.mem_of_mem_drop (List.mem_of_mem_take hx)
    have hselected := (m.matching_perm q).mem_iff.1 hmatching
    exact ⟨x, (List.mem_filter.1 hselected).1, (Option.some.inj heq).symm⟩
  · obtain ⟨hlookup, hstart⟩ := not_or.1 hwindow
    obtain ⟨k, hk⟩ := Option.ne_none_iff_exists'.1 hlookup
    rw [answer_eq_lookup hk (not_not.1 hstart)] at h
    cases h
    unfold lookup at he
    split at he
    · cases he
    · split at he
      · simp [Page.last] at he
      · rename_i x hget
        split at he
        · obtain rfl : e = q.shape x := by simpa [Page.last] using he
          exact ⟨x, List.mem_of_find?_eq_some hget, rfl⟩
        · cases he

/-- The answer says nothing of failures that are due, nor of the queries that were run. -/
theorem answer_congr {m' : Memory} (htable : m'.table = m.table) (hcap : m'.cap = m.cap) :
    m'.answer q = m.answer q := by
  unfold answer matching lookup get?
  rw [htable, hcap]

/-- A query run on a memory without failures is answered and logged. -/
theorem run_of_no_faults (h : m.faults.queries = 0) :
    m.run q = (m.answer q, { m with log := m.log ++ [q] }) := by
  have hanswer : ({ m with log := m.log ++ [q] } : Memory).answer q = m.answer q :=
    answer_congr rfl rfl
  unfold run
  simp only [h, hanswer]

/-- A failure that is due takes the place of the answer. -/
theorem run_of_fault {n : Nat} (h : m.faults.queries = n + 1) :
    m.run q = (.error (.queryFailed ("injected failure on kind '" ++ q.kind ++ "'")),
      { m with log := m.log ++ [q], faults := { m.faults with queries := n } }) := by
  unfold run
  simp only [h]

end Memory

end Quarry
