import Quarry.Engine.Drain
import Quarry.Proofs.Store.Pages

/-!
# A drain page by page

What a drain makes of the pages it reads is told apart from how it is run. `Drain.Yields` lists the
queries of a drain whose pages are read from a memory that may change from one page to the next. On
a memory that stays as it is, the slots are those of one page without a bound.
-/

namespace Quarry

namespace Drain

/-- The page at moment `i`, and those behind it, are read from the memory of their moment. With the
query `q` under way, the drain `d` comes to its end as `d'` after the queries `qs`. -/
inductive Yields (moments : Nat → Memory) : Nat → Drain → Query → List Query → Drain → Prop
  | last {i : Nat} {d : Drain} {q : Query} {page : Page}
      (hpage : (moments i).answer q = .ok page) (hnext : (d.add page).next? page = none) :
      Yields moments i d q [q] (d.add page)
  | more {i : Nat} {d : Drain} {q : Query} {page : Page} {c : Cursor} {qs : List Query}
      {d' : Drain} (hpage : (moments i).answer q = .ok page)
      (hnext : (d.add page).next? page = some c)
      (hrest : Yields moments (i + 1) (d.add page) ((d.add page).queryFrom c) qs d') :
      Yields moments i d q (q :: qs) d'

theorem batches_of_yields {moments : Nat → Memory} {i : Nat} {d d' : Drain} {q : Query}
    {qs : List Query} (h : Yields moments i d q qs d') : d'.batches = d.batches + qs.length := by
  induction h with
  | last hpage hnext => rfl
  | more hpage hnext hrest ih =>
      rw [ih, List.length_cons]
      show _ + 1 + _ = _
      omega

/-! ## Windows and their pages -/

/-- The number of pages for `n` slots of which a page holds at most `cap`. There is always one. -/
def pagesFor (cap n : Nat) : Nat := max 1 ((n + cap - 1) / cap)

theorem pagesFor_of_le {cap n : Nat} (hcap : 0 < cap) (h : n ≤ cap) : pagesFor cap n = 1 := by
  have hlt : (n + cap - 1) / cap < 2 := by
    rw [Nat.div_lt_iff_lt_mul hcap]
    omega
  unfold pagesFor
  omega

theorem pagesFor_add {cap n : Nat} (hcap : 0 < cap) (hn : 0 < n) :
    pagesFor cap (cap + n) = pagesFor cap n + 1 := by
  have hadd : cap + n + cap - 1 = n + cap - 1 + cap := by omega
  have hpos : 0 < (n + cap - 1) / cap := Nat.div_pos (by omega) hcap
  unfold pagesFor
  rw [hadd, Nat.add_div_right _ hcap]
  omega

theorem pagesFor_le {cap n : Nat} (hcap : 0 < cap) : pagesFor cap n ≤ n + 1 := by
  have hmul : n + cap - 1 ≤ cap * (n + 1) := by
    have := Nat.le_mul_of_pos_left n hcap
    rw [Nat.mul_succ]
    omega
  have hdiv := Nat.div_le_of_le_mul hmul
  unfold pagesFor
  omega

end Drain

/-! ## A memory that stays as it is -/

namespace Memory

variable {m : Memory}

/-- The entities can be counted in a machine word of 64 bits, as those of any list in memory can. -/
def Fits (m : Memory) : Prop := m.table.entities.length ≤ Nat.pow 2 64

/-- The cursor behind the first results leads to the others. In key order it is a key, and no number
has to fit a machine word. -/
theorem answer_behind {q : Query} {a : Nat} (hfits : q.orders ≠ [] → a < Nat.pow 2 64)
    (limit : Option Nat) {c : Cursor} (hc : q.behind (m.matching q) a = some c) (ha : 0 < a)
    (hlt : a < (m.matching q).length) :
    m.answer { q with offset := none, limit, start := some c } =
      .ok (pageAt m.cap { q with offset := none, limit, start := some c } (m.matching q) a) := by
  rw [Query.behind, List.getElem?_eq_getElem (by omega), Option.map_some, Option.some.injEq] at hc
  rw [answer_eq_page (.inr (by simp))]
  show (startIndex _ (m.matching q)).map (pageAt m.cap _ (m.matching q)) = _
  cases horders : q.orders with
  | nil =>
      have hsorted : (m.matching q).Pairwise Entities.Before := by
        rw [matching_of_orders_nil horders]
        exact m.pairwise_selected q
      have hcount := countP_notAfter hsorted (i := a - 1) (by omega)
      rw [horders] at hc
      rw [startIndex_after (congrArg some hc.symm) hsorted, hcount, Nat.sub_add_cancel ha]
      rfl
  | cons o os =>
      rw [horders] at hc
      rw [startIndex_index (hfits (by simp [horders])) (congrArg some hc.symm),
        Nat.min_eq_left (Nat.le_of_lt hlt)]
      rfl

/-- Whatever the number, the cursor leads to the other results, or nowhere. -/
theorem answer_behind_or_error {q : Query} {a : Nat} (limit : Option Nat) {c : Cursor}
    (hc : q.behind (m.matching q) a = some c) (ha : 0 < a) (hlt : a < (m.matching q).length) :
    m.answer { q with offset := none, limit, start := some c } =
        .ok (pageAt m.cap { q with offset := none, limit, start := some c } (m.matching q) a) ∨
      ∃ e, m.answer { q with offset := none, limit, start := some c } = .error e := by
  by_cases hfits : q.orders ≠ [] → a < Nat.pow 2 64
  · exact .inl (answer_behind hfits limit hc ha hlt)
  · obtain ⟨horders, hbeyond⟩ := Classical.not_imp.1 hfits
    rw [Query.behind, List.getElem?_eq_getElem (by omega), Option.map_some, Option.some.injEq,
      if_neg (by rwa [List.isEmpty_iff])] at hc
    refine .inr ⟨.invalidCursor "not a position", ?_⟩
    rw [answer_eq_page (.inr (by simp)), startIndex, ← hc]
    simp only [Position.decode_index_beyond hbeyond]
    rfl

end Memory

namespace Drain

variable {m : Memory} {d : Drain}

/-- A page that is not the last is followed by the query for what is still wanted behind it. -/
theorem next?_of_notFinished {page : Page} (hmore : page.more = .notFinished)
    (hslots : 0 < page.slots.length)
    (hremaining : ∀ k, d.remaining = some k → page.slots.length < k) :
    (d.add page).next? page = page.cursor := by
  refine if_pos ⟨hmore, ?_, ?_⟩
  · rw [List.isEmpty_iff_length_eq_zero]
    omega
  · show d.remaining.map (· - page.slots.length) ≠ some 0
    cases h : d.remaining with
    | none => simp
    | some k =>
        have hk := hremaining k h
        rw [Option.map_some, ne_eq, Option.some.injEq]
        omega

/-- **A drain reads on.** A drain whose next page starts at index `s` of the results, or an offset
behind it, takes in what its limit leaves of them from there on. -/
theorem yields_of_page (hm : d.query.orders ≠ [] → m.Fits) {q : Query} {s a : Nat} (i : Nat)
    (ha : s + q.offset.getD 0 = a)
    (hq : q = { d.query with offset := q.offset, limit := d.remaining, start := q.start })
    (hanswer : m.answer q = .ok (Memory.pageAt m.cap q (m.matching d.query) s)) :
    ∃ qs d', Yields (fun _ => m) i d q qs d' ∧
      d'.slots = d.slots ++
        (cut d.remaining ((m.matching d.query).drop a)).map (fun e => some (d.query.shape e)) ∧
      qs.length = pagesFor m.cap (cut d.remaining ((m.matching d.query).drop a)).length := by
  -- The induction is on how many results are left. A page that is not the last takes off as many as
  -- the cap, and the drain and the query behind it are again of the form that the statement asks for.
  generalize hrest : (m.matching d.query).length - a = rest
  induction rest using Nat.strongRecOn generalizing d q s a i with
  | _ rest ih =>
      have hlimit : q.limit = d.remaining := by rw [hq]
      have hshape : q.shape = d.query.shape := by rw [hq]; rfl
      have hbehind : q.behind = d.query.behind := by rw [hq]; rfl
      have hpage := Memory.pageAt_cases m.cap q (m.matching d.query) s ha m.cap_pos
      rw [hlimit, hshape, hbehind] at hpage
      generalize Memory.pageAt m.cap q (m.matching d.query) s = page at hanswer hpage
      have hcap := m.cap_pos
      rcases hpage with ⟨hlast, hslots, hlength⟩ | ⟨hmore, hslots, hcursor, hlt, hbeyond⟩
      · refine ⟨[q], d.add page, .last hanswer (if_neg fun h => hlast h.1), ?_, ?_⟩
        · rw [← hslots]
          rfl
        · rw [pagesFor_of_le hcap hlength]
          rfl
      · have hcount : page.slots.length = m.cap := by
          rw [hslots, List.length_map, List.length_take, List.length_drop]
          omega
        have hremaining : (d.add page).remaining = d.remaining.map (· - m.cap) := by
          rw [← hcount]
          rfl
        have hnext := next?_of_notFinished hmore (by omega) (by rwa [hcount])
        obtain ⟨c, hc⟩ : ∃ c, d.query.behind (m.matching d.query) (a + m.cap) = some c :=
          ⟨_, by rw [Query.behind, List.getElem?_eq_getElem (by omega)]; rfl⟩
        rw [hcursor, hc] at hnext
        have hfits : d.query.orders ≠ [] → a + m.cap < Nat.pow 2 64 := fun horders =>
          Nat.lt_of_lt_of_le hlt (Nat.le_trans (m.length_matching_le d.query) (hm horders))
        have hanswer' := Memory.answer_behind hfits (d.add page).remaining hc (by omega) hlt
        obtain ⟨qs, d', hyields, hslots', hlength'⟩ :=
          ih ((m.matching d.query).length - (a + m.cap)) (by omega) (d := d.add page)
            (a := a + m.cap) hm (i + 1) rfl rfl hanswer' rfl
        -- What the limit leaves is this page and what the rest of the limit leaves behind it.
        have hsplit := cut_eq_append (fun k hk => Nat.le_of_lt (hbeyond k hk))
          ((m.matching d.query).drop a)
        rw [List.drop_drop, ← hremaining] at hsplit
        refine ⟨q :: qs, d', .more hanswer hnext hyields, ?_, ?_⟩
        · rw [hslots', hsplit, List.map_append, ← List.append_assoc, ← hslots]
          rfl
        · have hpos : 0 < (cut (d.add page).remaining
              ((m.matching d.query).drop (a + m.cap))).length := by
            rw [hremaining]
            cases h : d.remaining with
            | none =>
                rw [Option.map_none, cut_none, List.length_drop]
                omega
            | some k =>
                have hk := hbeyond k h
                rw [Option.map_some, cut_some, List.length_take, List.length_drop]
                omega
          rw [List.length_cons, hlength', hsplit, List.length_append, List.length_take,
            List.length_drop, Nat.min_eq_left (by omega), pagesFor_add hcap hpos]
          rfl

end Drain

namespace Memory

variable {m : Memory} {q : Query}

/-- The slots of a query that starts anew, as one page without a bound has them. -/
def allSlots (q : Query) (m : Memory) : List (Option Entity) :=
  match q.keyLookup? with
  | some k => (m.lookup q k).slots
  | none => (cut q.limit ((m.matching q).drop (q.offset.getD 0))).map fun e => some (q.shape e)

/-- A cap that no content reaches leaves all slots on one page. -/
theorem answer_of_large_cap (hstart : q.start = none) (hcap : m.table.entities.length ≤ m.cap) :
    ∃ page, m.answer q = .ok page ∧ page.slots = m.allSlots q := by
  cases hlookup : q.keyLookup? with
  | some k =>
      refine ⟨m.lookup q k, answer_eq_lookup hlookup hstart, ?_⟩
      rw [allSlots, hlookup]
  | none =>
      have hlength : ((m.matching q).drop (0 + q.offset.getD 0)).length ≤ m.cap := by
        have := m.length_matching_le q
        rw [List.length_drop]
        omega
      refine ⟨pageAt m.cap q (m.matching q) 0, ?_, ?_⟩
      · rw [answer_eq_page (.inl hlookup), startIndex_none hstart]
        rfl
      · rw [slots_pageAt, q.take_pageSize hlength, allSlots, hlookup, Nat.zero_add]

/-- A drain reads no more pages than there are entities, and one more. -/
theorem pagesFor_allSlots_le (q : Query) (m : Memory) :
    Drain.pagesFor m.cap (m.allSlots q).length ≤ m.table.entities.length + 1 := by
  cases hlookup : q.keyLookup? with
  | some k =>
      obtain ⟨slots, hpage, hlength⟩ := lookup_last q k m
      have hall : (m.allSlots q).length ≤ m.cap := by
        rw [allSlots, hlookup]
        show (m.lookup q k).slots.length ≤ m.cap
        rw [hpage]
        exact Nat.le_trans hlength m.cap_pos
      rw [Drain.pagesFor_of_le m.cap_pos hall]
      omega
  | none =>
      have hall : (m.allSlots q).length ≤ m.table.entities.length := by
        rw [allSlots, hlookup, List.length_map]
        have hdrop : ((m.matching q).drop (q.offset.getD 0)).length ≤ m.table.entities.length := by
          rw [List.length_drop]
          exact Nat.le_trans (Nat.sub_le _ _) (m.length_matching_le q)
        exact Nat.le_trans (length_cut_le _ _) hdrop
      exact Nat.le_trans (Drain.pagesFor_le m.cap_pos) (Nat.succ_le_succ hall)

end Memory

namespace Drain

/-- **A drain hides the cap.** On a memory that stays as it is, a drain yields the slots of one page
without a bound, and reads no more pages than these fill. -/
theorem yields_slots {m : Memory} {q : Query} (hm : q.orders ≠ [] → m.Fits)
    (hstart : q.start = none) (i : Nat) :
    ∃ qs d, Yields (fun _ => m) i (start q) q qs d ∧ d.slots = m.allSlots q ∧
      qs.length = pagesFor m.cap (m.allSlots q).length := by
  cases hlookup : q.keyLookup? with
  | some k =>
      obtain ⟨slots, hpage, hlength⟩ := Memory.lookup_last q k m
      have hall : m.allSlots q = slots := by
        rw [Memory.allSlots, hlookup]
        exact congrArg Page.slots hpage
      have hanswer := Memory.answer_eq_lookup (m := m) hlookup hstart
      rw [hpage] at hanswer
      refine ⟨[q], _, .last hanswer rfl, ?_, ?_⟩
      · rw [hall]
        rfl
      · rw [hall, pagesFor_of_le m.cap_pos (Nat.le_trans hlength m.cap_pos)]
        rfl
  | none =>
      have hanswer : m.answer q = .ok (Memory.pageAt m.cap q (m.matching q) 0) := by
        rw [Memory.answer_eq_page (.inl hlookup), Memory.startIndex_none hstart]
        rfl
      have hall : m.allSlots q = (cut q.limit ((m.matching q).drop (q.offset.getD 0))).map
          fun e => some (q.shape e) := by
        rw [Memory.allSlots, hlookup]
      obtain ⟨qs, d, hyields, hslots, hlength⟩ :=
        yields_of_page hm i (d := start q) (Nat.zero_add _) rfl hanswer
      refine ⟨qs, d, hyields, ?_, ?_⟩
      · rw [hall, hslots]
        rfl
      · rw [hall, hlength, List.length_map]
        rfl

theorem yields_allSlots {m : Memory} {q : Query} (hm : m.Fits) (hstart : q.start = none)
    (i : Nat) : ∃ qs d, Yields (fun _ => m) i (start q) q qs d ∧ d.slots = m.allSlots q ∧
      qs.length = pagesFor m.cap (m.allSlots q).length :=
  yields_slots (fun _ => hm) hstart i

/-! ## Drains that may fail -/

/-- From this query on, the drain follows no more than `n` cursors, if it is not stopped before. -/
def EndsWithin (m : Memory) : Nat → Drain → Query → Prop
  | 0, d, q => ∀ page, m.answer q = .ok page → (d.add page).next? page = none
  | n + 1, d, q => ∀ page c, m.answer q = .ok page → (d.add page).next? page = some c →
    EndsWithin m n (d.add page) ((d.add page).queryFrom c)

variable {m : Memory} {d : Drain} {q : Query}

/-- A drain follows the cursor of a page that is not the last and holds a slot, if more is wanted. -/
theorem next?_eq_some_iff {page : Page} {c : Cursor} :
    d.next? page = some c ↔
      page.more = .notFinished ∧ page.slots ≠ [] ∧ d.remaining ≠ some 0 ∧ page.cursor = some c := by
  rw [next?, ite_eq_iff]
  simp [and_assoc]

/-- A page that is the last ends the drain. -/
theorem endsWithin_of_last (h : ∀ page, m.answer q = .ok page → page.more ≠ .notFinished)
    (n : Nat) : EndsWithin m n d q := by
  have hnone : ∀ page, m.answer q = .ok page → (d.add page).next? page = none :=
    fun page hpage => if_neg fun hmore => h page hpage hmore.1
  cases n with
  | zero => exact hnone
  | succ n =>
      intro page c hpage hnext
      rw [hnone page hpage] at hnext
      cases hnext

/-- Every cursor that is followed leaves fewer results. -/
theorem endsWithin_of_page {s a n : Nat} (ha : s + q.offset.getD 0 = a)
    (hq : q = { d.query with offset := q.offset, limit := d.remaining, start := q.start })
    (hanswer : m.answer q = .ok (Memory.pageAt m.cap q (m.matching d.query) s) ∨
      ∃ e, m.answer q = .error e) (hn : (m.matching d.query).length - a ≤ n) :
    EndsWithin m n d q := by
  induction n generalizing d q s a with
  | zero =>
      refine endsWithin_of_last ?_ 0
      intro page hpage
      rcases hanswer with hanswer | ⟨e, hanswer⟩
      · rw [hanswer] at hpage
        cases hpage
        rcases Memory.pageAt_cases m.cap q (m.matching d.query) s ha m.cap_pos with
          ⟨hlast, _⟩ | ⟨_, _, _, hlt, _⟩
        · exact hlast
        · omega
      · rw [hanswer] at hpage
        cases hpage
  | succ n ih =>
      intro page c hpage hnext
      obtain ⟨hmore, _, _, hcursor⟩ := next?_eq_some_iff.1 hnext
      rcases hanswer with hanswer | ⟨e, hanswer⟩
      · rw [hanswer] at hpage
        cases hpage
        rcases Memory.pageAt_cases m.cap q (m.matching d.query) s ha m.cap_pos with
          ⟨hlast, _⟩ | ⟨_, _, hbehind, hlt, _⟩
        · exact absurd hmore hlast
        · have hsame : q.behind = d.query.behind := by rw [hq]; rfl
          rw [hbehind, hsame] at hcursor
          have hcap := m.cap_pos
          exact ih (d := d.add _) rfl rfl
            (Memory.answer_behind_or_error _ hcursor (by omega) hlt)
            (by
              show (m.matching d.query).length - (a + m.cap) ≤ n
              omega)
      · rw [hanswer] at hpage
        cases hpage

/-- A drain follows no more cursors than its query has results. -/
theorem endsWithin_start (m : Memory) (hstart : q.start = none) :
    EndsWithin m (m.matching q).length (start q) q := by
  cases hlookup : q.keyLookup? with
  | some k =>
      refine endsWithin_of_last ?_ _
      intro page hpage
      obtain ⟨slots, hlast, _⟩ := Memory.lookup_last q k m
      rw [Memory.answer_eq_lookup hlookup hstart, hlast] at hpage
      cases hpage
      show More.exhausted ≠ .notFinished
      decide
  | none =>
      have hanswer : m.answer q = .ok (Memory.pageAt m.cap q (m.matching q) 0) := by
        rw [Memory.answer_eq_page (.inl hlookup), Memory.startIndex_none hstart]
        rfl
      exact endsWithin_of_page (Nat.zero_add _) rfl (.inl hanswer) (Nat.sub_le _ _)

end Drain

end Quarry
