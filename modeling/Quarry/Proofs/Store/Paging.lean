import Mathlib.Algebra.BigOperators.Group.Finset.Basic
import Quarry.Proofs.Engine.Interleaving

/-!
# Reading page by page

A client reads a query in pages of its own choice, each with a limit and each but the first from the
cursor of the page before. The pages tile what the query finds: they are consecutive slices, as long
as limit and cap allow, and the one that reaches the end is the only one to say so.
-/

namespace Quarry

namespace Memory

/-- Reads a query page by page, through no more than `n` pages. The limit of page `i` is `limits i`.
Each page but the first goes on from the cursor of the one before, without an offset. There is no
other page behind one that says that there is no more. -/
def readPages (limits : Nat → Nat) : Nat → Query → Memory → Except StoreError (List Page) × Memory
  | 0, _, m => (.ok [], m)
  | n + 1, q, m =>
    match m.run { q with limit := some (limits 0) } with
    | (.error e, m) => (.error e, m)
    | (.ok page, m) =>
      if page.more.hasMore then
        match readPages (fun i => limits (i + 1)) n
            { q with offset := none, start := page.cursor } m with
        | (.error e, m) => (.error e, m)
        | (.ok pages, m) => (.ok (page :: pages), m)
      else (.ok [page], m)

section Reading

variable {m m' m'' : Memory} {q : Query} {limits : Nat → Nat} {n : Nat} {page : Page}
  {pages : List Page}

/-- The reading ends with a page that says that there is no more. -/
theorem readPages_last (hrun : m.run { q with limit := some (limits 0) } = (.ok page, m'))
    (hmore : page.more = .exhausted) (hn : 0 < n) : m.readPages limits n q = (.ok [page], m') := by
  obtain ⟨n, rfl⟩ := Nat.exists_eq_succ_of_ne_zero hn.ne'
  simp only [readPages, hrun, hmore]
  rfl

/-- Behind any other page it goes on from that page's cursor. -/
theorem readPages_more (hrun : m.run { q with limit := some (limits 0) } = (.ok page, m'))
    (hmore : page.more.hasMore = true)
    (hread : m'.readPages (fun i => limits (i + 1)) n
      { q with offset := none, start := page.cursor } = (.ok pages, m'')) :
    m.readPages limits (n + 1) q = (.ok (page :: pages), m'') := by
  simp only [readPages, hrun, hmore, hread]
  rfl

end Reading

/-! ## Slices -/

/-- The pages hold all of these results in consecutive slices. Page `i` has `sizes i` of them and a
cursor, but for the last one, which holds what is left. -/
inductive Tiles (q : Query) : (Nat → Nat) → List Entity → List Page → Prop
  | last {sizes : Nat → Nat} {rest : List Entity} {page : Page}
      (hlength : rest.length ≤ sizes 0)
      (hslots : page.slots = rest.map fun e => some (q.shape e))
      (hmore : page.more = .exhausted) : Tiles q sizes rest [page]
  | more {sizes : Nat → Nat} {rest : List Entity} {page : Page} {pages : List Page}
      (hlength : sizes 0 < rest.length)
      (hslots : page.slots = (rest.take (sizes 0)).map fun e => some (q.shape e))
      (hmore : page.more.hasMore = true) (hcursor : page.cursor.isSome = true)
      (hrest : Tiles q (fun i => sizes (i + 1)) (rest.drop (sizes 0)) pages) :
      Tiles q sizes rest (page :: pages)

namespace Tiles

variable {q : Query} {sizes : Nat → Nat} {rest : List Entity} {pages : List Page}

/-- Together the pages hold all results. -/
theorem flatMap_slots (h : Tiles q sizes rest pages) :
    pages.flatMap Page.slots = rest.map fun e => some (q.shape e) := by
  induction h with
  | last hlength hslots hmore =>
      rw [List.flatMap_cons, List.flatMap_nil, List.append_nil, hslots]
  | more hlength hslots hmore hcursor hrest ih =>
      rw [List.flatMap_cons, ih, hslots, ← List.map_append, List.take_append_drop]

/-- There is a page at least. -/
theorem length_pos (h : Tiles q sizes rest pages) : 0 < pages.length := by
  cases h <;> exact Nat.succ_pos _

/-- Each page starts where the sizes of those before it have led. Only the last one reaches the end,
and only it says so. -/
theorem page (h : Tiles q sizes rest pages) {i : Nat} {page : Page}
    (hpage : pages[i]? = some page) :
    page.slots = ((rest.drop (∑ j ∈ Finset.range i, sizes j)).take (sizes i)).map
        (fun e => some (q.shape e)) ∧
      ∑ j ∈ Finset.range i, sizes j ≤ rest.length ∧
      (i + 1 = pages.length ∧ page.more = .exhausted ∧
          rest.length ≤ (∑ j ∈ Finset.range i, sizes j) + sizes i ∨
        i + 1 < pages.length ∧ page.more.hasMore = true ∧ page.cursor.isSome = true ∧
          (∑ j ∈ Finset.range i, sizes j) + sizes i < rest.length) := by
  induction h generalizing i with
  | @last sizes rest first hlength hslots hmore =>
      cases i with
      | succ i => cases hpage
      | zero =>
          cases hpage
          rw [Finset.sum_range_zero, List.drop_zero, List.take_of_length_le hlength]
          exact ⟨hslots, Nat.zero_le _, .inl ⟨rfl, hmore, by omega⟩⟩
  | @more sizes rest first pages hlength hslots hmore hcursor hrest ih =>
      cases i with
      | zero =>
          cases hpage
          rw [Finset.sum_range_zero, List.drop_zero]
          exact ⟨hslots, Nat.zero_le _,
            .inr ⟨Nat.succ_lt_succ hrest.length_pos, hmore, hcursor, by omega⟩⟩
      | succ i =>
          obtain ⟨hslots', hstart, hend⟩ := ih (i := i) hpage
          rw [List.drop_drop, Nat.add_comm] at hslots'
          simp only [List.length_drop] at hstart hend
          rw [Finset.sum_range_succ', List.length_cons]
          refine ⟨hslots', by omega, ?_⟩
          rcases hend with ⟨hlast, hmore', hle⟩ | ⟨hnext, hmore', hcursor', hlt⟩
          · exact .inl ⟨by omega, hmore', by omega⟩
          · exact .inr ⟨by omega, hmore', hcursor', by omega⟩

end Tiles

/-! ## Pages that are read -/

/-- From index `a` of the results on, a page of some size holds as many as fit and says that it is
the last, or its cursor leads behind it. -/
theorem pageAt_window {cap start a : Nat} {q : Query} (results : List Entity)
    (ha : start + q.offset.getD 0 = a) (hsize : 0 < q.pageSize cap) :
    (pageAt cap q results start).slots =
        ((results.drop a).take (q.pageSize cap)).map (fun e => some (q.shape e)) ∧
      (results.length ≤ a + q.pageSize cap ∧ (pageAt cap q results start).more = .exhausted ∨
        a + q.pageSize cap < results.length ∧
          (pageAt cap q results start).more.hasMore = true ∧
          (pageAt cap q results start).cursor = q.behind results (a + q.pageSize cap)) := by
  rw [slots_pageAt, more_pageAt, cursor_pageAt, ha]
  refine ⟨rfl, ?_⟩
  by_cases hend : results.length ≤ a + q.pageSize cap
  · exact .inl ⟨hend, if_pos hend⟩
  · have hlt : a + q.pageSize cap < results.length := Nat.lt_of_not_le hend
    refine .inr ⟨hlt, ?_, ?_⟩
    · rw [if_neg hend]
      split <;> rfl
    · rw [getLast?_take_drop hsize (Nat.le_of_lt hlt), Nat.min_eq_left (by omega),
        Nat.min_eq_left (by omega), Query.behind, List.getElem?_eq_getElem (by omega)]
      rfl

variable {m : Memory} {q : Query} {limits : Nat → Nat}

/-- One page of the reading: the memory logs the query and answers with the window from index `a`
on. -/
theorem run_window (hfaults : m.faults.queries = 0) {q' : Query} {l s a : Nat}
    (ha : s + q'.offset.getD 0 = a)
    (hq : q' = { q with offset := q'.offset, limit := q'.limit, start := q'.start })
    (hsize : 0 < min l m.cap)
    (hanswer : m.answer { q' with limit := some l } =
      .ok (pageAt m.cap { q' with limit := some l } (m.matching q) s)) (log : List Query) :
    ∃ page : Page, ({ m with log } : Memory).run { q' with limit := some l } =
        (.ok page, { m with log := log ++ [{ q' with limit := some l }] }) ∧
      page.slots = (((m.matching q).drop a).take (min l m.cap)).map (fun e => some (q.shape e)) ∧
      ((m.matching q).length ≤ a + min l m.cap ∧ page.more = .exhausted ∨
        a + min l m.cap < (m.matching q).length ∧ page.more.hasMore = true ∧
          page.cursor = q.behind (m.matching q) (a + min l m.cap)) := by
  have hrun : ({ m with log } : Memory).run { q' with limit := some l } =
      (m.answer { q' with limit := some l },
        { m with log := log ++ [{ q' with limit := some l }] }) := by
    rw [run_of_no_faults (m := { m with log }) hfaults]
    rfl
  rw [hanswer] at hrun
  refine ⟨_, hrun, ?_⟩
  -- Shape and cursors of a query do not read what a page changes of it.
  have hshape : Query.shape { q' with limit := some l } = q.shape := by
    rw [hq]
    rfl
  have hbehind : Query.behind { q' with limit := some l } = q.behind := by
    rw [hq]
    rfl
  have hpage := pageAt_window (q := { q' with limit := some l }) (m.matching q) ha hsize
  rw [hshape, hbehind] at hpage
  exact hpage

/-- Behind each result but the last of a query there is a cursor, and a page that is read from it
starts there. -/
theorem answer_from_behind (hfits : q.orders ≠ [] → m.Fits) {i : Nat} (hpos : 0 < i)
    (hlt : i < (m.matching q).length) :
    ∃ c, q.behind (m.matching q) i = some c ∧
      ∀ limit, m.answer { q with offset := none, limit, start := some c } =
        .ok (pageAt m.cap { q with offset := none, limit, start := some c } (m.matching q) i) := by
  obtain ⟨c, hc⟩ : ∃ c, q.behind (m.matching q) i = some c :=
    ⟨_, by rw [Query.behind, List.getElem?_eq_getElem (by omega)]; rfl⟩
  have hword : q.orders ≠ [] → i < Nat.pow 2 64 := fun horders =>
    Nat.lt_of_lt_of_le hlt (Nat.le_trans (m.length_matching_le q) (hfits horders))
  exact ⟨c, hc, fun limit => answer_behind hword limit hc hpos hlt⟩

/-- **Reading on.** A client whose next page starts at index `s` of the results, or an offset behind
it, reads pages that tile the results from there on. -/
theorem readPages_from (hfits : q.orders ≠ [] → m.Fits) (hfaults : m.faults.queries = 0)
    (hlimits : ∀ i, 0 < limits i) {q' : Query} {s a : Nat} (ha : s + q'.offset.getD 0 = a)
    (hq : q' = { q with offset := q'.offset, limit := q'.limit, start := q'.start })
    (hanswer : ∀ limit, m.answer { q' with limit } =
      .ok (pageAt m.cap { q' with limit } (m.matching q) s)) (log : List Query) :
    ∃ pages log', (∀ n, pages.length ≤ n →
        ({ m with log } : Memory).readPages limits n q' = (.ok pages, { m with log := log' })) ∧
      Tiles q (fun i => min (limits i) m.cap) ((m.matching q).drop a) pages := by
  -- The induction is on how many results are left. A page with more behind it takes off some, and
  -- the query from its cursor on is again of the form that the statement asks for.
  generalize hrest : (m.matching q).length - a = rest
  induction rest using Nat.strongRecOn generalizing q' s a log limits with
  | _ rest ih =>
      have hsize : 0 < min (limits 0) m.cap := Nat.lt_min.2 ⟨hlimits 0, m.cap_pos⟩
      obtain ⟨page, hrun, hslots, hend⟩ := run_window hfaults ha hq hsize (hanswer _) log
      rcases hend with ⟨hend, hlast⟩ | ⟨hlt, hmore, hcursor⟩
      · have hlength : ((m.matching q).drop a).length ≤ min (limits 0) m.cap := by
          rw [List.length_drop]
          omega
        rw [List.take_of_length_le hlength] at hslots
        exact ⟨[page], _, fun n hn => readPages_last hrun hlast hn, .last hlength hslots hlast⟩
      · obtain ⟨c, hc, hanswer'⟩ := answer_from_behind hfits (by omega) hlt
        rw [hc] at hcursor
        have hnext : ({ q' with offset := none, start := page.cursor } : Query) =
            { q with offset := none, limit := q'.limit, start := some c } := by
          rw [hq, hcursor]
        obtain ⟨pages, log', hread, htiles⟩ :=
          @ih ((m.matching q).length - (a + min (limits 0) m.cap)) (by omega)
            (fun i => limits (i + 1)) (fun i => hlimits (i + 1))
            { q with offset := none, limit := q'.limit, start := some c }
            (a + min (limits 0) m.cap) (a + min (limits 0) m.cap) rfl rfl hanswer'
            (log ++ [{ q' with limit := some (limits 0) }]) rfl
        rw [← List.drop_drop] at htiles
        refine ⟨page :: pages, log', ?_, ?_⟩
        · rintro (_ | n) hn
          · exact absurd hn (Nat.not_succ_le_zero _)
          · refine readPages_more hrun hmore ?_
            rw [hnext]
            exact hread n (Nat.le_of_succ_le_succ hn)
        · refine .more ?_ hslots hmore (by rw [hcursor]; rfl) htiles
          rw [List.length_drop]
          omega

/-- **Pages tile what a query finds.** On a memory without failures, and with no other clients, a
client reads a query without a start that looks up no key in pages with limits of its own. It comes
to a last page. Together the pages hold what the query finds behind its offset, each entity once.
Page `i` is the slice behind those of the pages before it, as long as its limit, the cap and what is
left allow. It says that there is no more if and only if it reaches the end, which the last page
does and no other. Every other page has a cursor. -/
theorem readPages_tile (m : Memory) (q : Query) (limits : Nat → Nat)
    (hfits : q.orders ≠ [] → m.Fits) (hfaults : m.faults.queries = 0)
    (hlookup : q.keyLookup? = none) (hstart : q.start = none) (hlimits : ∀ i, 0 < limits i) :
    ∃ results pages log,
      results = (m.matching q).drop (q.offset.getD 0) ∧ (results.map Entity.key).Nodup ∧
      (∀ n, pages.length ≤ n → m.readPages limits n q = (.ok pages, { m with log })) ∧
      pages.flatMap Page.slots = results.map (fun e => some (q.shape e)) ∧
      ∀ i page, pages[i]? = some page → ∃ start,
        start = ∑ j ∈ Finset.range i, min (limits j) m.cap ∧
        page.slots = ((results.drop start).take (min (limits i) m.cap)).map
          (fun e => some (q.shape e)) ∧
        page.slots.length = min (limits i) (min m.cap (results.length - start)) ∧
        (page.more = .exhausted ↔ start + page.slots.length = results.length) ∧
        (page.more = .exhausted ↔ i + 1 = pages.length) ∧
        (page.more ≠ .exhausted → page.cursor.isSome = true) := by
  have hanswer : ∀ limit, m.answer { q with limit } =
      .ok (pageAt m.cap { q with limit } (m.matching q) 0) := by
    intro limit
    have hstart' : ({ q with limit } : Query).start = none := hstart
    rw [answer_eq_page (q := { q with limit }) (.inl hlookup), startIndex_none hstart']
    rfl
  obtain ⟨pages, log, hread, htiles⟩ :=
    readPages_from hfits hfaults hlimits (Nat.zero_add _) rfl hanswer m.log
  refine ⟨_, pages, log, rfl, ?_, hread, htiles.flatMap_slots, ?_⟩
  · rw [List.map_drop]
    exact (m.nodup_matching q).sublist (List.drop_sublist _ _)
  · intro i page hpage
    obtain ⟨hslots, hbefore, hend⟩ := htiles.page hpage
    refine ⟨_, rfl, hslots, ?_⟩
    have hlength := congrArg List.length hslots
    rw [List.length_map, List.length_take, List.length_drop] at hlength
    have hpos : 0 < min (limits i) m.cap := by
      have := hlimits i
      have := m.cap_pos
      omega
    refine ⟨by omega, ?_⟩
    rcases hend with ⟨hlast, hmore, hle⟩ | ⟨hnext, hmore, hcursor, hlt⟩
    · exact ⟨iff_of_true hmore (by omega), iff_of_true hmore hlast, fun h => absurd hmore h⟩
    · have hne : page.more ≠ .exhausted := by
        intro hmore'
        rw [hmore'] at hmore
        cases hmore
      exact ⟨iff_of_false hne (by omega), iff_of_false hne (by omega), fun _ => hcursor⟩

/-- Three notes are read in pages of one and more, the last of which brings what is left. -/
theorem readPages_tile_threeNotes :
    ∃ pages log, (∀ n, pages.length ≤ n → Pull.threeNotes.readPages (· + 1) n
        (.ofKind none "Note") = (.ok pages, { Pull.threeNotes with log })) ∧
      pages.flatMap Page.slots = Pull.threeNotes.table.entities.map some := by
  obtain ⟨results, pages, log, hresults, _, hread, hslots, _⟩ :=
    readPages_tile Pull.threeNotes (.ofKind none "Note") (· + 1) (fun _ => Pull.fits_threeNotes) rfl
      rfl rfl Nat.succ_pos
  have hall : ((Pull.threeNotes.matching (.ofKind none "Note")).drop 0).map
      (fun e => some (Query.shape (.ofKind none "Note") e)) =
        Pull.threeNotes.table.entities.map some := by
    rw [matching_eq, Order.sort_eq_insertionSort]
    rfl
  exact ⟨pages, log, hread, by rw [hslots, hresults]; exact hall⟩

end Memory

end Quarry
