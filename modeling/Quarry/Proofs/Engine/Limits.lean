import Quarry.Proofs.Engine.Requests

/-!
# What a limit bounds

A limit is part of every query that criteria compile to, and what the queries yield is joined. So it
bounds what each group of the clause contributes, and all of it by as many times the limit as there
are groups. A write has found no more entities than that, and alters no others.
-/

namespace Quarry

open Quarry.Action

/-! ## Queries -/

theorem Query.pageSize_le_limit {q : Query} {n : Nat} (h : q.limit = some n) (cap : Nat) :
    q.pageSize cap ≤ n := by
  rw [pageSize, h]
  exact Nat.min_le_left n cap

/-- A page has no more slots than the limit allows, or the one of a key. -/
theorem Memory.length_slots_le {m : Memory} {q : Query} {page : Page} {n : Nat}
    (h : m.answer q = .ok page) (hlimit : q.limit = some n) : page.slots.length ≤ max n 1 := by
  by_cases hwindow : q.keyLookup? = none ∨ q.start ≠ none
  · rw [answer_eq_page hwindow] at h
    obtain ⟨start, _, rfl⟩ := map_eq_ok.1 h
    rw [slots_pageAt, List.length_map]
    calc _ ≤ q.pageSize m.cap := List.length_take_le _ _
      _ ≤ n := Query.pageSize_le_limit hlimit m.cap
      _ ≤ max n 1 := Nat.le_max_left n 1
  · obtain ⟨hlookup, hstart⟩ := not_or.1 hwindow
    obtain ⟨k, hk⟩ := Option.ne_none_iff_exists'.1 hlookup
    obtain ⟨slots, hlast, hlength⟩ := lookup_last q k m
    rw [answer_eq_lookup hk (not_not.1 hstart), hlast] at h
    cases h
    exact Nat.le_trans hlength (Nat.le_max_right n 1)

namespace Drain

/-- A drain takes in no more than is still wanted. -/
theorem length_slots_of_yields {moments : Nat → Memory} {i n : Nat} {d d' : Drain} {q : Query}
    {qs : List Query} (h : Yields moments i d q qs d') (hlimit : q.limit = some n)
    (hremaining : d.remaining = some n) : d'.slots.length ≤ d.slots.length + max n 1 := by
  induction h generalizing n with
  | @last i d q page hpage hnext =>
      show (d.slots ++ page.slots).length ≤ _
      rw [List.length_append]
      exact Nat.add_le_add_left (Memory.length_slots_le hpage hlimit) _
  | @more i d q page c qs d' hpage hnext hrest ih =>
      have hslots := Memory.length_slots_le hpage hlimit
      have hleft : (d.add page).remaining = some (n - page.slots.length) := by
        show d.remaining.map _ = _
        rw [hremaining]
        rfl
      -- A cursor is followed only if something is left to be wanted.
      have hwanted : n - page.slots.length ≠ 0 := by
        intro hzero
        rw [next?, hleft, hzero, if_neg fun hmore => hmore.2.2 rfl] at hnext
        cases hnext
      have hlength := ih hleft hleft
      have hadded : (d.add page).slots.length = d.slots.length + page.slots.length :=
        List.length_append
      omega

theorem length_slots_of_drained {m : Memory} {q : Query} {d : Drain} {n : Nat}
    (h : Drained m q d) (hlimit : q.limit = some n) : d.slots.length ≤ max n 1 := by
  obtain ⟨i, qs, hyields⟩ := h
  have hlength := length_slots_of_yields hyields hlimit hlimit
  rwa [show (start q).slots.length = 0 from rfl, Nat.zero_add] at hlength

end Drain

/-- Queries with a limit are joined to no more than their number times the limit. -/
theorem FanOut.Joins.length_le {m : Memory} {queries : List Query} {r : ResultSet} {n : Nat}
    (h : Joins m queries r) (hlimit : ∀ q ∈ queries, ∃ l, q.limit = some l ∧ max l 1 ≤ n) :
    r.entities.length ≤ n * queries.length := by
  obtain ⟨drains, hdrained, hentities⟩ := h
  rw [hentities]
  refine Nat.le_trans (List.length_filterMap_le _ _) ?_
  clear hentities
  induction hdrained with
  | nil => exact Nat.zero_le _
  | @cons q d queries drains hd _ ih =>
      obtain ⟨⟨l, hl, hle⟩, hrest⟩ := List.forall_mem_cons.1 hlimit
      rw [List.flatMap_cons, List.length_append, List.length_cons, Nat.mul_succ, Nat.add_comm]
      exact Nat.add_le_add (ih hrest) (Nat.le_trans (Drain.length_slots_of_drained hd hl) hle)

/-- A compiled limit is no more than that of the criteria, and leaves the slot of a key. -/
theorem Compiler.limit_le (c : Compiler) {n : Nat} (hpos : 0 < n) :
    ∃ l, c.limit (some n) = some l ∧ max l 1 ≤ n :=
  ⟨_, c.limit_some hpos, by omega⟩

/-! ## Alterations -/

namespace Memory

variable {m m' : Memory}

/-- The number of entities that the other memory does not hold as they are. -/
def altered (m m' : Memory) : Nat :=
  m.table.entities.countP fun e => decide (m'.get? e.key ≠ some e)

/-- If only entities of some keys are altered, then no more than there are keys. -/
theorem altered_le {ks : List Key}
    (h : ∀ e ∈ m.table.entities, e.key ∉ ks → m'.get? e.key = some e) :
    m.altered m' ≤ ks.length := by
  have hkeys : (m.table.entities.map Entity.key).Nodup :=
    List.pairwise_map.2 (m.table.sorted.imp fun hbefore => hbefore.ne)
  rw [altered, List.countP_eq_length_filter, ← List.length_map (f := Entity.key)]
  refine ((hkeys.sublist (List.filter_sublist.map _)).subperm ?_).length_le
  intro k hk
  obtain ⟨e, he, rfl⟩ := List.mem_map.1 hk
  obtain ⟨hmem, haltered⟩ := List.mem_filter.1 he
  by_contra hother
  exact of_decide_eq_true haltered (h e hmem hother)

theorem get?_of_table (h : m'.table = m.table) {e : Entity} (he : e ∈ m.table.entities) :
    m'.get? e.key = some e := by
  rw [get?, h]
  exact Table.get?_eq_some_iff.2 ⟨he, rfl⟩

theorem altered_of_table (h : m'.table = m.table) : m.altered m' = 0 := by
  have hle : m.altered m' ≤ ([] : List Key).length := altered_le fun _ he _ => get?_of_table h he
  exact Nat.le_zero.1 hle

end Memory

/-! ## Operations -/

namespace Engine

variable {config : Config} {registry : Registry} {M : Model} {kind : String} {c : Criteria}
  {n : Nat} {gs : List Group} {m : Memory} {w w' : Session Memory}

/-- Criteria find no more than their limit for each group. -/
theorem keeps_run_limited (hlimit : c.limit = some n) (hpos : 0 < n)
    (hgroups : c.clause.groups = .ok gs) :
    Keeps m.Is (run ⟨Memory.store, config, registry⟩ M c) fun r =>
      r.entities.length ≤ n * gs.length := by
  refine (keeps_run m config registry M c).mono ?_
  rintro r ⟨queries, hqueries, hjoins⟩
  obtain ⟨groups, hsame, hall⟩ := bind_eq_ok.1 hqueries
  obtain rfl := Except.ok.inj (hgroups.symm.trans hsame)
  have hcompiled := mapM_eq_ok.1 hall
  rw [hcompiled.length_eq]
  refine hjoins.length_le ?_
  intro q hq
  obtain ⟨g, _, hg⟩ := exists_of_mem_right hcompiled hq
  rw [(Compiler.compiles_of_compile hg).limit, hlimit]
  exact Compiler.limit_le _ hpos

theorem length_distinct_le (es : List Entity) : (distinct es).length ≤ es.length := by
  have hnodup : (distinct es).Nodup := (nodup_distinct es).of_map _
  exact (hnodup.subperm fun _ he => mem_of_mem_distinct he).length_le

theorem keeps_matched_limited (hlimit : c.limit = some n) (hpos : 0 < n)
    (hgroups : c.clause.groups = .ok gs) :
    Keeps m.Is (matched ⟨Memory.store, config, registry⟩ M c) fun es =>
      es.length ≤ n * gs.length := by
  have hrun : Keeps m.Is (run ⟨Memory.store, config, registry⟩ M { c with select := .everything })
      fun r => r.entities.length ≤ n * gs.length := keeps_run_limited hlimit hpos hgroups
  refine hrun.bind ?_
  intro found hfound
  exact keeps_pure (Nat.le_trans (length_distinct_le _) hfound)

/-- A write that alters what criteria have found and nothing else, if it alters anything. -/
theorem altered_of_found {es : List Entity} {w₁ : Session Memory} (hlimit : c.limit = some n)
    (hpos : 0 < n) (hgroups : c.clause.groups = .ok gs)
    (hmatched : (matched ⟨Memory.store, config, registry⟩ M c).exec w = (.ok es, w₁))
    (hothers : ∀ k ∉ es.map Entity.key, m.get? k = w₁.store.get? k) :
    w.store.altered m ≤ n * gs.length := by
  have hkeeps : Keeps w.store.Is (matched ⟨Memory.store, config, registry⟩ M c) fun es =>
      es.length ≤ n * gs.length := keeps_matched_limited hlimit hpos hgroups
  obtain ⟨hkept, hlength⟩ := hkeeps w rfl
  rw [hmatched] at hkept hlength
  refine Nat.le_trans ?_ (hlength es rfl)
  rw [← List.length_map (f := Entity.key)]
  refine Memory.altered_le ?_
  intro e he hother
  rw [hothers e.key hother]
  exact Memory.get?_of_table (Memory.table_of_bare hkept) he

/-- A deletion alters no more than it has found. -/
theorem altered_of_destroy (hlimit : c.limit = some n) (hpos : 0 < n)
    (hgroups : c.clause.groups = .ok gs) {r : Except Failure (List Record)}
    (h : (destroy ⟨Memory.store, config, registry⟩ kind c).exec w = (r, w')) :
    w.store.altered w'.store ≤ n * gs.length := by
  cases r with
  | error e =>
      have hkept := keepsIfFails_destroy w.store config registry kind c w e w' rfl h
      rw [Memory.altered_of_table (Memory.table_of_bare hkept)]
      exact Nat.zero_le _
  | ok rs =>
      obtain ⟨M, hM, rfl, _⟩ := exists_model h
      obtain ⟨es, w₁, hmatched, -, hdeletes⟩ := exec_destroy_ok hM h
      refine altered_of_found hlimit hpos hgroups hmatched ?_
      intro k hk
      rcases hdeletes with ⟨-, rfl⟩ | hdelete
      · rfl
      · rw [Memory.delete_eq_ok hdelete]
        exact Table.get?_eraseAll_of_not_mem hk

/-- An update alters no more than it has found. -/
theorem altered_of_update (hlimit : c.limit = some n) (hpos : 0 < n)
    (hgroups : c.clause.groups = .ok gs) {values : Record} {r : Except Failure (List Record)}
    (h : (update ⟨Memory.store, config, registry⟩ kind c values).exec w = (r, w')) :
    w.store.altered w'.store ≤ n * gs.length := by
  cases r with
  | error e =>
      have hkept := keepsIfFails_update w.store config registry kind c values w e w' rfl h
      rw [Memory.altered_of_table (Memory.table_of_bare hkept)]
      exact Nat.zero_le _
  | ok rs =>
      obtain ⟨M, hM, rfl, _⟩ := exists_model h
      obtain ⟨es, w₁, hmatched, -, hupdates⟩ := exec_update_ok hM h
      refine altered_of_found hlimit hpos hgroups hmatched ?_
      intro k hk
      rcases hupdates with ⟨-, rfl⟩ | ⟨found, w₂, hconflicts, -, hupdate⟩
      · rfl
      · have hkept := (keeps_conflicts w₁.store config registry M [uniqueValues M values] w₁ rfl).1
        rw [hconflicts] at hkept
        have htable : w₂.store.table = w₁.store.table := Memory.table_of_bare hkept
        have hapart : ∀ e ∈ es.map (overlay values), e.key ≠ k := by
          intro e he hkey
          obtain ⟨x, hx, rfl⟩ := List.mem_map.1 he
          exact hk (List.mem_map.2 ⟨x, hx, hkey⟩)
        rw [Memory.update_eq_ok hupdate]
        show (w₂.store.table.insertAll _).get? k = w₁.store.table.get? k
        rw [Table.get?_insertAll_of_ne hapart, htable]

/-- **A limit bounds what each group contributes.** Whatever failures are due, a search returns no
more records than the limit for each group of the clause, and a count is no more. A deletion and an
update alter no more entities than that, however they end. -/
theorem limit_bounds_groups (config : Config) (registry : Registry) (kind : String) (c : Criteria)
    (n : Nat) (gs : List Group) (w : Session Memory) (hlimit : c.limit = some n) (hpos : 0 < n)
    (hgroups : c.clause.groups = .ok gs) :
    let E : Engine Memory := ⟨Memory.store, config, registry⟩
    (∀ rs w', (E.find kind c).exec w = (.ok rs, w') → rs.length ≤ n * gs.length) ∧
      (∀ number w', (E.count kind c).exec w = (.ok number, w') → number ≤ n * gs.length) ∧
      (∀ r w', (E.destroy kind c).exec w = (r, w') →
        w.store.altered w'.store ≤ n * gs.length) ∧
      ∀ values r w', (E.update kind c values).exec w = (r, w') →
        w.store.altered w'.store ≤ n * gs.length := by
  intro E
  refine ⟨?_, ?_, ?_, ?_⟩
  · intro rs w' h
    have hkeeps : Keeps w.store.Is (E.find kind c) fun rs => rs.length ≤ n * gs.length := by
      refine keeps_reading fun M => (keeps_run_limited hlimit hpos hgroups).mono ?_
      intro found hfound
      rwa [List.length_map]
    exact (hkeeps w rfl).2 rs (congrArg Prod.fst h)
  · intro number w' h
    have hkeeps : Keeps w.store.Is (E.count kind c) fun number => number ≤ n * gs.length :=
      keeps_reading fun M => keeps_run_limited hlimit hpos hgroups
    exact (hkeeps w rfl).2 number (congrArg Prod.fst h)
  · intro r w' h
    exact altered_of_destroy hlimit hpos hgroups h
  · intro values r w' h
    exact altered_of_update hlimit hpos hgroups h

/-- One of two notes, asked for by their numbers. -/
def oneOfTwo : Criteria :=
  { Criteria.everything with
    clause := .test "id" (.oneOf [.number (.ofNat 1), .number (.ofNat 2)])
    limit := some 1 }

theorem limit_bounds_groups_oneOfTwo :
    let E : Engine Memory := ⟨Memory.store, .default, ⟨[notes]⟩⟩
    let w : Session Memory := .start Pull.threeNotes
    oneOfTwo.limit = some 1 ∧ 0 < 1 ∧
      oneOfTwo.clause.groups =
        .ok [[⟨"id", .eq, .number (.ofNat 1)⟩], [⟨"id", .eq, .number (.ofNat 2)⟩]] ∧
      (∀ rs w', (E.find "Note" oneOfTwo).exec w = (.ok rs, w') → rs.length ≤ 2) ∧
      w.store.altered ((E.destroy "Note" oneOfTwo).exec w).2.store ≤ 2 := by
  intro E w
  obtain ⟨hfind, -, hdestroy, -⟩ := limit_bounds_groups .default ⟨[notes]⟩ "Note" oneOfTwo 1
    [[⟨"id", .eq, .number (.ofNat 1)⟩], [⟨"id", .eq, .number (.ofNat 2)⟩]] w rfl Nat.one_pos rfl
  exact ⟨rfl, Nat.one_pos, rfl, hfind, hdestroy _ _ (Prod.eta _).symm⟩

/-- Each of the two groups finds its note, so that one is asked for and two are found, counted,
deleted and written over. -/
theorem limit_exceeded_oneOfTwo :
    let E : Engine Memory := ⟨Memory.store, .default, ⟨[notes]⟩⟩
    let w : Session Memory := .start Pull.threeNotes
    let values : Record := .ofColumns [("title", .string "a")]
    oneOfTwo.limit = some 1 ∧
      ((E.find "Note" oneOfTwo).exec w).1.map List.length = .ok 2 ∧
      ((E.count "Note" oneOfTwo).exec w).1 = .ok 2 ∧
      w.store.altered ((E.destroy "Note" oneOfTwo).exec w).2.store = 2 ∧
      w.store.altered ((E.update "Note" oneOfTwo values).exec w).2.store = 2 := by
  decide +kernel

end Engine

end Quarry
