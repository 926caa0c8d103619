import Quarry.Proofs.Engine.Drain

/-!
# Sweeps in key order

A drain without sort orders reads its pages in key order, each behind the last key of the one
before. Whatever becomes of the memory from one page to the next, keys only rise, so that nothing is
read twice, and what is there all the time is not passed over.
-/

namespace Quarry

/-- The key comes after `after`. Every key comes after none. -/
def Key.isBeyond (after : Option Key) (k : Key) : Bool := after.all fun a => (compare a k).isLT

theorem Key.isBeyond_some {a k : Key} : k.isBeyond (some a) = true ↔ compare a k = .lt := by
  rw [Key.isBeyond, Option.all_some, Ordering.isLT_iff_eq_lt]

theorem Key.isBeyond_of_lt {after : Option Key} {k k' : Key} (h : k.isBeyond after = true)
    (hlt : compare k k' = .lt) : k'.isBeyond after = true := by
  cases after with
  | none => rfl
  | some a => exact Key.isBeyond_some.2 (Std.TransCmp.lt_trans (Key.isBeyond_some.1 h) hlt)

@[simp] theorem Query.key_shape (q : Query) (e : Entity) : (q.shape e).key = e.key := by
  unfold Query.shape
  split
  · rfl
  · split <;> rfl

/-- The query from a key on. -/
def Query.fromKey (q : Query) (after : Option Key) : Query :=
  { q with start := after.map fun k => (Position.after k).encode }

/-! ## One page -/

section Page

variable {es : List Entity} {n : Nat} {z : Entity}

theorem isLE_of_mem_take (h : es.Pairwise Entities.Before) (hz : es[n - 1]? = some z) (hn : 0 < n)
    {x : Entity} (hx : x ∈ es.take n) : (compare x.key z.key).isLE = true := by
  obtain ⟨hlt, rfl⟩ := List.getElem?_eq_some_iff.1 hz
  obtain ⟨j, hj, rfl⟩ := List.mem_take_iff_getElem.1 hx
  rcases Nat.lt_or_ge j (n - 1) with hbefore | hlast
  · exact Ordering.isLE_of_eq_lt (List.pairwise_iff_getElem.1 h j (n - 1) (by omega) hlt hbefore)
  · have hj' : j = n - 1 := by omega
    subst hj'
    exact Ordering.isLE_of_eq_eq Std.ReflCmp.compare_self

theorem before_of_mem_drop (h : es.Pairwise Entities.Before) (hz : es[n - 1]? = some z)
    (hn : 0 < n) {x : Entity} (hx : x ∈ es.drop n) : Entities.Before z x := by
  have hsplit := List.take_append_drop n es
  have hmem : z ∈ es.take n := by
    refine List.mem_of_getElem? (i := n - 1) ?_
    rw [List.getElem?_take_of_lt (by omega), hz]
  rw [← hsplit, List.pairwise_append] at h
  exact h.2.2 z hmem x hx

end Page

namespace Memory

variable {m : Memory} {q : Query}

/-- What a query selects behind a key, in key order. -/
def selectedFrom (q : Query) (after : Option Key) (m : Memory) : List Entity :=
  (m.selected q).filter fun e => e.key.isBeyond after

theorem pairwise_selectedFrom (q : Query) (after : Option Key) (m : Memory) :
    (m.selectedFrom q after).Pairwise Entities.Before :=
  (m.pairwise_selected q).filter _

/-- The results behind a key start where the query for them does. -/
theorem startIndex_fromKey (after : Option Key) :
    ∃ s, startIndex (q.fromKey after) (m.selected q) = .ok s ∧
      (m.selected q).drop s = m.selectedFrom q after := by
  cases after with
  | none =>
      refine ⟨0, startIndex_none rfl, ?_⟩
      exact (List.filter_eq_self.2 fun _ _ => rfl).symm
  | some k =>
      refine ⟨_, startIndex_after rfl (m.pairwise_selected q), ?_⟩
      rw [drop_countP (fronts_notAfter (m.pairwise_selected q) k), selectedFrom]
      refine List.filter_congr ?_
      intro e _
      rw [Bool.eq_iff_iff, Key.isBeyond_some, Bool.not_eq_true', Entity.notAfter_eq_false]

/-- A page in key order holds all that comes behind its key, or as much of it as the cap allows with
a cursor that leads behind its last key. -/
theorem answer_fromKey (hlookup : q.keyLookup? = none) (horders : q.orders = [])
    (hoffset : q.offset = none) (hlimit : q.limit = none) (after : Option Key) :
    ∃ page, m.answer (q.fromKey after) = .ok page ∧
      page.slots = ((m.selectedFrom q after).take m.cap).map (fun e => some (q.shape e)) ∧
      (page.more ≠ .notFinished ∧ (m.selectedFrom q after).length ≤ m.cap ∨
        page.more = .notFinished ∧ ∃ z, (m.selectedFrom q after)[m.cap - 1]? = some z ∧
          page.cursor = some (Position.after z.key).encode) := by
  obtain ⟨s, hstart, hdrop⟩ := startIndex_fromKey (m := m) (q := q) after
  have hmatching : m.matching (q.fromKey after) = m.selected q := matching_of_orders_nil horders
  have hpage := pageAt_cases m.cap (q.fromKey after) (m.selected q) s (a := s)
    (by rw [Query.fromKey, hoffset]; rfl) m.cap_pos
  have hanswer : m.answer (q.fromKey after) =
      .ok (pageAt m.cap (q.fromKey after) (m.selected q) s) := by
    rw [answer_eq_page (q := q.fromKey after) (.inl hlookup), hmatching, hstart]
    rfl
  refine ⟨_, hanswer, ?_⟩
  have hcut : cut (q.fromKey after).limit (m.selectedFrom q after) = m.selectedFrom q after := by
    rw [Query.fromKey, hlimit, cut_none]
  rw [hdrop, hcut] at hpage
  rcases hpage with ⟨hlast, hslots, hlength⟩ | ⟨hmore, hslots, hcursor, hlt, _⟩
  · refine ⟨?_, .inl ⟨hlast, hlength⟩⟩
    rw [hslots, List.take_of_length_le hlength]
    rfl
  · refine ⟨hslots, .inr ⟨hmore, ?_⟩⟩
    have hcap := m.cap_pos
    have hget : (m.selectedFrom q after)[m.cap - 1]? = (m.selected q)[s + m.cap - 1]? := by
      rw [← hdrop, List.getElem?_drop, Nat.add_sub_assoc hcap]
    have hempty : (q.fromKey after).orders.isEmpty = true := by
      rw [Query.fromKey, horders]
      rfl
    refine ⟨(m.selected q)[s + m.cap - 1], ?_, ?_⟩
    · rw [hget, List.getElem?_eq_getElem]
    · rw [hcursor, Query.behind, List.getElem?_eq_getElem (by omega), hempty]
      rfl

end Memory

/-! ## All pages -/

/-- **A sweep over changing memories.** The pages behind the key `after`, the first of which is read
at moment `i`: keys rise throughout, what a page holds was selected at its moment, and a key that is
selected at every moment is met. -/
structure Sweep (q : Query) (moments : Nat → Memory) (i : Nat) (after : Option Key)
    (pages : List (List Entity)) : Prop where
  ordered : pages.flatten.Pairwise Entities.Before
  beyond : ∀ e ∈ pages.flatten, e.key.isBeyond after = true
  stored : ∀ j page, pages[j]? = some page → ∀ e ∈ page,
    ∃ x ∈ (moments (i + j)).selected q, e = q.shape x
  complete : ∀ k, k.isBeyond after = true →
    (∀ j < pages.length, ∃ x ∈ (moments (i + j)).selected q, x.key = k) →
    ∃ e ∈ pages.flatten, e.key = k

namespace Sweep

variable {q : Query} {moments : Nat → Memory} {i : Nat} {after : Option Key}

theorem pairwise_shape {es : List Entity} (h : es.Pairwise Entities.Before) :
    (es.map q.shape).Pairwise Entities.Before := by
  rw [List.pairwise_map]
  refine h.imp ?_
  intro a b hab
  rwa [Entities.Before, Query.key_shape, Query.key_shape]

/-- A page that holds all there is behind a key. -/
theorem last : Sweep q moments i after [((moments i).selectedFrom q after).map q.shape] where
  ordered := by
    rw [List.flatten_singleton]
    exact pairwise_shape ((moments i).pairwise_selectedFrom q after)
  beyond := by
    intro e he
    rw [List.flatten_singleton] at he
    obtain ⟨x, hx, rfl⟩ := List.mem_map.1 he
    rw [Query.key_shape]
    exact (List.mem_filter.1 hx).2
  stored := by
    intro j page hpage e he
    obtain ⟨hj, rfl⟩ := List.getElem?_eq_some_iff.1 hpage
    have hj' : j = 0 := Nat.lt_one_iff.1 hj
    subst hj'
    obtain ⟨x, hx, rfl⟩ := List.mem_map.1 he
    exact ⟨x, (List.mem_filter.1 hx).1, rfl⟩
  complete := by
    intro k hk hall
    obtain ⟨x, hx, rfl⟩ := hall 0 Nat.one_pos
    rw [List.flatten_singleton]
    exact ⟨q.shape x, List.mem_map_of_mem (List.mem_filter.2 ⟨hx, hk⟩), Query.key_shape q x⟩

/-- A page that is cut, and the sweep behind its last key. -/
theorem cons {z : Entity} {pages : List (List Entity)}
    (hz : ((moments i).selectedFrom q after)[(moments i).cap - 1]? = some z)
    (hrest : Sweep q moments (i + 1) (some z.key) pages) :
    Sweep q moments i after
      ((((moments i).selectedFrom q after).take (moments i).cap).map q.shape :: pages) := by
  have hcap := (moments i).cap_pos
  have hsorted := (moments i).pairwise_selectedFrom q after
  have hzbeyond : z.key.isBeyond after = true :=
    (List.mem_filter.1 (List.mem_of_getElem? hz)).2
  refine ⟨?_, ?_, ?_, ?_⟩
  · rw [List.flatten_cons, List.pairwise_append]
    refine ⟨pairwise_shape (hsorted.sublist (List.take_sublist _ _)), hrest.ordered, ?_⟩
    intro a ha b hb
    -- The last key of the page stands between it and the pages behind it.
    obtain ⟨x, hx, rfl⟩ := List.mem_map.1 ha
    have hle := isLE_of_mem_take hsorted hz hcap hx
    have hlt := Key.isBeyond_some.1 (hrest.beyond b hb)
    rw [Entities.Before, Query.key_shape]
    exact Std.TransCmp.lt_of_isLE_of_lt hle hlt
  · intro e he
    rw [List.flatten_cons, List.mem_append] at he
    rcases he with he | he
    · obtain ⟨x, hx, rfl⟩ := List.mem_map.1 he
      rw [Query.key_shape]
      exact (List.mem_filter.1 (List.mem_of_mem_take hx)).2
    · exact Key.isBeyond_of_lt hzbeyond (Key.isBeyond_some.1 (hrest.beyond e he))
  · intro j page hpage e he
    cases j with
    | zero =>
        cases hpage
        obtain ⟨x, hx, rfl⟩ := List.mem_map.1 he
        exact ⟨x, (List.mem_filter.1 (List.mem_of_mem_take hx)).1, rfl⟩
    | succ j =>
        rw [List.getElem?_cons_succ] at hpage
        rw [← Nat.add_assoc, Nat.add_right_comm]
        exact hrest.stored j page hpage e he
  · intro k hk hall
    rw [List.flatten_cons]
    obtain ⟨x, hx, rfl⟩ := hall 0 (Nat.succ_pos _)
    -- The key is on this page already, or it is beyond its last key and so still to come.
    have hx' : x ∈ (moments i).selectedFrom q after := List.mem_filter.2 ⟨hx, hk⟩
    rw [← List.take_append_drop (moments i).cap ((moments i).selectedFrom q after),
      List.mem_append] at hx'
    rcases hx' with hx' | hx'
    · exact ⟨q.shape x, List.mem_append_left _ (List.mem_map_of_mem hx'), Query.key_shape q x⟩
    · have hlt := before_of_mem_drop hsorted hz hcap hx'
      obtain ⟨e, he, hkey⟩ := hrest.complete x.key (Key.isBeyond_some.2 hlt) (by
        intro j hj
        rw [Nat.add_assoc, Nat.add_comm 1 j]
        exact hall (j + 1) (Nat.succ_lt_succ hj))
      exact ⟨e, List.mem_append_right _ he, hkey⟩

end Sweep

theorem length_slots_pos {m : Memory} {q : Query} {after : Option Key} {z : Entity} {page : Page}
    (hz : (m.selectedFrom q after)[m.cap - 1]? = some z)
    (hslots : page.slots =
      ((m.selectedFrom q after).take m.cap).map fun e => some (q.shape e)) :
    0 < page.slots.length := by
  obtain ⟨hlt, _⟩ := List.getElem?_eq_some_iff.1 hz
  have hcap := m.cap_pos
  rw [hslots, List.length_map, List.length_take]
  omega

/-- **A drain in key order is a sweep**, whatever becomes of the memory from page to page. -/
theorem Drain.sweep_of_yields {q : Query} (hlookup : q.keyLookup? = none) (horders : q.orders = [])
    (hoffset : q.offset = none) (hlimit : q.limit = none) {moments : Nat → Memory} {i : Nat}
    {d d' : Drain} {q' : Query} {qs : List Query} (h : Yields moments i d q' qs d')
    (hquery : d.query = q) (hremaining : d.remaining = none) {after : Option Key}
    (hq' : q' = q.fromKey after) :
    ∃ pages, Sweep q moments i after pages ∧ pages.length = qs.length ∧
      d'.slots = d.slots ++ pages.flatten.map some := by
  -- In each case the page is the one that `answer_fromKey` tells, and its end decides the case.
  induction h generalizing after with
  | @last i d q' page hpage hnext =>
      obtain ⟨page', hanswer, hslots, hend⟩ :=
        (moments i).answer_fromKey hlookup horders hoffset hlimit after
      rw [hq', hanswer] at hpage
      cases hpage
      rcases hend with ⟨_, hlength⟩ | ⟨hmore, z, hz, hcursor⟩
      · refine ⟨_, Sweep.last, rfl, ?_⟩
        rw [List.flatten_singleton, List.map_map]
        rw [List.take_of_length_le hlength] at hslots
        exact congrArg (d.slots ++ ·) hslots
      · have hfirst := length_slots_pos hz hslots
        rw [next?_of_notFinished hmore hfirst (by rw [hremaining]; intro k hk; cases hk),
          hcursor] at hnext
        cases hnext
  | @more i d q' page c qs d' hpage hnext hrest ih =>
      obtain ⟨page', hanswer, hslots, hend⟩ :=
        (moments i).answer_fromKey hlookup horders hoffset hlimit after
      rw [hq', hanswer] at hpage
      cases hpage
      rcases hend with ⟨hlast, _⟩ | ⟨hmore, z, hz, hcursor⟩
      · rw [next?, if_neg fun h => hlast h.1] at hnext
        cases hnext
      · have hfirst := length_slots_pos hz hslots
        rw [next?_of_notFinished hmore hfirst (by rw [hremaining]; intro k hk; cases hk),
          hcursor] at hnext
        have hfrom : (d.add page).queryFrom c = q.fromKey (some z.key) := by
          rw [← Option.some.inj hnext, Query.fromKey, queryFrom, add, hremaining, hquery]
          cases q
          cases hoffset
          cases hlimit
          rfl
        have hnone : (d.add page).remaining = none := by
          rw [add, hremaining]
          rfl
        obtain ⟨pages, hsweep, hlength, hslots'⟩ := ih hquery hnone hfrom
        refine ⟨_, hsweep.cons hz, congrArg (· + 1) hlength, ?_⟩
        rw [hslots', List.flatten_cons, List.map_append, ← List.append_assoc, List.map_map]
        exact congrArg (d.slots ++ · ++ _) hslots

end Quarry
