import Quarry.Proofs.Engine.Interleaving
import Quarry.Proofs.Store.Order
import Quarry.Proofs.Store.Table

/-!
# Ordering by key by name

Without sort orders results are in key order and go on behind a key. The same order can be asked for
by name. Then results go on at an index, as all sorted results do. If other clients remove entities
between the pages, both drains come to their end and repeat nothing. As long as nothing that lies in
front is removed, they read the same pages. A removal in front shifts the others past an index.
-/

namespace Quarry

open Rehearsal

/-- The query with the order by key as its only one. -/
def Query.byKey (q : Query) : Query := { q with orders := [⟨keyProperty, false⟩] }

namespace Order

theorem compareAll_byKey : compareAll [⟨keyProperty, false⟩] = compareAll [] := by
  funext a b
  show (Ord.compare a.key b.key).then (Ord.compare a.key b.key) = Ord.compare a.key b.key
  exact Ordering.then_self

theorem sort_byKey (es : List Entity) : sort [⟨keyProperty, false⟩] es = sort [] es := by
  unfold sort
  rw [compareAll_byKey]

end Order

/-! ## Results that become fewer -/

/-- A list that has lost nothing of its front has the same front. -/
theorem take_eq_of_sublist {α : Type} {l l' : List α} (h : l'.Sublist l) (hnodup : l.Nodup)
    {n : Nat} (hkept : ∀ x ∈ l.take n, x ∈ l') : l'.take n = l.take n := by
  induction h generalizing n with
  | slnil => rfl
  | @cons l' l a h ih =>
      cases n with
      | zero => rfl
      | succ n =>
          -- The head is lost, and it is in the front.
          have ha : a ∈ l' := hkept a List.mem_cons_self
          exact absurd (h.subset ha) (List.nodup_cons.1 hnodup).1
  | @cons_cons l' l a h ih =>
      obtain ⟨ha, hl⟩ := List.nodup_cons.1 hnodup
      cases n with
      | zero => rfl
      | succ n =>
          rw [List.take_succ_cons, List.take_succ_cons, ih hl]
          intro x hx
          rcases List.mem_cons.1 (hkept x (List.mem_cons_of_mem a hx)) with rfl | hx'
          · exact absurd (List.mem_of_mem_take hx) ha
          · exact hx'

namespace Memory

variable {m : Memory} {q : Query}

/-- Behind the cursor of a page are, when entities have been removed, some of those that were behind
it. The cursor leads as far as before if nothing in front has been removed. -/
theorem startIndex_behind {l l' : List Entity} (hl : l.Pairwise Entities.Before)
    (hsub : l'.Sublist l) (hfits : l.length ≤ Nat.pow 2 64) {a : Nat} (ha : 0 < a)
    (hlt : a < l.length) {c : Cursor} (hc : q.behind l a = some c) {q' : Query}
    (hq' : q'.start = some c) :
    ∃ s, startIndex q' l' = .ok s ∧ (l'.drop s).Sublist (l.drop a) ∧
      (l'.take a = l.take a → s = a) := by
  rw [Query.behind, List.getElem?_eq_getElem (by omega), Option.map_some, Option.some.injEq] at hc
  have hl' : l'.Pairwise Entities.Before := hl.sublist hsub
  -- Without orders the cursor is a key, and otherwise an index.
  cases hkeys : q.orders.isEmpty with
  | true =>
      have hcount := countP_notAfter hl (i := a - 1) (by omega)
      rw [Nat.sub_add_cancel ha] at hcount
      rw [if_pos hkeys] at hc
      refine ⟨_, startIndex_after (hq'.trans (congrArg some hc.symm)) hl', ?_, ?_⟩
      · have hdrop := drop_countP (fronts_notAfter hl l[a - 1].key)
        rw [hcount] at hdrop
        rw [drop_countP (fronts_notAfter hl' _), hdrop]
        exact hsub.filter _
      · intro hfront
        have hlength := congrArg List.length hfront
        rw [List.length_take, List.length_take] at hlength
        have hget : l'[a - 1]? = l[a - 1]? := by
          rw [← List.getElem?_take_of_lt (Nat.sub_lt ha Nat.one_pos), hfront,
            List.getElem?_take_of_lt (Nat.sub_lt ha Nat.one_pos)]
        rw [List.getElem?_eq_getElem (by omega), List.getElem?_eq_getElem (by omega),
          Option.some.injEq] at hget
        have hcount' := countP_notAfter hl' (i := a - 1) (by omega)
        rwa [hget, Nat.sub_add_cancel ha] at hcount'
  | false =>
      rw [if_neg (by simp [hkeys])] at hc
      have hbound : a < Nat.pow 2 64 := Nat.lt_of_lt_of_le hlt hfits
      refine ⟨_, startIndex_index hbound (hq'.trans (congrArg some hc.symm)), ?_, ?_⟩
      · rcases Nat.le_total a l'.length with hle | hge
        · rw [Nat.min_eq_left hle]
          exact hsub.drop a
        · rw [Nat.min_eq_right hge, List.drop_length]
          exact List.nil_sublist _
      · intro hfront
        have hlength := congrArg List.length hfront
        rw [List.length_take, List.length_take] at hlength
        omega

end Memory

/-! ## One page -/

/-- A query for all its results in key order, whether that is asked for by name or not. -/
structure Query.Sweeping (q : Query) : Prop where
  orders : q.orders = [] ∨ q.orders = [⟨keyProperty, false⟩]
  offset : q.offset = none
  limit : q.limit = none

theorem Query.Sweeping.matching {q : Query} (h : q.Sweeping) (m : Memory) :
    m.matching q = m.selected q := by
  rcases h.orders with horders | horders
  · exact Memory.matching_of_orders_nil horders
  · rw [Memory.matching_eq, horders, Order.sort_byKey, Order.sort_nil (m.pairwise_selected q)]

theorem Query.Sweeping.byKey {q : Query} (h : q.Sweeping) : q.byKey.Sweeping :=
  ⟨.inr rfl, h.offset, h.limit⟩

namespace Drain

variable {q q' : Query} {m : Memory} {d : Drain} {s a : Nat}

/-- With the query `q'` under way, the drain of `q` goes on at index `s` of what the memory has. -/
structure At (q : Query) (m : Memory) (d : Drain) (q' : Query) (s : Nat) : Prop where
  query : d.query = q
  remaining : d.remaining = none
  asked : q' = { q with start := q'.start }
  window : q'.keyLookup? = none ∨ q'.start ≠ none
  start : Memory.startIndex q' (m.selected q) = .ok s

/-- The entities that the next page holds. -/
def nextEntities (q : Query) (m : Memory) (s : Nat) : List Entity :=
  ((m.selected q).drop s).take m.cap

/-- Wherever some results are gone, the drain goes on with some of those behind index `a`, and at `a`
itself if nothing in front of it is gone. -/
def GoesOn (q : Query) (m : Memory) (d : Drain) (q' : Query) (a : Nat) : Prop :=
  ∀ m' : Memory, (m'.selected q).Sublist (m.selected q) →
    ∃ s, At q m' d q' s ∧ ((m'.selected q).drop s).Sublist ((m.selected q).drop a) ∧
      ((m'.selected q).take a = (m.selected q).take a → s = a)

/-- The cursor of a page that ends at index `a` leads on from there. -/
theorem At.goesOn (h : At q m d q' s) (hq : q.Sweeping) (hm : m.Fits) (page : Page) (ha : 0 < a)
    (hlt : a < (m.selected q).length) {c : Cursor} (hc : q.behind (m.selected q) a = some c) :
    GoesOn q m (d.add page) ((d.add page).queryFrom c) a := by
  have hfits : (m.selected q).length ≤ Nat.pow 2 64 := by
    rw [← hq.matching m]
    exact Nat.le_trans (m.length_matching_le q) hm
  have hfrom : ((d.add page).queryFrom c).start = some c := rfl
  intro m' hfewer
  obtain ⟨s', hstart, hdrop, hfront⟩ :=
    Memory.startIndex_behind (m.pairwise_selected q) hfewer hfits ha hlt hc hfrom
  refine ⟨s', ⟨h.query, ?_, ?_, .inr (by simp [queryFrom]), hstart⟩, hdrop, hfront⟩
  · rw [add, h.remaining]
    rfl
  · rw [queryFrom, add, h.query, h.remaining]
    cases q
    cases hq.offset
    cases hq.limit
    rfl

/-- The next page is the last, or the drain goes on behind it. -/
theorem At.page (h : At q m d q' s) (hq : q.Sweeping) (hm : m.Fits) :
    ∃ page, m.answer q' = .ok page ∧
      page.slots = (nextEntities q m s).map (fun e => some (q.shape e)) ∧
      ((d.add page).next? page = none ∧ (m.selected q).length ≤ s + m.cap ∨
        s + m.cap < (m.selected q).length ∧ ∃ c, (d.add page).next? page = some c ∧
          GoesOn q m (d.add page) ((d.add page).queryFrom c) (s + m.cap)) := by
  have hlimit : q'.limit = none := by rw [h.asked, hq.limit]
  have hoffset : s + q'.offset.getD 0 = s := by rw [h.asked, hq.offset]; rfl
  have hmatching : m.matching q' = m.selected q := by
    rw [h.asked]
    exact hq.matching m
  have hpage := Memory.pageAt_cases m.cap q' (m.selected q) s hoffset m.cap_pos
  have hshape : q'.shape = q.shape := by rw [h.asked]; rfl
  have hbehind : q'.behind = q.behind := by rw [h.asked]; rfl
  rw [hlimit, cut_none, hshape, hbehind] at hpage
  have hanswer : m.answer q' = .ok (Memory.pageAt m.cap q' (m.selected q) s) := by
    rw [Memory.answer_eq_page h.window, hmatching, h.start]
    rfl
  generalize Memory.pageAt m.cap q' (m.selected q) s = page at hanswer hpage
  refine ⟨page, hanswer, ?_⟩
  rcases hpage with ⟨hlast, hslots, hlength⟩ | ⟨hmore, hslots, hcursor, hlt, -⟩
  · refine ⟨?_, .inl ⟨if_neg fun hnext => hlast hnext.1, ?_⟩⟩
    · rw [hslots, nextEntities, List.take_of_length_le hlength]
    · rw [List.length_drop] at hlength
      omega
  · have hcap := m.cap_pos
    have hfirst : 0 < page.slots.length := by
      rw [hslots, List.length_map, List.length_take, List.length_drop]
      omega
    have hnext := next?_of_notFinished hmore hfirst (by rw [h.remaining]; intro k hk; cases hk)
    obtain ⟨c, hc⟩ : ∃ c, q.behind (m.selected q) (s + m.cap) = some c :=
      ⟨_, by rw [Query.behind, List.getElem?_eq_getElem (by omega)]; rfl⟩
    rw [hcursor, hc] at hnext
    exact ⟨hslots, .inr ⟨hlt, c, hnext, h.goesOn hq hm page (by omega) hlt hc⟩⟩

/-- Of two drains at the same index, one of which asks for its order by name, both end with the same
page, or both go on behind it. -/
theorem At.page_byKey (h : At q m d q' s) (hq : q.Sweeping) (hm : m.Fits) {e : Drain} {r : Query}
    (he : At q.byKey m e r s) :
    ∃ page page', m.answer q' = .ok page ∧ m.answer r = .ok page' ∧
      page.slots = (nextEntities q m s).map (fun e => some (q.shape e)) ∧
      page'.slots = page.slots ∧
      ((d.add page).next? page = none ∧ (e.add page').next? page' = none ∨
        ∃ c c', (d.add page).next? page = some c ∧ (e.add page').next? page' = some c' ∧
          GoesOn q m (d.add page) ((d.add page).queryFrom c) (s + m.cap) ∧
          GoesOn q.byKey m (e.add page') ((e.add page').queryFrom c') (s + m.cap)) := by
  obtain ⟨page, hanswer, hslots, hend⟩ := h.page hq hm
  obtain ⟨page', hanswer', hslots', hend'⟩ := he.page hq.byKey hm
  have hsame : m.selected q.byKey = m.selected q := rfl
  rw [hsame] at hend'
  refine ⟨page, page', hanswer, hanswer', hslots, hslots'.trans hslots.symm, ?_⟩
  rcases hend with ⟨hlast, hle⟩ | ⟨hlt, c, hnext, hon⟩
  · rcases hend' with ⟨hlast', -⟩ | ⟨hlt', -⟩
    · exact .inl ⟨hlast, hlast'⟩
    · exact absurd hlt' (Nat.not_lt.2 hle)
  · rcases hend' with ⟨-, hle'⟩ | ⟨-, c', hnext', hon'⟩
    · exact absurd hlt (Nat.not_lt.2 hle')
    · exact .inr ⟨c, c', hnext, hnext', hon, hon'⟩

/-- What lies in front of an index is still found at another moment. -/
def Kept (q : Query) (m m' : Memory) (a : Nat) : Prop :=
  ∀ x ∈ (m.selected q).take a, x ∈ m'.selected q

theorem Kept.take_eq {m' : Memory} (h : Kept q m m' a)
    (hfewer : (m'.selected q).Sublist (m.selected q)) :
    (m'.selected q).take a = (m.selected q).take a := by
  have hnodup : (m.selected q).Nodup :=
    (m.pairwise_selected q).imp fun hab heq => hab.ne (congrArg Entity.key heq)
  exact take_eq_of_sublist hfewer hnodup h

theorem GoesOn.at_of_kept {m' : Memory} (h : GoesOn q m d q' a)
    (hfewer : (m'.selected q).Sublist (m.selected q)) (hkept : Kept q m m' a) :
    At q m' d q' a := by
  obtain ⟨s, hat, -, hfront⟩ := h m' hfewer
  cases hfront (hkept.take_eq hfewer)
  exact hat

/-! ## All pages -/

/-- The query never finds what it has not found a moment before, and it finds no more than a machine
word can count. -/
structure Fewer (q : Query) (moments : Nat → Memory) : Prop where
  sublist : ∀ i, ((moments (i + 1)).selected q).Sublist ((moments i).selected q)
  fits : ∀ i, (moments i).Fits

theorem Fewer.sublist_of_le {moments : Nat → Memory} (h : Fewer q moments) {i j : Nat}
    (hij : i ≤ j) : ((moments j).selected q).Sublist ((moments i).selected q) := by
  induction hij with
  | refl => exact List.Sublist.refl _
  | step _ ih => exact (h.sublist _).trans ih

theorem Fewer.byKey {moments : Nat → Memory} (h : Fewer q moments) : Fewer q.byKey moments :=
  ⟨h.sublist, h.fits⟩

variable {moments : Nat → Memory} {i : Nat} {d' : Drain} {qs : List Query}

theorem length_pos_of_yields (h : Yields moments i d q' qs d') : 0 < qs.length := by
  cases h <;> exact Nat.succ_pos _

theorem slots_prefix_of_yields (h : Yields moments i d q' qs d') : d.slots <+: d'.slots := by
  induction h with
  | last hpage hnext => exact List.prefix_append _ _
  | more hpage hnext hrest ih => exact (List.prefix_append _ _).trans ih

/-- While entities are removed, a drain comes to its end with some of those that lay before it. It
reads no more pages than these are, and one more. -/
theorem At.yields (hmoments : Fewer q moments) (hq : q.Sweeping) (h : At q (moments i) d q' s) :
    ∃ (qs : List Query) (d' : Drain) (es : List Entity), Yields moments i d q' qs d' ∧
      d'.slots = d.slots ++ es.map (fun e => some (q.shape e)) ∧
      es.Sublist (((moments i).selected q).drop s) ∧
      qs.length ≤ (((moments i).selected q).drop s).length + 1 := by
  -- The induction is on how much lies before the drain. Each page that is followed takes some of it.
  generalize hrest : (((moments i).selected q).drop s).length = rest
  induction rest using Nat.strongRecOn generalizing d q' s i with
  | _ rest ih =>
      obtain ⟨page, hanswer, hslots, hend⟩ := h.page hq (hmoments.fits i)
      rcases hend with ⟨hlast, -⟩ | ⟨hlt, c, hnext, hon⟩
      · exact ⟨[q'], d.add page, _, .last hanswer hlast, congrArg (d.slots ++ ·) hslots,
          List.take_sublist _ _, Nat.le_add_left 1 rest⟩
      · obtain ⟨s', hat, hdrop, -⟩ := hon (moments (i + 1)) (hmoments.sublist i)
        have hless : (((moments (i + 1)).selected q).drop s').length < rest := by
          have hle := hdrop.length_le
          have hcap := (moments i).cap_pos
          rw [List.length_drop (i := s + (moments i).cap)] at hle
          rw [List.length_drop] at hrest
          omega
        obtain ⟨qs, d', es, hyields, hslots', hsub, hlength⟩ := ih _ hless hat rfl
        refine ⟨q' :: qs, d', nextEntities q (moments i) s ++ es, .more hanswer hnext hyields,
          ?_, ?_, ?_⟩
        · rw [hslots', List.map_append, ← List.append_assoc, ← hslots]
          rfl
        · rw [← List.take_append_drop (moments i).cap (((moments i).selected q).drop s),
            List.drop_drop]
          exact (List.Sublist.refl _).append (hsub.trans hdrop)
        · exact Nat.succ_le_succ (Nat.le_trans hlength hless)

/-- **Two drains in one order.** As long as nothing that lies in front is removed, a drain in key
order and one that asks for this order by name read the same pages. -/
theorem At.yields_byKey (hmoments : Fewer q moments) (hq : q.Sweeping)
    (hyields : Yields moments i d q' qs d') (h : At q (moments i) d q' s)
    {last : Nat} (hlast : i + qs.length = last + 1) {e : Drain} {r : Query}
    (he : At q.byKey (moments i) e r s) (hslots : e.slots = d.slots)
    (hfront : Kept q (moments i) (moments last) s)
    (hreturned : ∀ x, some x ∈ d'.slots → ∃ y ∈ (moments last).selected q, y.key = x.key) :
    ∃ rs e', Yields moments i e r rs e' ∧ rs.length = qs.length ∧ e'.slots = d'.slots := by
  induction hyields generalizing s e r with
  | @last i d q' page hpage hnext =>
      obtain ⟨page₁, page', hanswer, hanswer', -, hsame, hend⟩ :=
        h.page_byKey hq (hmoments.fits i) he
      rw [hpage] at hanswer
      cases hanswer
      rcases hend with ⟨-, hnext'⟩ | ⟨c, -, hsome, -⟩
      · refine ⟨[r], e.add page', .last hanswer' hnext', rfl, ?_⟩
        show e.slots ++ page'.slots = d.slots ++ page.slots
        rw [hslots, hsame]
      · rw [hnext] at hsome
        cases hsome
  | @more i d q' page c qs d' hpage hnext hrest ih =>
      obtain ⟨page₁, page', hanswer, hanswer', hpageSlots, hsame, hend⟩ :=
        h.page_byKey hq (hmoments.fits i) he
      rw [hpage] at hanswer
      cases hanswer
      rcases hend with ⟨hnone, -⟩ | ⟨c₁, c', hsome, hnext', hon, hon'⟩
      · rw [hnext] at hnone
        cases hnone
      · rw [hnext, Option.some.injEq] at hsome
        subst hsome
        rw [List.length_cons] at hlast
        have hpos := length_pos_of_yields hrest
        have hlater := hmoments.sublist_of_le (i := i + 1) (j := last) (by omega)
        -- What lies in front of the next page lay in front of this one, or it is on it.
        have hkept : Kept q (moments i) (moments last) (s + (moments i).cap) := by
          intro x hx
          rw [List.take_add, List.mem_append] at hx
          rcases hx with hx | hx
          · exact hfront x hx
          · have hpageMem : some (q.shape x) ∈ page.slots := by
              rw [hpageSlots]
              exact List.mem_map_of_mem hx
            have hmem : some (q.shape x) ∈ d'.slots :=
              (slots_prefix_of_yields hrest).subset (List.mem_append_right _ hpageMem)
            obtain ⟨y, hy, hkey⟩ := hreturned _ hmem
            rw [Query.key_shape] at hkey
            have hyi := (hmoments.sublist i).subset (hlater.subset hy)
            have hxi := List.mem_of_mem_drop (List.mem_of_mem_take hx)
            rwa [← Entities.eq_of_key_eq ((moments i).pairwise_selected q) hyi hxi hkey]
        have hnow : Kept q (moments i) (moments (i + 1)) (s + (moments i).cap) :=
          fun x hx => hlater.subset (hkept x hx)
        have hthen : Kept q (moments (i + 1)) (moments last) (s + (moments i).cap) := by
          intro x hx
          rw [hnow.take_eq (hmoments.sublist i)] at hx
          exact hkept x hx
        have hadded : (e.add page').slots = (d.add page).slots := by
          show e.slots ++ page'.slots = d.slots ++ page.slots
          rw [hslots, hsame]
        obtain ⟨rs, e', hyields', hlength, hslots'⟩ :=
          ih (hon.at_of_kept (hmoments.sublist i) hnow) (by omega)
            (hon'.at_of_kept (hmoments.sublist i) hnow) hadded hthen hreturned
        exact ⟨r :: rs, e', .more hanswer' hnext' hyields', congrArg (· + 1) hlength, hslots'⟩

/-- Whatever lay in front of where a drain started, and whatever it has returned, is still found when
its last page is read. -/
structure Undisturbed (q : Query) (moments : Nat → Memory) (d : Drain) : Prop where
  front : ∀ s, Memory.startIndex q ((moments 1).selected q) = .ok s →
    Kept q (moments 1) (moments d.batches) s
  returned : ∀ e, some e ∈ d.slots → ∃ x ∈ (moments d.batches).selected q, x.key = e.key

/-- A query that looks up a key ends with its first page, whatever its order. -/
theorem yields_lookup {k : Key} (hlookup : q.keyLookup? = some k) (hstart : q.start = none)
    (moments : Nat → Memory) (i : Nat) :
    ∃ slots, slots.length ≤ 1 ∧
      Yields moments i (start q) q [q] ((start q).add (.last slots)) ∧
      Yields moments i (start q.byKey) q.byKey [q.byKey] ((start q.byKey).add (.last slots)) := by
  obtain ⟨slots, hpage, hlength⟩ := Memory.lookup_last q k (moments i)
  have hanswer := Memory.answer_eq_lookup (m := moments i) hlookup hstart
  have hanswer' := Memory.answer_eq_lookup (m := moments i) (q := q.byKey) hlookup hstart
  have hsame : (moments i).lookup q.byKey k = (moments i).lookup q k := rfl
  rw [hpage] at hanswer
  rw [hsame, hpage] at hanswer'
  exact ⟨slots, hlength, .last hanswer rfl, .last hanswer' rfl⟩

/-- What a drain returns of results in key order is in key order. -/
theorem pairwise_slots {es : List Entity} (h : es.Sublist (m.selected q)) :
    ((es.map fun e => some (q.shape e)).filterMap id).Pairwise Entities.Before := by
  have hshaped : (es.map fun e => some (q.shape e)).filterMap id = es.map q.shape := by
    rw [List.filterMap_map]
    exact congrFun List.filterMap_eq_map' _
  rw [hshaped]
  exact Sweep.pairwise_shape ((m.pairwise_selected q).sublist h)

theorem pairwise_of_length_le_one {slots : List (Option Entity)} (h : slots.length ≤ 1) :
    (slots.filterMap id).Pairwise Entities.Before := by
  have hle := Nat.le_trans (List.length_filterMap_le id slots) h
  generalize slots.filterMap id = es at hle
  rcases es with _ | ⟨e, _ | ⟨e', es⟩⟩
  · exact .nil
  · exact List.pairwise_singleton _ _
  · exact absurd hle (by simp)

/-- From the first page on, a drain in key order and one that asks for it by name come to an end,
with no more pages than there are results, and one more. -/
theorem yields_of_first (hmoments : Fewer q moments) (hq : q.Sweeping) {page : Page}
    (hpage : (moments 1).answer q = .ok page) :
    ∃ qs rs d d', Yields moments 1 (start q) q qs d ∧
      Yields moments 1 (start q.byKey) q.byKey rs d' ∧
      qs.length ≤ ((moments 1).selected q).length + 1 ∧
      rs.length ≤ ((moments 1).selected q).length + 1 ∧
      (d'.slots.filterMap id).Pairwise Entities.Before ∧
      (Undisturbed q moments d → d'.slots = d.slots ∧ rs.length = qs.length) := by
  by_cases hwindow : q.keyLookup? = none ∨ q.start ≠ none
  · rw [Memory.answer_eq_page hwindow, hq.matching] at hpage
    obtain ⟨s, hstart, -⟩ := map_eq_ok.1 hpage
    have hat : At q (moments 1) (start q) q s := ⟨rfl, hq.limit, rfl, hwindow, hstart⟩
    have hat' : At q.byKey (moments 1) (start q.byKey) q.byKey s :=
      ⟨rfl, hq.limit, rfl, hwindow, hstart⟩
    have hdrop : (((moments 1).selected q).drop s).length ≤ ((moments 1).selected q).length :=
      (List.drop_sublist _ _).length_le
    obtain ⟨qs, d, es, hyields, hslots, hes, hle⟩ := hat.yields hmoments hq
    by_cases hkept : Undisturbed q moments d
    · have hbatches : d.batches = 0 + qs.length := batches_of_yields hyields
      have hlast : 1 + qs.length = d.batches + 1 := by omega
      obtain ⟨rs, d', hyields', hlength, hsame⟩ :=
        hat.yields_byKey hmoments hq hyields hlast hat' rfl (hkept.front s hstart) hkept.returned
      refine ⟨qs, rs, d, d', hyields, hyields', by omega, by omega, ?_, fun _ => ⟨hsame, hlength⟩⟩
      rw [hsame, hslots]
      exact pairwise_slots (hes.trans (List.drop_sublist _ _))
    · obtain ⟨rs, d', es', hyields', hslots', hes', hle'⟩ := hat'.yields hmoments.byKey hq.byKey
      refine ⟨qs, rs, d, d', hyields, hyields', by omega, Nat.le_trans hle' (Nat.succ_le_succ hdrop),
        ?_, fun h => absurd h hkept⟩
      rw [hslots']
      exact pairwise_slots (hes'.trans (List.drop_sublist _ _))
  · obtain ⟨hlookup, hstart⟩ := not_or.1 hwindow
    obtain ⟨k, hk⟩ := Option.ne_none_iff_exists'.1 hlookup
    obtain ⟨slots, hlength, hyields, hyields'⟩ := yields_lookup hk (not_not.1 hstart) moments 1
    exact ⟨_, _, _, _, hyields, hyields', Nat.le_add_left 1 _, Nat.le_add_left 1 _,
      pairwise_of_length_le_one hlength, fun _ => ⟨rfl, rfl⟩⟩

/-- A page that cannot be read cannot be read by name, either. -/
theorem answer_byKey_error (hq : q.Sweeping) {e : StoreError} (h : m.answer q = .error e) :
    m.answer q.byKey = .error e := by
  by_cases hwindow : q.keyLookup? = none ∨ q.start ≠ none
  · rw [Memory.answer_eq_page hwindow, hq.matching, map_eq_error] at h
    rw [Memory.answer_eq_page (q := q.byKey) hwindow, hq.byKey.matching, map_eq_error]
    exact h
  · obtain ⟨hlookup, hstart⟩ := not_or.1 hwindow
    obtain ⟨k, hk⟩ := Option.ne_none_iff_exists'.1 hlookup
    rw [Memory.answer_eq_lookup hk (not_not.1 hstart)] at h
    cases h

end Drain

/-! ## Removals -/

namespace Memory

variable {schedule : Nat → List Deed} {m : Memory}

/-- Other clients do nothing but remove entities. -/
def OnlyRemovals (schedule : Nat → List Deed) : Prop := ∀ i, ∀ d ∈ schedule i, ∃ k, d = .remove k

theorem entities_written_sublist (h : OnlyRemovals schedule) (i : Nat) (m : Memory) :
    (m.written schedule i).table.entities.Sublist m.table.entities := by
  have hdeeds := h i
  unfold written
  generalize schedule i = deeds at hdeeds
  induction deeds generalizing m with
  | nil => exact List.Sublist.refl _
  | cons d deeds ih =>
      obtain ⟨hd, hrest⟩ := List.forall_mem_cons.1 hdeeds
      obtain ⟨k, rfl⟩ := hd
      rw [List.foldl_cons]
      exact (ih _ hrest).trans List.filter_sublist

theorem faults_act (m : Memory) (d : Deed) : (act m d).faults = m.faults := by
  cases d with
  | fail e => rfl
  | remove k => rfl
  | insert e => exact m.faults_insert e

theorem faults_written (schedule : Nat → List Deed) (i : Nat) (m : Memory) :
    (m.written schedule i).faults = m.faults := by
  unfold written
  induction schedule i generalizing m with
  | nil => rfl
  | cons d deeds ih => rw [List.foldl_cons, ih, faults_act]

theorem entities_moment_sublist (h : OnlyRemovals schedule) (m : Memory) (i : Nat) :
    (m.moment schedule i).table.entities.Sublist m.table.entities := by
  induction i with
  | zero => exact entities_written_sublist h 0 m
  | succ i ih => exact (entities_written_sublist h (i + 1) _).trans ih

theorem fewer_moment (h : OnlyRemovals schedule) (hfits : m.Fits) (q : Query) :
    Drain.Fewer q (m.moment schedule) where
  sublist i := (entities_written_sublist h (i + 1) _).filter _
  fits i := Nat.le_trans (entities_moment_sublist h m i).length_le hfits

end Memory

/-! ## Runs -/

namespace Pull

variable {schedule : Nat → List Deed} {m : Memory} {q : Query}

/-- What is read at a moment, when no failure is due. -/
theorem run_of_bare {i : Nat} {s : Memory} (hs : s.bare = (m.moment schedule i).bare)
    (hfaults : s.faults.queries = 0) (q : Query) :
    (s.written schedule (i + 1)).run q =
      ((m.moment schedule (i + 1)).answer q,
        { s.written schedule (i + 1) with log := (s.written schedule (i + 1)).log ++ [q] }) := by
  have hstore : (s.written schedule (i + 1)).bare = (m.moment schedule (i + 1)).bare := by
    rw [Memory.moment, Memory.bare_written, Memory.bare_written, hs]
  rw [Memory.run_of_no_faults (by rw [Memory.faults_written, hfaults]), ← Memory.answer_bare,
    hstore, Memory.answer_bare]

/-- A drain that ends page by page ends when it is run among others. -/
theorem exec_drive_of_moments {j : Nat} {d d' : Drain} {qs : List Query}
    (h : Drain.Yields (m.moment schedule) j d q qs d') {i : Nat} (hj : j = i + 1)
    {w : Session Memory} (hw : w.store.bare = (m.moment schedule i).bare)
    (hfaults : w.store.faults.queries = 0) {n : Nat} (hn : qs.length ≤ n) :
    ((drive Memory.store (Memory.written schedule) j n (asked d (.running q))).exec w).1 =
      .ok (some d') := by
  induction h generalizing i w n with
  | @last j d q page hpage hnext =>
      subst hj
      obtain ⟨n, rfl⟩ := Nat.exists_eq_succ_of_ne_zero (Nat.ne_of_gt hn)
      have hrun := run_of_bare hw hfaults q
      rw [hpage] at hrun
      rw [exec_drive_last (S := Memory.store) (t := .running q) hrun hnext]
  | @more j d q page c qs d' hpage hnext hrest ih =>
      subst hj
      obtain ⟨n, rfl⟩ := Nat.exists_eq_succ_of_ne_zero (Nat.ne_of_gt (Nat.zero_lt_of_lt hn))
      have hrun := run_of_bare hw hfaults q
      rw [hpage] at hrun
      rw [exec_drive_more (S := Memory.store) (t := .running q) hrun hnext rfl]
      refine ih rfl ?_ ?_ (Nat.le_of_succ_le_succ hn)
      · show (w.store.written schedule (i + 1)).bare = _
        rw [Memory.moment, Memory.bare_written, Memory.bare_written, hw]
      · show (w.store.written schedule (i + 1)).faults.queries = 0
        rw [Memory.faults_written, hfaults]

/-- A drain that starts anew fails with its first page. -/
theorem exec_drive_first_failed {w : Session Memory} {e : StoreError}
    (h : ((w.store.moment schedule 1).run q).1 = .error e) {n : Nat} (hn : 1 < n) :
    (((fresh q).drive Memory.store (Memory.written schedule) 0 n).exec w).1 = .error e := by
  obtain ⟨n, rfl⟩ : ∃ k, n = k + 2 := ⟨n - 2, by omega⟩
  rw [exec_drive_suspended (exec_fresh _ _ _)]
  have hredeem : Memory.store.redeem (.running q)
      (Memory.written schedule 1 (w.store.written schedule 0)) =
        (.error e, ((w.store.moment schedule 1).run q).2) := by
    rw [← h]
    rfl
  exact congrArg Prod.fst (exec_drive_failed (w := { w with store := w.store.written schedule 0 })
    hredeem)

/-- A drain that starts anew ends as its pages end. -/
theorem exec_drive_first {w : Session Memory} (hfaults : w.store.faults.queries = 0) {d : Drain}
    {qs : List Query}
    (h : Drain.Yields (w.store.moment schedule) 1 (.start q) q qs d) {n : Nat}
    (hn : d.batches < n) :
    (((fresh q).drive Memory.store (Memory.written schedule) 0 n).exec w).1 = .ok (some d) := by
  have hbatches : d.batches = 0 + qs.length := Drain.batches_of_yields h
  obtain ⟨n, rfl⟩ := Nat.exists_eq_succ_of_ne_zero (Nat.ne_of_gt (Nat.zero_lt_of_lt hn))
  rw [exec_drive_suspended (exec_fresh _ _ _)]
  refine exec_drive_of_moments h (i := 0) rfl rfl ?_ (by omega)
  show (w.store.written schedule 0).faults.queries = 0
  rw [Memory.faults_written, hfaults]

/-- **Ordering by key by name.** Other clients remove entities before each run of a drain without
sort orders, limit and offset, and of the same drain with the order by key asked for by name. Both
fail alike with the first page, or both come to their end within one round trip more than there were
entities. By name, too, no key is returned twice, and keys rise. If nothing in front of the start,
and nothing that the first drain returns, is removed before it has read its last page, the two
return the same slots in as many round trips. -/
theorem drive_byKey (schedule : Nat → List Deed) (hremovals : Memory.OnlyRemovals schedule)
    (q : Query) (horders : q.orders = []) (hoffset : q.offset = none) (hlimit : q.limit = none)
    (w : Session Memory) (hfits : w.store.Fits) :
    (∃ e, ∀ n, 1 < n →
      (((fresh q).drive Memory.store (Memory.written schedule) 0 n).exec w).1 = .error e ∧
      (((fresh q.byKey).drive Memory.store (Memory.written schedule) 0 n).exec w).1 = .error e) ∨
    ∃ d d',
      (∀ n, d.batches < n →
        (((fresh q).drive Memory.store (Memory.written schedule) 0 n).exec w).1 = .ok (some d)) ∧
      (∀ n, d'.batches < n →
        (((fresh q.byKey).drive Memory.store (Memory.written schedule) 0 n).exec w).1 =
          .ok (some d')) ∧
      d.batches ≤ w.store.table.entities.length + 1 ∧
      d'.batches ≤ w.store.table.entities.length + 1 ∧
      (d'.slots.filterMap id).Pairwise (fun a b => compare a.key b.key = .lt) ∧
      (Drain.Undisturbed q (w.store.moment schedule) d →
        d'.slots = d.slots ∧ d'.batches = d.batches) := by
  have hq : q.Sweeping := ⟨.inl horders, hoffset, hlimit⟩
  have hfaults : (w.store.moment schedule 1).faults = w.store.faults := by
    rw [Memory.moment, Memory.moment, Memory.faults_written, Memory.faults_written]
  cases hqueries : w.store.faults.queries with
  | succ n =>
      -- The failure that is due meets the first page, and names only the kind.
      rw [← hfaults] at hqueries
      refine .inl ⟨.queryFailed ("injected failure on kind '" ++ q.kind ++ "'"), ?_⟩
      intro n hn
      exact ⟨exec_drive_first_failed (by rw [Memory.run_of_fault hqueries]) hn,
        exec_drive_first_failed (by rw [Memory.run_of_fault hqueries]; rfl) hn⟩
  | zero =>
      cases hpage : (w.store.moment schedule 1).answer q with
      | error e =>
          rw [← hfaults] at hqueries
          refine .inl ⟨e, ?_⟩
          intro n hn
          have hpage' := Drain.answer_byKey_error hq hpage
          exact ⟨exec_drive_first_failed (by rw [Memory.run_of_no_faults hqueries, hpage]) hn,
            exec_drive_first_failed (by rw [Memory.run_of_no_faults hqueries, hpage']) hn⟩
      | ok page =>
          obtain ⟨qs, rs, d, d', hyields, hyields', hle, hle', hordered, hsame⟩ :=
            Drain.yields_of_first (Memory.fewer_moment hremovals hfits q) hq hpage
          have hbatches : d.batches = 0 + qs.length := Drain.batches_of_yields hyields
          have hbatches' : d'.batches = 0 + rs.length := Drain.batches_of_yields hyields'
          have hfound : ((w.store.moment schedule 1).selected q).length ≤
              w.store.table.entities.length :=
            Nat.le_trans (List.length_filter_le _ _)
              (Memory.entities_moment_sublist hremovals w.store 1).length_le
          refine .inr ⟨d, d', fun n hn => exec_drive_first hqueries hyields hn,
            fun n hn => exec_drive_first hqueries hyields' hn, by omega, by omega, hordered, ?_⟩
          intro hkept
          obtain ⟨hslots, hlength⟩ := hsame hkept
          exact ⟨hslots, by omega⟩

/-- The third note is removed when the first page has been read. -/
def thirdRemoved : Nat → List Deed
  | 2 => [.remove (note 3)]
  | _ => []

theorem onlyRemovals_thirdRemoved : Memory.OnlyRemovals thirdRemoved := by
  intro i d hd
  rcases i with _ | _ | _ | i
  · cases hd
  · cases hd
  · exact ⟨note 3, List.mem_singleton.1 hd⟩
  · cases hd

/-- A removal behind the first page changes nothing about how the two drains compare. -/
theorem drive_byKey_thirdRemoved :
    ∃ d d' : Drain,
      (((fresh (.ofKind none "Note")).drive Memory.store (Memory.written thirdRemoved) 0 5).exec
        (.start threeNotes)).1 = .ok (some d) ∧
      (((fresh (Query.ofKind none "Note").byKey).drive Memory.store
        (Memory.written thirdRemoved) 0 5).exec (.start threeNotes)).1 = .ok (some d') ∧
      d.slots = [some ⟨note 1, .empty⟩, some ⟨note 2, .empty⟩] ∧ d'.slots = d.slots := by
  have hrun : (((fresh (.ofKind none "Note")).drive Memory.store
      (Memory.written thirdRemoved) 0 5).exec (.start threeNotes)).1.toOption.join.map
        (fun d => (d.slots, d.batches)) =
      some ([some ⟨note 1, .empty⟩, some ⟨note 2, .empty⟩], 2) := by
    rw [Memory.store_eq_storeBy]
    decide +kernel
  rcases drive_byKey thirdRemoved onlyRemovals_thirdRemoved (.ofKind none "Note") rfl rfl rfl
    (.start threeNotes) fits_threeNotes with ⟨e, herror⟩ | ⟨d, d', hd, hd', hle, hle', -, hsame⟩
  · rw [(herror 5 (by decide)).1] at hrun
    cases hrun
  · have hfive : (Session.start threeNotes).store.table.entities.length + 1 < 5 := by decide
    rw [hd 5 (Nat.lt_of_le_of_lt hle hfive)] at hrun
    obtain ⟨hslots, hbatches⟩ := Prod.mk.inj (Option.some.inj hrun)
    have hkept : Drain.Undisturbed (.ofKind none "Note") (threeNotes.moment thirdRemoved) d := by
      refine ⟨?_, ?_⟩
      · intro s hs
        cases hs
        intro x hx
        cases hx
      · intro e he
        rw [hslots] at he
        rw [hbatches]
        refine ⟨e, ?_, rfl⟩
        rcases List.mem_cons.1 he with h | h
        · cases h
          decide +kernel
        · cases List.mem_singleton.1 h
          decide +kernel
    exact ⟨d, d', hd 5 (Nat.lt_of_le_of_lt hle hfive), hd' 5 (Nat.lt_of_le_of_lt hle' hfive), hslots,
      (hsame hkept).1⟩

/-- When the first note is removed after the first page, the third is stored and found all the time.
The drain in key order returns it, and the one that asks for this order by name passes it over. -/
theorem drive_byKey_skips :
    (((fresh (.ofKind none "Note")).drive Memory.store (Memory.written firstRemoved) 0 5).exec
        (.start threeNotes)).1.toOption.join.map Drain.slots =
      some [some ⟨note 1, .empty⟩, some ⟨note 2, .empty⟩, some ⟨note 3, .empty⟩] ∧
    (((fresh (Query.ofKind none "Note").byKey).drive Memory.store
        (Memory.written firstRemoved) 0 5).exec (.start threeNotes)).1.toOption.join.map
          Drain.slots =
      some [some ⟨note 1, .empty⟩, some ⟨note 2, .empty⟩] ∧
    ∀ i < 5, (⟨note 3, .empty⟩ : Entity) ∈
      (threeNotes.moment firstRemoved i).selected (.ofKind none "Note") := by
  rw [Memory.store_eq_storeBy]
  decide +kernel

end Pull

end Quarry
