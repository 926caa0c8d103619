import Mathlib.Algebra.GroupWithZero.Nat
import Quarry.Proofs.Engine.DropFailure

/-!
# The protocol of a drop

A store may keep a record of the round trips that are made to it. Whatever pages and failures it
answers with, a drop makes them in turns: a query for a page of keys, then the deletion of just
these keys, then the query from the end of that page on. It comes to its end when no round trip is
due any more, or with the first one that fails, and it reports the deletions that were carried out.
-/

namespace Quarry

open Quarry.Action

variable {σ : Type}

/-- The number of keys that a call has deleted. -/
def Trip.taken : Trip → Nat
  | .delete ks (.ok _) => ks.length
  | _ => 0

/-- The store with a record of the round trips made to it. A query reaches the store when its ticket
is redeemed. -/
def Store.traced (S : Store σ) : Store (σ × List Trip) where
  space s := S.space s.1
  ask q s := (.running q, s)
  redeem
    | .running q, s =>
        ((S.query q s.1).1, (S.query q s.1).2, s.2 ++ [.query q (S.query q s.1).1])
    | .answered answer, s => (answer, s)
  save es s := ((S.save es s.1).1, (S.save es s.1).2, s.2 ++ [.save es (S.save es s.1).1])
  update es s :=
    ((S.update es s.1).1, (S.update es s.1).2, s.2 ++ [.update es (S.update es s.1).1])
  delete ks s :=
    ((S.delete ks s.1).1, (S.delete ks s.1).2, s.2 ++ [.delete ks (S.delete ks s.1).1])
  patience s := S.patience s.1

namespace Store

variable {S : Store σ} {s s' : σ}

theorem query_traced {q : Query} {answer : Except StoreError Page} (h : S.query q s = (answer, s'))
    (record : List Trip) :
    S.traced.query q (s, record) = (answer, s', record ++ [.query q answer]) := by
  show ((S.query q s).1, (S.query q s).2, record ++ [Trip.query q (S.query q s).1]) = _
  rw [h]

theorem delete_traced {ks : List Key} {answer : Except StoreError Unit}
    (h : S.delete ks s = (answer, s')) (record : List Trip) :
    S.traced.delete ks (s, record) = (answer, s', record ++ [.delete ks answer]) := by
  show ((S.delete ks s).1, (S.delete ks s).2, record ++ [Trip.delete ks (S.delete ks s).1]) = _
  rw [h]

end Store

/-- The session with an empty record beside the store. -/
def Session.traced (w : Session σ) : Session (σ × List Trip) := { w with store := (w.store, []) }

namespace Drop

/-! ## The protocol -/

/-- The query asks for so many keys of a kind, from a cursor on. -/
def AsksKeys (kind : String) (pageSize : Nat) (start : Option Cursor) (q : Query) : Prop :=
  q = { space := q.space, kind, filters := [], orders := [], limit := some pageSize, offset := none,
        projection := [], keysOnly := true, start }

/-- After these round trips of a drop, this one may come next, however it is answered. The first
query starts at the beginning. A page that holds keys is deleted. Behind a page that was deleted
there is a query from its end on, if it has one and is not the last. -/
inductive Due (kind : String) (pageSize : Nat) : List Trip → Trip → Prop
  | first {q : Query} (hq : AsksKeys kind pageSize none q) (answer : Except StoreError Page) :
      Due kind pageSize [] (.query q answer)
  | delete {before : List Trip} {q : Query} {page : Page} {ks : List Key}
      (hks : ks = page.slots.reduceOption.map Entity.key) (hne : ks ≠ [])
      (answer : Except StoreError Unit) :
      Due kind pageSize (before ++ [.query q (.ok page)]) (.delete ks answer)
  | next {before : List Trip} {q q' : Query} {page : Page} {ks : List Key} {c : Cursor}
      (hmore : page.more ≠ .exhausted) (hcursor : page.cursor = some c)
      (hq : AsksKeys kind pageSize (some c) q') (answer : Except StoreError Page) :
      Due kind pageSize (before ++ [.query q (.ok page), .delete ks (.ok ())]) (.query q' answer)

/-- Each of the round trips was due after those before it. -/
def Orderly (kind : String) (pageSize : Nat) (trips : List Trip) : Prop :=
  ∀ before t, before ++ [t] <+: trips → Due kind pageSize before t

/-- What the round trips of a drop come to: the deletions that were carried out, and all their
keys. -/
def summary (kind : String) (trips : List Trip) : DropSummary :=
  ⟨kind, trips.countP Trip.isDeletion, (trips.map Trip.taken).sum⟩

/-- How a drop ends after its round trips: nothing more is due, or the last of them failed. It is
stopped as well where it would go on after as many pages as the store's patience allows. -/
inductive Ends (kind : String) (pageSize patience : Nat) :
    List Trip → Except DropError DropSummary → Prop
  | complete {trips : List Trip} (hdone : ∀ t, ¬ Due kind pageSize trips t) :
      Ends kind pageSize patience trips (.ok (summary kind trips))
  | queryFailed (before : List Trip) (q : Query) (e : StoreError) :
      Ends kind pageSize patience (before ++ [.query q (.error e)])
        (.error ⟨.query, summary kind (before ++ [.query q (.error e)]), e⟩)
  | deleteFailed (before : List Trip) (ks : List Key) (e : StoreError) :
      Ends kind pageSize patience (before ++ [.delete ks (.error e)])
        (.error ⟨.delete, summary kind (before ++ [.delete ks (.error e)]), e⟩)
  | endless {trips : List Trip} (hdue : ∃ t, Due kind pageSize trips t)
      (hpages : (summary kind trips).pages = patience) :
      Ends kind pageSize patience trips (.error ⟨.query, summary kind trips, Store.endless⟩)

variable {kind : String} {pageSize patience : Nat} {before trips : List Trip} {t : Trip} {q : Query}
  {page : Page}

theorem orderly_nil : Orderly kind pageSize [] := by
  intro before t h
  have hlength := h.length_le
  simp at hlength

theorem Orderly.concat (h : Orderly kind pageSize before) (ht : Due kind pageSize before t) :
    Orderly kind pageSize (before ++ [t]) := by
  intro before' t' hpre
  rcases List.prefix_concat_iff.1 hpre with hall | hpre
  · obtain ⟨rfl, hlast⟩ := List.append_inj' hall rfl
    cases hlast
    exact ht
  · exact h before' t' hpre

theorem asksKeys_pageQuery (space : Option String) (kind : String) (pageSize : Nat)
    (start : Option Cursor) : AsksKeys kind pageSize start (pageQuery space kind pageSize start) :=
  rfl

theorem keys_eq_map (page : Page) : keys page = page.slots.reduceOption.map Entity.key := by
  show _ = (page.slots.filterMap id).map Entity.key
  rw [keys, List.map_filterMap]
  rfl

theorem next?_eq_some {c : Cursor} :
    next? page = some c ↔ page.more ≠ .exhausted ∧ page.cursor = some c := by
  rw [next?]
  cases page.more <;> simp [More.hasMore]

/-- Nothing comes after a page without keys. -/
theorem not_due_of_no_keys (hkeys : keys page = []) :
    ¬ Due kind pageSize (before ++ [.query q (.ok page)]) t := by
  intro h
  generalize htrips : before ++ [Trip.query q (.ok page)] = trips at h
  cases h with
  | first => simp at htrips
  | delete hks hne =>
      obtain ⟨_, hlast⟩ := List.append_inj' htrips rfl
      cases hlast
      rw [hks, ← keys_eq_map] at hne
      exact hne hkeys
  | next =>
      have hlast := congrArg List.getLast? htrips
      simp at hlast

/-- Nothing comes after a page that was deleted and has no cursor or is the last. -/
theorem not_due_of_no_next {ks : List Key} (hnext : next? page = none) :
    ¬ Due kind pageSize (before ++ [.query q (.ok page), .delete ks (.ok ())]) t := by
  intro h
  generalize htrips : before ++ [Trip.query q (.ok page), .delete ks (.ok ())] = trips at h
  cases h with
  | first => simp at htrips
  | delete =>
      have hlast := congrArg List.getLast? htrips
      simp at hlast
  | next hmore hcursor =>
      obtain ⟨_, hlast⟩ := List.append_inj' htrips rfl
      cases hlast
      rw [next?_eq_some.2 ⟨hmore, hcursor⟩] at hnext
      cases hnext

/-! ## One page -/

/-- The round trips of a drop for one page, and how it goes on from there. -/
inductive Turn (pageSize : Nat) (start : Option Cursor) (done : DropSummary) :
    List Trip → Except DropError (DropSummary × Option Cursor) → Prop
  | queryFailed (space : Option String) (e : StoreError) :
      Turn pageSize start done [.query (pageQuery space done.kind pageSize start) (.error e)]
        (.error ⟨.query, done, e⟩)
  | empty (space : Option String) {page : Page} (hkeys : keys page = []) :
      Turn pageSize start done [.query (pageQuery space done.kind pageSize start) (.ok page)]
        (.ok (done, none))
  | deleteFailed (space : Option String) {page : Page} (hkeys : keys page ≠ []) (e : StoreError) :
      Turn pageSize start done
        [.query (pageQuery space done.kind pageSize start) (.ok page),
          .delete (keys page) (.error e)]
        (.error ⟨.delete, done, e⟩)
  | deleted (space : Option String) {page : Page} (hkeys : keys page ≠ []) :
      Turn pageSize start done
        [.query (pageQuery space done.kind pageSize start) (.ok page), .delete (keys page) (.ok ())]
        (.ok (⟨done.kind, done.pages + 1, done.deleted + (keys page).length⟩, next? page))

/-- One page is dropped in a turn, and the record of it is only looking on. -/
theorem exec_step_traced (S : Store σ) (pageSize : Nat) (start : Option Cursor) (done : DropSummary)
    {w : Session (σ × List Trip)} {v : Session σ} (hv : w.store.1 = v.store) :
    ∃ trips r w' v', (step S.traced pageSize start done).exec w = (r, w') ∧
      (step S pageSize start done).exec v = (r, v') ∧
      w'.store = (v'.store, w.store.2 ++ trips) ∧ Turn pageSize start done trips r := by
  let space := S.space v.store
  have hspace : S.traced.space w.store = space := congrArg S.space hv
  cases hquery : S.query (pageQuery space done.kind pageSize start) v.store with
  | mk answer s =>
      have hfetch := Store.query_traced (hv.symm ▸ hquery) w.store.2
      rw [← hspace] at hfetch
      cases answer with
      | error e =>
          exact ⟨_, _, _, _, exec_step_query_error hfetch, exec_step_query_error hquery,
            by rw [hspace], .queryFailed space e⟩
      | ok page =>
          by_cases hkeys : keys page = []
          · obtain ⟨w', hw', hstore, _⟩ := exec_step_empty hfetch hkeys
            obtain ⟨v', hv', hstore', _⟩ := exec_step_empty hquery hkeys
            refine ⟨_, _, w', v', hw', hv', ?_, .empty space hkeys⟩
            rw [hstore, hstore', hspace]
          · cases hdelete : S.delete (keys page) s with
            | mk answer s' =>
                have htake := Store.delete_traced hdelete
                cases answer with
                | error e =>
                    refine ⟨_, _, _, _, exec_step_delete_error hfetch hkeys (htake _),
                      exec_step_delete_error hquery hkeys hdelete, ?_,
                      .deleteFailed space hkeys e⟩
                    rw [hspace, List.append_assoc]
                    rfl
                | ok _ =>
                    obtain ⟨w', hw', hstore, _⟩ := exec_step_deleted hfetch hkeys (htake _)
                    obtain ⟨v', hv', hstore', _⟩ := exec_step_deleted hquery hkeys hdelete
                    refine ⟨_, _, w', v', hw', hv', ?_, .deleted space hkeys⟩
                    rw [hstore, hstore', hspace, List.append_assoc]
                    rfl

/-! ## From page to page -/

/-- A drop that has made these round trips is to go on with a query from `start`. -/
structure Midway (kind : String) (pageSize : Nat) (before : List Trip) (start : Option Cursor)
    (done : DropSummary) : Prop where
  orderly : Orderly kind pageSize before
  due : ∀ q answer, AsksKeys kind pageSize start q → Due kind pageSize before (.query q answer)
  done : done = summary kind before

theorem midway_start (kind : String) (pageSize : Nat) :
    Midway kind pageSize [] none ⟨kind, 0, 0⟩ :=
  ⟨orderly_nil, fun _ answer hq => .first hq answer, rfl⟩

theorem Midway.asked {start : Option Cursor} {done : DropSummary}
    (h : Midway kind pageSize before start done) (space : Option String)
    (answer : Except StoreError Page) :
    Orderly kind pageSize (before ++ [.query (pageQuery space kind pageSize start) answer]) :=
  h.orderly.concat (h.due _ answer (asksKeys_pageQuery space kind pageSize start))

theorem Orderly.deleted {q : Query} (h : Orderly kind pageSize (before ++ [.query q (.ok page)]))
    (hkeys : keys page ≠ []) (answer : Except StoreError Unit) :
    Orderly kind pageSize (before ++ [.query q (.ok page)] ++ [.delete (keys page) answer]) :=
  h.concat (.delete (keys_eq_map page) hkeys answer)

section Turns

variable {start : Option Cursor} {done : DropSummary}

theorem summary_query (before : List Trip) (q : Query) (answer : Except StoreError Page) :
    summary kind (before ++ [.query q answer]) = summary kind before := by
  simp [summary, Trip.isDeletion, Trip.taken]

theorem summary_delete_error (before : List Trip) (ks : List Key) (e : StoreError) :
    summary kind (before ++ [.delete ks (.error e)]) = summary kind before := by
  simp [summary, Trip.isDeletion, Trip.taken]

theorem summary_deleted (before : List Trip) (ks : List Key) :
    summary kind (before ++ [.delete ks (.ok ())]) =
      ⟨kind, (summary kind before).pages + 1, (summary kind before).deleted + ks.length⟩ := by
  simp [summary, Trip.isDeletion, Trip.taken]

/-- A turn that fails is the last. -/
theorem Midway.fail (h : Midway kind pageSize before start done) {e : DropError}
    (hturn : Turn pageSize start done trips (.error e)) :
    Orderly kind pageSize (before ++ trips) ∧
      Ends kind pageSize patience (before ++ trips) (.error e) := by
  obtain rfl := h.done
  cases hturn with
  | queryFailed space e =>
      refine ⟨h.asked space _, ?_⟩
      have hends : Ends kind pageSize patience _ _ :=
        .queryFailed before (pageQuery space kind pageSize start) e
      rwa [summary_query] at hends
  | @deleteFailed space page hkeys e =>
      rw [List.append_cons]
      refine ⟨(h.asked space _).deleted hkeys _, ?_⟩
      have hends : Ends kind pageSize patience _ _ := .deleteFailed
        (before ++ [.query (pageQuery space kind pageSize start) (.ok page)]) (keys page) e
      rwa [summary_delete_error, summary_query] at hends

/-- A turn after which nothing is due is the last. -/
theorem Midway.end (h : Midway kind pageSize before start done) {done' : DropSummary}
    (hturn : Turn pageSize start done trips (.ok (done', none))) :
    Orderly kind pageSize (before ++ trips) ∧
      Ends kind pageSize patience (before ++ trips) (.ok done') := by
  obtain rfl := h.done
  generalize hr : (Except.ok (done', none) : Except DropError (DropSummary × Option Cursor)) = r
    at hturn
  cases hturn with
  | queryFailed => cases hr
  | deleteFailed => cases hr
  | @empty space page hkeys =>
      cases hr
      refine ⟨h.asked space _, ?_⟩
      rw [← summary_query before (pageQuery space kind pageSize start) (.ok page)]
      exact .complete fun _ => not_due_of_no_keys hkeys
  | @deleted space page hkeys =>
      obtain ⟨rfl, hnext⟩ := Prod.mk.inj (Except.ok.inj hr)
      have hdone : ∀ t, ¬ Due kind pageSize
          (before ++ [.query (pageQuery space kind pageSize start) (.ok page),
            .delete (keys page) (.ok ())]) t :=
        fun _ => not_due_of_no_next hnext.symm
      have hends : Ends kind pageSize patience _ _ := .complete hdone
      rw [List.append_cons] at hends ⊢
      rw [summary_deleted, summary_query] at hends
      exact ⟨(h.asked space _).deleted hkeys _, hends⟩

/-- After any other turn the drop goes on, with one page more. -/
theorem Midway.next (h : Midway kind pageSize before start done) {done' : DropSummary} {c : Cursor}
    (hturn : Turn pageSize start done trips (.ok (done', some c))) :
    Midway kind pageSize (before ++ trips) (some c) done' ∧ done'.pages = done.pages + 1 := by
  obtain rfl := h.done
  generalize hr : (Except.ok (done', some c) : Except DropError (DropSummary × Option Cursor)) = r
    at hturn
  cases hturn with
  | queryFailed => cases hr
  | deleteFailed => cases hr
  | empty => cases hr
  | @deleted space page hkeys =>
      obtain ⟨rfl, hnext⟩ := Prod.mk.inj (Except.ok.inj hr)
      obtain ⟨hmore, hcursor⟩ := next?_eq_some.1 hnext.symm
      refine ⟨⟨?_, fun q answer hq => .next hmore hcursor hq answer, ?_⟩, rfl⟩
      · rw [List.append_cons]
        exact (h.asked space _).deleted hkeys _
      · rw [List.append_cons, summary_deleted, summary_query]
        rfl

end Turns

/-- The round trips from here to the end are orderly, and end the drop. -/
theorem exec_pagesFrom_traced (S : Store σ) {n : Nat} {start : Option Cursor} {done : DropSummary}
    (h : Midway kind pageSize before start done) (hn : done.pages + n = patience)
    {w : Session (σ × List Trip)} {v : Session σ} (hv : w.store.1 = v.store) :
    ∃ trips r w' v', (pagesFrom S.traced pageSize n start done).exec w = (r, w') ∧
      (pagesFrom S pageSize n start done).exec v = (r, v') ∧
      w'.store = (v'.store, w.store.2 ++ trips) ∧
      Orderly kind pageSize (before ++ trips) ∧
      Ends kind pageSize patience (before ++ trips) r := by
  induction n generalizing before start done w v with
  | zero =>
      refine ⟨[], _, w, v, rfl, rfl, ?_, ?_, ?_⟩
      · rw [List.append_nil, ← hv]
      · rw [List.append_nil]
        exact h.orderly
      · rw [List.append_nil, h.done]
        rw [h.done] at hn
        have hdue := h.due _ (.error Store.endless) (asksKeys_pageQuery none kind pageSize start)
        exact .endless ⟨_, hdue⟩ hn
  | succ n ih =>
      obtain ⟨trips, r, w', v', hw', hv', hstore, hturn⟩ :=
        exec_step_traced S pageSize start done hv
      rcases r with e | ⟨done', _ | c⟩
      · exact ⟨trips, _, w', v', exec_pagesFrom_error hw', exec_pagesFrom_error hv', hstore,
          h.fail hturn⟩
      · exact ⟨trips, _, w', v', exec_pagesFrom_last hw', exec_pagesFrom_last hv', hstore,
          h.end hturn⟩
      · obtain ⟨hnext, hpages⟩ := h.next hturn
        obtain ⟨rest, r, w'', v'', hw'', hv'', hstore', hends⟩ :=
          ih hnext (by omega) (congrArg Prod.fst hstore)
        refine ⟨trips ++ rest, r, w'', v'', ?_, ?_, ?_, ?_⟩
        · rw [exec_pagesFrom_more hw', hw'']
        · rw [exec_pagesFrom_more hv', hv'']
        · rw [hstore', hstore, List.append_assoc]
        · rwa [← List.append_assoc]

end Drop

/-- **A drop keeps to its protocol with any store.** Whatever the store answers, each round trip of
the drop is due after those before it, and the drop ends when none is due or one has failed. What it
reports is the number of deletions that were carried out and of the keys in them. The record that
shows this changes nothing about the drop. -/
theorem dropAll_keeps_protocol (S : Store σ) (pageSize : Nat) (kind : String) (w : Session σ) :
    ∃ trips r w' v', (dropAll S.traced pageSize kind).exec w.traced = (r, w') ∧
      (dropAll S pageSize kind).exec w = (r, v') ∧ w'.store = (v'.store, trips) ∧
      Drop.Orderly kind (max pageSize 1) trips ∧
      Drop.Ends kind (max pageSize 1) (S.patience w.store) trips r := by
  obtain ⟨trips, r, w', v', hw', hv', hstore, hends⟩ :=
    Drop.exec_pagesFrom_traced (n := S.patience w.store) S (Drop.midway_start kind (max pageSize 1))
      (Nat.zero_add _) (w := w.traced.opened) (v := w.opened) rfl
  cases r with
  | error e =>
      obtain ⟨w'', hw'', hstore', _⟩ := exec_dropAll_error (w := w.traced) hw'
      obtain ⟨v'', hv'', hstore'', _⟩ := exec_dropAll_error hv'
      refine ⟨trips, _, w'', v'', hw'', hv'', ?_, hends⟩
      rw [hstore', hstore'', hstore]
      rfl
  | ok done =>
      obtain ⟨w'', hw'', hstore', _⟩ := exec_dropAll_ok (w := w.traced) hw'
      obtain ⟨v'', hv'', hstore'', _⟩ := exec_dropAll_ok hv'
      refine ⟨trips, _, w'', v'', hw'', hv'', ?_, hends⟩
      rw [hstore', hstore'', hstore]
      rfl

end Quarry
