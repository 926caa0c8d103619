import Quarry.Proofs.Engine.Drop
import Quarry.Proofs.Engine.Interleaving
import Quarry.Proofs.Store.Shared

/-!
# Drops among other clients

Other clients write to the memory before each round trip of a drop. The keys that the drop deletes
rise from page to page all the same, and a key that it has passed is absent from then on, unless
another client stores something under it.
-/

namespace Quarry

open Shared

namespace Trip

/-- The keys that a call was to delete. -/
def deleted : Trip → List Key
  | delete ks _ => ks
  | _ => []

end Trip

/-- The keys of all calls that were to delete some. -/
def deletions (trips : List Trip) : List Key := trips.flatMap Trip.deleted

theorem deletions_append (trips rest : List Trip) :
    deletions (trips ++ rest) = deletions trips ++ deletions rest := List.flatMap_append

theorem deletions_page (q : Query) (page : Except StoreError Page) (ks : List Key)
    (answer : Except StoreError Unit) :
    deletions ([.query q page] ++ [.delete ks answer]) = ks := List.append_nil ks

namespace Drop

variable {kind : String} {pageSize : Nat} {after : Option Key} {page : Page}

/-! ## One page -/

/-- A page of keys behind `after`: they rise, and all are of the kind. They lead behind `last`, or
nowhere if there is no such key. A key of the kind is absent, or on the page, or still to come. -/
structure Fetched (space : Option String) (kind : String) (Absent : Key → Prop)
    (after last : Option Key) (ks : List Key) : Prop where
  ordered : ks.Pairwise fun a b => compare a b = .lt
  beyond : ∀ k ∈ ks, k.space = space ∧ k.kind = kind ∧ k.isBeyond after = true
  upTo : ∀ z, last = some z → z ∈ ks ∧ ∀ k ∈ ks, (compare k z).isLE = true
  complete : ∀ k, k.space = space → k.kind = kind → k.isBeyond after = true →
    Absent k ∨ k ∈ ks ∨ ∃ z, last = some z ∧ k.isBeyond (some z) = true

theorem Fetched.imp {space : Option String} {P Q : Key → Prop} {last : Option Key} {ks : List Key}
    (h : Fetched space kind P after last ks) (hPQ : ∀ k, P k → Q k) :
    Fetched space kind Q after last ks :=
  ⟨h.ordered, h.beyond, h.upTo, fun k hspace hkind hbeyond =>
    (h.complete k hspace hkind hbeyond).imp (hPQ k) id⟩

/-- A drop is answered with such a page, and with a cursor behind its last key if there are others. -/
theorem fetched_of_answer {m : Memory} (hsize : 0 < pageSize)
    (h : m.answer (pageQuery m.space kind pageSize (Memory.cursorBehind after)) = .ok page) :
    ∃ last, Fetched m.space kind (fun k => m.get? k = none) after last (keys page) ∧
      next? page = Memory.cursorBehind last := by
  obtain ⟨page', hanswer, hkeys, hnext⟩ := m.answer_pageQuery hsize kind after
  rw [hanswer] at h
  cases h
  have hsorted := m.pairwise_ofKindFrom kind after
  have hcap := m.cap_pos
  have hordered : (keys page).Pairwise fun a b => compare a b = .lt := by
    rw [hkeys, List.pairwise_map]
    exact hsorted.sublist (List.take_sublist _ _)
  have hbeyond : ∀ k ∈ keys page, k.space = m.space ∧ k.kind = kind ∧ k.isBeyond after = true := by
    intro k hk
    rw [hkeys] at hk
    obtain ⟨e, he, rfl⟩ := List.mem_map.1 hk
    obtain ⟨hmem, hbeyond⟩ := Memory.mem_ofKindFrom.1 (List.mem_of_mem_take he)
    obtain ⟨_, hspace, hkind⟩ := Memory.mem_ofKind.1 hmem
    exact ⟨hspace, hkind, hbeyond⟩
  by_cases hend : (m.ofKindFrom kind after).length ≤ min pageSize m.cap
  · rw [if_pos hend] at hnext
    refine ⟨none, ⟨hordered, hbeyond, ?_, ?_⟩, hnext⟩
    · intro z hz
      cases hz
    · intro k hspace hkind hk
      cases hget : m.get? k with
      | none => exact .inl rfl
      | some e =>
          have he := Memory.mem_ofKindFrom_of_get? hget hspace hkind hk
          rw [hkeys, List.take_of_length_le hend, ← Memory.key_of_get? hget]
          exact .inr (.inl (List.mem_map_of_mem he))
  · have hwindow : 0 < min pageSize m.cap := by omega
    obtain ⟨z, hz, hmem, hlast⟩ :=
      Memory.exists_last_take hwindow (m.ofKindFrom kind after) (by omega)
    rw [if_neg hend, hlast] at hnext
    refine ⟨some z.key, ⟨hordered, hbeyond, ?_, ?_⟩, hnext⟩
    · intro x hx
      cases hx
      rw [hkeys]
      constructor
      · exact List.mem_map_of_mem hmem
      · intro k hk
        obtain ⟨e, he, rfl⟩ := List.mem_map.1 hk
        exact isLE_of_mem_take hsorted hz (by omega) he
    · intro k hspace hkind hk
      cases hfound : m.get? k with
      | none => exact .inl rfl
      | some e =>
          -- The entity is among the first ones, which the page holds, or behind the last of them.
          have he := Memory.mem_ofKindFrom_of_get? hfound hspace hkind hk
          rw [← List.take_append_drop (min pageSize m.cap) (m.ofKindFrom kind after),
            List.mem_append] at he
          rw [hkeys, ← Memory.key_of_get? hfound]
          rcases he with he | he
          · exact .inr (.inl (List.mem_map_of_mem he))
          · have hlt := before_of_mem_drop hsorted hz (by omega) he
            exact .inr (.inr ⟨z.key, rfl, Key.isBeyond_some.2 hlt⟩)

/-! ## All pages -/

/-- The round trips of a drop from a key on: they delete keys of the kind, which rise and come after
the key, and meanwhile nothing cleared is lost. -/
structure Erasing (kind : String) (after : Option Key) (s s' : Shared) (trips : List Trip) :
    Prop where
  recorded : s'.trips = s.trips ++ trips
  later : s.Later s'
  ordered : (deletions trips).Pairwise fun a b => compare a b = .lt
  beyond : ∀ k ∈ deletions trips,
    k.space = s.memory.space ∧ k.kind = kind ∧ k.isBeyond after = true

/-- Every key of the kind that comes after `after` has been cleared. -/
def Complete (kind : String) (after : Option Key) (s s' : Shared) : Prop :=
  ∀ k, k.space = s.memory.space → k.kind = kind → k.isBeyond after = true → s'.Cleared k

namespace Erasing

variable {s s₁ s₂ s₃ : Shared} {trips rest : List Trip}

/-- Round trips that delete nothing. -/
theorem idle (hrecorded : s₁.trips = s.trips ++ trips) (hlater : s.Later s₁)
    (hnone : deletions trips = []) : Erasing kind after s s₁ trips := by
  refine ⟨hrecorded, hlater, ?_, ?_⟩
  · rw [hnone]
    exact .nil
  · intro k hk
    rw [hnone] at hk
    cases hk

/-- A page that is fetched, and that was to be deleted. -/
theorem of_fetched {Absent : Key → Prop} {last : Option Key}
    (hfetched : Fetched s.memory.space kind Absent after last (deletions trips))
    (hrecorded : s₁.trips = s.trips ++ trips) (hlater : s.Later s₁) :
    Erasing kind after s s₁ trips :=
  ⟨hrecorded, hlater, hfetched.ordered, hfetched.beyond⟩

/-- A page, and the round trips behind its last key. -/
theorem append {Absent : Key → Prop} {z : Key}
    (hfetched : Fetched s.memory.space kind Absent after (some z) (deletions trips))
    (h : Erasing kind after s s₁ trips) (hrest : Erasing kind (some z) s₁ s₂ rest) :
    Erasing kind after s s₂ (trips ++ rest) := by
  obtain ⟨hz, hupTo⟩ := hfetched.upTo z rfl
  have hsplit := deletions_append trips rest
  refine ⟨?_, h.later.trans hrest.later, ?_, ?_⟩
  · rw [hrest.recorded, h.recorded, List.append_assoc]
  · rw [hsplit, List.pairwise_append]
    refine ⟨h.ordered, hrest.ordered, ?_⟩
    intro a ha b hb
    have hlt := Key.isBeyond_some.1 (hrest.beyond b hb).2.2
    exact Std.TransCmp.lt_of_isLE_of_lt (hupTo a ha) hlt
  · intro k hk
    rw [hsplit, List.mem_append] at hk
    rcases hk with hk | hk
    · exact h.beyond k hk
    · obtain ⟨hspace, hkind, hbeyond⟩ := hrest.beyond k hk
      refine ⟨hspace.trans h.later.space, hkind, ?_⟩
      exact Key.isBeyond_of_lt (h.beyond z hz).2.2 (Key.isBeyond_some.1 hbeyond)

end Erasing

/-! ## Round trips of a drop -/

variable {c : Course} {patience : Nat} {s s' : Shared}

theorem later_of_query (q : Query) (s : Shared) :
    (s.visited (c.acts s.trips.length)).Later (s.trip c (.query q) (Memory.run q)).2 := by
  refine visited_later_trip ?_ ?_ s
  · intro m
    exact Memory.space_of_bare (m.bare_run q)
  · intro m k h
    exact (congrArg (·.get? k) (Memory.table_of_bare (m.bare_run q))).trans h

theorem query_trip {q : Query} {answer : Except StoreError Page}
    (h : s.trip c (.query q) (Memory.run q) = (answer, s')) :
    s'.trips = s.trips ++ [.query q answer] ∧ s.Later s' := by
  have hrecorded : (s.trip c (.query q) (Memory.run q)).2.trips = _ := trips_trip s
  have hlater := (s.later_visited _).trans (later_of_query (c := c) q s)
  rw [h] at hrecorded hlater
  exact ⟨hrecorded, hlater⟩

/-- The page of a drop is fetched from the memory as others have left it. What was absent then is
cleared. -/
theorem fetched_of_query (hsize : 0 < pageSize)
    (h : s.trip c (.query (pageQuery s.memory.space kind pageSize (Memory.cursorBehind after)))
      (Memory.run (pageQuery s.memory.space kind pageSize (Memory.cursorBehind after))) =
        (.ok page, s')) :
    ∃ last, Fetched s.memory.space kind s'.Cleared after last (keys page) ∧
      next? page = Memory.cursorBehind last := by
  have hspace := (s.later_visited (c.acts s.trips.length)).space
  have hlater := later_of_query (c := c)
    (pageQuery s.memory.space kind pageSize (Memory.cursorBehind after)) s
  have hanswer := (trip_ok (congrArg Prod.fst h)).1
  have hpage := Memory.answer_of_run hanswer
  rw [h] at hlater
  rw [← hspace] at hpage ⊢
  obtain ⟨last, hfetched, hnext⟩ := fetched_of_answer hsize hpage
  exact ⟨last, hfetched.imp fun k hk => hlater.cleared k (.inr hk), hnext⟩

theorem delete_trip {ks : List Key} {answer : Except StoreError Unit}
    (h : s.trip c (.delete ks) (Memory.delete ks) = (answer, s')) :
    s'.trips = s.trips ++ [.delete ks answer] ∧ s.Later s' ∧
      (answer = .ok () → ∀ k ∈ ks, s'.Cleared k) := by
  have hrecorded : (s.trip c (.delete ks) (Memory.delete ks)).2.trips = _ := trips_trip s
  have hlater : s.Later (s.trip c (.delete ks) (Memory.delete ks)).2 := by
    refine later_trip ?_ ?_ s
    · intro m
      rcases m.delete_cases ks with ⟨e, faults, hcase⟩ | hcase <;> rw [hcase]
    · intro m k hk
      rcases m.delete_cases ks with ⟨e, faults, hcase⟩ | hcase
      · rw [hcase]
        exact hk
      · rw [hcase]
        exact Table.get?_eraseAll_eq_none hk ks
  rw [h] at hrecorded hlater
  refine ⟨hrecorded, hlater, ?_⟩
  rintro rfl k hk
  obtain ⟨hanswer, hmemory⟩ := trip_ok (congrArg Prod.fst h)
  rw [h] at hmemory
  refine .inr ?_
  rcases (s.visited (c.acts s.trips.length)).memory.delete_cases ks with ⟨e, faults, hcase⟩ | hcase
  · rw [hcase] at hanswer
    cases hanswer
  · rw [hmemory, hcase]
    exact Table.get?_eraseAll_of_mem hk

/-- **What one page does.** Behind the key `after`, a step of a drop deletes keys of the kind that
rise. If it succeeds, these are cleared, and what is not cleared is still to come. -/
theorem erasing_of_step (hsize : 0 < pageSize) {done : DropSummary} {w w' : Session Shared}
    {r : Except DropError (DropSummary × Option Cursor)}
    (h : (step (Shared.store c patience) pageSize (Memory.cursorBehind after) done).exec w =
      (r, w')) :
    ∃ trips, Erasing done.kind after w.store w'.store trips ∧
      ∀ done' next, r = .ok (done', next) →
        done'.kind = done.kind ∧ done'.deleted = done.deleted + (deletions trips).length ∧
        ∃ last, next = Memory.cursorBehind last ∧
          Fetched w.store.memory.space done.kind w'.store.Cleared after last (deletions trips) ∧
          ∀ k ∈ deletions trips, w'.store.Cleared k := by
  cases hquery : w.store.trip c (.query (pageQuery w.store.memory.space done.kind pageSize
      (Memory.cursorBehind after))) (Memory.run (pageQuery w.store.memory.space done.kind pageSize
      (Memory.cursorBehind after))) with
  | mk answer s₁ =>
      obtain ⟨hrecorded₁, hlater₁⟩ := query_trip hquery
      cases answer with
      | error e =>
          rw [exec_step_query_error (S := Shared.store c patience) hquery] at h
          cases h
          refine ⟨_, Erasing.idle hrecorded₁ hlater₁ rfl, ?_⟩
          intro done' next hr
          cases hr
      | ok page =>
          obtain ⟨last, hfetched, hnext⟩ := fetched_of_query hsize hquery
          by_cases hkeys : keys page = []
          · -- A page without keys leads nowhere, and ends the drop.
            obtain ⟨w₁, hstep, rfl, _⟩ :=
              exec_step_empty (S := Shared.store c patience) hquery hkeys
            rw [hstep] at h
            cases h
            rw [hkeys] at hfetched
            refine ⟨_, Erasing.idle hrecorded₁ hlater₁ rfl, ?_⟩
            intro done' next hr
            cases hr
            refine ⟨rfl, rfl, last, ?_, hfetched, ?_⟩
            · cases last with
              | none => rfl
              | some z => cases (hfetched.upTo z rfl).1
            · intro k hk
              cases hk
          · cases hdelete : s₁.trip c (.delete (keys page)) (Memory.delete (keys page)) with
            | mk answer s₂ =>
                obtain ⟨hrecorded₂, hlater₂, hgone⟩ := delete_trip hdelete
                rw [hrecorded₁, List.append_assoc] at hrecorded₂
                have hdeletions := deletions_page (pageQuery w.store.memory.space done.kind pageSize
                  (Memory.cursorBehind after)) (.ok page) (keys page) answer
                rw [← hdeletions] at hfetched
                cases answer with
                | error e =>
                    rw [exec_step_delete_error (S := Shared.store c patience) hquery hkeys
                      hdelete] at h
                    cases h
                    refine ⟨_, Erasing.of_fetched hfetched hrecorded₂ (hlater₁.trans hlater₂), ?_⟩
                    intro done' next hr
                    cases hr
                | ok =>
                    obtain ⟨w₂, hstep, rfl, _⟩ :=
                      exec_step_deleted (S := Shared.store c patience) hquery hkeys hdelete
                    rw [hstep] at h
                    cases h
                    refine ⟨_, Erasing.of_fetched hfetched hrecorded₂ (hlater₁.trans hlater₂), ?_⟩
                    intro done' next hr
                    cases hr
                    refine ⟨rfl, ?_, last, hnext, hfetched.imp hlater₂.cleared, ?_⟩
                    · rw [hdeletions]
                    · rw [hdeletions]
                      exact hgone rfl

variable (after) in
/-- **What all pages do**, by induction on the patience that is left. -/
theorem erasing_of_pagesFrom (hsize : 0 < pageSize) {n : Nat} {done : DropSummary}
    {w w' : Session Shared} {r : Except DropError DropSummary}
    (h : (pagesFrom (Shared.store c patience) pageSize n (Memory.cursorBehind after) done).exec w =
      (r, w')) :
    ∃ trips, Erasing done.kind after w.store w'.store trips ∧
      ∀ done', r = .ok done' →
        done'.deleted = done.deleted + (deletions trips).length ∧
        Complete done.kind after w.store w'.store := by
  induction n generalizing after done w with
  | zero =>
      cases h
      refine ⟨[], Erasing.idle (List.append_nil _).symm (.refl _) rfl, ?_⟩
      intro done' hr
      cases hr
  | succ n ih =>
      cases hstep : (step (Shared.store c patience) pageSize (Memory.cursorBehind after) done).exec
          w with
      | mk outcome w₁ =>
          obtain ⟨trips, herasing, houtcome⟩ := erasing_of_step hsize hstep
          rcases outcome with e | ⟨done₁, next⟩
          · rw [exec_pagesFrom_error hstep] at h
            cases h
            refine ⟨trips, herasing, ?_⟩
            intro done' hr
            cases hr
          · obtain ⟨hkind, hdeleted, last, rfl, hfetched, hcleared⟩ := houtcome done₁ next rfl
            cases last with
            | none =>
                rw [exec_pagesFrom_last hstep] at h
                cases h
                refine ⟨trips, herasing, ?_⟩
                rintro done' hr
                cases hr
                refine ⟨hdeleted, ?_⟩
                intro k hspace hkind hbeyond
                rcases hfetched.complete k hspace hkind hbeyond with hk | hk | ⟨z, hz, _⟩
                · exact hk
                · exact hcleared k hk
                · cases hz
            | some z =>
                rw [exec_pagesFrom_more hstep] at h
                obtain ⟨rest, hrest, hdone⟩ := ih (some z) h
                rw [hkind] at hrest hdone
                refine ⟨trips ++ rest, herasing.append hfetched hrest, ?_⟩
                intro done' hr
                obtain ⟨hdeleted', hcomplete⟩ := hdone done' hr
                refine ⟨?_, ?_⟩
                · rw [hdeleted', hdeleted, deletions_append, List.length_append, Nat.add_assoc]
                · intro k hspace hkind hbeyond
                  -- What the page has cleared stays so, and the rest clears what was to come.
                  rcases hfetched.complete k hspace hkind hbeyond with hk | hk | ⟨z', hz, hk⟩
                  · exact hrest.later.cleared k hk
                  · exact hrest.later.cleared k (hcleared k hk)
                  · cases hz
                    exact hcomplete k (hspace.trans herasing.later.space.symm) hkind hk

end Drop

/-- The round trips of a whole drop are those of its pages. -/
theorem erasing_of_dropAll {c : Course} {patience pageSize : Nat} {kind : String}
    {w w' : Session Shared} {r : Except DropError DropSummary}
    (h : (dropAll (Shared.store c patience) pageSize kind).exec w = (r, w')) :
    ∃ trips, Drop.Erasing kind none w.store w'.store trips ∧
      ∀ done, r = .ok done →
        done.deleted = (deletions trips).length ∧ Drop.Complete kind none w.store w'.store := by
  cases hpages : (Drop.pagesFrom (Shared.store c patience) (max pageSize 1) patience none
      ⟨kind, 0, 0⟩).exec w.opened with
  | mk outcome w₁ =>
      obtain ⟨trips, herasing, hdone⟩ :=
        Drop.erasing_of_pagesFrom none (by omega) hpages
      have hsame : r = outcome ∧ w'.store = w₁.store := by
        cases outcome with
        | error e =>
            obtain ⟨w'', hexec, hstore, _⟩ := exec_dropAll_error hpages
            rw [hexec] at h
            cases h
            exact ⟨rfl, hstore⟩
        | ok done =>
            obtain ⟨w'', hexec, hstore, _⟩ := exec_dropAll_ok hpages
            rw [hexec] at h
            cases h
            exact ⟨rfl, hstore⟩
      obtain ⟨rfl, hstore⟩ := hsame
      rw [hstore]
      refine ⟨trips, herasing, ?_⟩
      intro done hr
      obtain ⟨hdeleted, hcomplete⟩ := hdone done hr
      exact ⟨hdeleted.trans (Nat.zero_add _), hcomplete⟩

theorem nodup_of_ordered {ks : List Key} (h : ks.Pairwise fun a b => compare a b = .lt) :
    ks.Nodup := by
  refine h.imp ?_
  rintro a b hlt rfl
  have hself : compare a a = .eq := Std.ReflCmp.compare_self
  rw [hself] at hlt
  cases hlt

/-- **A drop among writers.** Other clients insert, save, overwrite and remove entities before each
round trip of a drop, and the line may break at any of them. Whatever comes of the drop, its calls
delete no key of another kind or namespace and none twice. If it succeeds, it reports as many
deletions as there are keys in its calls. Then an entity of the kind that was there at the start is
gone, and stays away whatever the others do later, unless they have stored something under its key. -/
theorem dropAll_among_writers (c : Course) (patience pageSize : Nat) (kind : String) (m : Memory)
    (w w' : Session Shared) (r : Except DropError DropSummary) (hw : w.store = .ofMemory m)
    (h : (dropAll (Shared.store c patience) pageSize kind).exec w = (r, w')) :
    (∀ k ∈ deletions w'.store.trips, k.space = m.space ∧ k.kind = kind) ∧
      (deletions w'.store.trips).Nodup ∧
      ∀ done, r = .ok done →
        done.deleted = (deletions w'.store.trips).length ∧
        ∀ late, ∀ e ∈ m.table.entities, e.key.space = m.space → e.key.kind = kind →
          e.key ∉ (w'.store.visited late).arrivals →
          (w'.store.visited late).memory.get? e.key = none := by
  obtain ⟨trips, herasing, hdone⟩ := erasing_of_dropAll h
  have htrips : w'.store.trips = trips := by
    rw [herasing.recorded, hw]
    exact List.nil_append _
  have hspace : w.store.memory.space = m.space := by rw [hw]; rfl
  rw [htrips]
  refine ⟨?_, nodup_of_ordered herasing.ordered, ?_⟩
  · intro k hk
    obtain ⟨hkspace, hkind, _⟩ := herasing.beyond k hk
    exact ⟨hkspace.trans hspace, hkind⟩
  · intro done hr
    obtain ⟨hdeleted, hcomplete⟩ := hdone done hr
    refine ⟨hdeleted, ?_⟩
    intro late e _ hespace hkind harrived
    have hcleared := hcomplete e.key (hespace.trans hspace.symm) hkind rfl
    exact ((w'.store.later_visited late).cleared e.key hcleared).resolve_left harrived

open Pull (note threeNotes)

/-- The second note is removed before the first page is deleted, and a fifth one is inserted before
the second page is asked for. -/
def oneGoesOneComes : Course where
  acts n := if n = 1 then [.remove (note 2)] else if n = 2 then [.insert ⟨note 5, .empty⟩] else []
  broken _ := none

/-- The drop calls for four deletions, those of the first three notes and of the fifth, and the third
note is gone. -/
theorem dropAll_among_writers_oneGoesOneComes :
    ∃ (done : DropSummary) (w' : Session Shared),
      (dropAll (Shared.store oneGoesOneComes 9) 2 "Note").exec (.start (.ofMemory threeNotes)) =
        (.ok done, w') ∧
      done.deleted = 4 ∧ (deletions w'.store.trips).length = 4 ∧
      w'.store.memory.get? (note 3) = none := by
  generalize hrun : (dropAll (Shared.store oneGoesOneComes 9) 2 "Note").exec
    (.start (.ofMemory threeNotes)) = out
  obtain ⟨hends, harrivals⟩ : out.1.toOption.map DropSummary.deleted = some 4 ∧
      note 3 ∉ out.2.store.arrivals := by
    rw [← hrun]
    unfold Shared.store Shared.redeem
    rw [Memory.run_eq_runBy]
    decide +kernel
  rcases out with ⟨_ | done, w'⟩
  · cases hends
  · have hfour : done.deleted = 4 := Option.some.inj hends
    obtain ⟨_, _, hdone⟩ := dropAll_among_writers oneGoesOneComes 9 2 "Note" threeNotes
      (.start (.ofMemory threeNotes)) w' (.ok done) rfl hrun
    obtain ⟨hdeleted, hgone⟩ := hdone done rfl
    refine ⟨done, w', rfl, hfour, hdeleted.symm.trans hfour, ?_⟩
    exact hgone [] ⟨note 3, .empty⟩ (by decide +kernel) rfl (by decide +kernel) harrivals

end Quarry
