import Quarry.Proofs.Engine.Drive

/-!
# The round trips of a drain

A store may answer with whatever pages it likes: longer ones than were asked for, empty ones, and
always with a cursor that leads on. A drain with a limit comes to its end all the same. Each page
that it follows a cursor from holds a slot, and what is left of the limit is asked for next, so that
there are no more pages than the limit allows slots.
-/

namespace Quarry

open Quarry.Action

variable {σ : Type}

/-- A query that was asked, and how it was answered. -/
structure Exchange where
  query : Query
  answer : Except StoreError Page

/-- The slots that came with the answer. -/
def Exchange.slots (x : Exchange) : List (Option Entity) :=
  match x.answer with
  | .ok page => page.slots
  | .error _ => []

/-- The queries that a store was asked, and the answers it gave. -/
structure Minutes where
  asked : List Query
  answers : List (Except StoreError Page)

/-- The minutes of these exchanges. -/
def Minutes.of (xs : List Exchange) : Minutes := ⟨xs.map Exchange.query, xs.map Exchange.answer⟩

/-- The minutes of these exchanges, and of a query that has no answer yet. -/
def Minutes.awaiting (xs : List Exchange) (q : Query) : Minutes :=
  ⟨xs.map Exchange.query ++ [q], xs.map Exchange.answer⟩

/-- The exchanges that these are the minutes of. -/
def Minutes.exchanges (m : Minutes) : List Exchange := List.zipWith Exchange.mk m.asked m.answers

theorem Minutes.exchanges_of (xs : List Exchange) : (Minutes.of xs).exchanges = xs := by
  simp [exchanges, Minutes.of, List.zipWith_map_left, List.zipWith_map_right]

/-- The store with minutes of its queries. -/
def Store.minuted (S : Store σ) : Store (σ × Minutes) where
  space s := S.space s.1
  ask q s := ((S.ask q s.1).1, (S.ask q s.1).2, { s.2 with asked := s.2.asked ++ [q] })
  redeem t s :=
    ((S.redeem t s.1).1, (S.redeem t s.1).2,
      { s.2 with answers := s.2.answers ++ [(S.redeem t s.1).1] })
  save es s := ((S.save es s.1).1, (S.save es s.1).2, s.2)
  update es s := ((S.update es s.1).1, (S.update es s.1).2, s.2)
  delete ks s := ((S.delete ks s.1).1, (S.delete ks s.1).2, s.2)
  patience s := S.patience s.1

/-- The session with empty minutes beside the store. -/
def Session.minuted (w : Session σ) : Session (σ × Minutes) :=
  { w with store := (w.store, ⟨[], []⟩) }

/-- What others do to the store leaves the minutes alone. -/
def besideMinutes (others : Nat → σ → σ) (i : Nat) (s : σ × Minutes) : σ × Minutes :=
  (others i s.1, s.2)

namespace Drain

/-! ## The protocol -/

/-- All slots that came in, in their order. -/
def received (xs : List Exchange) : List (Option Entity) := xs.flatMap Exchange.slots

/-- A page says that there is more, holds a slot, and comes with this cursor. -/
structure LeadsOn (page : Page) (c : Cursor) : Prop where
  more : page.more = .notFinished
  slots : page.slots ≠ []
  cursor : page.cursor = some c

/-- After these exchanges of a drain, this query is asked. The first one is the query of the drain.
Every other one is the same without the offset, from the end of the page before, and for what is
left of the limit, which is not nothing. -/
inductive Next (q : Query) (limit : Nat) : List Exchange → Query → Prop
  | first : Next q limit [] q
  | more {before : List Exchange} {q' : Query} {page : Page} {c : Cursor} {left : Nat}
      (hpage : LeadsOn page c)
      (hleft : left = limit - (received (before ++ [⟨q', .ok page⟩])).length)
      (hpos : 1 ≤ left) :
      Next q limit (before ++ [⟨q', .ok page⟩])
        { q with offset := none, limit := some left, start := some c }

/-- Each query was the one to be asked after the exchanges before it. -/
inductive Regular (q : Query) (limit : Nat) : List Exchange → Prop
  | nil : Regular q limit []
  | concat {before : List Exchange} {x : Exchange} (h : Regular q limit before)
      (hx : Next q limit before x.query) : Regular q limit (before ++ [x])

/-- How a drain ends after its exchanges: with the slots of all pages, once the last page does not
lead on or nothing is left of the limit, or with the failure that the last exchange brought. -/
inductive Closes (limit : Nat) : List Exchange → Except StoreError (Option Drain) → Prop
  | complete {before : List Exchange} {q : Query} {page : Page} {d : Drain}
      (hpages : ∀ x ∈ before, ∃ page, x.answer = .ok page)
      (hlast : ∀ c, LeadsOn page c → limit ≤ d.slots.length)
      (hslots : d.slots = received (before ++ [⟨q, .ok page⟩]))
      (hbatches : d.batches = (before ++ [(⟨q, .ok page⟩ : Exchange)]).length) :
      Closes limit (before ++ [⟨q, .ok page⟩]) (.ok (some d))
  | failed {before : List Exchange} {q : Query} {e : StoreError}
      (hpages : ∀ x ∈ before, ∃ page, x.answer = .ok page) :
      Closes limit (before ++ [⟨q, .error e⟩]) (.error e)

variable {q : Query} {limit : Nat} {before xs : List Exchange} {x : Exchange}

theorem received_concat (xs : List Exchange) (x : Exchange) :
    received (xs ++ [x]) = received xs ++ x.slots := by
  simp [received]

/-- Pages that keep to the limits of their queries keep together to that of the drain. -/
theorem Regular.length_received_le (h : Regular q limit xs) (hlimit : q.limit = some limit)
    (hpages : ∀ x ∈ xs, ∀ k, x.query.limit = some k → x.slots.length ≤ k) :
    (received xs).length ≤ limit := by
  -- Only the last page counts: before it, something was left of the limit.
  cases h with
  | nil => exact Nat.zero_le limit
  | @concat before x h hx =>
      have hfits := hpages x (List.mem_append_right _ List.mem_cons_self)
      rw [received_concat, List.length_append]
      generalize hquery : x.query = q' at hx
      cases hx with
      | first =>
          have hslots := hfits limit (hquery ▸ hlimit)
          rwa [received, List.flatMap_nil, List.length_nil, Nat.zero_add]
      | more hpage hleft hpos =>
          have hslots := hfits _ (congrArg Query.limit hquery)
          omega

theorem Closes.slots_eq {d : Drain} (h : Closes limit xs (.ok (some d))) :
    d.slots = received xs := by
  cases h with
  | complete hpages hlast hslots hbatches => exact hslots

/-! ## One exchange -/

/-- A drain that has made these exchanges has asked the query `q'`, and awaits the answer. -/
structure Midway (q : Query) (limit : Nat) (before : List Exchange) (d : Drain) (q' : Query) :
    Prop where
  query : d.query = q
  remaining : d.remaining = some (limit - (received before).length)
  slots : d.slots = received before
  batches : d.batches = before.length
  pages : ∀ x ∈ before, ∃ page, x.answer = .ok page
  regular : Regular q limit before
  next : Next q limit before q'

theorem midway_start (hlimit : q.limit = some limit) : Midway q limit [] (start q) q :=
  ⟨rfl, hlimit, rfl, rfl, fun _ hx => absurd hx List.not_mem_nil, .nil, .first⟩

namespace Midway

variable {d : Drain} {q' : Query} {page : Page}

/-- The limit less what a page has brought. -/
theorem remaining_add (h : Midway q limit before d q') (page : Page) :
    (d.add page).remaining =
      some (limit - (received (before ++ [⟨q', .ok page⟩])).length) := by
  rw [received_concat, List.length_append, ← Nat.sub_sub]
  exact congrArg (Option.map (· - page.slots.length)) h.remaining

theorem slots_add (h : Midway q limit before d q') (page : Page) :
    (d.add page).slots = received (before ++ [⟨q', .ok page⟩]) := by
  rw [received_concat, ← h.slots]
  rfl

theorem batches_add (h : Midway q limit before d q') (page : Page) :
    (d.add page).batches = (before ++ [(⟨q', .ok page⟩ : Exchange)]).length := by
  rw [List.length_append, ← h.batches]
  rfl

theorem answered (h : Midway q limit before d q') (answer : Except StoreError Page) :
    Regular q limit (before ++ [⟨q', answer⟩]) :=
  h.regular.concat h.next

/-- A page after which nothing is asked ends the drain. -/
theorem closes (h : Midway q limit before d q') (hnext : (d.add page).next? page = none) :
    Closes limit (before ++ [⟨q', .ok page⟩]) (.ok (some (d.add page))) := by
  refine .complete h.pages (fun c hpage => ?_) (h.slots_add page) (h.batches_add page)
  by_contra hlimit
  have hsome : (d.add page).next? page = some c := by
    refine next?_eq_some_iff.2 ⟨hpage.more, hpage.slots, ?_, hpage.cursor⟩
    rw [h.remaining_add page, ne_eq, Option.some.injEq, ← h.slots_add page]
    omega
  rw [hnext] at hsome
  cases hsome

/-- Any other page is followed by the query for what is left of the limit, which is less than
before, and not nothing. -/
theorem goes_on (h : Midway q limit before d q') {c : Cursor}
    (hnext : (d.add page).next? page = some c) :
    Midway q limit (before ++ [⟨q', .ok page⟩]) (d.add page) ((d.add page).queryFrom c) ∧
      1 ≤ limit - (received (before ++ [⟨q', .ok page⟩])).length ∧
      limit - (received (before ++ [⟨q', .ok page⟩])).length <
        limit - (received before).length := by
  obtain ⟨hmore, hslots, hwanted, hcursor⟩ := next?_eq_some_iff.1 hnext
  have hremaining := h.remaining_add page
  have hpos : 1 ≤ limit - (received (before ++ [⟨q', .ok page⟩])).length := by
    rw [hremaining, ne_eq, Option.some.injEq] at hwanted
    exact Nat.one_le_iff_ne_zero.2 hwanted
  refine ⟨⟨h.query, hremaining, h.slots_add page, h.batches_add page, ?_,
    h.answered _, ?_⟩, hpos, ?_⟩
  · intro x hx
    rcases List.mem_append.1 hx with hx | hx
    · exact h.pages x hx
    · exact ⟨page, congrArg Exchange.answer (List.mem_singleton.1 hx)⟩
  · have hquery : (d.add page).query = q := h.query
    rw [queryFrom, hquery, hremaining]
    exact .more ⟨hmore, hslots, hcursor⟩ rfl hpos
  · have hpage : 0 < page.slots.length := List.length_pos_iff.2 hslots
    have hlength : (received (before ++ [⟨q', .ok page⟩])).length =
        (received before).length + page.slots.length := by
      rw [received_concat, List.length_append]
      rfl
    omega

end Midway

end Drain

/-! ## Whole runs -/

section Minuted

variable {S : Store σ} {s s' : σ} {xs : List Exchange} {q : Query} {t : Ticket}

theorem ask_minuted (h : S.ask q s = (t, s')) :
    S.minuted.ask q (s, .of xs) = (t, s', .awaiting xs q) := by
  show ((S.ask q s).1, (S.ask q s).2, Minutes.awaiting xs q) = _
  rw [h]

theorem redeem_minuted {answer : Except StoreError Page} (h : S.redeem t s = (answer, s')) :
    S.minuted.redeem t (s, .awaiting xs q) = (answer, s', .of (xs ++ [⟨q, answer⟩])) := by
  show ((S.redeem t s).1, (S.redeem t s).2,
    Minutes.mk (xs.map Exchange.query ++ [q]) (xs.map Exchange.answer ++ [(S.redeem t s).1])) = _
  rw [h, Minutes.of, List.map_append, List.map_append]
  rfl

end Minuted

namespace Pull

open Drain

/-- Some more exchanges bring the task to its end, as many as are left of the limit, or one. All
exchanges together keep to the protocol. -/
def Concludes (S : Store σ) (others : Nat → σ → σ) (q : Query) (limit : Nat)
    (before : List Exchange) (p : Pull) (i : Nat) (w : Session (σ × Minutes)) (v : Session σ) :
    Prop :=
  ∃ xs r w' v', (∀ n, xs.length ≤ n →
      (p.drive S.minuted (besideMinutes others) i n).exec w = (r, w') ∧
      (p.drive S others i n).exec v = (r, v')) ∧
    w'.store = (v'.store, .of (before ++ xs)) ∧
    xs.length ≤ max 1 (limit - (received before).length) ∧
    Regular q limit (before ++ xs) ∧ Closes limit (before ++ xs) r

section Concluding

variable {S : Store σ} {others : Nat → σ → σ} {q : Query} {limit i : Nat}
  {before : List Exchange} {x : Exchange} {p p' : Pull}
  {w w' : Session (σ × Minutes)} {v v' : Session σ}

/-- A task concludes with a run that ends it. -/
theorem Concludes.last {r : Except StoreError (Option Drain)} {s : σ}
    (hw : ∀ n, (p.drive S.minuted (besideMinutes others) i (n + 1)).exec w =
      (r, { w with store := (s, .of (before ++ [x])) }))
    (hv : ∀ n, (p.drive S others i (n + 1)).exec v = (r, { v with store := s }))
    (hregular : Regular q limit (before ++ [x])) (hcloses : Closes limit (before ++ [x]) r) :
    Concludes S others q limit before p i w v := by
  refine ⟨[x], r, { w with store := (s, .of (before ++ [x])) }, { v with store := s }, ?_, rfl,
    Nat.le_max_left _ _, hregular, hcloses⟩
  rintro (_ | n) hn
  · exact absurd hn (Nat.not_succ_le_zero _)
  · exact ⟨hw n, hv n⟩

/-- A task concludes with a run that leaves less of the limit, and with what is left. -/
theorem Concludes.more
    (hw : ∀ n, (p.drive S.minuted (besideMinutes others) i (n + 1)).exec w =
      (p'.drive S.minuted (besideMinutes others) (i + 1) n).exec w')
    (hv : ∀ n, (p.drive S others i (n + 1)).exec v = (p'.drive S others (i + 1) n).exec v')
    (hpos : 1 ≤ limit - (received (before ++ [x])).length)
    (hless : limit - (received (before ++ [x])).length < limit - (received before).length)
    (h : Concludes S others q limit (before ++ [x]) p' (i + 1) w' v') :
    Concludes S others q limit before p i w v := by
  obtain ⟨xs, r, w'', v'', hexec, hstore, hlength, hregular, hcloses⟩ := h
  rw [List.append_assoc] at hstore hregular hcloses
  refine ⟨x :: xs, r, w'', v'', ?_, hstore, ?_, hregular, hcloses⟩
  · rintro (_ | n) hn
    · exact absurd hn (Nat.not_succ_le_zero _)
    · rw [hw, hv]
      exact hexec n (Nat.le_of_succ_le_succ hn)
  · rw [List.length_cons]
    omega

/-- A drain that awaits an answer comes to its end. -/
theorem concludes_of_midway (S : Store σ) (others : Nat → σ → σ) {d : Drain} {q' : Query}
    (h : Midway q limit before d q') (t : Ticket) (i : Nat)
    (hw : w.store = (v.store, .awaiting before q')) :
    Concludes S others q limit before (asked d t) i w v := by
  -- The induction is on what is left of the limit. Every page that is followed takes some of it.
  generalize hleft : limit - (received before).length = left
  induction left using Nat.strongRecOn generalizing before d q' t i w v with
  | _ left ih =>
      obtain ⟨answer, s, hredeem⟩ : ∃ answer s, S.redeem t (others i v.store) = (answer, s) :=
        ⟨_, _, rfl⟩
      have hminutes : S.minuted.redeem t (besideMinutes others i w.store) =
          (answer, s, .of (before ++ [⟨q', answer⟩])) := by
        rw [hw]
        exact redeem_minuted hredeem
      cases answer with
      | error e =>
          exact .last (fun _ => exec_drive_failed hminutes) (fun _ => exec_drive_failed hredeem)
            (h.answered _) (.failed h.pages)
      | ok page =>
          cases hnext : (d.add page).next? page with
          | none =>
              exact .last (fun _ => exec_drive_last hminutes hnext)
                (fun _ => exec_drive_last hredeem hnext) (h.answered _) (h.closes hnext)
          | some c =>
              obtain ⟨hmidway, hpos, hless⟩ := h.goes_on hnext
              obtain ⟨t', s', hask⟩ : ∃ t' s', S.ask ((d.add page).queryFrom c) s = (t', s') :=
                ⟨_, _, rfl⟩
              exact .more (fun _ => exec_drive_more hminutes hnext (ask_minuted hask))
                (fun _ => exec_drive_more hredeem hnext hask) hpos hless
                (ih _ (hleft ▸ hless) hmidway t' (i + 1) rfl rfl)

end Concluding

/-- **A drain with a limit is bounded with any store.** Whatever pages the store answers with, and
whatever others do to it in between, the drain ends within as many round trips as its limit, or one
if the limit is zero. It asks its query first, and after that the same query without an offset, from
the end of the page before, for what is left of the limit, which is never nothing. It ends with the
slots of all pages in their order, or with the failure of the last round trip. If no page is longer
than its query allows, the slots are within the limit. The minutes that show this change nothing
about the drain. -/
theorem drive_within_limit (S : Store σ) (others : Nat → σ → σ) (q : Query) (limit : Nat)
    (hlimit : q.limit = some limit) (w : Session σ) :
    ∃ xs r w' v', (∀ n, xs.length < n →
        ((fresh q).drive S.minuted (besideMinutes others) 0 n).exec w.minuted = (r, w') ∧
        ((fresh q).drive S others 0 n).exec w = (r, v')) ∧
      w'.store = (v'.store, .of xs) ∧
      xs.length ≤ max 1 limit ∧
      Regular q limit xs ∧
      Closes limit xs r ∧
      ((∀ x ∈ xs, ∀ k, x.query.limit = some k → x.slots.length ≤ k) →
        (received xs).length ≤ limit) := by
  obtain ⟨t, s, hask⟩ : ∃ t s, S.ask q (others 0 w.store) = (t, s) := ⟨_, _, rfl⟩
  obtain ⟨xs, r, w', v', hexec, hstore, hlength, hregular, hcloses⟩ :=
    concludes_of_midway S others (midway_start hlimit) t 1
      (w := { w.minuted with store := (s, .awaiting [] q) }) (v := { w with store := s }) rfl
  refine ⟨xs, r, w', v', ?_, hstore, hlength, hregular, hcloses,
    fun hpages => hregular.length_received_le hlimit hpages⟩
  rintro (_ | n) hn
  · exact absurd hn (Nat.not_lt_zero _)
  · -- The first run asks the query, and the others read the pages.
    have hminutes : S.minuted.ask q (others 0 w.store, .of []) = (t, s, .awaiting [] q) :=
      ask_minuted hask
    rw [exec_drive_asks hminutes, exec_drive_asks hask]
    exact hexec n (Nat.le_of_lt_succ hn)

/-- A store that always has more. Its pages hold two empty slots, or as many as the query allows. -/
def twoByTwo : Store Unit where
  space _ := none
  ask q s := (.running q, s)
  redeem
    | .running q, s => (.ok ⟨.replicate (min 2 (q.limit.getD 2)) none, some "on", .notFinished⟩, s)
    | .answered answer, s => (answer, s)
  save _ s := (.ok [], s)
  update _ s := (.ok (), s)
  delete _ s := (.ok (), s)
  patience _ := 0

/-- The first three notes. -/
def firstThree : Query := { Query.ofKind none "Note" with limit := some 3 }

/-- Three slots are read in two round trips, and the second asks for one slot. -/
theorem drive_within_limit_firstThree :
    firstThree.limit = some 3 ∧ ∃ xs d w', (∀ n, xs.length < n →
        ((fresh firstThree).drive twoByTwo.minuted (besideMinutes fun _ s => s) 0 n).exec
          (Session.start ()).minuted = (.ok (some d), w')) ∧
      w'.store.2 = .of xs ∧
      xs.map Exchange.query =
        [firstThree, { firstThree with limit := some 1, start := some "on" }] ∧
      xs.length ≤ max 1 3 ∧ d.slots = received xs ∧ (received xs).length ≤ 3 ∧
      d.slots = [none, none, none] := by
  obtain ⟨xs, r, w', v', hexec, hstore, hlength, -, hcloses, hreceived⟩ :=
    drive_within_limit twoByTwo (fun _ s => s) firstThree 3 rfl (.start ())
  -- Four runs are enough for the bound, and they can be carried out.
  have hrun := (hexec 4 (Nat.lt_succ_of_le hlength)).1
  have hminutes : w'.store.2 = .of xs := congrArg Prod.snd hstore
  have hresult : r = .ok (some ⟨firstThree, some 0, [none, none, none], 2⟩) :=
    (congrArg Prod.fst hrun).symm
  have hexchanges : xs = [⟨firstThree, .ok ⟨[none, none], some "on", .notFinished⟩⟩,
      ⟨{ firstThree with limit := some 1, start := some "on" },
        .ok ⟨[none], some "on", .notFinished⟩⟩] := by
    rw [← Minutes.exchanges_of xs, ← hminutes]
    exact congrArg (fun out => out.2.store.2.exchanges) hrun.symm
  subst hresult
  refine ⟨rfl, xs, _, w', fun n hn => (hexec n hn).1, hminutes, ?_, hlength, hcloses.slots_eq,
    hreceived ?_, rfl⟩
  · rw [hexchanges]
    rfl
  · rw [hexchanges]
    decide

end Pull

end Quarry
