import Quarry.Proofs.Engine.Interleaving
import Quarry.Proofs.Store.Lookup

/-!
# Looking up and scanning

A query for one key is answered without a pass through all entities. It finds what a pass would find
that looks into the namespace of the key and knows no limit of nothing. So it finds what the query
itself asks for if the key belongs to the query's namespace and the limit is not nothing, and
otherwise it may find an entity that the query does not ask for.
-/

namespace Quarry

/-- The entities of a page, without its empty slots. -/
def Page.entities (p : Page) : List Entity := p.slots.filterMap id

namespace Query

variable {q : Query} {k : Key}

/-- The query in the namespace of a key, without a limit if its limit is nothing. -/
def around (q : Query) (k : Key) : Query :=
  { q with space := k.space, limit := q.limit.filter (· ≠ 0) }

theorem limit_around_ne (q : Query) (k : Key) : (q.around k).limit ≠ some 0 := by
  intro h
  obtain ⟨_, hzero⟩ := Option.filter_eq_some_iff.1 h
  simp at hzero

theorem around_eq_self (hspace : k.space = q.space) (hlimit : q.limit ≠ some 0) :
    q.around k = q := by
  have hfilter : q.limit.filter (· ≠ 0) = q.limit := by
    cases h : q.limit with
    | none => rfl
    | some n =>
        have hn : n ≠ 0 := fun hn => hlimit (h.trans (congrArg some hn))
        rw [Option.filter_some, if_pos (by simpa using hn)]
  rw [around, hspace, hfilter]

end Query

namespace Memory

variable {m : Memory} {q : Query} {k : Key}

/-- The page of a query as a pass through all entities makes it. -/
def scan (q : Query) (m : Memory) : Except StoreError Page :=
  (startIndex q (m.matching q)).map (pageAt m.cap q (m.matching q))

/-- A pass for one key does not reach the cap. -/
theorem entities_scan (hlookup : q.keyLookup? = some k) (hstart : q.start = none) :
    ∃ page, m.scan q = .ok page ∧
      page.entities = (cut q.limit ((m.matching q).drop (q.offset.getD 0))).map q.shape := by
  refine ⟨pageAt m.cap q (m.matching q) 0, ?_, ?_⟩
  · rw [scan, startIndex_none hstart]
    rfl
  · have hone : (m.matching q).length ≤ 1 := by
      rw [matching_of_keyLookup? hlookup]
      exact Option.length_toList_le
    have hcap : ((m.matching q).drop (0 + q.offset.getD 0)).length ≤ m.cap := by
      have := m.cap_pos
      rw [List.length_drop]
      omega
    rw [Page.entities, slots_pageAt, q.take_pageSize hcap, Nat.zero_add, List.filterMap_map]
    exact congrFun List.filterMap_eq_map' _

/-- An entity that a lookup finds is that of the key, and of the query's kind. -/
theorem key_of_mem_lookup {e : Entity} (he : e ∈ (m.lookup q k).entities) :
    e.key = k ∧ k.kind = q.kind := by
  unfold lookup at he
  split at he
  · cases he
  · rename_i hin
    have hkind : k.kind = q.kind := by
      by_contra hne
      exact hin (by simp [hne])
    split at he
    · cases he
    · rename_i x hget
      split at he
      · obtain rfl : e = q.shape x := by simpa [Page.entities, Page.last] using he
        exact ⟨(q.key_shape x).trans (key_of_get? hget), hkind⟩
      · cases he

/-- **A lookup is a pass around its key.** A query that looks up a key is answered with the entities
that a pass finds in the namespace of the key, any limit of nothing aside. There is no other than
the one of the key, and it is of the query's kind. In the namespace of the query and under a limit
that is not nothing, this is the pass for the query itself. -/
theorem run_eq_scan_around (m : Memory) (q : Query) (k : Key) (hlookup : q.keyLookup? = some k)
    (hstart : q.start = none) :
    (m.faults.queries = 0 → ∃ page, (m.run q).1 = .ok page) ∧
      ∀ page, (m.run q).1 = .ok page →
        ∃ scanned, m.scan (q.around k) = .ok scanned ∧ page.entities = scanned.entities ∧
          (∀ e ∈ page.entities, e.key = k ∧ e.key.kind = q.kind) ∧
          (k.space = q.space → q.limit ≠ some 0 → m.scan q = .ok scanned ∧
            ∀ e ∈ page.entities, q.covers e.key = true) := by
  have hanswer := answer_eq_lookup (m := m) hlookup hstart
  constructor
  · intro hfaults
    rw [run_of_no_faults hfaults]
    exact ⟨_, hanswer⟩
  · intro page hrun
    rw [answer_of_run hrun] at hanswer
    cases hanswer
    obtain ⟨scanned, hscan, hentities⟩ := entities_scan (m := m) (q := q.around k) hlookup hstart
    have hlooked := lookup_entities (m := m) (q := q.around k) hlookup rfl (q.limit_around_ne k)
    have hkeys : ∀ e ∈ (m.lookup q k).entities, e.key = k ∧ e.key.kind = q.kind := by
      intro e he
      obtain ⟨hkey, hkind⟩ := key_of_mem_lookup he
      exact ⟨hkey, hkey ▸ hkind⟩
    refine ⟨scanned, hscan, hlooked.trans hentities.symm, hkeys, ?_⟩
    intro hspace hlimit
    rw [Query.around_eq_self hspace hlimit] at hscan
    refine ⟨hscan, ?_⟩
    intro e he
    obtain ⟨hkey, hkind⟩ := hkeys e he
    rw [Query.covers, hkind, hkey, hspace, beq_self_eq_true, beq_self_eq_true]
    rfl

/-! ## A note in two namespaces -/

open Pull (note)

/-- The note of the same number in another namespace. -/
def foreignNote : Key := { note 1 with space := some "b" }

/-- A note and its namesake in another namespace. -/
def twoSpaces : Memory :=
  (Memory.insertAll [⟨note 1, .empty⟩, ⟨foreignNote, .empty⟩] (.empty none 2)).2

/-- Looks up a key among notes without a namespace. -/
def lookingUp (k : Key) (limit : Option Nat) : Query :=
  { (Query.ofKind none "Note").keyFilter .eq k with limit }

/-- The note is looked up in its namespace, and a pass finds it, too. -/
theorem run_eq_scan_around_note :
    ∃ page scanned, (twoSpaces.run (lookingUp (note 1) (some 1))).1 = .ok page ∧
      twoSpaces.scan (lookingUp (note 1) (some 1)) = .ok scanned ∧
      page.entities = scanned.entities ∧ page.entities = [⟨note 1, .empty⟩] := by
  obtain ⟨hends, hall⟩ :=
    run_eq_scan_around twoSpaces (lookingUp (note 1) (some 1)) (note 1) rfl rfl
  obtain ⟨page, hpage⟩ := hends rfl
  obtain ⟨scanned, _, hentities, _, hself⟩ := hall page hpage
  have hfound : (twoSpaces.run (lookingUp (note 1) (some 1))).1.map Page.entities =
      .ok [⟨note 1, .empty⟩] := rfl
  rw [hpage] at hfound
  exact ⟨page, scanned, hpage, (hself rfl (by decide)).1, hentities, Except.ok.inj hfound⟩

/-- A lookup finds the note of another namespace, which does not belong to the query, and it finds a
note under a limit of nothing. A pass finds neither. -/
theorem run_ne_scan :
    ((twoSpaces.run (lookingUp foreignNote none)).1.map Page.entities =
          .ok [⟨foreignNote, .empty⟩] ∧
        (twoSpaces.scan (lookingUp foreignNote none)).map Page.entities = .ok [] ∧
        (lookingUp foreignNote none).covers foreignNote = false) ∧
      (twoSpaces.run (lookingUp (note 1) (some 0))).1.map Page.entities = .ok [⟨note 1, .empty⟩] ∧
      (twoSpaces.scan (lookingUp (note 1) (some 0))).map Page.entities = .ok [] :=
  ⟨⟨rfl, by decide +kernel, rfl⟩, rfl, by decide +kernel⟩

end Memory

end Quarry
