import Quarry.Engine.Drop
import Quarry.Proofs.Engine.Sweep
import Quarry.Proofs.Store.Table

/-!
# The entities of a kind

A drop is about the entities of one kind in the namespace of the store. In key order, its pages are
windows of them, each behind the last key of the one before.
-/

namespace Quarry

namespace Memory

variable {m : Memory} {kind : String}

/-- The entities of a kind in the store's namespace, in key order. -/
def ofKind (kind : String) (m : Memory) : List Entity :=
  m.table.entities.filter fun e => e.key.space == m.space && e.key.kind == kind

/-- Those of them behind a key. -/
def ofKindFrom (kind : String) (after : Option Key) (m : Memory) : List Entity :=
  (m.ofKind kind).filter fun e => e.key.isBeyond after

theorem mem_ofKind {e : Entity} :
    e ∈ m.ofKind kind ↔ e ∈ m.table.entities ∧ e.key.space = m.space ∧ e.key.kind = kind := by
  rw [ofKind, List.mem_filter, Bool.and_eq_true, beq_iff_eq, beq_iff_eq]

theorem mem_ofKindFrom {after : Option Key} {e : Entity} :
    e ∈ m.ofKindFrom kind after ↔ e ∈ m.ofKind kind ∧ e.key.isBeyond after = true :=
  List.mem_filter

theorem mem_ofKindFrom_of_get? {after : Option Key} {k : Key} {e : Entity} (h : m.get? k = some e)
    (hspace : k.space = m.space) (hkind : k.kind = kind) (hbeyond : k.isBeyond after = true) :
    e ∈ m.ofKindFrom kind after := by
  rw [mem_ofKindFrom, mem_ofKind, key_of_get? h]
  exact ⟨⟨List.mem_of_find?_eq_some h, hspace, hkind⟩, hbeyond⟩

theorem length_ofKind (m : Memory) (kind : String) : (m.ofKind kind).length = m.count kind :=
  List.countP_eq_length_filter.symm

theorem pairwise_ofKind (m : Memory) (kind : String) :
    (m.ofKind kind).Pairwise Entities.Before :=
  m.table.sorted.filter _

theorem pairwise_ofKindFrom (m : Memory) (kind : String) (after : Option Key) :
    (m.ofKindFrom kind after).Pairwise Entities.Before :=
  (m.pairwise_ofKind kind).filter _

/-! ## Pages -/

/-- A cursor behind a key. -/
def cursorBehind (after : Option Key) : Option Cursor :=
  after.map fun k => (Position.after k).encode

/-- The key of the last entity of a list. -/
def lastKey (es : List Entity) : Option Key := es.getLast?.map Entity.key

/-- The entities of a page that is not the whole list end with one of them. -/
theorem exists_last_take {n : Nat} (hn : 0 < n) (es : List Entity) (hlt : n < es.length) :
    ∃ z, es[n - 1]? = some z ∧ z ∈ es.take n ∧ lastKey (es.take n) = some z.key := by
  have hget : es[n - 1]? = some es[n - 1] := List.getElem?_eq_getElem (by omega)
  have hlast : (es.take n).getLast? = some es[n - 1] := by
    rw [List.getLast?_take, if_neg (by omega), hget]
    rfl
  refine ⟨es[n - 1], hget, List.mem_of_getLast? hlast, ?_⟩
  rw [lastKey, hlast]
  rfl

theorem selected_pageQuery (m : Memory) (kind : String) (pageSize : Nat) (start : Option Cursor) :
    m.selected (Drop.pageQuery m.space kind pageSize start) = m.ofKind kind := by
  refine List.filter_congr ?_
  intro e _
  exact Bool.and_true _

section Page

variable {pageSize : Nat} (cap : Nat) (space : Option String) (kind : String)
  (start : Option Cursor) (es : List Entity) (s : Nat)

theorem keys_pageAt :
    Drop.keys (pageAt cap (Drop.pageQuery space kind pageSize start) es s) =
      ((es.drop s).take (min pageSize cap)).map Entity.key := by
  have hslots : (pageAt cap (Drop.pageQuery space kind pageSize start) es s).slots =
      ((es.drop s).take (min pageSize cap)).map fun e => some e.keyOnly :=
    slots_pageAt cap (Drop.pageQuery space kind pageSize start) es s
  rw [Drop.keys, hslots, List.filterMap_map]
  exact congrFun List.filterMap_eq_map _

theorem next?_pageAt (hcap : 0 < cap) (hsize : 0 < pageSize) :
    Drop.next? (pageAt cap (Drop.pageQuery space kind pageSize start) es s) =
      if (es.drop s).length ≤ min pageSize cap then none
      else cursorBehind (lastKey ((es.drop s).take (min pageSize cap))) := by
  have hmore := more_pageAt cap (Drop.pageQuery space kind pageSize start) es s
  have hcursor := cursor_pageAt cap (Drop.pageQuery space kind pageSize start) es s
  have hwindow : Query.pageSize cap (Drop.pageQuery space kind pageSize start) =
    min pageSize cap := rfl
  have hoffset : s + (Drop.pageQuery space kind pageSize start).offset.getD 0 = s := rfl
  rw [hoffset, hwindow] at hmore hcursor
  by_cases hend : es.length ≤ s + min pageSize cap
  · have hlength : (es.drop s).length ≤ min pageSize cap := by
      rw [List.length_drop]
      omega
    rw [if_pos hend] at hmore
    rw [Drop.next?, hmore, if_pos hlength]
    rfl
  · have hlength : ¬ (es.drop s).length ≤ min pageSize cap := by
      rw [List.length_drop]
      omega
    have hlast := getLast?_take_drop (l := es) (a := s) (n := min pageSize cap) (by omega) (by omega)
    rw [if_neg hend] at hmore
    rw [hlast] at hcursor
    rw [Drop.next?, hmore, if_neg hlength, lastKey, hcursor, hlast]
    split <;> rfl

end Page

/-- What a drop is answered from a key on: as many keys as the page size and the cap allow, and a
cursor behind the last of them unless there are no others. -/
theorem answer_pageQuery {pageSize : Nat} (h : 0 < pageSize) (m : Memory) (kind : String)
    (after : Option Key) :
    ∃ page, m.answer (Drop.pageQuery m.space kind pageSize (cursorBehind after)) = .ok page ∧
      Drop.keys page = ((m.ofKindFrom kind after).take (min pageSize m.cap)).map Entity.key ∧
      Drop.next? page =
        if (m.ofKindFrom kind after).length ≤ min pageSize m.cap then none
        else cursorBehind (lastKey ((m.ofKindFrom kind after).take (min pageSize m.cap))) := by
  obtain ⟨s, hstart, hdrop⟩ := startIndex_fromKey (m := m)
    (q := Drop.pageQuery m.space kind pageSize none) after
  rw [selected_pageQuery] at hstart
  rw [selectedFrom, selected_pageQuery] at hdrop
  have hmatching : m.matching (Drop.pageQuery m.space kind pageSize (cursorBehind after)) =
      m.ofKind kind := by
    rw [matching_of_orders_nil rfl, selected_pageQuery]
  refine ⟨pageAt m.cap (Drop.pageQuery m.space kind pageSize (cursorBehind after))
    (m.ofKind kind) s, ?_, ?_, ?_⟩
  · rw [answer_eq_page (.inl rfl), hmatching]
    exact congrArg (Except.map _) hstart
  · rw [keys_pageAt, hdrop]
    rfl
  · rw [next?_pageAt _ _ _ _ _ _ m.cap_pos h, hdrop]
    rfl

/-- Wherever a page starts, its keys are those of entities of the kind. -/
theorem exists_of_mem_keys {pageSize : Nat} {start : Option Cursor} {page : Page}
    (h : m.answer (Drop.pageQuery m.space kind pageSize start) = .ok page) {k : Key}
    (hk : k ∈ Drop.keys page) : ∃ e ∈ m.ofKind kind, e.key = k := by
  rw [answer_eq_page (.inl rfl), matching_of_orders_nil rfl, selected_pageQuery] at h
  obtain ⟨s, _, rfl⟩ := map_eq_ok.1 h
  rw [keys_pageAt] at hk
  obtain ⟨e, he, rfl⟩ := List.mem_map.1 hk
  exact ⟨e, List.mem_of_mem_drop (List.mem_of_mem_take he), rfl⟩

/-! ## The first ones dropped -/

theorem filter_not_mem_take {es : List Entity} (h : es.Pairwise Entities.Before) (n : Nat) :
    es.filter (fun e => e.key ∉ (es.take n).map Entity.key) = es.drop n := by
  have hsplit := List.take_append_drop n es
  have happart : ∀ x ∈ es.take n, ∀ y ∈ es.drop n, Entities.Before x y := by
    rw [← hsplit, List.pairwise_append] at h
    exact h.2.2
  have hfront : (es.take n).filter (fun e => e.key ∉ (es.take n).map Entity.key) = [] := by
    rw [List.filter_eq_nil_iff]
    intro x hx hnot
    exact of_decide_eq_true hnot (List.mem_map_of_mem hx)
  have hback : (es.drop n).filter (fun e => e.key ∉ (es.take n).map Entity.key) = es.drop n := by
    rw [List.filter_eq_self]
    intro y hy
    refine decide_eq_true ?_
    intro hmem
    obtain ⟨x, hx, hkey⟩ := List.mem_map.1 hmem
    exact (happart x hx y hy).ne hkey
  calc es.filter (fun e => e.key ∉ (es.take n).map Entity.key)
      = (es.take n ++ es.drop n).filter (fun e => e.key ∉ (es.take n).map Entity.key) := by
        rw [hsplit]
    _ = es.drop n := by rw [List.filter_append, hfront, hback, List.nil_append]

/-- The memory without the first `n` entities of a kind. -/
def dropped (kind : String) (n : Nat) (m : Memory) : Memory :=
  { m with table := m.table.eraseAll (((m.ofKind kind).take n).map Entity.key) }

theorem entities_dropped (m : Memory) (kind : String) (n : Nat) :
    (m.dropped kind n).table.entities =
      m.table.entities.filter fun e => e.key ∉ ((m.ofKind kind).take n).map Entity.key :=
  m.table.entities_eraseAll _

theorem dropped_zero (m : Memory) (kind : String) : m.dropped kind 0 = m := rfl

theorem ofKind_dropped (m : Memory) (kind : String) (n : Nat) :
    (m.dropped kind n).ofKind kind = (m.ofKind kind).drop n := by
  rw [← filter_not_mem_take (m.pairwise_ofKind kind) n, ofKind, entities_dropped, ofKind,
    List.filter_filter, List.filter_filter]
  refine List.filter_congr ?_
  intro e _
  exact Bool.and_comm _ _

theorem take_ofKind {n : Nat} (h : m.count kind ≤ n) : (m.ofKind kind).take n = m.ofKind kind := by
  rw [List.take_of_length_le]
  rwa [length_ofKind]

theorem dropped_of_le {n : Nat} (h : m.count kind ≤ n) :
    m.dropped kind n = m.dropped kind (m.count kind) := by
  rw [dropped, dropped, take_ofKind h, take_ofKind (Nat.le_refl _)]

theorem count_dropped (m : Memory) (kind : String) :
    (m.dropped kind (m.count kind)).count kind = 0 := by
  rw [← length_ofKind, ofKind_dropped, List.length_drop, length_ofKind, Nat.sub_self]

/-- Once all entities of the kind are dropped, those of other kinds and namespaces are left. -/
theorem entities_dropped_all {n : Nat} (h : m.count kind ≤ n) :
    (m.dropped kind n).table.entities =
      m.table.entities.filter fun e => ¬ (e.key.space = m.space ∧ e.key.kind = kind) := by
  rw [entities_dropped, take_ofKind h]
  refine List.filter_congr ?_
  intro e he
  rw [decide_eq_decide]
  apply not_congr
  constructor
  · intro hkey
    obtain ⟨x, hx, hkey⟩ := List.mem_map.1 hkey
    rw [← hkey]
    exact (mem_ofKind.1 hx).2
  · intro hscope
    exact List.mem_map_of_mem (mem_ofKind.2 ⟨he, hscope⟩)

/-- Dropping only some of the kind leaves the same entities of other kinds and namespaces. -/
theorem filter_entities_dropped (m : Memory) (kind : String) (n : Nat) :
    ((m.dropped kind n).table.entities.filter
        fun e => ¬ (e.key.space = m.space ∧ e.key.kind = kind)) =
      m.table.entities.filter fun e => ¬ (e.key.space = m.space ∧ e.key.kind = kind) := by
  rw [entities_dropped, List.filter_filter]
  refine List.filter_congr ?_
  intro e _
  rw [← Bool.decide_and, decide_eq_decide]
  constructor
  · exact And.left
  · intro hscope
    refine ⟨hscope, ?_⟩
    intro hkey
    obtain ⟨x, hx, hkey⟩ := List.mem_map.1 hkey
    rw [← hkey] at hscope
    exact hscope (mem_ofKind.1 (List.mem_of_mem_take hx)).2

/-- The query for the page behind the first `n` entities of a kind. -/
def dropQuery (kind : String) (pageSize n : Nat) (m : Memory) : Query :=
  Drop.pageQuery m.space kind pageSize (cursorBehind (lastKey ((m.ofKind kind).take n)))

/-- The keys on that page. -/
def dropKeys (kind : String) (pageSize n : Nat) (m : Memory) : List Key :=
  (((m.ofKind kind).drop n).take (min pageSize m.cap)).map Entity.key

theorem length_dropKeys (m : Memory) (kind : String) (pageSize n : Nat) :
    (m.dropKeys kind pageSize n).length = min (min pageSize m.cap) (m.count kind - n) := by
  rw [dropKeys, List.length_map, List.length_take, List.length_drop, length_ofKind]

/-- Dropping the keys of a page is dropping so many more. -/
theorem table_eraseAll_dropKeys (m : Memory) (kind : String) (pageSize n : Nat) :
    (m.dropped kind n).table.eraseAll (m.dropKeys kind pageSize n) =
      (m.dropped kind (n + min pageSize m.cap)).table := by
  rw [dropped, dropped, List.take_add, List.map_append, Table.eraseAll_append]
  rfl

theorem start_dropQuery {n : Nat} (hn : 0 < n) (hkind : 0 < m.count kind) (pageSize : Nat) :
    ∃ c, (m.dropQuery kind pageSize n).start = some c := by
  have hne : (m.ofKind kind).take n ≠ [] := by
    rw [← List.length_pos_iff, List.length_take, length_ofKind]
    omega
  exact ⟨_, by rw [dropQuery, lastKey, List.getLast?_eq_some_getLast hne]; rfl⟩

theorem ofKindFrom_dropped (m : Memory) (kind : String) (n : Nat) :
    (m.dropped kind n).ofKindFrom kind (lastKey ((m.ofKind kind).take n)) =
      (m.ofKind kind).drop n := by
  rw [ofKindFrom, ofKind_dropped, List.filter_eq_self]
  intro e he
  rw [lastKey]
  cases hlast : ((m.ofKind kind).take n).getLast? with
  | none => rfl
  | some z =>
      have hz := List.mem_of_getLast? hlast
      have hpairwise := m.pairwise_ofKind kind
      rw [← List.take_append_drop n (m.ofKind kind), List.pairwise_append] at hpairwise
      exact Key.isBeyond_some.2 (hpairwise.2.2 z hz e he)

/-- The page behind the first `n` entities holds the next ones, and leads behind them. -/
theorem answer_dropped {pageSize : Nat} (h : 0 < pageSize) (m : Memory) (kind : String) (n : Nat) :
    ∃ page, (m.dropped kind n).answer (m.dropQuery kind pageSize n) = .ok page ∧
      Drop.keys page = m.dropKeys kind pageSize n ∧
      Drop.next? page =
        if m.count kind ≤ n + min pageSize m.cap then none
        else (m.dropQuery kind pageSize (n + min pageSize m.cap)).start := by
  obtain ⟨page, hanswer, hkeys, hnext⟩ :=
    (m.dropped kind n).answer_pageQuery h kind (lastKey ((m.ofKind kind).take n))
  rw [ofKindFrom_dropped] at hkeys hnext
  refine ⟨page, hanswer, hkeys, hnext.trans ?_⟩
  have hlength := List.length_drop (i := n) (l := m.ofKind kind)
  rw [length_ofKind] at hlength
  have hcap : (m.dropped kind n).cap = m.cap := rfl
  rw [hcap, hlength]
  by_cases hend : m.count kind ≤ n + min pageSize m.cap
  · rw [if_pos hend, if_pos (by omega)]
  · have hpos := m.cap_pos
    have hcount := m.length_ofKind kind
    have hwindow := getLast?_take_drop (l := m.ofKind kind) (a := n) (n := min pageSize m.cap)
      (by omega) (by omega)
    have hfront := getLast?_take_drop (l := m.ofKind kind) (a := 0) (n := n + min pageSize m.cap)
      (by omega) (by omega)
    rw [List.drop_zero] at hfront
    rw [if_neg hend, if_neg (by omega)]
    show cursorBehind (lastKey _) = cursorBehind (lastKey _)
    rw [lastKey, lastKey, hwindow, hfront]
    simp only [Nat.zero_add]

end Memory

end Quarry
