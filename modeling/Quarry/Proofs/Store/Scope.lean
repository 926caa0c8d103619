import Mathlib.Data.List.Sort
import Quarry.Proofs.Store.Kind
import Quarry.Proofs.Store.Writes

/-!
# What some kinds can tell of a memory

Two memories agree on some kinds if they hold the same entities of these kinds in their namespace,
whatever else they hold. A query that asks for one of the kinds has the same answer on both, and
writes to one of them leave the memories in agreement and everything else as it was.
-/

namespace Quarry

instance : Std.Irrefl Entities.Before := ⟨fun _ h => h.ne rfl⟩

instance : Std.Antisymm Entities.Before where
  antisymm a b hab hba := by
    have hself : Entities.Before a a := Std.TransCmp.lt_trans hab hba
    exact absurd rfl hself.ne

namespace Key

theorem space_completeWith (k : Key) (id : KeyId) : (k.completeWith id).space = k.space := by
  unfold completeWith
  split <;> rfl

theorem kind_completeWith (k : Key) (id : KeyId) : (k.completeWith id).kind = k.kind := by
  unfold completeWith
  split
  · rfl
  · rename_i last hlast
    simp [kind, hlast]

end Key

/-- The query asks for one of these kinds in the namespace, and looks up no key of another. -/
structure Query.IsWithin (space : Option String) (kinds : List String) (q : Query) : Prop where
  space_eq : q.space = space
  kind_mem : q.kind ∈ kinds
  lookup_space : ∀ k, q.keyLookup? = some k → k.space = space

namespace Memory

variable {kinds : List String} {kind : String} {m m' : Memory} {q : Query}

/-! ## Memories in agreement -/

/-- The memories hold the same entities of these kinds, and their numbers, pages and failures to
come are the same. -/
structure Agrees (kinds : List String) (m m' : Memory) : Prop where
  space_eq : m'.space = m.space
  cap_eq : m'.cap = m.cap
  nextId_eq : m'.nextId = m.nextId
  faults_eq : m'.faults = m.faults
  get?_eq : ∀ k, k.space = m.space → k.kind ∈ kinds → m'.get? k = m.get? k

theorem Agrees.refl (kinds : List String) (m : Memory) : m.Agrees kinds m :=
  ⟨rfl, rfl, rfl, rfl, fun _ _ _ => rfl⟩

theorem Agrees.mem_iff (h : m.Agrees kinds m') {e : Entity} (hspace : e.key.space = m.space)
    (hkind : e.key.kind ∈ kinds) : e ∈ m'.table.entities ↔ e ∈ m.table.entities := by
  have hget := h.get?_eq e.key hspace hkind
  constructor
  · intro he
    have he' : m'.get? e.key = some e := Table.get?_eq_some_iff.2 ⟨he, rfl⟩
    rw [hget] at he'
    exact (Table.get?_eq_some_iff.1 he').1
  · intro he
    have he' : m.get? e.key = some e := Table.get?_eq_some_iff.2 ⟨he, rfl⟩
    rw [← hget] at he'
    exact (Table.get?_eq_some_iff.1 he').1

theorem Agrees.ofKind_eq (h : m.Agrees kinds m') (hkind : kind ∈ kinds) :
    m'.ofKind kind = m.ofKind kind := by
  apply (pairwise_ofKind m' kind).eq_of_mem_iff (pairwise_ofKind m kind)
  intro e
  rw [mem_ofKind, mem_ofKind, h.space_eq]
  constructor
  · rintro ⟨he, hspace, rfl⟩
    exact ⟨(h.mem_iff hspace hkind).1 he, hspace, rfl⟩
  · rintro ⟨he, hspace, rfl⟩
    exact ⟨(h.mem_iff hspace hkind).2 he, hspace, rfl⟩

/-- What a query selects, it selects of the entities of its kind. -/
theorem selected_eq_ofKind (h : q.space = m.space) :
    m.selected q = (m.ofKind q.kind).filter q.satisfiedBy := by
  rw [selected, ofKind, List.filter_filter]
  apply List.filter_congr
  intro e _
  rw [Query.covers, h, Bool.and_comm]

theorem Agrees.matching_eq (h : m.Agrees kinds m') (hq : q.IsWithin m.space kinds) :
    m'.matching q = m.matching q := by
  rw [Memory.matching_eq, Memory.matching_eq, selected_eq_ofKind hq.space_eq,
    selected_eq_ofKind (hq.space_eq.trans h.space_eq.symm), h.ofKind_eq hq.kind_mem]

/-- A key of another kind than that of the query is not looked up at all. -/
theorem Agrees.lookup_eq (h : m.Agrees kinds m') (hq : q.IsWithin m.space kinds) {k : Key}
    (hk : k.space = m.space) : m'.lookup q k = m.lookup q k := by
  unfold lookup
  by_cases hkind : k.kind = q.kind
  · rw [h.get?_eq k hk (hkind ▸ hq.kind_mem)]
  · rw [if_pos (by simp [hkind]), if_pos (by simp [hkind])]

theorem Agrees.answer_eq (h : m.Agrees kinds m') (hq : q.IsWithin m.space kinds) :
    m'.answer q = m.answer q := by
  by_cases hwindow : q.keyLookup? = none ∨ q.start ≠ none
  · rw [answer_eq_page hwindow, answer_eq_page hwindow, h.matching_eq hq, h.cap_eq]
  · obtain ⟨hlookup, hstart⟩ := not_or.1 hwindow
    obtain ⟨k, hk⟩ := Option.ne_none_iff_exists'.1 hlookup
    rw [answer_eq_lookup hk (not_not.1 hstart), answer_eq_lookup hk (not_not.1 hstart),
      h.lookup_eq hq (hq.lookup_space k hk)]

/-- A run tells as much of one memory as of the other, and leaves the same failures to come. -/
theorem Agrees.run_eq (h : m.Agrees kinds m') (hq : q.IsWithin m.space kinds) :
    (m'.run q).1 = (m.run q).1 ∧ (m'.run q).2.faults = (m.run q).2.faults := by
  have hfaults' := h.faults_eq
  cases hfaults : m.faults.queries with
  | zero =>
      have hzero : m'.faults.queries = 0 := by rw [hfaults', hfaults]
      rw [run_of_no_faults hfaults, run_of_no_faults hzero]
      exact ⟨h.answer_eq hq, hfaults'⟩
  | succ n =>
      have hsucc : m'.faults.queries = n + 1 := by rw [hfaults', hfaults]
      rw [run_of_fault hfaults, run_of_fault hsucc, hfaults']
      exact ⟨rfl, rfl⟩

theorem run_frame (q : Query) (m : Memory) :
    ∃ faults, (m.run q).2 = { m with log := m.log ++ [q], faults } := by
  cases hfaults : m.faults.queries with
  | zero => exact ⟨m.faults, congrArg Prod.snd (run_of_no_faults hfaults)⟩
  | succ n => exact ⟨_, congrArg Prod.snd (run_of_fault hfaults)⟩

/-- The memory with nothing but the entities of one kind in its namespace. -/
def only (kind : String) (m : Memory) : Memory :=
  { m with table := ⟨m.ofKind kind, m.pairwise_ofKind kind⟩ }

theorem agrees_only (kind : String) (m : Memory) : m.Agrees [kind] (m.only kind) where
  space_eq := rfl
  cap_eq := rfl
  nextId_eq := rfl
  faults_eq := rfl
  get?_eq := by
    intro k hspace hkind
    apply Option.ext
    intro e
    rw [Memory.get?, Memory.get?, Table.get?_eq_some_iff, Table.get?_eq_some_iff]
    apply and_congr_left
    rintro rfl
    exact mem_ofKind.trans (and_iff_left ⟨hspace, List.mem_singleton.1 hkind⟩)

/-! ## Memories in step -/

/-- The memory is the other one, but for entities of this kind in its namespace. -/
structure ChangedIn (kind : String) (m s : Memory) : Prop where
  space_eq : s.space = m.space
  cap_eq : s.cap = m.cap
  get?_eq : ∀ k, ¬ (k.space = m.space ∧ k.kind = kind) → s.get? k = m.get? k

/-- Two memories agree on some kinds, and have come from where they were within one of these. -/
structure InStep (kinds : List String) (kind : String) (m₁ m₂ s₁ s₂ : Memory) : Prop where
  agrees : s₁.Agrees kinds s₂
  left : m₁.ChangedIn kind s₁
  right : m₂.ChangedIn kind s₂

variable {m₁ m₂ s₁ s₂ : Memory}

theorem ChangedIn.refl (kind : String) (m : Memory) : m.ChangedIn kind m :=
  ⟨rfl, rfl, fun _ _ => rfl⟩

theorem inStep_start (h : m₁.Agrees kinds m₂) (kind : String) :
    InStep kinds kind m₁ m₂ m₁ m₂ :=
  ⟨h, .refl kind m₁, .refl kind m₂⟩

/-- Memories stay in step if they have changed in the entities of the kind alone, and in these
alike. -/
theorem InStep.of_tables (h : InStep kinds kind m₁ m₂ s₁ s₂) {t₁ t₂ : Memory}
    (h₁ : s₁.ChangedIn kind t₁) (h₂ : s₂.ChangedIn kind t₂) (hnextId : t₂.nextId = t₁.nextId)
    (hfaults : t₂.faults = t₁.faults)
    (hget : ∀ k, s₂.get? k = s₁.get? k → t₂.get? k = t₁.get? k) :
    InStep kinds kind m₁ m₂ t₁ t₂ := by
  obtain ⟨hagrees, hleft, hright⟩ := h
  refine ⟨⟨?_, ?_, hnextId, hfaults, ?_⟩, ⟨?_, ?_, ?_⟩, ⟨?_, ?_, ?_⟩⟩
  · rw [h₁.space_eq, h₂.space_eq, hagrees.space_eq]
  · rw [h₁.cap_eq, h₂.cap_eq, hagrees.cap_eq]
  · intro k hspace hkind
    rw [h₁.space_eq] at hspace
    exact hget k (hagrees.get?_eq k hspace hkind)
  · rw [h₁.space_eq, hleft.space_eq]
  · rw [h₁.cap_eq, hleft.cap_eq]
  · intro k hk
    rw [h₁.get?_eq k (by rwa [hleft.space_eq]), hleft.get?_eq k hk]
  · rw [h₂.space_eq, hright.space_eq]
  · rw [h₂.cap_eq, hright.cap_eq]
  · intro k hk
    rw [h₂.get?_eq k (by rwa [hright.space_eq]), hright.get?_eq k hk]

/-! ## Writes -/

/-- All keys are of the kind, in the namespace. -/
def KeysIn (space : Option String) (kind : String) (ks : List Key) : Prop :=
  ∀ k ∈ ks, k.space = space ∧ k.kind = kind

theorem KeysIn.ne {ks : List Key} {k k' : Key} (h : KeysIn m.space kind ks) (hk : k ∈ ks)
    (hk' : ¬ (k'.space = m.space ∧ k'.kind = kind)) : k ≠ k' := by
  rintro rfl
  exact hk' (h k hk)

/-- An entity is stored under a key of the same kind as its own. -/
theorem scope_of_insert {e : Entity} {k : Key} (h : m.insert e = (.ok k, m')) :
    k.space = e.key.space ∧ k.kind = e.key.kind := by
  cases hcomplete : e.key.isComplete with
  | true =>
      rw [insert_of_complete hcomplete] at h
      cases h
      exact ⟨rfl, rfl⟩
  | false =>
      rw [insert_of_incomplete (path_of_insert h) hcomplete] at h
      cases h
      exact ⟨e.key.space_completeWith _, e.key.kind_completeWith _⟩

theorem keysIn_of_insertAll {space : Option String} {es : List Entity} {ks : List Key}
    (h : m.insertAll es = (.ok ks, m')) (hes : KeysIn space kind (es.map Entity.key)) :
    KeysIn space kind ks := by
  induction es generalizing m ks with
  | nil =>
      cases h
      rintro _ ⟨⟩
  | cons e es ih =>
      obtain ⟨k, m₁, rest, hinsert, hrest, rfl⟩ := insertAll_cons_eq_ok.1 h
      obtain ⟨hspace, hkind⟩ := scope_of_insert hinsert
      obtain ⟨hspace', hkind'⟩ := hes e.key List.mem_cons_self
      intro k' hk'
      rcases List.mem_cons.1 hk' with rfl | hk'
      · exact ⟨hspace.trans hspace', hkind.trans hkind'⟩
      · exact ih hrest (fun x hx => hes x (List.mem_cons_of_mem _ hx)) k' hk'

theorem InStep.run (h : InStep kinds kind m₁ m₂ s₁ s₂) (hq : q.IsWithin s₁.space kinds) :
    (s₂.run q).1 = (s₁.run q).1 ∧ InStep kinds kind m₁ m₂ (s₁.run q).2 (s₂.run q).2 := by
  obtain ⟨hsame, hfaults⟩ := h.agrees.run_eq hq
  refine ⟨hsame, ?_⟩
  obtain ⟨faults₁, hrun₁⟩ := run_frame q s₁
  obtain ⟨faults₂, hrun₂⟩ := run_frame q s₂
  rw [hrun₁, hrun₂] at hfaults ⊢
  exact h.of_tables ⟨rfl, rfl, fun _ _ => rfl⟩ ⟨rfl, rfl, fun _ _ => rfl⟩ h.agrees.nextId_eq hfaults
    fun _ hk => hk

/-- A failure that was due is due no more. -/
theorem InStep.with_faults (h : InStep kinds kind m₁ m₂ s₁ s₂) (faults : Faults) :
    InStep kinds kind m₁ m₂ { s₁ with faults } { s₂ with faults } :=
  h.of_tables ⟨rfl, rfl, fun _ _ => rfl⟩ ⟨rfl, rfl, fun _ _ => rfl⟩ h.agrees.nextId_eq rfl
    fun _ hk => hk

theorem changedIn_insertAll {es : List Entity} (h : KeysIn m.space kind (es.map Entity.key)) :
    m.ChangedIn kind { m with table := m.table.insertAll es } :=
  ⟨rfl, rfl, fun _ hk => Table.get?_insertAll_of_ne fun _ he => h.ne (List.mem_map_of_mem he) hk⟩

theorem changedIn_eraseAll {ks : List Key} (h : KeysIn m.space kind ks) :
    m.ChangedIn kind { m with table := m.table.eraseAll ks } :=
  ⟨rfl, rfl, fun _ hk => Table.get?_eraseAll_of_not_mem fun hmem => h.ne hmem hk rfl⟩

theorem InStep.insertAll_table (h : InStep kinds kind m₁ m₂ s₁ s₂) {es : List Entity}
    (hes : KeysIn s₁.space kind (es.map Entity.key)) :
    InStep kinds kind m₁ m₂ { s₁ with table := s₁.table.insertAll es }
      { s₂ with table := s₂.table.insertAll es } :=
  h.of_tables (changedIn_insertAll hes) (changedIn_insertAll (h.agrees.space_eq ▸ hes))
    h.agrees.nextId_eq h.agrees.faults_eq fun _ hk => Table.get?_insertAll_congr hk es

theorem InStep.eraseAll_table (h : InStep kinds kind m₁ m₂ s₁ s₂) {ks : List Key}
    (hks : KeysIn s₁.space kind ks) :
    InStep kinds kind m₁ m₂ { s₁ with table := s₁.table.eraseAll ks }
      { s₂ with table := s₂.table.eraseAll ks } := by
  refine h.of_tables (changedIn_eraseAll hks) (changedIn_eraseAll (h.agrees.space_eq ▸ hks))
    h.agrees.nextId_eq h.agrees.faults_eq ?_
  intro k hk
  by_cases hmem : k ∈ ks
  · exact (Table.get?_eraseAll_of_mem hmem).trans (Table.get?_eraseAll_of_mem hmem).symm
  · exact (Table.get?_eraseAll_of_not_mem hmem).trans
      (hk.trans (Table.get?_eraseAll_of_not_mem hmem).symm)

theorem InStep.delete (h : InStep kinds kind m₁ m₂ s₁ s₂) {ks : List Key}
    (hks : KeysIn s₁.space kind ks) :
    (s₂.delete ks).1 = (s₁.delete ks).1 ∧
      InStep kinds kind m₁ m₂ (s₁.delete ks).2 (s₂.delete ks).2 := by
  have hfaults := h.agrees.faults_eq
  cases hdue : s₁.faults.deletes with
  | zero =>
      rw [delete_of_no_faults hdue, delete_of_no_faults (by rw [hfaults, hdue])]
      exact ⟨rfl, h.eraseAll_table hks⟩
  | succ n =>
      rw [delete_of_fault hdue, delete_of_fault (by rw [hfaults, hdue]), hfaults]
      exact ⟨rfl, h.with_faults _⟩

theorem InStep.update (h : InStep kinds kind m₁ m₂ s₁ s₂) (hkind : kind ∈ kinds)
    {es : List Entity} (hes : KeysIn s₁.space kind (es.map Entity.key)) :
    (s₂.update es).1 = (s₁.update es).1 ∧
      InStep kinds kind m₁ m₂ (s₁.update es).2 (s₂.update es).2 := by
  have hfaults := h.agrees.faults_eq
  have hmissing : (es.find? fun e => (s₂.get? e.key).isNone) =
      es.find? fun e => (s₁.get? e.key).isNone := by
    rw [← List.head?_filter, ← List.head?_filter]
    refine congrArg List.head? (List.filter_congr ?_)
    intro e he
    obtain ⟨hspace, hk⟩ := hes e.key (List.mem_map_of_mem he)
    rw [h.agrees.get?_eq e.key hspace (hk ▸ hkind)]
  cases hdue : s₁.faults.writes with
  | succ n =>
      rw [update_of_fault hdue, update_of_fault (by rw [hfaults, hdue]), hfaults]
      exact ⟨rfl, h.with_faults _⟩
  | zero =>
      have hdue' : s₂.faults.writes = 0 := by rw [hfaults, hdue]
      cases hfind : es.find? fun e => (s₁.get? e.key).isNone with
      | some missing =>
          rw [update_of_missing hdue hfind, update_of_missing hdue' (hmissing.trans hfind)]
          exact ⟨rfl, h⟩
      | none =>
          rw [update_of_present hdue hfind, update_of_present hdue' (hmissing.trans hfind)]
          exact ⟨rfl, h.insertAll_table hes⟩

theorem changedIn_insert {e : Entity} (id : Int64) (hspace : e.key.space = m.space)
    (hkind : e.key.kind = kind) :
    m.ChangedIn kind { m with nextId := id, table := m.table.insert e } := by
  refine ⟨rfl, rfl, ?_⟩
  intro k hk
  refine (Table.get?_insert _ _ _).trans (if_neg ?_)
  rintro rfl
  exact hk ⟨hspace, hkind⟩

theorem InStep.insert_table (h : InStep kinds kind m₁ m₂ s₁ s₂) {e : Entity}
    (hspace : e.key.space = s₁.space) (hkind : e.key.kind = kind) {id₁ id₂ : Int64}
    (hid : id₂ = id₁) :
    InStep kinds kind m₁ m₂ { s₁ with nextId := id₁, table := s₁.table.insert e }
      { s₂ with nextId := id₂, table := s₂.table.insert e } :=
  h.of_tables (changedIn_insert id₁ hspace hkind)
    (changedIn_insert id₂ (hspace.trans h.agrees.space_eq.symm) hkind) hid h.agrees.faults_eq
    fun _ hk => Table.get?_insertAll_congr hk [e]

theorem InStep.insert (h : InStep kinds kind m₁ m₂ s₁ s₂) {e : Entity}
    (hspace : e.key.space = s₁.space) (hkind : e.key.kind = kind) :
    (s₂.insert e).1 = (s₁.insert e).1 ∧
      InStep kinds kind m₁ m₂ (s₁.insert e).2 (s₂.insert e).2 := by
  by_cases hpath : e.key.path = []
  · rw [insert_of_no_path hpath, insert_of_no_path hpath]
    exact ⟨rfl, h⟩
  · cases hcomplete : e.key.isComplete with
    | true =>
        rw [insert_of_complete hcomplete, insert_of_complete hcomplete]
        exact ⟨rfl, h.insert_table hspace hkind h.agrees.nextId_eq⟩
    | false =>
        rw [insert_of_incomplete hpath hcomplete, insert_of_incomplete hpath hcomplete,
          h.agrees.nextId_eq]
        exact ⟨rfl, h.insert_table ((e.key.space_completeWith _).trans hspace)
          ((e.key.kind_completeWith _).trans hkind) rfl⟩

theorem InStep.insertAll (h : InStep kinds kind m₁ m₂ s₁ s₂) {es : List Entity}
    (hes : KeysIn s₁.space kind (es.map Entity.key)) :
    (s₂.insertAll es).1 = (s₁.insertAll es).1 ∧
      InStep kinds kind m₁ m₂ (s₁.insertAll es).2 (s₂.insertAll es).2 := by
  induction es generalizing s₁ s₂ with
  | nil => exact ⟨rfl, h⟩
  | cons e es ih =>
      obtain ⟨hspace, hkind⟩ := hes e.key (by simp)
      obtain ⟨hsame, hstep⟩ := h.insert hspace hkind
      cases hinsert₁ : s₁.insert e with
      | mk r t₁ =>
          cases hinsert₂ : s₂.insert e with
          | mk r₂ t₂ =>
              rw [hinsert₁, hinsert₂] at hsame hstep
              cases hsame
              cases r with
              | error err =>
                  rw [(insertAll_cons_error hinsert₁ es).1, (insertAll_cons_error hinsert₂ es).1]
                  exact ⟨rfl, hstep⟩
              | ok k =>
                  have hspace' : t₁.space = s₁.space :=
                    hstep.left.space_eq.trans h.left.space_eq.symm
                  obtain ⟨hrest, hstep'⟩ := ih hstep (by
                    rw [hspace']
                    intro k hk
                    exact hes k (List.mem_cons_of_mem _ hk))
                  rw [(insertAll_cons_ok hinsert₁ es).1, (insertAll_cons_ok hinsert₂ es).1, hrest]
                  exact ⟨rfl, hstep'⟩

theorem InStep.save (h : InStep kinds kind m₁ m₂ s₁ s₂) {es : List Entity}
    (hes : KeysIn s₁.space kind (es.map Entity.key)) :
    (s₂.save es).1 = (s₁.save es).1 ∧
      InStep kinds kind m₁ m₂ (s₁.save es).2 (s₂.save es).2 := by
  have hfaults := h.agrees.faults_eq
  cases hdue : s₁.faults.writes with
  | zero =>
      rw [save_of_no_faults hdue, save_of_no_faults (by rw [hfaults, hdue])]
      exact h.insertAll hes
  | succ n =>
      rw [save_of_fault hdue, save_of_fault (by rw [hfaults, hdue]), hfaults]
      exact ⟨rfl, h.with_faults _⟩

end Memory

end Quarry
