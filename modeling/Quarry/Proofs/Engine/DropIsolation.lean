import Quarry.Proofs.Engine.Drop
import Quarry.Proofs.Engine.Isolation

/-!
# Drops within a kind

A drop goes page by page alike on two memories that agree on its kind. Each page that is deleted
leaves fewer entities of the kind, so that patience that exceeds their number is never at its end.
-/

namespace Quarry

open Quarry.Action

namespace Drop

variable {kinds : List String} {kind : String} {m m₁ m₂ : Memory} {pageSize : Nat}
  {start : Option Cursor} {done : DropSummary} {w w' : Session Memory}

theorem isWithin_pageQuery (space : Option String) (hkind : kind ∈ kinds) (pageSize : Nat)
    (start : Option Cursor) : (pageQuery space kind pageSize start).IsWithin space kinds :=
  ⟨rfl, hkind, by rintro _ ⟨⟩⟩

theorem alike_note {R : Memory → Memory → Prop} {ε : Type} (done : DropSummary) (deleted : Nat) :
    Alike R (note done deleted : Action Memory ε DropSummary) (note done deleted)
      fun done' => done'.kind = done.kind := by
  apply (alike_count _ _).bind
  intro _ _
  apply (alike_count _ _).bind
  intro _ _
  exact (alike_report _ _ _).bind fun _ _ => alike_pure rfl

/-! ## Pages -/

/-- A page of a drop is fetched and deleted alike. -/
theorem alike_step (pageSize : Nat) (start : Option Cursor) (hkind : kind ∈ kinds)
    (hdone : done.kind = kind) :
    Alike (Memory.InStep kinds kind m₁ m₂) (step Memory.store pageSize start done)
      (step Memory.store pageSize start done) fun out => out.1.kind = kind := by
  subst hdone
  apply alike_inquire_bind
  intro s t hs
  have hspace : Memory.store.space t = Memory.store.space s := hs.agrees.space_eq
  have hspace₁ : Memory.store.space s = m₁.space := hs.left.space_eq
  rw [hspace, hspace₁]
  apply (Pull.alike_ask _).bind
  rintro _ rfl
  have hredeem : Alike (Memory.InStep kinds done.kind m₁ m₂)
      (attempt (Memory.store.redeem (.running (pageQuery m₁.space done.kind pageSize start))))
      (attempt (Memory.store.redeem (.running (pageQuery m₁.space done.kind pageSize start))))
      fun page => Memory.KeysIn m₁.space done.kind (keys page) := by
    apply alike_attempt
    intro s t hs
    obtain ⟨hsame, hstep⟩ := hs.run (by
      rw [hs.left.space_eq]
      exact isWithin_pageQuery m₁.space hkind pageSize start)
    refine ⟨hsame, hstep, ?_⟩
    intro page hpage k hk
    have hanswer := Memory.answer_of_run hpage
    rw [← hs.left.space_eq] at hanswer ⊢
    obtain ⟨e, he, rfl⟩ := Memory.exists_of_mem_keys hanswer hk
    exact (Memory.mem_ofKind.1 he).2
  apply (hredeem.adapt _).bind
  intro page hkeys
  by_cases hempty : (keys page).isEmpty = true
  · simp only [if_pos hempty]
    by_cases hmore : page.more.hasMore = true
    · simp only [if_pos hmore]
      exact (alike_report _ _ _).bind fun _ _ => alike_pure rfl
    · simp only [if_neg hmore]
      exact alike_pure rfl
  · simp only [if_neg hempty]
    have hdelete : Alike (Memory.InStep kinds done.kind m₁ m₂)
        (attempt (Memory.store.delete (keys page))) (attempt (Memory.store.delete (keys page)))
        fun _ => True := by
      apply alike_attempt
      intro s t hs
      obtain ⟨hsame, hstep⟩ := hs.delete (by rwa [hs.left.space_eq])
      exact ⟨hsame, hstep, fun _ _ => trivial⟩
    apply (hdelete.adapt _).bind
    intro _ _
    exact (alike_note done _).bind fun _ hkind => alike_pure hkind

/-- A deletion of entities of the kind leaves fewer of them. -/
theorem length_ofKind_delete (m : Memory) (kind : String) (ks : List Key) :
    ((m.delete ks).2.ofKind kind).length ≤ (m.ofKind kind).length ∧
      ((m.delete ks).1 = .ok () → (∃ e ∈ m.ofKind kind, e.key ∈ ks) →
        ((m.delete ks).2.ofKind kind).length < (m.ofKind kind).length) := by
  rcases m.delete_cases ks with ⟨e, faults, hdelete⟩ | hdelete
  · rw [hdelete]
    refine ⟨Nat.le_refl _, ?_⟩
    rintro ⟨⟩
  · rw [hdelete]
    have hleft : ({ m with table := m.table.eraseAll ks } : Memory).ofKind kind =
        (m.ofKind kind).filter fun e => e.key ∉ ks := by
      rw [Memory.ofKind, Memory.ofKind, Table.entities_eraseAll, List.filter_filter,
        List.filter_filter]
      exact List.filter_congr fun e _ => Bool.and_comm _ _
    show (Memory.ofKind kind _).length ≤ _ ∧ (_ → _ → (Memory.ofKind kind _).length < _)
    rw [hleft]
    refine ⟨List.length_filter_le _ _, ?_⟩
    rintro _ ⟨e, he, hmem⟩
    exact List.length_filter_lt_length_iff_exists.2 ⟨e, he, by simpa using hmem⟩

/-- A page that is deleted leaves fewer entities of the kind. -/
theorem length_ofKind_step {r : Except DropError (DropSummary × Option Cursor)}
    (h : (step Memory.store pageSize start done).exec w = (r, w')) :
    (w'.store.ofKind done.kind).length ≤ (w.store.ofKind done.kind).length ∧
      ∀ done' c, r = .ok (done', some c) →
        (w'.store.ofKind done.kind).length < (w.store.ofKind done.kind).length := by
  obtain ⟨faults, hframe⟩ := Memory.run_frame
    (pageQuery w.store.space done.kind pageSize start) w.store
  cases hquery : w.store.run (pageQuery w.store.space done.kind pageSize start) with
  | mk answer s =>
      rw [hquery] at hframe
      have hsame : s.ofKind done.kind = w.store.ofKind done.kind := by
        rw [show s = _ from hframe]
        rfl
      cases answer with
      | error e =>
          rw [exec_step_query_error (S := Memory.store) hquery] at h
          cases h
          refine ⟨Nat.le_of_eq (congrArg List.length hsame), ?_⟩
          rintro _ _ ⟨⟩
      | ok page =>
          by_cases hkeys : keys page = []
          · obtain ⟨w₁, hexec, hstore, _⟩ := exec_step_empty (S := Memory.store) hquery hkeys
            rw [hexec] at h
            cases h
            rw [hstore, hsame]
            refine ⟨Nat.le_refl _, ?_⟩
            rintro _ _ ⟨⟩
          · obtain ⟨hle, hlt⟩ := length_ofKind_delete s done.kind (keys page)
            have hanswer := Memory.answer_of_run (congrArg Prod.fst hquery)
            obtain ⟨k, hk⟩ := List.exists_mem_of_ne_nil _ hkeys
            obtain ⟨e, he, rfl⟩ := Memory.exists_of_mem_keys hanswer hk
            rw [hsame] at hle hlt
            cases hdelete : s.delete (keys page) with
            | mk result s' =>
                rw [hdelete] at hle hlt
                cases result with
                | error err =>
                    rw [exec_step_delete_error (S := Memory.store) hquery hkeys hdelete] at h
                    cases h
                    refine ⟨hle, ?_⟩
                    rintro _ _ ⟨⟩
                | ok _ =>
                    obtain ⟨w₁, hexec, hstore, _⟩ :=
                      exec_step_deleted (S := Memory.store) hquery hkeys hdelete
                    rw [hexec] at h
                    cases h
                    rw [hstore]
                    exact ⟨hle, fun _ _ _ => hlt rfl ⟨e, he, hk⟩⟩

/-! ## Whole drops -/

/-- Memories in step hold so many entities of the kind at most. -/
def Remain (kinds : List String) (kind : String) (m₁ m₂ : Memory) (n : Nat) (s t : Memory) :
    Prop :=
  Memory.InStep kinds kind m₁ m₂ s t ∧ (s.ofKind kind).length ≤ n

/-- A drop goes on alike with any two patiences that exceed the entities of the kind. -/
theorem alike_pagesFrom (hkind : kind ∈ kinds) (pageSize : Nat) (start : Option Cursor)
    (hdone : done.kind = kind) {n p q : Nat} (hp : n < p) (hq : n < q) :
    Alike (Remain kinds kind m₁ m₂ n) (pagesFrom Memory.store pageSize p start done)
      (pagesFrom Memory.store pageSize q start done) fun _ => True := by
  induction n using Nat.strongRecOn generalizing p q start done with
  | _ n ih =>
      obtain ⟨p, rfl⟩ := Nat.exists_eq_add_one_of_ne_zero (by omega : p ≠ 0)
      obtain ⟨q, rfl⟩ := Nat.exists_eq_add_one_of_ne_zero (by omega : q ≠ 0)
      rintro w s ⟨hs, hn⟩
      obtain ⟨r, w', s', hx, hy, hs', hkept⟩ :=
        alike_step pageSize start hkind hdone w s hs
      obtain ⟨hle, hlt⟩ := length_ofKind_step hx
      rw [hdone] at hle hlt
      have hremain : Remain kinds kind m₁ m₂ n w'.store s' := ⟨hs', Nat.le_trans hle hn⟩
      rcases r with e | ⟨done', _ | c⟩
      · refine ⟨_, w', s', exec_pagesFrom_error hx, exec_pagesFrom_error hy, hremain, ?_⟩
        rintro _ ⟨⟩
      · exact ⟨_, w', s', exec_pagesFrom_last hx, exec_pagesFrom_last hy, hremain,
          fun _ _ => trivial⟩
      · have hfewer := hlt done' c rfl
        obtain ⟨r, w'', s'', hx', hy', ⟨hs'', hn''⟩, _⟩ := ih _ (Nat.lt_of_lt_of_le hfewer hn)
          (some c) (hkept _ rfl) (p := p) (q := q) (by omega) (by omega) w' s'
          ⟨hs', Nat.le_refl _⟩
        rw [exec_pagesFrom_more hx, exec_pagesFrom_more hy]
        exact ⟨r, w'', s'', hx', hy', ⟨hs'', by omega⟩, fun _ _ => trivial⟩

end Drop

/-- **A kind is dropped alike** from memories that agree on it. -/
theorem alike_dropAll {kinds : List String} {kind : String} {m₁ m₂ : Memory} (hkind : kind ∈ kinds)
    (pageSize : Nat) :
    Alike (Memory.InStep kinds kind m₁ m₂) (dropAll Memory.store pageSize kind)
      (dropAll Memory.store pageSize kind) fun _ => True := by
  intro w s hs
  let enter : Action Memory DropError Scope :=
    Scope.enter Drop.events [("kind", kind), ("page_size", toString (max pageSize 1))]
  obtain ⟨scope, hscope, hscope'⟩ : ∃ scope, enter.exec w = (.ok scope, w.opened) ∧
      enter.exec { w with store := s } = (.ok scope, { w.opened with store := s }) :=
    ⟨_, rfl, rfl⟩
  have hlength : ∀ m : Memory, (m.ofKind kind).length < Memory.store.patience m :=
    fun m => Nat.lt_succ_of_le (List.length_filter_le _ _)
  have hpatience : (w.store.ofKind kind).length < Memory.store.patience s := by
    rw [← hs.agrees.ofKind_eq hkind]
    exact hlength s
  have hpages : Alike (Drop.Remain kinds kind m₁ m₂ (w.store.ofKind kind).length)
      (Drop.pagesFrom Memory.store (max pageSize 1) (Memory.store.patience w.store) none
        ⟨kind, 0, 0⟩)
      (Drop.pagesFrom Memory.store (max pageSize 1) (Memory.store.patience s) none ⟨kind, 0, 0⟩)
      fun _ => True :=
    Drop.alike_pagesFrom hkind (max pageSize 1) none rfl (hlength w.store) hpatience
  have hsettled := hpages.orElseDo fun e =>
    (alike_count .storeFailures 1).bind fun _ _ => scope.alike_fail e.message
  have hrest := hsettled.bind fun done _ =>
    (scope.alike_complete
        [("pages", toString done.pages), ("deleted", toString done.deleted)]).bind
      fun _ _ => alike_pure (Q := fun _ => True) (a := done) trivial
  obtain ⟨r, w', s', hx, hy, ⟨hs', _⟩, hkept⟩ := hrest w.opened s ⟨hs, Nat.le_refl _⟩
  refine ⟨r, w', s', ?_, ?_, hs', hkept⟩
  · rw [dropAll, exec_bind_ok (exec_inquire _ _), exec_bind_ok hscope]
    exact hx
  · rw [dropAll, exec_bind_ok (exec_inquire _ _), exec_bind_ok hscope']
    exact hy

end Quarry
