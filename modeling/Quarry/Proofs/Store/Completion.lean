import Quarry.Proofs.Store.Allocation

/-!
# Keys that come back from a store

The key under which an entity is stored names the namespace, the kinds and the ancestors of the key
that was given. If every ancestor has its id, the key is complete and has every id that was given.
An ancestor without an id stays without one, and the key is not complete. The number then goes to
the last step all the same, over an id that it may have had.
-/

namespace Quarry

namespace Key

/-- Every ancestor has its id. -/
def Anchored (k : Key) : Prop := ∀ s ∈ k.path.dropLast, s.id ≠ none

instance (k : Key) : Decidable k.Anchored :=
  inferInstanceAs (Decidable (∀ s ∈ k.path.dropLast, s.id ≠ none))

/-- The key has the namespace of the one given, its kinds step by step, and every id that it has. -/
structure Extends (given k : Key) : Prop where
  space : k.space = given.space
  steps : List.Forall₂ (fun g s => s.kind = g.kind ∧ ∀ id, g.id = some id → s.id = some id)
    given.path k.path

/-- What becomes of a key that is given for an entity to be stored. -/
structure Filed (given k : Key) : Prop where
  space : k.space = given.space
  kinds : k.path.map Step.kind = given.path.map Step.kind
  ancestors : k.path.dropLast = given.path.dropLast
  complete_iff : k.isComplete = true ↔ given.Anchored
  extends_of_anchored : given.Anchored → given.Extends k
  numbered : ¬ given.Anchored → ∃ n, k.id? = some (.number n)

variable {k : Key}

theorem Extends.refl (k : Key) : k.Extends k :=
  ⟨rfl, List.forall₂_same.2 fun _ _ => ⟨rfl, fun _ hid => hid⟩⟩

/-! ## Completion -/

theorem completeWith_concat (space : Option String) (steps : List Step) (last : Step) (id : KeyId) :
    (Key.mk space (steps ++ [last])).completeWith id =
      ⟨space, steps ++ [{ last with id := some id }]⟩ := by
  simp [completeWith]

theorem isComplete_concat_iff (space : Option String) (steps : List Step) (last : Step) :
    (Key.mk space (steps ++ [last])).isComplete = true ↔
      (∀ s ∈ steps, s.id ≠ none) ∧ last.id ≠ none := by
  simp [isComplete, Option.isSome_iff_ne_none]

theorem anchored_concat_iff (space : Option String) (steps : List Step) (last : Step) :
    (Key.mk space (steps ++ [last])).Anchored ↔ ∀ s ∈ steps, s.id ≠ none := by
  rw [Anchored, List.dropLast_concat]

theorem filed_of_isComplete (h : k.isComplete = true) : Filed k k := by
  have hanchored : k.Anchored := by
    obtain ⟨space, path⟩ := k
    rcases List.eq_nil_or_concat path with rfl | ⟨steps, last, rfl⟩
    · cases h
    · rw [List.concat_eq_append] at h ⊢
      rw [anchored_concat_iff]
      exact ((isComplete_concat_iff space steps last).1 h).1
  exact {
    space := rfl
    kinds := rfl
    ancestors := rfl
    complete_iff := iff_of_true h hanchored
    extends_of_anchored := fun _ => .refl k
    numbered := fun hnot => absurd hanchored hnot }

/-- A key that lacks an id gets the number on its last step, and the other steps stay. -/
theorem filed_completeWith (hpath : k.path ≠ []) (h : k.isComplete = false) (n : Int64) :
    Filed k (k.completeWith (.number n)) := by
  have hid := id?_completeWith hpath (.number n)
  obtain ⟨space, path⟩ := k
  obtain ⟨steps, last, rfl⟩ := List.eq_nil_or_concat path |>.resolve_left hpath
  rw [List.concat_eq_append] at *
  rw [completeWith_concat] at *
  refine ⟨rfl, ?_, ?_, ?_, ?_, fun _ => ⟨n, hid⟩⟩
  · simp
  · simp
  · rw [isComplete_concat_iff, anchored_concat_iff]
    exact and_iff_left (Option.some_ne_none _)
  · intro hanchored
    -- The ancestors have their ids, so it is the last step that lacks one.
    have hlast : last.id = none := by
      by_contra hlast
      have hcomplete := (isComplete_concat_iff space steps last).2
        ⟨(anchored_concat_iff space steps last).1 hanchored, hlast⟩
      rw [hcomplete] at h
      cases h
    refine ⟨rfl, List.rel_append (List.forall₂_same.2 fun _ _ => ⟨rfl, fun _ hs => hs⟩) ?_⟩
    refine .cons ⟨rfl, ?_⟩ .nil
    intro id hsome
    rw [hlast] at hsome
    cases hsome

end Key

namespace Memory

variable {m : Memory}

/-! ## Storing -/

theorem exists_insert_filed (m : Memory) {e : Entity} (h : e.key.path ≠ []) :
    ∃ k m', m.insert e = (.ok k, m') ∧ e.key.Filed k := by
  cases hcomplete : e.key.isComplete with
  | true => exact ⟨_, _, insert_of_complete hcomplete, Key.filed_of_isComplete hcomplete⟩
  | false =>
      exact ⟨_, _, insert_of_incomplete h hcomplete, Key.filed_completeWith h hcomplete m.nextId⟩

theorem exists_insertAll_filed (m : Memory) {es : List Entity} (h : ∀ e ∈ es, e.key.path ≠ []) :
    ∃ ks m', m.insertAll es = (.ok ks, m') ∧
      List.Forall₂ (fun e k => e.key.Filed k) es ks := by
  induction es generalizing m with
  | nil => exact ⟨[], m, rfl, .nil⟩
  | cons e es ih =>
      obtain ⟨he, hes⟩ := List.forall_mem_cons.1 h
      obtain ⟨k, m₁, hinsert, hfiled⟩ := m.exists_insert_filed he
      obtain ⟨ks, m₂, hrest, hall⟩ := ih m₁ hes
      exact ⟨k :: ks, m₂, insertAll_cons_eq_ok.2 ⟨k, m₁, ks, hinsert, hrest, rfl⟩,
        .cons hfiled hall⟩

/-- **The keys that come back.** An entity whose key has a path is stored, inserted alone or saved
in a batch that is not to fail, and its key comes back with the namespace, the kinds and the
ancestors that were given. If the ancestors have their ids, the key is complete and has every id
that was given. If one of them has none, the key is not complete, and its last step has a number,
whatever was given. -/
theorem keys_of_stored (m : Memory) :
    (∀ e : Entity, e.key.path ≠ [] → ∃ k m', m.insert e = (.ok k, m') ∧ e.key.Filed k) ∧
      ∀ es : List Entity, (∀ e ∈ es, e.key.path ≠ []) → m.faults.writes = 0 →
        ∃ ks m', m.save es = (.ok ks, m') ∧ List.Forall₂ (fun e k => e.key.Filed k) es ks := by
  constructor
  · intro e h
    exact m.exists_insert_filed h
  · intro es h hfaults
    rw [save_of_no_faults hfaults]
    exact m.exists_insertAll_filed h

/-! ## A room in a house -/

/-- A room in a house, both under the ids that are given. -/
def room (house id : Option KeyId) : Entity := ⟨⟨none, [⟨"House", house⟩, ⟨"Room", id⟩]⟩, .empty⟩

/-- Of two rooms that are saved together, the one in a house that is known gets a complete key, and
the other one does not. -/
theorem keys_of_stored_rooms :
    ∃ (k₁ k₂ : Key) (m' : Memory),
      (empty none 10).save [room (some (.number 7)) none, room none (some (.name "attic"))] =
        (.ok [k₁, k₂], m') ∧
      k₁.isComplete = true ∧ (room (some (.number 7)) none).key.Extends k₁ ∧
      k₂.isComplete = false ∧ ∃ n, k₂.id? = some (.number n) := by
  obtain ⟨_, hsave⟩ := keys_of_stored (empty none 10)
  obtain ⟨ks, m', hrun, hfiled⟩ :=
    hsave [room (some (.number 7)) none, room none (some (.name "attic"))] (by decide) rfl
  obtain ⟨k₁, _, hone, hrest, rfl⟩ := List.forall₂_cons_left_iff.1 hfiled
  obtain ⟨k₂, _, htwo, hnil, rfl⟩ := List.forall₂_cons_left_iff.1 hrest
  cases hnil
  have hknown : (room (some (.number 7)) none).key.Anchored := by decide +kernel
  have hunknown : ¬ (room none (some (.name "attic"))).key.Anchored := by decide +kernel
  refine ⟨k₁, k₂, m', hrun, hone.complete_iff.2 hknown, hone.extends_of_anchored hknown, ?_,
    htwo.numbered hunknown⟩
  exact Bool.eq_false_iff.2 fun hcomplete => hunknown (htwo.complete_iff.1 hcomplete)

/-- A room with a name in a house without an id loses its name, and its key is not complete. -/
theorem insert_over_name :
    let k : Key := ⟨none, [⟨"House", none⟩, ⟨"Room", some (.number 1)⟩]⟩
    ((empty none 10).insert (room none (some (.name "attic")))).1 = .ok k ∧
      k.isComplete = false ∧ (room none (some (.name "attic"))).key.id? = some (.name "attic") ∧
      k.id? ≠ some (.name "attic") := by
  decide +kernel

end Memory

end Quarry
