import Mathlib.Data.List.Forall2

/-!
# Computations that can fail

A sequence of computations succeeds exactly when each of them does. Where the faults of each are
known in their order, the sequence fails with the first of all.
-/

namespace Quarry

variable {ε α β : Type}

theorem bind_eq_ok {x : Except ε α} {f : α → Except ε β} {b : β} :
    x >>= f = .ok b ↔ ∃ a, x = .ok a ∧ f a = .ok b := by
  cases x with
  | error e => simp [bind, Except.bind]
  | ok a => simp [bind, Except.bind]

theorem map_eq_ok {x : Except ε α} {f : α → β} {b : β} :
    x.map f = .ok b ↔ ∃ a, x = .ok a ∧ f a = b := by
  cases x with
  | error e => simp [Except.map]
  | ok a => simp [Except.map]

theorem map_eq_error {x : Except ε α} {f : α → β} {e : ε} :
    x.map f = .error e ↔ x = .error e := by
  cases x with
  | error e => simp [Except.map]
  | ok a => simp [Except.map]

theorem map_map {γ : Type} (f : α → β) (g : β → γ) (x : Except ε α) :
    (x.map f).map g = x.map fun a => g (f a) := by
  cases x <;> rfl

theorem mapM_eq_ok {f : α → Except ε β} {as : List α} {bs : List β} :
    as.mapM f = .ok bs ↔ List.Forall₂ (fun a b => f a = .ok b) as bs := by
  induction as generalizing bs with
  | nil =>
      rw [List.mapM_nil, List.forall₂_nil_left_iff]
      constructor
      · intro h
        cases h
        rfl
      · rintro rfl
        rfl
  | cons a as ih =>
      rw [List.mapM_cons, bind_eq_ok, List.forall₂_cons_left_iff]
      constructor
      · rintro ⟨b, hb, h⟩
        obtain ⟨rest, hrest, h⟩ := bind_eq_ok.mp h
        cases h
        exact ⟨b, rest, hb, ih.mp hrest, rfl⟩
      · rintro ⟨b, rest, hb, hrest, rfl⟩
        refine ⟨b, hb, ?_⟩
        rw [ih.mpr hrest]
        rfl

theorem mapM_map {γ : Type} (f : α → Except ε β) (g : β → γ) (as : List α) :
    (as.mapM fun a => (f a).map g) = (as.mapM f).map (List.map g) := by
  induction as with
  | nil => rfl
  | cons a as ih =>
      rw [List.mapM_cons, List.mapM_cons, ih]
      cases f a with
      | error e => rfl
      | ok b => cases as.mapM f <;> rfl

theorem exists_of_mem_right {R : α → β → Prop} {as : List α} {bs : List β}
    (h : List.Forall₂ R as bs) {b : β} (hb : b ∈ bs) : ∃ a ∈ as, R a b := by
  induction h with
  | nil => cases hb
  | cons hr _ ih =>
      rcases List.mem_cons.mp hb with rfl | hb
      · exact ⟨_, List.mem_cons_self, hr⟩
      · obtain ⟨a, ha, hr⟩ := ih hb
        exact ⟨a, List.mem_cons_of_mem _ ha, hr⟩

theorem exists_of_mem_left {R : α → β → Prop} {as : List α} {bs : List β}
    (h : List.Forall₂ R as bs) {a : α} (ha : a ∈ as) : ∃ b ∈ bs, R a b := by
  obtain ⟨b, hb, hr⟩ := exists_of_mem_right (List.Forall₂.flip h) ha
  exact ⟨b, hb, hr⟩

/-! ## Faults in order -/

/-- The computation succeeds if there are no faults, and otherwise fails with the first one. -/
def Reports (x : Except ε α) (faults : List ε) : Prop :=
  match x with
  | .ok _ => faults = []
  | .error e => faults.head? = some e

theorem reports_ok (a : α) : Reports (.ok a : Except ε α) [] := rfl

namespace Reports

variable {x : Except ε α} {faults others : List ε}

theorem ok_iff (h : Reports x faults) : (∃ a, x = .ok a) ↔ faults = [] := by
  cases x with
  | ok a => exact ⟨fun _ => h, fun _ => ⟨a, rfl⟩⟩
  | error e =>
      constructor
      · rintro ⟨_, ⟨⟩⟩
      · rintro rfl
        cases h

theorem error_iff (h : Reports x faults) {e : ε} : x = .error e ↔ faults.head? = some e := by
  cases x with
  | ok a =>
      obtain rfl : faults = [] := h
      constructor
      · rintro ⟨⟩
      · rintro ⟨⟩
  | error e' =>
      rw [Except.error.injEq, show faults.head? = some e' from h, Option.some.injEq]

theorem map (h : Reports x faults) (f : α → β) : Reports (x.map f) faults := by
  cases x with
  | ok a => exact h
  | error e => exact h

/-- What comes later is reported behind what comes first. -/
theorem bind {f : α → Except ε β} (h : Reports x faults)
    (hf : ∀ a, x = .ok a → Reports (f a) others) : Reports (x >>= f) (faults ++ others) := by
  cases x with
  | ok a =>
      obtain rfl : faults = [] := h
      exact hf a rfl
  | error e =>
      show (faults ++ others).head? = some e
      rw [List.head?_append, show faults.head? = some e from h]
      rfl

end Reports

theorem reports_mapM {f : α → Except ε β} {faults : α → List ε} {as : List α}
    (h : ∀ a ∈ as, Reports (f a) (faults a)) : Reports (as.mapM f) (as.flatMap faults) := by
  induction as with
  | nil => exact reports_ok []
  | cons a as ih =>
      have hrest := ih fun b hb => h b (List.mem_cons_of_mem a hb)
      rw [List.mapM_cons, List.flatMap_cons]
      apply (h a List.mem_cons_self).bind
      intro b _
      exact hrest.map (b :: ·)

/-! ## Two computations -/

/-- Both computations succeed, with related results, or both fail. -/
inductive Both (R : α → β → Prop) : Except ε α → Except ε β → Prop
  | ok {a : α} {b : β} (h : R a b) : Both R (.ok a) (.ok b)
  | error (e e' : ε) : Both R (.error e) (.error e')

namespace Both

theorem refl {R : α → α → Prop} (hR : ∀ a, R a a) (x : Except ε α) : Both R x x := by
  cases x with
  | ok a => exact .ok (hR a)
  | error e => exact .error e e

theorem trans {R : α → α → Prop} (hR : ∀ {a b c}, R a b → R b c → R a c) {x y z : Except ε α}
    (h : Both R x y) (h' : Both R y z) : Both R x z := by
  cases h with
  | ok hab =>
      cases h' with
      | ok hbc => exact .ok (hR hab hbc)
  | error e e' =>
      cases h' with
      | error e' e'' => exact .error e e''

variable {γ δ : Type} {R : α → β → Prop} {Q : γ → δ → Prop} {x : Except ε α} {y : Except ε β}

theorem map {f : α → γ} {g : β → δ} (h : Both R x y) (hf : ∀ a b, R a b → Q (f a) (g b)) :
    Both Q (x.map f) (y.map g) := by
  cases h with
  | ok hab => exact .ok (hf _ _ hab)
  | error e e' => exact .error e e'

theorem bind {f : α → Except ε γ} {g : β → Except ε δ} (h : Both R x y)
    (hf : ∀ a b, R a b → Both Q (f a) (g b)) : Both Q (x >>= f) (y >>= g) := by
  cases h with
  | ok hab => exact hf _ _ hab
  | error e e' => exact .error e e'

theorem ok_iff (h : Both R x y) : (∃ a, x = .ok a) ↔ ∃ b, y = .ok b := by
  cases h with
  | ok hab => exact ⟨fun _ => ⟨_, rfl⟩, fun _ => ⟨_, rfl⟩⟩
  | error e e' =>
      constructor
      · rintro ⟨_, ⟨⟩⟩
      · rintro ⟨_, ⟨⟩⟩

theorem of_ok {a : α} {b : β} (h : Both R (.ok a : Except ε α) (.ok b)) : R a b := by
  cases h with
  | ok hab => exact hab

theorem mapM {f : γ → Except ε α} {g : δ → Except ε β} {cs : List γ} {ds : List δ}
    (h : List.Forall₂ (fun c d => Both R (f c) (g d)) cs ds) :
    Both (List.Forall₂ R) (cs.mapM f) (ds.mapM g) := by
  induction h with
  | nil => exact .ok .nil
  | cons hcd _ ih =>
      rw [List.mapM_cons, List.mapM_cons]
      exact hcd.bind fun a b hab => ih.bind fun as bs habs => .ok (.cons hab habs)

/-- In another order, a sequence has the same results in another order. -/
theorem mapM_of_perm (f : γ → Except ε α) {cs ds : List γ} (h : cs.Perm ds) :
    Both List.Perm (cs.mapM f) (ds.mapM f) := by
  induction h with
  | nil => exact .ok .nil
  | cons c _ ih =>
      rw [List.mapM_cons, List.mapM_cons]
      refine (refl (fun _ => rfl) (f c)).bind ?_
      rintro a _ rfl
      exact ih.bind fun as bs habs => .ok (habs.cons a)
  | swap c d cs =>
      simp only [List.mapM_cons]
      cases f c with
      | error e => cases f d <;> exact .error _ _
      | ok a =>
          cases f d with
          | error e => exact .error _ _
          | ok b =>
              cases cs.mapM f with
              | error e => exact .error _ _
              | ok as => exact .ok (.swap a b as)
  | trans _ _ ih ih' => exact trans (R := List.Perm) List.Perm.trans ih ih'

end Both

end Quarry
