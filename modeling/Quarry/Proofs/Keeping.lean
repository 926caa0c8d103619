import Quarry.Journal.Scope
import Quarry.Proofs.Running

/-!
# What actions keep

An action keeps an invariant of the store if it does so however it ends, and then something may be
known of its result. The laws below say it for each way of building an action. They serve where it
is not known that an action succeeds. An action that writes may keep an invariant only if it fails.
-/

namespace Quarry

namespace Action

variable {σ ε φ α β : Type} {J : σ → Prop}

/-- From every store of `J` the action leaves a store of `J`, and its result, if there is one,
satisfies `Q`. -/
def Keeps (J : σ → Prop) (x : Action σ ε α) (Q : α → Prop) : Prop :=
  ∀ w, J w.store → J (x.exec w).2.store ∧ ∀ a, (x.exec w).1 = .ok a → Q a

/-! ## Single actions -/

theorem keeps_pure {Q : α → Prop} {a : α} (h : Q a) : Keeps J (pure a : Action σ ε α) Q := by
  intro w hw
  refine ⟨hw, ?_⟩
  rintro _ ⟨⟩
  exact h

theorem keeps_throw {Q : α → Prop} (e : ε) : Keeps J (throw e : Action σ ε α) Q := by
  intro w hw
  refine ⟨hw, ?_⟩
  rintro _ ⟨⟩

/-- An action that leaves the store alone. -/
theorem keeps_of_store {x : Action σ ε α} (h : ∀ w, (x.exec w).2.store = w.store) :
    Keeps J x fun _ => True := by
  intro w hw
  rw [h w]
  exact ⟨hw, fun _ _ => trivial⟩

theorem keeps_true (x : Action σ ε α) : Keeps (fun _ => True) x fun _ => True :=
  fun _ _ => ⟨trivial, fun _ _ => trivial⟩

theorem keeps_report (severity : Severity) (event : Event) (fields : LineFields) :
    Keeps J (report severity event fields : Action σ ε Unit) fun _ => True :=
  keeps_of_store fun _ => rfl

theorem keeps_count (c : Counter) (n : Nat) :
    Keeps J (count c n : Action σ ε Unit) fun _ => True :=
  keeps_of_store fun _ => rfl

theorem keeps_inquire (f : σ → α) :
    Keeps J (inquire f : Action σ ε α) fun a => ∃ s, J s ∧ a = f s := by
  intro w hw
  refine ⟨hw, ?_⟩
  rintro _ ⟨⟩
  exact ⟨w.store, hw, rfl⟩

theorem keeps_onStore {f : σ → α × σ} {Q : α → Prop} (h : ∀ s, J s → J (f s).2 ∧ Q (f s).1) :
    Keeps J (onStore f : Action σ ε α) Q := by
  intro w hw
  obtain ⟨hstore, hresult⟩ := h w.store hw
  refine ⟨hstore, ?_⟩
  rintro _ ⟨⟩
  exact hresult

theorem keeps_attempt {f : σ → Except φ α × σ} {Q : α → Prop}
    (h : ∀ s, J s → J (f s).2 ∧ ∀ a, (f s).1 = .ok a → Q a) : Keeps J (attempt f) Q := by
  intro w hw
  rw [exec_attempt]
  exact h w.store hw

theorem keeps_ofExcept (wrap : φ → ε) (r : Except φ α) :
    Keeps J (ofExcept wrap r : Action σ ε α) fun a => r = .ok a := by
  intro w hw
  rw [exec_ofExcept]
  refine ⟨hw, ?_⟩
  intro a ha
  cases r with
  | error e => cases ha
  | ok b =>
      cases ha
      rfl

/-! ## Composed actions -/

namespace Keeps

variable {x : Action σ ε α} {P Q : α → Prop}

theorem mono (hx : Keeps J x P) (h : ∀ a, P a → Q a) : Keeps J x Q := by
  intro w hw
  exact ⟨(hx w hw).1, fun a ha => h a ((hx w hw).2 a ha)⟩

theorem bind {f : α → Action σ ε β} {R : β → Prop} (hx : Keeps J x P)
    (hf : ∀ a, P a → Keeps J (f a) R) : Keeps J (x >>= f) R := by
  intro w hw
  obtain ⟨hstore, hresult⟩ := hx w hw
  cases hexec : x.exec w with
  | mk r w' =>
      rw [hexec] at hstore hresult
      cases r with
      | error e =>
          rw [exec_bind_error hexec]
          refine ⟨hstore, ?_⟩
          rintro _ ⟨⟩
      | ok a =>
          rw [exec_bind_ok hexec]
          exact hf a (hresult a rfl) w' hstore

theorem adapt (hx : Keeps J x Q) (wrap : ε → φ) :
    Keeps J (ExceptT.adapt wrap x : Action σ φ α) Q := by
  intro w hw
  obtain ⟨hstore, hresult⟩ := hx w hw
  refine ⟨hstore, ?_⟩
  intro a ha
  refine hresult a ?_
  rw [exec_adapt] at ha
  cases h : (x.exec w).1 with
  | error e =>
      rw [h] at ha
      cases ha
  | ok b =>
      rw [h] at ha
      cases ha
      rfl

theorem outcome (hx : Keeps J x Q) :
    Keeps J (outcome x : Action σ φ (Except ε α)) fun r => ∀ a, r = .ok a → Q a := by
  intro w hw
  obtain ⟨hstore, hresult⟩ := hx w hw
  refine ⟨hstore, ?_⟩
  rintro _ ⟨⟩
  exact hresult

theorem orElseDo {after : ε → Action σ ε Unit} (hx : Keeps J x Q)
    (hafter : ∀ e, Keeps J (after e) fun _ => True) : Keeps J (x.orElseDo after) Q := by
  intro w hw
  obtain ⟨hstore, hresult⟩ := hx w hw
  rw [exec_orElseDo]
  cases hexec : x.exec w with
  | mk r w' =>
      rw [hexec] at hstore hresult
      cases r with
      | error e =>
          have hthrow : Keeps J (do after e; throw e : Action σ ε α) Q :=
            (hafter e).bind fun _ _ => keeps_throw e
          exact hthrow w' hstore
      | ok a => exact ⟨hstore, hresult⟩

end Keeps

theorem keeps_forM {as : List α} {f : α → Action σ ε Unit}
    (h : ∀ a ∈ as, Keeps J (f a) fun _ => True) : Keeps J (as.forM f) fun _ => True := by
  induction as with
  | nil => exact keeps_pure trivial
  | cons a as ih =>
      have hrest := ih fun b hb => h b (List.mem_cons_of_mem a hb)
      exact (h a List.mem_cons_self).bind fun _ _ => hrest

/-! ## Actions that fail -/

/-- The action comes to its end from any session. -/
def Succeeds (x : Action σ ε α) : Prop := ∀ w, ∃ a w', x.exec w = (.ok a, w')

theorem succeeds_pure (a : α) : Succeeds (pure a : Action σ ε α) := fun w => ⟨a, w, rfl⟩

/-- From every store of `J` the action fails, if it does, with a failure and a store of `K`. -/
def FailsInto (J : σ → Prop) (x : Action σ ε α) (K : ε → σ → Prop) : Prop :=
  ∀ w e w', J w.store → x.exec w = (.error e, w') → K e w'.store

/-- Behind an action that keeps the invariant, the failures of the next count as well. -/
theorem FailsInto.bind {x : Action σ ε α} {f : α → Action σ ε β} {P : α → Prop}
    {K : ε → σ → Prop} (hx : Keeps J x P) (hfails : FailsInto J x K)
    (hf : ∀ a, P a → FailsInto J (f a) K) : FailsInto J (x >>= f) K := by
  intro w e w' hw hexec
  rcases exec_bind_eq_error hexec with hfirst | ⟨a, w₁, hfirst, hrest⟩
  · exact hfails w e w' hw hfirst
  · obtain ⟨hstore, hresult⟩ := hx w hw
    rw [hfirst] at hstore hresult
    exact hf a (hresult a rfl) w₁ e w' hstore hrest

/-- What cannot fail may follow, whatever it does. -/
theorem FailsInto.bind_succeeds {x : Action σ ε α} {f : α → Action σ ε β} {K : ε → σ → Prop}
    (hx : FailsInto J x K) (hf : ∀ a, Succeeds (f a)) : FailsInto J (x >>= f) K := by
  intro w e w' hw hexec
  rcases exec_bind_eq_error hexec with hfirst | ⟨a, w₁, _, hrest⟩
  · exact hx w e w' hw hfirst
  · obtain ⟨b, w₂, hok⟩ := hf a w₁
    rw [hok] at hrest
    cases hrest

/-- From every store of `J` the action leaves a store of `J`, if it fails. -/
def KeepsIfFails (J : σ → Prop) (x : Action σ ε α) : Prop :=
  ∀ w e w', J w.store → x.exec w = (.error e, w') → J w'.store

theorem Keeps.ifFails {x : Action σ ε α} {Q : α → Prop} (hx : Keeps J x Q) : KeepsIfFails J x := by
  intro w e w' hw hexec
  have hstore := (hx w hw).1
  rwa [hexec] at hstore

/-- Behind an action that keeps the invariant, only the failures of the next count. -/
theorem Keeps.bindIfFails {x : Action σ ε α} {f : α → Action σ ε β} {P : α → Prop}
    (hx : Keeps J x P) (hf : ∀ a, P a → KeepsIfFails J (f a)) : KeepsIfFails J (x >>= f) :=
  FailsInto.bind (K := fun _ => J) hx hx.ifFails hf

theorem KeepsIfFails.bind {x : Action σ ε α} {f : α → Action σ ε β} (hx : KeepsIfFails J x)
    (hf : ∀ a, Succeeds (f a)) : KeepsIfFails J (x >>= f) :=
  FailsInto.bind_succeeds (K := fun _ => J) hx hf

/-! ## Failures -/

/-- From every store of `J` the action fails with nothing but failures of `F`. -/
def Throws (J : σ → Prop) (x : Action σ ε α) (F : ε → Prop) : Prop :=
  FailsInto J x fun e _ => F e

section Throwing

variable {F : ε → Prop}

theorem throws_throw {e : ε} (h : F e) : Throws J (throw e : Action σ ε α) F := by
  rintro w _ w' _ ⟨⟩
  exact h

theorem Succeeds.throws {x : Action σ ε α} (h : Succeeds x) : Throws J x F := by
  intro w e w' _ hexec
  obtain ⟨a, w₁, hok⟩ := h w
  rw [hok] at hexec
  cases hexec

theorem throws_ofExcept {wrap : φ → ε} {r : Except φ α} (h : ∀ e, r = .error e → F (wrap e)) :
    Throws J (ofExcept wrap r : Action σ ε α) F := by
  intro w e w' _ hexec
  rw [exec_ofExcept] at hexec
  cases r with
  | ok a => cases hexec
  | error e =>
      cases hexec
      exact h e rfl

theorem throws_adapt (x : Action σ φ α) {wrap : φ → ε} (h : ∀ e, F (wrap e)) :
    Throws J (ExceptT.adapt wrap x : Action σ ε α) F := by
  intro w e w' _ hexec
  rw [exec_adapt] at hexec
  cases hr : (x.exec w).1 with
  | ok a =>
      rw [hr] at hexec
      cases hexec
  | error e =>
      rw [hr] at hexec
      cases hexec
      exact h e

theorem Throws.bind {x : Action σ ε α} {f : α → Action σ ε β} {P : α → Prop} (hx : Keeps J x P)
    (hthrows : Throws J x F) (hf : ∀ a, P a → Throws J (f a) F) : Throws J (x >>= f) F :=
  FailsInto.bind hx hthrows hf

theorem Throws.bind_succeeds {x : Action σ ε α} {f : α → Action σ ε β} (hx : Throws J x F)
    (hf : ∀ a, Succeeds (f a)) : Throws J (x >>= f) F :=
  FailsInto.bind_succeeds hx hf

theorem Throws.orElseDo {x : Action σ ε α} {after : ε → Action σ ε Unit} (hx : Throws J x F)
    (hafter : ∀ e, Succeeds (after e)) : Throws J (x.orElseDo after) F := by
  intro w e w' hw hexec
  rw [exec_orElseDo] at hexec
  cases hfirst : x.exec w with
  | mk r w₁ =>
      rw [hfirst] at hexec
      cases r with
      | ok a => cases hexec
      | error e₁ =>
          obtain ⟨_, w₂, hok⟩ := hafter e₁ w₁
          simp only [exec_bind_ok hok] at hexec
          cases hexec
          exact hx w e w₁ hw hfirst

end Throwing

end Action

/-! ## Scopes -/

namespace Scope

open Quarry.Action

variable {σ ε : Type} {J : σ → Prop}

theorem keeps_enter (events : ScopeEvents) (fields : LineFields) :
    Keeps J (enter events fields : Action σ ε Scope) fun _ => True := by
  refine keeps_of_store ?_
  intro w
  cases h : events.opened <;> simp only [enter, h] <;> rfl

theorem keeps_fail (s : Scope) (reason : String) :
    Keeps J (s.fail reason : Action σ ε Unit) fun _ => True :=
  keeps_of_store fun _ => rfl

theorem keeps_abandon (s : Scope) : Keeps J (s.abandon : Action σ ε Unit) fun _ => True :=
  keeps_of_store fun _ => rfl

end Scope

end Quarry
