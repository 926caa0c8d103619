import Quarry.Proofs.Keeping

/-!
# Actions that end alike

Two actions on stores that are related end alike if they have the same result or the same failure,
write the same journal and the same counters, and leave stores that are related again. The laws
below say it for each way of building an action. Only what is asked of a store may tell the two
apart.
-/

namespace Quarry

namespace Action

variable {σ ε φ α β : Type} {R : σ → σ → Prop}

/-- From related stores both actions end alike, with a result of `Q` if there is one. -/
def Alike (R : σ → σ → Prop) (x y : Action σ ε α) (Q : α → Prop) : Prop :=
  ∀ w s, R w.store s → ∃ r w' s', x.exec w = (r, w') ∧
    y.exec { w with store := s } = (r, { w' with store := s' }) ∧ R w'.store s' ∧
    ∀ a, r = .ok a → Q a

/-! ## Single actions -/

theorem alike_pure {Q : α → Prop} {a : α} (h : Q a) :
    Alike R (pure a : Action σ ε α) (pure a) Q := by
  intro w s hs
  refine ⟨.ok a, w, s, rfl, rfl, hs, ?_⟩
  rintro _ ⟨⟩
  exact h

theorem alike_throw {Q : α → Prop} (e : ε) : Alike R (throw e : Action σ ε α) (throw e) Q := by
  intro w s hs
  refine ⟨.error e, w, s, rfl, rfl, hs, ?_⟩
  rintro _ ⟨⟩

/-- An action that neither looks at the store nor changes it. -/
theorem alike_of_blind {x : Action σ ε α} (h : ∀ w s, x.exec { w with store := s } =
    ((x.exec w).1, { (x.exec w).2 with store := s })) : Alike R x x fun _ => True := by
  intro w s hs
  have hself : (x.exec w).2.store = w.store := (congrArg (fun p => p.2.store) (h w w.store) :)
  refine ⟨(x.exec w).1, (x.exec w).2, s, rfl, h w s, ?_, fun _ _ => trivial⟩
  rwa [hself]

theorem alike_report (severity : Severity) (event : Event) (fields : LineFields) :
    Alike R (report severity event fields : Action σ ε Unit) (report severity event fields)
      fun _ => True :=
  alike_of_blind fun _ _ => rfl

theorem alike_count (c : Counter) (n : Nat) :
    Alike R (count c n : Action σ ε Unit) (count c n) fun _ => True :=
  alike_of_blind fun _ _ => rfl

theorem alike_ofExcept (wrap : φ → ε) (r : Except φ α) :
    Alike R (ofExcept wrap r : Action σ ε α) (ofExcept wrap r) fun a => r = .ok a := by
  cases r with
  | ok a => exact alike_pure rfl
  | error e => exact alike_throw _

theorem alike_onStore {f : σ → α × σ} {Q : α → Prop}
    (h : ∀ s t, R s t → (f t).1 = (f s).1 ∧ R (f s).2 (f t).2 ∧ Q (f s).1) :
    Alike R (onStore f : Action σ ε α) (onStore f) Q := by
  intro w s hs
  obtain ⟨hsame, hrelated, hresult⟩ := h _ _ hs
  refine ⟨.ok (f w.store).1, { w with store := (f w.store).2 }, (f s).2, rfl, ?_, hrelated, ?_⟩
  · rw [exec_onStore, hsame]
  · rintro _ ⟨⟩
    exact hresult

theorem alike_attempt {f : σ → Except φ α × σ} {Q : α → Prop}
    (h : ∀ s t, R s t → (f t).1 = (f s).1 ∧ R (f s).2 (f t).2 ∧ ∀ a, (f s).1 = .ok a → Q a) :
    Alike R (attempt f) (attempt f) Q := by
  intro w s hs
  obtain ⟨hsame, hrelated, hresult⟩ := h _ _ hs
  refine ⟨(f w.store).1, { w with store := (f w.store).2 }, (f s).2, ?_, ?_, hrelated, hresult⟩
  · rw [exec_attempt]
  · rw [exec_attempt, hsame]

/-- The actions may go on with different answers to what they ask of their stores. -/
theorem alike_inquire_bind {f : σ → β} {g h : β → Action σ ε α} {Q : α → Prop}
    (hgh : ∀ s t, R s t → Alike R (g (f s)) (h (f t)) Q) :
    Alike R (inquire f >>= g) (inquire f >>= h) Q := by
  intro w s hs
  rw [exec_bind_ok (exec_inquire f w), exec_bind_ok (exec_inquire f _)]
  exact hgh _ _ hs w s hs

/-! ## Composed actions -/

namespace Alike

variable {x y : Action σ ε α} {P Q : α → Prop}

theorem mono (h : Alike R x y P) (hPQ : ∀ a, P a → Q a) : Alike R x y Q := by
  intro w s hs
  obtain ⟨r, w', s', hx, hy, hs', hP⟩ := h w s hs
  exact ⟨r, w', s', hx, hy, hs', fun a ha => hPQ a (hP a ha)⟩

theorem bind {f g : α → Action σ ε β} {S : β → Prop} (h : Alike R x y P)
    (hfg : ∀ a, P a → Alike R (f a) (g a) S) : Alike R (x >>= f) (y >>= g) S := by
  intro w s hs
  obtain ⟨r, w', s', hx, hy, hs', hP⟩ := h w s hs
  cases r with
  | error e =>
      rw [exec_bind_error hx, exec_bind_error hy]
      refine ⟨.error e, w', s', rfl, rfl, hs', ?_⟩
      rintro _ ⟨⟩
  | ok a =>
      rw [exec_bind_ok hx, exec_bind_ok hy]
      exact hfg a (hP a rfl) w' s' hs'

theorem adapt (h : Alike R x y Q) (wrap : ε → φ) :
    Alike R (ExceptT.adapt wrap x : Action σ φ α) (ExceptT.adapt wrap y) Q := by
  intro w s hs
  obtain ⟨r, w', s', hx, hy, hs', hQ⟩ := h w s hs
  refine ⟨r.mapError wrap, w', s', ?_, ?_, hs', ?_⟩
  · rw [exec_adapt, hx]
  · rw [exec_adapt, hy]
  · intro a ha
    cases r with
    | error e => cases ha
    | ok b =>
        cases ha
        exact hQ _ rfl

theorem outcome (h : Alike R x y Q) :
    Alike R (outcome x : Action σ φ (Except ε α)) (outcome y) fun r => ∀ a, r = .ok a → Q a := by
  intro w s hs
  obtain ⟨r, w', s', hx, hy, hs', hQ⟩ := h w s hs
  refine ⟨.ok r, w', s', ?_, ?_, hs', ?_⟩
  · rw [exec_outcome, hx]
  · rw [exec_outcome, hy]
  · rintro _ ⟨⟩
    exact hQ

theorem orElseDo {after : ε → Action σ ε Unit} (h : Alike R x y Q)
    (hafter : ∀ e, Alike R (after e) (after e) fun _ => True) :
    Alike R (x.orElseDo after) (y.orElseDo after) Q := by
  intro w s hs
  obtain ⟨r, w', s', hx, hy, hs', hQ⟩ := h w s hs
  rw [exec_orElseDo, exec_orElseDo, hx, hy]
  cases r with
  | error e =>
      have hthrow : Alike R (do after e; throw e : Action σ ε α) (do after e; throw e) Q :=
        (hafter e).bind fun _ _ => alike_throw e
      exact hthrow w' s' hs'
  | ok a => exact ⟨.ok a, w', s', rfl, rfl, hs', hQ⟩

/-- More may be known of where the actions start, and no less than is asked for of where they
end. -/
theorem refine_store (R' : σ → σ → σ → σ → Prop) (hself : ∀ s t, R s t → R' s t s t)
    (hend : ∀ s t s' t', R s t → R' s t s' t' → R s' t')
    (h : ∀ s t, R s t → Alike (R' s t) x y Q) : Alike R x y Q := by
  intro w s hs
  obtain ⟨r, w', s', hx, hy, hs', hQ⟩ := h _ _ hs w s (hself _ _ hs)
  exact ⟨r, w', s', hx, hy, hend _ _ _ _ hs hs', hQ⟩

/-- What is known of the result of one of the two holds of that of the other. -/
theorem keeps {J J' : σ → Prop} (h : Alike R x y P) (hy : Keeps J' y Q)
    (hJ : ∀ s, J s → ∃ t, R s t ∧ J' t) (hR : ∀ s t, R s t → J s) : Keeps J x Q := by
  intro w hw
  obtain ⟨t, hrelated, ht⟩ := hJ _ hw
  obtain ⟨r, w', s', hx, hy', hs', _⟩ := h w t hrelated
  have hresult := (hy { w with store := t } ht).2
  rw [hy'] at hresult
  rw [hx]
  exact ⟨hR _ _ hs', hresult⟩

/-- What one of the two keeps adds to what is known of the result of both. -/
theorem and_keeps {J : σ → Prop} (h : Alike R x y P) (hx : Keeps J x Q)
    (hJ : ∀ s t, R s t → J s) : Alike R x y fun a => P a ∧ Q a := by
  intro w s hs
  obtain ⟨r, w', s', hexec, hy, hs', hP⟩ := h w s hs
  have hresult := (hx w (hJ _ _ hs)).2
  rw [hexec] at hresult
  exact ⟨r, w', s', hexec, hy, hs', fun a ha => ⟨hP a ha, hresult a ha⟩⟩

end Alike

theorem alike_forM {as : List α} {f : α → Action σ ε Unit}
    (h : ∀ a ∈ as, Alike R (f a) (f a) fun _ => True) :
    Alike R (as.forM f) (as.forM f) fun _ => True := by
  induction as with
  | nil => exact alike_pure trivial
  | cons a as ih =>
      have hrest := ih fun b hb => h b (List.mem_cons_of_mem a hb)
      exact (h a List.mem_cons_self).bind fun _ _ => hrest

end Action

/-! ## Scopes -/

namespace Scope

open Quarry.Action

variable {σ ε : Type} {R : σ → σ → Prop}

theorem alike_enter (events : ScopeEvents) (fields : LineFields) :
    Alike R (enter events fields : Action σ ε Scope) (enter events fields) fun _ => True := by
  apply alike_of_blind
  intro w s
  cases h : events.opened <;> simp only [enter, h] <;> rfl

theorem alike_complete (scope : Scope) (more : LineFields) :
    Alike R (scope.complete more : Action σ ε Unit) (scope.complete more) fun _ => True :=
  alike_of_blind fun _ _ => rfl

theorem alike_fail (scope : Scope) (reason : String) :
    Alike R (scope.fail reason : Action σ ε Unit) (scope.fail reason) fun _ => True :=
  alike_of_blind fun _ _ => rfl

theorem alike_abandon (scope : Scope) :
    Alike R (scope.abandon : Action σ ε Unit) scope.abandon fun _ => True :=
  alike_of_blind fun _ _ => rfl

end Scope

end Quarry
