import Quarry.Session

/-!
# Running actions

An action run from a session ends with a result or a failure and leaves a session. The laws below
say it for each way of building an action, so that no proof has to open the monad.
-/

namespace Quarry

namespace Action

variable {σ ε φ α β : Type}

/-- How an action ends, and the session it leaves. -/
def exec (x : Action σ ε α) (w : Session σ) : Except ε α × Session σ := x.run.run w

@[simp] theorem exec_pure (a : α) (w : Session σ) :
    (pure a : Action σ ε α).exec w = (.ok a, w) := rfl

@[simp] theorem exec_throw (e : ε) (w : Session σ) :
    (throw e : Action σ ε α).exec w = (.error e, w) := rfl

theorem exec_bind (x : Action σ ε α) (f : α → Action σ ε β) (w : Session σ) :
    (x >>= f).exec w =
      match x.exec w with
      | (.ok a, w) => (f a).exec w
      | (.error e, w) => (.error e, w) := by
  show (match x.exec w with | (r, w) => (ExceptT.bindCont f r).run w) = _
  cases x.exec w with
  | mk r w => cases r <;> rfl

theorem exec_bind_ok {x : Action σ ε α} {f : α → Action σ ε β} {w w' : Session σ} {a : α}
    (h : x.exec w = (.ok a, w')) : (x >>= f).exec w = (f a).exec w' := by
  rw [exec_bind, h]

theorem exec_bind_error {x : Action σ ε α} {f : α → Action σ ε β} {w w' : Session σ} {e : ε}
    (h : x.exec w = (.error e, w')) : (x >>= f).exec w = (.error e, w') := by
  rw [exec_bind, h]

/-- What an action returns may be wrapped up. -/
theorem exec_bind_pure (x : Action σ ε α) (f : α → β) (w : Session σ) :
    (x >>= fun a => pure (f a)).exec w = ((x.exec w).1.map f, (x.exec w).2) := by
  cases hexec : x.exec w with
  | mk r w' =>
      cases r with
      | error e => exact exec_bind_error hexec
      | ok a => exact exec_bind_ok hexec

/-- Two actions in a row succeed if the first does, and then the second. -/
theorem exec_bind_eq_ok {x : Action σ ε α} {f : α → Action σ ε β} {w w' : Session σ} {b : β} :
    (x >>= f).exec w = (.ok b, w') ↔
      ∃ a w₁, x.exec w = (.ok a, w₁) ∧ (f a).exec w₁ = (.ok b, w') := by
  rw [exec_bind]
  constructor
  · intro h
    cases hexec : x.exec w with
    | mk r w₁ =>
        rw [hexec] at h
        cases r with
        | error e => cases h
        | ok a => exact ⟨a, w₁, rfl, h⟩
  · rintro ⟨a, w₁, hexec, h⟩
    rw [hexec]
    exact h

/-- Two actions in a row fail if the first does, or then the second. -/
theorem exec_bind_eq_error {x : Action σ ε α} {f : α → Action σ ε β} {w w' : Session σ} {e : ε}
    (h : (x >>= f).exec w = (.error e, w')) :
    x.exec w = (.error e, w') ∨
      ∃ a w₁, x.exec w = (.ok a, w₁) ∧ (f a).exec w₁ = (.error e, w') := by
  rw [exec_bind] at h
  cases hexec : x.exec w with
  | mk r w₁ =>
      rw [hexec] at h
      cases r with
      | error e =>
          cases h
          exact .inl rfl
      | ok a => exact .inr ⟨a, w₁, rfl, h⟩

/-- What leaves the store alone may follow. -/
theorem store_exec_bind {x : Action σ ε α} {f : α → Action σ ε β}
    (hf : ∀ a w, ((f a).exec w).2.store = w.store) (w : Session σ) :
    ((x >>= f).exec w).2.store = (x.exec w).2.store := by
  rw [exec_bind]
  cases hexec : x.exec w with
  | mk r w' =>
      cases r with
      | error e => rfl
      | ok a => exact hf a w'

@[simp] theorem exec_report (severity : Severity) (event : Event) (fields : LineFields)
    (w : Session σ) :
    (report severity event fields : Action σ ε Unit).exec w =
      (.ok (), { w with journal := w.journal ++ [⟨severity, event, fields⟩] }) := rfl

@[simp] theorem exec_count (c : Counter) (n : Nat) (w : Session σ) :
    (count c n : Action σ ε Unit).exec w =
      (.ok (), { w with metrics := w.metrics.add c (.ofNat n) }) := rfl

@[simp] theorem exec_inquire (f : σ → α) (w : Session σ) :
    (inquire f : Action σ ε α).exec w = (.ok (f w.store), w) := rfl

@[simp] theorem exec_onStore (f : σ → α × σ) (w : Session σ) :
    (onStore f : Action σ ε α).exec w = (.ok (f w.store).1, { w with store := (f w.store).2 }) :=
  rfl

@[simp] theorem exec_attempt (f : σ → Except φ α × σ) (w : Session σ) :
    (attempt f).exec w = ((f w.store).1, { w with store := (f w.store).2 }) := by
  rw [attempt, exec_bind, exec_onStore]
  cases (f w.store).1 <;> rfl

@[simp] theorem exec_outcome (x : Action σ ε α) (w : Session σ) :
    (outcome x : Action σ φ (Except ε α)).exec w = (.ok (x.exec w).1, (x.exec w).2) := rfl

@[simp] theorem exec_ofExcept (wrap : φ → ε) (r : Except φ α) (w : Session σ) :
    (ofExcept wrap r : Action σ ε α).exec w = (r.mapError wrap, w) := by
  cases r <;> rfl

theorem exec_ofExcept_eq_ok {wrap : φ → ε} {r : Except φ α} {w w' : Session σ} {a : α}
    (h : (ofExcept wrap r : Action σ ε α).exec w = (.ok a, w')) : r = .ok a ∧ w' = w := by
  rw [exec_ofExcept] at h
  cases r with
  | error e => cases h
  | ok b =>
      cases h
      exact ⟨rfl, rfl⟩

@[simp] theorem exec_adapt (x : Action σ ε α) (wrap : ε → φ) (w : Session σ) :
    Action.exec (x.adapt wrap) w = ((x.exec w).1.mapError wrap, (x.exec w).2) := rfl

theorem exec_adapt_eq_ok {x : Action σ ε α} {wrap : ε → φ} {w w' : Session σ} {a : α}
    (h : Action.exec (x.adapt wrap) w = (.ok a, w')) : x.exec w = (.ok a, w') := by
  rw [exec_adapt] at h
  cases hexec : x.exec w with
  | mk r w₁ =>
      rw [hexec] at h
      cases r with
      | error e => cases h
      | ok b =>
          cases h
          rfl

theorem exec_orElseDo (x : Action σ ε α) (after : ε → Action σ ε Unit) (w : Session σ) :
    (x.orElseDo after).exec w =
      match x.exec w with
      | (.ok a, w) => (.ok a, w)
      | (.error e, w) => (do after e; throw e : Action σ ε α).exec w := by
  unfold exec orElseDo
  rw [ExceptT.run_tryCatch, StateT.run_bind]
  show (match x.run.run w with | (r, w) => _) = _
  cases x.run.run w with
  | mk r w => cases r <;> rfl

theorem exec_orElseDo_ok {x : Action σ ε α} {after : ε → Action σ ε Unit} {w w' : Session σ} {a : α}
    (h : x.exec w = (.ok a, w')) : (x.orElseDo after).exec w = (.ok a, w') := by
  rw [exec_orElseDo, h]

end Action

end Quarry
