/-
# Outcomes of methods

What a method does from a given state: it returns and a condition holds of what it returned
and left, or it fails with a given error. A sequence of steps is followed step by step, up to
the first step that fails.
-/

import Pari.Data.Stateful

namespace Data

variable {σ τ ε ε' α β : Type}

/-- Called in a state, the method returns, and the condition holds of its result and of the
state it leaves. -/
def Ensures (state : σ) (method : Method σ ε α) (post : α → σ → Prop) : Prop :=
  ∃ value state', call state method = (.ok value, state') ∧ post value state'

/-- Called in a state, the method fails with the error. -/
def Fails (state : σ) (method : Method σ ε α) (error : ε) : Prop :=
  (call state method).1 = .error error

variable {state : σ} {method : Method σ ε α} {next : α → Method σ ε β} {post : α → σ → Prop}

theorem Ensures.intro {value : α} {state' : σ} (h : call state method = (.ok value, state'))
    (hpost : post value state') : Ensures state method post :=
  ⟨value, state', h, hpost⟩

theorem Ensures.mono {weaker : α → σ → Prop} (h : Ensures state method post)
    (hweaker : ∀ value state', post value state' → weaker value state') :
    Ensures state method weaker := by
  obtain ⟨value, state', hrun, hpost⟩ := h
  exact ⟨value, state', hrun, hweaker value state' hpost⟩

/-- A sequence returns when each step does, from whatever the step before left. -/
theorem Ensures.bind {final : β → σ → Prop} (h : Ensures state method post)
    (hnext : ∀ value state', post value state' → Ensures state' (next value) final) :
    Ensures state (method >>= next) final := by
  obtain ⟨value, state', hrun, hpost⟩ := h
  obtain ⟨result, state'', hrest, hfinal⟩ := hnext value state' hpost
  exact ⟨result, state'', by rw [call_bind_ok hrun, hrest], hfinal⟩

theorem Ensures.pure {value : α} (h : post value state) :
    Ensures state (Pure.pure value : Method σ ε α) post :=
  ⟨value, state, rfl, h⟩

theorem Ensures.lift {value : α} (h : post value state) :
    Ensures state (Method.lift (.ok value) : Method σ ε α) post :=
  ⟨value, state, rfl, h⟩

/-- A check that passes changes nothing. -/
theorem Ensures.passes {condition : Prop} [Decidable condition] {error : ε} (h : ¬ condition) :
    Ensures state (Method.lift (rejectIf condition error) : Method σ ε Unit)
      fun _ state' => state = state' := by
  rw [rejectIf_of_not h]
  exact ⟨(), state, rfl, rfl⟩

theorem Ensures.read {view : σ → α} (h : post (view state) state) :
    Ensures state (Method.read view : Method σ ε α) post :=
  ⟨view state, state, rfl, h⟩

theorem Ensures.update {change : σ → σ} {final : Unit → σ → Prop} (h : final () (change state)) :
    Ensures state (Method.update change : Method σ ε Unit) final :=
  ⟨(), change state, rfl, h⟩

/-- What a component ensures, its owner ensures of the component. -/
theorem Ensures.onPart {part : σ → τ} {replace : τ → σ → σ} {convert : ε → ε'}
    {method : Method τ ε α} {post : α → τ → Prop} {final : α → σ → Prop}
    (h : Ensures (part state) method post)
    (hfinal : ∀ value part', post value part' → final value (replace part' state)) :
    Ensures state (method.onPart part replace convert) final := by
  obtain ⟨value, part', hrun, hpost⟩ := h
  refine ⟨value, replace part' state, ?_, hfinal value part' hpost⟩
  rw [call_onPart, hrun]
  rfl

/-! ## Failures -/

theorem Fails.bind {error : ε} (h : Fails state method error) :
    Fails state (method >>= next) error := by
  cases hrun : call state method with
  | mk result state' =>
      rw [Fails, hrun] at h
      change result = _ at h
      subst h
      rw [Fails, call_bind_error hrun]

/-- A sequence fails in the step after one that returned. -/
theorem Ensures.bind_fails {error : ε} (h : Ensures state method post)
    (hnext : ∀ value state', post value state' → Fails state' (next value) error) :
    Fails state (method >>= next) error := by
  obtain ⟨value, state', hrun, hpost⟩ := h
  rw [Fails, call_bind_ok hrun]
  exact hnext value state' hpost

theorem Fails.lift (error : ε) : Fails state (Method.lift (.error error) : Method σ ε α) error := rfl

theorem Fails.onPart {part : σ → τ} {replace : τ → σ → σ} {convert : ε → ε'} {error : ε}
    {method : Method τ ε α} (h : Fails (part state) method error) :
    Fails state (method.onPart part replace convert) (convert error) := by
  rw [Fails] at h
  rw [Fails, call_onPart, h]
  rfl

/-! ## Expectations -/

/-- `expect`: go on with what the method returned, or stop with a message. -/
def Method.expect (message : ε') (method : Method σ ε α) : Method σ ε' α :=
  method.onPart id (fun state _ => state) fun _ => message

/-- `Result::expect_err`. -/
def expectedError (message : ε') : Except ε α → Except ε' ε
  | .ok _ => .error message
  | .error error => .ok error

/-- `expect_err`: go on with the error of the method, or stop with a message. -/
def Method.expectError (message : ε') (method : Method σ ε α) : Method σ ε' ε := fun state =>
  (expectedError message (call state method).1, (call state method).2)

theorem Ensures.expect {message : ε'} (h : Ensures state method post) :
    Ensures state (method.expect message) post :=
  h.onPart fun _ _ hpost => hpost

theorem Ensures.expectError {message : ε'} {error : ε} {state' : σ} {final : ε → σ → Prop}
    (h : call state method = (.error error, state')) (hfinal : final error state') :
    Ensures state (method.expectError message) final := by
  refine ⟨error, state', ?_, hfinal⟩
  show (expectedError message (call state method).1, (call state method).2) = _
  rw [h]
  rfl

/-! ## Shadows -/

/-- Through a view of the state the method behaves as another one: it returns the same up to a
conversion, and leaves the same state. -/
def Shadows (view : σ → τ) (convert : α → β) (method : Method σ ε α) (shadow : Method τ ε β) : Prop :=
  ∀ state, (call state method).1.map convert = (call (view state) shadow).1 ∧
    view (call state method).2 = (call (view state) shadow).2

section Shadows

variable {view : σ → τ} {γ δ : Type} {convert : α → β} {shadow : Method τ ε β}
  {convert' : γ → δ} {next : α → Method σ ε γ}

theorem Shadows.bind (h : Shadows view convert method shadow) (next' : β → Method τ ε δ)
    (hnext : ∀ value, Shadows view convert' (next value) (next' (convert value))) :
    Shadows view convert' (method >>= next) (shadow >>= next') := by
  intro state
  obtain ⟨hresult, hstate⟩ := h state
  cases hrun : call state method with
  | mk result state' =>
      cases hshadow : call (view state) shadow with
      | mk result' state'' =>
          rw [hrun, hshadow] at hresult hstate
          subst hstate
          cases result with
          | error error =>
              change Except.error error = result' at hresult
              subst hresult
              rw [call_bind_error hrun, call_bind_error hshadow]
              exact ⟨rfl, rfl⟩
          | ok value =>
              change Except.ok (convert value) = result' at hresult
              subst hresult
              rw [call_bind_ok hrun, call_bind_ok hshadow]
              exact hnext value state'

/-- Changes that the view does not show may follow a method. -/
theorem Shadows.andUpdate (h : Shadows view convert method shadow)
    {change : α → σ → σ} (hchange : ∀ value state, view (change value state) = view state) :
    Shadows view convert
      (method >>= fun value => Method.update (change value) >>= fun _ => Pure.pure value) shadow := by
  have hnext (value : α) : Shadows view convert
      (Method.update (change value) >>= fun _ => Pure.pure value : Method σ ε α)
      (Pure.pure (convert value) : Method τ ε β) := fun state => ⟨rfl, hchange value state⟩
  have hbind := h.bind (fun value => Pure.pure value) hnext
  rwa [bind_pure] at hbind

end Shadows

end Data
