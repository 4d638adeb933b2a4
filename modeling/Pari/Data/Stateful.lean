/-
# Fallible methods

A method reads and changes a state and may return early with an error; the changes made
by then stay. Running a method on a state gives what it returned and the state it left.
-/

import Pari.Data.Result

namespace Data

/-- A method on states `σ` with errors `ε`: `fn method(&mut self) -> Result<α, ε>`. -/
abbrev Method (σ ε α : Type) : Type := ExceptT ε (StateM σ) α

variable {σ τ ε ε' α β : Type}

/-- Call a method: what it returned, and the state it left. -/
def call (state : σ) (method : Method σ ε α) : Except ε α × σ := method.run state

namespace Method

/-- A step that neither reads nor changes the state. -/
def lift (result : Except ε α) : Method σ ε α := fun state => (result, state)

/-- A step that cannot fail. -/
def step (change : σ → α × σ) : Method σ ε α := fun state =>
  ((.ok (change state).1), (change state).2)

/-- Read the state. -/
def read (view : σ → α) : Method σ ε α := step fun state => (view state, state)

/-- Read the state, or fail for what it is. -/
def tryRead (view : σ → Except ε α) : Method σ ε α := fun state => (view state, state)

/-- Change the state. -/
def update (change : σ → σ) : Method σ ε Unit := step fun state => ((), change state)

/-- A method of a component, called by its owner. -/
def onPart (part : σ → τ) (replace : τ → σ → σ) (convert : ε → ε') (method : Method τ ε α) :
    Method σ ε' α := fun state =>
  (((call (part state) method).1.mapError convert), replace (call (part state) method).2 state)

end Method

open Method

variable {state state' : σ} {method : Method σ ε α} {next : α → Method σ ε β}

@[simp]
theorem call_pure (value : α) :
    call state (pure value : Method σ ε α) = (.ok value, state) := rfl

@[simp]
theorem call_lift (result : Except ε α) :
    call state (lift result : Method σ ε α) = (result, state) := rfl

@[simp]
theorem call_step (change : σ → α × σ) :
    call state (step change : Method σ ε α) = (.ok (change state).1, (change state).2) := rfl

@[simp]
theorem call_read (view : σ → α) :
    call state (read view : Method σ ε α) = (.ok (view state), state) := rfl

@[simp]
theorem call_tryRead (view : σ → Except ε α) :
    call state (tryRead view) = (view state, state) := rfl

@[simp]
theorem call_update (change : σ → σ) :
    call state (update change : Method σ ε Unit) = (.ok (), change state) := rfl

@[simp]
theorem call_onPart (part : σ → τ) (replace : τ → σ → σ) (convert : ε → ε')
    (method : Method τ ε α) :
    call state (method.onPart part replace convert) =
      ((call (part state) method).1.mapError convert,
        replace (call (part state) method).2 state) := rfl

/-- A method goes on after a step that returned. -/
theorem call_bind_ok {value : α} (h : call state method = (.ok value, state')) :
    call state (method >>= next) = call state' (next value) := by
  rw [call, ExceptT.run] at h
  simp only [call, ExceptT.run, bind, ExceptT.bind, ExceptT.mk, StateT.bind, h]
  rfl

/-- A method returns the error of a step that failed, and leaves its state. -/
theorem call_bind_error {error : ε} (h : call state method = (.error error, state')) :
    call state (method >>= next) = (.error error, state') := by
  rw [call, ExceptT.run] at h
  simp only [call, ExceptT.run, bind, ExceptT.bind, ExceptT.mk, StateT.bind, h]
  rfl

@[simp]
theorem call_lift_ok_bind (value : α) :
    call state ((lift (.ok value) : Method σ ε α) >>= next) = call state (next value) := rfl

@[simp]
theorem call_lift_error_bind (error : ε) :
    call state ((lift (.error error) : Method σ ε α) >>= next) = (.error error, state) := rfl

/-- A step that succeeds without a state is the value it gives. -/
theorem Method.lift_ok_bind (value : α) (next : α → Method σ ε β) :
    ((lift (.ok value) : Method σ ε α) >>= next) = next value := rfl

@[simp]
theorem call_read_bind {α' : Type} (view : σ → α') (next : α' → Method σ ε β) :
    call state ((read view : Method σ ε α') >>= next) = call state (next (view state)) := rfl

@[simp]
theorem call_update_bind (change : σ → σ) (next : Unit → Method σ ε β) :
    call state ((update change : Method σ ε Unit) >>= next) = call (change state) (next ()) := rfl

/-- A loop whose turns return runs through. -/
theorem call_forM_ok {items : List α} {body : α → Method σ ε Unit} {change : σ → α → σ}
    (h : ∀ item ∈ items, ∀ state, call state (body item) = (.ok (), change state item)) :
    call state (items.forM body) = (.ok (), items.foldl change state) := by
  induction items generalizing state with
  | nil => rfl
  | cons item items ih =>
      rw [List.forall_mem_cons] at h
      show call state (body item >>= fun _ => items.forM body) = _
      rw [call_bind_ok (h.1 state), ih h.2, List.foldl_cons]

/-- A list of readings. -/
theorem call_mapM_ok {items : List α} {body : α → Method σ ε β} {compute : α → β}
    (h : ∀ item ∈ items, call state (body item) = (.ok (compute item), state)) :
    call state (items.mapM body) = (.ok (items.map compute), state) := by
  induction items with
  | nil => rfl
  | cons item items ih =>
      rw [List.forall_mem_cons] at h
      rw [List.mapM_cons, call_bind_ok h.1, call_bind_ok (ih h.2), call_pure, List.map_cons]

/-! ## Methods that change nothing -/

/-- The method leaves every state as it finds it. -/
def Method.ReadOnly (method : Method σ ε α) : Prop := ∀ state, (call state method).2 = state

theorem Method.ReadOnly.pure (value : α) : (Pure.pure value : Method σ ε α).ReadOnly := fun _ => rfl

theorem Method.ReadOnly.lift (result : Except ε α) : (lift result : Method σ ε α).ReadOnly :=
  fun _ => rfl

theorem Method.ReadOnly.read (view : σ → α) : (read view : Method σ ε α).ReadOnly := fun _ => rfl

theorem Method.ReadOnly.tryRead (view : σ → Except ε α) : (tryRead view).ReadOnly := fun _ => rfl

theorem Method.ReadOnly.bind (h : method.ReadOnly) (hnext : ∀ value, (next value).ReadOnly) :
    (method >>= next).ReadOnly := by
  intro state
  have hstate := h state
  cases hrun : call state method with
  | mk result state' =>
      rw [hrun] at hstate
      subst hstate
      cases result with
      | error error => rw [call_bind_error hrun]
      | ok value => rw [call_bind_ok hrun, hnext value]

/-- What returns without an error, step by step. -/
theorem call_bind_eq_ok_iff {result : β} {state'' : σ} :
    call state (method >>= next) = (.ok result, state'') ↔
      ∃ value state', call state method = (.ok value, state') ∧
        call state' (next value) = (.ok result, state'') := by
  constructor
  · intro h
    cases hrun : call state method with
    | mk first state' =>
        cases first with
        | error error =>
            rw [call_bind_error hrun] at h
            cases h
        | ok value =>
            rw [call_bind_ok hrun] at h
            exact ⟨value, state', rfl, h⟩
  · rintro ⟨value, state', hrun, hnext⟩
    rw [call_bind_ok hrun, hnext]

end Data
