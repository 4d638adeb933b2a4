/-
# Fallible straight-line code

Early returns, checked machine arithmetic and narrowing conversions, as the
`Except` steps they are. The success lemmas are stated as equivalences, so that
a hypothesis that a whole computation succeeded splits into the successes of its
steps, and a goal that it succeeds is closed by rewriting each step.
-/

import Mathlib.Data.UInt
import Mathlib.Logic.Basic

namespace Data

universe u v

variable {ε ε' : Type u} {α β : Type v}

/-- `if condition { return Err(error) }`. -/
def rejectIf {ε : Type u} (condition : Prop) [Decidable condition] (error : ε) :
    Except ε Unit :=
  if condition then .error error else .ok ()

/-- `value.ok_or(error)`. -/
def okOr (value : Option α) (error : ε) : Except ε α :=
  match value with
  | some result => .ok result
  | none => .error error

/-- A result is as described: its value if it has one, and its error otherwise. -/
abbrev Outcome {ε : Type u} {α : Type v} (result : Except ε α) (value : α → Prop)
    (failure : ε → Prop) : Prop :=
  match result with
  | .ok result => value result
  | .error error => failure error

@[simp]
theorem rejectIf_eq_ok_iff {condition : Prop} [Decidable condition] {error : ε} {result : Unit} :
    rejectIf condition error = .ok result ↔ ¬ condition := by
  by_cases h : condition <;> simp [rejectIf, h]

theorem rejectIf_of_not {condition : Prop} [Decidable condition] {error : ε}
    (h : ¬ condition) : rejectIf condition error = .ok () :=
  rejectIf_eq_ok_iff.mpr h

@[simp]
theorem okOr_eq_ok_iff {value : Option α} {error : ε} {result : α} :
    okOr value error = .ok result ↔ value = some result := by
  cases value <;> simp [okOr]

@[simp]
theorem okOr_some (result : α) (error : ε) : okOr (some result) error = .ok result := rfl

/-- A sequenced computation succeeds exactly when both halves do. -/
@[simp]
theorem bind_eq_ok_iff {first : Except ε α} {next : α → Except ε β} {result : β} :
    (first >>= next) = .ok result ↔ ∃ value, first = .ok value ∧ next value = .ok result := by
  cases first with
  | error error => simp [bind, Except.bind]
  | ok value => simp [bind, Except.bind]

@[simp]
theorem ok_bind (value : α) (next : α → Except ε β) :
    ((Except.ok value : Except ε α) >>= next) = next value := rfl

@[simp]
theorem error_bind (error : ε) (next : α → Except ε β) :
    (Except.error error >>= next) = Except.error error := rfl

@[simp]
theorem pure_eq_ok_iff {value result : α} :
    (pure value : Except ε α) = .ok result ↔ value = result := by
  simp [pure, Except.pure]

theorem eq_ok_get {result : Except ε α} (h : result.toOption.isSome = true) :
    result = .ok (result.toOption.get h) := by
  cases result with
  | error error => cases h
  | ok value => rfl

@[simp]
theorem mapError_eq_ok_iff {convert : ε → ε'} {first : Except ε α} {result : α} :
    first.mapError convert = .ok result ↔ first = .ok result := by
  cases first <;> simp [Except.mapError]

@[simp]
theorem mapError_ok (convert : ε → ε') (result : α) :
    (Except.ok result : Except ε α).mapError convert = .ok result := rfl

/-- A sequenced computation is as described if its halves are, one after the other. -/
theorem outcome_bind {first : Except ε α} {next : α → Except ε β} {before : α → Prop}
    {after : β → Prop} {failure : ε → Prop} (h : Outcome first before failure)
    (hnext : ∀ value, before value → Outcome (next value) after failure) :
    Outcome (first >>= next) after failure := by
  cases first with
  | error error => exact h
  | ok value => exact hnext value h

theorem outcome_of_ok {result : Except ε α} {value : α} {after : α → Prop} {failure : ε → Prop}
    (h : result = .ok value) (hvalue : after value) : Outcome result after failure := by
  rw [h]
  exact hvalue

theorem outcome_okOr {value : Option α} {error : ε} :
    Outcome (okOr value error) (fun _ => True) (· = error) := by
  cases value with
  | none => exact rfl
  | some result => trivial

/-- A loop fails only as its turns do. -/
theorem outcome_foldlM {σ : Type v} {γ : Type*} {step : σ → γ → Except ε σ} {items : List γ}
    {start : σ} {failure : ε → Prop}
    (h : ∀ state item, Outcome (step state item) (fun _ => True) failure) :
    Outcome (items.foldlM step start) (fun _ => True) failure := by
  induction items generalizing start with
  | nil => trivial
  | cons item items ih =>
      rw [List.foldlM_cons]
      exact outcome_bind (h start item) fun _ _ => ih

/-- Related lists: every element on the left has a partner on the right. -/
theorem exists_right_of_forall₂ {γ δ : Type*} {r : γ → δ → Prop} {left : List γ} {right : List δ}
    (h : List.Forall₂ r left right) {a : γ} (ha : a ∈ left) : ∃ b ∈ right, r a b := by
  induction h with
  | nil => cases ha
  | @cons a' b' left right hab _ ih =>
      rcases List.mem_cons.mp ha with rfl | ha
      · exact ⟨b', List.mem_cons_self, hab⟩
      · obtain ⟨b, hb, hrel⟩ := ih ha
        exact ⟨b, List.mem_cons_of_mem b' hb, hrel⟩

/-- Related lists: every element on the right has a partner on the left. -/
theorem exists_left_of_forall₂ {γ δ : Type*} {r : γ → δ → Prop} {left : List γ} {right : List δ}
    (h : List.Forall₂ r left right) {b : δ} (hb : b ∈ right) : ∃ a ∈ left, r a b :=
  exists_right_of_forall₂ h.flip hb

theorem forall₂_of_map_eq {γ δ ζ : Type*} {f : γ → ζ} {g : δ → ζ} {left : List γ} {right : List δ}
    (h : left.map f = right.map g) : List.Forall₂ (fun a b => f a = g b) left right := by
  have hsame : List.Forall₂ (· = ·) (left.map f) (right.map g) := by
    rw [h, List.forall₂_same]
    exact fun _ _ => rfl
  exact List.forall₂_map_right_iff.mp (List.forall₂_map_left_iff.mp hsame)

/-- Related lists stay related under a weaker relation on their elements. -/
theorem forall₂_imp_of_mem {γ δ : Type*} {r s : γ → δ → Prop} {left : List γ} {right : List δ}
    (h : List.Forall₂ r left right) (himp : ∀ a ∈ left, ∀ b ∈ right, r a b → s a b) :
    List.Forall₂ s left right := by
  induction h with
  | nil => exact .nil
  | cons hab _ ih =>
      exact .cons (himp _ List.mem_cons_self _ List.mem_cons_self hab) (ih fun a ha b hb =>
        himp a (List.mem_cons_of_mem _ ha) b (List.mem_cons_of_mem _ hb))

/-- A traversal succeeds exactly when every step does, in order. -/
theorem mapM_eq_ok_iff {step : α → Except ε β} {items : List α} {results : List β} :
    items.mapM step = .ok results ↔
      List.Forall₂ (fun item result => step item = .ok result) items results := by
  induction items generalizing results with
  | nil => simp [pure, Except.pure, eq_comm]
  | cons item items ih =>
      simp only [List.mapM_cons, bind_eq_ok_iff, pure_eq_ok_iff, ih, List.forall₂_cons_left_iff]
      constructor
      · rintro ⟨first, hfirst, rest, hrest, rfl⟩
        exact ⟨first, rest, hfirst, hrest, rfl⟩
      · rintro ⟨first, rest, hfirst, hrest, rfl⟩
        exact ⟨first, hfirst, rest, hrest, rfl⟩

theorem mapM_eq_ok_map {step : α → Except ε β} {items : List α} {compute : α → β}
    (h : ∀ item ∈ items, step item = .ok (compute item)) :
    items.mapM step = .ok (items.map compute) := by
  rw [mapM_eq_ok_iff, List.forall₂_map_right_iff, List.forall₂_same]
  exact h

/-- A traversal depends only on the steps at its items. -/
theorem mapM_congr_of_mem {step other : α → Except ε β} {items : List α}
    (h : ∀ item ∈ items, other item = step item) : items.mapM other = items.mapM step := by
  induction items with
  | nil => rfl
  | cons item items ih =>
      rw [List.forall_mem_cons] at h
      rw [List.mapM_cons, List.mapM_cons, h.1, ih h.2]

/-- A loop whose turns begin with a check of the item succeeds exactly when every item passes
and the loop without the check succeeds. -/
theorem foldlM_rejectIf_eq_ok_iff {σ : Type} {γ : Type*} {bad : γ → Prop} [DecidablePred bad]
    {error : ε} {step : σ → γ → Except ε σ} {items : List γ} {start result : σ} :
    items.foldlM (fun state item => do rejectIf (bad item) error; step state item) start =
        .ok result ↔
      (∀ item ∈ items, ¬ bad item) ∧ items.foldlM step start = .ok result := by
  induction items generalizing start with
  | nil => simp
  | cons item items ih =>
      simp only [List.foldlM_cons, bind_eq_ok_iff, rejectIf_eq_ok_iff, exists_const, ih,
        List.forall_mem_cons]
      constructor
      · rintro ⟨next, ⟨hitem, hstep⟩, hitems, hrest⟩
        exact ⟨⟨hitem, hitems⟩, next, hstep, hrest⟩
      · rintro ⟨⟨hitem, hitems⟩, next, hstep, hrest⟩
        exact ⟨next, ⟨hitem, hstep⟩, hitems, hrest⟩

/-- A traversal whose steps each fail or agree with another fails or agrees with the other. -/
theorem mapM_error_or_eq {step other : α → Except ε β} {items : List α}
    (h : ∀ item ∈ items, (∃ error, step item = .error error) ∨ step item = other item) :
    (∃ error, items.mapM step = .error error) ∨ items.mapM step = items.mapM other := by
  induction items with
  | nil => exact Or.inr rfl
  | cons item items ih =>
      rw [List.forall_mem_cons] at h
      rw [List.mapM_cons, List.mapM_cons]
      rcases h.1 with ⟨error, herror⟩ | heq
      · exact Or.inl ⟨error, by rw [herror, error_bind]⟩
      · rw [← heq]
        cases step item with
        | error error => exact Or.inl ⟨error, error_bind error _⟩
        | ok value =>
            rw [ok_bind, ok_bind]
            rcases ih h.2 with ⟨error, herror⟩ | hrest
            · exact Or.inl ⟨error, by rw [herror, error_bind]⟩
            · exact Or.inr (by rw [hrest])

/-- Whether a computation returned `Ok`. -/
def succeeds (computation : Except ε α) : Prop := ∃ result, computation = .ok result

/-- A traversal succeeds if every step does. -/
theorem exists_mapM {step : α → Except ε β} {items : List α}
    (h : ∀ item ∈ items, succeeds (step item)) : succeeds (items.mapM step) := by
  induction items with
  | nil => exact ⟨[], rfl⟩
  | cons item items ih =>
      rw [List.forall_mem_cons] at h
      obtain ⟨value, hvalue⟩ := h.1
      obtain ⟨values, hvalues⟩ := ih h.2
      exact ⟨value :: values, by rw [List.mapM_cons, hvalue, ok_bind, hvalues]; rfl⟩

/-! ## Checked 64-bit arithmetic -/

/-- `left.checked_add(right)` on a 64-bit unsigned integer. -/
def checkedAdd (left right : Nat) : Option Nat :=
  if left + right < 2 ^ 64 then some (left + right) else none

/-- `left.checked_mul(right)` on a 64-bit unsigned integer. -/
def checkedMul (left right : Nat) : Option Nat :=
  if left * right < 2 ^ 64 then some (left * right) else none

@[simp]
theorem checkedAdd_eq_some_iff {left right total : Nat} :
    checkedAdd left right = some total ↔ left + right < 2 ^ 64 ∧ left + right = total := by
  simp [checkedAdd]

@[simp]
theorem checkedMul_eq_some_iff {left right total : Nat} :
    checkedMul left right = some total ↔ left * right < 2 ^ 64 ∧ left * right = total := by
  simp [checkedMul]

theorem checkedAdd_of_lt {left right : Nat} (h : left + right < 2 ^ 64) :
    checkedAdd left right = some (left + right) :=
  checkedAdd_eq_some_iff.mpr ⟨h, rfl⟩

theorem checkedMul_of_lt {left right : Nat} (h : left * right < 2 ^ 64) :
    checkedMul left right = some (left * right) :=
  checkedMul_eq_some_iff.mpr ⟨h, rfl⟩

/-- `u32::try_from(value)`. -/
def tryU32 (value : Nat) : Option UInt32 :=
  if value < 2 ^ 32 then some (UInt32.ofNat value) else none

/-- `u64::try_from(value)`. -/
def tryU64 (value : Nat) : Option UInt64 :=
  if value < 2 ^ 64 then some (UInt64.ofNat value) else none

theorem tryU32_of_lt {value : Nat} (h : value < 2 ^ 32) :
    tryU32 value = some (UInt32.ofNat value) := if_pos h

theorem tryU64_of_lt {value : Nat} (h : value < 2 ^ 64) :
    tryU64 value = some (UInt64.ofNat value) := if_pos h

@[simp]
theorem tryU32_eq_some_iff {value : Nat} {word : UInt32} :
    tryU32 value = some word ↔ value < 2 ^ 32 ∧ UInt32.ofNat value = word := by
  simp [tryU32]

@[simp]
theorem tryU64_eq_some_iff {value : Nat} {word : UInt64} :
    tryU64 value = some word ↔ value < 2 ^ 64 ∧ UInt64.ofNat value = word := by
  simp [tryU64]

theorem toNat_ofNat32 {value : Nat} (h : value < 2 ^ 32) : (UInt32.ofNat value).toNat = value :=
  UInt32.toNat_ofNat_of_lt' h

theorem toNat_ofNat64 {value : Nat} (h : value < 2 ^ 64) : (UInt64.ofNat value).toNat = value :=
  UInt64.toNat_ofNat_of_lt' h

end Data
