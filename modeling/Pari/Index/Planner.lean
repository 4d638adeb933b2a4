/-
# Size estimates

The planner multiplies out what an index of a size would take, and reports an overflow where a
step does not fit a word. The step that can overflow although every reported estimate fits is the
one that triples a size before halving it.
-/

import Mathlib.Algebra.Order.Floor.Div
import Mathlib.Tactic.Ring
import Pari.Index.LshIndex

namespace Pari.Index

open Data

/-- Errors returned by the planner. -/
inductive LshPlanError
  | invalidExpectedItems (expectedItems : UInt64)
  | invalidMemoryBudget (bytes : UInt64)
  | invalidStorageMode (value : String)
  | lsh (error : LshError)
  | estimateOverflow
  deriving DecidableEq, Repr

def externalKeyBytes : Nat := 8
def bandHashAndMembershipBytes : Nat := 16
def inMemoryBaseBytesPerItem : Nat := 64
def inMemoryBytesPerBandItem : Nat := 112
def persistentBytesPerBandItem : Nat := 48
def persistentFixedBytes : Nat := 736
def lazyResidentBytesPerBandItem : Nat := 56
def memoryHeadroomNumerator : Nat := 3
def memoryHeadroomDenominator : Nat := 2

/-- Modeled byte counts. -/
structure LshSizeEstimates where
  signatureBytesPerItem : Nat
  signatureBytes : Nat
  indexMetadataBytesPerItem : Nat
  indexMetadataBytes : Nat
  inMemoryIndexBytesPerItem : Nat
  inMemoryIndexBytes : Nat
  persistentIndexBytesPerItem : Nat
  persistentIndexBytes : Nat
  lazyResidentBytesPerItem : Nat
  lazyResidentBytes : Nat
  inMemoryWithHeadroomBytes : Nat
  lazyWithHeadroomBytes : Nat
  deriving DecidableEq, Repr

/-- Every reported byte count. -/
def LshSizeEstimates.fields (sizes : LshSizeEstimates) : List Nat :=
  [sizes.signatureBytesPerItem, sizes.signatureBytes, sizes.indexMetadataBytesPerItem,
    sizes.indexMetadataBytes, sizes.inMemoryIndexBytesPerItem, sizes.inMemoryIndexBytes,
    sizes.persistentIndexBytesPerItem, sizes.persistentIndexBytes, sizes.lazyResidentBytesPerItem,
    sizes.lazyResidentBytes, sizes.inMemoryWithHeadroomBytes, sizes.lazyWithHeadroomBytes]

def plannedMul (left right : Nat) : Except LshPlanError Nat :=
  okOr (checkedMul left right) .estimateOverflow

def plannedAdd (left right : Nat) : Except LshPlanError Nat :=
  okOr (checkedAdd left right) .estimateOverflow

def withHeadroom (bytes : Nat) : Except LshPlanError Nat := do
  let scaled ← plannedMul bytes memoryHeadroomNumerator
  return scaled ⌈/⌉ memoryHeadroomDenominator

def sizeEstimates (expectedItems numPerm bands minhashValueBytes : Nat) :
    Except LshPlanError LshSizeEstimates := do
  let signatureBytesPerItem ← plannedMul numPerm minhashValueBytes
  let indexMetadataBytesPerItem ←
    plannedAdd externalKeyBytes (← plannedMul bands bandHashAndMembershipBytes)
  let inMemoryIndexBytesPerItem ←
    plannedAdd inMemoryBaseBytesPerItem (← plannedMul bands inMemoryBytesPerBandItem)
  let persistentIndexBytesPerItem ←
    plannedAdd externalKeyBytes (← plannedMul bands persistentBytesPerBandItem)
  let lazyResidentBytesPerItem ←
    plannedAdd externalKeyBytes (← plannedMul bands lazyResidentBytesPerBandItem)
  let inMemoryIndexBytes ← plannedMul expectedItems inMemoryIndexBytesPerItem
  let lazyResidentBytes ← plannedMul expectedItems lazyResidentBytesPerItem
  let signatureBytes ← plannedMul expectedItems signatureBytesPerItem
  let indexMetadataBytes ← plannedMul expectedItems indexMetadataBytesPerItem
  let persistentIndexBytes ←
    plannedAdd persistentFixedBytes (← plannedMul expectedItems persistentIndexBytesPerItem)
  let inMemoryWithHeadroomBytes ← withHeadroom inMemoryIndexBytes
  let lazyWithHeadroomBytes ← withHeadroom lazyResidentBytes
  return {
    signatureBytesPerItem, signatureBytes, indexMetadataBytesPerItem, indexMetadataBytes
    inMemoryIndexBytesPerItem, inMemoryIndexBytes, persistentIndexBytesPerItem
    persistentIndexBytes, lazyResidentBytesPerItem, lazyResidentBytes, inMemoryWithHeadroomBytes
    lazyWithHeadroomBytes }

/-- The formulas of the estimates, over unbounded integers. -/
def exactSizes (expectedItems numPerm bands minhashValueBytes : Nat) : LshSizeEstimates where
  signatureBytesPerItem := numPerm * minhashValueBytes
  signatureBytes := expectedItems * (numPerm * minhashValueBytes)
  indexMetadataBytesPerItem := 8 + bands * 16
  indexMetadataBytes := expectedItems * (8 + bands * 16)
  inMemoryIndexBytesPerItem := 64 + bands * 112
  inMemoryIndexBytes := expectedItems * (64 + bands * 112)
  persistentIndexBytesPerItem := 8 + bands * 48
  persistentIndexBytes := 736 + expectedItems * (8 + bands * 48)
  lazyResidentBytesPerItem := 8 + bands * 56
  lazyResidentBytes := expectedItems * (8 + bands * 56)
  inMemoryWithHeadroomBytes := (3 * (expectedItems * (64 + bands * 112))) ⌈/⌉ 2
  lazyWithHeadroomBytes := (3 * (expectedItems * (8 + bands * 56))) ⌈/⌉ 2

section Estimates

variable {expectedItems numPerm bands minhashValueBytes : Nat} {sizes : LshSizeEstimates}

theorem plannedMul_eq_ok_iff {left right result : Nat} :
    plannedMul left right = .ok result ↔ left * right < 2 ^ 64 ∧ left * right = result := by
  rw [plannedMul, okOr_eq_ok_iff, checkedMul_eq_some_iff]

theorem plannedAdd_eq_ok_iff {left right result : Nat} :
    plannedAdd left right = .ok result ↔ left + right < 2 ^ 64 ∧ left + right = result := by
  rw [plannedAdd, okOr_eq_ok_iff, checkedAdd_eq_some_iff]

theorem withHeadroom_eq_ok_iff {bytes result : Nat} :
    withHeadroom bytes = .ok result ↔ bytes * 3 < 2 ^ 64 ∧ (3 * bytes) ⌈/⌉ 2 = result := by
  simp only [withHeadroom, bind_eq_ok_iff, plannedMul_eq_ok_iff, pure_eq_ok_iff,
    memoryHeadroomNumerator, memoryHeadroomDenominator, Nat.mul_comm 3]
  constructor
  · rintro ⟨_, ⟨hlt, rfl⟩, rfl⟩
    exact ⟨hlt, rfl⟩
  · rintro ⟨hlt, rfl⟩
    exact ⟨_, ⟨hlt, rfl⟩, rfl⟩

/-- The planner fails with nothing but an overflow. -/
theorem outcome_sizeEstimates :
    Outcome (sizeEstimates expectedItems numPerm bands minhashValueBytes) (fun _ => True)
      (· = .estimateOverflow) := by
  have hheadroom : ∀ bytes, Outcome (withHeadroom bytes) (fun _ => True)
      (· = .estimateOverflow) := fun bytes => outcome_bind outcome_okOr fun _ _ => trivial
  rw [sizeEstimates]
  -- Every step is a checked operation or the headroom of a size.
  repeat first
    | exact trivial
    | refine outcome_bind (hheadroom _) fun _ _ => ?_
    | refine outcome_bind outcome_okOr fun _ _ => ?_

/-- The three sizes that decide: of the signatures, and of the index before and after it is
tripled. The others are smaller. -/
structure SizesFit (expectedItems numPerm bands minhashValueBytes : Nat) : Prop where
  signatures : expectedItems * (numPerm * minhashValueBytes) < 2 ^ 64
  tripled : 3 * (expectedItems * (64 + bands * 112)) < 2 ^ 64

/-- The sizes of the parts of an index are small beside that of the index. -/
theorem partSizes_le (hbands : 0 < bands) :
    expectedItems * (8 + bands * 56) * 2 ≤ expectedItems * (64 + bands * 112) ∧
      expectedItems * (8 + bands * 16) * 2 ≤ expectedItems * (64 + bands * 112) ∧
      expectedItems * (8 + bands * 48) * 2 ≤ expectedItems * (64 + bands * 112) := by
  have hle : ∀ size, size * 2 ≤ 64 + bands * 112 →
      expectedItems * size * 2 ≤ expectedItems * (64 + bands * 112) := by
    intro size hsize
    rw [Nat.mul_assoc]
    exact Nat.mul_le_mul_left _ hsize
  exact ⟨hle _ (by omega), hle _ (by omega), hle _ (by omega)⟩

/-- The planner succeeds exactly when the deciding sizes fit, and then every estimate is exact. -/
theorem sizeEstimates_eq_ok_iff (hword : numPerm < 2 ^ 32) (hbands : 0 < bands)
    (hle : bands ≤ numPerm) (hwidth : minhashValueBytes ≤ 8) :
    sizeEstimates expectedItems numPerm bands minhashValueBytes = .ok sizes ↔
      SizesFit expectedItems numPerm bands minhashValueBytes ∧
        exactSizes expectedItems numPerm bands minhashValueBytes = sizes := by
  have hsignature : numPerm * minhashValueBytes ≤ numPerm * 8 := Nat.mul_le_mul_left _ hwidth
  obtain ⟨hlazy, hmetadata, hpersistent⟩ := @partSizes_le expectedItems bands hbands
  simp only [sizeEstimates, bind_eq_ok_iff, plannedMul_eq_ok_iff, plannedAdd_eq_ok_iff,
    withHeadroom_eq_ok_iff, pure_eq_ok_iff, externalKeyBytes, bandHashAndMembershipBytes,
    inMemoryBaseBytesPerItem, inMemoryBytesPerBandItem, persistentBytesPerBandItem,
    persistentFixedBytes, lazyResidentBytesPerBandItem]
  constructor
  · rintro ⟨_, ⟨_, rfl⟩, _, ⟨_, rfl⟩, _, ⟨_, rfl⟩, _, ⟨_, rfl⟩, _, ⟨_, rfl⟩, _, ⟨_, rfl⟩, _,
      ⟨_, rfl⟩, _, ⟨_, rfl⟩, _, ⟨_, rfl⟩, _, ⟨_, rfl⟩, _, ⟨_, rfl⟩, _, ⟨hsignatures, rfl⟩, _,
      ⟨_, rfl⟩, _, ⟨_, rfl⟩, _, ⟨_, rfl⟩, _, ⟨htripled, rfl⟩, _, ⟨_, rfl⟩, rfl⟩
    exact ⟨⟨hsignatures, by omega⟩, rfl⟩
  · rintro ⟨⟨hsignatures, htripled⟩, rfl⟩
    exact ⟨_, ⟨by omega, rfl⟩, _, ⟨by omega, rfl⟩, _, ⟨by omega, rfl⟩, _, ⟨by omega, rfl⟩, _,
      ⟨by omega, rfl⟩, _, ⟨by omega, rfl⟩, _, ⟨by omega, rfl⟩, _, ⟨by omega, rfl⟩, _,
      ⟨by omega, rfl⟩, _, ⟨by omega, rfl⟩, _, ⟨by omega, rfl⟩, _, ⟨hsignatures, rfl⟩, _,
      ⟨by omega, rfl⟩, _, ⟨by omega, rfl⟩, _, ⟨by omega, rfl⟩, _, ⟨by omega, rfl⟩, _,
      ⟨by omega, rfl⟩, rfl⟩

/-- A reported estimate exceeds a word exactly if the signatures or the index with headroom do. -/
theorem exists_field_ge_iff (hword : numPerm < 2 ^ 32) (hbands : 0 < bands)
    (hle : bands ≤ numPerm) (hwidth : minhashValueBytes ≤ 8) :
    (∃ field ∈ (exactSizes expectedItems numPerm bands minhashValueBytes).fields,
        2 ^ 64 ≤ field) ↔
      2 ^ 64 ≤ expectedItems * (numPerm * minhashValueBytes) ∨
        2 ^ 64 ≤ (3 * (expectedItems * (64 + bands * 112))) ⌈/⌉ 2 := by
  have hsignature : numPerm * minhashValueBytes ≤ numPerm * 8 := Nat.mul_le_mul_left _ hwidth
  obtain ⟨hlazy, hmetadata, hpersistent⟩ := @partSizes_le expectedItems bands hbands
  simp only [LshSizeEstimates.fields, exactSizes, List.mem_cons, List.not_mem_nil, or_false,
    exists_eq_or_imp, exists_eq_left, Nat.ceilDiv_eq_add_pred_div]
  omega

/-- The planner reports an overflow exactly if an exact estimate exceeds a word, and exact
estimates otherwise, as long as no estimate fits that overflows when it is tripled. -/
theorem sizeEstimates_exact_iff (expectedItems : UInt64) {numPerm bands minhashValueBytes : Nat}
    (hword : numPerm < 2 ^ 32) (hbands : 0 < bands) (hle : bands ≤ numPerm)
    (hwidth : minhashValueBytes = 4 ∨ minhashValueBytes = 8) :
    ((sizeEstimates expectedItems.toNat numPerm bands minhashValueBytes =
          .error .estimateOverflow ↔
        ∃ field ∈ (exactSizes expectedItems.toNat numPerm bands minhashValueBytes).fields,
          2 ^ 64 ≤ field) ∧
      ((∀ field ∈ (exactSizes expectedItems.toNat numPerm bands minhashValueBytes).fields,
          field < 2 ^ 64) →
        sizeEstimates expectedItems.toNat numPerm bands minhashValueBytes =
          .ok (exactSizes expectedItems.toNat numPerm bands minhashValueBytes))) ↔
    (3 * (expectedItems.toNat * (64 + bands * 112)) < 2 ^ 64 ∨
      2 ^ 64 ≤ (3 * (expectedItems.toNat * (64 + bands * 112))) ⌈/⌉ 2 ∨
      2 ^ 64 ≤ expectedItems.toNat * (numPerm * minhashValueBytes)) := by
  have hsmall : minhashValueBytes ≤ 8 := by omega
  generalize expectedItems.toNat = items
  have hexceeds := @exists_field_ge_iff items numPerm bands minhashValueBytes hword hbands hle hsmall
  have hok := @sizeEstimates_eq_ok_iff items numPerm bands minhashValueBytes
    (exactSizes items numPerm bands minhashValueBytes) hword hbands hle hsmall
  have hfail : sizeEstimates items numPerm bands minhashValueBytes = .error .estimateOverflow ↔
      ¬ SizesFit items numPerm bands minhashValueBytes := by
    constructor
    · intro herror hfit
      rw [hok.mpr ⟨hfit, rfl⟩] at herror
      cases herror
    · intro hunfit
      have houtcome := @outcome_sizeEstimates items numPerm bands minhashValueBytes
      cases hresult : sizeEstimates items numPerm bands minhashValueBytes with
      | error error =>
          rw [hresult] at houtcome
          exact congrArg Except.error houtcome
      | ok sizes =>
          exact absurd ((sizeEstimates_eq_ok_iff hword hbands hle hsmall).mp hresult).1 hunfit
  have hfits : SizesFit items numPerm bands minhashValueBytes ↔
      items * (numPerm * minhashValueBytes) < 2 ^ 64 ∧
        3 * (items * (64 + bands * 112)) < 2 ^ 64 :=
    ⟨fun h => ⟨h.signatures, h.tripled⟩, fun h => ⟨h.1, h.2⟩⟩
  have hall : (∀ field ∈ (exactSizes items numPerm bands minhashValueBytes).fields,
      field < 2 ^ 64) ↔ ¬ ∃ field ∈ (exactSizes items numPerm bands minhashValueBytes).fields,
        2 ^ 64 ≤ field := by
    simp only [not_exists, not_and, not_le]
  rw [hall, hok, hfail, hexceeds, hfits, Nat.ceilDiv_eq_add_pred_div]
  constructor
  · rintro ⟨hiff, _⟩
    omega
  · intro hcondition
    refine ⟨by omega, fun hfit => ⟨by omega, rfl⟩⟩

end Estimates

/-- An index of a million items. -/
theorem sizeEstimates_exact_million :
    sizeEstimates 1000000 128 9 4 = .ok (exactSizes 1000000 128 9 4) :=
  ((@sizeEstimates_exact_iff 1000000 128 9 4 (by decide) (by decide) (by decide) (Or.inl rfl)).mpr (Or.inl (by decide))).2 (by decide)

/-- Fifty quadrillion items in one band take fewer bytes than a word counts, also with headroom,
and the planner reports an overflow. -/
theorem sizeEstimates_overflow_fitting :
    sizeEstimates 50000000000000000 1 1 4 = .error .estimateOverflow ∧
      ∀ field ∈ (exactSizes 50000000000000000 1 1 4).fields, field < 2 ^ 64 := by
  decide

end Pari.Index
