/-
# Choosing bands and rows

The optimizer scores every pair of bands and rows that uses no more than the permutations there
are, and keeps an incumbent that only a smaller score, or an equal score with more permutations,
replaces. The floating-point objective is a parameter with values in a linear order, and so is the
score the search starts with.
-/

import Mathlib.Data.List.MinMax
import Mathlib.Data.Prod.Lex
import Pari.Index.LshIndex

namespace Pari.Index

open Data Pari.Format

def maxAutoTunePermutations : Nat := 4096

section Search

variable {α : Type} [LinearOrder α] (infinity : α) (objective : LshParams → α)

/-- The loop variables of the search: the best parameters so far, their error, and the
permutations they use. -/
structure Incumbent (α : Type) where
  params : LshParams
  error : α
  used : Nat

/-- A pair of bands and rows with its error. -/
def candidate (params : LshParams) : Incumbent α where
  params
  error := objective params
  used := params.bands * params.rows

/-- The body of the inner loop. -/
def considerParams (best : Incumbent α) (params : LshParams) : Incumbent α :=
  let next := candidate objective params
  let better := match compare next.error best.error with
    | .lt => true
    | .eq => decide (best.used < next.used)
    | .gt => false
  if better then next else best

def optimizeParams (numPerm : Nat) : LshParams :=
  let best := (List.range' 1 numPerm).foldl
    (fun best bands => (List.range' 1 (numPerm / bands)).foldl
      (fun best rows => considerParams objective best ⟨bands, rows⟩) best)
    ⟨⟨1, 1⟩, infinity, 1⟩
  best.params

/-- `LshParams::tune`; the objective depends on the threshold. -/
def LshParams.tune (infinity : α) (objective : F64 → LshParams → α) (threshold : F64)
    (numPerm : Nat) : Except LshError LshParams := do
  validateThreshold threshold
  validateNumPerm numPerm
  rejectIf (maxAutoTunePermutations < numPerm)
    (.automaticTuningTooLarge numPerm maxAutoTunePermutations)
  return optimizeParams infinity (objective threshold) numPerm

end Search

/-! ## What the search visits -/

/-- Bands and rows that a signature of a length has room for. -/
structure LshParams.Fit (params : LshParams) (numPerm : Nat) : Prop where
  bands : 0 < params.bands
  rows : 0 < params.rows
  used : params.bands * params.rows ≤ numPerm

/-- The pairs in the order of the two loops. -/
def visitedParams (numPerm : Nat) : List LshParams :=
  (List.range' 1 numPerm).flatMap fun bands =>
    (List.range' 1 (numPerm / bands)).map fun rows => ⟨bands, rows⟩

/-- The loops skip no pair and visit no other. -/
theorem mem_visitedParams_iff {numPerm : Nat} {params : LshParams} :
    params ∈ visitedParams numPerm ↔ params.Fit numPerm := by
  obtain ⟨bands, rows⟩ := params
  simp only [visitedParams, List.mem_flatMap, List.mem_range'_1, List.mem_map, LshParams.mk.injEq]
  constructor
  · rintro ⟨other, ⟨hbands, _⟩, others, ⟨hrows, hbound⟩, rfl, rfl⟩
    have hused := (Nat.le_div_iff_mul_le hbands).mp (Nat.lt_one_add_iff.mp hbound)
    rw [Nat.mul_comm] at hused
    exact ⟨hbands, hrows, hused⟩
  · rintro ⟨hbands, hrows, hused⟩
    have hlarge : bands ≤ numPerm := (Nat.le_mul_of_pos_right bands hrows).trans hused
    refine ⟨bands, ⟨hbands, Nat.lt_one_add_iff.mpr hlarge⟩, rows, ⟨hrows, ?_⟩, rfl, rfl⟩
    rw [Nat.lt_one_add_iff, Nat.le_div_iff_mul_le hbands, Nat.mul_comm]
    exact hused

/-- Parameters that fit pass the checks of every constructor. -/
theorem LshParams.Fit.validated {params : LshParams} {numPerm : Nat} (h : params.Fit numPerm)
    (hword : numPerm < 2 ^ 64) :
    params.usedPermutations = some (params.bands * params.rows) ∧
      validateParams params numPerm = .ok () := by
  have hused : params.usedPermutations = some (params.bands * params.rows) :=
    checkedMul_of_lt (lt_of_le_of_lt h.used hword)
  have hbounds : ¬ (params.bands = 0 ∨ params.rows = 0 ∨
      numPerm < params.bands * params.rows) := by
    have hbands := h.bands
    have hrows := h.rows
    have hfits := h.used
    omega
  refine ⟨hused, ?_⟩
  rw [validateParams, hused, okOr_some, ok_bind, rejectIf_of_not hbounds]

/-! ## What the search returns -/

section Optimal

variable {α : Type} [LinearOrder α] {infinity : α} {objective : LshParams → α}

/-- Smaller errors come first, and of equal ones those that use more permutations. -/
def Incumbent.rank (incumbent : Incumbent α) : α ×ₗ Natᵒᵈ :=
  toLex (incumbent.error, OrderDual.toDual incumbent.used)

/-- The incumbent is replaced exactly by what ranks before it. -/
theorem considerParams_eq (best : Incumbent α) (params : LshParams) :
    considerParams objective best params =
      if (candidate objective params).rank < best.rank then candidate objective params
      else best := by
  rw [considerParams]
  have hrank : (candidate objective params).rank < best.rank ↔
      (candidate objective params).error < best.error ∨
        (candidate objective params).error = best.error ∧
          best.used < (candidate objective params).used := Prod.Lex.lt_iff
  congr 1
  rw [eq_iff_iff, hrank]
  split
  · next hlt =>
      rw [compare_lt_iff_lt] at hlt
      simp [hlt]
  · next heq =>
      rw [compare_eq_iff_eq] at heq
      simp [heq]
  · next hgt =>
      rw [compare_gt_iff_gt] at hgt
      simp [hgt.not_gt, hgt.ne']

/-- A loop over candidates keeps the first of least rank. -/
theorem foldl_considerParams_mem_argmin (start : Incumbent α) (visited : List LshParams) :
    visited.foldl (considerParams objective) start ∈
      (start :: visited.map (candidate objective)).argmin Incumbent.rank := by
  rw [List.argmin, List.foldl_cons, Option.mem_def]
  show (visited.map (candidate objective)).foldl _ (some start) = _
  induction visited generalizing start with
  | nil => rfl
  | cons params visited ih =>
      rw [List.foldl_cons, ← ih, List.map_cons, List.foldl_cons, considerParams_eq, List.argAux]
      dsimp only
      split
      · rfl
      · rfl

theorem optimizeParams_eq (numPerm : Nat) :
    optimizeParams infinity objective numPerm =
      ((visitedParams numPerm).foldl (considerParams objective) ⟨⟨1, 1⟩, infinity, 1⟩).params := by
  rw [optimizeParams, visitedParams, List.foldl_flatMap]
  simp only [List.foldl_map]

/-- The incumbent fits from the first to the last step. -/
theorem optimizeParams_fit {numPerm : Nat} (hpos : 0 < numPerm) :
    (optimizeParams infinity objective numPerm).Fit numPerm := by
  have hbest := @foldl_considerParams_mem_argmin α _ objective ⟨⟨1, 1⟩, infinity, 1⟩
    (visitedParams numPerm)
  rw [optimizeParams_eq]
  rcases List.mem_cons.mp (List.argmin_mem hbest) with hstart | hvisited
  · rw [hstart]
    exact ⟨Nat.one_pos, Nat.one_pos, hpos⟩
  · obtain ⟨params, hmem, heq⟩ := List.mem_map.mp hvisited
    rw [← heq]
    exact mem_visitedParams_iff.mp hmem

/-- The construction that follows the optimizer does not fail. -/
theorem exists_config_of_tune {objective : F64 → LshParams → α} {threshold : F64} {numPerm : Nat}
    {params : LshParams} (seed : UInt64)
    (h : LshParams.tune infinity objective threshold numPerm = .ok params) :
    ∃ config, LshConfig.new threshold numPerm seed params = .ok config := by
  simp only [LshParams.tune, validateThreshold, validateNumPerm, bind_eq_ok_iff, rejectIf_eq_ok_iff,
    exists_const, pure_eq_ok_iff, not_or, not_le] at h
  obtain ⟨hthreshold, ⟨hzero, hword⟩, _, rfl⟩ := h
  have hfit := @optimizeParams_fit α _ infinity (objective threshold) numPerm
    (Nat.pos_of_ne_zero hzero)
  have hvalid := (hfit.validated (hword.trans (by decide))).2
  have hconfiguration : validateConfiguration threshold numPerm
      (optimizeParams infinity (objective threshold) numPerm) = .ok () := by
    rw [validateConfiguration, validateThreshold, rejectIf_of_not hthreshold, ok_bind,
      validateNumPerm, rejectIf_of_not (by omega), ok_bind, hvalid]
  exact ⟨⟨threshold, numPerm, seed, _, hconfiguration⟩,
    LshConfig.new_eq_ok_iff.mpr ⟨rfl, rfl, rfl, rfl⟩⟩

/-- For a signature of any length the optimizer returns parameters that pass every check, whose
error is least among all that fit, and which use the most permutations of those with least error,
as soon as one pair scores below the score the search starts with. -/
theorem optimizeParams_optimal {α : Type} [LinearOrder α] (infinity : α)
    (objective : LshParams → α) {numPerm : Nat} (hword : numPerm < 2 ^ 64)
    (hfinite : ∃ params : LshParams, params.Fit numPerm ∧ objective params < infinity) :
    (optimizeParams infinity objective numPerm).Fit numPerm ∧
      validateParams (optimizeParams infinity objective numPerm) numPerm = .ok () ∧
      (optimizeParams infinity objective numPerm).usedPermutations =
        some ((optimizeParams infinity objective numPerm).bands *
          (optimizeParams infinity objective numPerm).rows) ∧
      ∀ params : LshParams, params.Fit numPerm →
        objective (optimizeParams infinity objective numPerm) ≤ objective params ∧
          (objective params = objective (optimizeParams infinity objective numPerm) →
            params.bands * params.rows ≤ (optimizeParams infinity objective numPerm).bands *
              (optimizeParams infinity objective numPerm).rows) := by
  rw [optimizeParams_eq]
  have hbest := @foldl_considerParams_mem_argmin α _ objective ⟨⟨1, 1⟩, infinity, 1⟩
    (visitedParams numPerm)
  generalize (visitedParams numPerm).foldl (considerParams objective) ⟨⟨1, 1⟩, infinity, 1⟩ = best
    at hbest ⊢
  have hleast : ∀ params : LshParams, params.Fit numPerm →
      best.rank ≤ (candidate objective params).rank := by
    intro params hparams
    apply List.le_of_mem_argmin _ hbest
    exact List.mem_cons_of_mem _ (List.mem_map_of_mem (mem_visitedParams_iff.mpr hparams))
  -- The pair the search starts with was never scored, and does not survive a finite score.
  obtain ⟨params, hparams, rfl⟩ : ∃ params : LshParams, params.Fit numPerm ∧
      candidate objective params = best := by
    rcases List.mem_cons.mp (List.argmin_mem hbest) with hstart | hvisited
    · obtain ⟨params, hparams, hlt⟩ := hfinite
      have hle := hleast params hparams
      rw [hstart] at hle
      have hinfinity : infinity ≤ objective params := Prod.Lex.monotone_fst _ _ hle
      exact absurd hlt (not_lt.mpr hinfinity)
    · obtain ⟨params, hmem, heq⟩ := List.mem_map.mp hvisited
      exact ⟨params, mem_visitedParams_iff.mp hmem, heq⟩
  obtain ⟨hused, hvalid⟩ := hparams.validated hword
  refine ⟨hparams, hvalid, hused, fun other hother => ?_⟩
  have hle : objective params < objective other ∨ objective params = objective other ∧
      other.bands * other.rows ≤ params.bands * params.rows :=
    Prod.Lex.le_iff.mp (hleast other hother)
  constructor
  · rcases hle with hlt | ⟨heq, _⟩
    · exact hlt.le
    · exact heq.le
  · intro hequal
    rcases hle with hlt | ⟨_, hmost⟩
    · exact absurd hequal hlt.ne'
    · exact hmost

end Optimal

/-- An objective that prefers eight bands of sixteen permutations. -/
theorem optimizeParams_optimal_sixteen :
    (optimizeParams 100 (fun params => (8 - params.bands) + (params.bands - 8)) 16).Fit 16 :=
  (optimizeParams_optimal 100 (fun params => (8 - params.bands) + (params.bands - 8))
    (by decide) ⟨⟨8, 2⟩, ⟨by decide, by decide, by decide⟩, by decide⟩).1

end Pari.Index
