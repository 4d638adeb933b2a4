/-
# Permuted hashes

The finalizers are bijections and every multiplier that is drawn is odd, so every position of a
sketch permutes the words. A sketch of one element therefore tells its hash apart from every other
hash in every position.
-/

import Pari.Core.Absorbing
import Pari.Data.Mixing

namespace Pari.Core

open Data Pari.Format

instance (scheme : SignatureScheme) : Finite (Word scheme) :=
  match scheme with
  | .pariAffine32V1 => Finite.of_injective UInt32.toFin fun _ _ => UInt32.toFin_inj.mp
  | .pariAffine64V1 => Finite.of_injective UInt64.toFin fun _ _ => UInt64.toFin_inj.mp

theorem fmix32_injective : Function.Injective fmix32 := by
  intro left right h
  have hwords : finalizer 16 13 16 0x85EBCA6B#32 0xC2B2AE35#32 left.toBitVec =
      finalizer 16 13 16 0x85EBCA6B#32 0xC2B2AE35#32 right.toBitVec := by
    have hleft : (fmix32 left).toBitVec = (fmix32 right).toBitVec := congrArg UInt32.toBitVec h
    simpa [finalizer, xorShift, fmix32, BitVec.mul_comm] using hleft
  apply UInt32.toBitVec_inj.mp
  exact finalizer_injective (by decide) (by decide) (by decide) (by decide) (by decide) hwords

theorem fmix64_injective : Function.Injective fmix64 := by
  intro left right h
  have hwords : finalizer 33 33 33 0xFF51AFD7ED558CCD#64 0xC4CEB9FE1A85EC53#64 left.toBitVec =
      finalizer 33 33 33 0xFF51AFD7ED558CCD#64 0xC4CEB9FE1A85EC53#64 right.toBitVec := by
    have hleft : (fmix64 left).toBitVec = (fmix64 right).toBitVec := congrArg UInt64.toBitVec h
    simpa [finalizer, xorShift, fmix64, BitVec.mul_comm] using hleft
  apply UInt64.toBitVec_inj.mp
  exact finalizer_injective (by decide) (by decide) (by decide) (by decide) (by decide) hwords

/-- The value of a word. -/
def Word.toNat (scheme : SignatureScheme) (word : Word scheme) : Nat :=
  (Word.toU64 scheme word).toNat

theorem Word.toNat_affine32 (word : Word .pariAffine32V1) :
    Word.toNat .pariAffine32V1 word = UInt32.toNat word :=
  UInt32.toNat_toUInt64 word

section Positions

variable {scheme : SignatureScheme} {seed : UInt64} {numPerm : Nat}

theorem Word.fmix_injective (scheme : SignatureScheme) : Function.Injective (Word.fmix scheme) := by
  cases scheme with
  | pariAffine32V1 => exact fmix32_injective
  | pariAffine64V1 => exact fmix64_injective

theorem Word.odd_oddOfDraw (scheme : SignatureScheme) (draw : UInt64) :
    Odd (Word.toNat scheme (Word.oddOfDraw scheme draw)) := by
  cases scheme with
  | pariAffine32V1 =>
      have hword : Word.toNat .pariAffine32V1 (Word.oddOfDraw .pariAffine32V1 draw) =
          draw.toUInt32.toNat ||| 1 := by
        rw [Word.toNat_affine32]
        exact UInt32.toNat_or _ _
      rw [hword]
      exact odd_or_one _
  | pariAffine64V1 =>
      have hword : Word.toNat .pariAffine64V1 (Word.oddOfDraw .pariAffine64V1 draw) =
          draw.toNat ||| 1 := UInt64.toNat_or _ _
      rw [hword]
      exact odd_or_one _

theorem odd_of_mem_multipliersOf {multiplier : Word scheme}
    (h : multiplier ∈ multipliersOf scheme seed numPerm) : Odd (Word.toNat scheme multiplier) := by
  obtain ⟨draw, _, rfl⟩ := List.mem_map.mp h
  exact Word.odd_oddOfDraw scheme draw

/-- An affine map with an odd multiplier permutes the words. -/
theorem Word.permuted_injective {permutation : Word scheme × Word scheme}
    (h : Odd (Word.toNat scheme permutation.1)) :
    Function.Injective (Word.permuted scheme permutation) := by
  cases scheme with
  | pariAffine32V1 =>
      rw [Word.toNat_affine32] at h
      intro left right heq
      apply UInt32.toBitVec_inj.mp
      apply @affine_injective_of_odd _ (UInt32.toBitVec permutation.1)
        (UInt32.toBitVec permutation.2) h
      exact congrArg UInt32.toBitVec heq
  | pariAffine64V1 =>
      intro left right heq
      apply UInt64.toBitVec_inj.mp
      apply @affine_injective_of_odd _ (UInt64.toBitVec permutation.1)
        (UInt64.toBitVec permutation.2) h
      exact congrArg UInt64.toBitVec heq

/-- Every position permutes the hashes. -/
theorem bijective_of_mem_permutationsOf {permutation : Word scheme × Word scheme}
    (h : permutation ∈ permutationsOf scheme seed numPerm) :
    Function.Bijective fun hash => Word.permuted scheme permutation (Word.fmix scheme hash) := by
  apply Finite.injective_iff_bijective.mp
  apply (Word.permuted_injective ?_).comp (Word.fmix_injective scheme)
  exact odd_of_mem_multipliersOf (List.of_mem_zip h).1

/-- A sketch of one element holds its permuted hashes. -/
theorem hashvalues_singleton (hash : Word scheme) :
    (sketchOf scheme seed numPerm {hash}).hashvalues =
      (permutationsOf scheme seed numPerm).map fun permutation =>
        Word.permuted scheme permutation (Word.fmix scheme hash) := by
  rw [sketchOf]
  exact List.map_congr_left fun permutation _ => Finset.inf_singleton

/-- The finalizers are bijections, the multipliers are odd, every position permutes the hashes,
and two sketches of one element agree in a position exactly if the hashes are equal. -/
theorem positions_permute_hashes (scheme : SignatureScheme) :
    Function.Bijective (Word.fmix scheme) ∧ ∀ (seed : UInt64) (numPerm : Nat),
      (∀ multiplier ∈ multipliersOf scheme seed numPerm, Odd (Word.toNat scheme multiplier)) ∧
      (∀ permutation ∈ permutationsOf scheme seed numPerm, Function.Bijective fun hash =>
        Word.permuted scheme permutation (Word.fmix scheme hash)) ∧
      ∀ empty : StoredSketch scheme, StoredSketch.new scheme numPerm seed = .ok empty →
        ∀ position, position < numPerm → ∀ left right : Word scheme,
          (empty.updateHashed left).hashvalues[position]? =
            (empty.updateHashed right).hashvalues[position]? ↔ left = right := by
  refine ⟨Finite.injective_iff_bijective.mp (Word.fmix_injective scheme), fun seed numPerm =>
    ⟨fun _ => odd_of_mem_multipliersOf, fun _ => bijective_of_mem_permutationsOf, ?_⟩⟩
  intro empty hnew position hposition left right
  obtain ⟨_, rfl⟩ := new_eq_ok_iff.mp hnew
  have hlength : position < (permutationsOf scheme seed numPerm).length := by
    rwa [length_permutationsOf]
  rw [updateHashed_sketchOf, updateHashed_sketchOf, insert_empty_eq, insert_empty_eq,
    hashvalues_singleton, hashvalues_singleton, List.getElem?_map, List.getElem?_map,
    List.getElem?_eq_getElem hlength, Option.map_some, Option.map_some, Option.some_inj]
  exact (bijective_of_mem_permutationsOf (List.getElem_mem hlength)).injective.eq_iff

end Positions

/-- Two elements in a sketch of two positions. -/
theorem positions_permute_hashes_two_positions :
    ∃ empty : StoredSketch .pariAffine32V1,
      StoredSketch.new .pariAffine32V1 2 7 = .ok empty ∧
        (empty.updateHashed (1 : UInt32)).hashvalues[1]? ≠
          (empty.updateHashed (2 : UInt32)).hashvalues[1]? := by
  refine ⟨_, rfl, fun h => ?_⟩
  have hequal := (((positions_permute_hashes .pariAffine32V1).2 7 2).2.2 _ rfl 1 (by decide)
    (1 : UInt32) (2 : UInt32)).mp h
  exact absurd hequal (by decide : (1 : UInt32) ≠ 2)

end Pari.Core
