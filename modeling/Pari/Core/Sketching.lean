/-
# Making sketches

A sketch starts with the largest value in every position, and each element of the set it
stands for lowers the positions where its permuted hash is smaller. The permutations are
affine maps with odd multipliers, drawn from the seed. SHA-1 is a parameter.
-/

import Pari.Core.MinHash

namespace Pari.Core

open Data Pari.Format

def affine32Scheme : String := "pari-affine32-v1"
def affine64Scheme : String := "pari-affine64-v1"

inductive MinHashError
  | invalidPermutationCount (requested : Nat)
  | incompatibleSeed (left right : UInt64)
  | incompatiblePermutationCount (left right : Nat)
  | batchPoolUnavailable (message : String)
  deriving DecidableEq, Repr

/-- `validate_num_perm` passes. -/
abbrev ValidNumPerm (numPerm : Nat) : Prop := 0 < numPerm ∧ numPerm < 2 ^ 32

/-! ## Permutations -/

/-- `SplitMix64::next_u64`: the value and the next state. -/
def nextU64 (state : UInt64) : UInt64 × UInt64 :=
  let state := state + 0x9E3779B97F4A7C15
  let value := (state ^^^ (state >>> 30)) * 0xBF58476D1CE4E5B9
  let value := (value ^^^ (value >>> 27)) * 0x94D049BB133111EB
  (value ^^^ (value >>> 31), state)

/-- Draw a number of values. -/
def draws : Nat → UInt64 → List UInt64 × UInt64
  | 0, state => ([], state)
  | count + 1, state =>
      let (value, state) := nextU64 state
      let (values, state) := draws count state
      (value :: values, state)

@[simp]
theorem length_draws (count : Nat) (state : UInt64) : (draws count state).1.length = count := by
  induction count generalizing state with
  | zero => rfl
  | succ count ih => exact congrArg (· + 1) (ih _)

def fmix32 (value : UInt32) : UInt32 :=
  let value := value ^^^ (value >>> 16)
  let value := value * 0x85EBCA6B
  let value := value ^^^ (value >>> 13)
  let value := value * 0xC2B2AE35
  value ^^^ (value >>> 16)

def fmix64 (value : UInt64) : UInt64 :=
  let value := value ^^^ (value >>> 33)
  let value := value * 0xFF51AFD7ED558CCD
  let value := value ^^^ (value >>> 33)
  let value := value * 0xC4CEB9FE1A85EC53
  value ^^^ (value >>> 33)

/-- The largest value of a position. -/
def Word.max : (scheme : SignatureScheme) → Word scheme
  | .pariAffine32V1 => (0xFFFFFFFF : UInt32)
  | .pariAffine64V1 => (0xFFFFFFFFFFFFFFFF : UInt64)

/-- `u32::try_from(value)`, or the value itself. -/
def Word.tryFrom : (scheme : SignatureScheme) → UInt64 → Option (Word scheme)
  | .pariAffine32V1 => fun value =>
      if value.toNat < 2 ^ 32 then some (UInt64.toUInt32 value) else none
  | .pariAffine64V1 => fun value => some value

/-- One position: a multiplier and an offset as drawn, the hash of the element and the current
value. The multiplier is made odd, and 32-bit words take the low half of a draw. -/
def Word.lower : (scheme : SignatureScheme) → UInt64 × UInt64 → Word scheme → Word scheme →
    Word scheme
  | .pariAffine32V1 => fun (multiplier, offset) (hash current : UInt32) =>
      let permuted := (multiplier.toUInt32 ||| 1) * fmix32 hash + offset.toUInt32
      if permuted < current then permuted else current
  | .pariAffine64V1 => fun (multiplier, offset) (hash current : UInt64) =>
      let permuted := (multiplier ||| 1) * fmix64 hash + offset
      if permuted < current then permuted else current

/-- All multipliers are drawn before the offsets. -/
def permutations (seed : UInt64) (numPerm : Nat) : List (UInt64 × UInt64) :=
  let (multipliers, state) := draws numPerm seed
  let (offsets, _) := draws numPerm state
  multipliers.zip offsets

@[simp]
theorem length_permutations (seed : UInt64) (numPerm : Nat) :
    (permutations seed numPerm).length = numPerm := by
  simp [permutations]

/-! ## Sketches -/

/-- The leading bytes of a digest, as a little-endian word. -/
def sha1Hash (sha1 : Bytes → Bytes) : (scheme : SignatureScheme) → Bytes → Word scheme
  | .pariAffine32V1 => fun data => u32OfBytes ((sha1 data).take 4)
  | .pariAffine64V1 => fun data => u64OfBytes ((sha1 data).take 8)

namespace MinHash

variable {scheme : SignatureScheme}

def new (scheme : SignatureScheme) (numPerm : Nat) (seed : UInt64) :
    Except MinHashError (MinHash scheme) :=
  if h : ValidNumPerm numPerm then .ok {
    seed
    signature := List.replicate numPerm (Word.max scheme)
    valid := by rwa [List.length_replicate] }
  else .error (.invalidPermutationCount numPerm)

/-- Add one element to the set. -/
def update (sha1 : Bytes → Bytes) (sketch : MinHash scheme) (value : Bytes) : MinHash scheme where
  seed := sketch.seed
  signature := List.zipWith (fun permutation current =>
      Word.lower scheme permutation (sha1Hash sha1 scheme value) current)
    (permutations sketch.seed sketch.numPerm) sketch.signature
  valid := by
    rw [List.length_zipWith, length_permutations, numPerm, Nat.min_self]
    exact sketch.valid

/-- `update_many`. -/
def updateMany (sha1 : Bytes → Bytes) (sketch : MinHash scheme) (values : List Bytes) :
    MinHash scheme :=
  values.foldl (update sha1) sketch

/-- `from_batch`: every row updates a copy of one template. However many threads share the
rows, the sketches come back in their order. -/
def fromBatch (sha1 : Bytes → Bytes) (scheme : SignatureScheme) (rows : List (List Bytes))
    (numPerm : Nat) (seed : UInt64) : Except MinHashError (List (MinHash scheme)) := do
  let template ← new scheme numPerm seed
  return rows.map (template.updateMany sha1)

/-- `from_signature`. -/
def fromSignature (signature : List (Word scheme)) (seed : UInt64) :
    Except MinHashError (MinHash scheme) :=
  if h : ValidNumPerm signature.length then .ok { seed, signature, valid := h }
  else .error (.invalidPermutationCount signature.length)

/-- Absorbing values keeps what a sketch is compatible with. -/
theorem updateMany_fields (sha1 : Bytes → Bytes) (sketch : MinHash scheme) (values : List Bytes) :
    (sketch.updateMany sha1 values).seed = sketch.seed ∧
      (sketch.updateMany sha1 values).numPerm = sketch.numPerm := by
  induction values generalizing sketch with
  | nil => exact ⟨rfl, rfl⟩
  | cons value values ih =>
      obtain ⟨hseed, hnumPerm⟩ := ih (sketch.update sha1 value)
      have hlength : (sketch.update sha1 value).numPerm = sketch.numPerm := by
        simp [update, numPerm]
      exact ⟨hseed, hnumPerm.trans hlength⟩

end MinHash

end Pari.Core
