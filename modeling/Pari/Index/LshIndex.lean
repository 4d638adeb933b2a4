/-
# The in-memory index

`IndexData` keeps four structures that must stay in step: one bucket table for each
band holding internal identifiers, the map from external keys to identifiers, and the
two slot lists indexed by identifier. Identifiers are allocated in order and never
reused; removing a key clears its slots. `LshIndex` adds the validated configuration
and the checks of the public operations. Query metrics are left out.
-/

import Pari.Core.MinHash
import Pari.Data.BandTables

namespace Pari.Index

open Data Pari.Format Pari.Core

/-- The number of LSH bands and rows used from each signature. -/
structure LshParams where
  bands : Nat
  rows : Nat
  deriving DecidableEq, Repr

/-- The number of signature values consumed by the index. -/
def LshParams.usedPermutations (params : LshParams) : Option Nat :=
  checkedMul params.bands params.rows

/-- Errors returned by the in-memory LSH index. -/
inductive LshError
  | invalidThreshold (threshold : F64)
  | invalidPermutationCount (requested : Nat)
  | automaticTuningTooLarge (requested max : Nat)
  | invalidParams (bands rows numPerm : Nat)
  | incompatibleSeed (expected actual : UInt64)
  | incompatiblePermutationCount (expected actual : Nat)
  | duplicateKey (key : UInt64)
  | tooManyItems
  deriving DecidableEq, Repr

/-! ## Configuration -/

def validateThreshold (threshold : F64) : Except LshError Unit :=
  rejectIf (threshold.outsideUnit = true) (.invalidThreshold threshold)

def validateNumPerm (numPerm : Nat) : Except LshError Unit :=
  rejectIf (numPerm = 0 ∨ 2 ^ 32 ≤ numPerm) (.invalidPermutationCount numPerm)

def validateParams (params : LshParams) (numPerm : Nat) : Except LshError Unit := do
  let used ← okOr params.usedPermutations (.invalidParams params.bands params.rows numPerm)
  rejectIf (params.bands = 0 ∨ params.rows = 0 ∨ numPerm < used)
    (.invalidParams params.bands params.rows numPerm)

/-- The checks of `with_params`. -/
def validateConfiguration (threshold : F64) (numPerm : Nat) (params : LshParams) :
    Except LshError Unit := do
  validateThreshold threshold
  validateNumPerm numPerm
  validateParams params numPerm

/-- A configuration that passed the checks. -/
@[ext]
structure LshConfig where
  threshold : F64
  numPerm : Nat
  seed : UInt64
  params : LshParams
  valid : validateConfiguration threshold numPerm params = .ok ()

def LshConfig.new (threshold : F64) (numPerm : Nat) (seed : UInt64) (params : LshParams) :
    Except LshError LshConfig :=
  match h : validateConfiguration threshold numPerm params with
  | .error error => .error error
  | .ok () => .ok { threshold, numPerm, seed, params, valid := h }

/-- Rebuilding a configuration from its own fields cannot fail. -/
theorem LshConfig.new_eq_ok (config : LshConfig) :
    LshConfig.new config.threshold config.numPerm config.seed config.params = .ok config := by
  rw [LshConfig.new]
  split
  · next error h => rw [config.valid] at h; cases h
  · rfl

theorem LshConfig.new_eq_ok_iff {threshold : F64} {numPerm : Nat} {seed : UInt64}
    {params : LshParams} {config : LshConfig} :
    LshConfig.new threshold numPerm seed params = .ok config ↔
      config.threshold = threshold ∧ config.numPerm = numPerm ∧ config.seed = seed ∧
      config.params = params := by
  constructor
  · intro h
    rw [LshConfig.new] at h
    split at h
    · cases h
    · cases h
      exact ⟨rfl, rfl, rfl, rfl⟩
  · rintro ⟨rfl, rfl, rfl, rfl⟩
    exact config.new_eq_ok

/-- What a configuration satisfies because it exists. -/
theorem LshConfig.bounds (config : LshConfig) :
    config.threshold.outsideUnit = false ∧ 0 < config.numPerm ∧ config.numPerm < 2 ^ 32 ∧
      0 < config.params.bands ∧ 0 < config.params.rows ∧
      config.params.bands * config.params.rows ≤ config.numPerm := by
  have h := config.valid
  simp only [validateConfiguration, validateThreshold, validateNumPerm, validateParams,
    bind_eq_ok_iff, rejectIf_eq_ok_iff, okOr_eq_ok_iff, LshParams.usedPermutations,
    checkedMul_eq_some_iff, exists_const, not_or, not_lt, not_le, Bool.not_eq_true] at h
  obtain ⟨hthreshold, ⟨hzero, hword⟩, _, ⟨_, rfl⟩, hbands, hrows, hused⟩ := h
  exact ⟨hthreshold, by omega, hword, by omega, by omega, hused⟩

/-- These bounds are all that a configuration needs. -/
theorem LshConfig.exists_of_bounds {threshold : F64} {numPerm : Nat} {params : LshParams}
    (seed : UInt64) (hthreshold : threshold.outsideUnit = false) (hpos : 0 < numPerm)
    (hword : numPerm < 2 ^ 32) (hbands : 0 < params.bands) (hrows : 0 < params.rows)
    (hused : params.bands * params.rows ≤ numPerm) :
    ∃ config : LshConfig, config.threshold = threshold ∧ config.numPerm = numPerm ∧
      config.seed = seed ∧ config.params = params := by
  have hvalid : validateConfiguration threshold numPerm params = .ok () := by
    simp only [validateConfiguration, validateThreshold, validateNumPerm, validateParams,
      bind_eq_ok_iff, rejectIf_eq_ok_iff, okOr_eq_ok_iff, LshParams.usedPermutations,
      checkedMul_eq_some_iff, exists_const, not_or, not_lt, not_le, Bool.not_eq_true]
    exact ⟨hthreshold, ⟨by omega, hword⟩, _, ⟨by omega, rfl⟩, by omega, by omega, hused⟩
  exact ⟨⟨threshold, numPerm, seed, params, hvalid⟩, rfl, rfl, rfl, rfl⟩

/-! ## Stored data -/

structure IndexData where
  buckets : List (Table UInt64 UInt32)
  keyToId : OrderedMap UInt64 UInt32
  idToKey : List (Option UInt64)
  bandHashes : List (Option (List UInt64))

namespace IndexData

def new (bands : Nat) : IndexData where
  buckets := List.replicate bands ∅
  keyToId := ∅
  idToKey := []
  bandHashes := []

/-- The live key of an identifier: `id_to_key.get(id).copied().flatten()`. -/
def liveKey (data : IndexData) (id : UInt32) : Option UInt64 := data.idToKey[id.toNat]?.join

/-- The stored row of an identifier. -/
def liveRow (data : IndexData) (id : UInt32) : Option (List UInt64) :=
  data.bandHashes[id.toNat]?.join

/-- Remove a key if it exists, returning whether anything changed. -/
def remove (data : IndexData) (key : UInt64) : Bool × IndexData :=
  match data.keyToId[key]? with
  | none => (false, data)
  | some id =>
      if data.liveKey id ≠ some key then (false, data)
      else
        match data.liveRow id with
        | none => (false, data)
        | some hashes => (true, {
            buckets := removeRow data.buckets hashes id
            keyToId := data.keyToId.erase key
            idToKey := data.idToKey.set id.toNat none
            bandHashes := data.bandHashes.set id.toNat none })

def ensureCapacity (data : IndexData) (additional : Nat) : Except LshError Unit := do
  let projected ← okOr (checkedAdd data.idToKey.length additional) .tooManyItems
  rejectIf (2 ^ 32 - 1 < projected) .tooManyItems

/-- File a row under the next identifier. The conversion of the slot count to an
identifier is exact as long as `ensureCapacity` allowed the insertion. -/
def insertValidated (data : IndexData) (key : UInt64) (hashes : List UInt64) : IndexData :=
  let id := UInt32.ofNat data.idToKey.length
  { buckets := addRow data.buckets hashes id
    keyToId := data.keyToId.insert key id
    idToKey := data.idToKey ++ [some key]
    bandHashes := data.bandHashes ++ [some hashes] }

def collectCandidateIds (data : IndexData) (hashes : List UInt64) (output : OrderedSet UInt32) :
    OrderedSet UInt32 :=
  output.insertMany (candidates data.buckets hashes)

def keysForCandidates (data : IndexData) (candidates : OrderedSet UInt32) : List UInt64 :=
  sortUnstable (candidates.toList.filterMap data.liveKey)

end IndexData

/-! ## The index -/

/-- `LshIndex32` and `LshIndex64`. -/
structure LshIndex (scheme : SignatureScheme) where
  config : LshConfig
  data : IndexData

namespace LshIndex

variable {scheme : SignatureScheme}

/-- Create an index with explicit banding parameters. -/
def withParams (scheme : SignatureScheme) (threshold : F64) (numPerm : Nat) (seed : UInt64)
    (params : LshParams) : Except LshError (LshIndex scheme) := do
  let config ← LshConfig.new threshold numPerm seed params
  return { config, data := IndexData.new params.bands }

def ensureCompatible (index : LshIndex scheme) (sketch : MinHash scheme) : Except LshError Unit := do
  rejectIf (sketch.seed ≠ index.config.seed) (.incompatibleSeed index.config.seed sketch.seed)
  rejectIf (sketch.numPerm ≠ index.config.numPerm)
    (.incompatiblePermutationCount index.config.numPerm sketch.numPerm)

end LshIndex

/-- The band hashes of a signature: `signature[..used].chunks_exact(rows).map(hash_band)`. -/
def computeBandHashes {scheme : SignatureScheme} (params : LshParams)
    (signature : List (Word scheme)) : List UInt64 :=
  (chunksExact params.rows (signature.take (params.bands * params.rows))).map (hashBand scheme)

namespace LshIndex

variable {scheme : SignatureScheme}

/-- The validation loop over a batch. -/
def validateBatch (index : LshIndex scheme) :
    OrderedSet UInt64 → List (UInt64 × MinHash scheme) → Except LshError Unit
  | _, [] => .ok ()
  | batchKeys, (key, sketch) :: items => do
      rejectIf (index.data.keyToId.contains key ∨ batchKeys.contains key) (.duplicateKey key)
      index.ensureCompatible sketch
      validateBatch index (batchKeys.insert key) items

/-- Insert a batch atomically with respect to validation failures. -/
def insertMany (index : LshIndex scheme) (items : List (UInt64 × MinHash scheme)) :
    Except LshError Unit × LshIndex scheme :=
  let validated := do
    index.validateBatch ∅ items
    index.data.ensureCapacity items.length
  match validated with
  | .error error => (.error error, index)
  | .ok () => (.ok (), { index with
      data := items.foldl (fun data item =>
        data.insertValidated item.1 (computeBandHashes index.config.params item.2.signature))
        index.data })

/-- Remove a key if it exists, returning whether anything changed. -/
def remove (index : LshIndex scheme) (key : UInt64) : Bool × LshIndex scheme :=
  let (changed, data) := index.data.remove key
  (changed, { index with data })

/-- Whether an external key is currently indexed. -/
def contains (index : LshIndex scheme) (key : UInt64) : Bool := index.data.keyToId.contains key

/-- The number of live keys. -/
def len (index : LshIndex scheme) : Nat := index.data.keyToId.size

/-- Query approximate candidates for one signature. -/
def query (index : LshIndex scheme) (sketch : MinHash scheme) :
    Except LshError (List UInt64) := do
  index.ensureCompatible sketch
  let hashes := computeBandHashes index.config.params sketch.signature
  return index.data.keysForCandidates (index.data.collectCandidateIds hashes ∅)

/-- Query many signatures; the scratch set is cleared before each. -/
def queryMany (index : LshIndex scheme) (sketches : List (MinHash scheme)) :
    Except LshError (List (List UInt64)) :=
  sketches.mapM index.query

end LshIndex

end Pari.Index
