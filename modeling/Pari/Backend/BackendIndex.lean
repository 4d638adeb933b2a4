/-
# The index over a backend

`BackendIndex32` checks sketches against its descriptor, hashes their bands, and talks to a
storage backend in batches. A batch of queries asks for each bucket once and picks the
answers of a sketch out of the rows by position. Query metrics are left out.
-/

import Pari.Backend.Storage
import Pari.Data.Interning

namespace Pari.Backend

open Data Data.Method Pari.Format Pari.Core Pari.Index

/-- Errors returned by the index. -/
inductive BackendIndexError
  | index (error : LshError)
  | backend (error : BackendError)
  deriving DecidableEq, Repr

/-! ## Band hashes -/

def fnvOffsetBasis : UInt64 := 0xCBF29CE484222325
def fnvPrime : UInt64 := 0x00000100000001B3

def avalanche64 (value : UInt64) : UInt64 :=
  let value := value ^^^ (value >>> 33)
  let value := value * 0xFF51AFD7ED558CCD
  let value := value ^^^ (value >>> 33)
  let value := value * 0xC4CEB9FE1A85EC53
  value ^^^ (value >>> 33)

def hashBand (values : List UInt32) : UInt64 :=
  let hash := values.foldl (fun hash value => (hash ^^^ value.toUInt64) * fnvPrime) fnvOffsetBasis
  avalanche64 (hash ^^^ UInt64.ofNat values.length)

/-- The band hashes of a sketch that fits the descriptor. -/
def bandHashes (descriptor : IndexDescriptor) (sketch : MinHash32) :
    Except LshError (List UInt64) := do
  rejectIf (sketch.seed ≠ descriptor.seed) (.incompatibleSeed descriptor.seed sketch.seed)
  rejectIf (sketch.numPerm ≠ descriptor.numPerm)
    (.incompatiblePermutationCount descriptor.numPerm sketch.numPerm)
  let used := descriptor.params.bands * descriptor.params.rows
  return (chunksExact descriptor.params.rows (sketch.signature.take used)).map hashBand

/-! ## The index -/

/-- An index over a backend, under the descriptor it was created or opened with. -/
structure BackendIndex32 (β : Type) where
  backend : β
  descriptor : IndexDescriptor

/-- A method of an index. -/
abbrev IndexMethod (β α : Type) := Method (BackendIndex32 β) BackendIndexError α

variable {β : Type} [StorageBackend β]

def validateRetentionCapability (backend : β) (descriptor : IndexDescriptor) :
    Except BackendError Unit :=
  rejectIf (descriptor.retention.isSome = true ∧
      (StorageBackend.capabilities backend).supports .ttl = false)
    (.unsupportedCapability .ttl)

/-- Create a new index with explicit parameters. -/
def createWithParams (threshold : F64) (numPerm : Nat) (seed : UInt64) (params : LshParams)
    (retention : Option Duration) : Method β BackendIndexError (BackendIndex32 β) := do
  let descriptor ← lift
    ((IndexDescriptor.new threshold numPerm seed params retention).mapError .backend)
  let capable ← read fun backend => validateRetentionCapability backend descriptor
  lift (capable.mapError .backend)
  (StorageBackend.initializeNamespace descriptor).onPart id (fun backend _ => backend) .backend
  read fun backend => { backend, descriptor }

/-- Create a new index with automatically tuned parameters. -/
def create (tune : F64 → Nat → Except LshError LshParams) (threshold : F64) (numPerm : Nat)
    (seed : UInt64) (retention : Option Duration) :
    Method β BackendIndexError (BackendIndex32 β) := do
  let params ← lift ((tune threshold numPerm).mapError .index)
  let reference ← lift
    ((LshIndex.withParams .pariAffine32V1 threshold numPerm seed params).mapError .index)
  createWithParams threshold numPerm seed reference.config.params retention

/-- Open an existing index under the descriptor the backend keeps. -/
def openIndex : Method β BackendIndexError (BackendIndex32 β) := do
  let descriptor ← StorageBackend.loadDescriptor.onPart id (fun backend _ => backend) .backend
  let _ ← lift ((LshIndex.withParams .pariAffine32V1 descriptor.threshold descriptor.numPerm
    descriptor.seed descriptor.params).mapError .index)
  let capable ← read fun backend => validateRetentionCapability backend descriptor
  lift (capable.mapError .backend)
  read fun backend => { backend, descriptor }

namespace BackendIndex32

/-- Call the backend of an index. -/
def onBackend {α : Type} (method : Method β BackendError α) : IndexMethod β α :=
  method.onPart BackendIndex32.backend (fun backend index => { index with backend }) .backend

/-! ## Insertion -/

/-- The validation loop over a batch: the records to store. -/
def prepareItems (descriptor : IndexDescriptor) :
    OrderedSet UInt64 → List (UInt64 × MinHash32) → Except BackendIndexError (List StoredItem)
  | _, [] => .ok []
  | seen, (key, sketch) :: items => do
      rejectIf (seen.contains key = true) (.backend (.duplicateKey key))
      let hashes ← (bandHashes descriptor sketch).mapError .index
      let stored ← prepareItems descriptor (seen.insert key) items
      return { key, bandHashes := hashes } :: stored

/-- Insert a complete batch through one backend operation. -/
def insertMany (items : List (UInt64 × MinHash32)) : IndexMethod β Unit := do
  let descriptor ← read BackendIndex32.descriptor
  let stored ← lift (prepareItems descriptor ∅ items)
  onBackend (StorageBackend.insertMany stored)

def insert (key : UInt64) (sketch : MinHash32) : IndexMethod β Unit := insertMany [(key, sketch)]

/-! ## Queries -/

/-- The bucket of every band of a sketch. -/
def bucketsOf : List (UInt64 × Nat) → Except BackendError (List BucketKey)
  | [] => .ok []
  | (hash, band) :: hashes => do
      let band ← okOr (tryU32 band) .lengthOverflow
      let buckets ← bucketsOf hashes
      return { band, hash } :: buckets

/-- The positions of the buckets of every sketch, each bucket requested once. -/
def requestBuckets (descriptor : IndexDescriptor) (requests : Interner BucketKey) :
    List MinHash32 → Except BackendIndexError (List (List Nat) × Interner BucketKey)
  | [] => .ok ([], requests)
  | sketch :: sketches => do
      let hashes ← (bandHashes descriptor sketch).mapError .index
      let buckets ← (bucketsOf hashes.zipIdx).mapError .backend
      let (positions, requests) := requests.internAll buckets
      let (queryPositions, requests) ← requestBuckets descriptor requests sketches
      return (positions :: queryPositions, requests)

def bucketRowsReason (returned requested : Nat) : String :=
  s!"backend returned {returned} bucket rows for {requested} requested buckets"

/-- The candidates in the rows at some positions, in ascending order. -/
def candidateKeys (bucketMembers : List (List UInt64)) (positions : List Nat) : List UInt64 :=
  sortUnstable (positions.foldl (fun candidates position =>
    candidates.insertMany (bucketMembers[position]?.getD [])) (∅ : OrderedSet UInt64)).toList

/-- Query many signatures with one backend read. -/
def queryMany (sketches : List MinHash32) : IndexMethod β (List (List UInt64)) := do
  let descriptor ← read BackendIndex32.descriptor
  let (queryPositions, requests) ← lift (requestBuckets descriptor .empty sketches)
  if queryPositions.isEmpty = true then
    pure []
  else do
    let bucketMembers ← onBackend (StorageBackend.queryBuckets requests.values)
    lift (rejectIf (bucketMembers.length ≠ requests.values.length) (.backend (.corruptData
      (bucketRowsReason bucketMembers.length requests.values.length))))
    pure (queryPositions.map (candidateKeys bucketMembers))

/-- Query approximate candidate keys for one signature. -/
def query (sketch : MinHash32) : IndexMethod β (List UInt64) := do
  let results ← queryMany [sketch]
  pure (results.getLast?.getD [])

/-! ## Removal and membership -/

/-- Remove one key, returning whether it existed. -/
def remove (key : UInt64) : IndexMethod β Bool := do
  let removed ← onBackend (StorageBackend.deleteMany [key])
  pure (removed == 1)

/-- Remove a batch of keys, returning the number that existed. -/
def removeMany (keys : List UInt64) : IndexMethod β Nat :=
  onBackend (StorageBackend.deleteMany ((∅ : OrderedSet UInt64).insertMany keys).toList)

def containsReason (returned requested : Nat) : String :=
  s!"backend returned {returned} contains results for {requested} keys"

/-- Test many keys in one backend operation. -/
def containsMany (keys : List UInt64) : IndexMethod β (List Bool) := do
  let values ← onBackend (StorageBackend.containsMany keys)
  lift (rejectIf (values.length ≠ keys.length)
    (.backend (.corruptData (containsReason values.length keys.length))))
  pure values

/-- Return whether one key exists. -/
def contains (key : UInt64) : IndexMethod β Bool := do
  let values ← containsMany [key]
  lift (okOr values.head? (.backend (.corruptData "backend returned no contains result")))

/-! ## Operations -/

def flush : IndexMethod β Unit := onBackend StorageBackend.flush

def health : IndexMethod β Unit := onBackend StorageBackend.health

def stats : IndexMethod β BackendStats := onBackend StorageBackend.stats

/-- Delete only the data of this namespace. -/
def cleanup : IndexMethod β Unit := onBackend StorageBackend.cleanup

end BackendIndex32

end Pari.Backend
