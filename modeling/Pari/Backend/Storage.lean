/-
# The storage contract

What a storage backend keeps for an index: a validated descriptor, and for every key the
band hashes of its sketch together with the bucket memberships they give. A backend offers
batch operations on them. Its methods may change the backend even when they fail.
-/

import Pari.Data.Stateful
import Pari.Format.Buckets
import Pari.Index.LshIndex

namespace Pari.Backend

open Data Pari.Format Pari.Core Pari.Index

/-! ## Capabilities -/

/-- One capability exposed by a storage backend. -/
inductive BackendCapability
  | batchRead
  | batchWrite
  | delete
  | flush
  | ttl
  | health
  | remote
  deriving DecidableEq, Repr

/-- Compact set of backend capabilities. -/
structure BackendCapabilities where
  mask : UInt8
  deriving DecidableEq

namespace BackendCapabilities

def flag : BackendCapability → UInt8
  | .batchRead => (1 : UInt8) <<< 0
  | .batchWrite => (1 : UInt8) <<< 1
  | .delete => (1 : UInt8) <<< 2
  | .flush => (1 : UInt8) <<< 3
  | .ttl => (1 : UInt8) <<< 4
  | .health => (1 : UInt8) <<< 5
  | .remote => (1 : UInt8) <<< 6

def empty : BackendCapabilities := ⟨0⟩

/-- The capability set with one more capability enabled. -/
def withCapability (capabilities : BackendCapabilities) (capability : BackendCapability) :
    BackendCapabilities :=
  ⟨capabilities.mask ||| flag capability⟩

def supports (capabilities : BackendCapabilities) (capability : BackendCapability) : Bool :=
  capabilities.mask &&& flag capability != 0

/-- The mask of a list of capabilities. -/
def ofList (capabilities : List BackendCapability) : BackendCapabilities :=
  capabilities.foldl withCapability empty

def memory : BackendCapabilities := ofList [.batchRead, .batchWrite, .delete, .flush, .health]

def redis : BackendCapabilities :=
  ofList [.batchRead, .batchWrite, .delete, .flush, .ttl, .health, .remote]

end BackendCapabilities

/-! ## Errors -/

/-- Errors produced by safe key codecs. -/
inductive CodecError
  | payloadTooLarge (actual max : Nat)
  | invalidLength (expected actual : Nat)
  | invalidUtf8
  | invalidJson (message : String)
  deriving DecidableEq, Repr

/-- Errors produced by storage backends. The reason of an invalid descriptor is the text of
the index error it names here. -/
inductive BackendError
  | alreadyExists
  | notFound
  | duplicateKey (key : UInt64)
  | unsupportedCapability (capability : BackendCapability)
  | invalidRetention
  | invalidDescriptor (reason : LshError)
  | invalidNamespace (reason : String)
  | corruptData (reason : String)
  | lengthOverflow
  | codec (error : CodecError)
  | transport (operation message : String)
  deriving DecidableEq, Repr

/-! ## Descriptors -/

/-- A span of time: whole seconds, and nanoseconds below one second. -/
structure Duration where
  secs : UInt64
  nanos : UInt32
  subsecond : nanos < 1000000000
  deriving DecidableEq

/-- `Duration::from_secs`. -/
def Duration.fromSecs (secs : UInt64) : Duration := ⟨secs, 0, by decide⟩

def maxRetentionSeconds : UInt64 := ((1 : UInt64) <<< 53) - 1

/-- Retention that is no supported whole number of seconds. -/
def Duration.unsupported (value : Duration) : Bool :=
  value.secs == 0 || value.nanos != 0 || value.secs > maxRetentionSeconds

/-- Stable configuration shared by every backend for one index namespace: a validated index
configuration, and a supported retention period if there is one. -/
@[ext]
structure IndexDescriptor extends LshConfig where
  retention : Option Duration
  retained : retention.any Duration.unsupported = false

/-- Construct and validate a descriptor; the index it describes must be constructible. -/
def IndexDescriptor.new (threshold : F64) (numPerm : Nat) (seed : UInt64) (params : LshParams)
    (retention : Option Duration) : Except BackendError IndexDescriptor :=
  match h : retention.any Duration.unsupported with
  | true => .error .invalidRetention
  | false => do
      let config ← (LshConfig.new threshold numPerm seed params).mapError .invalidDescriptor
      return { config with retention, retained := h }

theorem IndexDescriptor.new_eq_ok_iff {threshold : F64} {numPerm : Nat} {seed : UInt64}
    {params : LshParams} {retention : Option Duration} {descriptor : IndexDescriptor} :
    IndexDescriptor.new threshold numPerm seed params retention = .ok descriptor ↔
      descriptor.threshold = threshold ∧ descriptor.numPerm = numPerm ∧ descriptor.seed = seed ∧
      descriptor.params = params ∧ descriptor.retention = retention := by
  rw [IndexDescriptor.new]
  split
  · next h =>
      refine ⟨nofun, ?_⟩
      rintro ⟨_, _, _, _, rfl⟩
      rw [descriptor.retained] at h
      cases h
  · next h =>
      simp only [bind_eq_ok_iff, mapError_eq_ok_iff, pure_eq_ok_iff, LshConfig.new_eq_ok_iff]
      constructor
      · rintro ⟨config, ⟨rfl, rfl, rfl, rfl⟩, rfl⟩
        exact ⟨rfl, rfl, rfl, rfl, rfl⟩
      · rintro ⟨rfl, rfl, rfl, rfl, rfl⟩
        exact ⟨descriptor.toLshConfig, ⟨rfl, rfl, rfl, rfl⟩, rfl⟩

/-! ## The contract -/

/-- One prepared backend record. -/
structure StoredItem where
  key : UInt64
  bandHashes : List UInt64
  deriving DecidableEq

/-- Observable storage statistics. -/
structure BackendStats where
  items : UInt64
  bucketMemberships : UInt64
  roundTrips : UInt64
  ttlSecondsRemaining : Option UInt64
  deriving DecidableEq

/-- Typed storage contract used by shared indexes. -/
class StorageBackend (β : Type) where
  capabilities : β → BackendCapabilities
  /-- Initialize an empty namespace with one validated index descriptor. -/
  initializeNamespace : IndexDescriptor → Method β BackendError Unit
  /-- Load the descriptor required to open an existing namespace. -/
  loadDescriptor : Method β BackendError IndexDescriptor
  /-- Test key existence while preserving input order. -/
  containsMany : List UInt64 → Method β BackendError (List Bool)
  /-- Insert one batch. -/
  insertMany : List StoredItem → Method β BackendError Unit
  /-- Read candidate members for each requested bucket in input order. -/
  queryBuckets : List BucketKey → Method β BackendError (List (List UInt64))
  /-- Delete keys in one batch. -/
  deleteMany : List UInt64 → Method β BackendError Nat
  flush : Method β BackendError Unit
  health : Method β BackendError Unit
  stats : Method β BackendError BackendStats
  /-- Delete only data owned by this backend namespace. -/
  cleanup : Method β BackendError Unit

end Pari.Backend
