/-
# The persistent index

Committed buckets stay in their file and are read when a query selects them; insertions
since the last commit live in overlay tables, and removed committed keys are suppressed.
This module is the part of the index that touches no file name: the state, the mutations,
the queries, and the encoding and decoding of snapshots. The signature scheme is a
parameter of the type, which the source keeps in a field and fixes in its two public
types. Query metrics, statistics and the lock around the open file are left out; the open
file of a base is represented by its bytes, which nothing writes any more.
-/

import Pari.Data.FileSystem
import Pari.Index.LshIndex
import Pari.Store.BucketMap
import Pari.Store.Directory

namespace Pari.Store

open Data Pari.Format Pari.Core Pari.Index

/-- Errors returned by the persistent local index. -/
inductive StoreError
  | io (error : IoError)
  | format (error : FormatError)
  | layout (error : LayoutError)
  | bucket (error : BucketError)
  | index (error : LshError)
  | invalidSnapshot (reason : String)
  | duplicateKey (key : UInt64)
  | incompatibleSeed (expected actual : UInt64)
  | incompatiblePermutationCount (expected actual : Nat)
  | lengthOverflow
  | invalidPath
  deriving DecidableEq, Repr

def StoreError.wrapping : ErrorWrapping StoreError where
  layout := .layout
  format := .format
  bucket := .bucket
  lengthOverflow := .lengthOverflow

def StoreError.words : WordErrors StoreError where
  missingCount := .invalidSnapshot "section is missing its record count"
  truncated := .invalidSnapshot "fixed-width u64 field is truncated"
  keysLength := .invalidSnapshot "keys section length does not match its record count"
  hashesLength := .invalidSnapshot
    "band-hash section length does not match metadata and record count"
  lengthOverflow := .lengthOverflow

/-! ## Reading a snapshot -/

def validateStoreMetadata (metadata : IndexMetadata) (expectedScheme : SignatureScheme) :
    Except StoreError Unit := do
  rejectIf (metadata.algorithm ≠ .minHashLsh)
    (.invalidSnapshot "snapshot algorithm is not MinHash LSH")
  rejectIf (metadata.signatureScheme ≠ expectedScheme)
    (.invalidSnapshot "snapshot signature scheme does not match the persistent index type")
  rejectIf (metadata.keyCodec ≠ .u64) (.invalidSnapshot "local store requires u64 keys")
  rejectIf (metadata.featureFlags ≠ 0)
    (.invalidSnapshot "local store does not support feature flags")

def missingSectionReason : SectionKind → String
  | .keys => "missing required keys section"
  | .bandHashes => "missing required band-hash section"
  | .buckets => "missing required bucket section"
  | .tombstones => "missing required tombstone section"

def duplicateSectionReason : SectionKind → String
  | .keys => "duplicate keys section"
  | .bandHashes => "duplicate band-hash section"
  | .buckets => "duplicate singleton bucket section"
  | .tombstones => "duplicate tombstone section"

def metadataSection (layout : FileLayout) (kind : SectionKind) :
    Except StoreError SectionDescriptor :=
  requiredUniqueSection (.invalidSnapshot (missingSectionReason kind))
    (.invalidSnapshot (duplicateSectionReason kind))
    (.invalidSnapshot "required metadata section is marked optional") layout kind

def collectBucketDescriptors (layout : FileLayout) : Except StoreError (List SectionDescriptor) :=
  collectBucketSections (.invalidSnapshot "lazy bucket sections must be required")
    (.invalidSnapshot "required tombstone sections are not supported") layout.sections

/-- The loop that fills the key map and refuses a key that is already there. -/
def insertUnique (keyHashes : OrderedMap UInt64 (List UInt64))
    (items : List (UInt64 × List UInt64)) :
    Except StoreError (OrderedMap UInt64 (List UInt64)) :=
  items.foldlM (fun keyHashes item => do
    rejectIf (keyHashes.contains item.1 = true)
      (.invalidSnapshot "duplicate key in persisted keys section")
    return keyHashes.insert item.1 item.2) keyHashes

def readKeyMetadata (crc : Checksum) (layout : FileLayout) (file : Bytes) (bands : Nat) :
    Except StoreError (OrderedMap UInt64 (List UInt64)) := do
  let keysDescriptor ← metadataSection layout .keys
  let hashesDescriptor ← metadataSection layout .bandHashes
  let keysPayload ← (layout.readSection crc file keysDescriptor).mapError .layout
  let hashesPayload ← (layout.readSection crc file hashesDescriptor).mapError .layout
  let keys ← decodeKeys StoreError.words keysPayload
  let rowsByKey ← decodeBandHashes StoreError.words hashesPayload bands
  rejectIf (keys.length ≠ rowsByKey.length)
    (.invalidSnapshot "key and band-hash record counts differ")
  insertUnique ∅ (keys.zip rowsByKey)

/-! ## Writing a snapshot -/

def wrongWidth : StoreError := .invalidSnapshot "in-memory band-hash row has the wrong width"

def encodeKeys (keys : List UInt64) : Except StoreError Bytes := do
  let count ← okOr (tryU64 keys.length) .lengthOverflow
  let words ← okOr (checkedMul keys.length 8) .lengthOverflow
  let _capacity ← okOr (checkedAdd 8 words) .lengthOverflow
  return u64Bytes count ++ u64List keys

def encodeBandHashes (rows : List (List UInt64)) (bands : Nat) : Except StoreError Bytes := do
  let count ← okOr (tryU64 rows.length) .lengthOverflow
  let values ← okOr (checkedMul rows.length bands) .lengthOverflow
  let words ← okOr (checkedMul values 8) .lengthOverflow
  let _capacity ← okOr (checkedAdd 8 words) .lengthOverflow
  rows.foldlM (fun output hashes => do
    rejectIf (hashes.length ≠ bands) wrongWidth
    return output ++ u64List hashes) (u64Bytes count)

def materializeSortedBuckets (keyHashes : OrderedMap UInt64 (List UInt64)) (bands : Nat) :
    Except StoreError (Table BucketKey UInt64) :=
  keyHashes.toList.foldlM (fun buckets item => do
    rejectIf (item.2.length ≠ bands) wrongWidth
    fileRow .lengthOverflow buckets item.1 item.2) ∅

/-! ## The state -/

/-- The committed buckets: an open file and where its buckets lie. -/
structure LazyBase where
  file : Bytes
  layout : FileLayout
  buckets : List BucketLocation

structure PersistentIndexCore (scheme : SignatureScheme) where
  path : Path
  config : LshConfig
  base : Option LazyBase
  overlayBuckets : List (Table UInt64 UInt64)
  overlayKeys : OrderedSet UInt64
  suppressedBaseKeys : OrderedSet UInt64
  keyHashes : OrderedMap UInt64 (List UInt64)
  dirty : Bool

abbrev PersistentIndex32 := PersistentIndexCore .pariAffine32V1
abbrev PersistentIndex64 := PersistentIndexCore .pariAffine64V1

def emptyBucketTables (bands : Nat) : List (Table UInt64 UInt64) := List.replicate bands ∅

namespace PersistentIndexCore

variable {scheme : SignatureScheme}

def empty (scheme : SignatureScheme) (path : Path) (config : LshConfig) :
    PersistentIndexCore scheme where
  path
  config
  base := none
  overlayBuckets := emptyBucketTables config.params.bands
  overlayKeys := ∅
  suppressedBaseKeys := ∅
  keyHashes := ∅
  dirty := true

/-! ## Mutations -/

/-- One turn of `rebuild_overlay_all`. -/
def rebuildOverlayKey (bands : Nat) (overlay : List (Table UInt64 UInt64) × OrderedSet UInt64)
    (item : UInt64 × List UInt64) :
    Except StoreError (List (Table UInt64 UInt64) × OrderedSet UInt64) := do
  rejectIf (item.2.length ≠ bands) wrongWidth
  return (addRow overlay.1 item.2 item.1, overlay.2.insert item.1)

/-- Move every live key into the overlay and forget the committed buckets. -/
def rebuildOverlayAll (core : PersistentIndexCore scheme) :
    Except StoreError (PersistentIndexCore scheme) := do
  let (overlay, overlayKeys) ← core.keyHashes.toList.foldlM
    (rebuildOverlayKey core.config.params.bands)
    (emptyBucketTables core.config.params.bands, ∅)
  return { core with
    overlayBuckets := overlay
    overlayKeys := overlayKeys
    suppressedBaseKeys := ∅
    base := none }

def insertOverlay (core : PersistentIndexCore scheme) (key : UInt64) (hashes : List UInt64) :
    PersistentIndexCore scheme :=
  { core with
    overlayBuckets := addRow core.overlayBuckets hashes key
    overlayKeys := core.overlayKeys.insert key
    keyHashes := core.keyHashes.insert key hashes }

/-- The validation loop over a batch. -/
def validateBatch (core : PersistentIndexCore scheme) :
    OrderedSet UInt64 → List (UInt64 × List UInt64) → Except StoreError Unit
  | _, [] => .ok ()
  | batchKeys, (key, _) :: prepared => do
      rejectIf (core.keyHashes.contains key ∨ batchKeys.contains key) (.duplicateKey key)
      validateBatch core (batchKeys.insert key) prepared

/-- File a validated batch; a batch with any keys makes the index dirty. -/
def insertPrepared (core : PersistentIndexCore scheme) (prepared : List (UInt64 × List UInt64)) :
    PersistentIndexCore scheme :=
  let inserted := prepared.foldl (fun core item => core.insertOverlay item.1 item.2) core
  { inserted with dirty := if prepared.isEmpty then inserted.dirty else true }

def insertHashesMany (core : PersistentIndexCore scheme)
    (prepared : List (UInt64 × List UInt64)) :
    Except StoreError Unit × PersistentIndexCore scheme :=
  match core.validateBatch ∅ prepared with
  | .error error => (.error error, core)
  | .ok () => (.ok (), core.insertPrepared prepared)

/-- Forget a live key: take it out of the overlay, and hide a committed generation of it. -/
def removeLive (core : PersistentIndexCore scheme) (key : UInt64) (hashes : List UInt64) :
    PersistentIndexCore scheme :=
  let wasOverlay := core.overlayKeys.contains key
  { core with
    keyHashes := core.keyHashes.erase key
    overlayKeys := core.overlayKeys.erase key
    overlayBuckets := removeRow core.overlayBuckets hashes key
    suppressedBaseKeys :=
      if core.base.isSome && !wasOverlay then core.suppressedBaseKeys.insert key
      else core.suppressedBaseKeys
    dirty := true }

def remove (core : PersistentIndexCore scheme) (key : UInt64) :
    Bool × PersistentIndexCore scheme :=
  match core.keyHashes[key]? with
  | none => (false, core)
  | some hashes => (true, core.removeLive key hashes)

/-! ## Queries -/

section Queries

variable (crc : Checksum)

/-- The members of the committed buckets a query selects, as far as they are live and not
suppressed. -/
def collectBaseCandidates (base : LazyBase) (hashes : List UInt64)
    (liveKeys : OrderedMap UInt64 (List UInt64)) (suppressed : OrderedSet UInt64)
    (output : OrderedSet UInt64) : Except StoreError (OrderedSet UInt64) :=
  collectMembers StoreError.wrapping crc base.layout base.file base.buckets
    (fun member => liveKeys.contains member && !suppressed.contains member) 0 hashes output

/-- The candidates of the base, if there is one, before those of the overlay. -/
def collectCommitted (core : PersistentIndexCore scheme) (hashes : List UInt64)
    (output : OrderedSet UInt64) : Except StoreError (OrderedSet UInt64) :=
  match core.base with
  | none => .ok output
  | some base => collectBaseCandidates crc base hashes core.keyHashes core.suppressedBaseKeys output

def collectCandidates (core : PersistentIndexCore scheme) (hashes : List UInt64)
    (output : OrderedSet UInt64) : Except StoreError (OrderedSet UInt64) := do
  let output ← core.collectCommitted crc hashes output
  let output := output.insertMany (candidates core.overlayBuckets hashes)
  return output.filter fun key => core.keyHashes.contains key

def queryHashes (core : PersistentIndexCore scheme) (hashes : List UInt64) :
    Except StoreError (List UInt64) := do
  let found ← core.collectCandidates crc hashes ∅
  return sortUnstable found.toList

def bandHashes (core : PersistentIndexCore scheme) (sketch : MinHash scheme) :
    Except StoreError (List UInt64) := do
  rejectIf (sketch.seed ≠ core.config.seed) (.incompatibleSeed core.config.seed sketch.seed)
  rejectIf (sketch.numPerm ≠ core.config.numPerm)
    (.incompatiblePermutationCount core.config.numPerm sketch.numPerm)
  let _used ← okOr core.config.params.usedPermutations .lengthOverflow
  return computeBandHashes core.config.params sketch.signature

def query (core : PersistentIndexCore scheme) (sketch : MinHash scheme) :
    Except StoreError (List UInt64) := do
  let hashes ← core.bandHashes sketch
  core.queryHashes crc hashes

/-- All band hashes are computed before the first query runs; the scratch set is cleared
before each. -/
def queryMany (core : PersistentIndexCore scheme) (sketches : List (MinHash scheme)) :
    Except StoreError (List (List UInt64)) := do
  let hashesByQuery ← sketches.mapM core.bandHashes
  hashesByQuery.mapM (core.queryHashes crc)

end Queries

/-- All band hashes are computed before the batch is validated. -/
def insertMany (core : PersistentIndexCore scheme) (items : List (UInt64 × MinHash scheme)) :
    Except StoreError Unit × PersistentIndexCore scheme :=
  let prepared := items.mapM fun item => do
    let hashes ← core.bandHashes item.2
    return (item.1, hashes)
  match prepared with
  | .error error => (.error error, core)
  | .ok prepared => core.insertHashesMany prepared

def contains (core : PersistentIndexCore scheme) (key : UInt64) : Bool := core.keyHashes.contains key

def len (core : PersistentIndexCore scheme) : Nat := core.keyHashes.size

/-! ## Snapshots -/

def snapshotMetadata (core : PersistentIndexCore scheme) : Except StoreError IndexMetadata := do
  let numPerm ← okOr (tryU32 core.config.numPerm) .lengthOverflow
  let bands ← okOr (tryU32 core.config.params.bands) .lengthOverflow
  let rows ← okOr (tryU32 core.config.params.rows) .lengthOverflow
  (IndexMetadata.new .minHashLsh scheme .u64 numPerm core.config.seed core.config.threshold
    bands rows 0).mapError .format

def encodeSnapshot (crc : Checksum) (core : PersistentIndexCore scheme) :
    Except StoreError Bytes := do
  let metadata ← core.snapshotMetadata
  let keys ← encodeKeys (core.keyHashes.toList.map Prod.fst)
  let hashes ← encodeBandHashes (core.keyHashes.toList.map Prod.snd) core.config.params.bands
  let keysSection ← (Section.new .keys true keys).mapError .format
  let hashesSection ← (Section.new .bandHashes true hashes).mapError .format
  let buckets ← materializeSortedBuckets core.keyHashes core.config.params.bands
  let sections ← appendBucketSections StoreError.wrapping crc [keysSection, hashesSection] (recordsOf buckets)
  let file ← (IndexFile.new metadata sections).mapError .format
  (file.encode crc).mapError .format

def openLegacy (path : Path) (config : LshConfig)
    (keyHashes : OrderedMap UInt64 (List UInt64)) : Except StoreError (PersistentIndexCore scheme) := do
  let store ← ({ empty scheme path config with keyHashes } : PersistentIndexCore scheme).rebuildOverlayAll
  return { store with dirty := true }

/-- The committed buckets of a file with bucket sections; without any, the snapshot is a
legacy one. -/
def openBuckets (crc : Checksum) (path : Path) (file : Bytes) (layout : FileLayout)
    (config : LshConfig) (keyHashes : OrderedMap UInt64 (List UInt64))
    (descriptors : List SectionDescriptor) : Except StoreError (PersistentIndexCore scheme) :=
  if descriptors.isEmpty then openLegacy path config keyHashes
  else do
    let buckets ← readDirectory StoreError.wrapping crc layout file config.params.bands descriptors
    return {
      path, config, keyHashes
      base := some { file, layout, buckets }
      overlayBuckets := emptyBucketTables config.params.bands
      overlayKeys := ∅
      suppressedBaseKeys := ∅
      dirty := false }

/-- `open`, once the file is open. -/
def openFile (crc : Checksum) (path : Path) (file : Bytes) :
    Except StoreError (PersistentIndexCore scheme) := do
  let layout ← (FileLayout.readFrom crc file).mapError .layout
  validateStoreMetadata layout.metadata scheme
  let config ← (LshConfig.new layout.metadata.threshold layout.metadata.numPerm.toNat
    layout.metadata.seed ⟨layout.metadata.bands.toNat, layout.metadata.rows.toNat⟩).mapError .index
  let keyHashes ← readKeyMetadata crc layout file config.params.bands
  let descriptors ← collectBucketDescriptors layout
  openBuckets crc path file layout config keyHashes descriptors

end PersistentIndexCore

end Pari.Store
