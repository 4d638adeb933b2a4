/-
# The lazy index

A lazy index keeps the directory of a file in memory and reads the members of a bucket when a
query selects it. It has no map of live keys: whatever a selected bucket lists is an answer. The
signature scheme is a parameter of the type, as in the persistent index. Query metrics,
statistics and plans are left out; the open file is its bytes.
-/

import Pari.Lazy.Publish
import Pari.Store.Opening

namespace Pari.Lazy

open Data Pari.Format Pari.Core Pari.Index Pari.Store

def LazyStoreError.wrapping : ErrorWrapping LazyStoreError where
  layout := .layout
  format := .format
  bucket := .bucket
  lengthOverflow := .lengthOverflow

/-! ## Opening -/

def validateMetadata (metadata : IndexMetadata) (expectedScheme : Option SignatureScheme) :
    Except LazyStoreError Unit := do
  rejectIf (metadata.algorithm ≠ .minHashLsh) (.invalidSnapshot "algorithm is not MinHash LSH")
  rejectIf (∃ scheme ∈ expectedScheme, metadata.signatureScheme ≠ scheme)
    (.invalidSnapshot "signature scheme does not match the lazy index type")
  rejectIf (metadata.keyCodec ≠ .u64) (.invalidSnapshot "lazy v1 store requires u64 keys")
  rejectIf (metadata.featureFlags ≠ 0)
    (.invalidSnapshot "lazy v1 store does not support feature flags")

/-- Build and drop an in-memory index with the configuration. -/
def validateLshConfiguration (scheme : SignatureScheme) (threshold : F64) (numPerm : Nat)
    (seed : UInt64) (params : LshParams) : Except LazyStoreError Unit := do
  let _index ← (LshIndex.withParams scheme threshold numPerm seed params).mapError .index
  return ()

/-- The texts are those of the store. -/
def metadataSection (layout : FileLayout) (kind : SectionKind) :
    Except LazyStoreError SectionDescriptor :=
  requiredUniqueSection (.invalidSnapshot (missingSectionReason kind))
    (.invalidSnapshot (duplicateSectionReason kind))
    (.invalidSnapshot "required metadata section is marked optional") layout kind

/-- `collect_bucket_sections`. -/
def bucketSectionsOf (layout : FileLayout) : Except LazyStoreError (List SectionDescriptor) :=
  collectBucketSections (.invalidSnapshot "bucket sections must be required")
    (.invalidSnapshot "required tombstone sections are not supported") layout.sections

def readSourceCount (layout : FileLayout) (file : Bytes) (descriptor : SectionDescriptor) :
    Except LazyStoreError Nat := do
  let bytes ← (layout.readSectionRange file descriptor 0 8).mapError .layout
  let count ← okOr (u64Exact? bytes) (.invalidSnapshot "truncated fixed-width u64")
  return count.toNat

structure LazyIndexCore (scheme : SignatureScheme) where
  file : Bytes
  layout : FileLayout
  bucketSections : List SectionDescriptor
  directory : List BucketLocation
  itemCount : Nat
  numPerm : Nat
  seed : UInt64
  params : LshParams

abbrev LazyIndex32 := LazyIndexCore .pariAffine32V1
abbrev LazyIndex64 := LazyIndexCore .pariAffine64V1

namespace LazyIndexCore

/-- `open`, once the file is open. -/
def openFile (crc : Checksum) (scheme : SignatureScheme) (file : Bytes) :
    Except LazyStoreError (LazyIndexCore scheme) := do
  let layout ← (FileLayout.readFrom crc file).mapError .layout
  validateMetadata layout.metadata (some scheme)
  let keysSection ← metadataSection layout .keys
  let bucketSections ← bucketSectionsOf layout
  rejectIf (bucketSections.isEmpty = true) (.invalidSnapshot "missing required bucket sections")
  let itemCount ← readSourceCount layout file keysSection
  let numPerm := layout.metadata.numPerm.toNat
  let params : LshParams := ⟨layout.metadata.bands.toNat, layout.metadata.rows.toNat⟩
  validateLshConfiguration scheme layout.metadata.threshold numPerm layout.metadata.seed params
  let directory ← readDirectory LazyStoreError.wrapping crc layout file params.bands bucketSections
  return {
    file, layout, bucketSections, directory, itemCount, numPerm
    seed := layout.metadata.seed
    params }

def openPath (crc : Checksum) (scheme : SignatureScheme) (path : Path) (world : World) :
    Except LazyStoreError (LazyIndexCore scheme) × World :=
  match world.openRead path with
  | (.error error, world) => (.error (.io error), world)
  | (.ok file, world) => (openFile crc scheme file, world)

/-! ## Queries -/

section Queries

variable {scheme : SignatureScheme} (crc : Checksum) (index : LazyIndexCore scheme)

/-- Every member of a selected bucket is a candidate. -/
def collectCandidates (hashes : List UInt64) (output : OrderedSet UInt64) :
    Except LazyStoreError (OrderedSet UInt64) :=
  collectMembers LazyStoreError.wrapping crc index.layout index.file index.directory
    (fun _ => true) 0 hashes output

def queryHashes (hashes : List UInt64) : Except LazyStoreError (List UInt64) := do
  let candidates ← index.collectCandidates crc hashes ∅
  return sortUnstable candidates.toList

/-- The scratch set is cleared before each query. -/
def queryHashesMany (hashesByQuery : List (List UInt64)) :
    Except LazyStoreError (List (List UInt64)) :=
  hashesByQuery.mapM (index.queryHashes crc)

def bandHashes (sketch : MinHash scheme) : Except LazyStoreError (List UInt64) := do
  rejectIf (sketch.seed ≠ index.seed) (.incompatibleSeed index.seed sketch.seed)
  rejectIf (sketch.numPerm ≠ index.numPerm)
    (.incompatiblePermutationCount index.numPerm sketch.numPerm)
  let used ← okOr index.params.usedPermutations .lengthOverflow
  return (chunksExact index.params.rows (sketch.signature.take used)).map (hashBand scheme)

def query (sketch : MinHash scheme) : Except LazyStoreError (List UInt64) := do
  let hashes ← index.bandHashes sketch
  index.queryHashes crc hashes

/-- All band hashes are computed before the first query runs. -/
def queryMany (sketches : List (MinHash scheme)) : Except LazyStoreError (List (List UInt64)) := do
  let hashesByQuery ← sketches.mapM index.bandHashes
  index.queryHashesMany crc hashesByQuery

end Queries

end LazyIndexCore

/-! ## What the checks accept -/

section Checking

variable {scheme : SignatureScheme} {metadata : IndexMetadata}

theorem validateMetadata_eq_ok_iff {expectedScheme : Option SignatureScheme} {result : Unit} :
    validateMetadata metadata expectedScheme = .ok result ↔
      (∀ scheme ∈ expectedScheme, metadata.signatureScheme = scheme) ∧
        metadata.keyCodec = .u64 ∧ metadata.featureFlags = 0 := by
  simp only [validateMetadata, bind_eq_ok_iff, rejectIf_eq_ok_iff, not_not, exists_const, ne_eq,
    not_exists, not_and, eq_minHashLsh, true_and]

theorem validateLshConfiguration_eq_ok_iff {threshold : F64} {numPerm : Nat} {seed : UInt64}
    {params : LshParams} {result : Unit} :
    validateLshConfiguration scheme threshold numPerm seed params = .ok result ↔
      ∃ config : LshConfig, config.threshold = threshold ∧ config.numPerm = numPerm ∧
        config.seed = seed ∧ config.params = params := by
  simp only [validateLshConfiguration, LshIndex.withParams, bind_eq_ok_iff, mapError_eq_ok_iff,
    LshConfig.new_eq_ok_iff, pure_eq_ok_iff]
  constructor
  · rintro ⟨_, ⟨config, hconfig, _⟩, _⟩
    exact ⟨config, hconfig⟩
  · rintro ⟨config, hconfig⟩
    exact ⟨_, ⟨config, hconfig, rfl⟩, trivial⟩

end Checking

/-! ## Opened indexes -/

namespace LazyIndexCore

variable {scheme : SignatureScheme} {crc : Checksum} {config : LshConfig} {file : Bytes}

/-- An index with a configuration whose directory holds records. -/
structure Holds (crc : Checksum) (index : LazyIndexCore scheme) (config : LshConfig)
    (records : List BucketRecord) : Prop where
  numPerm : index.numPerm = config.numPerm
  seed : index.seed = config.seed
  params : index.params = config.params
  directory : DirectoryHolds crc index.layout index.file index.directory records

/-- A file that holds a snapshot with bucket sections opens, and its directory holds the records
of its segments. -/
theorem openFile_of_snapshot {layout : FileLayout} {keys : List UInt64} {hashes : Bytes}
    {groups : List (List BucketRecord)} (hread : FileLayout.readFrom crc file = .ok layout)
    (hmetadata : MetadataFor scheme config layout.metadata)
    (h : IsSnapshot crc layout file (countedKeys keys) hashes groups) (hgroups : groups ≠ [])
    (hascending : Ascending (groups.flatten.map (·.key)))
    (hcounts : ∀ record ∈ groups.flatten, record.members.length < 2 ^ 32)
    (hbands : ∀ record ∈ groups.flatten, record.key.band.toNat < config.params.bands) :
    ∃ index : LazyIndexCore scheme, openFile crc scheme file = .ok index ∧
      index.Holds crc config groups.flatten := by
  have hvalid : validateMetadata layout.metadata (some scheme) = .ok () :=
    validateMetadata_eq_ok_iff.mpr
      ⟨by simp [hmetadata.signatureScheme], hmetadata.keyCodec, hmetadata.featureFlags⟩
  have hconfiguration : validateLshConfiguration scheme layout.metadata.threshold
      layout.metadata.numPerm.toNat layout.metadata.seed
      ⟨layout.metadata.bands.toNat, layout.metadata.rows.toNat⟩ = .ok () :=
    validateLshConfiguration_eq_ok_iff.mpr ⟨config, hmetadata.threshold.symm,
      hmetadata.numPerm.symm, hmetadata.seed.symm, by rw [hmetadata.bands, hmetadata.rows]⟩
  obtain ⟨keysDescriptor, hkeysSection, hkeysRead⟩ : ∃ descriptor,
      metadataSection layout .keys = .ok descriptor ∧
        layout.readSection crc file descriptor = .ok (countedKeys keys) :=
    (exists_requiredSection_iff h.describes).mpr h.metadataSections.1
  have hkeysMem : keysDescriptor ∈ layout.sections :=
    (List.mem_filter.mp (by
      rw [(requiredUniqueSection_eq_ok_iff.mp hkeysSection).1]
      exact List.mem_singleton_self _)).1
  obtain ⟨count, hcount⟩ : ∃ count, readSourceCount layout file keysDescriptor = .ok count := by
    obtain ⟨hpayload, _⟩ := (readSection_eq_ok_iff h.describes hkeysMem).mp hkeysRead
    have hlength := length_payloadIn h.describes hkeysMem
    rw [hpayload, length_countedKeys] at hlength
    have hwindow : (window 0 8 (keysDescriptor.payloadIn file)).length = 8 := by
      apply length_window
      rw [hpayload, length_countedKeys]
      omega
    refine ⟨(u64OfBytes (window 0 8 (keysDescriptor.payloadIn file))).toNat, ?_⟩
    have hrange := (readSectionRange_eq_ok_iff h.describes hkeysMem).mpr
      ⟨show 0 + 8 ≤ keysDescriptor.payloadLength by omega, rfl⟩
    rw [readSourceCount, hrange, mapError_ok, ok_bind, u64Exact?_of_length hwindow, okOr_some]
    rfl
  obtain ⟨descriptors, hdescriptors, hsegments⟩ : ∃ descriptors,
      bucketSectionsOf layout = .ok descriptors ∧
        List.Forall₂ (HoldsSegment crc layout file config.params.bands) groups descriptors :=
    h.bucketSections hascending hcounts hbands
  obtain ⟨directory, hdirectory, hholds⟩ := @readDirectory_of_segments _ LazyStoreError.wrapping
    crc layout file config.params.bands h.describes (PersistentIndexCore.bands_lt config) groups
    descriptors hsegments hascending
  have hnonempty : ¬ descriptors.isEmpty = true := by
    rw [List.isEmpty_iff]
    rintro rfl
    exact hgroups (List.forall₂_nil_right_iff.mp hsegments)
  rw [← hmetadata.bands] at hdirectory
  refine ⟨⟨file, layout, descriptors, directory, count, layout.metadata.numPerm.toNat,
    layout.metadata.seed, ⟨layout.metadata.bands.toNat, layout.metadata.rows.toNat⟩⟩, ?_,
    hmetadata.numPerm, hmetadata.seed, by rw [hmetadata.bands, hmetadata.rows], hholds⟩
  rw [openFile, hread, mapError_ok, ok_bind, hvalid, ok_bind, hkeysSection, ok_bind, hdescriptors,
    ok_bind, rejectIf_of_not hnonempty, ok_bind, hcount, ok_bind]
  dsimp only
  rw [hconfiguration, ok_bind, hdirectory, ok_bind]
  rfl

/-! ## Answers -/

section Answering

variable {index : LazyIndexCore scheme} {records : List BucketRecord} {rows : Rows}

theorem Holds.bandHashes (h : index.Holds crc config records) {sketch : MinHash scheme}
    (hsketch : config.Compatible sketch) :
    index.bandHashes sketch = .ok (computeBandHashes config.params sketch.signature) := by
  obtain ⟨_, _, hword, _, _, hused⟩ := config.bounds
  have hseed : ¬ sketch.seed ≠ index.seed := not_not.mpr (hsketch.seed.trans h.seed.symm)
  have hnumPerm : ¬ sketch.numPerm ≠ index.numPerm :=
    not_not.mpr (hsketch.numPerm.trans h.numPerm.symm)
  have hproduct : index.params.usedPermutations =
      some (config.params.bands * config.params.rows) := by
    rw [h.params]
    exact checkedMul_of_lt (by omega)
  rw [LazyIndexCore.bandHashes, rejectIf_of_not hseed, ok_bind, rejectIf_of_not hnumPerm, ok_bind,
    hproduct, okOr_some, ok_bind, h.params]
  rfl

/-- A lazy index whose records select some rows answers a query with the ascending list of the
keys that share a band with it. -/
theorem Holds.query (h : index.Holds crc config records)
    (hselect : RecordsSelect records config.params.bands rows) {sketch : MinHash scheme}
    (hsketch : config.Compatible sketch) :
    ∃ keys, index.query crc sketch = .ok keys ∧ Ascending keys ∧
      ∀ key, key ∈ keys ↔ ∃ row, rows key = some row ∧
        SharesBand row (computeBandHashes config.params sketch.signature) := by
  obtain ⟨found, hfound, hmem⟩ := @DirectoryHolds.collectMembers_rows _ LazyStoreError.wrapping
    crc _ _ _ _ _ _ h.directory hselect (PersistentIndexCore.bands_lt config) (fun _ => true)
    (computeBandHashes config.params sketch.signature) hsketch.length_bandHashes ∅
  refine ⟨sortUnstable found.toList, ?_, sortUnstable_ascending ascending_toList.nodup, ?_⟩
  · rw [LazyIndexCore.query, h.bandHashes hsketch, ok_bind, LazyIndexCore.queryHashes,
      collectCandidates, hfound]
    rfl
  · intro key
    rw [mem_sortUnstable, Std.ExtTreeSet.mem_toList, hmem]
    simp

end Answering

end LazyIndexCore

end Pari.Lazy
