/-
# Building a lazy index in memory

`build_from_snapshot` reads the two metadata sections of a snapshot, collects the bucket map, and
frames it into segments behind the sections it read. Existing bucket sections and tombstones of
the source are not looked at. The file it writes is the container a commit of the same items
writes.
-/

import Pari.Lazy.Index
import Pari.Store.Source

namespace Pari.Lazy

open Data Pari.Format Pari.Index Pari.Store

def LazyStoreError.words : WordErrors LazyStoreError where
  missingCount := .invalidSnapshot "phase-1 section is missing its record count"
  truncated := .invalidSnapshot "truncated fixed-width u64"
  keysLength := .invalidSnapshot "phase-1 keys payload length is invalid"
  hashesLength := .invalidSnapshot "phase-1 band-hash payload length is invalid"
  lengthOverflow := .lengthOverflow

/-- The loop that files every key under the hashes of its row. -/
def collectBuckets (keys : List UInt64) (rows : List (List UInt64)) :
    Except LazyStoreError (Table BucketKey UInt64) :=
  (keys.zip rows).foldlM
    (fun buckets item => fileRow .lengthOverflow buckets item.1 item.2) ∅

def cloneMetadata (metadata : IndexMetadata) : Except LazyStoreError IndexMetadata :=
  (IndexMetadata.new metadata.algorithm metadata.signatureScheme metadata.keyCodec
    metadata.numPerm metadata.seed metadata.threshold metadata.bands metadata.rows
    metadata.featureFlags).mapError .format

/-- `build_from_snapshot`, from the open source to the bytes it publishes. -/
def encodeFromSnapshot (crc : Checksum) (file : Bytes) : Except LazyStoreError Bytes := do
  let layout ← (FileLayout.readFrom crc file).mapError .layout
  validateMetadata layout.metadata none
  let keysDescriptor ← metadataSection layout .keys
  let hashesDescriptor ← metadataSection layout .bandHashes
  let keysPayload ← (layout.readSection crc file keysDescriptor).mapError .layout
  let hashesPayload ← (layout.readSection crc file hashesDescriptor).mapError .layout
  let keys ← decodeKeys LazyStoreError.words keysPayload
  let rows ← decodeBandHashes LazyStoreError.words hashesPayload layout.metadata.bands.toNat
  rejectIf (keys.length ≠ rows.length)
    (.invalidSnapshot "phase-1 key and band-hash counts differ")
  let buckets ← collectBuckets keys rows
  let metadata ← cloneMetadata layout.metadata
  let keysSection ← (Section.new .keys true keysPayload).mapError .format
  let hashesSection ← (Section.new .bandHashes true hashesPayload).mapError .format
  let sections ← appendBucketSections LazyStoreError.wrapping crc [keysSection, hashesSection]
    (recordsOf buckets)
  let output ← (IndexFile.new metadata sections).mapError .format
  (output.encode crc).mapError .format

/-! ## What is built -/

section Building

variable {crc : Checksum} {layout : FileLayout} {file bytes : Bytes}
  {items : List (UInt64 × List UInt64)}

theorem collectBuckets_eq_ok_iff {keys : List UInt64} {rows : List (List UInt64)}
    {buckets : Table BucketKey UInt64} (hwidth : ∀ item ∈ keys.zip rows, item.2.length < 2 ^ 32) :
    collectBuckets keys rows = .ok buckets ↔
      buckets = collectTable (bucketEntries (keys.zip rows)) := by
  rw [collectBuckets, foldlM_fileRow hwidth, Except.ok.injEq, eq_comm]
  rfl

/-- The lazy crate's texts do not matter to what its metadata sections hold. -/
theorem exists_metadataItems_iff (hread : FileLayout.readFrom crc file = .ok layout)
    {keys : List UInt64} {rows : List (List UInt64)} {keysPayload hashesPayload : Bytes} :
    ((∃ descriptor, metadataSection layout .keys = .ok descriptor ∧
          layout.readSection crc file descriptor = .ok keysPayload) ∧
        (∃ descriptor, metadataSection layout .bandHashes = .ok descriptor ∧
          layout.readSection crc file descriptor = .ok hashesPayload) ∧
        decodeKeys LazyStoreError.words keysPayload = .ok keys ∧
        decodeBandHashes LazyStoreError.words hashesPayload layout.metadata.bands.toNat =
          .ok rows ∧ keys.length = rows.length) ↔
      ∃ items, HoldsItems crc layout file layout.metadata.bands.toNat items ∧
        keys = items.map Prod.fst ∧ rows = items.map Prod.snd ∧
        keysPayload = countedKeys keys ∧ hashesPayload = countedRows rows :=
  @exists_items_iff _ crc layout file LazyStoreError.words
    (fun kind => .invalidSnapshot (missingSectionReason kind))
    (fun kind => .invalidSnapshot (duplicateSectionReason kind))
    (.invalidSnapshot "required metadata section is marked optional") hread _ _ _ _

/-- Building in memory succeeds exactly when the items fit, and writes the container a commit of
them writes. -/
theorem encodeFromSnapshot_eq_ok_iff :
    encodeFromSnapshot crc file = .ok bytes ↔ ∃ layout items, SourceHolds crc layout file items ∧
      FitsSnapshot layout.metadata.bands.toNat items ∧
      bytes = containerBytes crc layout.metadata (snapshotFrames crc items) := by
  have hascending : ∀ items, ∀ group ∈ segmentsOf (bucketRecords items),
      Ascending (group.map (·.key)) := fun _ _ => ascending_of_mem_segmentsOf
  simp only [encodeFromSnapshot, bind_eq_ok_iff, mapError_eq_ok_iff, validateMetadata_eq_ok_iff,
    rejectIf_eq_ok_iff, exists_const, not_not, ne_eq, Section.new_eq_ok_iff,
    appendBucketSections_eq_ok_iff, IndexFile.new_eq_ok_iff, IndexFile.encode_eq_ok,
    Except.ok.injEq, cloneMetadata, IndexMetadata.new_eq_ok]
  constructor
  · rintro ⟨layout, hread, ⟨-, hcodec, hflags⟩, keysDescriptor, hkeysSection, hashesDescriptor,
      hhashesSection, keysPayload, hkeysRead, hashesPayload, hhashesRead, keys, hkeys, rows, hrows,
      hcount, buckets, hbuckets, _, rfl, keysSection, ⟨hkeysKind, hkeysRequired, hkeysPayload⟩,
      hashesSection, ⟨hhashesKind, hhashesRequired, hhashesPayload⟩, _, ⟨framed, hframed, rfl⟩,
      output, ⟨hmetadata, hsections⟩, rfl⟩
    obtain ⟨items, hitems, rfl, rfl, rfl, rfl⟩ := (exists_metadataItems_iff hread).mp
      ⟨⟨keysDescriptor, hkeysSection, hkeysRead⟩, ⟨hashesDescriptor, hhashesSection, hhashesRead⟩,
        hkeys, hrows, hcount⟩
    have hsource : SourceHolds crc layout file items := ⟨hread, hcodec, hflags, hitems⟩
    have hzip := zip_fst_snd items
    have hwidth := hsource.width_lt
    rw [collectBuckets_eq_ok_iff (by rwa [hzip]), hzip] at hbuckets
    subst hbuckets
    obtain ⟨hsegments, hframes⟩ :=
      (exists_framesSegment_iff (hascending items)).mp ⟨framed, hframed, rfl⟩
    refine ⟨layout, items, hsource, ⟨hitems.width, ?_, ?_, hsegments, ?_⟩, ?_⟩
    · exact hkeysPayload ▸ keysSection.bounded
    · exact hhashesPayload ▸ hashesSection.bounded
    · have hbounded := output.bounded
      rw [hsections, List.length_append, ← List.Forall₂.length_eq hframed] at hbounded
      exact le_trans (Nat.le_of_eq (Nat.add_comm _ _)) hbounded
    · rw [hmetadata, hsections, List.map_append, hframes, List.map_cons, List.map_cons,
        List.map_nil, Frame.ofSection_eq_frame hkeysKind hkeysRequired hkeysPayload,
        Frame.ofSection_eq_frame hhashesKind hhashesRequired hhashesPayload]
      rfl
  · rintro ⟨layout, items, hsource, hfits, rfl⟩
    obtain ⟨⟨keysDescriptor, hkeysSection, hkeysRead⟩, ⟨hashesDescriptor, hhashesSection,
      hhashesRead⟩, hkeys, hrows, hcount⟩ := (exists_metadataItems_iff hsource.read).mpr
        ⟨items, hsource.items, rfl, rfl, rfl, rfl⟩
    obtain ⟨framed, hframed, hframes⟩ :=
      (@exists_framesSegment_iff crc _ (hascending items) _).mpr ⟨hfits.segments, rfl⟩
    have hzip := zip_fst_snd items
    have hsections : 2 + framed.length ≤ maxSectionCount := by
      rw [← List.Forall₂.length_eq hframed, Nat.add_comm]
      exact hfits.count
    have hwidth := hsource.width_lt
    refine ⟨layout, hsource.read, ⟨by simp, hsource.keyCodec, hsource.featureFlags⟩,
      keysDescriptor, hkeysSection, hashesDescriptor, hhashesSection, _, hkeysRead, _, hhashesRead,
      _, hkeys, _, hrows, hcount, _, (collectBuckets_eq_ok_iff (by rwa [hzip])).mpr rfl, _, rfl,
      ⟨.keys, true, _, hfits.keys⟩, ⟨rfl, rfl, rfl⟩, ⟨.bandHashes, true, _, hfits.hashes⟩,
      ⟨rfl, rfl, rfl⟩, _, ⟨framed, ?_, rfl⟩,
      ⟨layout.metadata, [_, _] ++ framed, by rwa [List.length_append]⟩, ⟨rfl, rfl⟩, ?_⟩
    · rw [hzip]
      exact hframed
    · rw [snapshotFrames, sectionsOf, snapshotSections, List.map_append, ← hframes]
      rfl

end Building

end Pari.Lazy
