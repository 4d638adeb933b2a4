/-
# Snapshots read back

What `encodeSnapshot` writes is a snapshot file of the live rows, and it writes one exactly when
every section keeps the limits of the format. Opening what it writes reproduces the index.
-/

import Pari.Store.Opening

namespace Pari.Store

open Data Pari.Format Pari.Core Pari.Index

/-! ## Encoding -/

section Encoding

variable {scheme : SignatureScheme} {crc : Checksum} {core : PersistentIndexCore scheme}

theorem encodeKeys_eq_ok_iff {keys : List UInt64} {bytes : Bytes} :
    encodeKeys keys = .ok bytes ↔ 8 + keys.length * 8 < 2 ^ 64 ∧ bytes = countedKeys keys := by
  simp only [encodeKeys, bind_eq_ok_iff, okOr_eq_ok_iff, tryU64_eq_some_iff, checkedMul_eq_some_iff,
    checkedAdd_eq_some_iff, pure_eq_ok_iff]
  constructor
  · rintro ⟨_, ⟨_, rfl⟩, _, ⟨_, rfl⟩, _, ⟨hcapacity, rfl⟩, rfl⟩
    exact ⟨hcapacity, rfl⟩
  · rintro ⟨hcapacity, rfl⟩
    exact ⟨_, ⟨by omega, rfl⟩, _, ⟨by omega, rfl⟩, _, ⟨hcapacity, rfl⟩, rfl⟩

theorem foldlM_appendRow {rows : List (List UInt64)} {start bytes : Bytes} :
    rows.foldlM (fun output hashes => (pure (output ++ u64List hashes) : Except StoreError Bytes))
        start = .ok bytes ↔ bytes = start ++ u64List rows.flatten := by
  induction rows generalizing start with
  | nil => simp [pure, Except.pure, eq_comm]
  | cons row rows ih =>
      rw [List.foldlM_cons, List.flatten_cons, u64List_append, ← List.append_assoc]
      exact ih

theorem encodeBandHashes_eq_ok_iff {rows : List (List UInt64)} {bands : Nat} {bytes : Bytes}
    (hbands : 0 < bands) :
    encodeBandHashes rows bands = .ok bytes ↔
      8 + rows.length * bands * 8 < 2 ^ 64 ∧ (∀ row ∈ rows, row.length = bands) ∧
        bytes = countedRows rows := by
  have hrows : rows.length ≤ rows.length * bands := Nat.le_mul_of_pos_right _ hbands
  simp only [encodeBandHashes, bind_eq_ok_iff, okOr_eq_ok_iff, tryU64_eq_some_iff,
    checkedMul_eq_some_iff, checkedAdd_eq_some_iff, foldlM_rejectIf_eq_ok_iff, foldlM_appendRow,
    not_not, ne_eq]
  constructor
  · rintro ⟨_, ⟨_, rfl⟩, _, ⟨_, rfl⟩, _, ⟨_, rfl⟩, _, ⟨hcapacity, rfl⟩, hwidth, rfl⟩
    exact ⟨hcapacity, hwidth, rfl⟩
  · rintro ⟨hcapacity, hwidth, rfl⟩
    exact ⟨_, ⟨by omega, rfl⟩, _, ⟨by omega, rfl⟩, _, ⟨by omega, rfl⟩, _, ⟨hcapacity, rfl⟩, hwidth,
      rfl⟩

theorem materializeSortedBuckets_eq_ok_iff {keyHashes : OrderedMap UInt64 (List UInt64)}
    {bands : Nat} (hword : bands < 2 ^ 32) {buckets : Table BucketKey UInt64} :
    materializeSortedBuckets keyHashes bands = .ok buckets ↔
      (∀ item ∈ keyHashes.toList, item.2.length = bands) ∧
        buckets = collectTable (bucketEntries keyHashes.toList) := by
  simp only [materializeSortedBuckets, foldlM_rejectIf_eq_ok_iff, not_not, ne_eq]
  refine and_congr_right fun hwidth => ?_
  have hsmall : ∀ item ∈ keyHashes.toList, item.2.length < 2 ^ 32 := fun item hitem => by
    rw [hwidth item hitem]
    exact hword
  rw [foldlM_fileRow hsmall, Except.ok.injEq, eq_comm]
  rfl

theorem snapshotMetadata_eq_ok_iff {metadata : IndexMetadata} :
    core.snapshotMetadata = .ok metadata ↔ MetadataFor scheme core.config metadata := by
  simp only [PersistentIndexCore.snapshotMetadata, bind_eq_ok_iff, okOr_eq_ok_iff,
    tryU32_eq_some_iff, mapError_eq_ok_iff, IndexMetadata.new_eq_ok_iff]
  constructor
  · rintro ⟨_, ⟨hnumPerm, rfl⟩, _, ⟨hbands, rfl⟩, _, ⟨hrows, rfl⟩, _, hscheme, hcodec, hnum,
      hseed, hthreshold, hbandsWord, hrowsWord, hflags⟩
    refine ⟨eq_minHashLsh _, hscheme, hcodec, ?_, hseed, hthreshold, ?_, ?_, hflags⟩
    · rw [hnum, toNat_ofNat32 hnumPerm]
    · rw [hbandsWord, toNat_ofNat32 hbands]
    · rw [hrowsWord, toNat_ofNat32 hrows]
  · intro h
    have hnumPerm := metadata.numPerm.toNat_lt
    have hbands := metadata.bands.toNat_lt
    have hrows := metadata.rows.toNat_lt
    refine ⟨_, ⟨h.numPerm ▸ hnumPerm, rfl⟩, _, ⟨h.bands ▸ hbands, rfl⟩, _, ⟨h.rows ▸ hrows, rfl⟩,
      trivial, h.signatureScheme, h.keyCodec, ?_, h.seed, h.threshold, ?_, ?_, h.featureFlags⟩
    · rw [← h.numPerm, UInt32.ofNat_toNat]
    · rw [← h.bands, UInt32.ofNat_toNat]
    · rw [← h.rows, UInt32.ofNat_toNat]

/-- Metadata is determined by the configuration it says. -/
theorem MetadataFor.unique {config : LshConfig} {metadata metadata' : IndexMetadata}
    (h : MetadataFor scheme config metadata) (h' : MetadataFor scheme config metadata') :
    metadata = metadata' := by
  ext1
  · exact h.algorithm.trans h'.algorithm.symm
  · exact h.signatureScheme.trans h'.signatureScheme.symm
  · exact h.keyCodec.trans h'.keyCodec.symm
  · exact UInt32.toNat_inj.mp (h.numPerm.trans h'.numPerm.symm)
  · exact h.seed.trans h'.seed.symm
  · exact h.threshold.trans h'.threshold.symm
  · exact UInt32.toNat_inj.mp (h.bands.trans h'.bands.symm)
  · exact UInt32.toNat_inj.mp (h.rows.trans h'.rows.symm)
  · exact h.featureFlags.trans h'.featureFlags.symm

/-- The live items of an index, in key order. -/
def PersistentIndexCore.items (core : PersistentIndexCore scheme) : List (UInt64 × List UInt64) :=
  core.keyHashes.toList

/-- A file that is a snapshot of the live rows of an index. -/
structure PersistentIndexCore.EncodedAs (crc : Checksum) (core : PersistentIndexCore scheme)
    (layout : FileLayout) (file : Bytes) : Prop where
  read : FileLayout.readFrom crc file = .ok layout
  metadata : MetadataFor scheme core.config layout.metadata
  snapshot : IsSnapshot crc layout file (countedKeys (core.items.map Prod.fst))
    (countedRows (core.items.map Prod.snd)) (segmentsOf (bucketRecords core.items))
  width : ∀ item ∈ core.items, item.2.length = core.config.params.bands
  counts : ∀ record ∈ bucketRecords core.items, record.members.length < 2 ^ 32

theorem segmentsOf_ne_nil (buckets : List BucketRecord) : segmentsOf buckets ≠ [] := by
  rw [segmentsOf]
  split
  · simp
  · next hnonempty => exact pack_ne_nil fun hnil => hnonempty (List.isEmpty_iff.mpr hnil)

/-- The buckets of a segment are in order. -/
theorem ascending_of_mem_segmentsOf {items : List (UInt64 × List UInt64)} {group : List BucketRecord}
    (hgroup : group ∈ segmentsOf (bucketRecords items)) : Ascending (group.map (·.key)) := by
  have hall := @ascending_bucketRecords items
  rw [← segmentsOf_flatten (bucketRecords items)] at hall
  exact List.Pairwise.sublist ((List.sublist_flatten_of_mem hgroup).map _) hall

/-- Items that a snapshot can hold: every section keeps the limits of the format. -/
structure FitsSnapshot (bands : Nat) (items : List (UInt64 × List UInt64)) : Prop where
  width : ∀ item ∈ items, item.2.length = bands
  keys : (countedKeys (items.map Prod.fst)).length ≤ maxSectionBytes
  hashes : (countedRows (items.map Prod.snd)).length ≤ maxSectionBytes
  segments : ∀ group ∈ segmentsOf (bucketRecords items), segmentLength group ≤ maxSectionBytes
  count : (segmentsOf (bucketRecords items)).length + 2 ≤ maxSectionCount

/-- The sections of a snapshot with these items. -/
def sectionsOf (crc : Checksum) (items : List (UInt64 × List UInt64)) : List KnownSection :=
  snapshotSections crc (countedKeys (items.map Prod.fst)) (countedRows (items.map Prod.snd))
    (segmentsOf (bucketRecords items))

/-- The frames of a snapshot. -/
def snapshotFrames (crc : Checksum) (items : List (UInt64 × List UInt64)) : List Frame :=
  (sectionsOf crc items).map KnownSection.frame

/-- No bucket of items that fit has too many members to count. -/
theorem FitsSnapshot.counts {bands : Nat} {items : List (UInt64 × List UInt64)}
    (h : FitsSnapshot bands items) {group : List BucketRecord}
    (hgroup : group ∈ segmentsOf (bucketRecords items)) :
    ∀ record ∈ group, record.members.length < 2 ^ 32 := by
  intro record hrecord
  have hsegment := h.segments group hgroup
  have hsize : recordSize record ≤ totalSize recordSize group := size_le_totalSize hrecord
  have hlimit : maxSectionBytes < 2 ^ 32 := by decide
  rw [segmentLength_eq] at hsegment
  rw [recordSize] at hsize
  omega

/-- The sections of groups that fit. -/
theorem exists_framesSegment_iff {groups : List (List BucketRecord)}
    (hascending : ∀ group ∈ groups, Ascending (group.map (·.key))) {frames : List Frame} :
    (∃ framed, List.Forall₂ (FramesSegment crc) groups framed ∧
        frames = framed.map (Frame.ofSection crc)) ↔
      (∀ group ∈ groups, segmentLength group ≤ maxSectionBytes) ∧
        frames = (groups.map (segmentSection crc)).map KnownSection.frame := by
  constructor
  · rintro ⟨framed, hframed, rfl⟩
    clear hascending
    induction hframed with
    | nil => simp
    | @cons records segment groups framed hsegment _ ih =>
        refine ⟨List.forall_mem_cons.mpr ⟨?_, ih.1⟩, ?_⟩
        · rw [← length_segmentBytes crc, ← hsegment.payload]
          exact segment.bounded
        · rw [List.map_cons, List.map_cons, List.map_cons, ih.2,
            Frame.ofSection_eq_frame hsegment.kind hsegment.required hsegment.payload]
          rfl
  · rintro ⟨hbounded, rfl⟩
    induction groups with
    | nil => exact ⟨[], .nil, rfl⟩
    | cons group groups ih =>
        rw [List.forall_mem_cons] at hbounded hascending
        obtain ⟨framed, hframed, hframes⟩ := ih hascending.2 hbounded.2
        have hlength := hbounded.1
        rw [← length_segmentBytes crc] at hlength
        have hcounts : ∀ record ∈ group, record.members.length < 2 ^ 32 := by
          intro record hrecord
          have hsize : recordSize record ≤ totalSize recordSize group := size_le_totalSize hrecord
          have hlimit : maxSectionBytes < 2 ^ 32 := by decide
          rw [length_segmentBytes, segmentLength_eq] at hlength
          rw [recordSize] at hsize
          omega
        exact ⟨⟨.buckets, true, segmentBytes crc group, hlength⟩ :: framed,
          .cons ⟨rfl, rfl, rfl, hascending.1, hcounts⟩ hframed, congrArg (_ :: ·) hframes⟩

/-- Encoding succeeds exactly when the live items fit, and writes the container of their
frames. -/
theorem PersistentIndexCore.encodeSnapshot_eq_ok_iff {bytes : Bytes} :
    core.encodeSnapshot crc = .ok bytes ↔ ∃ metadata, MetadataFor scheme core.config metadata ∧
      FitsSnapshot core.config.params.bands core.items ∧
        bytes = containerBytes crc metadata (snapshotFrames crc core.items) := by
  have hbands := core.config.bounds.2.2.2.1
  have hitems : core.keyHashes.toList = core.items := rfl
  have hascending : ∀ group ∈ segmentsOf (bucketRecords core.items), Ascending (group.map (·.key)) :=
    fun group => ascending_of_mem_segmentsOf
  simp only [encodeSnapshot, bind_eq_ok_iff, mapError_eq_ok_iff, Section.new_eq_ok_iff,
    appendBucketSections_eq_ok_iff, snapshotMetadata_eq_ok_iff, encodeKeys_eq_ok_iff,
    encodeBandHashes_eq_ok_iff hbands, materializeSortedBuckets_eq_ok_iff (bands_lt core.config),
    IndexFile.new_eq_ok_iff, IndexFile.encode_eq_ok, Except.ok.injEq, hitems]
  constructor
  · rintro ⟨metadata, hmetadata, _, ⟨_, rfl⟩, _, ⟨_, hwidth, rfl⟩, keysSection, ⟨hkeysKind,
      hkeysRequired, hkeysPayload⟩, hashesSection, ⟨hhashesKind, hhashesRequired, hhashesPayload⟩, _,
      ⟨_, rfl⟩, _, ⟨framed, hframed, rfl⟩, file, ⟨rfl, hsections⟩, rfl⟩
    obtain ⟨hsegments, hframes⟩ := (exists_framesSegment_iff hascending).mp ⟨framed, hframed, rfl⟩
    refine ⟨file.metadata, hmetadata, ⟨?_, ?_, ?_, hsegments, ?_⟩, ?_⟩
    · intro item hitem
      exact hwidth item.2 (List.mem_map_of_mem hitem)
    · exact hkeysPayload ▸ keysSection.bounded
    · exact hhashesPayload ▸ hashesSection.bounded
    · have hcount := file.bounded
      rw [hsections, List.length_append, ← List.Forall₂.length_eq hframed] at hcount
      exact le_trans (Nat.le_of_eq (Nat.add_comm _ _)) hcount
    · rw [hsections, List.map_append, hframes, List.map_cons, List.map_cons, List.map_nil,
        Frame.ofSection_eq_frame hkeysKind hkeysRequired hkeysPayload,
        Frame.ofSection_eq_frame hhashesKind hhashesRequired hhashesPayload]
      rfl
  · rintro ⟨metadata, hmetadata, hfits, rfl⟩
    obtain ⟨framed, hframed, hframes⟩ :=
      (@exists_framesSegment_iff crc _ hascending _).mpr ⟨hfits.segments, rfl⟩
    have hwidth : ∀ row ∈ core.items.map Prod.snd,
        row.length = core.config.params.bands := by
      intro row hrow
      obtain ⟨item, hitem, rfl⟩ := List.mem_map.mp hrow
      exact hfits.width item hitem
    have hlimit : maxSectionBytes < 2 ^ 64 := by decide
    have hkeys := hfits.keys
    have hhashes := hfits.hashes
    rw [length_countedKeys] at hkeys
    rw [length_countedRows hwidth] at hhashes
    have hcount : 2 + framed.length ≤ maxSectionCount := by
      rw [← List.Forall₂.length_eq hframed, Nat.add_comm]
      exact hfits.count
    refine ⟨metadata, hmetadata, _, ⟨by omega, rfl⟩, _, ⟨by omega, hwidth, rfl⟩,
      ⟨.keys, true, _, hfits.keys⟩, ⟨rfl, rfl, rfl⟩, ⟨.bandHashes, true, _, hfits.hashes⟩,
      ⟨rfl, rfl, rfl⟩, _, ⟨hfits.width, rfl⟩, _, ⟨framed, hframed, rfl⟩,
      ⟨metadata, [_, _] ++ framed, by rwa [List.length_append]⟩, ⟨rfl, rfl⟩, ?_⟩
    rw [snapshotFrames, sectionsOf, snapshotSections, List.map_append, ← hframes]
    rfl

/-- The frames of items that fit are accepted. -/
theorem FitsSnapshot.accepted {bands : Nat} {items : List (UInt64 × List UInt64)}
    (h : FitsSnapshot bands items) :
    (snapshotFrames crc items).length ≤ maxSectionCount ∧
      ∀ frame ∈ snapshotFrames crc items, frame.Accepted crc := by
  constructor
  · rw [snapshotFrames, sectionsOf, List.length_map, snapshotSections, List.length_cons, List.length_cons,
      List.length_map]
    exact h.count
  · intro frame hframe
    obtain ⟨known, hknown, rfl⟩ := List.mem_map.mp hframe
    refine KnownSection.accepted_frame crc ?_
    rw [sectionsOf, snapshotSections, List.mem_cons, List.mem_cons, List.mem_map] at hknown
    rcases hknown with rfl | rfl | ⟨group, hgroup, rfl⟩
    · exact h.keys
    · exact h.hashes
    · exact (length_segmentBytes crc group).symm ▸ h.segments group hgroup

/-- Whatever `encodeSnapshot` writes is a snapshot of the live rows. -/
theorem PersistentIndexCore.encodeSnapshot_spec {bytes : Bytes}
    (h : core.encodeSnapshot crc = .ok bytes) : ∃ layout, core.EncodedAs crc layout bytes := by
  obtain ⟨metadata, hmetadata, hfits, rfl⟩ := encodeSnapshot_eq_ok_iff.mp h
  obtain ⟨hcount, haccepted⟩ := @FitsSnapshot.accepted crc _ _ hfits
  obtain ⟨layout, hread, rfl, hdescribes, hsections⟩ :=
    @readFrom_containerBytes crc metadata _ hcount haccepted
  refine ⟨layout, hread, hmetadata, ⟨hdescribes, ?_⟩, hfits.width, ?_⟩
  · rw [hsections]
    exact KnownSection.filterMap_frame _
  · intro record hrecord
    rw [← segmentsOf_flatten (bucketRecords core.items), List.mem_flatten] at hrecord
    obtain ⟨group, hgroup, hmem⟩ := hrecord
    exact hfits.counts hgroup record hmem

theorem PersistentIndexCore.length_pos_of_encodeSnapshot {bytes : Bytes}
    (h : core.encodeSnapshot crc = .ok bytes) : 0 < bytes.length := by
  obtain ⟨_, _, _, rfl⟩ := encodeSnapshot_eq_ok_iff.mp h
  rw [containerBytes, List.length_append, length_encodeHeader]
  exact Nat.add_pos_left (by decide) _

/-- The rows of the items of an index are its live rows. -/
theorem PersistentIndexCore.mem_items_iff {key : UInt64} {row : List UInt64} :
    (key, row) ∈ core.items ↔ core.liveRows key = some row := mem_toList_iff

/-- Whatever order the rows came in, the items are the same. -/
theorem PersistentIndexCore.items_perm {items : List (UInt64 × List UInt64)}
    (hdistinct : (items.map Prod.fst).Nodup)
    (hrows : core.liveRows = insertRows (fun _ => none) items) : core.items.Perm items := by
  apply (List.perm_ext_iff_of_nodup (List.Nodup.of_map Prod.fst ascending_keys.nodup)
    (List.Nodup.of_map Prod.fst hdistinct)).mpr
  rintro ⟨key, row⟩
  have hmem : (key, row) ∈ core.items ↔ core.liveRows key = some row :=
    PersistentIndexCore.mem_items_iff
  apply hmem.trans
  rw [hrows, insertRows_eq_some_iff hdistinct]
  simp

theorem PersistentIndexCore.EncodedAs.freshBatch {layout : FileLayout} {file : Bytes}
    (h : core.EncodedAs crc layout file) :
    FreshBatch core.config.params.bands (fun _ => none) core.items where
  fresh := fun _ _ => rfl
  distinct := ascending_keys.nodup
  width := h.width

/-- Opening a snapshot of the live rows of an index. -/
theorem PersistentIndexCore.EncodedAs.openFile {layout : FileLayout} {file : Bytes}
    (h : core.EncodedAs crc layout file) (path : Path) :
    ∃ directory : List BucketLocation,
      PersistentIndexCore.openFile crc path file = .ok ({
        path
        config := core.config
        keyHashes := core.keyHashes
        base := some { file, layout, buckets := directory }
        overlayBuckets := emptyBucketTables core.config.params.bands
        overlayKeys := ∅
        suppressedBaseKeys := ∅
        dirty := false } : PersistentIndexCore scheme) ∧
      DirectoryHolds crc layout file directory (bucketRecords core.items) := by
  obtain ⟨directory, keyHashes, hopen, hrows, hholds⟩ :=
    PersistentIndexCore.openFile_of_snapshot h.read h.metadata h.snapshot h.freshBatch
      (segmentsOf_ne_nil _) (by rw [segmentsOf_flatten]; exact ascending_bucketRecords)
      (by rw [segmentsOf_flatten]; exact h.counts)
      (by
        rw [segmentsOf_flatten]
        exact fun record => band_lt_of_mem_bucketRecords (bands_lt core.config) h.width) path
  rw [segmentsOf_flatten] at hholds
  have hsame : keyHashes = core.keyHashes :=
    rowsOfMap_injective (hrows.trans (insertRows_toList core.keyHashes))
  rw [hsame] at hopen
  exact ⟨directory, hopen, hholds⟩

/-- The buckets of an encoded snapshot file the live keys under their rows. -/
theorem PersistentIndexCore.EncodedAs.recordsSelect {layout : FileLayout} {file : Bytes}
    (h : core.EncodedAs crc layout file) :
    RecordsSelect (bucketRecords core.items) core.config.params.bands core.liveRows :=
  recordsSelect_bucketRecords (bands_lt core.config) h.width fun _ _ => mem_items_iff.symm

/-- An encoded snapshot opens as a well-formed clean index with the same configuration and
rows. -/
theorem PersistentIndexCore.exists_openFile_of_encodeSnapshot {bytes : Bytes}
    (h : core.encodeSnapshot crc = .ok bytes) (path : Path) :
    ∃ opened : PersistentIndexCore scheme, PersistentIndexCore.openFile crc path bytes = .ok opened ∧
      opened.WellFormed crc ∧ opened.path = path ∧ opened.config = core.config ∧
      opened.keyHashes = core.keyHashes ∧ opened.dirty = false ∧ opened.BucketsMatch crc := by
  obtain ⟨layout, hencoded⟩ := encodeSnapshot_spec h
  obtain ⟨directory, hopen, hholds⟩ := hencoded.openFile path
  obtain ⟨_, _, _, _, _, _, _, _, hwell, _⟩ := openFile_eq_ok hopen
  have hmatch : ∀ base, some (LazyBase.mk bytes layout directory) = some base →
      base.Holds crc core.config.params.bands core.liveRows := by
    rintro base hbase
    obtain rfl := Option.some.inj hbase
    exact ⟨_, hholds, hencoded.recordsSelect⟩
  exact ⟨_, hopen, hwell hmatch, rfl, rfl, rfl, rfl, hmatch⟩

end Encoding

/-- Opening an encoded snapshot reproduces the index: the same configuration and rows, in a
clean state, whose directory is in strict key order, has one location for every band and hash
that occurs, and reads back the ascending keys of each. -/
theorem PersistentIndexCore.openFile_encodeSnapshot {scheme : SignatureScheme} {crc : Checksum}
    (core : PersistentIndexCore scheme) {bytes : Bytes} (h : core.encodeSnapshot crc = .ok bytes)
    (path : Path) :
    ∃ (opened : PersistentIndexCore scheme) (base : LazyBase),
      openFile crc path bytes = .ok opened ∧ opened.dirty = false ∧ opened.config = core.config ∧
      opened.keyHashes = core.keyHashes ∧ opened.base = some base ∧
      Ascending (base.buckets.map (·.key)) ∧
      (∀ bucket : BucketKey, (∃ location ∈ base.buckets, location.key = bucket) ↔
        ∃ (key : UInt64) (row : List UInt64), core.keyHashes[key]? = some row ∧
          row[bucket.band.toNat]? = some bucket.hash) ∧
      ∀ location ∈ base.buckets, ∃ members,
        readBucketMembers crc base.layout base.file location = .ok members ∧ Ascending members ∧
        ∀ key, key ∈ members ↔ ∃ row, core.keyHashes[key]? = some row ∧
          row[location.key.band.toNat]? = some location.key.hash := by
  obtain ⟨layout, hencoded⟩ := encodeSnapshot_spec h
  obtain ⟨directory, hopen, hholds⟩ := hencoded.openFile path
  have hsmall : ∀ item ∈ core.items, item.2.length < 2 ^ 32 := fun item hitem => by
    rw [hencoded.width item hitem]
    exact bands_lt core.config
  refine ⟨_, _, hopen, rfl, rfl, rfl, rfl, ?_, ?_, ?_⟩
  · rw [ReadsAs.keys_eq hholds.reads]
    exact hholds.ascending
  · intro bucket
    constructor
    · rintro ⟨location, hlocation, rfl⟩
      obtain ⟨record, hrecord, hreads⟩ := exists_left_of_forall₂ hholds.reads hlocation
      obtain ⟨key, hkey⟩ := List.exists_mem_of_ne_nil _ (mem_bucketRecords_iff.mp hrecord).2
      obtain ⟨row, hmem, hrow⟩ := (mem_members_iff hsmall hrecord).mp hkey
      rw [hreads.key]
      exact ⟨key, row, mem_items_iff.mp hmem, hrow⟩
    · rintro ⟨key, row, hkey, hrow⟩
      obtain ⟨record, hrecord, hrecordKey⟩ :=
        exists_bucketRecord hsmall (mem_items_iff.mpr hkey) hrow
      obtain ⟨location, hlocation, hreads⟩ := exists_right_of_forall₂ hholds.reads hrecord
      exact ⟨location, hlocation, hreads.key.trans hrecordKey⟩
  · intro location hlocation
    obtain ⟨record, hrecord, hreads⟩ := exists_left_of_forall₂ hholds.reads hlocation
    refine ⟨record.members, hreads.members, ascending_members hsmall ascending_keys hrecord,
      fun key => ?_⟩
    rw [mem_members_iff hsmall hrecord, hreads.key]
    exact exists_congr fun row => and_congr_left fun _ => mem_items_iff

/-- One committed key over two bands. -/
def sampleCore : PersistentIndexCore .pariAffine32V1 :=
  { PersistentIndexCore.empty .pariAffine32V1 ⟨"", some "index"⟩ sampleConfig with
    keyHashes := (∅ : OrderedMap UInt64 (List UInt64)).insert 7 [1, 2] }

theorem exists_encodeSnapshot_sampleCore :
    ∃ bytes, sampleCore.encodeSnapshot Checksum.crc32 = .ok bytes := by
  have hsome : ((sampleCore.encodeSnapshot Checksum.crc32).toOption.isSome) = true := by
    decide +kernel
  cases hencode : sampleCore.encodeSnapshot Checksum.crc32 with
  | error error =>
      rw [hencode] at hsome
      cases hsome
  | ok bytes => exact ⟨bytes, rfl⟩

/-- The snapshot of one key opens again. -/
theorem openFile_encodeSnapshot_one_item :
    ∃ (bytes : Bytes) (opened : PersistentIndexCore .pariAffine32V1),
      sampleCore.encodeSnapshot Checksum.crc32 = .ok bytes ∧
      PersistentIndexCore.openFile Checksum.crc32 sampleCore.path bytes = .ok opened ∧
      opened.dirty = false ∧ opened.keyHashes = sampleCore.keyHashes := by
  obtain ⟨bytes, hencode⟩ := exists_encodeSnapshot_sampleCore
  obtain ⟨opened, _, hopen, hclean, _, hkeys, _⟩ :=
    sampleCore.openFile_encodeSnapshot hencode sampleCore.path
  exact ⟨bytes, opened, hencode, hopen, hclean, hkeys⟩

end Pari.Store
