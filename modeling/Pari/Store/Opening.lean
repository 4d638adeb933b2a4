/-
# Opening a file

What the checks of `openFile` accept, and what an opened index has: the configuration of the
metadata, the rows of the two metadata sections, and the directory of the bucket sections. A
snapshot file opens as a clean index whose directory holds the records of its segments.
-/

import Pari.Index.Reachable
import Pari.Store.Overlay
import Pari.Store.SnapshotFile

namespace Pari.Store

open Data Pari.Format Pari.Core Pari.Index

/-! ## Opening -/

/-- Metadata that says a configuration. -/
structure MetadataFor (scheme : SignatureScheme) (config : LshConfig) (metadata : IndexMetadata) :
    Prop where
  algorithm : metadata.algorithm = .minHashLsh
  signatureScheme : metadata.signatureScheme = scheme
  keyCodec : metadata.keyCodec = .u64
  numPerm : metadata.numPerm.toNat = config.numPerm
  seed : metadata.seed = config.seed
  threshold : metadata.threshold = config.threshold
  bands : metadata.bands.toNat = config.params.bands
  rows : metadata.rows.toNat = config.params.rows
  featureFlags : metadata.featureFlags = 0

/-- There is one algorithm. -/
theorem eq_minHashLsh (algorithm : Algorithm) : algorithm = .minHashLsh := by
  cases algorithm
  rfl

section Opening

variable {scheme : SignatureScheme} {crc : Checksum} {config : LshConfig}

theorem validateStoreMetadata_eq_ok_iff {metadata : IndexMetadata} {result : Unit} :
    validateStoreMetadata metadata scheme = .ok result ↔
      metadata.algorithm = .minHashLsh ∧ metadata.signatureScheme = scheme ∧
        metadata.keyCodec = .u64 ∧ metadata.featureFlags = 0 := by
  simp only [validateStoreMetadata, bind_eq_ok_iff, rejectIf_eq_ok_iff, not_not, exists_const, ne_eq]

/-- The configuration that metadata says. -/
theorem MetadataFor.config_eq {metadata : IndexMetadata} (h : MetadataFor scheme config metadata) :
    LshConfig.new metadata.threshold metadata.numPerm.toNat metadata.seed
      ⟨metadata.bands.toNat, metadata.rows.toNat⟩ = .ok config := by
  rw [h.threshold, h.numPerm, h.seed, h.bands, h.rows]
  exact config.new_eq_ok

/-- Metadata of a container with 64-bit keys says a configuration. -/
theorem exists_config_of_metadata {metadata : IndexMetadata} (hcodec : metadata.keyCodec = .u64)
    (hflags : metadata.featureFlags = 0) :
    ∃ config : LshConfig, MetadataFor metadata.signatureScheme config metadata := by
  obtain ⟨hbands, hrows, hused, hthreshold, _⟩ := metadata.bounds
  have hword := metadata.numPerm.toNat_lt
  have hpositive : 0 < metadata.bands.toNat * metadata.rows.toNat := Nat.mul_pos hbands hrows
  obtain ⟨config, hsame, hnumPerm, hseed, hparams⟩ := @LshConfig.exists_of_bounds
    metadata.threshold metadata.numPerm.toNat ⟨metadata.bands.toNat, metadata.rows.toNat⟩ metadata.seed hthreshold
    (by omega) hword hbands hrows hused
  refine ⟨config, eq_minHashLsh _, rfl, hcodec, hnumPerm.symm, hseed.symm, hsame.symm, ?_, ?_,
    hflags⟩
  · rw [hparams]
  · rw [hparams]

/-- The key loop accepts exactly new distinct keys. -/
theorem insertUnique_eq_ok_iff {start result : OrderedMap UInt64 (List UInt64)}
    {items : List (UInt64 × List UInt64)} :
    insertUnique start items = .ok result ↔
      (∀ item ∈ items, rowsOfMap start item.1 = none) ∧ (items.map Prod.fst).Nodup ∧
        rowsOfMap result = insertRows (rowsOfMap start) items := by
  induction items generalizing start with
  | nil =>
      rw [insertUnique, List.foldlM_nil, pure_eq_ok_iff, insertRows_nil, rowsOfMap_injective.eq_iff,
        eq_comm]
      simp
  | cons item items ih =>
      have hfresh : ¬ start.contains item.1 = true ↔ rowsOfMap start item.1 = none := by
        rw [Std.ExtTreeMap.contains_eq_isSome_getElem?, Bool.not_eq_true, Option.isSome_eq_false_iff,
          Option.isNone_iff_eq_none]
        rfl
      have hstep : insertUnique start (item :: items) = .ok result ↔
          rowsOfMap start item.1 = none ∧
            insertUnique (start.insert item.1 item.2) items = .ok result := by
        simp only [insertUnique, List.foldlM_cons, bind_eq_ok_iff, rejectIf_eq_ok_iff, hfresh,
          pure_eq_ok_iff, exists_const, and_assoc, exists_and_left, exists_eq_left']
      rw [hstep, ih, rowsOfMap_insert, insertRows_cons, List.forall_mem_cons, List.map_cons,
        List.nodup_cons]
      constructor
      · rintro ⟨hitem, hitems, hnodup, hrows⟩
        have hnot : item.1 ∉ items.map Prod.fst := by
          intro hmem
          obtain ⟨other, hother, heq⟩ := List.mem_map.mp hmem
          have hnone := hitems other hother
          rw [heq, Function.update_self] at hnone
          cases hnone
        refine ⟨⟨hitem, fun other hother => ?_⟩, ⟨hnot, hnodup⟩, hrows⟩
        have hne : other.1 ≠ item.1 := fun heq => hnot (heq ▸ List.mem_map_of_mem hother)
        have hnone := hitems other hother
        rwa [Function.update_of_ne hne] at hnone
      · rintro ⟨⟨hitem, hitems⟩, ⟨hnot, hnodup⟩, hrows⟩
        refine ⟨hitem, fun other hother => ?_, hnodup, hrows⟩
        have hne : other.1 ≠ item.1 := fun heq => hnot (heq ▸ List.mem_map_of_mem hother)
        rw [Function.update_of_ne hne]
        exact hitems other hother

/-- Distinct keys are accepted. -/
theorem exists_insertUnique {items : List (UInt64 × List UInt64)}
    (hdistinct : (items.map Prod.fst).Nodup) :
    ∃ keyHashes, insertUnique ∅ items = .ok keyHashes := by
  suffices hgeneral : ∀ start : OrderedMap UInt64 (List UInt64),
      (∀ item ∈ items, rowsOfMap start item.1 = none) →
      ∃ keyHashes, insertUnique start items = .ok keyHashes from
    hgeneral ∅ fun _ _ => by simp [rowsOfMap]
  induction items with
  | nil => exact fun start _ => ⟨start, rfl⟩
  | cons item items ih =>
      intro start hfresh
      rw [List.forall_mem_cons] at hfresh
      rw [List.map_cons, List.nodup_cons] at hdistinct
      obtain ⟨keyHashes, hok⟩ := ih hdistinct.2 (start.insert item.1 item.2) (by
        intro other hother
        have hne : other.1 ≠ item.1 := fun heq => hdistinct.1 (heq ▸ List.mem_map_of_mem hother)
        rw [rowsOfMap_insert, Function.update_of_ne hne]
        exact hfresh.2 other hother)
      refine ⟨keyHashes, ?_⟩
      have hnot : ¬ start.contains item.1 = true := by
        rw [Std.ExtTreeMap.contains_eq_isSome_getElem?, Option.not_isSome_iff_eq_none]
        exact hfresh.1
      rw [insertUnique, List.foldlM_cons, rejectIf_of_not hnot]
      exact hok

/-- The key reader accepts exactly the items of two metadata sections with distinct keys. -/
theorem readKeyMetadata_eq_ok_iff {layout : FileLayout} {file : Bytes}
    {keyHashes : OrderedMap UInt64 (List UInt64)} (h : layout.Describes file) :
    readKeyMetadata crc layout file config.params.bands = .ok keyHashes ↔
      ∃ items, HoldsItems crc layout file config.params.bands items ∧
        (items.map Prod.fst).Nodup ∧ rowsOfMap keyHashes = insertRows (fun _ => none) items := by
  obtain ⟨_, _, _, hpositive, _, _⟩ := config.bounds
  have hword := PersistentIndexCore.bands_lt config
  simp only [readKeyMetadata, bind_eq_ok_iff, mapError_eq_ok_iff, rejectIf_eq_ok_iff, exists_const,
    not_not, ne_eq, insertUnique_eq_ok_iff, rowsOfMap_empty]
  constructor
  · rintro ⟨keysDescriptor, hkeysSection, hashesDescriptor, hhashesSection, keysPayload, hkeysRead,
      hashesPayload, hhashesRead, keys, hkeys, rows, hrows, hcount, -, hdistinct, hresult⟩
    have hkeysView := (exists_requiredSection_iff h).mp ⟨keysDescriptor, hkeysSection, hkeysRead⟩
    have hhashesView :=
      (exists_requiredSection_iff h).mp ⟨hashesDescriptor, hhashesSection, hhashesRead⟩
    rw [decodeKeys_eq_ok_iff (length_payload_lt h hkeysView)] at hkeys
    rw [decodeBandHashes_eq_ok_iff (length_payload_lt h hhashesView) hpositive hword] at hrows
    have hfst : (keys.zip rows).map Prod.fst = keys := List.map_fst_zip (le_of_eq hcount)
    have hsnd : (keys.zip rows).map Prod.snd = rows := List.map_snd_zip (le_of_eq hcount.symm)
    refine ⟨keys.zip rows, ⟨?_, ?_, ?_⟩, hdistinct, hresult⟩
    · rw [hfst, ← hkeys]
      exact hkeysView
    · rw [hsnd, ← hrows.2]
      exact hhashesView
    · intro item hitem
      exact hrows.1 item.2 (hsnd ▸ List.mem_map_of_mem hitem)
  · rintro ⟨items, hitems, hdistinct, hresult⟩
    obtain ⟨keysDescriptor, hkeysSection, hkeysRead⟩ : ∃ descriptor,
        metadataSection layout .keys = .ok descriptor ∧ _ := (exists_requiredSection_iff h).mpr hitems.keys
    obtain ⟨hashesDescriptor, hhashesSection, hhashesRead⟩ : ∃ descriptor,
        metadataSection layout .bandHashes = .ok descriptor ∧ _ :=
      (exists_requiredSection_iff h).mpr hitems.hashes
    have hzip : (items.map Prod.fst).zip (items.map Prod.snd) = items := by
      rw [List.zip_map', List.map_id'']
      exact fun _ => rfl
    have hwidth : ∀ row ∈ items.map Prod.snd, row.length = config.params.bands := by
      intro row hrow
      obtain ⟨item, hitem, rfl⟩ := List.mem_map.mp hrow
      exact hitems.width item hitem
    refine ⟨keysDescriptor, hkeysSection, hashesDescriptor, hhashesSection, _, hkeysRead, _,
      hhashesRead, items.map Prod.fst,
      (decodeKeys_eq_ok_iff (length_payload_lt h hitems.keys)).mpr rfl, items.map Prod.snd,
      (decodeBandHashes_eq_ok_iff (length_payload_lt h hitems.hashes) hpositive hword).mpr
        ⟨hwidth, rfl⟩, by simp, ?_⟩
    rw [hzip]
    exact ⟨fun _ _ => trivial, hdistinct, hresult⟩

theorem readKeyMetadata_of_snapshot {layout : FileLayout} {file : Bytes}
    {items : List (UInt64 × List UInt64)} {groups : List (List BucketRecord)}
    (h : IsSnapshot crc layout file (countedKeys (items.map Prod.fst))
      (countedRows (items.map Prod.snd)) groups)
    (hitems : FreshBatch config.params.bands (fun _ => none) items) :
    ∃ keyHashes, readKeyMetadata crc layout file config.params.bands = .ok keyHashes ∧
      rowsOfMap keyHashes = insertRows (fun _ => none) items := by
  obtain ⟨hkeys, hhashes⟩ := h.metadataSections
  obtain ⟨keyHashes, hunique⟩ := exists_insertUnique hitems.distinct
  have hrows : rowsOfMap keyHashes = insertRows (fun _ => none) items := by
    obtain ⟨_, _, hresult⟩ := insertUnique_eq_ok_iff.mp hunique
    rw [hresult]
    congr 1
  exact ⟨keyHashes, (readKeyMetadata_eq_ok_iff h.describes).mpr
    ⟨items, ⟨hkeys, hhashes, hitems.width⟩, hitems.distinct, hrows⟩, hrows⟩

end Opening

/-- Opening a snapshot file gives a clean index with its configuration and rows, whose
directory holds the records of the segments. -/
theorem PersistentIndexCore.openFile_of_snapshot {scheme : SignatureScheme} {crc : Checksum}
    {config : LshConfig} {layout : FileLayout} {file : Bytes} {items : List (UInt64 × List UInt64)}
    {groups : List (List BucketRecord)} (hread : FileLayout.readFrom crc file = .ok layout)
    (hmetadata : MetadataFor scheme config layout.metadata)
    (h : IsSnapshot crc layout file (countedKeys (items.map Prod.fst))
      (countedRows (items.map Prod.snd)) groups)
    (hitems : FreshBatch config.params.bands (fun _ => none) items) (hgroups : groups ≠ [])
    (hascending : Ascending (groups.flatten.map (·.key)))
    (hcounts : ∀ record ∈ groups.flatten, record.members.length < 2 ^ 32)
    (hbands : ∀ record ∈ groups.flatten, record.key.band.toNat < config.params.bands)
    (path : Path) :
    ∃ (directory : List BucketLocation) (keyHashes : OrderedMap UInt64 (List UInt64)),
      openFile crc path file = .ok ({
        path, config, keyHashes
        base := some { file, layout, buckets := directory }
        overlayBuckets := emptyBucketTables config.params.bands
        overlayKeys := ∅
        suppressedBaseKeys := ∅
        dirty := false } : PersistentIndexCore scheme) ∧
      rowsOfMap keyHashes = insertRows (fun _ => none) items ∧
      DirectoryHolds crc layout file directory groups.flatten := by
  have hvalid : validateStoreMetadata layout.metadata scheme = .ok () :=
    validateStoreMetadata_eq_ok_iff.mpr
      ⟨hmetadata.algorithm, hmetadata.signatureScheme, hmetadata.keyCodec, hmetadata.featureFlags⟩
  obtain ⟨keyHashes, hkeys, hrows⟩ := readKeyMetadata_of_snapshot h hitems
  obtain ⟨descriptors, hdescriptors, hsegments⟩ : ∃ descriptors,
      collectBucketDescriptors layout = .ok descriptors ∧
        List.Forall₂ (HoldsSegment crc layout file config.params.bands) groups descriptors :=
    h.bucketSections hascending hcounts hbands
  obtain ⟨directory, hdirectory, hholds⟩ := @readDirectory_of_segments _ StoreError.wrapping crc layout
    file config.params.bands h.describes (bands_lt config) groups descriptors hsegments hascending
  have hnonempty : descriptors.isEmpty = false := by
    rw [List.isEmpty_eq_false_iff]
    rintro rfl
    exact hgroups (List.forall₂_nil_right_iff.mp hsegments)
  refine ⟨directory, keyHashes, ?_, hrows, hholds⟩
  rw [openFile, hread, mapError_ok, ok_bind, hvalid, ok_bind, hmetadata.config_eq, mapError_ok,
    ok_bind, hkeys, ok_bind, hdescriptors, ok_bind, openBuckets, hnonempty]
  simp only [Bool.false_eq_true, if_false, hdirectory, ok_bind]
  rfl

/-- The committed buckets of an index, if it has any, file the live keys under their rows. -/
def PersistentIndexCore.BucketsMatch {scheme : SignatureScheme} (crc : Checksum)
    (core : PersistentIndexCore scheme) : Prop :=
  ∀ base, core.base = some base → base.Holds crc core.config.params.bands core.liveRows

/-- What every opened index satisfies: it has the configuration of its metadata and the rows
of its items. Without committed buckets it is legacy: dirty, with every key in the overlay. -/
theorem PersistentIndexCore.openFile_eq_ok {scheme : SignatureScheme} {crc : Checksum} {path : Path}
    {file : Bytes} {core : PersistentIndexCore scheme} (h : openFile crc path file = .ok core) :
    ∃ layout items, FileLayout.readFrom crc file = .ok layout ∧
      MetadataFor scheme core.config layout.metadata ∧
      HoldsItems crc layout file core.config.params.bands items ∧ (items.map Prod.fst).Nodup ∧
      core.liveRows = insertRows (fun _ => none) items ∧ core.path = path ∧
      (core.BucketsMatch crc → core.WellFormed crc) ∧ (core.dirty = true ↔ core.base = none) := by
  simp only [openFile, bind_eq_ok_iff, mapError_eq_ok_iff, validateStoreMetadata_eq_ok_iff,
    LshConfig.new_eq_ok_iff] at h
  obtain ⟨layout, hread, _, hvalid, config, ⟨hthreshold, hnumPerm, hseed, hparams⟩, keyHashes,
    hkeyHashes, descriptors, hdescriptors, hcore⟩ := h
  obtain ⟨items, hitems, hdistinct, hrows⟩ :=
    (readKeyMetadata_eq_ok_iff (readFrom_spec hread).1).mp hkeyHashes
  have hmetadata : MetadataFor scheme config layout.metadata :=
    ⟨eq_minHashLsh _, hvalid.2.1, hvalid.2.2.1, hnumPerm.symm, hseed.symm, hthreshold.symm,
      by rw [hparams], by rw [hparams], hvalid.2.2.2⟩
  have hwidth : ∀ (key : UInt64) (row : List UInt64), rowsOfMap keyHashes key = some row →
      row.length = config.params.bands := by
    intro key row hrow
    rw [hrows, insertRows_eq_some_iff hdistinct] at hrow
    rcases hrow with hmem | ⟨_, hnone⟩
    · exact hitems.width _ hmem
    · cases hnone
  unfold openBuckets at hcore
  split at hcore
  · simp only [openLegacy, bind_eq_ok_iff, pure_eq_ok_iff] at hcore
    obtain ⟨store, hstore, rfl⟩ := hcore
    obtain ⟨rebuilt, hrebuilt, hwell, hsame, hconfig, hpath, _⟩ :=
      @rebuildOverlayAll_spec scheme { empty scheme path config with keyHashes } crc hwidth
    rw [hrebuilt] at hstore
    obtain rfl := Except.ok.inj hstore
    have hnone : rebuilt.base = none := base_of_rebuildOverlayAll hrebuilt
    refine ⟨layout, items, hread, ?_, ?_, hdistinct, ?_, hpath, fun _ => ?_, ?_⟩
    · rw [show ({ rebuilt with dirty := true } : PersistentIndexCore scheme).config = config from
        hconfig]
      exact hmetadata
    · rw [show ({ rebuilt with dirty := true } : PersistentIndexCore scheme).config = config from
        hconfig]
      exact hitems
    · rw [← hrows]
      exact congrArg rowsOfMap hsame
    · exact ⟨hwell.width, hwell.overlay, hwell.committed⟩
    · simp [hnone]
  · simp only [bind_eq_ok_iff, pure_eq_ok_iff] at hcore
    obtain ⟨directory, _, rfl⟩ := hcore
    refine ⟨layout, items, hread, hmetadata, hitems, hdistinct, hrows, rfl, fun hmatch => ?_, ?_⟩
    · exact wellFormed_of_committed hwidth rfl rfl rfl (hmatch _ rfl)
    · simp

/-- The bucket sections of an opened file: without any, there is no base; with some, the base
is the directory of all of them and there is no overlay yet. -/
theorem PersistentIndexCore.openFile_buckets {scheme : SignatureScheme} {crc : Checksum} {path : Path}
    {file : Bytes} {core : PersistentIndexCore scheme} {layout : FileLayout}
    (h : openFile crc path file = .ok core) (hread : FileLayout.readFrom crc file = .ok layout) :
    (∀ descriptor ∈ layout.sections, descriptor.kind = .buckets → descriptor.required = true) ∧
      (∀ descriptor ∈ layout.sections, descriptor.kind = .tombstones →
        descriptor.required = false) ∧
      (layout.sections.filter (·.kind = .buckets) = [] ∧ core.base = none ∨
        ∃ directory, readDirectory StoreError.wrapping crc layout file core.config.params.bands
            (layout.sections.filter (·.kind = .buckets)) = .ok directory ∧
          core.base = some { file, layout, buckets := directory } ∧
          core.overlayBuckets = emptyBucketTables core.config.params.bands ∧
          core.overlayKeys = ∅ ∧ core.suppressedBaseKeys = ∅) := by
  simp only [openFile, bind_eq_ok_iff, mapError_eq_ok_iff] at h
  obtain ⟨layout', hread', _, _, config, _, keyHashes, _, descriptors, hdescriptors, hcore⟩ := h
  obtain rfl := Except.ok.inj (hread'.symm.trans hread)
  obtain ⟨hbuckets, htombstones, rfl⟩ := collectBucketSections_eq_ok_iff.mp hdescriptors
  refine ⟨hbuckets, htombstones, ?_⟩
  unfold openBuckets at hcore
  split at hcore
  · next hempty =>
      simp only [openLegacy, bind_eq_ok_iff, pure_eq_ok_iff] at hcore
      obtain ⟨store, hstore, rfl⟩ := hcore
      have hnone : store.base = none := base_of_rebuildOverlayAll hstore
      exact Or.inl ⟨List.isEmpty_iff.mp hempty, hnone⟩
  · simp only [bind_eq_ok_iff, pure_eq_ok_iff] at hcore
    obtain ⟨directory, hdirectory, rfl⟩ := hcore
    exact Or.inr ⟨directory, hdirectory, rfl, rfl, rfl, rfl⟩

end Pari.Store
