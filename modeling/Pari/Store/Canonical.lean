/-
# Snapshots depend on the live map alone

What an index writes is a function of its configuration and its live rows: neither the order of
insertions nor earlier commits nor the split into base and overlay can be seen in it. For runs
that begin with a creation the bytes at the target are always the snapshot of the rows that were
live when they were written, so two runs with the same live rows write the same bytes. Fewer
items fit whenever more do, so a run does not fail on the way to a map that can be written.
-/

import Mathlib.Algebra.BigOperators.Ring.List
import Mathlib.Algebra.Order.BigOperators.Group.List
import Pari.Store.Runs

namespace Pari.Store

open Data Pari.Format Pari.Core Pari.Index

/-! ## Fewer items fit -/

section Fitting

variable {bands : Nat} {items more : List (UInt64 × List UInt64)}

/-- A bucket of some of the items is no larger than that of all of them. -/
theorem length_fibre_le (hword : bands < 2 ^ 32) (hwidth : ∀ item ∈ more, item.2.length = bands)
    (hsub : items.Subperm more) (bucket : BucketKey) :
    (fibre (bucketEntries items) bucket).length ≤ (fibre (bucketEntries more) bucket).length := by
  have hsmall : ∀ item ∈ more, item.2.length < 2 ^ 32 := fun item hitem => by
    rw [hwidth item hitem]
    exact hword
  rw [fibre_bucketEntries hsmall, fibre_bucketEntries fun item hitem => hsmall item (hsub.subset hitem),
    List.length_map, List.length_map]
  exact (hsub.filter _).length_le

/-- A record of items that fit is one that a section can hold. -/
theorem FitsSnapshot.recordSize_le (h : FitsSnapshot bands items) {record : BucketRecord}
    (hrecord : record ∈ bucketRecords items) :
    bucketSegmentHeaderBytes + recordSize record ≤ maxSectionBytes := by
  rw [← segmentsOf_flatten (bucketRecords items), List.mem_flatten] at hrecord
  obtain ⟨group, hgroup, hmem⟩ := hrecord
  have hsegment := h.segments group hgroup
  have hle : recordSize record ≤ totalSize recordSize group := size_le_totalSize hmem
  rw [segmentLength_eq] at hsegment
  omega

/-- Records that keep a limit one by one are packed into segments that keep it. -/
theorem segmentLength_le_of_records {records : List BucketRecord} {limit : Nat}
    (htarget : bucketSegmentTargetBytes ≤ limit)
    (h : ∀ record ∈ records, bucketSegmentHeaderBytes + recordSize record ≤ limit)
    {group : List BucketRecord} (hgroup : group ∈ segmentsOf records) :
    segmentLength group ≤ limit := by
  have hheader : bucketSegmentHeaderBytes ≤ bucketSegmentTargetBytes := by decide
  have hsubset : ∀ record ∈ group, record ∈ records := fun record hrecord => by
    rw [← segmentsOf_flatten records]
    exact List.mem_flatten_of_mem hgroup hrecord
  rw [segmentLength_eq]
  rw [segmentsOf] at hgroup
  split at hgroup
  · rw [List.mem_singleton] at hgroup
    rw [hgroup, totalSize_nil]
    omega
  · obtain ⟨_, hsmall | hsingle⟩ := mem_pack hgroup
    · omega
    · obtain ⟨record, rfl⟩ := List.length_eq_one_iff.mp hsingle
      have hrecord := h record (hsubset record List.mem_cons_self)
      rw [totalSize_cons, totalSize_nil]
      omega

/-- The records of a snapshot take up at most forty bytes for each band of each item. -/
theorem totalSize_bucketRecords_le (hwidth : ∀ item ∈ items, item.2.length = bands) :
    totalSize recordSize (bucketRecords items) ≤ 40 * (items.length * bands) := by
  have hsize : ∀ record ∈ bucketRecords items, recordSize record ≤ 40 * record.members.length := by
    intro record hrecord
    have hpos := List.length_pos_of_ne_nil (mem_bucketRecords_iff.mp hrecord).2
    have hentry : recordSize record = 32 + record.members.length * 8 := rfl
    omega
  have hmembers : (bucketRecords items).map (fun record => record.members.length) =
      ((bucketRecords items).map (·.key)).map fun key => (fibre (bucketEntries items) key).length := by
    rw [List.map_map]
    refine List.map_congr_left fun record hrecord => ?_
    rw [(mem_bucketRecords_iff.mp hrecord).1]
    rfl
  have hentries : (bucketEntries items).length = items.length * bands := by
    have hrow : ∀ item ∈ items, (rowEntries item.1 item.2).length = bands := fun item hitem => by
      rw [rowEntries, List.length_map, List.length_zipIdx, hwidth item hitem]
    rw [bucketEntries, List.length_flatMap, List.map_congr_left hrow, List.map_const',
      List.sum_replicate_nat]
  have htotal := sum_length_fibre_le (bucketEntries items)
    (@ascending_bucketRecords items).nodup
  rw [← hmembers, hentries] at htotal
  calc totalSize recordSize (bucketRecords items)
      ≤ ((bucketRecords items).map fun record => 40 * record.members.length).sum :=
        List.sum_le_sum hsize
    _ = 40 * ((bucketRecords items).map fun record => record.members.length).sum :=
        List.sum_map_mul_left _ _ _
    _ ≤ 40 * (items.length * bands) := Nat.mul_le_mul_left 40 htotal

/-- Rows that a section can hold have few segments. -/
theorem count_le_maxSectionCount (hwidth : ∀ item ∈ items, item.2.length = bands)
    (hhashes : 8 + 8 * (items.length * bands) ≤ maxSectionBytes) :
    (segmentsOf (bucketRecords items)).length + 2 ≤ maxSectionCount := by
  have htotal := totalSize_bucketRecords_le hwidth
  have hgroups := @length_pack_le _ recordSize bucketSegmentHeaderBytes bucketSegmentTargetBytes
    (bucketRecords items) (by decide)
  rw [segmentsOf]
  split
  · decide
  · simp only [maxSectionBytes, bucketSegmentTargetBytes, bucketSegmentHeaderBytes,
      maxSectionCount] at hgroups hhashes ⊢
    omega

/-- Some of the items fit if all of them do. -/
theorem FitsSnapshot.of_subperm (hword : bands < 2 ^ 32) (h : FitsSnapshot bands more)
    (hsub : items.Subperm more) : FitsSnapshot bands items := by
  have hwidth : ∀ item ∈ items, item.2.length = bands := fun item hitem =>
    h.width item (hsub.subset hitem)
  have hrows : ∀ {list : List (UInt64 × List UInt64)}, (∀ item ∈ list, item.2.length = bands) →
      (countedRows (list.map Prod.snd)).length = 8 + 8 * (list.length * bands) := by
    intro list hlist
    rw [length_countedRows, List.length_map]
    intro row hrow
    obtain ⟨item, hitem, rfl⟩ := List.mem_map.mp hrow
    exact hlist item hitem
  have hcount := hsub.length_le
  have hproduct := Nat.mul_le_mul_right bands hcount
  have hhashes := h.hashes
  rw [hrows h.width] at hhashes
  refine ⟨hwidth, ?_, ?_, ?_, ?_⟩
  · have hkeys := h.keys
    rw [length_countedKeys, List.length_map] at hkeys ⊢
    omega
  · rw [hrows hwidth]
    omega
  · intro group hgroup
    refine segmentLength_le_of_records (by decide) (fun record hrecord => ?_) hgroup
    -- The record of the same bucket in the larger snapshot has at least its members.
    obtain ⟨hmembers, hne⟩ := mem_bucketRecords_iff.mp hrecord
    have hlength := length_fibre_le hword h.width hsub record.key
    rw [← hmembers] at hlength
    have hpos := List.length_pos_of_ne_nil hne
    have hmore : ⟨record.key, fibre (bucketEntries more) record.key⟩ ∈ bucketRecords more :=
      mem_bucketRecords_iff.mpr ⟨rfl, List.ne_nil_of_length_pos (by dsimp only; omega)⟩
    have hlarger := h.recordSize_le hmore
    simp only [recordSize] at hlarger ⊢
    omega
  · exact count_le_maxSectionCount hwidth (by omega)

/-- An index with fewer rows has a snapshot if one with more has. -/
theorem PersistentIndexCore.exists_encodeSnapshot_of_le {scheme : SignatureScheme} {crc : Checksum}
    {core core' : PersistentIndexCore scheme} (h : succeeds (core.encodeSnapshot crc))
    (hconfig : core'.config = core.config) (hle : ∀ (key : UInt64) (row : List UInt64),
      core'.liveRows key = some row → core.liveRows key = some row) :
    succeeds (core'.encodeSnapshot crc) := by
  obtain ⟨bytes, hencode⟩ := h
  obtain ⟨metadata, hmetadata, hfits, _⟩ := encodeSnapshot_eq_ok_iff.mp hencode
  have hsub : core'.items.Subperm core.items := by
    refine List.subperm_of_subset (List.Nodup.of_map Prod.fst ascending_keys.nodup) ?_
    rintro ⟨key, row⟩ hmem
    exact mem_items_iff.mpr (hle key row (mem_items_iff.mp hmem))
  refine ⟨_, encodeSnapshot_eq_ok_iff.mpr ⟨metadata, ?_, ?_, rfl⟩⟩
  · rw [hconfig]
    exact hmetadata
  · rw [hconfig]
    exact hfits.of_subperm (bands_lt core.config) hsub

end Fitting

/-! ## Runs from a creation -/

variable {scheme : SignatureScheme}

/-- The states an index and its file system can reach after a creation with a configuration. -/
inductive Created (crc : Checksum) (config : LshConfig) : PersistentIndexCore scheme → World → Prop
  | create {core : PersistentIndexCore scheme} {world world' : World} {path : Path}
      (h : PersistentIndexCore.createWithParams crc scheme path config.threshold config.numPerm
        config.seed config.params world = (.ok core, world')) : Created crc config core world'
  | step {core core' : PersistentIndexCore scheme} {world world' : World} {event : Event scheme}
      (hrun : Created crc config core world) (hstep : Step crc core world event core' world') :
      Created crc config core' world'

/-- The target holds the snapshot of the published rows. -/
structure PersistentIndexCore.Canonical (crc : Checksum) (core : PersistentIndexCore scheme)
    (files : FileSystem) (keyHashes : OrderedMap UInt64 (List UInt64)) : Prop where
  published : core.PublishedAs crc files keyHashes
  snapshot : ∃ bytes,
    ({ core with keyHashes } : PersistentIndexCore scheme).encodeSnapshot crc = .ok bytes ∧
      files.read core.path.location = some bytes

section Runs

variable {crc : Checksum} {config : LshConfig} {core core' : PersistentIndexCore scheme}
  {world world' : World} {keyHashes : OrderedMap UInt64 (List UInt64)} {event : Event scheme}

/-- A step leaves the bytes of the target as they are, or writes the snapshot of the live rows. -/
theorem Step.target (hstep : Step crc core world event core' world')
    (h : core.PublishedAs crc world.files keyHashes) :
    world'.files.read core.path.location = world.files.read core.path.location ∨
      ∃ bytes, core.encodeSnapshot crc = .ok bytes ∧
        world'.files.read core.path.location = some bytes := by
  obtain ⟨old, _, hold, _⟩ := h.decodes
  have hcommit : ∀ {syncParent : Bool} {result : Except StoreError Unit}
      {closed : PersistentIndexCore scheme} {world'' : World},
      core.commit crc syncParent world = (result, closed, world'') →
      world''.files.read core.path.location = world.files.read core.path.location ∨
        ∃ bytes, core.encodeSnapshot crc = .ok bytes ∧
          world''.files.read core.path.location = some bytes := by
    intro syncParent result closed world'' hrun
    obtain ⟨_, _, _, hspec, hsteps, _⟩ :=
      PersistentIndexCore.commit_spec h.wellFormed hold syncParent
    rw [hrun] at hspec
    obtain ⟨rfl, rfl, rfl⟩ : _ ∧ _ ∧ _ := by simpa using hspec
    exact hsteps.holds.imp_left fun hkept => hkept.trans hold.symm
  cases hstep with
  | insertMany _ => exact Or.inl rfl
  | insertManyFailed _ => exact Or.inl rfl
  | remove _ => exact Or.inl rfl
  | flush hflush => exact hcommit hflush
  | sync hsync => exact hcommit hsync
  | reopen hclose hopen =>
      obtain ⟨closed, hsync⟩ := exists_sync_of_close hclose
      obtain ⟨_, _, _, hfiles⟩ := PersistentIndexCore.openPath_eq_ok hopen
      rw [hfiles]
      exact hcommit hsync
  | reopenFailed hclose hopen =>
      obtain ⟨closed, hsync⟩ := exists_sync_of_close hclose
      obtain ⟨_, _, _, hfiles⟩ := PersistentIndexCore.openPath_eq_ok hopen
      rw [hfiles]
      exact hcommit hsync
  | dropped hopen =>
      obtain ⟨_, _, _, hfiles⟩ := PersistentIndexCore.openPath_eq_ok hopen
      rw [hfiles]
      exact Or.inl rfl
  | elsewhere hread => exact Or.inl hread

/-- Every step keeps the target canonical. -/
theorem Step.canonical (hstep : Step crc core world event core' world')
    (h : core.Canonical crc world.files keyHashes) :
    core'.Canonical crc world'.files
      (publishedAfter core.path world world' keyHashes core.keyHashes) := by
  have hspec := hstep.spec h.published
  refine ⟨hspec.published, ?_⟩
  have hsame : ∀ rows : OrderedMap UInt64 (List UInt64),
      ({ core' with keyHashes := rows } : PersistentIndexCore scheme).encodeSnapshot crc =
        ({ core with keyHashes := rows } : PersistentIndexCore scheme).encodeSnapshot crc :=
    fun rows => PersistentIndexCore.encodeSnapshot_congr hspec.config rfl
  simp only [hsame]
  rw [hspec.path]
  obtain ⟨bytes, hencode, hread⟩ := h.snapshot
  unfold publishedAfter
  split
  · next hkept => exact ⟨bytes, hencode, hkept.trans hread⟩
  · next hwritten => exact (hstep.target h.published).resolve_left hwritten

/-- The configuration of a run is that of its creation, and its target is canonical. -/
theorem Created.canonical (h : Created crc config core world) :
    core.config = config ∧ ∃ keyHashes, core.Canonical crc world.files keyHashes := by
  induction h with
  | @create core world world' path h =>
      obtain ⟨hpublished, hpath, hparams, hthreshold, hnumPerm, hseed, hkeys, _, bytes, hencode,
        hholds⟩ := PersistentIndexCore.createWithParams_published h
      refine ⟨LshConfig.ext hthreshold hnumPerm hseed hparams, ∅, hpublished, bytes, ?_, ?_⟩
      · rw [← hkeys]
        exact hencode
      · rw [hpath]
        exact hholds.read
  | step _ hstep ih =>
      obtain ⟨hconfig, keyHashes, hcanonical⟩ := ih
      exact ⟨(hstep.spec hcanonical.published).config.trans hconfig, _, hstep.canonical hcanonical⟩

end Runs

end Pari.Store
