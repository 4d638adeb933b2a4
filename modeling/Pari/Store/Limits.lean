/-
# What a snapshot can hold

Two limits decide whether live rows have a snapshot: the rows must fit in one section, and so
must every bucket on its own. The rest follows from these. Rows that fit in a section have few
buckets, which are packed into fewer segments than a file may have sections, and no length
overflows on the way.
-/

import Pari.Store.Canonical

namespace Pari.Store

open Data Pari.Format Pari.Core Pari.Index

variable {bands : Nat} {items : List (UInt64 × List UInt64)}

/-- The number of members in the bucket of a band and a hash. -/
def bucketSize (items : List (UInt64 × List UInt64)) (band : Nat) (hash : UInt64) : Nat :=
  (items.filter fun item => item.2[band]? = some hash).length

theorem length_fibre_eq_bucketSize (hword : bands < 2 ^ 32)
    (hwidth : ∀ item ∈ items, item.2.length = bands) (bucket : BucketKey) :
    (fibre (bucketEntries items) bucket).length =
      bucketSize items bucket.band.toNat bucket.hash := by
  have hsmall : ∀ item ∈ items, item.2.length < 2 ^ 32 := fun item hitem => by
    rw [hwidth item hitem]
    exact hword
  rw [fibre_bucketEntries hsmall, List.length_map, bucketSize]

/-- Items of one width fit exactly when their rows do and every bucket does. -/
theorem fitsSnapshot_iff (hpos : 0 < bands) (hword : bands < 2 ^ 32)
    (hwidth : ∀ item ∈ items, item.2.length = bands) :
    FitsSnapshot bands items ↔
      items.length * bands ≤ 2 ^ 25 - 1 ∧
        ∀ band < bands, ∀ hash, bucketSize items band hash ≤ 2 ^ 25 - 9 := by
  have hrows : ∀ row ∈ items.map Prod.snd, row.length = bands := by
    intro row hrow
    obtain ⟨item, hitem, rfl⟩ := List.mem_map.mp hrow
    exact hwidth item hitem
  have hkeysLe : items.length ≤ items.length * bands := Nat.le_mul_of_pos_right _ hpos
  have hsize : ∀ record : BucketRecord, bucketSegmentHeaderBytes + recordSize record ≤
      maxSectionBytes ↔ record.members.length ≤ 2 ^ 25 - 9 := by
    intro record
    have hrecord : recordSize record = 32 + record.members.length * 8 := rfl
    simp only [hrecord, bucketSegmentHeaderBytes, maxSectionBytes]
    omega
  constructor
  · intro hfits
    have hhashes := hfits.hashes
    rw [length_countedRows hrows, List.length_map] at hhashes
    simp only [maxSectionBytes] at hhashes
    refine ⟨by omega, fun band hband hash => ?_⟩
    have hbandWord : (UInt32.ofNat band).toNat = band := toNat_ofNat32 (by omega)
    have hfibre := length_fibre_eq_bucketSize hword hwidth ⟨UInt32.ofNat band, hash⟩
    rw [hbandWord] at hfibre
    rw [← hfibre]
    by_cases hempty : fibre (bucketEntries items) ⟨UInt32.ofNat band, hash⟩ = []
    · rw [hempty]
      exact Nat.zero_le _
    · have hrecord : ⟨⟨UInt32.ofNat band, hash⟩, fibre (bucketEntries items)
          ⟨UInt32.ofNat band, hash⟩⟩ ∈ bucketRecords items :=
        mem_bucketRecords_iff.mpr ⟨rfl, hempty⟩
      exact (hsize _).mp (hfits.recordSize_le hrecord)
  · rintro ⟨hproduct, hbuckets⟩
    have hhashes : 8 + 8 * (items.length * bands) ≤ maxSectionBytes := by
      simp only [maxSectionBytes]
      omega
    refine ⟨hwidth, ?_, ?_, fun group hgroup => ?_, count_le_maxSectionCount hwidth hhashes⟩
    · rw [length_countedKeys, List.length_map]
      omega
    · rw [length_countedRows hrows, List.length_map]
      exact hhashes
    · refine segmentLength_le_of_records (by decide) (fun record hrecord => ?_) hgroup
      have hband := band_lt_of_mem_bucketRecords hword hwidth hrecord
      have hmembers := length_fibre_eq_bucketSize hword hwidth record.key
      rw [← (mem_bucketRecords_iff.mp hrecord).1] at hmembers
      rw [hsize, hmembers]
      exact hbuckets _ hband _

/-! ## The only error -/

/-- The error of a payload too large for a section. -/
def StoreError.IsSectionLimit (error : StoreError) : Prop :=
  ∃ length, maxSectionBytes < length ∧ error = .format (.sectionTooLarge length)

section Errors

variable {crc : Checksum} {sections : List Section} {records : List BucketRecord}

theorem outcome_section (kind : SectionKind) (required : Bool) (payload : Bytes) :
    Outcome ((Section.new kind required payload).mapError StoreError.format)
      (fun _ => payload.length ≤ maxSectionBytes) StoreError.IsSectionLimit := by
  unfold Section.new
  split
  · next hlarge => exact ⟨_, hlarge, rfl⟩
  · next hsmall => exact Nat.le_of_not_lt hsmall

/-- Sorted records of bounded length are pushed unless their segment is too large. -/
theorem outcome_pushBucketSection (hascending : Ascending (records.map (·.key)))
    (hcounts : ∀ record ∈ records, record.members.length < 2 ^ 32)
    (hlength : segmentLength records < 2 ^ 64) :
    Outcome (pushBucketSection StoreError.wrapping crc sections records)
      (fun pushed => pushed.length = sections.length + 1) StoreError.IsSectionLimit := by
  have hencode : encodeBucketSegment crc records = .ok (segmentBytes crc records) :=
    encodeBucketSegment_eq_ok_iff.mpr ⟨hascending, hcounts, hlength, rfl⟩
  rw [pushBucketSection, hencode, mapError_ok, ok_bind]
  apply outcome_bind (outcome_section .buckets true (segmentBytes crc records))
  intro framed _
  exact List.length_append

theorem outcome_pushBucketSections {groups : List (List BucketRecord)}
    (hascending : ∀ group ∈ groups, Ascending (group.map (·.key)))
    (hcounts : ∀ group ∈ groups, ∀ record ∈ group, record.members.length < 2 ^ 32)
    (hlength : ∀ group ∈ groups, segmentLength group < 2 ^ 64) :
    Outcome (groups.foldlM (pushBucketSection StoreError.wrapping crc) sections)
      (fun pushed => pushed.length = sections.length + groups.length)
      StoreError.IsSectionLimit := by
  induction groups generalizing sections with
  | nil => exact rfl
  | cons group groups ih =>
      rw [List.forall_mem_cons] at hascending hcounts hlength
      rw [List.foldlM_cons]
      apply outcome_bind (outcome_pushBucketSection hascending.1 hcounts.1 hlength.1)
      intro pushed hpushed
      have hrest := @ih pushed hascending.2 hcounts.2 hlength.2
      rw [hpushed] at hrest
      rw [List.length_cons, Nat.add_comm groups.length, ← Nat.add_assoc]
      exact hrest

/-- Appending the buckets of rows that a section can hold fails only on a bucket that no section
can hold. -/
theorem outcome_appendBucketSections (hpos : 0 < bands) (hword : bands < 2 ^ 32)
    (hwidth : ∀ item ∈ items, item.2.length = bands)
    (hhashes : 8 + 8 * (items.length * bands) ≤ maxSectionBytes) :
    Outcome (appendBucketSections StoreError.wrapping crc sections (bucketRecords items))
      (fun pushed => pushed.length =
        sections.length + (segmentsOf (bucketRecords items)).length) StoreError.IsSectionLimit := by
  have hkeysLe : items.length ≤ items.length * bands := Nat.le_mul_of_pos_right _ hpos
  have hlimit : maxSectionBytes = 2 ^ 28 := rfl
  have hmembers : ∀ record ∈ bucketRecords items, record.members.length < 2 ^ 25 := by
    intro record hrecord
    have hsize : bucketSize items record.key.band.toNat record.key.hash ≤ items.length :=
      List.length_filter_le _ _
    rw [(mem_bucketRecords_iff.mp hrecord).1, length_fibre_eq_bucketSize hword hwidth]
    omega
  have hrecordSize : ∀ record : BucketRecord, recordSize record = 32 + record.members.length * 8 :=
    fun _ => rfl
  rw [appendBucketSections_eq fun record hrecord => ?_]
  · have hsub : ∀ group ∈ segmentsOf (bucketRecords items), ∀ record ∈ group,
        record ∈ bucketRecords items := by
      intro group hgroup record hrecord
      rw [← segmentsOf_flatten (bucketRecords items)]
      exact List.mem_flatten_of_mem hgroup hrecord
    apply outcome_pushBucketSections
    · exact fun group => ascending_of_mem_segmentsOf
    · intro group hgroup record hrecord
      exact lt_trans (hmembers record (hsub group hgroup record hrecord)) (by decide)
    · intro group hgroup
      have hlength := @segmentLength_le_of_records _ (3 * maxSectionBytes) (by decide)
        (fun record hrecord => ?_) group hgroup
      · exact lt_of_le_of_lt hlength (by decide)
      · have hcount := hmembers record hrecord
        rw [hrecordSize, hlimit]
        simp only [bucketSegmentHeaderBytes]
        omega
  · have hcount := hmembers record hrecord
    rw [hrecordSize, hlimit]
    omega

end Errors

/-! ## Snapshots -/

section Snapshots

variable {scheme : SignatureScheme} {crc : Checksum} {core : PersistentIndexCore scheme}

/-- The keys and rows of a live map are words in memory, which 64-bit addresses reach. -/
def PersistentIndexCore.Addressable (core : PersistentIndexCore scheme) : Prop :=
  8 * core.len + 8 * (core.len * core.config.params.bands) < 2 ^ 64

theorem length_items : core.items.length = core.len := Std.ExtTreeMap.length_toList

/-- Every configuration has metadata. -/
theorem exists_metadataFor (scheme : SignatureScheme) (config : LshConfig) :
    ∃ metadata, MetadataFor scheme config metadata := by
  obtain ⟨hthreshold, hnumPerm, hword, hbands, hrows, hused⟩ := config.bounds
  have hbandsLe : config.params.bands ≤ config.params.bands * config.params.rows :=
    Nat.le_mul_of_pos_right _ hrows
  have hrowsLe : config.params.rows ≤ config.params.bands * config.params.rows :=
    Nat.le_mul_of_pos_left _ hbands
  have hnumPermWord : (UInt32.ofNat config.numPerm).toNat = config.numPerm := toNat_ofNat32 hword
  have hbandsWord : (UInt32.ofNat config.params.bands).toNat = config.params.bands :=
    toNat_ofNat32 (by omega)
  have hrowsWord : (UInt32.ofNat config.params.rows).toNat = config.params.rows :=
    toNat_ofNat32 (by omega)
  have hne : ∀ {word : UInt32} {value : Nat}, word.toNat = value → 0 < value → word ≠ 0 := by
    rintro word value rfl hpos rfl
    exact absurd hpos (by decide)
  have hvalid : validateMetadata (UInt32.ofNat config.numPerm) config.threshold
      (UInt32.ofNat config.params.bands) (UInt32.ofNat config.params.rows) 0 = .ok () := by
    simp only [validateMetadata, bind_eq_ok_iff, rejectIf_eq_ok_iff, not_or, not_lt,
      supportedFeatureFlags, exists_const, Bool.not_eq_true]
    rw [hnumPermWord, hbandsWord, hrowsWord]
    exact ⟨hne hnumPermWord hnumPerm, hthreshold, by omega, ⟨hne hbandsWord hbands,
      hne hrowsWord hrows, hused⟩, by decide⟩
  exact ⟨⟨.minHashLsh, scheme, .u64, _, config.seed, config.threshold, _, _, 0, hvalid⟩,
    rfl, rfl, rfl, hnumPermWord, rfl, rfl, hbandsWord, hrowsWord, rfl⟩

/-- Encoding fails only with the error of a payload too large for a section. -/
theorem outcome_encodeSnapshot
    (hwidth : ∀ item ∈ core.items, item.2.length = core.config.params.bands)
    (haddressable : core.Addressable) :
    Outcome (core.encodeSnapshot crc) (fun _ => True) StoreError.IsSectionLimit := by
  obtain ⟨_, _, _, hpos, _, _⟩ := core.config.bounds
  have hword := PersistentIndexCore.bands_lt core.config
  have hlength := @length_items _ core
  have hkeysLe : core.len ≤ core.len * core.config.params.bands := Nat.le_mul_of_pos_right _ hpos
  have hrows : ∀ row ∈ core.items.map Prod.snd, row.length = core.config.params.bands := by
    intro row hrow
    obtain ⟨item, hitem, rfl⟩ := List.mem_map.mp hrow
    exact hwidth item hitem
  have hnone : core.len = 0 → core.len * core.config.params.bands = 0 := fun hzero => by
    rw [hzero, Nat.zero_mul]
  rw [PersistentIndexCore.Addressable] at haddressable
  obtain ⟨metadata, hmetadata⟩ := exists_metadataFor scheme core.config
  have hkeys : encodeKeys (core.items.map Prod.fst) = .ok _ :=
    encodeKeys_eq_ok_iff.mpr ⟨by rw [List.length_map, hlength]; omega, rfl⟩
  have hhashes : encodeBandHashes (core.items.map Prod.snd) core.config.params.bands = .ok _ :=
    (encodeBandHashes_eq_ok_iff hpos).mpr ⟨by rw [List.length_map, hlength]; omega, hrows, rfl⟩
  have hbuckets : materializeSortedBuckets core.keyHashes core.config.params.bands = .ok _ :=
    (materializeSortedBuckets_eq_ok_iff hword).mpr ⟨hwidth, rfl⟩
  have hitems : core.keyHashes.toList = core.items := rfl
  rw [PersistentIndexCore.encodeSnapshot, snapshotMetadata_eq_ok_iff.mpr hmetadata, ok_bind, hitems,
    hkeys, ok_bind, hhashes, ok_bind]
  apply outcome_bind (outcome_section .keys true _)
  intro keysSection _
  apply outcome_bind (outcome_section .bandHashes true _)
  intro hashesSection hsection
  rw [length_countedRows hrows, List.length_map] at hsection
  rw [hbuckets, ok_bind]
  apply outcome_bind (outcome_appendBucketSections hpos hword hwidth hsection)
  intro sections hsections
  have hcount : sections.length ≤ maxSectionCount := by
    rw [hsections, Nat.add_comm]
    exact count_le_maxSectionCount hwidth hsection
  have hfile : IndexFile.new metadata sections = .ok ⟨metadata, sections, hcount⟩ :=
    IndexFile.new_eq_ok_iff.mpr ⟨rfl, rfl⟩
  rw [hfile, mapError_ok, ok_bind, IndexFile.encode_eq_ok, mapError_ok]
  trivial

/-- A live map with rows of one width has a snapshot exactly when its rows fit in a section and so
does each of its buckets. A map in memory that has none is refused for a payload too large for a
section, so no other limit and no overflow is ever reached. -/
theorem encodeSnapshot_limits (hwidth : ∀ (key : UInt64) (row : List UInt64),
      core.liveRows key = some row → row.length = core.config.params.bands) :
    (succeeds (core.encodeSnapshot crc) ↔
      core.len * core.config.params.bands ≤ 2 ^ 25 - 1 ∧
        ∀ band < core.config.params.bands, ∀ hash,
          bucketSize core.items band hash ≤ 2 ^ 25 - 9) ∧
    (core.Addressable → ∀ error, core.encodeSnapshot crc = .error error →
      error.IsSectionLimit) := by
  have hitems : ∀ item ∈ core.items, item.2.length = core.config.params.bands :=
    fun item hitem => hwidth item.1 item.2 (PersistentIndexCore.mem_items_iff.mp hitem)
  constructor
  · rw [← length_items, ← fitsSnapshot_iff core.config.bounds.2.2.2.1 (PersistentIndexCore.bands_lt core.config) hitems]
    constructor
    · rintro ⟨bytes, hencode⟩
      obtain ⟨_, _, hfits, _⟩ := PersistentIndexCore.encodeSnapshot_eq_ok_iff.mp hencode
      exact hfits
    · intro hfits
      obtain ⟨metadata, hmetadata⟩ := exists_metadataFor scheme core.config
      exact ⟨_, PersistentIndexCore.encodeSnapshot_eq_ok_iff.mpr ⟨metadata, hmetadata, hfits, rfl⟩⟩
  · intro haddressable error herror
    have houtcome : Outcome (core.encodeSnapshot crc) (fun _ => True) StoreError.IsSectionLimit :=
      outcome_encodeSnapshot hitems haddressable
    rw [herror] at houtcome
    exact houtcome

/-- The snapshot of one key is within the limits. -/
theorem encodeSnapshot_limits_sample :
    succeeds (sampleCore.encodeSnapshot Checksum.crc32) ∧
      ∀ error, sampleCore.encodeSnapshot Checksum.crc32 = .error error → error.IsSectionLimit := by
  have hwidth : ∀ (key : UInt64) (row : List UInt64),
      sampleCore.liveRows key = some row → row.length = sampleCore.config.params.bands := by
    intro key row hrow
    have hmem : (key, row) ∈ [((7 : UInt64), ([1, 2] : List UInt64))] :=
      PersistentIndexCore.mem_items_iff.mpr hrow
    obtain ⟨rfl, rfl⟩ := Prod.mk.inj (List.mem_singleton.mp hmem)
    rfl
  have haddressable : sampleCore.Addressable := by
    rw [PersistentIndexCore.Addressable]
    decide
  obtain ⟨hiff, hlimit⟩ := @encodeSnapshot_limits _ Checksum.crc32 _ hwidth
  refine ⟨hiff.mpr ⟨by decide, fun band _ hash => ?_⟩, hlimit haddressable⟩
  exact le_trans (List.length_filter_le _ _) (by decide)

end Snapshots

end Pari.Store
