/-
# What a build can publish

The bounded builder frames its sections itself, and does not ask whether they keep the limits of
the format. The sections of its source do, and packing leaves few segments; only a bucket that is
too large for a section makes an output that no reader accepts.
-/

import Pari.Build.Output
import Pari.Store.Limits

namespace Pari.Build

open Data Pari.Format Pari.Index Pari.Store

variable {crc : Checksum} {file : Bytes} {source : Source} {items : List (UInt64 × List UInt64)}

/-! ## The sections of an output -/

theorem length_outputSections : (outputSections crc items).length =
    (segmentsOf (sourceBuckets items)).length + 2 := by
  rw [outputSections, snapshotSections, List.length_cons, List.length_cons, List.length_map]

/-- A source has few records, which are packed into few segments. -/
theorem length_outputSections_le (hsource : source.Reads crc file items) :
    (outputSections crc items).length ≤ maxSectionCount := by
  have hlimits := hsource.length_le.2
  have hrecords := length_spillRecords hsource.width
  have hwords : items.length * (source.bands * 8) = items.length * source.bands * 8 := by ring
  have htotal := @totalSize_sourceBuckets_le items
  have hgroups := @length_pack_le _ recordSize bucketSegmentHeaderBytes bucketSegmentTargetBytes
    (sourceBuckets items) (by decide)
  rw [length_outputSections, segmentsOf]
  split
  · decide
  · simp only [maxSectionBytes, bucketSegmentTargetBytes, bucketSegmentHeaderBytes,
      maxSectionCount] at hgroups hlimits ⊢
    omega

/-- No section of an output is longer than its length field says. -/
theorem addressable_outputSections (hsource : source.Reads crc file items) :
    ∀ known ∈ outputSections crc items, known.payload.length < 2 ^ 64 := by
  obtain ⟨hkeys, hrows⟩ := hsource.length_le
  have hrecords := length_spillRecords hsource.width
  have hwords : items.length * (source.bands * 8) = 8 * (items.length * source.bands) := by ring
  simp only [maxSectionBytes] at hkeys hrows
  intro known hknown
  rw [outputSections, snapshotSections, List.mem_cons, List.mem_cons, List.mem_map] at hknown
  rcases hknown with rfl | rfl | ⟨group, hgroup, rfl⟩
  · rw [metadataKnown, length_countedKeys, List.length_map]
    omega
  · rw [metadataKnown, length_countedRows hsource.holds.items.width_snd, List.length_map,
      ← hsource.bands]
    omega
  · rw [segmentSection, length_segmentBytes]
    apply lt_of_le_of_lt (@segmentLength_le_of_records _ (2 ^ 32) (by decide) _ _ hgroup) (by decide)
    intro record hrecord
    have hmembers := length_members_le hrecord
    have hsize : recordSize record = 32 + record.members.length * 8 := rfl
    rw [hsize]
    simp only [bucketSegmentHeaderBytes]
    omega

/-- The sections keep the limit of the format exactly if no bucket is too large for a section. -/
theorem bounded_outputSections_iff (hsource : source.Reads crc file items) :
    (∀ known ∈ outputSections crc items, known.payload.length ≤ maxSectionBytes) ↔
      ∀ record ∈ sourceBuckets items, record.members.length ≤ 2 ^ 25 - 9 := by
  have hsize : ∀ record : BucketRecord, bucketSegmentHeaderBytes + recordSize record ≤
      maxSectionBytes ↔ record.members.length ≤ 2 ^ 25 - 9 := by
    intro record
    have hrecord : recordSize record = 32 + record.members.length * 8 := rfl
    simp only [hrecord, bucketSegmentHeaderBytes, maxSectionBytes]
    omega
  obtain ⟨hkeys, hrows⟩ := hsource.length_le
  have hlength : ∀ group ∈ segmentsOf (sourceBuckets items),
      segmentSection crc group ∈ outputSections crc items := by
    intro group hgroup
    rw [outputSections, snapshotSections]
    exact List.mem_cons_of_mem _ (List.mem_cons_of_mem _ (List.mem_map_of_mem hgroup))
  constructor
  · intro hbounded record hrecord
    rw [← segmentsOf_flatten (sourceBuckets items), List.mem_flatten] at hrecord
    obtain ⟨group, hgroup, hmem⟩ := hrecord
    have hsegment : (segmentBytes crc group).length ≤ maxSectionBytes :=
      hbounded _ (hlength group hgroup)
    have hle : recordSize record ≤ totalSize recordSize group := size_le_totalSize hmem
    rw [length_segmentBytes, segmentLength_eq] at hsegment
    rw [← hsize]
    omega
  · intro hmembers known hknown
    rw [outputSections, snapshotSections, List.mem_cons, List.mem_cons, List.mem_map] at hknown
    rcases hknown with rfl | rfl | ⟨group, hgroup, rfl⟩
    · rw [metadataKnown, length_countedKeys, List.length_map]
      omega
    · have hwords : items.length * (source.bands * 8) = 8 * (items.length * source.bands) := by ring
      rw [metadataKnown, length_countedRows hsource.holds.items.width_snd, List.length_map,
        ← hsource.bands, ← hwords]
      exact hrows
    · rw [segmentSection, length_segmentBytes]
      exact segmentLength_le_of_records (by decide)
        (fun record hrecord => (hsize record).mpr (hmembers record hrecord)) hgroup

/-- The buckets of a source have as many members as its items have keys under a band and a hash. -/
theorem forall_sourceBuckets_iff {bands limit : Nat} (hword : bands < 2 ^ 32)
    (hwidth : ∀ item ∈ items, item.2.length = bands) :
    (∀ record ∈ sourceBuckets items, record.members.length ≤ limit) ↔
      ∀ band hash, bucketSize items band hash ≤ limit := by
  constructor
  · intro hrecords band hash
    by_cases hband : band < bands
    · have hbandWord : (UInt32.ofNat band).toNat = band := toNat_ofNat32 (by omega)
      have hfibre := length_fibre_eq_bucketSize hword hwidth ⟨UInt32.ofNat band, hash⟩
      rw [hbandWord] at hfibre
      rw [← hfibre, ← length_sortUnstable]
      by_cases hempty : sortUnstable (fibre (bucketEntries items) ⟨UInt32.ofNat band, hash⟩) = []
      · rw [hempty]
        exact Nat.zero_le _
      · exact hrecords ⟨_, _⟩ (mem_sourceBuckets_iff.mpr ⟨rfl, hempty⟩)
    · -- No row has a hash for a band that it does not reach.
      have hnone : (items.filter fun item => item.2[band]? = some hash) = [] := by
        rw [List.filter_eq_nil_iff]
        intro item hitem
        rw [List.getElem?_eq_none (by rw [hwidth item hitem]; omega)]
        simp
      rw [bucketSize, hnone]
      exact Nat.zero_le _
  · intro hsizes record hrecord
    rw [(mem_sourceBuckets_iff.mp hrecord).1, length_sortUnstable,
      length_fibre_eq_bucketSize hword hwidth]
    exact hsizes _ _

/-! ## Reading an output -/

/-- An output that keeps the limits is read, and its directory holds the buckets of the source. -/
theorem exists_openFile_outputBytes {scheme : SignatureScheme} {config : LshConfig}
    (hsource : source.Reads crc file items)
    (hmetadata : MetadataFor scheme config source.layout.metadata)
    (hbounded : ∀ known ∈ outputSections crc items, known.payload.length ≤ maxSectionBytes) :
    ∃ (layout : FileLayout) (index : Lazy.LazyIndexCore scheme),
      FileLayout.readFrom crc (outputBytes crc source.layout.metadata items) = .ok layout ∧
      layout.sections.map (SectionDescriptor.view (outputBytes crc source.layout.metadata items)) =
        outputSections crc items ∧
      Lazy.LazyIndexCore.openFile crc scheme (outputBytes crc source.layout.metadata items) =
        .ok index ∧ index.Holds crc config (sourceBuckets items) := by
  have haccepted : ∀ frame ∈ (outputSections crc items).map KnownSection.frame,
      frame.Accepted crc := by
    intro frame hframe
    obtain ⟨known, hknown, rfl⟩ := List.mem_map.mp hframe
    exact KnownSection.accepted_frame crc (hbounded known hknown)
  have hcount := @length_outputSections_le crc file source items hsource
  rw [← List.length_map (f := KnownSection.frame)] at hcount
  obtain ⟨layout, hread, hsame, hdescribes, hsections⟩ :=
    @readFrom_containerBytes crc source.layout.metadata _ hcount haccepted
  rw [KnownSection.filterMap_frame] at hsections
  have hlimits := hsource.length_le.1
  have hwidth := hsource.width
  have hbandsWord : source.bands < 2 ^ 32 := by
    rw [hsource.bands]
    exact source.layout.metadata.bands.toNat_lt
  have hflatten := segmentsOf_flatten (sourceBuckets items)
  obtain ⟨index, hopen, hholds⟩ := @Lazy.LazyIndexCore.openFile_of_snapshot scheme crc config _ layout
    _ _ _ hread (hsame ▸ hmetadata) ⟨hdescribes, hsections⟩ (segmentsOf_ne_nil _)
    (by rw [hflatten]; exact ascending_sourceBuckets) (by
      rw [hflatten]
      intro record hrecord
      rw [(mem_sourceBuckets_iff.mp hrecord).1, length_sortUnstable,
        length_fibre_eq_bucketSize hbandsWord hwidth]
      have hsize : bucketSize items record.key.band.toNat record.key.hash ≤ items.length :=
        List.length_filter_le _ _
      simp only [maxSectionBytes] at hlimits
      omega) (by
      rw [hflatten]
      intro record hrecord
      obtain ⟨hmembers, hne⟩ := mem_sourceBuckets_iff.mp hrecord
      rw [← hmetadata.bands, ← hsource.bands]
      apply band_lt_of_fibre_ne_nil hbandsWord hwidth
      intro hnil
      rw [hmembers, hnil] at hne
      exact hne rfl)
  rw [hflatten] at hholds
  exact ⟨layout, index, hread, hsections, hopen, hholds⟩

/-- Every section of an accepted file keeps the limit. -/
theorem payloadLength_le_of_readFrom {layout : FileLayout}
    (h : FileLayout.readFrom crc file = .ok layout) :
    ∀ descriptor ∈ layout.sections, descriptor.payloadLength ≤ maxSectionBytes := by
  intro descriptor hmem
  rw [← length_payloadIn (readFrom_spec h).1 hmem]
  exact length_payload_le_of_readFrom h (List.mem_map_of_mem hmem)

/-- What a build publishes from a file that opens is accepted by the layout reader and by the lazy
index exactly if no bucket has more members than a section can hold. -/
theorem buildExternal_readable_iff {scheme : SignatureScheme} {core : PersistentIndexCore scheme}
    {sourcePath destination : Path} {options : BuildOptions} {clock : Option Nat}
    {world world' opened : World} {stats : BuildStats} (hcrc : crc.Incremental)
    (hopen : PersistentIndexCore.openPath crc scheme sourcePath world = (.ok core, opened))
    (h : buildExternal crc sourcePath destination options clock world = (.ok stats, world')) :
    ∃ output, world'.files.Holds destination.location output ∧
      (((∃ layout, FileLayout.readFrom crc output = .ok layout ∧
            layout.sections.length ≤ maxSectionCount ∧
            ∀ descriptor ∈ layout.sections, descriptor.payloadLength ≤ maxSectionBytes) ∧
          ∃ index : Lazy.LazyIndexCore scheme,
            Lazy.LazyIndexCore.openFile crc scheme output = .ok index) ↔
        ∀ band hash, bucketSize core.items band hash ≤ 2 ^ 25 - 9) := by
  obtain ⟨file, layout, items, hfile, hsource, hholds⟩ := buildExternal_eq_ok hcrc h
  obtain ⟨source, hreads, rfl⟩ := exists_reads hsource
  -- The index is opened from the same bytes, so it has the same items.
  unfold PersistentIndexCore.openPath at hopen
  split at hopen
  · cases hopen
  next file' _ hread =>
  obtain rfl : file' = file := Option.some.inj ((World.openRead_eq_ok hread).1.symm.trans hfile)
  obtain ⟨layout', items', hread', hmetadata, hitems, hdistinct, hrows, _⟩ :=
    PersistentIndexCore.openFile_eq_ok (congrArg Prod.fst hopen)
  rw [← hmetadata.bands] at hitems
  obtain ⟨rfl, rfl⟩ := hsource.unique ⟨hread', hmetadata.keyCodec, hmetadata.featureFlags, hitems⟩
  have hbandsWord := source.layout.metadata.bands.toNat_lt
  have hsizes : (∀ band hash, bucketSize core.items band hash ≤ 2 ^ 25 - 9) ↔
      ∀ band hash, bucketSize items' band hash ≤ 2 ^ 25 - 9 := by
    have hsame : ∀ band hash, bucketSize core.items band hash = bucketSize items' band hash :=
      fun band hash => ((PersistentIndexCore.items_perm hdistinct hrows).filter _).length_eq
    simp only [hsame]
  rw [hsizes, ← forall_sourceBuckets_iff hbandsWord hsource.items.width,
    ← @bounded_outputSections_iff crc _ _ _ hreads]
  refine ⟨_, hholds, ?_⟩
  constructor
  · rintro ⟨⟨layout, hlayout, _⟩, _⟩
    have hcount := @length_outputSections_le crc _ _ _ hreads
    exact ((exists_readFrom_iff (addressable_outputSections hreads)
      (hcount.trans_lt (by decide))).mp ⟨layout, hlayout⟩).2
  · intro hbounded
    obtain ⟨layout, index, hlayout, hsections, hindex, _⟩ :=
      exists_openFile_outputBytes hreads hmetadata hbounded
    refine ⟨⟨layout, hlayout, ?_, payloadLength_le_of_readFrom hlayout⟩, index, hindex⟩
    rw [← List.length_map (f := SectionDescriptor.view _), hsections]
    exact length_outputSections_le hreads

/-! ## A bucket that no section can hold -/

/-- As many keys as given, all under one hash. -/
def crowdedItems (count : Nat) : List (UInt64 × List UInt64) :=
  (List.range count).map fun key => (UInt64.ofNat key, [5])

def crowdedFile (count : Nat) : Bytes :=
  containerBytes Checksum.crc32 oneBandMetadata
    ((sectionsWith Checksum.crc32 (crowdedItems count) []).map KnownSection.frame)

theorem length_crowdedItems (count : Nat) : (crowdedItems count).length = count := by
  rw [crowdedItems, List.length_map, List.length_range]

theorem row_of_mem_crowdedItems {count : Nat} {item : UInt64 × List UInt64}
    (h : item ∈ crowdedItems count) : item.2 = [5] := by
  obtain ⟨key, _, rfl⟩ := List.mem_map.mp h
  rfl

theorem bucketSize_crowdedItems (count : Nat) : bucketSize (crowdedItems count) 0 5 = count := by
  have hall : (crowdedItems count).filter (fun item => item.2[0]? = some 5) = crowdedItems count := by
    apply List.filter_eq_self.mpr
    intro item hitem
    rw [row_of_mem_crowdedItems hitem]
    rfl
  rw [bucketSize, hall, length_crowdedItems]

theorem distinct_crowdedItems {count : Nat} (hcount : count < 2 ^ 64) :
    ((crowdedItems count).map Prod.fst).Nodup := by
  rw [crowdedItems, List.map_map]
  apply List.Nodup.map_on _ List.nodup_range
  intro left hleft right hright heq
  rw [List.mem_range] at hleft hright
  have hword := congrArg UInt64.toNat heq
  rwa [Function.comp_apply, Function.comp_apply, toNat_ofNat64 (by omega),
    toNat_ofNat64 (by omega)] at hword

/-- Keys that fit in a section are a source that opens. -/
theorem exists_crowded_source {count : Nat} (hcount : count < 2 ^ 25) :
    ∃ (source : Source) (core : PersistentIndex32),
      source.Reads Checksum.crc32 (crowdedFile count) (crowdedItems count) ∧
      PersistentIndexCore.openFile Checksum.crc32 inPath (crowdedFile count) = .ok core ∧
      core.items.length = count := by
  have hwidth : ∀ item ∈ crowdedItems count, item.2.length = oneBandMetadata.bands.toNat := by
    intro item hitem
    rw [row_of_mem_crowdedItems hitem]
    rfl
  have hrows : ∀ row ∈ (crowdedItems count).map Prod.snd, row.length = 1 := by
    intro row hrow
    obtain ⟨item, hitem, rfl⟩ := List.mem_map.mp hrow
    rw [row_of_mem_crowdedItems hitem]
    rfl
  obtain ⟨layout, hholds, hmetadata, hsections⟩ := @exists_sourceHolds Checksum.crc32 oneBandMetadata
    (crowdedItems count) [] rfl rfl hwidth (by
      intro known hknown
      rw [sectionsWith] at hknown
      simp only [List.mem_cons, List.not_mem_nil, or_false] at hknown
      rcases hknown with rfl | rfl
      · rw [metadataKnown, length_countedKeys, List.length_map, length_crowdedItems, maxSectionBytes]
        omega
      · rw [metadataKnown, length_countedRows hrows, List.length_map, length_crowdedItems,
          maxSectionBytes]
        omega) nofun (by decide)
  obtain ⟨source, hreads, -⟩ := exists_reads hholds
  have hview : ∀ descriptor ∈ layout.sections, descriptor.view (crowdedFile count) ∈
      sectionsWith Checksum.crc32 (crowdedItems count) [] := by
    intro descriptor hmem
    rw [← hsections]
    exact List.mem_map_of_mem hmem
  have hkind : ∀ descriptor ∈ layout.sections,
      descriptor.kind = .keys ∨ descriptor.kind = .bandHashes := by
    intro descriptor hmem
    have hknown := hview descriptor hmem
    simp only [sectionsWith, List.mem_cons, List.not_mem_nil, or_false] at hknown
    exact hknown.imp (congrArg KnownSection.kind) (congrArg KnownSection.kind)
  have hnone : layout.sections.filter (·.kind = .buckets) = [] := by
    rw [List.filter_eq_nil_iff]
    intro descriptor hmem hbuckets
    rw [decide_eq_true_eq] at hbuckets
    rcases hkind descriptor hmem with heq | heq
    · rw [heq] at hbuckets
      cases hbuckets
    · rw [heq] at hbuckets
      cases hbuckets
  have hscheme : layout.metadata.signatureScheme = .pariAffine32V1 := by
    rw [hmetadata]
    rfl
  obtain ⟨core, hopen⟩ := (@SourceHolds.exists_openFile_iff _ _ _ _ _ hholds hscheme hnone inPath).mpr
    ⟨distinct_crowdedItems (by omega), by
      intro descriptor hmem htombstones
      rcases hkind descriptor hmem with heq | heq
      · rw [heq] at htombstones
        cases htombstones
      · rw [heq] at htombstones
        cases htombstones⟩
  obtain ⟨layout', items, hread, hconfig, hitems, hdistinct, hlive, _⟩ :=
    PersistentIndexCore.openFile_eq_ok hopen
  rw [← hconfig.bands] at hitems
  obtain ⟨rfl, rfl⟩ := hholds.unique ⟨hread, hconfig.keyCodec, hconfig.featureFlags, hitems⟩
  have hlength := (PersistentIndexCore.items_perm hdistinct hlive).length_eq
  exact ⟨source, core, hreads, hopen, hlength.trans (length_crowdedItems count)⟩

theorem openPath_worldHolding {scheme : SignatureScheme} {core : PersistentIndexCore scheme}
    {path : Path} (hopen : PersistentIndexCore.openFile crc path file = .ok core) :
    PersistentIndexCore.openPath crc scheme path (worldHolding path.location file) =
      (.ok core, ((worldHolding path.location file).openRead path).2) := by
  have hread := openRead_worldHolding path file
  unfold PersistentIndexCore.openPath
  generalize (worldHolding path.location file).openRead path = outcome at hread ⊢
  obtain ⟨result, opened⟩ := outcome
  obtain rfl : result = .ok file := hread
  dsimp only
  rw [hopen]

/-- The keys that fit in a section, with one hash: their bucket does not fit, and what is published
for them is not read back. -/
theorem buildExternal_unreadable_sample :
    ∃ (core : PersistentIndex32) (opened world' : World) (stats : BuildStats) (output : Bytes),
      PersistentIndexCore.openPath Checksum.crc32 .pariAffine32V1 inPath
          (worldHolding inPath.location (crowdedFile 33554424)) = (.ok core, opened) ∧
        buildExternal Checksum.crc32 inPath outPath ⟨1000000⟩ (some 0)
          (worldHolding inPath.location (crowdedFile 33554424)) = (.ok stats, world') ∧
        world'.files.Holds outPath.location output ∧
        ¬ ∃ layout, FileLayout.readFrom Checksum.crc32 output = .ok layout := by
  obtain ⟨source, core, hreads, hopen, -⟩ := @exists_crowded_source 33554424 (by omega)
  obtain ⟨stats, world', hbuild⟩ := @exists_buildExternal_worldHolding _ _ ⟨1000000⟩ _ hreads
    (by decide) (by decide)
  obtain ⟨file, layout, items, hfile, hsource, hholds⟩ :=
    buildExternal_eq_ok Checksum.crc32_incremental hbuild
  obtain rfl : crowdedFile 33554424 = file := Option.some.inj (read_worldHolding.symm.trans hfile)
  obtain ⟨rfl, rfl⟩ := hsource.unique hreads.holds
  have hcount := @length_outputSections_le Checksum.crc32 _ _ _ hreads
  refine ⟨core, _, world', stats, _, openPath_worldHolding hopen, hbuild, hholds, ?_⟩
  intro hread
  have hbounded := ((exists_readFrom_iff (addressable_outputSections hreads)
    (hcount.trans_lt (by decide))).mp hread).2
  have hsizes := (forall_sourceBuckets_iff source.layout.metadata.bands.toNat_lt
    hsource.items.width).mp ((bounded_outputSections_iff hreads).mp hbounded) 0 5
  rw [bucketSize_crowdedItems] at hsizes
  omega

/-- What is published for one item is read back. -/
theorem buildExternal_readable_sample : ∃ (core : PersistentIndex32) (opened world' : World)
    (stats : BuildStats),
    PersistentIndexCore.openPath Checksum.crc32 .pariAffine32V1 inPath
        (worldHolding inPath.location (crowdedFile 1)) = (.ok core, opened) ∧
      buildExternal Checksum.crc32 inPath outPath ⟨1⟩ (some 0)
        (worldHolding inPath.location (crowdedFile 1)) = (.ok stats, world') ∧
      ∃ output, world'.files.Holds outPath.location output ∧
        ∃ index : Lazy.LazyIndexCore .pariAffine32V1,
          Lazy.LazyIndexCore.openFile Checksum.crc32 .pariAffine32V1 output = .ok index := by
  obtain ⟨source, core, hreads, hopen, hlength⟩ := @exists_crowded_source 1 (by omega)
  obtain ⟨stats, world', hbuild⟩ := @exists_buildExternal_worldHolding _ _ ⟨1⟩ _ hreads
    (by decide) (by decide)
  obtain ⟨output, hholds, hiff⟩ := buildExternal_readable_iff Checksum.crc32_incremental
    (openPath_worldHolding hopen) hbuild
  have hsmall : ∀ band hash, bucketSize core.items band hash ≤ 2 ^ 25 - 9 := by
    intro band hash
    have hle : bucketSize core.items band hash ≤ core.items.length := List.length_filter_le _ _
    omega
  exact ⟨core, _, world', stats, openPath_worldHolding hopen, hbuild, output, hholds,
    (hiff.mpr hsmall).2⟩

end Pari.Build
