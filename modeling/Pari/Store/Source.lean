/-
# Sources of the builders

The builders take any container whose format is right and whose two metadata sections hold as
many keys as rows. The items it holds are determined by its bytes. A payload holds counted keys
or rows exactly when its count word and its length agree.
-/

import Pari.Store.RoundTrip

namespace Pari.Store

open Data Pari.Format Pari.Index

variable {ε : Type}

/-- A container that the builders take for a snapshot of items. -/
structure SourceHolds (crc : Checksum) (layout : FileLayout) (file : Bytes)
    (items : List (UInt64 × List UInt64)) : Prop where
  read : FileLayout.readFrom crc file = .ok layout
  keyCodec : layout.metadata.keyCodec = .u64
  featureFlags : layout.metadata.featureFlags = 0
  items : HoldsItems crc layout file layout.metadata.bands.toNat items

/-- Items are their keys beside their rows. -/
theorem zip_fst_snd (items : List (UInt64 × List UInt64)) :
    (items.map Prod.fst).zip (items.map Prod.snd) = items := by
  rw [List.zip_map', List.map_id'']
  exact fun _ => rfl

section Sources

variable {crc : Checksum} {layout : FileLayout} {file : Bytes}
  {items : List (UInt64 × List UInt64)}

theorem SourceHolds.describes (h : SourceHolds crc layout file items) : layout.Describes file :=
  (readFrom_spec h.read).1

/-- The layout and the items of a source are determined by it. -/
theorem SourceHolds.unique {layout' : FileLayout} {items' : List (UInt64 × List UInt64)}
    (h : SourceHolds crc layout file items) (h' : SourceHolds crc layout' file items') :
    layout' = layout ∧ items' = items := by
  obtain rfl := Except.ok.inj (h.read.symm.trans h'.read)
  exact ⟨rfl, h'.items.unique h.describes layout.metadata.bounds.1 layout.metadata.bands.toNat_lt
    h.items⟩

/-- The rows of a source have the width of its metadata, which is a 32-bit word. -/
theorem SourceHolds.width_lt (h : SourceHolds crc layout file items) :
    ∀ item ∈ items, item.2.length < 2 ^ 32 := by
  intro item hitem
  rw [h.items.width item hitem]
  exact layout.metadata.bands.toNat_lt

theorem HoldsItems.width_snd {bands : Nat} (h : HoldsItems crc layout file bands items) :
    ∀ row ∈ items.map Prod.snd, row.length = bands := by
  intro row hrow
  obtain ⟨item, hitem, rfl⟩ := List.mem_map.mp hrow
  exact h.width item hitem

end Sources

/-! ## Containers that are sources -/

/-- The sections of a container that holds items beside other sections. -/
def sectionsWith (crc : Checksum) (items : List (UInt64 × List UInt64))
    (others : List KnownSection) : List KnownSection :=
  metadataKnown crc .keys (countedKeys (items.map Prod.fst)) ::
    metadataKnown crc .bandHashes (countedRows (items.map Prod.snd)) :: others

/-- Such a container, if the others are no metadata sections and all keep the limits, is a source
of its items. -/
theorem exists_sourceHolds {crc : Checksum} {metadata : IndexMetadata}
    {items : List (UInt64 × List UInt64)} {others : List KnownSection}
    (hcodec : metadata.keyCodec = .u64) (hflags : metadata.featureFlags = 0)
    (hwidth : ∀ item ∈ items, item.2.length = metadata.bands.toNat)
    (hbounded : ∀ known ∈ sectionsWith crc items others, known.payload.length ≤ maxSectionBytes)
    (hothers : ∀ known ∈ others, known.kind ≠ .keys ∧ known.kind ≠ .bandHashes)
    (hcount : others.length + 2 ≤ maxSectionCount) :
    ∃ layout, SourceHolds crc layout (containerBytes crc metadata
        ((sectionsWith crc items others).map KnownSection.frame)) items ∧
      layout.metadata = metadata ∧
      layout.sections.map (SectionDescriptor.view (containerBytes crc metadata
        ((sectionsWith crc items others).map KnownSection.frame))) = sectionsWith crc items others := by
  have haccepted : ∀ frame ∈ (sectionsWith crc items others).map KnownSection.frame,
      frame.Accepted crc := by
    intro frame hframe
    obtain ⟨known, hknown, rfl⟩ := List.mem_map.mp hframe
    exact KnownSection.accepted_frame crc (hbounded known hknown)
  have hlength : ((sectionsWith crc items others).map KnownSection.frame).length ≤ maxSectionCount := by
    rw [List.length_map]
    exact hcount
  obtain ⟨layout, hread, hmetadata, hdescribes, hsections⟩ :=
    @readFrom_containerBytes crc metadata _ hlength haccepted
  rw [KnownSection.filterMap_frame] at hsections
  have hnone : ∀ kind, (kind = .keys ∨ kind = .bandHashes) →
      others.filter (·.kind = kind) = [] := by
    intro kind hkind
    rw [List.filter_eq_nil_iff]
    intro known hknown
    rw [decide_eq_true_eq]
    rintro rfl
    exact hkind.elim (hothers known hknown).1 (hothers known hknown).2
  refine ⟨layout, ⟨hread, hmetadata ▸ hcodec, hmetadata ▸ hflags, ?_, ?_, hmetadata ▸ hwidth⟩,
    hmetadata, hsections⟩
  · rw [filter_kind_map_view, hsections, sectionsWith, List.filter_cons_of_pos (by rfl),
      List.filter_cons_of_neg (by simp [metadataKnown]), hnone _ (Or.inl rfl)]
  · rw [filter_kind_map_view, hsections, sectionsWith,
      List.filter_cons_of_neg (by simp [metadataKnown]), List.filter_cons_of_pos (by rfl),
      hnone _ (Or.inr rfl)]

/-! ## Opening a source -/

/-- A source without bucket sections opens exactly if no key is repeated and no tombstones are
required. -/
theorem SourceHolds.exists_openFile_iff {crc : Checksum} {layout : FileLayout} {file : Bytes}
    {items : List (UInt64 × List UInt64)} {scheme : SignatureScheme}
    (h : SourceHolds crc layout file items) (hscheme : layout.metadata.signatureScheme = scheme)
    (hnone : layout.sections.filter (·.kind = .buckets) = []) {path : Path} :
    (∃ core : PersistentIndexCore scheme, PersistentIndexCore.openFile crc path file = .ok core) ↔
      (items.map Prod.fst).Nodup ∧ ∀ descriptor ∈ layout.sections,
        descriptor.kind = .tombstones → descriptor.required = false := by
  subst hscheme
  constructor
  · rintro ⟨core, hopen⟩
    obtain ⟨layout', items', hread, hmetadata, hitems, hdistinct, _⟩ :=
      PersistentIndexCore.openFile_eq_ok hopen
    rw [← hmetadata.bands] at hitems
    obtain ⟨rfl, rfl⟩ := h.unique ⟨hread, hmetadata.keyCodec, hmetadata.featureFlags, hitems⟩
    exact ⟨hdistinct, (PersistentIndexCore.openFile_buckets hopen hread).2.1⟩
  · rintro ⟨hdistinct, htombstones⟩
    obtain ⟨config, hmetadata⟩ := exists_config_of_metadata h.keyCodec h.featureFlags
    have hvalid : validateStoreMetadata layout.metadata layout.metadata.signatureScheme = .ok () :=
      validateStoreMetadata_eq_ok_iff.mpr ⟨eq_minHashLsh _, rfl, h.keyCodec, h.featureFlags⟩
    obtain ⟨keyHashes, hunique⟩ := exists_insertUnique hdistinct
    have hitems := h.items
    rw [hmetadata.bands] at hitems
    have hrows := (insertUnique_eq_ok_iff.mp hunique).2.2
    rw [rowsOfMap_empty] at hrows
    have hkeys := (readKeyMetadata_eq_ok_iff h.describes).mpr ⟨items, hitems, hdistinct, hrows⟩
    have hbuckets : ∀ descriptor ∈ layout.sections, descriptor.kind = .buckets →
        descriptor.required = true := by
      intro descriptor hmem hkind
      have hin : descriptor ∈ layout.sections.filter (·.kind = .buckets) :=
        List.mem_filter.mpr ⟨hmem, decide_eq_true hkind⟩
      rw [hnone] at hin
      cases hin
    have hdescriptors : collectBucketDescriptors layout = .ok [] :=
      collectBucketSections_eq_ok_iff.mpr ⟨hbuckets, htombstones, hnone.symm⟩
    have hwidth : ∀ (key : UInt64) (row : List UInt64), rowsOfMap keyHashes key = some row →
        row.length = config.params.bands := by
      intro key row hrow
      rw [hrows, insertRows_eq_some_iff hdistinct] at hrow
      rcases hrow with hmem | ⟨_, hnothing⟩
      · exact hitems.width _ hmem
      · cases hnothing
    obtain ⟨rebuilt, hrebuilt, _⟩ := @PersistentIndexCore.rebuildOverlayAll_spec layout.metadata.signatureScheme
      { PersistentIndexCore.empty _ path config with keyHashes } crc hwidth
    refine ⟨{ rebuilt with dirty := true }, ?_⟩
    rw [PersistentIndexCore.openFile, h.read, mapError_ok, ok_bind, hvalid, ok_bind,
      hmetadata.config_eq, mapError_ok, ok_bind, hkeys, ok_bind, hdescriptors, ok_bind,
      PersistentIndexCore.openBuckets, if_pos List.isEmpty_nil, PersistentIndexCore.openLegacy, hrebuilt, ok_bind]
    rfl

/-! ## Counted payloads -/

section Counted

variable {payload : Bytes} {count : Nat}

/-- Counted keys, by their count word and their length. -/
theorem exists_countedKeys_iff (haddress : payload.length < 2 ^ 64) :
    (∃ keys, payload = countedKeys keys ∧ keys.length = count) ↔
      window 0 8 payload = u64Bytes (UInt64.ofNat count) ∧ payload.length = 8 + count * 8 := by
  let errors : WordErrors Unit := ⟨(), (), (), (), ()⟩
  constructor
  · rintro ⟨keys, rfl, rfl⟩
    refine ⟨ window_prefix (length_u64Bytes _), ?_⟩
    rw [length_countedKeys, Nat.mul_comm]
  · rintro ⟨hwindow, hlength⟩
    have hdecode : decodeKeys errors payload =
        .ok ((chunksExact 8 (payload.drop 8)).map u64OfBytes) := by
      simp only [decodeKeys, bind_eq_ok_iff, readCount_eq_ok_iff, okOr_eq_ok_iff,
        checkedMul_eq_some_iff, checkedAdd_eq_some_iff, rejectIf_eq_ok_iff, not_not, exists_const,
        mapM_readU64_chunksExact, ne_eq]
      exact ⟨count, ⟨by omega, by omega, hwindow⟩, _, ⟨by omega, rfl⟩, _, ⟨by omega, rfl⟩, hlength,
        trivial⟩
    refine ⟨_, (decodeKeys_eq_ok_iff haddress).mp hdecode, ?_⟩
    rw [List.length_map, length_chunksExact, List.length_drop, hlength]
    omega

/-- Counted rows, by their count word and their length. -/
theorem exists_countedRows_iff {bands : Nat} (haddress : payload.length < 2 ^ 64)
    (hbands : 0 < bands) (hword : bands < 2 ^ 32) :
    (∃ rows, payload = countedRows rows ∧ rows.length = count ∧
        ∀ row ∈ rows, row.length = bands) ↔
      window 0 8 payload = u64Bytes (UInt64.ofNat count) ∧
        payload.length = 8 + count * (bands * 8) := by
  let errors : WordErrors Unit := ⟨(), (), (), (), ()⟩
  constructor
  · rintro ⟨rows, rfl, rfl, hwidth⟩
    refine ⟨ window_prefix (length_u64Bytes _), ?_⟩
    rw [length_countedRows hwidth]
    ring
  · rintro ⟨hwindow, hlength⟩
    have hcount : count ≤ count * (bands * 8) := Nat.le_mul_of_pos_right _ (by omega)
    have hrows : ∀ row : Bytes, ((chunksExact 8 row).mapM (readU64 errors)) =
        .ok ((chunksExact 8 row).map u64OfBytes) := fun row => mapM_readU64_chunksExact row
    have hdecode : decodeBandHashes errors payload bands =
        .ok ((chunksExact (bands * 8) (payload.drop 8)).map fun row =>
          (chunksExact 8 row).map u64OfBytes) := by
      simp only [decodeBandHashes, bind_eq_ok_iff, readCount_eq_ok_iff, okOr_eq_ok_iff,
        checkedMul_eq_some_iff, checkedAdd_eq_some_iff, rejectIf_eq_ok_iff, not_not, exists_const,
        hrows, ne_eq]
      exact ⟨count, ⟨by omega, by omega, hwindow⟩, _, ⟨by omega, rfl⟩, _, ⟨by omega, rfl⟩, _,
        ⟨by omega, rfl⟩, hlength, mapM_eq_ok_map fun _ _ => rfl⟩
    obtain ⟨hwidth, hpayload⟩ := (decodeBandHashes_eq_ok_iff haddress hbands hword).mp hdecode
    refine ⟨_, hpayload, ?_, hwidth⟩
    rw [List.length_map, length_chunksExact, List.length_drop, hlength, Nat.add_sub_cancel_left,
      Nat.mul_div_cancel _ (by omega)]

end Counted

/-! ## Reading in memory -/

/-- Finding, reading and decoding the metadata sections gives the items they hold. -/
theorem exists_items_iff {crc : Checksum} {layout : FileLayout} {file : Bytes}
    {errors : WordErrors ε} {missing duplicate : SectionKind → ε} {optional : ε}
    (hread : FileLayout.readFrom crc file = .ok layout) {keys : List UInt64}
    {rows : List (List UInt64)} {keysPayload hashesPayload : Bytes} :
    ((∃ descriptor, requiredUniqueSection (missing .keys) (duplicate .keys) optional layout .keys =
          .ok descriptor ∧ layout.readSection crc file descriptor = .ok keysPayload) ∧
        (∃ descriptor, requiredUniqueSection (missing .bandHashes) (duplicate .bandHashes) optional
          layout .bandHashes = .ok descriptor ∧
          layout.readSection crc file descriptor = .ok hashesPayload) ∧
        decodeKeys errors keysPayload = .ok keys ∧
        decodeBandHashes errors hashesPayload layout.metadata.bands.toNat = .ok rows ∧
        keys.length = rows.length) ↔
      ∃ items, HoldsItems crc layout file layout.metadata.bands.toNat items ∧
        keys = items.map Prod.fst ∧ rows = items.map Prod.snd ∧
        keysPayload = countedKeys keys ∧ hashesPayload = countedRows rows := by
  have hdescribes := (readFrom_spec hread).1
  have hbands := layout.metadata.bounds.1
  have hword := layout.metadata.bands.toNat_lt
  rw [exists_requiredSection_iff hdescribes, exists_requiredSection_iff hdescribes]
  constructor
  · rintro ⟨hkeysView, hhashesView, hkeys, hrows, hcount⟩
    rw [decodeKeys_eq_ok_iff (length_payload_lt hdescribes hkeysView)] at hkeys
    rw [decodeBandHashes_eq_ok_iff (length_payload_lt hdescribes hhashesView) hbands hword] at hrows
    have hfst : (keys.zip rows).map Prod.fst = keys := List.map_fst_zip (le_of_eq hcount)
    have hsnd : (keys.zip rows).map Prod.snd = rows := List.map_snd_zip (le_of_eq hcount.symm)
    refine ⟨keys.zip rows, ⟨?_, ?_, ?_⟩, hfst.symm, hsnd.symm, hkeys, hrows.2⟩
    · rw [hfst, ← hkeys]
      exact hkeysView
    · rw [hsnd, ← hrows.2]
      exact hhashesView
    · intro item hitem
      exact hrows.1 item.2 (hsnd ▸ List.mem_map_of_mem hitem)
  · rintro ⟨items, hitems, rfl, rfl, rfl, rfl⟩
    refine ⟨hitems.keys, hitems.hashes, ?_, ?_, by simp⟩
    · exact (decodeKeys_eq_ok_iff (length_payload_lt hdescribes hitems.keys)).mpr rfl
    · exact (decodeBandHashes_eq_ok_iff (length_payload_lt hdescribes hitems.hashes) hbands
        hword).mpr ⟨hitems.width_snd, rfl⟩

end Pari.Store
