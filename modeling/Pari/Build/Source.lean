/-
# The source of the bounded builder

The builder checks its source without materializing a section: it streams both payloads through a
hasher, reads the two record counts in place, and compares the section lengths with them. What it
accepts is what the in-memory builder accepts.
-/

import Pari.Build.Publish
import Pari.Format.BucketStream
import Pari.Store.Source

namespace Pari.Build

open Data Pari.Format Pari.Store

/-- Configuration for the bounded external builder. -/
structure BuildOptions where
  maxBufferRecords : Nat
  deriving DecidableEq, Repr

/-- `Read::read_exact` past the end of a file. -/
def unexpectedEof : BuildError := .io (.custom (.numbered 37) "failed to fill whole buffer")

/-- Seek to `position` and fill a buffer of `count` bytes. -/
def readExactAt (file : Bytes) (position count : Nat) : Except BuildError Bytes :=
  okOr (slice? position count file) unexpectedEof

/-- The buffered loop of `verify_section_streaming` and `copy_file_range`: the chunks it reads. -/
def readChunks (file : Bytes) (position remaining : Nat) : Except BuildError (List Bytes) :=
  if remaining = 0 then .ok []
  else do
    let count := min remaining copyBufferBytes
    let chunk ← readExactAt file position count
    let chunks ← readChunks file (position + count) (remaining - count)
    return chunk :: chunks
termination_by remaining
decreasing_by
  have hbuffer : 0 < copyBufferBytes := by decide
  omega

def validateSourceMetadata (metadata : IndexMetadata) : Except BuildError Unit := do
  rejectIf (metadata.algorithm ≠ .minHashLsh) (.invalidSource "algorithm is not MinHash LSH")
  match metadata.signatureScheme with
  | .pariAffine32V1 | .pariAffine64V1 => pure ()
  rejectIf (metadata.keyCodec ≠ .u64)
    (.invalidSource "bounded builder currently requires u64 keys")
  rejectIf (metadata.featureFlags ≠ 0)
    (.invalidSource "bounded builder does not support feature flags")

/-- The reasons the builder gives for a section it does not find. -/
def missingSourceReason : SectionKind → String
  | .keys => "missing keys section"
  | .bandHashes => "missing band-hash section"
  | .buckets | .tombstones => ""

/-- `required_unique_section`. -/
def sourceSection (layout : FileLayout) (kind : SectionKind) :
    Except BuildError SectionDescriptor :=
  requiredUniqueSection (.invalidSource (missingSourceReason kind))
    (.invalidSource "duplicate source metadata section")
    (.invalidSource "source metadata section is marked optional") layout kind

def verifySectionStreaming (crc : Checksum) (file : Bytes) (descriptor : SectionDescriptor) :
    Except BuildError Unit := do
  let chunks ← readChunks file descriptor.payloadOffset descriptor.payloadLength
  let actual := crc.hashPieces chunks
  rejectIf (actual ≠ descriptor.checksum)
    (.format (.sectionChecksumMismatch descriptor.checksum actual))

def readRecordCount (file : Bytes) (descriptor : SectionDescriptor) : Except BuildError Nat := do
  let raw ← readExactAt file descriptor.payloadOffset 8
  return (u64OfBytes raw).toNat

def validateSourceLengths (keys hashes : SectionDescriptor) (itemCount bands : Nat) :
    Except BuildError Unit := do
  let keysWords ← okOr (checkedMul itemCount 8) .lengthOverflow
  let keysExpected ← okOr (checkedAdd 8 keysWords) .lengthOverflow
  let rowBytes ← okOr (checkedMul bands 8) .lengthOverflow
  let hashesWords ← okOr (checkedMul itemCount rowBytes) .lengthOverflow
  let hashesExpected ← okOr (checkedAdd 8 hashesWords) .lengthOverflow
  rejectIf (keys.payloadLength ≠ keysExpected)
    (.invalidSource "keys section length disagrees with its record count")
  rejectIf (hashes.payloadLength ≠ hashesExpected)
    (.invalidSource "band-hash section length disagrees with its record count")

/-- What the builder keeps of a source it has checked. -/
structure Source where
  layout : FileLayout
  keys : SectionDescriptor
  bandHashes : SectionDescriptor
  itemCount : Nat
  bands : Nat

/-- The checks `build_external` makes of its open source. -/
def readSource (crc : Checksum) (file : Bytes) : Except BuildError Source := do
  let layout ← (FileLayout.readFrom crc file).mapError .layout
  validateSourceMetadata layout.metadata
  let keys ← sourceSection layout .keys
  let bandHashes ← sourceSection layout .bandHashes
  verifySectionStreaming crc file keys
  verifySectionStreaming crc file bandHashes
  let itemCount ← readRecordCount file keys
  let hashCount ← readRecordCount file bandHashes
  rejectIf (itemCount ≠ hashCount) (.invalidSource "key and band-hash record counts differ")
  let bands := layout.metadata.bands.toNat
  validateSourceLengths keys bandHashes itemCount bands
  return { layout, keys, bandHashes, itemCount, bands }

/-! ## Reading in place -/

section Reading

variable {crc : Checksum} {file : Bytes} {layout : FileLayout} {descriptor : SectionDescriptor}

theorem readExactAt_eq_ok_iff {position count : Nat} {part : Bytes} :
    readExactAt file position count = .ok part ↔
      position + count ≤ file.length ∧ window position count file = part := by
  rw [readExactAt, okOr_eq_ok_iff, slice?_eq_some_iff]

/-- Reading chunk by chunk delivers the range, whatever the chunks are. -/
theorem readChunks_of_le {position remaining : Nat} (h : position + remaining ≤ file.length) :
    ∃ chunks : List Bytes, readChunks file position remaining = .ok chunks ∧
      chunks.flatten = window position remaining file := by
  have hbuffer : 0 < copyBufferBytes := by decide
  induction remaining using Nat.strongRecOn generalizing position with
  | ind remaining ih =>
      rw [readChunks]
      split
      · next hzero =>
          subst hzero
          exact ⟨[], rfl, by simp [window]⟩
      · next hpos =>
          obtain ⟨chunks, hchunks, hflatten⟩ := @ih (remaining - min remaining copyBufferBytes)
            (by omega) (position + min remaining copyBufferBytes) (by omega)
          have hchunk : readExactAt file position (min remaining copyBufferBytes) =
              .ok (window position (min remaining copyBufferBytes) file) :=
            readExactAt_eq_ok_iff.mpr ⟨by omega, rfl⟩
          refine ⟨window position (min remaining copyBufferBytes) file :: chunks, ?_, ?_⟩
          · dsimp only
            rw [hchunk, ok_bind, hchunks, ok_bind]
            rfl
          · rw [List.flatten_cons, hflatten, ← window_add,
              Nat.add_sub_cancel' (Nat.min_le_left _ _)]

/-- A range of a payload is a range of the file. -/
theorem window_payloadIn {offset count : Nat} (h : offset + count ≤ descriptor.payloadLength) :
    window offset count (descriptor.payloadIn file) =
      window (descriptor.payloadOffset + offset) count file :=
  window_window h

theorem countWord_payloadIn (h : 8 ≤ descriptor.payloadLength) :
    window descriptor.payloadOffset 8 file = window 0 8 (descriptor.payloadIn file) := by
  rw [window_payloadIn (by omega), Nat.add_zero]

theorem verifySectionStreaming_eq_ok_iff (hcrc : crc.Incremental) (h : layout.Describes file)
    (hmem : descriptor ∈ layout.sections) {result : Unit} :
    verifySectionStreaming crc file descriptor = .ok result ↔
      crc.hash (descriptor.payloadIn file) = descriptor.checksum := by
  obtain ⟨chunks, hchunks, hflatten⟩ := readChunks_of_le (h.within descriptor hmem)
  have hhash : crc.hashPieces chunks = crc.hash (descriptor.payloadIn file) :=
    hcrc.hashPieces_eq hflatten
  rw [verifySectionStreaming, hchunks, ok_bind, rejectIf_eq_ok_iff, not_not, hhash]

theorem readRecordCount_eq_ok_iff {count : Nat} :
    readRecordCount file descriptor = .ok count ↔
      descriptor.payloadOffset + 8 ≤ file.length ∧ count < 2 ^ 64 ∧
        window descriptor.payloadOffset 8 file = u64Bytes (UInt64.ofNat count) := by
  simp only [readRecordCount, bind_eq_ok_iff, readExactAt_eq_ok_iff, pure_eq_ok_iff]
  constructor
  · rintro ⟨_, ⟨hlength, rfl⟩, rfl⟩
    refine ⟨hlength, UInt64.toNat_lt _, ?_⟩
    rw [UInt64.ofNat_toNat, u64Bytes_u64OfBytes (length_window hlength)]
  · rintro ⟨hlength, hlt, hwindow⟩
    refine ⟨_, ⟨hlength, hwindow⟩, ?_⟩
    rw [u64OfBytes_u64Bytes, toNat_ofNat64 hlt]

theorem validateSourceMetadata_eq_ok_iff {metadata : IndexMetadata} {result : Unit} :
    validateSourceMetadata metadata = .ok result ↔
      metadata.keyCodec = .u64 ∧ metadata.featureFlags = 0 := by
  have halgorithm : metadata.algorithm = .minHashLsh := eq_minHashLsh _
  cases hscheme : metadata.signatureScheme
  all_goals simp [validateSourceMetadata, bind_eq_ok_iff, rejectIf_eq_ok_iff, halgorithm, hscheme]

theorem validateSourceLengths_eq_ok_iff {keys hashes : SectionDescriptor} {itemCount bands : Nat}
    {result : Unit} :
    validateSourceLengths keys hashes itemCount bands = .ok result ↔
      (8 + itemCount * 8 < 2 ^ 64 ∧ bands * 8 < 2 ^ 64 ∧
        8 + itemCount * (bands * 8) < 2 ^ 64) ∧
      keys.payloadLength = 8 + itemCount * 8 ∧
        hashes.payloadLength = 8 + itemCount * (bands * 8) := by
  simp only [validateSourceLengths, bind_eq_ok_iff, okOr_eq_ok_iff, checkedMul_eq_some_iff,
    checkedAdd_eq_some_iff, rejectIf_eq_ok_iff, exists_const, not_not, ne_eq]
  constructor
  · rintro ⟨_, ⟨_, rfl⟩, _, ⟨hkeys, rfl⟩, _, ⟨hrow, rfl⟩, _, ⟨_, rfl⟩, _, ⟨hhashes, rfl⟩, hlengths⟩
    exact ⟨⟨hkeys, hrow, hhashes⟩, hlengths⟩
  · rintro ⟨⟨hkeys, hrow, hhashes⟩, hlengths⟩
    exact ⟨_, ⟨by omega, rfl⟩, _, ⟨hkeys, rfl⟩, _, ⟨hrow, rfl⟩, _, ⟨by omega, rfl⟩, _,
      ⟨hhashes, rfl⟩, hlengths⟩

end Reading

/-! ## What is accepted -/

/-- A source as the builder sees it: the items it holds, and where their two sections lie. -/
structure Source.Reads (crc : Checksum) (source : Source) (file : Bytes)
    (items : List (UInt64 × List UInt64)) : Prop where
  holds : SourceHolds crc source.layout file items
  keys : source.layout.sections.filter (·.kind = .keys) = [source.keys]
  bandHashes : source.layout.sections.filter (·.kind = .bandHashes) = [source.bandHashes]
  itemCount : source.itemCount = items.length
  bands : source.bands = source.layout.metadata.bands.toNat

section Accepting

variable {crc : Checksum} {file : Bytes} {layout : FileLayout} {source : Source}
  {items : List (UInt64 × List UInt64)}

theorem mem_of_filter_kind {kind : SectionKind} {descriptor : SectionDescriptor}
    (h : layout.sections.filter (·.kind = kind) = [descriptor]) :
    descriptor ∈ layout.sections ∧ descriptor.kind = kind := by
  have hmem : descriptor ∈ layout.sections.filter (·.kind = kind) := by
    rw [h]
    exact List.mem_singleton_self _
  rw [List.mem_filter, decide_eq_true_eq] at hmem
  exact hmem

/-- A container that holds items is a source of the builder. -/
theorem exists_reads (h : SourceHolds crc layout file items) :
    ∃ source : Source, source.Reads crc file items ∧ source.layout = layout := by
  obtain ⟨keys, hkeys, _⟩ := List.map_eq_singleton_iff.mp h.items.keys
  obtain ⟨bandHashes, hbandHashes, _⟩ := List.map_eq_singleton_iff.mp h.items.hashes
  exact ⟨⟨layout, keys, bandHashes, items.length, layout.metadata.bands.toNat⟩,
    ⟨h, hkeys, hbandHashes, rfl, rfl⟩, rfl⟩

theorem Source.Reads.view_keys (h : source.Reads crc file items) :
    source.keys.view file = metadataKnown crc .keys (countedKeys (items.map Prod.fst)) := by
  have hview := h.holds.items.keys
  rwa [h.keys, List.map_singleton, List.singleton_inj] at hview

theorem Source.Reads.view_bandHashes (h : source.Reads crc file items) :
    source.bandHashes.view file =
      metadataKnown crc .bandHashes (countedRows (items.map Prod.snd)) := by
  have hview := h.holds.items.hashes
  rwa [h.bandHashes, List.map_singleton, List.singleton_inj] at hview

/-- The rows of a source are as wide as it has bands. -/
theorem Source.Reads.width (h : source.Reads crc file items) :
    ∀ item ∈ items, item.2.length = source.bands := by
  rw [h.bands]
  exact h.holds.items.width

theorem Source.Reads.length_keys (h : source.Reads crc file items) :
    source.keys.payloadLength = 8 + items.length * 8 := by
  have hpayload := congrArg (fun known => known.payload.length) h.view_keys
  have hlength := length_payloadIn h.holds.describes (mem_of_filter_kind h.keys).1
  rw [← hlength, Nat.mul_comm, ← List.length_map (f := Prod.fst), ← length_countedKeys]
  exact hpayload

theorem Source.Reads.length_bandHashes (h : source.Reads crc file items) :
    source.bandHashes.payloadLength = 8 + items.length * (source.bands * 8) := by
  have hpayload : (source.bandHashes.payloadIn file).length =
      (countedRows (items.map Prod.snd)).length :=
    congrArg (fun known => known.payload.length) h.view_bandHashes
  have hlength := length_payloadIn h.holds.describes (mem_of_filter_kind h.bandHashes).1
  rw [← hlength, hpayload, length_countedRows h.holds.items.width_snd, List.length_map, h.bands]
  ring

/-- Both sections of a source keep the limit of the format, so there are few records. -/
theorem Source.Reads.length_le (h : source.Reads crc file items) :
    8 + items.length * 8 ≤ maxSectionBytes ∧
      8 + items.length * (source.bands * 8) ≤ maxSectionBytes := by
  have hbounded : ∀ descriptor ∈ source.layout.sections,
      descriptor.payloadLength ≤ maxSectionBytes := by
    intro descriptor hmem
    rw [← length_payloadIn h.holds.describes hmem]
    exact length_payload_le_of_readFrom h.holds.read (List.mem_map_of_mem hmem)
  rw [← h.length_keys, ← h.length_bandHashes]
  exact ⟨hbounded _ (mem_of_filter_kind h.keys).1, hbounded _ (mem_of_filter_kind h.bandHashes).1⟩

/-- A metadata section is found and its payload verified exactly if its view is that of a required
section with the right checksum. -/
theorem view_eq_metadataKnown_iff {kind : SectionKind} {descriptor : SectionDescriptor}
    {payload : Bytes} (hkind : descriptor.kind = kind) :
    descriptor.view file = metadataKnown crc kind payload ↔
      descriptor.required = true ∧ descriptor.checksum = crc.hash payload ∧
        descriptor.payloadIn file = payload := by
  rw [SectionDescriptor.view, metadataKnown, KnownSection.mk.injEq]
  simp [hkind]

/-- The builder accepts exactly the sources that hold items. -/
theorem readSource_eq_ok_iff (hcrc : crc.Incremental) :
    readSource crc file = .ok source ↔ ∃ items, source.Reads crc file items := by
  simp only [readSource, bind_eq_ok_iff, mapError_eq_ok_iff, validateSourceMetadata_eq_ok_iff,
    rejectIf_eq_ok_iff, exists_const, not_not, ne_eq, sourceSection, requiredUniqueSection_eq_ok_iff,
    validateSourceLengths_eq_ok_iff, pure_eq_ok_iff]
  constructor
  · rintro ⟨layout, hread, hmetadata, keys, ⟨hkeys, hkeysRequired⟩, hashes,
      ⟨hhashes, hhashesRequired⟩, _, hkeysVerified, _, hhashesVerified, itemCount, hitemCount,
      hashCount, hhashCount, rfl, ⟨hfits, hkeysLength, hhashesLength⟩, rfl⟩
    have hdescribes := (readFrom_spec hread).1
    obtain ⟨hkeysMem, hkeysKind⟩ := mem_of_filter_kind hkeys
    obtain ⟨hhashesMem, hhashesKind⟩ := mem_of_filter_kind hhashes
    rw [verifySectionStreaming_eq_ok_iff hcrc hdescribes hkeysMem] at hkeysVerified
    rw [verifySectionStreaming_eq_ok_iff hcrc hdescribes hhashesMem] at hhashesVerified
    obtain ⟨_, _, hkeysCount⟩ := readRecordCount_eq_ok_iff.mp hitemCount
    obtain ⟨_, _, hhashesCount⟩ := readRecordCount_eq_ok_iff.mp hhashCount
    have hkeysSize := length_payloadIn hdescribes hkeysMem
    have hhashesSize := length_payloadIn hdescribes hhashesMem
    rw [countWord_payloadIn (by omega)] at hkeysCount
    rw [countWord_payloadIn (by omega)] at hhashesCount
    obtain ⟨keyList, hkeyList, hkeyCount⟩ := (exists_countedKeys_iff (by omega)).mpr
      ⟨hkeysCount, hkeysSize.trans hkeysLength⟩
    obtain ⟨rowList, hrowList, hrowCount, hwidth⟩ := (exists_countedRows_iff (by omega)
      layout.metadata.bounds.1 layout.metadata.bands.toNat_lt).mpr
        ⟨hhashesCount, hhashesSize.trans hhashesLength⟩
    have hfst : (keyList.zip rowList).map Prod.fst = keyList := List.map_fst_zip (by omega)
    have hsnd : (keyList.zip rowList).map Prod.snd = rowList := List.map_snd_zip (by omega)
    refine ⟨keyList.zip rowList, ⟨hread, hmetadata.1, hmetadata.2, ⟨?_, ?_, ?_⟩⟩, hkeys, hhashes, ?_,
      rfl⟩
    · rw [hkeys, hfst, List.map_singleton, List.singleton_inj, view_eq_metadataKnown_iff hkeysKind,
        ← hkeyList]
      exact ⟨hkeysRequired, hkeysVerified.symm, rfl⟩
    · rw [hhashes, hsnd, List.map_singleton, List.singleton_inj,
        view_eq_metadataKnown_iff hhashesKind, ← hrowList]
      exact ⟨hhashesRequired, hhashesVerified.symm, rfl⟩
    · intro item hitem
      apply hwidth
      rw [← hsnd]
      exact List.mem_map_of_mem hitem
    · rw [List.length_zip, hkeyCount, hrowCount, Nat.min_self]
  · rintro ⟨items, h⟩
    have hdescribes := h.holds.describes
    obtain ⟨hkeysMem, hkeysKind⟩ := mem_of_filter_kind h.keys
    obtain ⟨hhashesMem, hhashesKind⟩ := mem_of_filter_kind h.bandHashes
    obtain ⟨hkeysRequired, hkeysChecksum, hkeysPayload⟩ :=
      (view_eq_metadataKnown_iff hkeysKind).mp h.view_keys
    obtain ⟨hhashesRequired, hhashesChecksum, hhashesPayload⟩ :=
      (view_eq_metadataKnown_iff hhashesKind).mp h.view_bandHashes
    have hkeysLength := h.length_keys
    have hhashesLength := h.length_bandHashes
    have hkeysWithin := hdescribes.within _ hkeysMem
    have hhashesWithin := hdescribes.within _ hhashesMem
    have haddressable := hdescribes.addressable
    have hbands := source.layout.metadata.bands.toNat_lt
    have hkeysCount : readRecordCount file source.keys = .ok items.length := by
      refine readRecordCount_eq_ok_iff.mpr ⟨by omega, by omega, ?_⟩
      rw [countWord_payloadIn (by omega), hkeysPayload, countedKeys, List.length_map]
      exact window_prefix (length_u64Bytes _)
    have hhashesCount : readRecordCount file source.bandHashes = .ok items.length := by
      refine readRecordCount_eq_ok_iff.mpr ⟨by omega, by omega, ?_⟩
      rw [countWord_payloadIn (by omega), hhashesPayload, countedRows, List.length_map]
      exact window_prefix (length_u64Bytes _)
    refine ⟨source.layout, h.holds.read, ⟨h.holds.keyCodec, h.holds.featureFlags⟩, source.keys,
      ⟨h.keys, hkeysRequired⟩, source.bandHashes, ⟨h.bandHashes, hhashesRequired⟩, (), ?_, (), ?_,
      _, hkeysCount, _, hhashesCount, rfl, ⟨⟨by omega, by omega, ?_⟩, hkeysLength, ?_⟩, ?_⟩
    · rw [verifySectionStreaming_eq_ok_iff hcrc hdescribes hkeysMem, hkeysPayload, hkeysChecksum]
    · rw [verifySectionStreaming_eq_ok_iff hcrc hdescribes hhashesMem, hhashesPayload,
        hhashesChecksum]
    · rw [← h.bands]
      omega
    · rw [← h.bands]
      exact hhashesLength
    · rw [← h.bands, ← h.itemCount]

end Accepting

end Pari.Build
