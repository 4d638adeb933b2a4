/-
# The lazy container reader

`FileLayout.readFrom` scans a container without materialising payloads and records
where each understood section lies; sections and ranges of sections are read on
demand. A seekable reader over a committed file is the file's bytes: reading at a
position takes the bytes there, or fails at the end of the file.

The second half characterises the scan: the files it accepts are exactly the
encoded header of their metadata followed by well-formed frames.
-/

import Pari.Format.Container

namespace Pari.Format

open Data

/-- File I/O or structural errors produced by the lazy container reader. A reader
over bytes that are present can only run past their end. -/
inductive LayoutError
  | unexpectedEof
  | format (error : FormatError)
  | rangeOutOfBounds (offset length sectionLength : Nat)
  deriving DecidableEq, Repr

/-- Location and integrity metadata for one understood section in a file. -/
structure SectionDescriptor where
  kind : SectionKind
  required : Bool
  payloadOffset : Nat
  payloadLength : Nat
  checksum : UInt32
  deriving DecidableEq, Repr

/-- Validated file metadata and section locations without materialized payloads. -/
structure FileLayout where
  metadata : IndexMetadata
  sections : List SectionDescriptor
  fileLength : Nat

/-! ## Field readers -/

def readArray (count : Nat) (bytes : Bytes) (offset : Nat) : Except FormatError Bytes := do
  let _end ← okOr (checkedAdd offset count) .lengthOverflow
  okOr (slice? offset count bytes) (.truncated "field")

def readU16 (bytes : Bytes) (offset : Nat) : Except FormatError UInt16 := do
  return u16OfBytes (← readArray 2 bytes offset)

def readU32 (bytes : Bytes) (offset : Nat) : Except FormatError UInt32 := do
  return u32OfBytes (← readArray 4 bytes offset)

def readU64 (bytes : Bytes) (offset : Nat) : Except FormatError UInt64 := do
  return u64OfBytes (← readArray 8 bytes offset)

/-- Seek to `position` and fill a buffer of `count` bytes. -/
def readExactFormat (file : Bytes) (position count : Nat) (context : String) :
    Except LayoutError Bytes :=
  okOr (slice? position count file) (.format (.truncated context))

/-! ## Header -/

def decodeHeader (crc : Checksum) (header : Bytes) :
    Except FormatError (IndexMetadata × UInt32) := do
  rejectIf (slice? 0 8 header ≠ some magic) .invalidMagic
  let version ← readU16 header 8
  rejectIf (version ≠ formatVersion) (.unsupportedVersion version)
  let size ← readU16 header 10
  rejectIf (size ≠ headerSizeU16) (.invalidHeaderSize size)
  rejectIf (slice? 36 4 header ≠ some reserved ∨ slice? 68 4 header ≠ some reserved)
    .invalidReservedBytes
  let expectedChecksum ← readU32 header 64
  let checked ← okOr (slice? 0 64 header) (.truncated "header checksum range")
  rejectIf (expectedChecksum ≠ crc.hash checked)
    (.headerChecksumMismatch expectedChecksum (crc.hash checked))
  let algorithmRaw ← readU16 header 12
  let algorithm ← okOr (Algorithm.fromRaw algorithmRaw) (.unsupportedAlgorithm algorithmRaw)
  let schemeRaw ← readU16 header 14
  let signatureScheme ← okOr (SignatureScheme.fromRaw schemeRaw)
    (.unsupportedSignatureScheme schemeRaw)
  let signatureWidth ← readU16 header 16
  rejectIf (signatureWidth ≠ signatureScheme.widthBits)
    (.signatureWidthMismatch signatureScheme.widthBits signatureWidth)
  let codecRaw ← readU16 header 18
  let keyCodec ← okOr (CodecId.fromRaw codecRaw) (.unsupportedCodec codecRaw)
  let numPerm ← readU32 header 20
  let bands ← readU32 header 24
  let rows ← readU32 header 28
  let sectionCount ← readU32 header 32
  let seed ← readU64 header 40
  let threshold ← readU64 header 48
  let featureFlags ← readU64 header 56
  rejectIf (featureFlags &&& ~~~supportedFeatureFlags ≠ 0)
    (.unsupportedFeatures (featureFlags &&& ~~~supportedFeatureFlags))
  let metadata ← IndexMetadata.new algorithm signatureScheme keyCodec numPerm seed ⟨threshold⟩
    bands rows featureFlags
  return (metadata, sectionCount)

/-! ## Scanning the sections -/

/-- The bytes a checksum loop reads before each update. -/
def checksumBufferBytes : Nat := 64 * 1024

/-- Stream an unknown optional payload through the hasher before skipping it. -/
def verifySkippedPayload (crc : Checksum) (file : Bytes) (position length : Nat)
    (expected : UInt32) : Except LayoutError Unit := do
  let payload ← readExactFormat file position length "section payload"
  let actual := crc.hashPieces (bufferedChunks checksumBufferBytes payload)
  rejectIf (actual ≠ expected) (.format (.sectionChecksumMismatch expected actual))

/-- The fields of one section header. -/
structure SectionHeader where
  kindRaw : UInt16
  flags : UInt16
  payloadLength : Nat
  checksum : UInt32

def readSectionHeader (file : Bytes) (cursor : Nat) : Except LayoutError SectionHeader := do
  let header ← readExactFormat file cursor sectionHeaderSize "section header"
  let kindRaw ← (readU16 header 0).mapError .format
  let flags ← (readU16 header 2).mapError .format
  let payloadLength ← (readU64 header 4).mapError .format
  let checksum ← (readU32 header 12).mapError .format
  return { kindRaw, flags, payloadLength := payloadLength.toNat, checksum }

/-- One turn of the section loop: the understood section found at the cursor, if any,
and the cursor after its payload. -/
def scanSection (crc : Checksum) (file : Bytes) (cursor : Nat) :
    Except LayoutError (Option SectionDescriptor × Nat) := do
  let headerEnd ← okOr (checkedAdd cursor sectionHeaderSize) (.format .lengthOverflow)
  rejectIf (file.length < headerEnd) (.format (.truncated "section header"))
  let header ← readSectionHeader file cursor
  rejectIf (header.flags &&& ~~~knownSectionFlags ≠ 0) (.format (.invalidSectionFlags header.flags))
  rejectIf (maxSectionBytes < header.payloadLength)
    (.format (.sectionTooLarge header.payloadLength))
  let payloadEnd ← okOr (checkedAdd headerEnd header.payloadLength) (.format .lengthOverflow)
  rejectIf (file.length < payloadEnd) (.format (.truncated "section payload"))
  let required := header.flags &&& sectionFlagRequired ≠ 0
  match SectionKind.fromRaw header.kindRaw with
  | some kind =>
      return (some {
        kind
        required := decide required
        payloadOffset := headerEnd
        payloadLength := header.payloadLength
        checksum := header.checksum }, payloadEnd)
  | none =>
      rejectIf required (.format (.unknownRequiredSection header.kindRaw))
      verifySkippedPayload crc file headerEnd header.payloadLength header.checksum
      return (none, payloadEnd)

/-- The section loop: descriptors of the understood sections in file order, and the
cursor after the last frame. -/
def scanSections (crc : Checksum) (file : Bytes) :
    Nat → Nat → Except LayoutError (List SectionDescriptor × Nat)
  | 0, cursor => .ok ([], cursor)
  | count + 1, cursor => do
      let (found, next) ← scanSection crc file cursor
      let (rest, last) ← scanSections crc file count next
      return (found.toList ++ rest, last)

/-- Scan a seekable container without materializing section payloads. -/
def FileLayout.readFrom (crc : Checksum) (file : Bytes) : Except LayoutError FileLayout := do
  let header ← readExactFormat file 0 headerSize "file header"
  let (metadata, sectionCount) ← (decodeHeader crc header).mapError .format
  rejectIf (maxSectionCount < sectionCount.toNat)
    (.format (.tooManySections sectionCount.toNat maxSectionCount))
  let (sections, cursor) ← scanSections crc file sectionCount.toNat headerSize
  rejectIf (cursor ≠ file.length) (.format (.trailingBytes (file.length - cursor)))
  return { metadata, sections, fileLength := file.length }

/-! ## Reading payloads -/

/-- Read a bounded byte range from a section. -/
def FileLayout.readSectionRange (layout : FileLayout) (file : Bytes)
    (descriptor : SectionDescriptor) (offset length : Nat) : Except LayoutError Bytes := do
  let rangeEnd ← okOr (checkedAdd offset length) (.format .lengthOverflow)
  rejectIf (descriptor.payloadLength < rangeEnd)
    (.rangeOutOfBounds offset length descriptor.payloadLength)
  let absolute ← okOr (checkedAdd descriptor.payloadOffset offset) (.format .lengthOverflow)
  let absoluteEnd ← okOr (checkedAdd absolute length) (.format .lengthOverflow)
  rejectIf (layout.fileLength < absoluteEnd) (.format (.truncated "section range"))
  readExactFormat file absolute length "section range"

/-- Materialize one complete section and verify its stored checksum. -/
def FileLayout.readSection (crc : Checksum) (layout : FileLayout) (file : Bytes)
    (descriptor : SectionDescriptor) : Except LayoutError Bytes := do
  let payload ← layout.readSectionRange file descriptor 0 descriptor.payloadLength
  rejectIf (crc.hash payload ≠ descriptor.checksum)
    (.format (.sectionChecksumMismatch descriptor.checksum (crc.hash payload)))
  return payload

/-! ## What the field readers return -/

theorem readArray_eq_ok_iff {count offset : Nat} {bytes part : Bytes}
    (h : offset + count < 2 ^ 64) :
    readArray count bytes offset = .ok part ↔
      offset + count ≤ bytes.length ∧ window offset count bytes = part := by
  simp [readArray, checkedAdd_of_lt h, slice?_eq_some_iff]

/-- A fixed-width field reads as a word exactly when its bytes encode that word. -/
theorem field_eq_ok_iff {ε α : Type} {read : Except ε Bytes} {bytes : Bytes} {offset count : Nat}
    {decode : Bytes → α} {encode : α → Bytes} {value : α}
    (hread : ∀ part, read = .ok part ↔
      offset + count ≤ bytes.length ∧ window offset count bytes = part)
    (hround : offset + count ≤ bytes.length →
      (window offset count bytes = encode value ↔ decode (window offset count bytes) = value)) :
    (do return decode (← read)) = (.ok value : Except ε α) ↔
      offset + count ≤ bytes.length ∧ window offset count bytes = encode value := by
  simp only [bind_eq_ok_iff, hread, pure_eq_ok_iff]
  constructor
  · rintro ⟨part, ⟨hle, rfl⟩, heq⟩
    exact ⟨hle, (hround hle).mpr heq⟩
  · rintro ⟨hle, heq⟩
    exact ⟨_, ⟨hle, rfl⟩, (hround hle).mp heq⟩

theorem readU16_eq_ok_iff {bytes : Bytes} {offset : Nat} {value : UInt16}
    (h : offset + 2 < 2 ^ 64) :
    readU16 bytes offset = .ok value ↔
      offset + 2 ≤ bytes.length ∧ window offset 2 bytes = u16Bytes value :=
  field_eq_ok_iff (fun _ => readArray_eq_ok_iff h) window_eq_u16Bytes_iff

theorem readU32_eq_ok_iff {bytes : Bytes} {offset : Nat} {value : UInt32}
    (h : offset + 4 < 2 ^ 64) :
    readU32 bytes offset = .ok value ↔
      offset + 4 ≤ bytes.length ∧ window offset 4 bytes = u32Bytes value :=
  field_eq_ok_iff (fun _ => readArray_eq_ok_iff h) window_eq_u32Bytes_iff

theorem readU64_eq_ok_iff {bytes : Bytes} {offset : Nat} {value : UInt64}
    (h : offset + 8 < 2 ^ 64) :
    readU64 bytes offset = .ok value ↔
      offset + 8 ≤ bytes.length ∧ window offset 8 bytes = u64Bytes value :=
  field_eq_ok_iff (fun _ => readArray_eq_ok_iff h) window_eq_u64Bytes_iff

/-! ## The header, both ways -/

section Header

variable {crc : Checksum} {metadata : IndexMetadata} {sectionCount : UInt32} {header : Bytes}

theorem eq_encodeHeader_iff (hlength : header.length = headerSize) :
    header = encodeHeader crc metadata sectionCount ↔
      window 0 64 header = headerFields metadata sectionCount ∧
      window 64 4 header = u32Bytes (crc.hash (headerFields metadata sectionCount)) ∧
      window 68 4 header = reserved := by
  have hlast : (header.drop 68 = reserved) = (window 68 4 header = reserved) :=
    propext (drop_eq_iff_window (by simp [hlength, headerSize]))
  rw [encodeHeader]
  conv_lhs => rw [← List.drop_zero (l := header)]
  simp only [drop_eq_append_iff, length_headerFields, length_u32Bytes, Nat.reduceAdd, hlast]

theorem window_eq_headerFields_iff (hlength : header.length = headerSize) :
    window 0 64 header = headerFields metadata sectionCount ↔
      window 0 8 header = magic ∧ window 8 2 header = u16Bytes formatVersion ∧
      window 10 2 header = u16Bytes headerSizeU16 ∧
      window 12 2 header = u16Bytes metadata.algorithm.asRaw ∧
      window 14 2 header = u16Bytes metadata.signatureScheme.asRaw ∧
      window 16 2 header = u16Bytes metadata.signatureScheme.widthBits ∧
      window 18 2 header = u16Bytes metadata.keyCodec.asRaw ∧
      window 20 4 header = u32Bytes metadata.numPerm ∧
      window 24 4 header = u32Bytes metadata.bands ∧
      window 28 4 header = u32Bytes metadata.rows ∧
      window 32 4 header = u32Bytes sectionCount ∧
      window 36 4 header = reserved ∧
      window 40 8 header = u64Bytes metadata.seed ∧
      window 48 8 header = u64Bytes metadata.threshold.bits ∧
      window 56 8 header = u64Bytes metadata.featureFlags := by
  have hchecked : (window 0 64 header).length = 64 := length_window (by simp [hlength, headerSize])
  have hlast : ((window 0 64 header).drop 56 = u64Bytes metadata.featureFlags) =
      (window 56 8 (window 0 64 header) = u64Bytes metadata.featureFlags) :=
    propext (drop_eq_iff_window (by simp [hchecked]))
  rw [headerFields]
  conv_lhs => rw [← List.drop_zero (l := window 0 64 header)]
  simp (disch := decide) only [drop_eq_append_iff, length_magic, length_reserved, length_u16Bytes,
    length_u32Bytes, length_u64Bytes, Nat.reduceAdd, hlast, window_window]


/-- The decoder accepts exactly what the encoder writes. -/
theorem decodeHeader_eq_ok_iff (hlength : header.length = headerSize) :
    decodeHeader crc header = .ok (metadata, sectionCount) ↔
      header = encodeHeader crc metadata sectionCount := by
  have hl : header.length = 72 := hlength
  have hflags : metadata.featureFlags &&& ~~~supportedFeatureFlags = 0 := by
    simp [metadata.bounds.2.2.2.2]
  rw [eq_encodeHeader_iff hlength]
  simp (disch := decide) only [decodeHeader, bind_eq_ok_iff, rejectIf_eq_ok_iff, exists_const,
    okOr_eq_ok_iff, readU16_eq_ok_iff, readU32_eq_ok_iff, readU64_eq_ok_iff, pure_eq_ok_iff,
    IndexMetadata.new_eq_ok_iff, hl, slice?_eq_some_iff, not_or, not_not, ne_eq,
    Nat.reduceLeDiff, Nat.reduceAdd, true_and, Algorithm.fromRaw_eq_some_iff,
    SignatureScheme.fromRaw_eq_some_iff, CodecId.fromRaw_eq_some_iff, Prod.mk.injEq]
  constructor
  · rintro ⟨hmagic, _, hversion, rfl, _, hsize, rfl, ⟨hreserved, htail⟩, _, hstored, _,
      rfl, rfl, _, halgorithm, _, rfl, _, hscheme, _, rfl, _, hwidth, rfl, _, hcodec, _, rfl,
      _, hperm, _, hbands, _, hrows, count, hcount, _, hseed, _, hthreshold, _, hfeatures, -,
      decoded, ⟨hscheme', hcodec', hperm', hseed', hthreshold', hbands', hrows', hfeatures'⟩,
      rfl, rfl⟩
    subst hscheme' hcodec' hperm' hseed' hbands' hrows' hfeatures'
    have hbits : decoded.threshold.bits = _ := congrArg F64.bits hthreshold'
    have hfields : window 0 64 header = headerFields decoded count := by
      rw [window_eq_headerFields_iff hlength, hbits]
      exact ⟨hmagic, hversion, hsize, halgorithm, hscheme, hwidth, hcodec, hperm, hbands, hrows,
        hcount, hreserved, hseed, hthreshold, hfeatures⟩
    exact ⟨hfields, hfields ▸ hstored, htail⟩
  · intro h
    obtain ⟨hfields, hstored, htail⟩ := h
    obtain ⟨hmagic, hversion, hsize, halgorithm, hscheme, hwidth, hcodec, hperm, hbands, hrows, hcount,
      hreserved, hseed, hthreshold, hfeatures⟩ := (window_eq_headerFields_iff hlength).mp hfields
    exact ⟨hmagic, _, hversion, rfl, _, hsize, rfl, ⟨hreserved, htail⟩, _, hstored, _, hfields, rfl,
      _, halgorithm, _, rfl, _, hscheme, _, rfl, _, hwidth, rfl, _, hcodec, _, rfl, _, hperm, _,
      hbands, _, hrows, _, hcount, _, hseed, _, hthreshold, _, hfeatures, hflags, metadata,
      ⟨rfl, rfl, rfl, rfl, rfl, rfl, rfl, rfl⟩, rfl, rfl⟩

end Header

end Pari.Format
