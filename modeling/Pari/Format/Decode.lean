/-
# The eager container reader

`IndexFile.decode` parses a complete container in memory. It has its own header decoder and
section loop, and verifies every checksum as it goes. The files it accepts are the
containers of verified frames, from which follow its agreement with the lazy reader and
that it inverts the encoder on exactly the encoder's outputs.
-/

import Pari.Format.Frames

namespace Pari.Format

open Data

namespace IndexFile

/-! ## Decoding -/

/-- The header decoder of the eager reader. -/
def decodeHeader (crc : Checksum) (bytes : Bytes) : Except FormatError (IndexMetadata × UInt32) := do
  let header ← okOr (slice? 0 headerSize bytes) (.truncated "file header")
  rejectIf (slice? 0 8 header ≠ some magic) .invalidMagic
  let version ← readU16 header 8
  rejectIf (version ≠ formatVersion) (.unsupportedVersion version)
  let size ← readU16 header 10
  rejectIf (size.toNat ≠ headerSize) (.invalidHeaderSize size)
  rejectIf (slice? 36 4 header ≠ some reserved ∨ slice? 68 4 header ≠ some reserved)
    .invalidReservedBytes
  let expectedChecksum ← readU32 header 64
  let checked ← okOr (slice? 0 64 header) (.truncated "header checksum range")
  rejectIf (expectedChecksum ≠ crc.hash checked)
    (.headerChecksumMismatch expectedChecksum (crc.hash checked))
  let algorithmRaw ← readU16 header 12
  let algorithm ← okOr (Algorithm.fromRaw algorithmRaw) (.unsupportedAlgorithm algorithmRaw)
  let schemeRaw ← readU16 header 14
  let signatureScheme ← okOr (SignatureScheme.fromRaw schemeRaw)
    (.unsupportedSignatureScheme schemeRaw)
  let signatureWidth ← readU16 header 16
  rejectIf (signatureWidth ≠ signatureScheme.widthBits)
    (.signatureWidthMismatch signatureScheme.widthBits signatureWidth)
  let codecRaw ← readU16 header 18
  let keyCodec ← okOr (CodecId.fromRaw codecRaw) (.unsupportedCodec codecRaw)
  let numPerm ← readU32 header 20
  let bands ← readU32 header 24
  let rows ← readU32 header 28
  let sectionCount ← readU32 header 32
  let seed ← readU64 header 40
  let threshold ← readU64 header 48
  let featureFlags ← readU64 header 56
  let metadata ← IndexMetadata.new algorithm signatureScheme keyCodec numPerm seed ⟨threshold⟩
    bands rows featureFlags
  return (metadata, sectionCount)

/-- The section header at the cursor. -/
def decodeSectionHeader (bytes : Bytes) (cursor : Nat) : Except FormatError SectionHeader := do
  let header ← okOr (slice? cursor sectionHeaderSize bytes) (.truncated "section header")
  let kindRaw ← readU16 header 0
  let flags ← readU16 header 2
  let length ← readU64 header 4
  let checksum ← readU32 header 12
  return { kindRaw, flags, payloadLength := length.toNat, checksum }

/-- One turn of the section loop: the known section found at the cursor, if any, and the
cursor after its payload. -/
def decodeSection (crc : Checksum) (bytes : Bytes) (cursor : Nat) :
    Except FormatError (Option Section × Nat) := do
  let headerEnd ← okOr (checkedAdd cursor sectionHeaderSize) .lengthOverflow
  let header ← decodeSectionHeader bytes cursor
  rejectIf (header.flags &&& ~~~knownSectionFlags ≠ 0) (.invalidSectionFlags header.flags)
  rejectIf (maxSectionBytes < header.payloadLength) (.sectionTooLarge header.payloadLength)
  let payloadEnd ← okOr (checkedAdd headerEnd header.payloadLength) .lengthOverflow
  let payload ← okOr (slice? headerEnd header.payloadLength bytes) (.truncated "section payload")
  rejectIf (crc.hash payload ≠ header.checksum)
    (.sectionChecksumMismatch header.checksum (crc.hash payload))
  let required := header.flags &&& sectionFlagRequired ≠ 0
  match SectionKind.fromRaw header.kindRaw with
  | some kind =>
      let framed ← Section.new kind (decide required) payload
      return (some framed, payloadEnd)
  | none =>
      rejectIf required (.unknownRequiredSection header.kindRaw)
      return (none, payloadEnd)

def decodeSections (crc : Checksum) (bytes : Bytes) :
    Nat → Nat → Except FormatError (List Section × Nat)
  | 0, cursor => .ok ([], cursor)
  | count + 1, cursor => do
      let (found, next) ← decodeSection crc bytes cursor
      let (rest, last) ← decodeSections crc bytes count next
      return (found.toList ++ rest, last)

/-- Decode a complete in-memory container with bounds and checksum checks. -/
def decode (crc : Checksum) (bytes : Bytes) : Except FormatError IndexFile := do
  let (metadata, sectionCount) ← decodeHeader crc bytes
  rejectIf (maxSectionCount < sectionCount.toNat)
    (.tooManySections sectionCount.toNat maxSectionCount)
  let (sections, cursor) ← decodeSections crc bytes sectionCount.toNat headerSize
  rejectIf (cursor ≠ bytes.length) (.trailingBytes (bytes.length - cursor))
  IndexFile.new metadata sections

end IndexFile

/-! ## Verified frames -/

/-- The checks of the eager section loop. -/
structure Frame.Verified (crc : Checksum) (frame : Frame) : Prop where
  flags : frame.flags &&& ~~~knownSectionFlags = 0
  bounded : frame.payload.length ≤ maxSectionBytes
  checksum : crc.hash frame.payload = frame.checksum
  skipped : SectionKind.fromRaw frame.kindRaw = none → frame.flags &&& sectionFlagRequired = 0

/-- A section as a reader of its frame sees it. -/
def Section.known (crc : Checksum) (framed : Section) : KnownSection where
  kind := framed.kind
  required := framed.required
  checksum := crc.hash framed.payload
  payload := framed.payload

theorem Section.known_injective (crc : Checksum) : Function.Injective (Section.known crc) := by
  intro left right h
  exact Section.ext (congrArg KnownSection.kind h) (congrArg KnownSection.required h)
    (congrArg KnownSection.payload h)

theorem Frame.ofSection_verified (crc : Checksum) (framed : Section) :
    (Frame.ofSection crc framed).Verified crc where
  flags := (Frame.ofSection_accepted crc framed).flags
  bounded := framed.bounded
  checksum := rfl
  skipped := fun h => ((Frame.ofSection_accepted crc framed).skipped h).1

/-- The section a verified frame holds. -/
theorem Frame.Verified.exists_section {crc : Checksum} {frame : Frame} (h : frame.Verified crc)
    {known : KnownSection} (hknown : frame.known? = some known) :
    ∃ framed : Section, framed.known crc = known := by
  obtain ⟨kind, _, rfl⟩ := Option.map_eq_some_iff.mp hknown
  exact ⟨⟨kind, _, frame.payload, h.bounded⟩, by rw [Section.known, h.checksum]⟩

section Turns

variable {crc : Checksum} {bytes : Bytes} {cursor : Nat}

theorem decodeHeader_eager_iff {metadata : IndexMetadata} {sectionCount : UInt32} :
    IndexFile.decodeHeader crc bytes = .ok (metadata, sectionCount) ↔
      headerSize ≤ bytes.length ∧
        window 0 headerSize bytes = encodeHeader crc metadata sectionCount := by
  by_cases hle : headerSize ≤ bytes.length
  swap
  · simp [IndexFile.decodeHeader, slice?_eq_some_iff, hle]
  have hlength : (window 0 headerSize bytes).length = headerSize := length_window (by omega)
  have hsize : ∀ size : UInt16, size.toNat = headerSize ↔ size = headerSizeU16 := fun size =>
    (UInt16.toNat_inj (b := headerSizeU16)).symm.symm
  have hslice : slice? 0 headerSize bytes = some (window 0 headerSize bytes) :=
    slice?_of_le (by omega)
  -- Both decoders make the same checks; the lazy one also looks at the features on its own.
  rw [← decodeHeader_eq_ok_iff hlength]
  simp only [IndexFile.decodeHeader, decodeHeader, hslice, okOr_some, ok_bind, bind_eq_ok_iff,
    rejectIf_eq_ok_iff, exists_const, okOr_eq_ok_iff, pure_eq_ok_iff, not_not, ne_eq, hsize, hle,
    true_and, IndexMetadata.new_eq_ok_iff, Prod.mk.injEq]
  constructor
  · rintro ⟨hmagic, _, hversion, rfl, _, hread, rfl, hreserved, _, hstored, _, hchecked, rfl,
      _, halgorithmRaw, _, halgorithm, _, hschemeRaw, _, hscheme, _, hwidth, rfl, _, hcodecRaw,
      _, hcodec, _, hnumPerm, _, hbands, _, hrows, _, hcount, _, hseed, _, hthreshold, features,
      hfeatures, decoded, hdecoded, rfl, rfl⟩
    have hflags : features &&& ~~~supportedFeatureFlags = 0 := by
      rw [← hdecoded.2.2.2.2.2.2.2]
      simp [decoded.bounds.2.2.2.2]
    exact ⟨hmagic, _, hversion, rfl, _, hread, rfl, hreserved, _, hstored, _, hchecked, rfl,
      _, halgorithmRaw, _, halgorithm, _, hschemeRaw, _, hscheme, _, hwidth, rfl, _, hcodecRaw,
      _, hcodec, _, hnumPerm, _, hbands, _, hrows, _, hcount, _, hseed, _, hthreshold, _,
      hfeatures, hflags, _, hdecoded, rfl, rfl⟩
  · rintro ⟨hmagic, _, hversion, rfl, _, hread, rfl, hreserved, _, hstored, _, hchecked, rfl,
      _, halgorithmRaw, _, halgorithm, _, hschemeRaw, _, hscheme, _, hwidth, rfl, _, hcodecRaw,
      _, hcodec, _, hnumPerm, _, hbands, _, hrows, _, hcount, _, hseed, _, hthreshold, _,
      hfeatures, _, _, hdecoded, rfl, rfl⟩
    exact ⟨hmagic, _, hversion, rfl, _, hread, rfl, hreserved, _, hstored, _, hchecked, rfl,
      _, halgorithmRaw, _, halgorithm, _, hschemeRaw, _, hscheme, _, hwidth, rfl, _, hcodecRaw,
      _, hcodec, _, hnumPerm, _, hbands, _, hrows, _, hcount, _, hseed, _, hthreshold, _,
      hfeatures, _, hdecoded, rfl, rfl⟩

/-- The eager reader takes the same header fields as the lazy one. -/
theorem decodeSectionHeader_eq_ok_iff {header : SectionHeader} :
    IndexFile.decodeSectionHeader bytes cursor = .ok header ↔
      readSectionHeader bytes cursor = .ok header := by
  simp only [IndexFile.decodeSectionHeader, readSectionHeader, readExactFormat, bind_eq_ok_iff,
    okOr_eq_ok_iff, mapError_eq_ok_iff, pure_eq_ok_iff]

/-- What one turn decoded is a verified frame at the cursor. -/
theorem decodeSection_sound {found : Option Section} {next : Nat}
    (h : IndexFile.decodeSection crc bytes cursor = .ok (found, next)) :
    ∃ frame : Frame, ∃ rest, frame.Verified crc ∧ bytes.drop cursor = frame.bytes ++ rest ∧
      found.map (Section.known crc) = frame.known? ∧ next = cursor + frame.bytes.length := by
  simp only [IndexFile.decodeSection, bind_eq_ok_iff, okOr_eq_ok_iff, checkedAdd_eq_some_iff,
    rejectIf_eq_ok_iff, exists_const, not_lt, not_not, ne_eq, decodeSectionHeader_eq_ok_iff,
    readSectionHeader_eq_ok_iff, slice?_eq_some_iff, sectionHeaderSize] at h
  obtain ⟨_, ⟨_, rfl⟩, header, ⟨_, hsize, hheader⟩, hflags, hbounded, _, ⟨_, rfl⟩, payload,
    ⟨hend, rfl⟩, hchecksum, h⟩ := h
  have hpayload : (window (cursor + 16) header.payloadLength bytes).length = header.payloadLength :=
    length_window hend
  have hdrop : bytes.drop cursor =
      (Frame.mk header.kindRaw header.flags header.checksum
        (window (cursor + 16) header.payloadLength bytes)).bytes ++
        bytes.drop (cursor + 16 + header.payloadLength) := by
    rw [@drop_eq_window_append _ cursor 16 bytes, hheader,
      @drop_eq_window_append _ (cursor + 16) header.payloadLength bytes, Frame.bytes,
      Frame.headerBytes]
    simp only [hpayload, List.append_assoc]
  refine ⟨_, _, ⟨hflags, by rwa [hpayload], hchecksum, fun hkind => ?_⟩, hdrop, ?_⟩
  · simp only at hkind
    rw [hkind] at h
    simp only [bind_eq_ok_iff, rejectIf_eq_ok_iff, not_not] at h
    exact h.choose_spec.1
  · cases hkind : SectionKind.fromRaw header.kindRaw with
    | none =>
        simp only [hkind, bind_eq_ok_iff, pure_eq_ok_iff, Prod.mk.injEq] at h
        obtain ⟨_, _, rfl, rfl⟩ := h
        simp [Frame.known?, hkind, hpayload, sectionHeaderSize, Nat.add_assoc]
    | some kind =>
        simp only [hkind, bind_eq_ok_iff, Section.new_eq_ok_iff, pure_eq_ok_iff,
          Prod.mk.injEq] at h
        obtain ⟨framed, ⟨hframedKind, hframedRequired, hframedPayload⟩, rfl, rfl⟩ := h
        simp [Frame.known?, Section.known, hkind, hpayload, sectionHeaderSize, Nat.add_assoc,
          hframedKind, hframedRequired, hframedPayload, hchecksum]

/-- A verified frame at the cursor is decoded. -/
theorem decodeSection_complete {frame : Frame} {rest : Bytes} (hverified : frame.Verified crc)
    (h : bytes.drop cursor = frame.bytes ++ rest)
    (hsize : cursor + frame.bytes.length < 2 ^ 64) :
    ∃ found, IndexFile.decodeSection crc bytes cursor =
        .ok (found, cursor + frame.bytes.length) ∧
      found.map (Section.known crc) = frame.known? := by
  have hlength : bytes.length - cursor = 16 + frame.payload.length + rest.length := by
    simpa [sectionHeaderSize] using congrArg List.length h
  have hbytes : frame.bytes.length = 16 + frame.payload.length := frame.length_bytes
  rw [hbytes] at hsize ⊢
  rw [Frame.bytes, List.append_assoc, drop_eq_append_iff, drop_eq_append_iff] at h
  obtain ⟨hheader, hpayload, -⟩ := h
  simp only [Frame.length_headerBytes, sectionHeaderSize] at hheader hpayload
  have hread : IndexFile.decodeSectionHeader bytes cursor =
      .ok ⟨frame.kindRaw, frame.flags, frame.payload.length, frame.checksum⟩ :=
    decodeSectionHeader_eq_ok_iff.mpr
      (readSectionHeader_eq_ok_iff.mpr ⟨by omega, by simp only; omega, hheader⟩)
  have hslice : slice? (cursor + 16) frame.payload.length bytes = some frame.payload := by
    rw [slice?_of_le (by omega), hpayload]
  have hstart : checkedAdd cursor 16 = some (cursor + 16) := checkedAdd_of_lt (by omega)
  have hend : checkedAdd (cursor + 16) frame.payload.length =
      some (cursor + (16 + frame.payload.length)) :=
    checkedAdd_eq_some_iff.mpr ⟨by omega, by omega⟩
  cases hkind : SectionKind.fromRaw frame.kindRaw with
  | none =>
      refine ⟨none, ?_, by simp [Frame.known?, hkind]⟩
      simp only [IndexFile.decodeSection, sectionHeaderSize, hstart, hread, okOr_some, ok_bind,
        rejectIf_of_not (not_not.mpr hverified.flags), rejectIf_of_not (not_lt.mpr hverified.bounded),
        hend, hslice, rejectIf_of_not (not_not.mpr hverified.checksum), hkind, ne_eq,
        rejectIf_of_not (not_not.mpr (hverified.skipped hkind))]
      rfl
  | some kind =>
      have hsection : Section.new kind (decide (frame.flags &&& sectionFlagRequired ≠ 0))
          frame.payload = .ok ⟨kind, decide (frame.flags &&& sectionFlagRequired ≠ 0), frame.payload,
            hverified.bounded⟩ := Section.new_eq_ok_iff.mpr ⟨rfl, rfl, rfl⟩
      refine ⟨some ⟨kind, decide (frame.flags &&& sectionFlagRequired ≠ 0), frame.payload,
        hverified.bounded⟩, ?_, ?_⟩
      · simp only [IndexFile.decodeSection, sectionHeaderSize, hstart, hread, okOr_some, ok_bind,
          rejectIf_of_not (not_not.mpr hverified.flags),
          rejectIf_of_not (not_lt.mpr hverified.bounded), hend, hslice, ne_eq,
          rejectIf_of_not (not_not.mpr hverified.checksum), hkind, hsection]
        rfl
      · simp [Frame.known?, Section.known, hkind, hverified.checksum]

theorem decodeSections_sound {count : Nat} {sections : List Section} {last : Nat}
    (h : IndexFile.decodeSections crc bytes count cursor = .ok (sections, last)) :
    ∃ frames : List Frame, ∃ rest, frames.length = count ∧ (∀ frame ∈ frames, frame.Verified crc) ∧
      bytes.drop cursor = framesBytes frames ++ rest ∧
      sections.map (Section.known crc) = frames.filterMap Frame.known? ∧
      last = cursor + (framesBytes frames).length := by
  induction count generalizing cursor sections with
  | zero =>
      cases h
      exact ⟨[], bytes.drop _, rfl, by simp, rfl, rfl, rfl⟩
  | succ count ih =>
      simp only [IndexFile.decodeSections, bind_eq_ok_iff, Prod.exists, pure_eq_ok_iff,
        Prod.mk.injEq] at h
      obtain ⟨found, next, hturn, tail, last', hrest, rfl, rfl⟩ := h
      obtain ⟨frame, afterFrame, hverified, hdrop, hfound, rfl⟩ := decodeSection_sound hturn
      obtain ⟨frames, rest, hcount, hall, hframes, hsections, rfl⟩ := ih hrest
      refine ⟨frame :: frames, rest, by simp [hcount], ?_, ?_, ?_, ?_⟩
      · exact List.forall_mem_cons.mpr ⟨hverified, hall⟩
      · rw [hdrop, framesBytes_cons, List.append_assoc, ← hframes]
        exact congrArg _ (drop_eq_append_iff.mp hdrop).2.symm
      · rw [List.map_append, hsections, List.filterMap_cons, ← hfound]
        cases found <;> rfl
      · rw [framesBytes_cons, List.length_append, Nat.add_assoc]

theorem decodeSections_complete {frames : List Frame} {rest : Bytes}
    (hverified : ∀ frame ∈ frames, frame.Verified crc)
    (h : bytes.drop cursor = framesBytes frames ++ rest)
    (hsize : cursor + (framesBytes frames).length < 2 ^ 64) :
    ∃ sections, IndexFile.decodeSections crc bytes frames.length cursor =
        .ok (sections, cursor + (framesBytes frames).length) ∧
      sections.map (Section.known crc) = frames.filterMap Frame.known? := by
  induction frames generalizing cursor with
  | nil => exact ⟨[], rfl, rfl⟩
  | cons frame frames ih =>
      rw [framesBytes_cons, List.length_append] at hsize
      rw [framesBytes_cons, List.append_assoc] at h
      rw [List.forall_mem_cons] at hverified
      obtain ⟨found, hturn, hfound⟩ := decodeSection_complete hverified.1 h (by omega)
      obtain ⟨sections, hrest, hsections⟩ :=
        @ih _ hverified.2 (drop_eq_append_iff.mp h).2 (by omega)
      refine ⟨found.toList ++ sections, ?_, ?_⟩
      · simp only [List.length_cons, IndexFile.decodeSections, hturn, ok_bind, hrest]
        simp [pure, Except.pure, Nat.add_assoc]
      · rw [List.map_append, hsections, List.filterMap_cons, ← hfound]
        cases found <;> rfl

end Turns

/-! ## Accepted files -/

section Accepting

variable {crc : Checksum} {bytes : Bytes}

theorem Frame.Verified.length_le {frames : List Frame} (h : ∀ frame ∈ frames, frame.Verified crc) :
    (framesBytes frames).length ≤ frames.length * (sectionHeaderSize + maxSectionBytes) := by
  induction frames with
  | nil => simp
  | cons frame frames ih =>
      rw [List.forall_mem_cons] at h
      have htail := ih h.2
      have hhead := h.1.bounded
      rw [framesBytes_cons, List.length_append, Frame.length_bytes, List.length_cons, Nat.succ_mul]
      omega

/-- The eager reader accepts exactly the containers of verified frames. -/
theorem IndexFile.decode_eq_ok_iff {file : IndexFile} :
    IndexFile.decode crc bytes = .ok file ↔ ∃ frames : List Frame,
      frames.length ≤ maxSectionCount ∧ (∀ frame ∈ frames, frame.Verified crc) ∧
      bytes = containerBytes crc file.metadata frames ∧
      file.sections.map (Section.known crc) = frames.filterMap Frame.known? := by
  constructor
  · intro h
    simp only [IndexFile.decode, bind_eq_ok_iff, Prod.exists, rejectIf_eq_ok_iff, exists_const,
      decodeHeader_eager_iff, not_lt, not_not, ne_eq] at h
    obtain ⟨metadata, count, ⟨hlength, hheader⟩, hcount, sections, cursor, hsections, rfl, hfile⟩ := h
    obtain ⟨frames, rest, hframes, hverified, hdrop, hknown, hcursor⟩ :=
      decodeSections_sound hsections
    have hrest : rest = [] := by
      have htotal := congrArg List.length hdrop
      rw [List.length_drop, List.length_append, hcursor] at htotal
      exact List.eq_nil_of_length_eq_zero (by omega)
    unfold IndexFile.new at hfile
    split at hfile
    · cases hfile
    obtain rfl := Except.ok.inj hfile
    refine ⟨frames, by omega, hverified, ?_, hknown⟩
    rw [hrest, List.append_nil] at hdrop
    rw [containerBytes, hframes, UInt32.ofNat_toNat, ← hheader, ← hdrop]
    exact @drop_eq_window_append _ 0 headerSize bytes
  · rintro ⟨frames, hcount, hverified, hbytes, hknown⟩
    have hsize := Frame.Verified.length_le hverified
    have hbound : frames.length * (sectionHeaderSize + maxSectionBytes) ≤
        maxSectionCount * (sectionHeaderSize + maxSectionBytes) := Nat.mul_le_mul_right _ hcount
    have hlimit : headerSize + maxSectionCount * (sectionHeaderSize + maxSectionBytes) < 2 ^ 64 :=
      by decide
    have hword : (UInt32.ofNat frames.length).toNat = frames.length :=
      toNat_ofNat32 (by simp only [maxSectionCount] at hcount; omega)
    have hend : headerSize + (framesBytes frames).length = bytes.length := by
      rw [hbytes, containerBytes, List.length_append, length_encodeHeader]
    have hheader : IndexFile.decodeHeader crc bytes =
        .ok (file.metadata, UInt32.ofNat frames.length) := by
      refine decodeHeader_eager_iff.mpr ⟨by omega, ?_⟩
      rw [hbytes, containerBytes, window_prefix (length_encodeHeader _ _ _)]
    have hdrop : bytes.drop headerSize = framesBytes frames ++ [] := by
      rw [hbytes, containerBytes, List.drop_left' (length_encodeHeader _ _ _), List.append_nil]
    obtain ⟨sections, hsections, hsame⟩ := decodeSections_complete hverified hdrop (by omega)
    obtain rfl : sections = file.sections :=
      (Section.known_injective crc).list_map (hsame.trans hknown.symm)
    simp only [IndexFile.decode, hheader, ok_bind, hword, rejectIf_of_not (not_lt.mpr hcount),
      hsections, hend, ne_eq, not_true, not_false_eq_true, rejectIf_of_not]
    rw [IndexFile.new, dif_neg (not_lt.mpr file.bounded)]

theorem Frame.Verified.accepted {frame : Frame} (h : frame.Verified crc) (hcrc : crc.Incremental) :
    frame.Accepted crc where
  flags := h.flags
  bounded := h.bounded
  skipped := fun hkind => ⟨h.skipped hkind, by
    rw [hcrc.hashPieces_eq (bufferedChunks_flatten _ (by decide)), h.checksum]⟩

/-- An accepted frame is verified if it is skipped, or its checksum is right. -/
theorem Frame.Accepted.verified {frame : Frame} (h : frame.Accepted crc) (hcrc : crc.Incremental)
    (hknown : ∀ known, frame.known? = some known → crc.hash known.payload = known.checksum) :
    frame.Verified crc where
  flags := h.flags
  bounded := h.bounded
  skipped := fun hkind => (h.skipped hkind).1
  checksum := by
    cases hkind : SectionKind.fromRaw frame.kindRaw with
    | none =>
        have hchecksum := (h.skipped hkind).2
        rwa [hcrc.hashPieces_eq (bufferedChunks_flatten _ (by decide))] at hchecksum
    | some kind => exact hknown _ (by rw [Frame.known?, hkind, Option.map_some])

/-- Verified frames hold sections. -/
theorem exists_sections_of_verified {frames : List Frame}
    (h : ∀ frame ∈ frames, frame.Verified crc) :
    ∃ sections : List Section, sections.length ≤ frames.length ∧
      sections.map (Section.known crc) = frames.filterMap Frame.known? := by
  induction frames with
  | nil => exact ⟨[], le_refl _, rfl⟩
  | cons frame frames ih =>
      rw [List.forall_mem_cons] at h
      obtain ⟨sections, hlength, hsections⟩ := ih h.2
      cases hknown : frame.known? with
      | none =>
          exact ⟨sections, Nat.le_succ_of_le hlength, by rw [List.filterMap_cons_none hknown, hsections]⟩
      | some known =>
          obtain ⟨framed, hframed⟩ := h.1.exists_section hknown
          refine ⟨framed :: sections, Nat.succ_le_succ hlength, ?_⟩
          rw [List.filterMap_cons_some hknown, List.map_cons, hframed, hsections]

end Accepting

/-! ## Containers are uniquely readable -/

theorem u16Bytes_injective : Function.Injective u16Bytes :=
  Function.LeftInverse.injective u16OfBytes_u16Bytes

theorem u32Bytes_injective : Function.Injective u32Bytes :=
  Function.LeftInverse.injective u32OfBytes_u32Bytes

theorem u64Bytes_injective : Function.Injective u64Bytes :=
  Function.LeftInverse.injective u64OfBytes_u64Bytes

theorem encodeHeader_injective {crc : Checksum} {left right : IndexMetadata}
    {leftCount rightCount : UInt32}
    (h : encodeHeader crc left leftCount = encodeHeader crc right rightCount) :
    left = right ∧ leftCount = rightCount := by
  have hleft := (decodeHeader_eq_ok_iff (length_encodeHeader crc left leftCount)).mpr rfl
  have hright := (decodeHeader_eq_ok_iff (length_encodeHeader crc left leftCount)).mpr h
  exact Prod.mk.inj (Except.ok.inj (hleft.symm.trans hright))

/-- Addressable payload lengths are determined by their length fields. -/
theorem length_inj_of_u64Bytes {left right : Bytes} (hleft : left.length < 2 ^ 64)
    (hright : right.length < 2 ^ 64)
    (h : u64Bytes (UInt64.ofNat left.length) = u64Bytes (UInt64.ofNat right.length)) :
    left.length = right.length := by
  have hword := congrArg UInt64.toNat (u64Bytes_injective h)
  rwa [toNat_ofNat64 hleft, toNat_ofNat64 hright] at hword

theorem Frame.headerBytes_inj {left right : Frame} (hleft : left.payload.length < 2 ^ 64)
    (hright : right.payload.length < 2 ^ 64) (h : left.headerBytes = right.headerBytes) :
    left.kindRaw = right.kindRaw ∧ left.flags = right.flags ∧
      left.payload.length = right.payload.length ∧ left.checksum = right.checksum := by
  obtain ⟨hkind, h⟩ := List.append_inj h (by simp)
  obtain ⟨hflags, h⟩ := List.append_inj h (by simp)
  obtain ⟨hlength, hchecksum⟩ := List.append_inj h (by simp)
  exact ⟨u16Bytes_injective hkind, u16Bytes_injective hflags,
    length_inj_of_u64Bytes hleft hright hlength, u32Bytes_injective hchecksum⟩

theorem Frame.bytes_append_inj {left right : Frame} {leftRest rightRest : Bytes}
    (hleft : left.payload.length < 2 ^ 64) (hright : right.payload.length < 2 ^ 64)
    (h : left.bytes ++ leftRest = right.bytes ++ rightRest) : left = right ∧ leftRest = rightRest := by
  rw [Frame.bytes, Frame.bytes, List.append_assoc, List.append_assoc] at h
  obtain ⟨hheader, hpayload⟩ := List.append_inj h (by simp)
  obtain ⟨hkind, hflags, hlength, hchecksum⟩ :=
    Frame.headerBytes_inj hleft hright hheader
  obtain ⟨hsame, hrest⟩ := List.append_inj hpayload hlength
  cases left
  cases right
  exact ⟨by rw [Frame.mk.injEq]; exact ⟨hkind, hflags, hchecksum, hsame⟩, hrest⟩

theorem framesBytes_append_inj {left right : List Frame} {leftRest rightRest : Bytes}
    (hleft : ∀ frame ∈ left, frame.payload.length < 2 ^ 64)
    (hright : ∀ frame ∈ right, frame.payload.length < 2 ^ 64)
    (hcount : left.length = right.length)
    (h : framesBytes left ++ leftRest = framesBytes right ++ rightRest) :
    left = right ∧ leftRest = rightRest := by
  induction left generalizing right with
  | nil =>
      obtain rfl := List.length_eq_zero_iff.mp hcount.symm
      exact ⟨rfl, h⟩
  | cons frame left ih =>
      cases right with
      | nil => cases hcount
      | cons other right =>
          rw [List.forall_mem_cons] at hleft hright
          rw [framesBytes_cons, framesBytes_cons, List.append_assoc, List.append_assoc] at h
          obtain ⟨rfl, htail⟩ := Frame.bytes_append_inj hleft.1 hright.1 h
          obtain ⟨rfl, hrest⟩ := ih hleft.2 hright.2 (Nat.succ.inj hcount) htail
          exact ⟨rfl, hrest⟩

/-- The limit of the format is below that of the length field. -/
theorem addressable_of_bounded {frames : List Frame}
    (h : ∀ frame ∈ frames, frame.payload.length ≤ maxSectionBytes) :
    ∀ frame ∈ frames, frame.payload.length < 2 ^ 64 :=
  fun frame hframe => (h frame hframe).trans_lt (by decide)

/-- A container followed by anything determines its metadata, its frames and what follows. -/
theorem containerBytes_append_inj {crc : Checksum} {left right : IndexMetadata}
    {leftFrames rightFrames : List Frame} {leftRest rightRest : Bytes}
    (hleft : ∀ frame ∈ leftFrames, frame.payload.length < 2 ^ 64)
    (hright : ∀ frame ∈ rightFrames, frame.payload.length < 2 ^ 64)
    (hleftCount : leftFrames.length < 2 ^ 32) (hrightCount : rightFrames.length < 2 ^ 32)
    (h : containerBytes crc left leftFrames ++ leftRest =
      containerBytes crc right rightFrames ++ rightRest) :
    left = right ∧ leftFrames = rightFrames ∧ leftRest = rightRest := by
  rw [containerBytes, containerBytes, List.append_assoc, List.append_assoc] at h
  obtain ⟨hheader, hframes⟩ := List.append_inj h (by simp)
  obtain ⟨hmetadata, hcount⟩ := encodeHeader_injective hheader
  have hlength : leftFrames.length = rightFrames.length := by
    have hword := congrArg UInt32.toNat hcount
    rwa [toNat_ofNat32 hleftCount, toNat_ofNat32 hrightCount] at hword
  obtain ⟨hsame, hrest⟩ := framesBytes_append_inj hleft hright hlength hframes
  exact ⟨hmetadata, hsame, hrest⟩

/-- A container of understood sections is read exactly if they keep the limits of the format. -/
theorem exists_readFrom_iff {crc : Checksum} {metadata : IndexMetadata}
    {sections : List KnownSection} (haddressable : ∀ known ∈ sections, known.payload.length < 2 ^ 64)
    (hcount : sections.length < 2 ^ 32) :
    (∃ layout, FileLayout.readFrom crc
        (containerBytes crc metadata (sections.map KnownSection.frame)) = .ok layout) ↔
      sections.length ≤ maxSectionCount ∧
        ∀ known ∈ sections, known.payload.length ≤ maxSectionBytes := by
  have hframes : ∀ frame ∈ sections.map KnownSection.frame, frame.payload.length < 2 ^ 64 := by
    intro frame hframe
    obtain ⟨known, hknown, rfl⟩ := List.mem_map.mp hframe
    exact haddressable known hknown
  constructor
  · rintro ⟨layout, hread⟩
    obtain ⟨_, frames, hlength, haccepted, hfile, _⟩ := readFrom_spec hread
    obtain ⟨_, rfl, _⟩ := containerBytes_append_inj hframes
      (addressable_of_bounded fun frame hframe => (haccepted frame hframe).bounded)
      ((List.length_map _).trans_lt hcount) (hlength.trans_lt (by decide))
      (congrArg (· ++ ([] : Bytes)) hfile)
    rw [List.length_map] at hlength
    exact ⟨hlength, fun known hknown => (haccepted _ (List.mem_map_of_mem hknown)).bounded⟩
  · rintro ⟨hlength, hbounded⟩
    obtain ⟨layout, hread, _⟩ := @readFrom_containerBytes crc metadata
      (sections.map KnownSection.frame) ((List.length_map _).trans_le hlength) fun frame hframe => by
        obtain ⟨known, hknown, rfl⟩ := List.mem_map.mp hframe
        exact KnownSection.accepted_frame crc (hbounded known hknown)
    exact ⟨layout, hread⟩

/-! ## The encoder and the eager reader -/

/-- The header counts as many sections as were decoded: none was skipped. -/
def IndexFile.SkippedNone (bytes : Bytes) (file : IndexFile) : Prop :=
  readU32 bytes 32 = .ok (UInt32.ofNat file.sections.length)

section RoundTrip

variable {crc : Checksum} {file : IndexFile}

theorem filterMap_known?_ofSection (sections : List Section) :
    (sections.map (Frame.ofSection crc)).filterMap Frame.known? =
      sections.map (Section.known crc) := by
  have hall : (Frame.known? ∘ Frame.ofSection crc) = some ∘ Section.known crc := by
    funext framed
    exact Frame.ofSection_known? crc framed
  rw [List.filterMap_map, hall, ← List.filterMap_map, List.filterMap_some]

/-- The lazy reader finds the sections of an encoded value. -/
theorem IndexFile.exists_layout_of_encode {bytes : Bytes} (h : file.encode crc = .ok bytes) :
    ∃ layout, FileLayout.readFrom crc bytes = .ok layout ∧ layout.metadata = file.metadata ∧
      layout.Describes bytes ∧
      layout.sections.map (SectionDescriptor.view bytes) = file.sections.map (Section.known crc) := by
  rw [IndexFile.encode_eq_ok, Except.ok.injEq] at h
  have haccepted : ∀ frame ∈ file.sections.map (Frame.ofSection crc), frame.Accepted crc := by
    intro frame hmem
    obtain ⟨framed, _, rfl⟩ := List.mem_map.mp hmem
    exact Frame.ofSection_accepted crc framed
  have hread := @readFrom_containerBytes _ file.metadata _
    (by rw [List.length_map]; exact file.bounded) haccepted
  rwa [h, filterMap_known?_ofSection] at hread

theorem IndexFile.decode_of_encode {bytes : Bytes} (h : file.encode crc = .ok bytes) :
    IndexFile.decode crc bytes = .ok file := by
  rw [IndexFile.encode_eq_ok, Except.ok.injEq] at h
  refine IndexFile.decode_eq_ok_iff.mpr ⟨_, ?_, ?_, h.symm, ?_⟩
  · rw [List.length_map]
    exact file.bounded
  · intro frame hmem
    obtain ⟨framed, _, rfl⟩ := List.mem_map.mp hmem
    exact Frame.ofSection_verified crc framed
  · exact (filterMap_known?_ofSection file.sections).symm

/-- A file that continues an accepted file, or that an accepted file continues, is that file. -/
theorem IndexFile.eq_of_decode_append {bytes rest rest' : Bytes} {other : IndexFile}
    {bytes' : Bytes} (h : IndexFile.decode crc bytes = .ok file)
    (h' : IndexFile.decode crc bytes' = .ok other) (hsame : bytes ++ rest = bytes' ++ rest') :
    bytes = bytes' := by
  obtain ⟨frames, hcount, hverified, hbytes, _⟩ := IndexFile.decode_eq_ok_iff.mp h
  obtain ⟨frames', hcount', hverified', hbytes', _⟩ := IndexFile.decode_eq_ok_iff.mp h'
  rw [hbytes, hbytes'] at hsame
  obtain ⟨_, _, hrest⟩ := containerBytes_append_inj
    (addressable_of_bounded fun frame hmem => (hverified frame hmem).bounded)
    (addressable_of_bounded fun frame hmem => (hverified' frame hmem).bounded)
    (hcount.trans_lt (by decide)) (hcount'.trans_lt (by decide)) hsame
  rw [hbytes, hbytes']
  rw [hrest] at hsame
  exact List.append_cancel_right hsame

/-- Flag words are zero or say that the section is required. -/
theorem flags_cases {flags : UInt16} (h : flags &&& ~~~knownSectionFlags = 0) :
    flags = 0 ∨ flags = sectionFlagRequired := by
  have hsplit : flags = flags &&& 1 ||| flags &&& ~~~1 := by
    rw [← UInt16.toBitVec_inj]
    ext position hposition
    simp only [UInt16.toBitVec_or, UInt16.toBitVec_and, UInt16.toBitVec_not, BitVec.getElem_or,
      BitVec.getElem_and, BitVec.getElem_not]
    cases flags.toBitVec[position] <;> cases (UInt16.toBitVec 1)[position] <;> rfl
  have hlow : flags.toNat = flags.toNat % 2 := by
    have hnat := congrArg UInt16.toNat hsplit
    rw [show flags &&& ~~~1 = 0 from h, UInt16.or_zero, UInt16.toNat_and] at hnat
    exact hnat.trans (Nat.and_one_is_mod _)
  rcases Nat.mod_two_eq_zero_or_one flags.toNat with hzero | hone
  · exact Or.inl (UInt16.toNat_inj.mp (hlow.trans hzero))
  · exact Or.inr (UInt16.toNat_inj.mp (hlow.trans hone))

/-- A verified frame of a known section is the frame the encoder writes. -/
theorem Frame.eq_ofSection {frame : Frame} {framed : Section} (hverified : frame.Verified crc)
    (h : frame.known? = some (framed.known crc)) : frame = Frame.ofSection crc framed := by
  obtain ⟨kind, hkind, hknown⟩ := Option.map_eq_some_iff.mp h
  have hkindRaw : frame.kindRaw = framed.kind.asRaw := by
    rw [← SectionKind.fromRaw_eq_some_iff, hkind]
    exact congrArg some (congrArg KnownSection.kind hknown)
  have hpayload : frame.payload = framed.payload := congrArg KnownSection.payload hknown
  have hrequired : decide (frame.flags &&& sectionFlagRequired ≠ 0) = framed.required :=
    congrArg KnownSection.required hknown
  have hflags : frame.flags = sectionFlags framed.required := by
    rw [← hrequired]
    rcases flags_cases hverified.flags with hzero | hone
    · rw [hzero]
      rfl
    · rw [hone]
      rfl
  have hchecksum := hverified.checksum
  cases frame
  simp only at hkindRaw hpayload hflags hchecksum
  rw [Frame.ofSection, hkindRaw, hflags, ← hchecksum, hpayload]

theorem frames_eq_of_known {frames : List Frame} {sections : List Section}
    (hverified : ∀ frame ∈ frames, frame.Verified crc) (hlength : frames.length = sections.length)
    (h : sections.map (Section.known crc) = frames.filterMap Frame.known?) :
    frames = sections.map (Frame.ofSection crc) := by
  induction frames generalizing sections with
  | nil =>
      obtain rfl := List.length_eq_zero_iff.mp hlength.symm
      rfl
  | cons frame frames ih =>
      rw [List.forall_mem_cons] at hverified
      cases hknown : frame.known? with
      | none =>
          rw [List.filterMap_cons_none hknown] at h
          have hcount := congrArg List.length h
          have hle := List.length_filterMap_le Frame.known? frames
          rw [List.length_map] at hcount
          rw [List.length_cons] at hlength
          omega
      | some known =>
          rw [List.filterMap_cons_some hknown] at h
          cases sections with
          | nil => cases h
          | cons framed sections =>
              rw [List.map_cons, List.cons.injEq] at h
              rw [← h.1] at hknown
              rw [List.map_cons, ← Frame.eq_ofSection hverified.1 hknown,
                ih hverified.2 (Nat.succ.inj hlength) h.2]

/-- The header of a container counts its frames. -/
theorem readU32_sectionCount (metadata : IndexMetadata) (frames : List Frame) :
    readU32 (containerBytes crc metadata frames) 32 = .ok (UInt32.ofNat frames.length) := by
  have hheader := length_encodeHeader crc metadata (UInt32.ofNat frames.length)
  have hfields : window 0 64 (encodeHeader crc metadata (UInt32.ofNat frames.length)) =
      headerFields metadata (UInt32.ofNat frames.length) :=
    window_prefix (length_headerFields metadata (UInt32.ofNat frames.length))
  obtain ⟨_, _, _, _, _, _, _, _, _, _, hcount, _⟩ :=
    (window_eq_headerFields_iff hheader).mp hfields
  simp only [headerSize] at hheader
  refine (readU32_eq_ok_iff (by decide)).mpr ⟨?_, ?_⟩
  · rw [containerBytes, List.length_append, hheader]
    omega
  · rw [containerBytes, window_append_left (by omega)]
    exact hcount

/-- A decoded file in which nothing was skipped is the encoding of its value. -/
theorem IndexFile.encode_of_decode {bytes : Bytes} (h : IndexFile.decode crc bytes = .ok file)
    (hskipped : file.SkippedNone bytes) : file.encode crc = .ok bytes := by
  have hlimit : maxSectionCount < 2 ^ 32 := by decide
  obtain ⟨frames, hcount, hverified, rfl, hknown⟩ := IndexFile.decode_eq_ok_iff.mp h
  have hlength : frames.length = file.sections.length := by
    have hword := congrArg UInt32.toNat
      (Except.ok.inj ((readU32_sectionCount file.metadata frames).symm.trans hskipped))
    have hbounded := file.bounded
    rwa [toNat_ofNat32 (by omega), toNat_ofNat32 (by omega)] at hword
  rw [IndexFile.encode_eq_ok, frames_eq_of_known hverified hlength hknown]

end RoundTrip

/-- Encoding is inverted by decoding and by nothing shorter or longer, and a file that decodes
without skipping a section is the encoding of its value. -/
theorem IndexFile.decode_encode_exact (crc : Checksum) (file : IndexFile) :
    (∃ bytes, file.encode crc = .ok bytes ∧ IndexFile.decode crc bytes = .ok file ∧
      ∀ other, other ≠ bytes → other <+: bytes ∨ bytes <+: other →
        ¬ succeeds (IndexFile.decode crc other)) ∧
    ∀ bytes, IndexFile.decode crc bytes = .ok file → file.SkippedNone bytes →
      file.encode crc = .ok bytes := by
  refine ⟨⟨_, IndexFile.encode_eq_ok crc file,
    IndexFile.decode_of_encode (IndexFile.encode_eq_ok crc file), ?_⟩,
    fun bytes => IndexFile.encode_of_decode⟩
  rintro other hne hprefix ⟨decoded, hdecoded⟩
  have hencoded := IndexFile.decode_of_encode (IndexFile.encode_eq_ok crc file)
  refine hne ?_
  rcases hprefix with ⟨rest, hrest⟩ | ⟨rest, hrest⟩
  · exact IndexFile.eq_of_decode_append hdecoded hencoded
      (hrest.trans (List.append_nil _).symm)
  · exact (IndexFile.eq_of_decode_append hencoded hdecoded
      (hrest.trans (List.append_nil _).symm)).symm

/-- A container without sections. -/
def emptyFile : IndexFile where
  metadata :=
    { algorithm := .minHashLsh
      signatureScheme := .pariAffine32V1
      keyCodec := .u64
      numPerm := 4
      seed := 1
      threshold := ⟨0x3FE0000000000000⟩
      bands := 2
      rows := 2
      featureFlags := 0
      valid := by decide }
  sections := []
  bounded := Nat.zero_le _

theorem decode_encode_exact_empty : ∃ bytes, emptyFile.encode Checksum.crc32 = .ok bytes ∧
    IndexFile.decode Checksum.crc32 bytes = .ok emptyFile := by
  obtain ⟨⟨bytes, hencode, hdecode, _⟩, _⟩ :=
    IndexFile.decode_encode_exact Checksum.crc32 emptyFile
  exact ⟨bytes, hencode, hdecode⟩

/-! ## The two readers -/

section Agreement

variable {crc : Checksum} {bytes : Bytes} {file : IndexFile} {layout : FileLayout}

/-- Where both readers accept, they report the same sections. -/
theorem sections_agree (hfile : IndexFile.decode crc bytes = .ok file)
    (hlayout : FileLayout.readFrom crc bytes = .ok layout) :
    layout.metadata = file.metadata ∧
      List.Forall₂ (fun descriptor framed => descriptor.kind = framed.kind ∧
        descriptor.required = framed.required ∧
        layout.readSection crc bytes descriptor = .ok framed.payload)
        layout.sections file.sections := by
  obtain ⟨frames, hcount, hverified, hbytes, hknown⟩ := IndexFile.decode_eq_ok_iff.mp hfile
  obtain ⟨hdescribes, frames', hcount', haccepted, hbytes', hview⟩ := readFrom_spec hlayout
  obtain ⟨hmetadata, rfl, _⟩ : layout.metadata = file.metadata ∧ frames' = frames ∧ _ :=
    containerBytes_append_inj
      (addressable_of_bounded fun frame hmem => (haccepted frame hmem).bounded)
      (addressable_of_bounded fun frame hmem => (hverified frame hmem).bounded)
      (hcount'.trans_lt (by decide)) (hcount.trans_lt (by decide))
      (congrArg (· ++ ([] : Bytes)) (hbytes'.symm.trans hbytes))
  refine ⟨hmetadata, forall₂_imp_of_mem (forall₂_of_map_eq (hview.trans hknown.symm)) ?_⟩
  intro descriptor hmem framed _ hsame
  refine ⟨congrArg KnownSection.kind hsame, congrArg KnownSection.required hsame,
    (readSection_eq_ok_iff hdescribes hmem).mpr ⟨congrArg KnownSection.payload hsame, ?_⟩⟩
  exact (congrArg KnownSection.checksum hsame).symm

theorem exists_layout_of_decode (hcrc : crc.Incremental)
    (h : IndexFile.decode crc bytes = .ok file) :
    ∃ layout, FileLayout.readFrom crc bytes = .ok layout := by
  obtain ⟨frames, hcount, hverified, hbytes, _⟩ := IndexFile.decode_eq_ok_iff.mp h
  have hread := @readFrom_containerBytes _ file.metadata _ hcount
    fun frame hmem => (hverified frame hmem).accepted hcrc
  rw [← hbytes] at hread
  obtain ⟨layout, hlayout, _⟩ := hread
  exact ⟨layout, hlayout⟩

theorem exists_decode_of_sections (hcrc : crc.Incremental)
    (h : FileLayout.readFrom crc bytes = .ok layout)
    (hsections : ∀ descriptor ∈ layout.sections, succeeds (layout.readSection crc bytes descriptor)) :
    succeeds (IndexFile.decode crc bytes) := by
  obtain ⟨hdescribes, frames, hcount, haccepted, hbytes, hview⟩ := readFrom_spec h
  have hverified : ∀ frame ∈ frames, frame.Verified crc := by
    intro frame hmem
    refine (haccepted frame hmem).verified hcrc fun known hknown => ?_
    have hlisted : known ∈ layout.sections.map (SectionDescriptor.view bytes) := by
      rw [hview]
      exact List.mem_filterMap.mpr ⟨frame, hmem, hknown⟩
    obtain ⟨descriptor, hdescriptor, rfl⟩ := List.mem_map.mp hlisted
    obtain ⟨payload, hpayload⟩ := hsections descriptor hdescriptor
    obtain ⟨rfl, hchecksum⟩ := (readSection_eq_ok_iff hdescribes hdescriptor).mp hpayload
    exact hchecksum
  obtain ⟨sections, hlength, hsame⟩ := exists_sections_of_verified hverified
  exact ⟨⟨layout.metadata, sections, hlength.trans hcount⟩,
    IndexFile.decode_eq_ok_iff.mpr ⟨frames, hcount, hverified, hbytes, hsame⟩⟩

end Agreement

/-- The eager reader accepts a file exactly when the lazy one does and can read every section;
both then report the same metadata and, in order, the same sections. -/
theorem IndexFile.decode_iff_readFrom {crc : Checksum} (hcrc : crc.Incremental) (bytes : Bytes) :
    (succeeds (IndexFile.decode crc bytes) ↔ ∃ layout, FileLayout.readFrom crc bytes = .ok layout ∧
      ∀ descriptor ∈ layout.sections, succeeds (layout.readSection crc bytes descriptor)) ∧
    ∀ file layout, IndexFile.decode crc bytes = .ok file →
      FileLayout.readFrom crc bytes = .ok layout →
      layout.metadata = file.metadata ∧
        List.Forall₂ (fun descriptor framed => descriptor.kind = framed.kind ∧
          descriptor.required = framed.required ∧
          layout.readSection crc bytes descriptor = .ok framed.payload)
          layout.sections file.sections := by
  refine ⟨⟨?_, ?_⟩, fun file layout => sections_agree⟩
  · rintro ⟨file, hfile⟩
    obtain ⟨layout, hlayout⟩ := exists_layout_of_decode hcrc hfile
    refine ⟨layout, hlayout, fun descriptor hmem => ?_⟩
    obtain ⟨framed, _, _, _, hread⟩ := exists_right_of_forall₂ (sections_agree hfile hlayout).2 hmem
    exact ⟨framed.payload, hread⟩
  · rintro ⟨layout, hlayout, hsections⟩
    exact exists_decode_of_sections hcrc hlayout hsections

/-- Both readers accept the container without sections. -/
theorem decode_iff_readFrom_empty : ∃ bytes layout, emptyFile.encode Checksum.crc32 = .ok bytes ∧
    FileLayout.readFrom Checksum.crc32 bytes = .ok layout := by
  have hencode := IndexFile.encode_eq_ok Checksum.crc32 emptyFile
  obtain ⟨layout, hlayout, _⟩ := (IndexFile.decode_iff_readFrom Checksum.crc32_incremental _).1.mp
    ⟨emptyFile, IndexFile.decode_of_encode hencode⟩
  exact ⟨_, layout, hencode, hlayout⟩

end Pari.Format
