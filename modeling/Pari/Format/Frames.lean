/-
# Files as frames

The files the layout reader accepts are exactly the encoded header of their
metadata followed by accepted frames, one for every section the header counts. A
frame of an unknown optional section is kept as the bytes it is, so that the
characterisation covers every accepted file and not only those this library writes.
-/

import Pari.Format.Layout

namespace Pari.Format

open Data

/-- One section as it lies in a file. -/
structure Frame where
  kindRaw : UInt16
  flags : UInt16
  checksum : UInt32
  payload : Bytes
  deriving DecidableEq, Repr

namespace Frame

def headerBytes (frame : Frame) : Bytes :=
  u16Bytes frame.kindRaw ++ (u16Bytes frame.flags ++
    (u64Bytes (UInt64.ofNat frame.payload.length) ++ u32Bytes frame.checksum))

def bytes (frame : Frame) : Bytes := frame.headerBytes ++ frame.payload

/-- The frame of a section value. -/
def ofSection (crc : Checksum) (framed : Section) : Frame where
  kindRaw := framed.kind.asRaw
  flags := sectionFlags framed.required
  checksum := crc.hash framed.payload
  payload := framed.payload

/-- The checks of the section loop. -/
structure Accepted (crc : Checksum) (frame : Frame) : Prop where
  flags : frame.flags &&& ~~~knownSectionFlags = 0
  bounded : frame.payload.length ≤ maxSectionBytes
  skipped : SectionKind.fromRaw frame.kindRaw = none →
    frame.flags &&& sectionFlagRequired = 0 ∧
      crc.hashPieces (bufferedChunks checksumBufferBytes frame.payload) = frame.checksum

/-- The descriptor of a frame that starts at `offset`, if its kind is understood. -/
def descriptor? (frame : Frame) (offset : Nat) : Option SectionDescriptor :=
  (SectionKind.fromRaw frame.kindRaw).map fun kind => {
    kind
    required := decide (frame.flags &&& sectionFlagRequired ≠ 0)
    payloadOffset := offset + sectionHeaderSize
    payloadLength := frame.payload.length
    checksum := frame.checksum }

@[simp]
theorem length_headerBytes (frame : Frame) : frame.headerBytes.length = sectionHeaderSize := by
  simp [headerBytes, sectionHeaderSize]

@[simp]
theorem length_bytes (frame : Frame) :
    frame.bytes.length = sectionHeaderSize + frame.payload.length := by
  simp [bytes]

end Frame

/-- The descriptors of consecutive frames, the first of which starts at `offset`. -/
def descriptorsFrom : Nat → List Frame → List SectionDescriptor
  | _, [] => []
  | offset, frame :: frames =>
      (frame.descriptor? offset).toList ++ descriptorsFrom (offset + frame.bytes.length) frames

/-- The concatenated frames. -/
def framesBytes (frames : List Frame) : Bytes := frames.flatMap Frame.bytes

@[simp]
theorem framesBytes_nil : framesBytes [] = [] := rfl

@[simp]
theorem framesBytes_cons (frame : Frame) (frames : List Frame) :
    framesBytes (frame :: frames) = frame.bytes ++ framesBytes frames := rfl

/-- A header that counts the frames, and the frames. -/
def containerBytes (crc : Checksum) (metadata : IndexMetadata) (frames : List Frame) : Bytes :=
  encodeHeader crc metadata (UInt32.ofNat frames.length) ++ framesBytes frames

/-! ## One turn of the section loop -/

section Scan

variable {crc : Checksum} {file : Bytes} {cursor : Nat}

/-- A section header read at the cursor is the header of a frame there. -/
theorem readSectionHeader_eq_ok_iff {header : SectionHeader} :
    readSectionHeader file cursor = .ok header ↔
      cursor + 16 ≤ file.length ∧ header.payloadLength < 2 ^ 64 ∧
      window cursor 16 file = u16Bytes header.kindRaw ++ (u16Bytes header.flags ++
        (u64Bytes (UInt64.ofNat header.payloadLength) ++ u32Bytes header.checksum)) := by
  by_cases hle : cursor + 16 ≤ file.length
  swap
  · simp [readSectionHeader, readExactFormat, slice?_eq_some_iff, hle, sectionHeaderSize]
  have hlength : (window cursor 16 file).length = 16 := length_window hle
  have hlast : ((window cursor 16 file).drop 12 = u32Bytes header.checksum) =
      (window 12 4 (window cursor 16 file) = u32Bytes header.checksum) :=
    propext (drop_eq_iff_window (by simp [hlength]))
  conv_rhs => rw [← List.drop_zero (l := window cursor 16 file)]
  simp (disch := decide) only [readSectionHeader, readExactFormat, sectionHeaderSize,
    bind_eq_ok_iff, okOr_eq_ok_iff, slice?_eq_some_iff, mapError_eq_ok_iff, readU16_eq_ok_iff,
    readU32_eq_ok_iff, readU64_eq_ok_iff, pure_eq_ok_iff, drop_eq_append_iff, length_u16Bytes,
    length_u64Bytes, Nat.reduceAdd, hlast, and_assoc]
  constructor
  · rintro ⟨_, _, rfl, kindRaw, _, hkind, flags, _, hflags, size, _, hsize, checksum, _,
      hchecksum, rfl⟩
    exact ⟨hle, size.toNat_lt, hkind, hflags, by rw [hsize, UInt64.ofNat_toNat], hchecksum⟩
  · rintro ⟨_, hlt, hkind, hflags, hsize, hchecksum⟩
    refine ⟨_, hle, rfl, _, by omega, hkind, _, by omega, hflags, _, by omega, hsize, _, by omega,
      hchecksum, ?_⟩
    rw [toNat_ofNat64 hlt]


/-- What the scan of one section found is a frame at the cursor. -/
theorem scanSection_sound {found : Option SectionDescriptor} {next : Nat}
    (h : scanSection crc file cursor = .ok (found, next)) :
    ∃ frame : Frame, ∃ rest, frame.Accepted crc ∧ file.drop cursor = frame.bytes ++ rest ∧
      found = frame.descriptor? cursor ∧ next = cursor + frame.bytes.length := by
  simp only [scanSection, bind_eq_ok_iff, okOr_eq_ok_iff, checkedAdd_eq_some_iff,
    rejectIf_eq_ok_iff, exists_const, not_lt, not_not, ne_eq, readSectionHeader_eq_ok_iff,
    sectionHeaderSize] at h
  obtain ⟨_, ⟨_, rfl⟩, _, header, ⟨_, hsize, hheader⟩, hflags, hbounded, _, ⟨_, rfl⟩, hend, h⟩ := h
  have hpayload : (window (cursor + 16) header.payloadLength file).length = header.payloadLength :=
    length_window hend
  refine ⟨⟨header.kindRaw, header.flags, header.checksum,
    window (cursor + 16) header.payloadLength file⟩,
    file.drop (cursor + 16 + header.payloadLength), ?_, ?_, ?_⟩
  · refine ⟨hflags, by rwa [hpayload], fun hkind => ?_⟩
    simp only at hkind
    rw [hkind] at h
    simp only [bind_eq_ok_iff, rejectIf_eq_ok_iff, not_not, exists_const, verifySkippedPayload,
      readExactFormat, okOr_eq_ok_iff, slice?_eq_some_iff, ne_eq] at h
    obtain ⟨hrequired, ⟨_, ⟨_, rfl⟩, hchecksum⟩, _⟩ := h
    exact ⟨hrequired, hchecksum⟩
  · rw [@drop_eq_window_append _ cursor 16 file, hheader,
      @drop_eq_window_append _ (cursor + 16) header.payloadLength file, Frame.bytes,
      Frame.headerBytes]
    simp only [hpayload, List.append_assoc]
  · cases hkind : SectionKind.fromRaw header.kindRaw with
    | none =>
        simp only [hkind, bind_eq_ok_iff, pure_eq_ok_iff, Prod.mk.injEq] at h
        obtain ⟨_, _, _, _, rfl, rfl⟩ := h
        simp [Frame.descriptor?, hkind, hpayload, sectionHeaderSize, Nat.add_assoc]
    | some kind =>
        simp only [hkind, pure_eq_ok_iff, Prod.mk.injEq] at h
        obtain ⟨rfl, rfl⟩ := h
        simp [Frame.descriptor?, hkind, hpayload, sectionHeaderSize, Nat.add_assoc]

/-- A frame at the cursor is found. -/
theorem scanSection_complete {frame : Frame} {rest : Bytes} (haccepted : frame.Accepted crc)
    (h : file.drop cursor = frame.bytes ++ rest)
    (hsize : cursor + frame.bytes.length < 2 ^ 64) :
    scanSection crc file cursor =
      .ok (frame.descriptor? cursor, cursor + frame.bytes.length) := by
  have hlength : file.length - cursor = 16 + frame.payload.length + rest.length := by
    simpa [sectionHeaderSize] using congrArg List.length h
  have hbytes : frame.bytes.length = 16 + frame.payload.length := frame.length_bytes
  rw [hbytes] at hsize ⊢
  rw [Frame.bytes, List.append_assoc, drop_eq_append_iff, drop_eq_append_iff] at h
  obtain ⟨hheader, hpayload, -⟩ := h
  simp only [Frame.length_headerBytes, sectionHeaderSize] at hheader hpayload
  have hread : readSectionHeader file cursor =
      .ok ⟨frame.kindRaw, frame.flags, frame.payload.length, frame.checksum⟩ :=
    readSectionHeader_eq_ok_iff.mpr ⟨by omega, by simp only; omega, hheader⟩
  simp only [scanSection, sectionHeaderSize, hread, bind_eq_ok_iff, okOr_eq_ok_iff,
    checkedAdd_eq_some_iff, rejectIf_eq_ok_iff, exists_const, not_lt, not_not, ne_eq,
    Except.ok.injEq, exists_eq_left']
  refine ⟨_, ⟨by omega, rfl⟩, by omega, haccepted.flags, haccepted.bounded, _,
    ⟨by omega, rfl⟩, by omega, ?_⟩
  cases hkind : SectionKind.fromRaw frame.kindRaw with
  | none =>
      obtain ⟨hrequired, hchecksum⟩ := haccepted.skipped hkind
      have hexact : readExactFormat file (cursor + 16) frame.payload.length "section payload" =
          .ok frame.payload := by
        rw [readExactFormat, slice?_of_le (by omega), hpayload, okOr_some]
      simp only [Frame.descriptor?, hkind, hrequired, verifySkippedPayload, hexact, hchecksum,
        bind_eq_ok_iff, rejectIf_eq_ok_iff, not_true, not_false_eq_true, exists_const, ok_bind,
        pure_eq_ok_iff, Option.map_none, Nat.add_assoc, and_self, ne_eq]
  | some kind => simp [Frame.descriptor?, hkind, sectionHeaderSize, Nat.add_assoc]

/-! ## The whole section loop -/

theorem scanSections_sound {count cursor : Nat} {sections : List SectionDescriptor} {last : Nat}
    (h : scanSections crc file count cursor = .ok (sections, last)) :
    ∃ frames : List Frame, ∃ rest, frames.length = count ∧ (∀ frame ∈ frames, frame.Accepted crc) ∧
      file.drop cursor = framesBytes frames ++ rest ∧
      sections = descriptorsFrom cursor frames ∧ last = cursor + (framesBytes frames).length := by
  induction count generalizing cursor sections with
  | zero =>
      cases h
      exact ⟨[], file.drop _, rfl, by simp, rfl, rfl, rfl⟩
  | succ count ih =>
      simp only [scanSections, bind_eq_ok_iff, Prod.exists, pure_eq_ok_iff, Prod.mk.injEq] at h
      obtain ⟨found, next, hscan, tail, last', hrest, rfl, rfl⟩ := h
      obtain ⟨frame, afterFrame, haccepted, hdrop, rfl, rfl⟩ := scanSection_sound hscan
      obtain ⟨frames, rest, hcount, hall, hframes, rfl, rfl⟩ := ih hrest
      refine ⟨frame :: frames, rest, by simp [hcount], ?_, ?_, rfl, ?_⟩
      · exact List.forall_mem_cons.mpr ⟨haccepted, hall⟩
      · rw [hdrop, framesBytes_cons, List.append_assoc, ← hframes]
        exact congrArg _ (drop_eq_append_iff.mp hdrop).2.symm
      · rw [framesBytes_cons, List.length_append, Nat.add_assoc]

theorem scanSections_complete {frames : List Frame} {cursor : Nat} {rest : Bytes}
    (haccepted : ∀ frame ∈ frames, frame.Accepted crc)
    (h : file.drop cursor = framesBytes frames ++ rest)
    (hsize : cursor + (framesBytes frames).length < 2 ^ 64) :
    scanSections crc file frames.length cursor =
      .ok (descriptorsFrom cursor frames, cursor + (framesBytes frames).length) := by
  induction frames generalizing cursor with
  | nil => rfl
  | cons frame frames ih =>
      rw [framesBytes_cons, List.length_append] at hsize
      rw [framesBytes_cons, List.append_assoc] at h
      have hscan := scanSection_complete (haccepted frame List.mem_cons_self) h (by omega)
      have hrest := ih (fun other hmem => haccepted other (List.mem_cons_of_mem frame hmem))
        (drop_eq_append_iff.mp h).2 (by omega)
      simp only [List.length_cons, scanSections, hscan, ok_bind, hrest]
      simp [descriptorsFrom, pure, Except.pure, Nat.add_assoc]

end Scan

/-- Accepted frames are short enough for every offset in them to be a 64-bit number. -/
theorem length_framesBytes_le {crc : Checksum} {frames : List Frame}
    (h : ∀ frame ∈ frames, frame.Accepted crc) :
    (framesBytes frames).length ≤ frames.length * (sectionHeaderSize + maxSectionBytes) := by
  induction frames with
  | nil => simp
  | cons frame frames ih =>
      have hhead := (h frame List.mem_cons_self).bounded
      have htail := ih fun other hmem => h other (List.mem_cons_of_mem frame hmem)
      rw [framesBytes_cons, List.length_append, Frame.length_bytes, List.length_cons,
        Nat.succ_mul]
      omega

/-! ## The layout reader -/

/-- The reader accepts a file exactly when it is a container of accepted frames, and
then it reports where they lie. -/
theorem readFrom_eq_ok_iff {crc : Checksum} {file : Bytes} {layout : FileLayout} :
    FileLayout.readFrom crc file = .ok layout ↔
      layout.fileLength = file.length ∧ ∃ frames : List Frame,
        frames.length ≤ maxSectionCount ∧ (∀ frame ∈ frames, frame.Accepted crc) ∧
        file = containerBytes crc layout.metadata frames ∧
        layout.sections = descriptorsFrom headerSize frames := by
  constructor
  · intro h
    simp only [FileLayout.readFrom, bind_eq_ok_iff, readExactFormat, okOr_eq_ok_iff,
      slice?_eq_some_iff, mapError_eq_ok_iff, Prod.exists, rejectIf_eq_ok_iff, exists_const,
      not_lt, not_not, ne_eq, pure_eq_ok_iff] at h
    obtain ⟨_, ⟨hheader, rfl⟩, metadata, count, hdecode, hcount, sections, cursor, hscan, rfl,
      rfl⟩ := h
    rw [decodeHeader_eq_ok_iff (length_window hheader)] at hdecode
    obtain ⟨frames, rest, hlength, haccepted, hframes, rfl, hcursor⟩ := scanSections_sound hscan
    have hrest : rest = [] := by
      have htotal := congrArg List.length hframes
      rw [List.length_drop, List.length_append, hcursor] at htotal
      exact List.eq_nil_of_length_eq_zero (by omega)
    refine ⟨rfl, frames, by omega, haccepted, ?_, rfl⟩
    rw [hrest, List.append_nil] at hframes
    rw [containerBytes, hlength, UInt32.ofNat_toNat, ← hdecode, ← hframes]
    exact @drop_eq_window_append _ 0 headerSize file
  · rintro ⟨hfileLength, frames, hcount, haccepted, hfile, hsections⟩
    have hsize := length_framesBytes_le haccepted
    have hbound : frames.length * (sectionHeaderSize + maxSectionBytes) ≤
        maxSectionCount * (sectionHeaderSize + maxSectionBytes) := Nat.mul_le_mul_right _ hcount
    have hlimit : headerSize + maxSectionCount * (sectionHeaderSize + maxSectionBytes) < 2 ^ 64 :=
      by decide
    have hword : (UInt32.ofNat frames.length).toNat = frames.length :=
      toNat_ofNat32 (by simp only [maxSectionCount] at hcount; omega)
    have hheader : slice? 0 headerSize file =
        some (encodeHeader crc layout.metadata (UInt32.ofNat frames.length)) := by
      rw [hfile, containerBytes, slice?_of_le (by simp), window_prefix (length_encodeHeader _ _ _)]
    have hdecode := (decodeHeader_eq_ok_iff (length_encodeHeader crc layout.metadata
      (UInt32.ofNat frames.length))).mpr rfl
    have hdrop : file.drop headerSize = framesBytes frames ++ [] := by
      rw [hfile, containerBytes, List.drop_left' (length_encodeHeader _ _ _), List.append_nil]
    have hscan := scanSections_complete haccepted hdrop (by omega)
    have hend : headerSize + (framesBytes frames).length = file.length := by
      rw [hfile, containerBytes, List.length_append, length_encodeHeader]
    simp only [FileLayout.readFrom, readExactFormat, hheader, okOr_some, ok_bind, hdecode,
      mapError_ok, hword, rejectIf_of_not (not_lt.mpr hcount), hscan, hend, ne_eq]
    rw [← hsections, ← hfileLength]
    rfl

/-! ## What the sections of a layout hold -/

/-- An understood section with the bytes it frames. -/
structure KnownSection where
  kind : SectionKind
  required : Bool
  checksum : UInt32
  payload : Bytes
  deriving DecidableEq, Repr

/-- The bytes a descriptor points at. -/
def SectionDescriptor.payloadIn (descriptor : SectionDescriptor) (file : Bytes) : Bytes :=
  window descriptor.payloadOffset descriptor.payloadLength file

/-- What a descriptor says about a file. -/
def SectionDescriptor.view (file : Bytes) (descriptor : SectionDescriptor) : KnownSection where
  kind := descriptor.kind
  required := descriptor.required
  checksum := descriptor.checksum
  payload := descriptor.payloadIn file

/-- The understood section a frame holds. -/
def Frame.known? (frame : Frame) : Option KnownSection :=
  (SectionKind.fromRaw frame.kindRaw).map fun kind => {
    kind
    required := decide (frame.flags &&& sectionFlagRequired ≠ 0)
    checksum := frame.checksum
    payload := frame.payload }

/-- The frame of an understood section. -/
def KnownSection.frame (known : KnownSection) : Frame where
  kindRaw := known.kind.asRaw
  flags := sectionFlags known.required
  checksum := known.checksum
  payload := known.payload

@[simp]
theorem KnownSection.known?_frame (known : KnownSection) : known.frame.known? = some known := by
  obtain ⟨kind, required, checksum, payload⟩ := known
  cases required <;>
    simp [Frame.known?, KnownSection.frame, sectionFlags, sectionFlagRequired]

theorem KnownSection.filterMap_frame (sections : List KnownSection) :
    (sections.map KnownSection.frame).filterMap Frame.known? = sections := by
  induction sections with
  | nil => rfl
  | cons known sections ih =>
      rw [List.map_cons, List.filterMap_cons_some known.known?_frame, ih]

theorem Frame.ofSection_eq_frame {crc : Checksum} {framed : Section} {kind : SectionKind}
    {required : Bool} {payload : Bytes} (hkind : framed.kind = kind)
    (hrequired : framed.required = required) (hpayload : framed.payload = payload) :
    Frame.ofSection crc framed =
      KnownSection.frame ⟨kind, required, crc.hash payload, payload⟩ := by
  rw [Frame.ofSection, hkind, hrequired, hpayload]
  rfl

theorem KnownSection.accepted_frame (crc : Checksum) {known : KnownSection}
    (h : known.payload.length ≤ maxSectionBytes) : known.frame.Accepted crc where
  flags := by
    cases hrequired : known.required <;>
      simp [KnownSection.frame, sectionFlags, sectionFlagRequired, knownSectionFlags, hrequired]
  bounded := h
  skipped := by simp [KnownSection.frame]

/-- A layout lies inside its file, and its file is addressable. -/
structure FileLayout.Describes (layout : FileLayout) (file : Bytes) : Prop where
  fileLength : layout.fileLength = file.length
  addressable : file.length < 2 ^ 64
  within : ∀ descriptor ∈ layout.sections,
    descriptor.payloadOffset + descriptor.payloadLength ≤ file.length

section Reading

variable {crc : Checksum} {file : Bytes} {layout : FileLayout} {descriptor : SectionDescriptor}

theorem descriptorsFrom_view {frames : List Frame} {offset : Nat} {rest : Bytes}
    (h : file.drop offset = framesBytes frames ++ rest) :
    (descriptorsFrom offset frames).map (SectionDescriptor.view file) =
        frames.filterMap Frame.known? ∧
      ∀ descriptor ∈ descriptorsFrom offset frames,
        descriptor.payloadOffset + descriptor.payloadLength ≤ offset + (framesBytes frames).length := by
  induction frames generalizing offset with
  | nil => simp [descriptorsFrom]
  | cons frame frames ih =>
      rw [framesBytes_cons, List.append_assoc] at h
      obtain ⟨htail, hwithin⟩ := ih (drop_eq_append_iff.mp h).2
      have hpayload : window (offset + sectionHeaderSize) frame.payload.length file =
          frame.payload := by
        rw [Frame.bytes, List.append_assoc] at h
        have hrest := (drop_eq_append_iff.mp h).2
        rw [Frame.length_headerBytes] at hrest
        exact (drop_eq_append_iff.mp hrest).1
      cases hkind : SectionKind.fromRaw frame.kindRaw with
      | none =>
          have hdescriptor : frame.descriptor? offset = none := by simp [Frame.descriptor?, hkind]
          have hknown : frame.known? = none := by simp [Frame.known?, hkind]
          simp only [descriptorsFrom, hdescriptor, Option.toList_none, List.nil_append, htail,
            List.filterMap_cons_none hknown, framesBytes_cons, List.length_append, true_and]
          intro descriptor hmem
          have := hwithin descriptor hmem
          omega
      | some kind =>
          have hknown : frame.known? = some ⟨kind, decide (frame.flags &&& sectionFlagRequired ≠ 0),
              frame.checksum, frame.payload⟩ := by rw [Frame.known?, hkind, Option.map_some]
          simp only [descriptorsFrom, Frame.descriptor?, hkind, Option.map_some, Option.toList_some,
            List.cons_append, List.nil_append, List.map_cons, htail,
            List.filterMap_cons_some hknown, framesBytes_cons, List.length_append,
            List.forall_mem_cons]
          refine ⟨?_, ?_, ?_⟩
          · rw [SectionDescriptor.view, SectionDescriptor.payloadIn, hpayload]
          · have := frame.length_bytes
            omega
          · intro descriptor hmem
            have := hwithin descriptor hmem
            omega

/-- An accepted file: its layout describes it, and the descriptors hold its understood
frames in order. -/
theorem readFrom_spec (h : FileLayout.readFrom crc file = .ok layout) :
    layout.Describes file ∧ ∃ frames : List Frame,
      frames.length ≤ maxSectionCount ∧ (∀ frame ∈ frames, frame.Accepted crc) ∧
      file = containerBytes crc layout.metadata frames ∧
      layout.sections.map (SectionDescriptor.view file) = frames.filterMap Frame.known? := by
  obtain ⟨hlength, frames, hcount, haccepted, hfile, hsections⟩ := readFrom_eq_ok_iff.mp h
  have hsize := length_framesBytes_le haccepted
  have hbound : frames.length * (sectionHeaderSize + maxSectionBytes) ≤
      maxSectionCount * (sectionHeaderSize + maxSectionBytes) := Nat.mul_le_mul_right _ hcount
  have hlimit : headerSize + maxSectionCount * (sectionHeaderSize + maxSectionBytes) < 2 ^ 64 :=
    by decide
  have hend : headerSize + (framesBytes frames).length = file.length := by
    rw [hfile, containerBytes, List.length_append, length_encodeHeader]
  have hdrop : file.drop headerSize = framesBytes frames ++ [] := by
    rw [hfile, containerBytes, List.drop_left' (length_encodeHeader _ _ _), List.append_nil]
  obtain ⟨hview, hwithin⟩ := descriptorsFrom_view hdrop
  refine ⟨⟨hlength, by omega, ?_⟩, frames, hcount, haccepted, hfile, ?_⟩
  · rw [hsections, ← hend]
    exact hwithin
  · rw [hsections, hview]

/-- The sections of an accepted file keep the limit of the format. -/
theorem length_payload_le_of_readFrom (h : FileLayout.readFrom crc file = .ok layout)
    {known : KnownSection} (hknown : known ∈ layout.sections.map (SectionDescriptor.view file)) :
    known.payload.length ≤ maxSectionBytes := by
  obtain ⟨_, frames, _, haccepted, _, hsections⟩ := readFrom_spec h
  rw [hsections, List.mem_filterMap] at hknown
  obtain ⟨frame, hframe, hsome⟩ := hknown
  obtain ⟨kind, _, rfl⟩ := Option.map_eq_some_iff.mp hsome
  exact (haccepted frame hframe).bounded

/-- A container of accepted frames is accepted, with its understood frames as sections. -/
theorem readFrom_containerBytes {metadata : IndexMetadata} {frames : List Frame}
    (hcount : frames.length ≤ maxSectionCount) (haccepted : ∀ frame ∈ frames, frame.Accepted crc) :
    ∃ layout, FileLayout.readFrom crc (containerBytes crc metadata frames) = .ok layout ∧
      layout.metadata = metadata ∧ layout.Describes (containerBytes crc metadata frames) ∧
      layout.sections.map (SectionDescriptor.view (containerBytes crc metadata frames)) =
        frames.filterMap Frame.known? := by
  have hread := readFrom_eq_ok_iff.mpr (⟨rfl, frames, hcount, haccepted, rfl, rfl⟩ :
    (FileLayout.mk metadata (descriptorsFrom headerSize frames)
      (containerBytes crc metadata frames).length).fileLength = _ ∧ _)
  have hdrop : (containerBytes crc metadata frames).drop headerSize = framesBytes frames ++ [] := by
    rw [containerBytes, List.drop_left' (length_encodeHeader _ _ _), List.append_nil]
  exact ⟨_, hread, rfl, (readFrom_spec hread).1, (descriptorsFrom_view hdrop).1⟩

/-- A range inside a section is read from its payload; any other range is refused. -/
theorem readSectionRange_eq_ok_iff (h : layout.Describes file)
    (hmem : descriptor ∈ layout.sections) {offset length : Nat} {part : Bytes} :
    layout.readSectionRange file descriptor offset length = .ok part ↔
      offset + length ≤ descriptor.payloadLength ∧
        window offset length (descriptor.payloadIn file) = part := by
  have hwithin := h.within descriptor hmem
  have hlength := h.fileLength
  have haddressable := h.addressable
  simp only [FileLayout.readSectionRange, readExactFormat, bind_eq_ok_iff, okOr_eq_ok_iff,
    checkedAdd_eq_some_iff, rejectIf_eq_ok_iff, exists_const, not_lt, slice?_eq_some_iff]
  constructor
  · rintro ⟨_, ⟨_, rfl⟩, hrange, _, ⟨_, rfl⟩, _, _, _, _, rfl⟩
    exact ⟨hrange, window_window hrange⟩
  · rintro ⟨hrange, rfl⟩
    exact ⟨_, ⟨by omega, rfl⟩, hrange, _, ⟨by omega, rfl⟩, _, ⟨by omega, rfl⟩, by omega, by omega,
      (window_window hrange).symm⟩

/-- A complete section is its payload, provided the stored checksum matches. -/
theorem readSection_eq_ok_iff (h : layout.Describes file) (hmem : descriptor ∈ layout.sections)
    {payload : Bytes} :
    layout.readSection crc file descriptor = .ok payload ↔
      descriptor.payloadIn file = payload ∧ crc.hash payload = descriptor.checksum := by
  have hself : window 0 descriptor.payloadLength (descriptor.payloadIn file) =
      descriptor.payloadIn file := window_self (length_window (h.within descriptor hmem))
  simp only [FileLayout.readSection, bind_eq_ok_iff, readSectionRange_eq_ok_iff h hmem,
    rejectIf_eq_ok_iff, exists_const, pure_eq_ok_iff, not_not, ne_eq, hself, Nat.zero_add, le_refl,
    true_and]
  constructor
  · rintro ⟨_, rfl, hchecksum, rfl⟩
    exact ⟨rfl, hchecksum⟩
  · rintro ⟨rfl, hchecksum⟩
    exact ⟨_, rfl, hchecksum, rfl⟩

theorem length_payloadIn (h : layout.Describes file) (hmem : descriptor ∈ layout.sections) :
    (descriptor.payloadIn file).length = descriptor.payloadLength :=
  length_window (h.within descriptor hmem)

end Reading

/-! ## Encoding a container in memory -/

@[simp]
theorem Frame.ofSection_known? (crc : Checksum) (framed : Section) :
    (Frame.ofSection crc framed).known? =
      some ⟨framed.kind, framed.required, crc.hash framed.payload, framed.payload⟩ :=
  KnownSection.known?_frame ⟨framed.kind, framed.required, crc.hash framed.payload, framed.payload⟩

theorem Frame.ofSection_accepted (crc : Checksum) (framed : Section) :
    (Frame.ofSection crc framed).Accepted crc :=
  @KnownSection.accepted_frame crc
    ⟨framed.kind, framed.required, crc.hash framed.payload, framed.payload⟩ framed.bounded

theorem encodeSection_eq_ok (crc : Checksum) (framed : Section) :
    encodeSection crc framed = .ok (Frame.ofSection crc framed).bytes := by
  rw [encodeSection, rejectIf_of_not (not_lt.mpr framed.bounded), ok_bind]
  simp only [Frame.bytes, Frame.headerBytes, Frame.ofSection, List.append_assoc]
  rfl

/-- The total length of sections under their limits does not overflow. -/
theorem encodedLength_eq_ok {crc : Checksum} {sections : List Section} {total : Nat}
    (h : total + (framesBytes (sections.map (Frame.ofSection crc))).length < 2 ^ 64) :
    sections.foldlM (fun total framed =>
      okOr ((checkedAdd total sectionHeaderSize).bind (checkedAdd · framed.payload.length))
        FormatError.lengthOverflow) total =
      .ok (total + (framesBytes (sections.map (Frame.ofSection crc))).length) := by
  induction sections generalizing total with
  | nil => rfl
  | cons framed sections ih =>
      have hbytes : (Frame.ofSection crc framed).bytes.length =
          sectionHeaderSize + framed.payload.length := Frame.length_bytes _
      rw [List.map_cons, framesBytes_cons, List.length_append, hbytes] at h ⊢
      have hstep : (checkedAdd total sectionHeaderSize).bind (checkedAdd · framed.payload.length) =
          some (total + sectionHeaderSize + framed.payload.length) := by
        rw [checkedAdd_of_lt (by omega), Option.bind_some, checkedAdd_of_lt (by omega)]
      rw [List.foldlM_cons, hstep, okOr_some, ok_bind, ih (by omega)]
      exact congrArg Except.ok (by omega)

/-- Encoding a container value never fails. -/
theorem IndexFile.encode_eq_ok (crc : Checksum) (file : IndexFile) :
    file.encode crc =
      .ok (containerBytes crc file.metadata (file.sections.map (Frame.ofSection crc))) := by
  have haccepted : ∀ frame ∈ file.sections.map (Frame.ofSection crc), frame.Accepted crc := by
    intro frame hmem
    obtain ⟨framed, _, rfl⟩ := List.mem_map.mp hmem
    exact Frame.ofSection_accepted crc framed
  have hsize := length_framesBytes_le haccepted
  rw [List.length_map] at hsize
  have hbound : file.sections.length * (sectionHeaderSize + maxSectionBytes) ≤
      maxSectionCount * (sectionHeaderSize + maxSectionBytes) :=
    Nat.mul_le_mul_right _ file.bounded
  have hlimit : headerSize + maxSectionCount * (sectionHeaderSize + maxSectionBytes) < 2 ^ 64 :=
    by decide
  have hcount : file.sections.length < 2 ^ 32 :=
    lt_of_le_of_lt file.bounded (by decide)
  have hframes : file.sections.mapM (encodeSection crc) = .ok _ :=
    mapM_eq_ok_map fun framed _ => encodeSection_eq_ok crc framed
  have htotal := encodedLength_eq_ok (show
    headerSize + (framesBytes (file.sections.map (Frame.ofSection crc))).length < 2 ^ 64 by omega)
  simp only [IndexFile.encode, tryU32_of_lt hcount, okOr_some, ok_bind, htotal, hframes]
  rw [containerBytes, List.length_map, framesBytes, List.flatMap_def, List.map_map]
  rfl

end Pari.Format
