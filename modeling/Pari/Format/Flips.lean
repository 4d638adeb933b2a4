/-
# Flipped bits in a container

What one flipped bit makes of a container that the layout reader still accepts. The header is
covered by its checksum, so the damage lies in one frame: behind a correct length field only
that frame changes, and a damaged length field frames the same bytes differently. The header
and the directory of a bucket segment are covered too, so a segment that still decodes differs
in its members at most.
-/

import Pari.Data.BitFlip
import Pari.Format.SegmentReads

namespace Pari.Format

open Data

/-- A frame damaged behind a correct length field. -/
inductive Frame.Damaged (frame : Frame) : Frame → Prop
  | kindRaw {kindRaw : UInt16} (h : kindRaw ≠ frame.kindRaw) : Damaged frame { frame with kindRaw }
  | flags {flags : UInt16} (h : flags ≠ frame.flags) : Damaged frame { frame with flags }
  | checksum {checksum : UInt32} (h : checksum ≠ frame.checksum) :
      Damaged frame { frame with checksum }
  | payload {payload : Bytes} (h : OneBit frame.payload payload) : Damaged frame { frame with payload }

/-- The same bytes behind another length field. -/
structure Frame.Reframed (frame : Frame) (after : List Frame) (frame' : Frame)
    (after' : List Frame) : Prop where
  kindRaw : frame'.kindRaw = frame.kindRaw
  flags : frame'.flags = frame.flags
  checksum : frame'.checksum = frame.checksum
  length : frame'.payload.length ≠ frame.payload.length
  bytes : frame'.payload ++ framesBytes after' = frame.payload ++ framesBytes after

/-- What one flipped bit makes of a list of frames. -/
inductive FlippedFrames : List Frame → List Frame → Prop
  | damaged (before : List Frame) {frame frame' : Frame} (after : List Frame)
      (h : frame.Damaged frame') : FlippedFrames (before ++ frame :: after) (before ++ frame' :: after)
  | reframed (before : List Frame) {frame frame' : Frame} {after after' : List Frame}
      (h : frame.Reframed after frame' after') :
      FlippedFrames (before ++ frame :: after) (before ++ frame' :: after')

section Containers

variable {crc : Checksum}

/-- A flipped bit of a header shows. -/
theorem encodeHeader_eq_of_flip (hcrc : crc.DetectsFlips) {metadata metadata' : IndexMetadata}
    {count count' : UInt32}
    (h : AtMostOneBit (encodeHeader crc metadata count) (encodeHeader crc metadata' count')) :
    encodeHeader crc metadata' count' = encodeHeader crc metadata count := by
  have hfields : headerFields metadata' count' = headerFields metadata count :=
    hcrc.eq_of_checksummed (by simp) h
  rw [encodeHeader, encodeHeader, hfields]

theorem FlippedFrames.cons {frames frames' : List Frame} (h : FlippedFrames frames frames')
    (frame : Frame) : FlippedFrames (frame :: frames) (frame :: frames') := by
  cases h with
  | damaged before after h => exact .damaged (frame :: before) after h
  | reframed before h => exact .reframed (frame :: before) h

/-- One flipped bit changes one field of a frame header. -/
theorem headerBytes_cases {frame frame' : Frame} (hbounded : frame.payload.length < 2 ^ 64)
    (hbounded' : frame'.payload.length < 2 ^ 64)
    (h : OneBit frame.headerBytes frame'.headerBytes) :
    (frame'.flags = frame.flags ∧ frame'.checksum = frame.checksum ∧
        frame'.kindRaw = frame.kindRaw ∧ frame'.payload.length ≠ frame.payload.length) ∨
      frame'.payload.length = frame.payload.length ∧
        ((frame'.kindRaw ≠ frame.kindRaw ∧ frame'.flags = frame.flags ∧
            frame'.checksum = frame.checksum) ∨
          (frame'.kindRaw = frame.kindRaw ∧ frame'.flags ≠ frame.flags ∧
            frame'.checksum = frame.checksum) ∨
          (frame'.kindRaw = frame.kindRaw ∧ frame'.flags = frame.flags ∧
            frame'.checksum ≠ frame.checksum)) := by
  rcases h.append_cases (by simp) with ⟨hkind, hrest⟩ | ⟨hkind, h⟩
  · obtain ⟨hflags, hrest⟩ := List.append_inj hrest (by simp)
    obtain ⟨hlength, hchecksum⟩ := List.append_inj hrest (by simp)
    exact Or.inr ⟨length_inj_of_u64Bytes hbounded' hbounded hlength, Or.inl ⟨fun heq => hkind.ne (by rw [heq]),
      u16Bytes_injective hflags, u32Bytes_injective hchecksum⟩⟩
  rcases h.append_cases (by simp) with ⟨hflags, hrest⟩ | ⟨hflags, h⟩
  · obtain ⟨hlength, hchecksum⟩ := List.append_inj hrest (by simp)
    exact Or.inr ⟨length_inj_of_u64Bytes hbounded' hbounded hlength, Or.inr (Or.inl ⟨u16Bytes_injective hkind,
      fun heq => hflags.ne (by rw [heq]), u32Bytes_injective hchecksum⟩)⟩
  rcases h.append_cases (by simp) with ⟨hlength, hchecksum⟩ | ⟨hlength, hchecksum⟩
  · exact Or.inl ⟨u16Bytes_injective hflags, u32Bytes_injective hchecksum,
      u16Bytes_injective hkind, fun heq => hlength.ne (by rw [heq])⟩
  · exact Or.inr ⟨length_inj_of_u64Bytes hbounded' hbounded hlength, Or.inr (Or.inr ⟨u16Bytes_injective hkind,
      u16Bytes_injective hflags, fun heq => hchecksum.ne (by rw [heq])⟩)⟩

/-- One flipped bit in the bytes of as many bounded frames. -/
theorem flippedFrames_of_oneBit {frames frames' : List Frame} (hcount : frames'.length = frames.length)
    (hbounded : ∀ frame ∈ frames, frame.payload.length ≤ maxSectionBytes)
    (hbounded' : ∀ frame ∈ frames', frame.payload.length ≤ maxSectionBytes)
    (h : OneBit (framesBytes frames) (framesBytes frames')) : FlippedFrames frames frames' := by
  have hlimit : maxSectionBytes < 2 ^ 64 := by decide
  induction frames generalizing frames' with
  | nil =>
      obtain rfl := List.length_eq_zero_iff.mp hcount
      exact absurd rfl h.ne
  | cons frame frames ih =>
      cases frames' with
      | nil => cases hcount
      | cons frame' frames' =>
          rw [List.forall_mem_cons] at hbounded hbounded'
          have hsmall : frame.payload.length < 2 ^ 64 := by omega
          have hsmall' : frame'.payload.length < 2 ^ 64 := by omega
          -- Equal bytes behind this frame are equal frames.
          have hrest : framesBytes frames' = framesBytes frames → frames' = frames := fun heq =>
            (framesBytes_append_inj (addressable_of_bounded hbounded'.2)
              (addressable_of_bounded hbounded.2) (Nat.succ.inj hcount) (congrArg (· ++ []) heq)).1
          rw [framesBytes_cons, framesBytes_cons, Frame.bytes, Frame.bytes, List.append_assoc,
            List.append_assoc] at h
          obtain ⟨kindRaw, flags, checksum, payload⟩ := frame
          obtain ⟨kindRaw', flags', checksum', payload'⟩ := frame'
          rcases h.append_cases (by simp) with ⟨hheader, htail⟩ | ⟨hheader, h⟩
          · rcases headerBytes_cases hsmall hsmall' hheader with
              ⟨rfl, rfl, rfl, hlength⟩ | ⟨hlength, hfield⟩
            · exact .reframed [] ⟨rfl, rfl, rfl, hlength, htail⟩
            · obtain ⟨rfl, hframes⟩ := List.append_inj htail hlength
              obtain rfl := hrest hframes
              rcases hfield with ⟨hkind, rfl, rfl⟩ | ⟨rfl, hflags, rfl⟩ | ⟨rfl, rfl, hchecksum⟩
              · exact .damaged [] frames' (.kindRaw hkind)
              · exact .damaged [] frames' (.flags hflags)
              · exact .damaged [] frames' (.checksum hchecksum)
          · obtain ⟨rfl, rfl, hlength, rfl⟩ := Frame.headerBytes_inj hsmall' hsmall hheader
            rcases h.append_cases hlength with ⟨hpayload, hframes⟩ | ⟨rfl, hlater⟩
            · obtain rfl := hrest hframes
              exact .damaged [] frames' (.payload hpayload)
            · exact (ih (Nat.succ.inj hcount) hbounded.2 hbounded'.2 hlater).cons _

/-- The damage of a container that is still accepted lies in its frames. -/
theorem flippedFrames_of_container (hcrc : crc.DetectsFlips) {metadata metadata' : IndexMetadata}
    {frames frames' : List Frame} (hcount : frames.length ≤ maxSectionCount)
    (hcount' : frames'.length ≤ maxSectionCount) (haccepted : ∀ frame ∈ frames, frame.Accepted crc)
    (haccepted' : ∀ frame ∈ frames', frame.Accepted crc)
    (h : OneBit (containerBytes crc metadata frames) (containerBytes crc metadata' frames')) :
    metadata' = metadata ∧ FlippedFrames frames frames' := by
  rcases h.append_cases (by simp) with ⟨hheader, _⟩ | ⟨hheader, hframes⟩
  · exact absurd (encodeHeader_eq_of_flip hcrc (Or.inr hheader)).symm hheader.ne
  · obtain ⟨hmetadata, hword⟩ := encodeHeader_injective hheader
    have hlimit : maxSectionCount < 2 ^ 32 := by decide
    have hlength := congrArg UInt32.toNat hword
    rw [toNat_ofNat32 (by omega), toNat_ofNat32 (by omega)] at hlength
    exact ⟨hmetadata, flippedFrames_of_oneBit hlength (fun frame hmem => (haccepted frame hmem).bounded)
      (fun frame hmem => (haccepted' frame hmem).bounded) hframes⟩

end Containers

/-! ## Bucket segments -/

section Segments

variable {crc : Checksum} {written written' : List BucketWriteRecord}

theorem directoryEntries_injective {offset : Nat} (hlength : written.length = written'.length)
    (h : (directoryEntries offset written).flatten = (directoryEntries offset written').flatten) :
    written = written' := by
  induction written generalizing offset written' with
  | nil => exact (List.length_eq_zero_iff.mp hlength.symm).symm
  | cons record written ih =>
      cases written' with
      | nil => cases hlength
      | cons record' written' =>
          rw [directoryEntries, directoryEntries, List.flatten_cons, List.flatten_cons] at h
          obtain ⟨hentry, hrest⟩ := List.append_inj h (by simp)
          obtain ⟨hband, hentry⟩ := List.append_inj hentry (by simp)
          obtain ⟨_, hentry⟩ := List.append_inj hentry (by simp)
          obtain ⟨hhash, hentry⟩ := List.append_inj hentry (by simp)
          obtain ⟨_, hentry⟩ := List.append_inj hentry (by simp)
          obtain ⟨hcount, hchecksum⟩ := List.append_inj hentry (by simp)
          obtain ⟨⟨band, hash⟩, count, checksum⟩ := record
          obtain ⟨⟨band', hash'⟩, count', checksum'⟩ := record'
          obtain rfl := u32Bytes_injective hband
          obtain rfl := u64Bytes_injective hhash
          obtain rfl := u32Bytes_injective hcount
          obtain rfl := u32Bytes_injective hchecksum
          rw [ih (Nat.succ.inj hlength) hrest]

theorem segmentHeaderFields_injective {count count' directoryBytes directoryBytes' : UInt64}
    {directoryChecksum directoryChecksum' : UInt32}
    (h : segmentHeaderFields count directoryBytes directoryChecksum =
      segmentHeaderFields count' directoryBytes' directoryChecksum') :
    count = count' ∧ directoryChecksum = directoryChecksum' := by
  obtain ⟨_, h⟩ := List.append_inj h rfl
  obtain ⟨_, h⟩ := List.append_inj h rfl
  obtain ⟨_, h⟩ := List.append_inj h rfl
  obtain ⟨hcount, h⟩ := List.append_inj h (by simp)
  obtain ⟨_, hchecksum⟩ := List.append_inj h (by simp)
  exact ⟨u64Bytes_injective hcount, u32Bytes_injective hchecksum⟩

/-- A segment that still has a correct header and directory has the same ones: only its
members can be damaged. -/
theorem segmentPrefix_eq_of_flip (hcrc : crc.DetectsFlips) {members members' : Bytes}
    (hcount : written.length < 2 ^ 64) (hcount' : written'.length < 2 ^ 64)
    (h : AtMostOneBit (segmentPrefix crc written ++ members)
      (segmentPrefix crc written' ++ members')) :
    written' = written ∧ AtMostOneBit members members' := by
  rw [segmentPrefix, segmentPrefix, List.append_assoc, List.append_assoc] at h
  obtain ⟨hheader, hrest⟩ := h.of_append (by simp)
  obtain ⟨hword, hchecksum⟩ :=
    segmentHeaderFields_injective (hcrc.eq_of_checksummed (by simp) hheader)
  have hlength := congrArg UInt64.toNat hword
  rw [toNat_ofNat64 hcount', toNat_ofNat64 hcount] at hlength
  obtain ⟨hdirectory, hmembers⟩ := hrest.of_append (by simp [hlength])
  have hsame : segmentDirectory written' = segmentDirectory written :=
    hcrc.eq_of_hash hdirectory hchecksum
  rw [segmentDirectory, segmentDirectory, hlength] at hsame
  exact ⟨directoryEntries_injective hlength hsame, hmembers⟩

/-- The directory of a segment is determined by the bytes it starts with. -/
theorem segmentPrefix_append_inj {rest rest' : Bytes} (hcount : written.length < 2 ^ 64)
    (hcount' : written'.length < 2 ^ 64)
    (h : segmentPrefix crc written ++ rest = segmentPrefix crc written' ++ rest') :
    written = written' := by
  rw [segmentPrefix, segmentPrefix, List.append_assoc, List.append_assoc] at h
  obtain ⟨hheader, hrest⟩ := List.append_inj h (by simp)
  obtain ⟨hword, _⟩ := segmentHeaderFields_injective (List.append_inj hheader (by simp)).1
  have hlength := congrArg UInt64.toNat hword
  rw [toNat_ofNat64 hcount, toNat_ofNat64 hcount'] at hlength
  obtain ⟨hdirectory, _⟩ := List.append_inj hrest (by simp [hlength])
  rw [segmentDirectory, segmentDirectory, hlength] at hdirectory
  exact directoryEntries_injective hlength hdirectory

/-! ## Members -/

variable {layout : FileLayout} {file : Bytes} {descriptor : SectionDescriptor}
  {records : List BucketRecord}

/-- A member list with a flipped bit does not read. -/
theorem locationsFrom_mayRead (hcrc : crc.DetectsFlips) (h : layout.Describes file)
    (hmem : descriptor ∈ layout.sections)
    (hcounts : ∀ record ∈ records, record.members.length < 2 ^ 32) {offset : Nat}
    (hdrop : AtMostOneBit (segmentMembers records) ((descriptor.payloadIn file).drop offset)) :
    List.Forall₂ (MayReadAs crc layout file) records
      (locationsFrom descriptor offset (records.map (BucketRecord.writeRecord crc))) := by
  induction records generalizing offset with
  | nil => exact .nil
  | cons record records ih =>
      rw [List.forall_mem_cons] at hcounts
      have hcount : (UInt32.ofNat record.members.length).toNat = record.members.length :=
        toNat_ofNat32 hcounts.1
      have hlength : (record.writeRecord crc).memberLength = record.members.length * 8 := by
        rw [BucketWriteRecord.memberLength, BucketRecord.writeRecord, hcount]
      have htotal := hdrop.length_eq
      rw [segmentMembers_cons, List.length_append, length_memberBytes, List.length_drop] at htotal
      rw [segmentMembers_cons, @drop_eq_window_append _ offset (record.members.length * 8)] at hdrop
      obtain ⟨hwindow, hrest⟩ := hdrop.of_append (by
        by_cases hempty : record.members.length = 0
        · simp [hempty, window]
        · rw [length_window (by omega), length_memberBytes])
      rw [List.map_cons, locationsFrom, hlength]
      refine .cons ⟨rfl, fun members hread => ?_⟩ (ih hcounts.2 hrest)
      obtain ⟨_, hbytes, hchecksum⟩ := (readBucketMembers_eq_ok_iff h hmem).mp hread
      simp only [BucketRecord.writeRecord, hcount] at hbytes hchecksum
      rw [hbytes] at hwindow
      exact u64List_injective (hcrc.eq_of_hash hwindow hchecksum)

/-- The locations of a damaged segment that still decodes are those of its records, and
damaged members do not read. -/
theorem mayRead_of_flip (hcrc : crc.DetectsFlips) (h : layout.Describes file)
    (hmem : descriptor ∈ layout.sections) {bands : Nat} {locations : List BucketLocation}
    (hcounts : ∀ record ∈ records, record.members.length < 2 ^ 32)
    (hpayload : AtMostOneBit (segmentBytes crc records) (descriptor.payloadIn file))
    (hdecode : decodeBucketSegment crc layout file descriptor bands = .ok locations) :
    List.Forall₂ (MayReadAs crc layout file) records locations := by
  obtain ⟨_, _, _, written, members, hbytes, _, _, _, rfl⟩ :=
    (decodeBucketSegment_eq_ok_iff h hmem).mp hdecode
  have hlength := length_payloadIn h hmem
  have hwithin := h.within descriptor hmem
  have haddressable := h.addressable
  have htotal := hpayload.length_eq
  have hlimit : bucketDirectoryEntryBytes = 32 := rfl
  rw [length_segmentBytes, segmentLength, memberStart, hlimit] at htotal
  have hwritten := congrArg List.length hbytes
  rw [List.length_append, length_segmentPrefix, memberStart, hlimit] at hwritten
  rw [hbytes, segmentBytes] at hpayload
  obtain ⟨rfl, hmembers⟩ :=
    segmentPrefix_eq_of_flip hcrc (by rw [List.length_map]; omega) (by omega) hpayload
  refine locationsFrom_mayRead hcrc h hmem hcounts ?_
  rw [hbytes, List.drop_left' (length_segmentPrefix crc _)]
  exact hmembers

end Segments

end Pari.Format
