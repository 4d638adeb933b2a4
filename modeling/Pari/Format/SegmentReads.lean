/-
# Segments read back

A section that holds the segment of some records decodes to locations that read back as the
records, and a section whose locations all read back holds the segment of what was read. So
the encoding of a segment is canonical, and its member lists tile the payload.
-/

import Pari.Format.Decode
import Pari.Format.Segments

namespace Pari.Format

open Data

/-- A location reads back as a record. -/
structure ReadsAs (crc : Checksum) (layout : FileLayout) (file : Bytes) (record : BucketRecord)
    (location : BucketLocation) : Prop where
  key : location.key = record.key
  members : readBucketMembers crc layout file location = .ok record.members

/-- A location that reads back as a record, if it reads back at all. -/
structure MayReadAs (crc : Checksum) (layout : FileLayout) (file : Bytes) (record : BucketRecord)
    (location : BucketLocation) : Prop where
  key : location.key = record.key
  members : ∀ members, readBucketMembers crc layout file location = .ok members →
    members = record.members

theorem ReadsAs.mayReadAs {crc : Checksum} {layout : FileLayout} {file : Bytes}
    {record : BucketRecord} {location : BucketLocation}
    (h : ReadsAs crc layout file record location) : MayReadAs crc layout file record location where
  key := h.key
  members _ hread := Except.ok.inj (hread.symm.trans h.members)

/-- A descriptor of a section that holds the segment of a group of records. -/
structure HoldsSegment (crc : Checksum) (layout : FileLayout) (file : Bytes) (bands : Nat)
    (records : List BucketRecord) (descriptor : SectionDescriptor) : Prop where
  mem : descriptor ∈ layout.sections
  kind : descriptor.kind = .buckets
  required : descriptor.required = true
  payload : descriptor.payloadIn file = segmentBytes crc records
  ascending : Ascending (records.map (·.key))
  counts : ∀ record ∈ records, record.members.length < 2 ^ 32
  bands : ∀ record ∈ records, record.key.band.toNat < bands

section Reading

variable {crc : Checksum} {layout : FileLayout} {file : Bytes} {bands : Nat}
  {records : List BucketRecord} {descriptor : SectionDescriptor} {locations : List BucketLocation}

theorem ReadsAs.keys_eq (h : List.Forall₂ (ReadsAs crc layout file) records locations) :
    locations.map (·.key) = records.map (·.key) := by
  induction h with
  | nil => rfl
  | cons hreads _ ih => rw [List.map_cons, List.map_cons, ih, hreads.key]

/-- The members of consecutive records lie back to back behind their offset. -/
theorem locationsFrom_reads (h : layout.Describes file) (hmem : descriptor ∈ layout.sections)
    (hcounts : ∀ record ∈ records, record.members.length < 2 ^ 32) {offset : Nat}
    (hend : offset + (segmentMembers records).length = descriptor.payloadLength)
    (hdrop : (descriptor.payloadIn file).drop offset = segmentMembers records) :
    List.Forall₂ (ReadsAs crc layout file) records
      (locationsFrom descriptor offset (records.map (BucketRecord.writeRecord crc))) := by
  induction records generalizing offset with
  | nil => exact .nil
  | cons record records ih =>
      rw [List.forall_mem_cons] at hcounts
      have hcount : (UInt32.ofNat record.members.length).toNat = record.members.length :=
        toNat_ofNat32 hcounts.1
      have hlength : (record.writeRecord crc).memberLength = record.members.length * 8 := by
        rw [BucketWriteRecord.memberLength, BucketRecord.writeRecord, hcount]
      rw [segmentMembers_cons, List.length_append, length_memberBytes] at hend
      rw [segmentMembers_cons, drop_eq_append_iff, length_memberBytes] at hdrop
      refine .cons ⟨rfl, ?_⟩ (ih hcounts.2 ?_ ?_)
      · refine (readBucketMembers_eq_ok_iff h hmem).mpr ⟨?_, ?_, rfl⟩
        · simp only [BucketLocation.memberEnd, BucketRecord.writeRecord, hcount]
          omega
        · simp only [BucketRecord.writeRecord, hcount]
          exact hdrop.1
      · rw [hlength]
        omega
      · rw [hlength]
        exact hdrop.2

/-- Decoding the segment of a group gives locations that read back as the group. -/
theorem decodeBucketSegment_of_segment (h : layout.Describes file) (hbands : bands < 2 ^ 32)
    (hsegment : HoldsSegment crc layout file bands records descriptor) :
    ∃ locations, decodeBucketSegment crc layout file descriptor bands = .ok locations ∧
      List.Forall₂ (ReadsAs crc layout file) records locations := by
  have hmembers := @memberTotal_writeRecord crc records hsegment.counts
  refine ⟨_, (decodeBucketSegment_eq_ok_iff h hsegment.mem).mpr ⟨hsegment.kind, hsegment.required,
    hbands, records.map (BucketRecord.writeRecord crc), segmentMembers records, hsegment.payload,
    hmembers.symm, ?_, ?_, rfl⟩, ?_⟩
  · rw [List.map_map]
    exact hsegment.ascending
  · simpa [BucketRecord.writeRecord] using hsegment.bands
  · have hprefix := length_segmentPrefix crc (records.map (BucketRecord.writeRecord crc))
    refine locationsFrom_reads h hsegment.mem hsegment.counts ?_ ?_
    · rw [← length_payloadIn h hsegment.mem, hsegment.payload, segmentBytes, List.length_append,
        hprefix]
    · rw [hsegment.payload, segmentBytes, List.drop_left' hprefix]

/-- Locations that read back were written for what was read. -/
theorem locationsFrom_of_reads (h : layout.Describes file) (hmem : descriptor ∈ layout.sections)
    {offset : Nat} {written : List BucketWriteRecord}
    (hreads : List.Forall₂ (ReadsAs crc layout file) records
      (locationsFrom descriptor offset written)) :
    written = records.map (BucketRecord.writeRecord crc) ∧
      window offset (memberTotal written) (descriptor.payloadIn file) = segmentMembers records ∧
      ∀ record ∈ records, record.members.length < 2 ^ 32 := by
  induction written generalizing offset records with
  | nil =>
      rw [locationsFrom, List.forall₂_nil_right_iff] at hreads
      subst hreads
      exact ⟨rfl, rfl, by simp⟩
  | cons first written ih =>
      rw [locationsFrom, List.forall₂_cons_right_iff] at hreads
      obtain ⟨record, records, hrecord, hrest, rfl⟩ := hreads
      obtain ⟨rfl, hmembers, hcounts⟩ := ih hrest
      obtain ⟨hend, hwindow, hchecksum⟩ := (readBucketMembers_eq_ok_iff h hmem).mp hrecord.members
      simp only [BucketLocation.memberEnd] at hend hwindow hchecksum
      have hcount : record.members.length = first.memberCount.toNat := by
        have hlength := congrArg List.length hwindow
        rw [length_window (by rw [length_payloadIn h hmem]; exact hend), length_u64List] at hlength
        omega
      have hfirst : first = record.writeRecord crc := by
        have hkey : first.key = record.key := hrecord.key
        cases first
        simp only at hkey hcount hchecksum
        rw [BucketRecord.writeRecord, hcount, UInt32.ofNat_toNat, hkey, BucketRecord.memberBytes,
          hchecksum]
      have hlength : first.memberLength = record.members.length * 8 := by
        rw [BucketWriteRecord.memberLength, hcount]
      refine ⟨by rw [hfirst, List.map_cons], ?_, List.forall_mem_cons.mpr ⟨?_, hcounts⟩⟩
      · show window offset (first.memberLength + memberTotal _) _ = _
        rw [window_add, hmembers, segmentMembers_cons, BucketRecord.memberBytes, ← hwindow]
        rfl
      · rw [hcount]
        exact first.memberCount.toNat_lt

/-- A decoded section whose locations all read back holds the segment of what was read. -/
theorem holdsSegment_of_reads (h : layout.Describes file) (hmem : descriptor ∈ layout.sections)
    (hdecode : decodeBucketSegment crc layout file descriptor bands = .ok locations)
    (hreads : List.Forall₂ (ReadsAs crc layout file) records locations) :
    HoldsSegment crc layout file bands records descriptor := by
  obtain ⟨hkind, hrequired, _, written, members, hpayload, hlength, hascending, hbands, rfl⟩ :=
    (decodeBucketSegment_eq_ok_iff h hmem).mp hdecode
  obtain ⟨rfl, hmembers, hcounts⟩ := locationsFrom_of_reads h hmem hreads
  refine ⟨hmem, hkind, hrequired, ?_, ?_, hcounts, ?_⟩
  · have hprefix := length_segmentPrefix crc (records.map (BucketRecord.writeRecord crc))
    rw [hpayload, window_append_right (by omega), hprefix, Nat.sub_self, window_self hlength]
      at hmembers
    rw [hpayload, segmentBytes, hmembers]
  · rw [List.map_map] at hascending
    exact hascending
  · intro record hrecord
    exact hbands _ (List.mem_map_of_mem (f := BucketRecord.writeRecord crc) hrecord)

theorem HoldsSegment.encode (h : layout.Describes file)
    (hsegment : HoldsSegment crc layout file bands records descriptor) :
    encodeBucketSegment crc records = .ok (descriptor.payloadIn file) := by
  refine encodeBucketSegment_eq_ok_iff.mpr
    ⟨hsegment.ascending, hsegment.counts, ?_, hsegment.payload⟩
  have hlength := length_payloadIn h hsegment.mem
  have hwithin := h.within descriptor hsegment.mem
  have haddressable := h.addressable
  rw [hsegment.payload, length_segmentBytes] at hlength
  omega

end Reading

/-! ## Canonical segments -/

/-- Member ranges that follow each other from `start` to `stop`. -/
def Tiles : Nat → List BucketLocation → Nat → Prop
  | start, [], stop => start = stop
  | start, location :: locations, stop =>
      location.memberOffset = start ∧ Tiles location.memberEnd locations stop

theorem tiles_locationsFrom (descriptor : SectionDescriptor) (offset : Nat)
    (records : List BucketWriteRecord) :
    Tiles offset (locationsFrom descriptor offset records) (offset + memberTotal records) := by
  induction records generalizing offset with
  | nil => rfl
  | cons record records ih =>
      have htotal : offset + memberTotal (record :: records) =
          offset + record.memberLength + memberTotal records := by
        rw [Nat.add_assoc]
        rfl
      rw [htotal]
      exact ⟨rfl, ih _⟩

/-- An ascending segment that fits in a section and is placed in a container decodes to the
same keys, and every location reads back its members. Conversely, if every location of a
decoded section reads back, encoding what was read gives the payload of the section, and
the member ranges tile it. -/
theorem decodeBucketSegment_canonical (crc : Checksum) :
    (∀ (records : List BucketRecord) (payload : Bytes) (framed : Section) (file : IndexFile)
      (index : Nat), Ascending (records.map (·.key)) →
      (∀ record ∈ records, record.members.length < 2 ^ 32) →
      (∀ record ∈ records, record.key.band.toNat < file.metadata.bands.toNat) →
      encodeBucketSegment crc records = .ok payload →
      Section.new .buckets true payload = .ok framed → file.sections[index]? = some framed →
      ∃ bytes layout descriptor locations, file.encode crc = .ok bytes ∧
        FileLayout.readFrom crc bytes = .ok layout ∧ layout.metadata = file.metadata ∧
        layout.sections[index]? = some descriptor ∧
        decodeBucketSegment crc layout bytes descriptor file.metadata.bands.toNat = .ok locations ∧
        locations.map (·.key) = records.map (·.key) ∧
        List.Forall₂ (fun record location =>
          readBucketMembers crc layout bytes location = .ok record.members) records locations) ∧
    ∀ (bytes : Bytes) (layout : FileLayout) (descriptor : SectionDescriptor) (bands : Nat)
      (locations : List BucketLocation) (records : List BucketRecord),
      FileLayout.readFrom crc bytes = .ok layout → descriptor ∈ layout.sections →
      decodeBucketSegment crc layout bytes descriptor bands = .ok locations →
      List.Forall₂ (fun record location => location.key = record.key ∧
        readBucketMembers crc layout bytes location = .ok record.members) records locations →
      encodeBucketSegment crc records = .ok (descriptor.payloadIn bytes) ∧
        Tiles (memberStart locations.length) locations descriptor.payloadLength := by
  constructor
  · intro records payload framed file index hascending hcounts hbands hencode hframed hindex
    obtain ⟨_, _, _, rfl⟩ := encodeBucketSegment_eq_ok_iff.mp hencode
    obtain ⟨hkind, hrequired, hpayload⟩ := Section.new_eq_ok_iff.mp hframed
    obtain ⟨layout, hlayout, hmetadata, hdescribes, hview⟩ :=
      IndexFile.exists_layout_of_encode (IndexFile.encode_eq_ok crc file)
    have hlisted := congrArg (·[index]?) hview
    simp only [List.getElem?_map, hindex, Option.map_some, Option.map_eq_some_iff] at hlisted
    obtain ⟨descriptor, hdescriptor, hknown⟩ := hlisted
    have hsegment : HoldsSegment crc layout _ file.metadata.bands.toNat records descriptor :=
      ⟨List.mem_of_getElem? hdescriptor, (congrArg KnownSection.kind hknown).trans hkind,
        (congrArg KnownSection.required hknown).trans hrequired,
        (congrArg KnownSection.payload hknown).trans hpayload, hascending, hcounts, hbands⟩
    obtain ⟨locations, hdecode, hreads⟩ :=
      decodeBucketSegment_of_segment hdescribes file.metadata.bands.toNat_lt hsegment
    exact ⟨_, layout, descriptor, locations, IndexFile.encode_eq_ok crc file, hlayout, hmetadata,
      hdescriptor, hdecode, ReadsAs.keys_eq hreads,
      hreads.imp fun _ _ hread => hread.members⟩
  · intro bytes layout descriptor bands locations records hlayout hmem hdecode hreads
    have hdescribes := (readFrom_spec hlayout).1
    have hsegment := holdsSegment_of_reads hdescribes hmem hdecode
      (hreads.imp fun _ _ hread => ⟨hread.1, hread.2⟩)
    refine ⟨hsegment.encode hdescribes, ?_⟩
    obtain ⟨_, _, _, written, members, hpayload, hlength, _, _, rfl⟩ :=
      (decodeBucketSegment_eq_ok_iff hdescribes hmem).mp hdecode
    have htotal : memberStart written.length + memberTotal written = descriptor.payloadLength := by
      rw [← length_payloadIn hdescribes hmem, hpayload, List.length_append, length_segmentPrefix,
        hlength]
    rw [length_locationsFrom, ← htotal]
    exact tiles_locationsFrom descriptor _ written

/-- The segment of one bucket with two members, as the only section of a container. -/
theorem decodeBucketSegment_canonical_two_members :
    ∃ payload, encodeBucketSegment Checksum.crc32 [⟨⟨1, 5⟩, [3, 4]⟩] = .ok payload ∧
      ∀ framed, Section.new .buckets true payload = .ok framed →
        ∃ bytes layout descriptor locations,
          (IndexFile.mk emptyFile.metadata [framed] (Nat.le_of_ble_eq_true rfl)).encode Checksum.crc32 = .ok bytes ∧
          decodeBucketSegment Checksum.crc32 layout bytes descriptor 2 = .ok locations ∧
          locations.map (·.key) = [⟨1, 5⟩] := by
  have hencode := encodeBucketSegment_eq_ok_iff.mpr (⟨by simp [Ascending], by simp, by decide, rfl⟩ :
    Ascending ([BucketRecord.mk ⟨1, 5⟩ [3, 4]].map (·.key)) ∧
      (∀ record ∈ [BucketRecord.mk ⟨1, 5⟩ [3, 4]], record.members.length < 2 ^ 32) ∧
      segmentLength [BucketRecord.mk ⟨1, 5⟩ [3, 4]] < 2 ^ 64 ∧
      segmentBytes Checksum.crc32 [BucketRecord.mk ⟨1, 5⟩ [3, 4]] = segmentBytes Checksum.crc32 _)
  refine ⟨_, hencode, fun framed hframed => ?_⟩
  obtain ⟨bytes, layout, descriptor, locations, hbytes, _, _, _, hdecode, hkeys, _⟩ :=
    (decodeBucketSegment_canonical Checksum.crc32).1 [⟨⟨1, 5⟩, [3, 4]⟩] _ framed
      ⟨emptyFile.metadata, [framed], Nat.le_of_ble_eq_true rfl⟩ 0 (by simp [Ascending]) (by simp)
      (by simp [emptyFile]) hencode hframed rfl
  exact ⟨bytes, layout, descriptor, locations, hbytes, hdecode, hkeys⟩

end Pari.Format
