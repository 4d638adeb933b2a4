/-
# Files that hold a snapshot

A snapshot file is a container whose understood sections are the counted keys, the counted
rows and one bucket section for each segment. Reading one yields the keys, the rows and a
directory that holds the records of all its segments.
-/

import Pari.Store.Directory

namespace Pari.Store

open Data Pari.Format

variable {ε : Type}

/-- The bucket section of a segment. -/
def segmentSection (crc : Checksum) (records : List BucketRecord) : KnownSection where
  kind := .buckets
  required := true
  checksum := crc.hash (segmentBytes crc records)
  payload := segmentBytes crc records

/-- A required metadata section. -/
def metadataKnown (crc : Checksum) (kind : SectionKind) (payload : Bytes) : KnownSection where
  kind
  required := true
  checksum := crc.hash payload
  payload

/-- The understood sections of a snapshot. -/
def snapshotSections (crc : Checksum) (keys hashes : Bytes) (groups : List (List BucketRecord)) :
    List KnownSection :=
  metadataKnown crc .keys keys :: metadataKnown crc .bandHashes hashes ::
    groups.map (segmentSection crc)

/-- A layout of a file with the sections of a snapshot. -/
structure IsSnapshot (crc : Checksum) (layout : FileLayout) (file keys hashes : Bytes)
    (groups : List (List BucketRecord)) : Prop where
  describes : layout.Describes file
  sections : layout.sections.map (SectionDescriptor.view file) = snapshotSections crc keys hashes groups

/-- The metadata sections of a layout hold these items: their keys in one section, their
rows in another. -/
structure HoldsItems (crc : Checksum) (layout : FileLayout) (file : Bytes) (bands : Nat)
    (items : List (UInt64 × List UInt64)) : Prop where
  keys : (layout.sections.filter (·.kind = .keys)).map (SectionDescriptor.view file) =
    [metadataKnown crc .keys (countedKeys (items.map Prod.fst))]
  hashes : (layout.sections.filter (·.kind = .bandHashes)).map (SectionDescriptor.view file) =
    [metadataKnown crc .bandHashes (countedRows (items.map Prod.snd))]
  width : ∀ item ∈ items, item.2.length = bands

section Views

variable {layout : FileLayout} {file : Bytes}

/-- Selecting sections by kind commutes with looking at what they hold. -/
theorem filter_kind_map_view (descriptors : List SectionDescriptor) (kind : SectionKind) :
    (descriptors.filter (·.kind = kind)).map (SectionDescriptor.view file) =
      (descriptors.map (SectionDescriptor.view file)).filter (·.kind = kind) := by
  rw [List.filter_map]
  rfl

/-- A required section that is the only one of its kind and whose checksum is that of its
payload is found and read, and no other. -/
theorem exists_requiredSection_iff {crc : Checksum} {missing duplicate optional : ε}
    {kind : SectionKind} {payload : Bytes} (h : layout.Describes file) :
    (∃ descriptor, requiredUniqueSection missing duplicate optional layout kind = .ok descriptor ∧
        layout.readSection crc file descriptor = .ok payload) ↔
      (layout.sections.filter (·.kind = kind)).map (SectionDescriptor.view file) =
        [metadataKnown crc kind payload] := by
  have hview : ∀ descriptor : SectionDescriptor, descriptor.kind = kind →
      (descriptor.view file = metadataKnown crc kind payload ↔ descriptor.required = true ∧
        descriptor.payloadIn file = payload ∧ crc.hash payload = descriptor.checksum) := by
    rintro descriptor rfl
    simp only [SectionDescriptor.view, metadataKnown, KnownSection.mk.injEq, true_and]
    constructor
    · rintro ⟨hrequired, hchecksum, hpayload⟩
      exact ⟨hrequired, hpayload, hchecksum.symm⟩
    · rintro ⟨hrequired, hpayload, hchecksum⟩
      exact ⟨hrequired, hchecksum.symm, hpayload⟩
  have hmem : ∀ descriptor, layout.sections.filter (·.kind = kind) = [descriptor] →
      descriptor ∈ layout.sections ∧ descriptor.kind = kind := by
    intro descriptor honly
    have hmem : descriptor ∈ layout.sections.filter (·.kind = kind) := by
      rw [honly]
      exact List.mem_singleton_self _
    rwa [List.mem_filter, decide_eq_true_eq] at hmem
  rw [List.map_eq_singleton_iff]
  constructor
  · rintro ⟨descriptor, hfound, hread⟩
    obtain ⟨honly, hrequired⟩ := requiredUniqueSection_eq_ok_iff.mp hfound
    obtain ⟨hdescriptor, hkind⟩ := hmem descriptor honly
    exact ⟨descriptor, honly, (hview descriptor hkind).mpr
      ⟨hrequired, (readSection_eq_ok_iff h hdescriptor).mp hread⟩⟩
  · rintro ⟨descriptor, honly, hknown⟩
    obtain ⟨hdescriptor, hkind⟩ := hmem descriptor honly
    obtain ⟨hrequired, hread⟩ := (hview descriptor hkind).mp hknown
    exact ⟨descriptor, requiredUniqueSection_eq_ok_iff.mpr ⟨honly, hrequired⟩,
      (readSection_eq_ok_iff h hdescriptor).mpr hread⟩

/-- Two reads of the one section of a kind agree. -/
theorem requiredSection_unique {crc : Checksum} {kind : SectionKind} {payload payload' : Bytes}
    (h : (layout.sections.filter (·.kind = kind)).map (SectionDescriptor.view file) =
      [metadataKnown crc kind payload])
    (h' : (layout.sections.filter (·.kind = kind)).map (SectionDescriptor.view file) =
      [metadataKnown crc kind payload']) : payload = payload' := by
  rw [h, List.singleton_inj] at h'
  exact congrArg KnownSection.payload h'

/-- The payload of a section is addressable. -/
theorem length_payload_lt {crc : Checksum} {kind : SectionKind} {payload : Bytes}
    (hdescribes : layout.Describes file)
    (h : (layout.sections.filter (·.kind = kind)).map (SectionDescriptor.view file) =
      [metadataKnown crc kind payload]) : payload.length < 2 ^ 64 := by
  obtain ⟨descriptor, honly, hknown⟩ := List.map_eq_singleton_iff.mp h
  have hmem : descriptor ∈ layout.sections.filter (·.kind = kind) := by
    rw [honly]
    exact List.mem_singleton_self _
  have hlength := length_payloadIn hdescribes (List.mem_filter.mp hmem).1
  have hwithin := hdescribes.within descriptor (List.mem_filter.mp hmem).1
  have haddressable := hdescribes.addressable
  have hpayload : descriptor.payloadIn file = payload := congrArg KnownSection.payload hknown
  rw [hpayload] at hlength
  omega

/-- The items of a layout are determined by it. -/
theorem HoldsItems.unique {crc : Checksum} {bands : Nat} {items items' : List (UInt64 × List UInt64)}
    (hdescribes : layout.Describes file) (hbands : 0 < bands) (hword : bands < 2 ^ 32)
    (h : HoldsItems crc layout file bands items) (h' : HoldsItems crc layout file bands items') :
    items = items' := by
  let errors : WordErrors Unit := ⟨(), (), (), (), ()⟩
  have hwidth : ∀ {items : List (UInt64 × List UInt64)}, HoldsItems crc layout file bands items →
      ∀ row ∈ items.map Prod.snd, row.length = bands := by
    intro items hitems row hrow
    obtain ⟨item, hitem, rfl⟩ := List.mem_map.mp hrow
    exact hitems.width item hitem
  have hkeysLength := length_payload_lt hdescribes h.keys
  have hhashesLength := length_payload_lt hdescribes h.hashes
  have hkeys : decodeKeys errors (countedKeys (items.map Prod.fst)) = .ok (items'.map Prod.fst) :=
    (decodeKeys_eq_ok_iff hkeysLength).mpr (requiredSection_unique h.keys h'.keys)
  have hhashes : decodeBandHashes errors (countedRows (items.map Prod.snd)) bands =
      .ok (items'.map Prod.snd) :=
    (decodeBandHashes_eq_ok_iff hhashesLength hbands hword).mpr
      ⟨hwidth h', requiredSection_unique h.hashes h'.hashes⟩
  rw [(decodeKeys_eq_ok_iff hkeysLength).mpr rfl] at hkeys
  rw [(decodeBandHashes_eq_ok_iff hhashesLength hbands hword).mpr ⟨hwidth h, rfl⟩] at hhashes
  have hzip : ∀ items : List (UInt64 × List UInt64),
      (items.map Prod.fst).zip (items.map Prod.snd) = items := by
    intro items
    rw [List.zip_map', List.map_id'']
    exact fun _ => rfl
  rw [← hzip items, ← hzip items', Except.ok.inj hkeys, Except.ok.inj hhashes]

end Views

namespace IsSnapshot

variable {crc : Checksum} {layout : FileLayout} {file keys hashes : Bytes}
  {groups : List (List BucketRecord)}

theorem filter_segments (kind : SectionKind) (hkind : kind ≠ .buckets) :
    (groups.map (segmentSection crc)).filter (·.kind = kind) = [] := by
  rw [List.filter_eq_nil_iff]
  intro known hmem
  obtain ⟨records, _, rfl⟩ := List.mem_map.mp hmem
  rw [segmentSection, decide_eq_true_eq]
  exact hkind.symm

/-- The one section of each metadata kind. -/
theorem metadataSections (h : IsSnapshot crc layout file keys hashes groups) :
    (layout.sections.filter (·.kind = .keys)).map (SectionDescriptor.view file) =
        [metadataKnown crc .keys keys] ∧
      (layout.sections.filter (·.kind = .bandHashes)).map (SectionDescriptor.view file) =
        [metadataKnown crc .bandHashes hashes] := by
  constructor
  all_goals
    rw [filter_kind_map_view, h.sections, snapshotSections, List.filter_cons, List.filter_cons,
      filter_segments _ (by decide)]
    rfl

/-- The bucket sections are those of the segments, in order. -/
theorem bucketSections (h : IsSnapshot crc layout file keys hashes groups) {bands : Nat}
    (hascending : Ascending (groups.flatten.map (·.key)))
    (hcounts : ∀ record ∈ groups.flatten, record.members.length < 2 ^ 32)
    (hbands : ∀ record ∈ groups.flatten, record.key.band.toNat < bands)
    {optional tombstones : ε} :
    ∃ descriptors, collectBucketSections optional tombstones layout.sections = .ok descriptors ∧
      List.Forall₂ (HoldsSegment crc layout file bands) groups descriptors := by
  have hkind : ∀ known ∈ snapshotSections crc keys hashes groups,
      known.required = true ∧ known.kind ≠ .tombstones := by
    intro known hmem
    rw [snapshotSections, List.mem_cons, List.mem_cons, List.mem_map] at hmem
    rcases hmem with rfl | rfl | ⟨records, _, rfl⟩
    all_goals exact ⟨rfl, by simp [metadataKnown, segmentSection]⟩
  have hsections : ∀ descriptor ∈ layout.sections,
      descriptor.required = true ∧ descriptor.kind ≠ .tombstones := by
    intro descriptor hmem
    have hview := List.mem_map_of_mem (f := SectionDescriptor.view file) hmem
    rw [h.sections] at hview
    exact hkind _ hview
  refine ⟨layout.sections.filter (·.kind = .buckets), collectBucketSections_eq_ok_iff.mpr
    ⟨fun descriptor hmem _ => (hsections descriptor hmem).1,
      fun descriptor hmem htombstones => absurd htombstones (hsections descriptor hmem).2, rfl⟩, ?_⟩
  have hviews : (layout.sections.filter (·.kind = .buckets)).map (SectionDescriptor.view file) =
      groups.map (segmentSection crc) := by
    rw [filter_kind_map_view, h.sections, snapshotSections, List.filter_cons, List.filter_cons]
    have hall : (groups.map (segmentSection crc)).filter (·.kind = .buckets) =
        groups.map (segmentSection crc) := by
      rw [List.filter_eq_self]
      intro known hmem
      obtain ⟨records, _, rfl⟩ := List.mem_map.mp hmem
      simp [segmentSection]
    rw [hall]
    rfl
  have hpairs : List.Forall₂ (fun records descriptor =>
      segmentSection crc records = SectionDescriptor.view file descriptor) groups
      (layout.sections.filter (·.kind = .buckets)) := forall₂_of_map_eq hviews.symm
  have hmembers : ∀ records ∈ groups, ∀ descriptor ∈ layout.sections.filter (·.kind = .buckets),
      segmentSection crc records = SectionDescriptor.view file descriptor →
      HoldsSegment crc layout file bands records descriptor := by
    intro records hrecords descriptor hdescriptor hview
    have hsub : ∀ record ∈ records, record ∈ groups.flatten := fun record hrecord =>
      List.mem_flatten.mpr ⟨records, hrecords, hrecord⟩
    refine ⟨(List.mem_filter.mp hdescriptor).1, ?_, ?_, ?_, ?_, fun record hrecord =>
      hcounts record (hsub record hrecord), fun record hrecord => hbands record (hsub record hrecord)⟩
    · exact (congrArg KnownSection.kind hview).symm
    · exact (congrArg KnownSection.required hview).symm
    · exact (congrArg KnownSection.payload hview).symm
    · exact List.Pairwise.sublist ((List.sublist_flatten_of_mem hrecords).map _) hascending
  exact forall₂_imp_of_mem hpairs hmembers

end IsSnapshot

end Pari.Store
