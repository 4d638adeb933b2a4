/-
# Flipped bits in a snapshot

A flipped bit that opening does not notice lies in a bucket section, in its stored checksum or
among its members. The kind, flags and length of a frame are in no checksum: a section of
another kind is missing where it belongs or surplus where it turns up, a section without its
flag is refused, and under another length no payload is well formed, since each begins by
saying how long it is. So the opened index has the right configuration, rows and directory,
and a query reads the right members or none.
-/

import Pari.Format.Flips
import Pari.Store.RoundTrip

namespace Pari.Store

open Data Pari.Format Pari.Core Pari.Index

/-! ## What opening has checked -/

/-- What opening checks of the understood sections of a file. -/
structure Readable (crc : Checksum) (bands : Nat) (sections : List KnownSection) : Prop where
  keys : ∃ keys, sections.filter (·.kind = .keys) = [metadataKnown crc .keys (countedKeys keys)]
  hashes : ∃ rows : List (List UInt64), (∀ row ∈ rows, row.length = bands) ∧
    sections.filter (·.kind = .bandHashes) = [metadataKnown crc .bandHashes (countedRows rows)]
  tombstones : ∀ known ∈ sections, known.kind = .tombstones → known.required = false
  buckets : ∀ known ∈ sections, known.kind = .buckets → known.required = true ∧
    ∃ (written : List BucketWriteRecord) (members : Bytes),
      known.payload = segmentPrefix crc written ++ members ∧ members.length = memberTotal written

section Opened

variable {scheme : SignatureScheme} {crc : Checksum} {path : Path} {file : Bytes}
  {layout : FileLayout} {core : PersistentIndexCore scheme}

theorem readable_of_openFile (h : PersistentIndexCore.openFile crc path file = .ok core)
    (hread : FileLayout.readFrom crc file = .ok layout) :
    Readable crc core.config.params.bands (layout.sections.map (SectionDescriptor.view file)) := by
  obtain ⟨layout', items, hread', _, hitems, _⟩ := PersistentIndexCore.openFile_eq_ok h
  obtain rfl := Except.ok.inj (hread'.symm.trans hread)
  obtain ⟨hbuckets, htombstones, hdirectory⟩ := PersistentIndexCore.openFile_buckets h hread
  have hdescribes := (readFrom_spec hread).1
  refine ⟨⟨items.map Prod.fst, ?_⟩, ⟨items.map Prod.snd, ?_, ?_⟩, ?_, ?_⟩
  · rw [← filter_kind_map_view]
    exact hitems.keys
  · intro row hrow
    obtain ⟨item, hitem, rfl⟩ := List.mem_map.mp hrow
    exact hitems.width item hitem
  · rw [← filter_kind_map_view]
    exact hitems.hashes
  · intro known hknown hkind
    obtain ⟨descriptor, hmem, rfl⟩ := List.mem_map.mp hknown
    exact htombstones descriptor hmem hkind
  · intro known hknown hkind
    obtain ⟨descriptor, hmem, rfl⟩ := List.mem_map.mp hknown
    refine ⟨hbuckets descriptor hmem hkind, ?_⟩
    have hlisted : descriptor ∈ layout'.sections.filter (·.kind = .buckets) :=
      List.mem_filter.mpr ⟨hmem, decide_eq_true hkind⟩
    rcases hdirectory with ⟨hnone, _⟩ | ⟨directory, hdirectory, _⟩
    · rw [hnone] at hlisted
      cases hlisted
    · obtain ⟨locations, hdecode⟩ := exists_decode_of_readDirectory hdirectory descriptor hlisted
      obtain ⟨_, _, _, written, members, hpayload, hmembers, _⟩ :=
        (decodeBucketSegment_eq_ok_iff hdescribes hmem).mp hdecode
      exact ⟨written, members, hpayload, hmembers⟩

end Opened

/-! ## Payloads say how long they are -/

section Lengths

theorem countedKeys_append_inj {keys keys' : List UInt64} {rest rest' : Bytes}
    (hcount : keys.length < 2 ^ 64) (hcount' : keys'.length < 2 ^ 64)
    (h : countedKeys keys ++ rest = countedKeys keys' ++ rest') : keys.length = keys'.length := by
  rw [countedKeys, countedKeys, List.append_assoc, List.append_assoc] at h
  have hword := congrArg UInt64.toNat (u64Bytes_injective (List.append_inj h (by simp)).1)
  rwa [toNat_ofNat64 hcount, toNat_ofNat64 hcount'] at hword

theorem countedRows_append_inj {rows rows' : List (List UInt64)} {rest rest' : Bytes}
    (hcount : rows.length < 2 ^ 64) (hcount' : rows'.length < 2 ^ 64)
    (h : countedRows rows ++ rest = countedRows rows' ++ rest') : rows.length = rows'.length := by
  rw [countedRows, countedRows, List.append_assoc, List.append_assoc] at h
  have hword := congrArg UInt64.toNat (u64Bytes_injective (List.append_inj h (by simp)).1)
  rwa [toNat_ofNat64 hcount, toNat_ofNat64 hcount'] at hword

end Lengths

/-! ## Damaged frames -/

/-- A bucket section that opening takes for the segment of a group, but whose checksum is not
that of its payload. -/
structure DamagedSegment (crc : Checksum) (records : List BucketRecord) (known : KnownSection) :
    Prop where
  kind : known.kind = .buckets
  payload : AtMostOneBit (segmentBytes crc records) known.payload
  checksum : crc.hash known.payload ≠ known.checksum

section Damage

variable {crc : Checksum} {bands : Nat} {items : List (UInt64 × List UInt64)}
  {before after : List KnownSection} {known : KnownSection} {frame : Frame}

/-- What every section of a snapshot satisfies, by its kind. -/
theorem sectionsOf_cases (h : known ∈ sectionsOf crc items) :
    known = metadataKnown crc .keys (countedKeys (items.map Prod.fst)) ∨
      known = metadataKnown crc .bandHashes (countedRows (items.map Prod.snd)) ∨
      ∃ records ∈ segmentsOf (bucketRecords items), known = segmentSection crc records := by
  rw [sectionsOf, snapshotSections, List.mem_cons, List.mem_cons, List.mem_map] at h
  rcases h with h | h | ⟨records, hrecords, rfl⟩
  · exact Or.inl h
  · exact Or.inr (Or.inl h)
  · exact Or.inr (Or.inr ⟨records, hrecords, rfl⟩)

/-- Where one section of a kind is expected before and after a change, the change keeps it. -/
theorem kind_iff_of_singleton {kind : SectionKind} {other first second : KnownSection}
    (h : (before ++ known :: after).filter (·.kind = kind) = [first])
    (h' : (before ++ other :: after).filter (·.kind = kind) = [second]) :
    other.kind = kind ↔ known.kind = kind := by
  have hlength := congrArg List.length h
  have hlength' := congrArg List.length h'
  rw [List.filter_append, List.filter_cons, List.length_append] at hlength hlength'
  by_cases hknown : known.kind = kind
  · by_cases hother : other.kind = kind
    · exact iff_of_true hother hknown
    · simp [hknown, hother] at hlength hlength'
      omega
  · by_cases hother : other.kind = kind
    · simp [hknown, hother] at hlength hlength'
      omega
    · exact iff_of_false hother hknown

/-- The one section of each metadata kind. -/
theorem filter_sectionsOf (crc : Checksum) (items : List (UInt64 × List UInt64)) :
    (sectionsOf crc items).filter (·.kind = .keys) =
        [metadataKnown crc .keys (countedKeys (items.map Prod.fst))] ∧
      (sectionsOf crc items).filter (·.kind = .bandHashes) =
        [metadataKnown crc .bandHashes (countedRows (items.map Prod.snd))] := by
  constructor
  all_goals
    rw [sectionsOf, snapshotSections, List.filter_cons, List.filter_cons,
      IsSnapshot.filter_segments _ (by decide)]
    rfl

/-- A required frame in the place of a section has its kind. -/
theorem kindRaw_of_readable (hsections : sectionsOf crc items = before ++ known :: after)
    (haccepted : frame.Accepted crc) (hflags : frame.flags = sectionFlagRequired)
    (h : Readable crc bands (before ++ frame.known?.toList ++ after)) :
    frame.kindRaw = known.kind.asRaw := by
  obtain ⟨hkeys, hhashes⟩ := filter_sectionsOf crc items
  rw [hsections] at hkeys hhashes
  cases hfound : frame.known? with
  | none =>
      -- An unknown kind is skipped only where it is optional.
      have hkind : SectionKind.fromRaw frame.kindRaw = none := by
        simpa [Frame.known?] using hfound
      have hoptional := (haccepted.skipped hkind).1
      rw [hflags] at hoptional
      exact absurd hoptional (by decide)
  | some other =>
      obtain ⟨kind, hkind, rfl⟩ := Option.map_eq_some_iff.mp hfound
      rw [hfound, Option.toList_some, List.append_assoc, List.singleton_append] at h
      obtain ⟨⟨_, hkeys'⟩, ⟨_, _, hhashes'⟩, htombstones, _⟩ := h
      have hkeysIff := kind_iff_of_singleton hkeys hkeys'
      have hhashesIff := kind_iff_of_singleton hhashes hhashes'
      have hrequired := htombstones _ (List.mem_append_right before List.mem_cons_self)
      rw [SectionKind.fromRaw_eq_some_iff.mp hkind]
      simp only at hkeysIff hhashesIff hrequired
      congr 1
      rcases sectionsOf_cases (hsections ▸ List.mem_append_right before List.mem_cons_self) with
        hknown | hknown | ⟨records, _, hknown⟩
      · rw [hknown] at hkeysIff ⊢
        exact hkeysIff.mpr rfl
      · rw [hknown] at hhashesIff ⊢
        exact hhashesIff.mpr rfl
      · rw [hknown] at hkeysIff hhashesIff ⊢
        cases kind with
        | keys => cases hkeysIff.mp rfl
        | bandHashes => cases hhashesIff.mp rfl
        | buckets => rfl
        | tombstones =>
            rw [hflags] at hrequired
            exact absurd (hrequired rfl) (by decide)

/-- What opening has checked of a frame, by the kind of section it is expected to hold. -/
structure Holds (crc : Checksum) (bands : Nat) (kind : SectionKind) (frame : Frame) : Prop where
  known : frame.known? = some ⟨kind, true, frame.checksum, frame.payload⟩
  checksum : kind ≠ .buckets → frame.checksum = crc.hash frame.payload
  keys : kind = .keys → ∃ keys, frame.payload = countedKeys keys
  hashes : kind = .bandHashes → ∃ rows : List (List UInt64),
    (∀ row ∈ rows, row.length = bands) ∧ frame.payload = countedRows rows
  buckets : kind = .buckets → ∃ (written : List BucketWriteRecord) (members : Bytes),
    frame.payload = segmentPrefix crc written ++ members ∧ members.length = memberTotal written

theorem holds_of_readable {sections : List KnownSection} {kind : SectionKind}
    (hkind : frame.kindRaw = kind.asRaw) (hexpected : kind ≠ .tombstones)
    (h : Readable crc bands sections) (hmem : ∀ known, frame.known? = some known → known ∈ sections) :
    Holds crc bands kind frame := by
  have hfound : frame.known? = some ⟨kind, decide (frame.flags &&& sectionFlagRequired ≠ 0),
      frame.checksum, frame.payload⟩ := by
    rw [Frame.known?, hkind, SectionKind.fromRaw_asRaw, Option.map_some]
  have hlisted := hmem _ hfound
  -- The one section of a metadata kind is this one.
  have honly : ∀ payload, sections.filter (·.kind = kind) = [metadataKnown crc kind payload] →
      decide (frame.flags &&& sectionFlagRequired ≠ 0) = true ∧
        frame.checksum = crc.hash frame.payload ∧ frame.payload = payload := by
    intro payload hsingle
    have hin : _ ∈ sections.filter (·.kind = kind) := List.mem_filter.mpr ⟨hlisted, by simp⟩
    rw [hsingle, List.mem_singleton, metadataKnown, KnownSection.mk.injEq] at hin
    obtain ⟨_, hrequired, hchecksum, rfl⟩ := hin
    exact ⟨hrequired, hchecksum, rfl⟩
  cases kind with
  | keys =>
      obtain ⟨keys, hkeys⟩ := h.keys
      obtain ⟨hrequired, hchecksum, hpayload⟩ := honly _ hkeys
      rw [hrequired] at hfound
      exact ⟨hfound, fun _ => hchecksum, fun _ => ⟨keys, hpayload⟩,
        (fun hother => by cases hother), (fun hother => by cases hother)⟩
  | bandHashes =>
      obtain ⟨rows, hwidth, hrows⟩ := h.hashes
      obtain ⟨hrequired, hchecksum, hpayload⟩ := honly _ hrows
      rw [hrequired] at hfound
      exact ⟨hfound, fun _ => hchecksum, (fun hother => by cases hother),
        fun _ => ⟨rows, hwidth, hpayload⟩, (fun hother => by cases hother)⟩
  | buckets =>
      obtain ⟨hrequired, hsegment⟩ := h.buckets _ hlisted rfl
      dsimp only at hrequired
      rw [hrequired] at hfound
      exact ⟨hfound, fun hne => absurd rfl hne, (fun hother => by cases hother),
        (fun hother => by cases hother), fun _ => hsegment⟩
  | tombstones => exact absurd rfl hexpected

/-- A held frame has its flag. -/
theorem Holds.flags {kind : SectionKind} (h : Holds crc bands kind frame)
    (haccepted : frame.Accepted crc) : frame.flags = sectionFlagRequired := by
  obtain ⟨_, _, hknown⟩ := Option.map_eq_some_iff.mp h.known
  have hrequired : decide (frame.flags &&& sectionFlagRequired ≠ 0) = true :=
    congrArg KnownSection.required hknown
  rcases flags_cases haccepted.flags with hzero | hone
  · rw [hzero] at hrequired
    exact absurd hrequired (by decide)
  · exact hone

/-- Two held frames over the same bytes have payloads of the same length. -/
theorem Holds.length_eq {kind : SectionKind} {frame' : Frame} (h : Holds crc bands kind frame)
    (h' : Holds crc bands kind frame') (hexpected : kind ≠ .tombstones) (hbands : 0 < bands)
    (hbounded : frame.payload.length ≤ maxSectionBytes)
    (hbounded' : frame'.payload.length ≤ maxSectionBytes) {rest rest' : Bytes}
    (hbytes : frame'.payload ++ rest' = frame.payload ++ rest) :
    frame'.payload.length = frame.payload.length := by
  have hlimit : maxSectionBytes < 2 ^ 64 := by decide
  cases kind with
  | keys =>
      obtain ⟨keys, hkeys⟩ := h.keys rfl
      obtain ⟨keys', hkeys'⟩ := h'.keys rfl
      rw [hkeys, length_countedKeys] at hbounded
      rw [hkeys', length_countedKeys] at hbounded'
      rw [hkeys, hkeys'] at hbytes ⊢
      rw [length_countedKeys, length_countedKeys,
        countedKeys_append_inj (by omega) (by omega) hbytes]
  | bandHashes =>
      obtain ⟨rows, hwidth, hrows⟩ := h.hashes rfl
      obtain ⟨rows', hwidth', hrows'⟩ := h'.hashes rfl
      have hle := Nat.le_mul_of_pos_right rows.length hbands
      have hle' := Nat.le_mul_of_pos_right rows'.length hbands
      rw [hrows, length_countedRows hwidth] at hbounded
      rw [hrows', length_countedRows hwidth'] at hbounded'
      rw [hrows, hrows'] at hbytes ⊢
      rw [length_countedRows hwidth, length_countedRows hwidth',
        countedRows_append_inj (by omega) (by omega) hbytes]
  | buckets =>
      obtain ⟨written, members, hsegment, hmembers⟩ := h.buckets rfl
      obtain ⟨written', members', hsegment', hmembers'⟩ := h'.buckets rfl
      have hentry : bucketDirectoryEntryBytes = 32 := rfl
      rw [hsegment, List.length_append, length_segmentPrefix, memberStart, hentry] at hbounded
      rw [hsegment', List.length_append, length_segmentPrefix, memberStart, hentry] at hbounded'
      rw [hsegment, hsegment', List.append_assoc, List.append_assoc] at hbytes
      obtain rfl := segmentPrefix_append_inj (by omega) (by omega) hbytes
      rw [hsegment, hsegment', List.length_append, List.length_append, hmembers, hmembers']
  | tombstones => exact absurd rfl hexpected

/-- The frames of a snapshot are held. -/
theorem holds_of_sectionsOf (hfits : FitsSnapshot bands items) (h : known ∈ sectionsOf crc items) :
    Holds crc bands known.kind known.frame ∧ known.frame.flags = sectionFlagRequired ∧
      known.kind ≠ .tombstones ∧ known.checksum = crc.hash known.payload := by
  have hfound := known.known?_frame
  rcases sectionsOf_cases h with rfl | rfl | ⟨records, hrecords, rfl⟩
  · exact ⟨⟨hfound, fun _ => rfl, fun _ => ⟨_, rfl⟩, nofun, nofun⟩, rfl, nofun, rfl⟩
  · refine ⟨⟨hfound, fun _ => rfl, nofun, fun _ => ⟨_, ?_, rfl⟩, nofun⟩, rfl, nofun, rfl⟩
    intro row hrow
    obtain ⟨item, hitem, rfl⟩ := List.mem_map.mp hrow
    exact hfits.width item hitem
  · exact ⟨⟨hfound, fun _ => rfl, nofun, nofun, fun _ => ⟨_, _, rfl,
      (memberTotal_writeRecord (hfits.counts hrecords)).symm⟩⟩, rfl, nofun, rfl⟩

theorem bounded_of_sectionsOf (hfits : FitsSnapshot bands items) (h : known ∈ sectionsOf crc items) :
    known.payload.length ≤ maxSectionBytes :=
  (hfits.accepted.2 known.frame (List.mem_map_of_mem h)).bounded

/-- A reframed section does not open. -/
theorem not_reframed (hfits : FitsSnapshot bands items) (hbands : 0 < bands)
    (hknown : known ∈ sectionsOf crc items) {frames frames' : List Frame} {sections : List KnownSection}
    (hreframed : known.frame.Reframed frames frame frames') (haccepted : frame.Accepted crc)
    (h : Readable crc bands sections) (hmem : ∀ known, frame.known? = some known → known ∈ sections) :
    False := by
  obtain ⟨hholds, _, hexpected, _⟩ := holds_of_sectionsOf hfits hknown
  have hholds' := holds_of_readable hreframed.kindRaw hexpected h hmem
  exact hreframed.length (hholds.length_eq hholds' hexpected hbands
    (bounded_of_sectionsOf hfits hknown) haccepted.bounded hreframed.bytes)

/-- A damaged frame that opens is a bucket section with a damaged payload or checksum. -/
theorem damagedSegment_of_readable (hcrc : crc.DetectsFlips) (hfits : FitsSnapshot bands items)
    (hsections : sectionsOf crc items = before ++ known :: after)
    (hdamaged : known.frame.Damaged frame) (haccepted : frame.Accepted crc)
    (h : Readable crc bands (before ++ frame.known?.toList ++ after)) :
    ∃ records damaged, known = segmentSection crc records ∧ frame.known? = some damaged ∧
      DamagedSegment crc records damaged := by
  have hknown : known ∈ sectionsOf crc items :=
    hsections ▸ List.mem_append_right before List.mem_cons_self
  obtain ⟨_, hflags, hexpected, hchecksum⟩ := holds_of_sectionsOf hfits hknown
  have hmem : ∀ other, frame.known? = some other →
      other ∈ before ++ frame.known?.toList ++ after := by
    intro other hother
    simp [hother]
  -- What opening says of the damaged frame, once its kind is known to be right.
  have hholds : frame.kindRaw = known.kind.asRaw → Holds crc bands known.kind frame := fun hkind =>
    holds_of_readable hkind hexpected h hmem
  have hbuckets : frame.kindRaw = known.kind.asRaw →
      AtMostOneBit known.payload frame.payload → crc.hash frame.payload ≠ frame.checksum →
      ∃ records damaged, known = segmentSection crc records ∧ frame.known? = some damaged ∧
        DamagedSegment crc records damaged := by
    intro hkind hpayload hdiffers
    rcases sectionsOf_cases hknown with rfl | rfl | ⟨records, _, rfl⟩
    · exact absurd ((hholds hkind).checksum nofun).symm hdiffers
    · exact absurd ((hholds hkind).checksum nofun).symm hdiffers
    · exact ⟨records, _, rfl, (hholds hkind).known, rfl, hpayload, hdiffers⟩
  cases hdamaged with
  | kindRaw hne => exact absurd (kindRaw_of_readable hsections haccepted hflags h) hne
  | flags hne => exact absurd (((hholds rfl).flags haccepted).trans hflags.symm) hne
  | checksum hne =>
      refine hbuckets rfl (Or.inl rfl) fun heq => hne ?_
      exact heq.symm.trans hchecksum.symm
  | payload hflip =>
      refine hbuckets rfl (Or.inr hflip) fun heq => ?_
      exact hcrc _ _ hflip (hchecksum.symm.trans heq.symm)

theorem filterMap_cons_toList {α β : Type} (select : α → Option β) (first : α) (rest : List α) :
    (first :: rest).filterMap select = (select first).toList ++ rest.filterMap select := by
  cases hfound : select first with
  | none => rw [List.filterMap_cons_none hfound, Option.toList_none, List.nil_append]
  | some found => rw [List.filterMap_cons_some hfound, Option.toList_some, List.singleton_append]

/-- A flipped bit that opening does not notice lies in one bucket section. -/
theorem exists_damagedSegment (hcrc : crc.DetectsFlips) (hbands : 0 < bands)
    (hfits : FitsSnapshot bands items) {frames : List Frame}
    (hflip : FlippedFrames (snapshotFrames crc items) frames)
    (haccepted : ∀ frame ∈ frames, frame.Accepted crc)
    (h : Readable crc bands (frames.filterMap Frame.known?)) :
    ∃ first last records damaged, segmentsOf (bucketRecords items) = first ++ records :: last ∧
      frames.filterMap Frame.known? =
        metadataKnown crc .keys (countedKeys (items.map Prod.fst)) ::
        metadataKnown crc .bandHashes (countedRows (items.map Prod.snd)) ::
        (first.map (segmentSection crc) ++ damaged :: last.map (segmentSection crc)) ∧
      DamagedSegment crc records damaged := by
  generalize hframes : snapshotFrames crc items = original at hflip
  cases hflip with
  | reframed prior hreframed =>
      obtain ⟨before, rest, hsections, rfl, hrest⟩ := List.map_eq_append_iff.mp hframes
      obtain ⟨known, after, rfl, rfl, rfl⟩ := List.map_eq_cons_iff.mp hrest
      rw [List.forall_mem_append, List.forall_mem_cons] at haccepted
      exfalso
      refine not_reframed hfits hbands (hsections ▸ List.mem_append_right before List.mem_cons_self)
        hreframed haccepted.2.1 h fun other hother => ?_
      rw [List.filterMap_append, List.filterMap_cons_some hother]
      exact List.mem_append_right _ List.mem_cons_self
  | damaged prior later hdamaged =>
      obtain ⟨before, rest, hsections, rfl, hrest⟩ := List.map_eq_append_iff.mp hframes
      obtain ⟨known, after, rfl, rfl, rfl⟩ := List.map_eq_cons_iff.mp hrest
      rw [List.forall_mem_append, List.forall_mem_cons] at haccepted
      rw [List.filterMap_append, KnownSection.filterMap_frame, filterMap_cons_toList,
        KnownSection.filterMap_frame, ← List.append_assoc] at h ⊢
      obtain ⟨records, damaged, rfl, hfound, hsegment⟩ :=
        damagedSegment_of_readable hcrc hfits hsections hdamaged haccepted.2.1 h
      rw [hfound, Option.toList_some, List.append_assoc, List.singleton_append]
      -- The metadata sections come first, and are no bucket sections.
      rw [sectionsOf, snapshotSections] at hsections
      cases before with
      | nil => cases congrArg KnownSection.kind (List.cons.inj hsections).1
      | cons first before =>
          cases before with
          | nil =>
              cases congrArg KnownSection.kind (List.cons.inj (List.cons.inj hsections).2).1
          | cons second before =>
              obtain ⟨rfl, hfirst⟩ := List.cons.inj hsections
              obtain ⟨rfl, hsegments⟩ := List.cons.inj hfirst
              obtain ⟨first, rest, hgroups, rfl, hlast⟩ := List.map_eq_append_iff.mp hsegments
              obtain ⟨group, last, rfl, hgroup, rfl⟩ := List.map_eq_cons_iff.mp hlast
              have hbytes : segmentBytes crc group = segmentBytes crc records :=
                congrArg KnownSection.payload hgroup
              exact ⟨first, last, group, damaged, hgroups, rfl, hsegment.kind,
                hbytes ▸ hsegment.payload, hsegment.checksum⟩

end Damage

/-! ## Opening a damaged snapshot -/

/-- A layout of a snapshot of items with one damaged bucket section. -/
structure IsDamaged (crc : Checksum) (layout : FileLayout) (file : Bytes)
    (items : List (UInt64 × List UInt64)) (first last : List (List BucketRecord))
    (records : List BucketRecord) (damaged : KnownSection) : Prop where
  describes : layout.Describes file
  sections : layout.sections.map (SectionDescriptor.view file) =
    metadataKnown crc .keys (countedKeys (items.map Prod.fst)) ::
    metadataKnown crc .bandHashes (countedRows (items.map Prod.snd)) ::
    (first.map (segmentSection crc) ++ damaged :: last.map (segmentSection crc))
  groups : segmentsOf (bucketRecords items) = first ++ records :: last
  segment : DamagedSegment crc records damaged

section Flipped

variable {scheme scheme' : SignatureScheme} {crc : Checksum} {core : PersistentIndexCore scheme}
  {opened flipped : PersistentIndexCore scheme} {bytes bytes' : Bytes} {path : Path}

/-- A flipped snapshot that still opens, as an index of any scheme, has its metadata and one
damaged bucket section. -/
theorem exists_isDamaged (hcrc : crc.DetectsFlips) (hencode : core.encodeSnapshot crc = .ok bytes)
    (hflip : OneBit bytes bytes') {other : PersistentIndexCore scheme'}
    (hopen : PersistentIndexCore.openFile crc path bytes' = .ok other) :
    ∃ layout, FileLayout.readFrom crc bytes' = .ok layout ∧
      MetadataFor scheme core.config layout.metadata ∧
      FitsSnapshot core.config.params.bands core.items ∧
      ∃ first last records damaged,
        IsDamaged crc layout bytes' core.items first last records damaged := by
  obtain ⟨metadata, hmetadata, hfits, rfl⟩ :=
    PersistentIndexCore.encodeSnapshot_eq_ok_iff.mp hencode
  obtain ⟨layout, _, hread, hother, _⟩ := PersistentIndexCore.openFile_eq_ok hopen
  have hreadable := readable_of_openFile hopen hread
  obtain ⟨hdescribes, frames, hcount, haccepted, hfile, hview⟩ := readFrom_spec hread
  rw [hfile] at hflip
  obtain ⟨hsame, hframes⟩ := flippedFrames_of_container hcrc (hfits.accepted).1 hcount
    (hfits.accepted).2 haccepted hflip
  rw [hview, ← hother.bands, hsame, hmetadata.bands] at hreadable
  obtain ⟨first, last, records, damaged, hgroups, hknown, hsegment⟩ :=
    exists_damagedSegment hcrc core.config.bounds.2.2.2.1 hfits hframes haccepted hreadable
  exact ⟨layout, hread, hsame ▸ hmetadata, hfits, first, last, records, damaged, hdescribes,
    hview.trans hknown, hgroups, hsegment⟩

/-- The damaged section does not read as a whole. -/
theorem IsDamaged.exists_unreadable {layout : FileLayout} {items : List (UInt64 × List UInt64)}
    {first last : List (List BucketRecord)} {records : List BucketRecord} {damaged : KnownSection}
    (h : IsDamaged crc layout bytes items first last records damaged) :
    ∃ descriptor ∈ layout.sections, ∀ payload,
      layout.readSection crc bytes descriptor ≠ .ok payload := by
  have hlisted : damaged ∈ layout.sections.map (SectionDescriptor.view bytes) := by
    rw [h.sections]
    simp
  obtain ⟨descriptor, hmem, rfl⟩ := List.mem_map.mp hlisted
  refine ⟨descriptor, hmem, fun payload hread => ?_⟩
  obtain ⟨rfl, hchecksum⟩ := (readSection_eq_ok_iff h.describes hmem).mp hread
  exact h.segment.checksum hchecksum

section Damaged

variable {layout : FileLayout} {items : List (UInt64 × List UInt64)}
  {first last : List (List BucketRecord)} {records : List BucketRecord} {damaged : KnownSection}

/-- The bucket sections of a damaged snapshot are those behind the metadata sections. -/
theorem IsDamaged.kinds (h : IsDamaged crc layout bytes items first last records damaged) :
    ∀ known ∈ first.map (segmentSection crc) ++ damaged :: last.map (segmentSection crc),
      known.kind = .buckets := by
  intro known hknown
  rw [List.mem_append, List.mem_cons, List.mem_map, List.mem_map] at hknown
  rcases hknown with ⟨_, _, rfl⟩ | rfl | ⟨_, _, rfl⟩
  · rfl
  · exact h.segment.kind
  · rfl

theorem IsDamaged.bucketSections (h : IsDamaged crc layout bytes items first last records damaged) :
    (layout.sections.filter (·.kind = .buckets)).map (SectionDescriptor.view bytes) =
      first.map (segmentSection crc) ++ damaged :: last.map (segmentSection crc) := by
  rw [filter_kind_map_view, h.sections, List.filter_cons, List.filter_cons]
  exact List.filter_eq_self.mpr fun known hknown => decide_eq_true (h.kinds known hknown)

/-- The metadata sections of a damaged snapshot still hold its items. -/
theorem IsDamaged.holdsItems (h : IsDamaged crc layout bytes items first last records damaged)
    {bands : Nat} (hfits : FitsSnapshot bands items) : HoldsItems crc layout bytes bands items := by
  have hother : ∀ kind : SectionKind, kind ≠ .buckets →
      (first.map (segmentSection crc) ++ damaged :: last.map (segmentSection crc)).filter
        (·.kind = kind) = [] := by
    intro kind hkind
    refine List.filter_eq_nil_iff.mpr fun known hknown => ?_
    rw [h.kinds known hknown, decide_eq_true_eq]
    exact hkind.symm
  refine ⟨?_, ?_, hfits.width⟩
  all_goals
    rw [filter_kind_map_view, h.sections, List.filter_cons, List.filter_cons, hother _ (by decide)]
    rfl

/-- The locations of the directory of a damaged snapshot read the records of the original, or
nothing. -/
theorem IsDamaged.mayRead (h : IsDamaged crc layout bytes items first last records damaged)
    (hcrc : crc.DetectsFlips) {bands bands' : Nat} (hfits : FitsSnapshot bands items)
    {directory : List BucketLocation}
    (hdirectory : readDirectory StoreError.wrapping crc layout bytes bands'
      (layout.sections.filter (·.kind = .buckets)) = .ok directory) :
    List.Forall₂ (MayReadAs crc layout bytes) (bucketRecords items) directory := by
  -- Each bucket section holds its group, up to one flipped bit.
  have hsame : ∀ groups : List (List BucketRecord), List.Forall₂
      (fun group (known : KnownSection) => AtMostOneBit (segmentBytes crc group) known.payload)
      groups (groups.map (segmentSection crc)) := fun groups =>
    List.forall₂_map_right_iff.mpr (List.forall₂_same.mpr fun _ _ => Or.inl rfl)
  have hviews : List.Forall₂
      (fun group (known : KnownSection) => AtMostOneBit (segmentBytes crc group) known.payload)
      (segmentsOf (bucketRecords items))
      (first.map (segmentSection crc) ++ damaged :: last.map (segmentSection crc)) := by
    rw [h.groups]
    exact List.rel_append (hsame first) (.cons h.segment.payload (hsame last))
  rw [← h.bucketSections, List.forall₂_map_right_iff] at hviews
  rw [← segmentsOf_flatten (bucketRecords items)]
  refine readDirectory_forall₂ (forall₂_imp_of_mem hviews ?_) hdirectory
  intro group hgroup descriptor hdescriptor hpayload locations hdecode
  exact mayRead_of_flip hcrc h.describes (List.mem_filter.mp hdescriptor).1 (hfits.counts hgroup)
    hpayload hdecode

end Damaged

/-- What two readers of the same records answer: the overlay and the live keys being equal, the
answers are, as far as there are answers. -/
theorem queryHashes_unique {base base' : LazyBase} {records : List BucketRecord}
    {hashes result result' : List UInt64} (hbase : opened.base = some base)
    (hbase' : flipped.base = some base')
    (hreads : List.Forall₂ (MayReadAs crc base.layout base.file) records base.buckets)
    (hreads' : List.Forall₂ (MayReadAs crc base'.layout base'.file) records base'.buckets)
    (hascending : Ascending (records.map (·.key))) (hkeys : flipped.keyHashes = opened.keyHashes)
    (hoverlay : flipped.overlayBuckets = opened.overlayBuckets)
    (hsuppressed : flipped.suppressedBaseKeys = opened.suppressedBaseKeys)
    (hword : hashes.length ≤ 2 ^ 32) (hresult : opened.queryHashes crc hashes = .ok result)
    (hresult' : flipped.queryHashes crc hashes = .ok result') : result' = result := by
  simp only [PersistentIndexCore.queryHashes, PersistentIndexCore.collectCandidates,
    PersistentIndexCore.collectCommitted, hbase, hbase',
    PersistentIndexCore.collectBaseCandidates, bind_eq_ok_iff, pure_eq_ok_iff] at hresult hresult'
  obtain ⟨_, ⟨found, hfound, rfl⟩, rfl⟩ := hresult
  obtain ⟨_, ⟨found', hfound', rfl⟩, rfl⟩ := hresult'
  rw [hkeys, hsuppressed] at hfound'
  have hsame : found' = found := Std.ExtTreeSet.ext_mem fun member => by
    rw [mem_collectMembers_iff hreads hascending (by omega) hfound,
      mem_collectMembers_iff hreads' hascending (by omega) hfound']
  rw [hsame, hkeys, hoverlay]

/-- What a flipped snapshot that still opens yields: the index that was encoded, over a
directory of the same records. -/
theorem openFile_of_flip (hcrc : crc.DetectsFlips) (hencode : core.encodeSnapshot crc = .ok bytes)
    (hflip : OneBit bytes bytes')
    (hopen : PersistentIndexCore.openFile crc path bytes' = .ok flipped) :
    flipped.config = core.config ∧ flipped.keyHashes = core.keyHashes ∧
      flipped.overlayBuckets = emptyBucketTables core.config.params.bands ∧
      flipped.suppressedBaseKeys = ∅ ∧ ∃ base, flipped.base = some base ∧
        List.Forall₂ (MayReadAs crc base.layout base.file) (bucketRecords core.items) base.buckets := by
  obtain ⟨layout, hread, hmetadata, hfits, first, last, records, damaged, hdamaged⟩ :=
    exists_isDamaged hcrc hencode hflip hopen
  obtain ⟨layout', items, hread', hmetadata', hitems, hdistinct, hrows, _⟩ :=
    PersistentIndexCore.openFile_eq_ok hopen
  obtain rfl := Except.ok.inj (hread'.symm.trans hread)
  have hconfig : flipped.config = core.config :=
    Except.ok.inj (hmetadata'.config_eq.symm.trans hmetadata.config_eq)
  have hkeyHashes : flipped.keyHashes = core.keyHashes := by
    have hread := (readKeyMetadata_eq_ok_iff hdamaged.describes).mpr ⟨_, hdamaged.holdsItems hfits,
      ascending_keys.nodup, (insertRows_toList core.keyHashes).symm⟩
    have hread' := (readKeyMetadata_eq_ok_iff hdamaged.describes).mpr ⟨_, hitems, hdistinct, hrows⟩
    rw [hconfig] at hread'
    exact Except.ok.inj (hread'.symm.trans hread)
  obtain ⟨_, _, ⟨hnone, _⟩ | ⟨directory, hdirectory, hbase, hoverlay, _, hsuppressed⟩⟩ :=
    PersistentIndexCore.openFile_buckets hopen hread
  · have hbuckets := hdamaged.bucketSections
    rw [hnone] at hbuckets
    simp at hbuckets
  · rw [hconfig] at hoverlay
    exact ⟨hconfig, hkeyHashes, hoverlay, hsuppressed, _, hbase,
      hdamaged.mayRead hcrc hfits hdirectory⟩

/-- What the snapshot itself yields. -/
theorem openFile_of_encode (hencode : core.encodeSnapshot crc = .ok bytes)
    (hopen : PersistentIndexCore.openFile crc path bytes = .ok opened) :
    opened.config = core.config ∧ opened.keyHashes = core.keyHashes ∧
      opened.overlayBuckets = emptyBucketTables core.config.params.bands ∧
      opened.suppressedBaseKeys = ∅ ∧ ∃ base, opened.base = some base ∧
        List.Forall₂ (ReadsAs crc base.layout base.file) (bucketRecords core.items) base.buckets := by
  obtain ⟨layout, hencoded⟩ := PersistentIndexCore.encodeSnapshot_spec hencode
  obtain ⟨directory, hopen', hholds⟩ := hencoded.openFile path
  obtain rfl := Except.ok.inj (hopen.symm.trans hopen')
  exact ⟨rfl, rfl, rfl, rfl, _, rfl, hholds.reads⟩

/-- On full rows of hashes a damaged snapshot answers as the original does, or not at all. -/
theorem queryHashes_of_flip (hcrc : crc.DetectsFlips)
    (hencode : core.encodeSnapshot crc = .ok bytes) (hflip : OneBit bytes bytes')
    (hopened : PersistentIndexCore.openFile crc path bytes = .ok opened)
    (hflipped : PersistentIndexCore.openFile crc path bytes' = .ok flipped) {hashes : List UInt64}
    (hlength : hashes.length = core.config.params.bands) :
    (∃ error, flipped.queryHashes crc hashes = .error error) ∨
      flipped.queryHashes crc hashes = opened.queryHashes crc hashes := by
  obtain ⟨hconfig, hkeys, hoverlay, hsuppressed, base, hbase, hreads⟩ :=
    openFile_of_encode hencode hopened
  obtain ⟨_, hkeys', hoverlay', hsuppressed', base', hbase', hreads'⟩ :=
    openFile_of_flip hcrc hencode hflip hflipped
  have hreadable : ∀ other, opened.base = some other → ∀ location ∈ other.buckets,
      succeeds (readBucketMembers crc other.layout other.file location) := by
    intro other hother location hlocation
    obtain rfl := Option.some.inj (hbase.symm.trans hother)
    obtain ⟨record, _, hread⟩ := exists_left_of_forall₂ hreads hlocation
    exact ⟨_, hread.members⟩
  obtain ⟨result, hresult⟩ :=
    PersistentIndexCore.exists_queryHashes hreadable (hconfig ▸ hlength)
  cases hanswer : flipped.queryHashes crc hashes with
  | error error => exact Or.inl ⟨error, rfl⟩
  | ok answer =>
      have hword := PersistentIndexCore.bands_lt core.config
      refine Or.inr ?_
      rw [hresult, queryHashes_unique hbase hbase' (hreads.imp fun _ _ hread => hread.mayReadAs)
        hreads' ascending_bucketRecords (hkeys'.trans hkeys.symm) (hoverlay'.trans hoverlay.symm)
        (hsuppressed'.trans hsuppressed.symm) (by omega) hresult hanswer]

/-- A snapshot with one flipped bit does not open, or it opens and answers every query as the
original does or not at all. -/
theorem query_of_flip (hcrc : crc.DetectsFlips) (hencode : core.encodeSnapshot crc = .ok bytes)
    {position bit : Nat} (hposition : position < bytes.length) (hbit : bit < 8)
    (hopened : PersistentIndexCore.openFile crc path bytes = .ok opened) :
    (∃ error, (PersistentIndexCore.openFile crc path (flipBit bytes position bit) :
        Except StoreError (PersistentIndexCore scheme)) = .error error) ∨
      ∃ flipped : PersistentIndexCore scheme,
        PersistentIndexCore.openFile crc path (flipBit bytes position bit) = .ok flipped ∧
        (∀ sketch, (∃ error, flipped.query crc sketch = .error error) ∨
          flipped.query crc sketch = opened.query crc sketch) ∧
        ∀ sketches, (∃ error, flipped.queryMany crc sketches = .error error) ∨
          flipped.queryMany crc sketches = opened.queryMany crc sketches := by
  cases hflipped : (PersistentIndexCore.openFile crc path (flipBit bytes position bit) :
      Except StoreError (PersistentIndexCore scheme)) with
  | error error => exact Or.inl ⟨error, rfl⟩
  | ok flipped =>
      have hflip := oneBit_flipBit hposition hbit
      have hconfig : flipped.config = opened.config :=
        (openFile_of_flip hcrc hencode hflip hflipped).1.trans
          (openFile_of_encode hencode hopened).1.symm
      have hsame : opened.config = core.config := (openFile_of_encode hencode hopened).1
      have hqueries : ∀ hashes : List UInt64, hashes.length = opened.config.params.bands → _ :=
        fun hashes hlength =>
          queryHashes_of_flip hcrc hencode hflip hopened hflipped (hsame ▸ hlength)
      refine Or.inr ⟨flipped, rfl, fun sketch => ?_, fun sketches => ?_⟩
      · rw [PersistentIndexCore.query, PersistentIndexCore.query,
          PersistentIndexCore.bandHashes_congr hconfig]
        cases hhashes : opened.bandHashes sketch with
        | error error => exact Or.inl ⟨error, error_bind error _⟩
        | ok hashes => exact hqueries hashes (PersistentIndexCore.length_of_bandHashes hhashes)
      · rw [PersistentIndexCore.queryMany, PersistentIndexCore.queryMany,
          PersistentIndexCore.bandHashes_congr hconfig]
        cases hhashes : sketches.mapM opened.bandHashes with
        | error error => exact Or.inl ⟨error, error_bind error _⟩
        | ok hashesByQuery =>
            refine mapM_error_or_eq fun hashes hmem => ?_
            obtain ⟨sketch, _, hsketch⟩ :=
              exists_left_of_forall₂ (mapM_eq_ok_iff.mp hhashes) hmem
            exact hqueries hashes (PersistentIndexCore.length_of_bandHashes hsketch)

end Flipped

/-- A flipped bit in the snapshot of one key. -/
theorem query_of_flip_one_item :
    ∃ (bytes : Bytes) (opened : PersistentIndex32),
      sampleCore.encodeSnapshot Checksum.crc32 = .ok bytes ∧
      ((∃ error, (PersistentIndexCore.openFile Checksum.crc32 sampleCore.path (flipBit bytes 0 0) :
          Except StoreError PersistentIndex32) = .error error) ∨
        ∃ flipped : PersistentIndex32,
          PersistentIndexCore.openFile Checksum.crc32 sampleCore.path (flipBit bytes 0 0) =
            .ok flipped ∧
          ∀ sketch, (∃ error, flipped.query Checksum.crc32 sketch = .error error) ∨
            flipped.query Checksum.crc32 sketch = opened.query Checksum.crc32 sketch) := by
  obtain ⟨bytes, hencode⟩ := exists_encodeSnapshot_sampleCore
  obtain ⟨opened, hopened, _⟩ :=
    PersistentIndexCore.exists_openFile_of_encodeSnapshot hencode sampleCore.path
  have hlength := PersistentIndexCore.length_pos_of_encodeSnapshot hencode
  refine ⟨bytes, opened, hencode, ?_⟩
  rcases query_of_flip Checksum.crc32_detectsFlips hencode hlength (by decide : 0 < 8) hopened with
    hfails | ⟨flipped, hflipped, hqueries, _⟩
  · exact Or.inl hfails
  · exact Or.inr ⟨flipped, hflipped, hqueries⟩

end Pari.Store
