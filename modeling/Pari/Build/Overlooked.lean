/-
# What the builders overlook

Neither builder looks at the sections of its source beside the keys and the rows, or whether a key
comes twice. So each builds from sources that the store refuses to open even when their bucket
sections are taken away: those with required tombstones, and those with a repeated key.
-/

import Pari.Build.Output

namespace Pari.Build

open Data Pari.Format Pari.Store

variable {crc : Checksum} {layout : FileLayout} {file : Bytes} {frames : List Frame}
  {items : List (UInt64 × List UInt64)}

/-! ## A source without its buckets -/

/-- The frames of a container that are no bucket sections. -/
def withoutBuckets (frames : List Frame) : List Frame :=
  frames.filter fun frame => SectionKind.fromRaw frame.kindRaw ≠ some .buckets

theorem filterMap_withoutBuckets (frames : List Frame) :
    (withoutBuckets frames).filterMap Frame.known? =
      (frames.filterMap Frame.known?).filter fun known => known.kind ≠ .buckets := by
  induction frames with
  | nil => rfl
  | cons frame frames ih =>
      rw [withoutBuckets] at ih ⊢
      cases hkind : SectionKind.fromRaw frame.kindRaw with
      | none =>
          have hknown : frame.known? = none := by rw [Frame.known?, hkind]; rfl
          rw [List.filter_cons_of_pos (by simp [hkind]), List.filterMap_cons_none hknown,
            List.filterMap_cons_none hknown, ih]
      | some kind =>
          obtain ⟨known, hknown, rfl⟩ : ∃ known, frame.known? = some known ∧ known.kind = kind := by
            rw [Frame.known?, hkind]
            exact ⟨_, rfl, rfl⟩
          by_cases hbuckets : known.kind = .buckets
          · rw [List.filter_cons_of_neg (by simp [hkind, hbuckets]),
              List.filterMap_cons_some hknown, List.filter_cons_of_neg (by simp [hbuckets]), ih]
          · rw [List.filter_cons_of_pos (by simp [hkind, hbuckets]),
              List.filterMap_cons_some hknown, List.filterMap_cons_some hknown,
              List.filter_cons_of_pos (by simp [hbuckets]), ih]

/-- Taking the buckets away leaves the sections of another kind. -/
theorem filter_kind_withoutBuckets {sections : List KnownSection} {kind : SectionKind}
    (hkind : kind ≠ .buckets) :
    (sections.filter fun known => known.kind ≠ .buckets).filter (·.kind = kind) =
      sections.filter (·.kind = kind) := by
  rw [List.filter_filter]
  apply List.filter_congr
  intro known _
  by_cases hsame : known.kind = kind
  · simp [hsame, hkind]
  · simp [hsame]

/-- A source without its buckets is a source of the same items, and opens exactly if no key is
repeated and no tombstones are required. -/
theorem exists_openFile_withoutBuckets_iff (h : SourceHolds crc layout file items)
    (hcount : frames.length ≤ maxSectionCount) (haccepted : ∀ frame ∈ frames, frame.Accepted crc)
    (hsections : layout.sections.map (SectionDescriptor.view file) =
      frames.filterMap Frame.known?) {path : Path} :
    (∃ core : PersistentIndexCore layout.metadata.signatureScheme,
        PersistentIndexCore.openFile crc path
          (containerBytes crc layout.metadata (withoutBuckets frames)) = .ok core) ↔
      (items.map Prod.fst).Nodup ∧ ∀ descriptor ∈ layout.sections,
        descriptor.kind = .tombstones → descriptor.required = false := by
  obtain ⟨stripped, hread, hmetadata, _, hviews⟩ :=
    @readFrom_containerBytes crc layout.metadata (withoutBuckets frames)
      ((List.length_filter_le _ _).trans hcount) fun frame hframe =>
        haccepted frame (List.mem_filter.mp hframe).1
  rw [filterMap_withoutBuckets, ← hsections] at hviews
  have hkinds : ∀ kind, kind ≠ SectionKind.buckets →
      (stripped.sections.filter (·.kind = kind)).map (SectionDescriptor.view
        (containerBytes crc layout.metadata (withoutBuckets frames))) =
      (layout.sections.filter (·.kind = kind)).map (SectionDescriptor.view file) := by
    intro kind hkind
    rw [filter_kind_map_view, hviews, filter_kind_withoutBuckets hkind, filter_kind_map_view]
  have hholds : SourceHolds crc stripped
      (containerBytes crc layout.metadata (withoutBuckets frames)) items := by
    refine ⟨hread, hmetadata ▸ h.keyCodec, hmetadata ▸ h.featureFlags, ?_, ?_,
      hmetadata ▸ h.items.width⟩
    · exact (hkinds _ (by decide)).trans h.items.keys
    · exact (hkinds _ (by decide)).trans h.items.hashes
  have hnone : stripped.sections.filter (·.kind = .buckets) = [] := by
    apply List.map_eq_nil_iff.mp
    rw [filter_kind_map_view, hviews, List.filter_filter, List.filter_eq_nil_iff]
    simp
  have hscheme : stripped.metadata.signatureScheme = layout.metadata.signatureScheme := by
    rw [hmetadata]
  rw [hholds.exists_openFile_iff hscheme hnone]
  apply and_congr_right
  intro _
  have hrequired : ∀ (other : FileLayout) (bytes : Bytes),
      (∀ descriptor ∈ other.sections, descriptor.kind = .tombstones →
        descriptor.required = false) ↔
      ∀ known ∈ (other.sections.filter (·.kind = .tombstones)).map (SectionDescriptor.view bytes),
        known.required = false := by
    intro other bytes
    simp only [List.forall_mem_map, List.mem_filter, decide_eq_true_eq, and_imp]
    rfl
  rw [hrequired stripped, hkinds _ (by decide), ← hrequired]

/-! ## What opens of what was built -/

/-- If a builder succeeds on a source, then the source without its buckets opens under its own
scheme exactly if it has no required tombstones and no key twice. -/
theorem opens_withoutBuckets_iff {sourcePath : Path} {world : World} (hcrc : crc.Incremental)
    (hfile : world.files.read sourcePath.location = some file)
    (hbuild : (∃ destination options clock stats world',
        buildExternal crc sourcePath destination options clock world = (.ok stats, world')) ∨
      ∃ destination world',
        Lazy.buildFromSnapshot crc sourcePath destination world = (.ok (), world')) :
    ∃ layout frames items, FileLayout.readFrom crc file = .ok layout ∧
      file = containerBytes crc layout.metadata frames ∧ (∀ frame ∈ frames, frame.Accepted crc) ∧
      SourceHolds crc layout file items ∧
      ∀ path, ((∃ core : PersistentIndexCore layout.metadata.signatureScheme,
          PersistentIndexCore.openFile crc path
            (containerBytes crc layout.metadata (withoutBuckets frames)) = .ok core) ↔
        (items.map Prod.fst).Nodup ∧ ∀ descriptor ∈ layout.sections,
          descriptor.kind = .tombstones → descriptor.required = false) := by
  obtain ⟨layout, items, hsource⟩ : ∃ layout items, SourceHolds crc layout file items := by
    rcases hbuild with ⟨_, _, _, _, _, h⟩ | ⟨_, _, h⟩
    · obtain ⟨file', layout, items, hread, hsource, _⟩ := buildExternal_eq_ok hcrc h
      obtain rfl := Option.some.inj (hread.symm.trans hfile)
      exact ⟨layout, items, hsource⟩
    · obtain ⟨file', bytes, hread, hencode, _⟩ := Lazy.buildFromSnapshot_eq_ok h
      obtain rfl := Option.some.inj (hread.symm.trans hfile)
      obtain ⟨layout, items, hsource, _⟩ := Lazy.encodeFromSnapshot_eq_ok_iff.mp hencode
      exact ⟨layout, items, hsource⟩
  obtain ⟨_, frames, hcount, haccepted, hbytes, hsections⟩ := readFrom_spec hsource.read
  exact ⟨layout, frames, items, hsource.read, hbytes, haccepted, hsource, fun path =>
    exists_openFile_withoutBuckets_iff hsource hcount haccepted hsections⟩

/-- A required section of tombstones. -/
def requiredTombstones : KnownSection := metadataKnown Checksum.crc32 .tombstones []

/-- One item, and tombstones that a reader must understand. -/
def tombstonedFile : Bytes :=
  containerBytes Checksum.crc32 oneBandMetadata
    ((sectionsWith Checksum.crc32 oneItem [requiredTombstones]).map KnownSection.frame)

/-- The bounded builder takes the source with required tombstones, which does not open without its
buckets: it has none to take away. -/
theorem opens_withoutBuckets_tombstones_sample : ∃ layout frames stats world',
    buildExternal Checksum.crc32 inPath outPath ⟨1⟩ (some 0)
        (worldHolding inPath.location tombstonedFile) = (.ok stats, world') ∧
      FileLayout.readFrom Checksum.crc32 tombstonedFile = .ok layout ∧
      tombstonedFile = containerBytes Checksum.crc32 layout.metadata frames ∧
      (∀ frame ∈ frames, frame.Accepted Checksum.crc32) ∧
      ¬ ∃ core : PersistentIndexCore layout.metadata.signatureScheme,
        PersistentIndexCore.openFile Checksum.crc32 inPath
          (containerBytes Checksum.crc32 layout.metadata (withoutBuckets frames)) = .ok core := by
  obtain ⟨layout, hholds, hmetadata, hviews⟩ := @exists_sourceHolds Checksum.crc32 oneBandMetadata
    oneItem [requiredTombstones] rfl rfl (by decide) (by decide) (by decide) (by decide)
  obtain ⟨source, hreads, -⟩ := exists_reads hholds
  obtain ⟨stats, world', hbuild⟩ := @exists_buildExternal_worldHolding _ _ ⟨1⟩ _ hreads (by decide)
    (by decide)
  obtain ⟨_, frames, hcount, haccepted, hbytes, hsections⟩ := readFrom_spec hholds.read
  refine ⟨layout, frames, stats, world', hbuild, hholds.read, hbytes, haccepted, ?_⟩
  rw [exists_openFile_withoutBuckets_iff hholds hcount haccepted hsections]
  rintro ⟨-, hoptional⟩
  have hmem : requiredTombstones ∈
      layout.sections.map (SectionDescriptor.view tombstonedFile) := by
    rw [tombstonedFile, hviews]
    simp [sectionsWith]
  obtain ⟨descriptor, hdescriptor, hview⟩ := List.mem_map.mp hmem
  have hrequired : descriptor.required = true := congrArg KnownSection.required hview
  rw [hoptional descriptor hdescriptor (congrArg KnownSection.kind hview)] at hrequired
  cases hrequired

/-- A source of one item opens without its buckets. -/
theorem opens_withoutBuckets_sample : ∃ layout frames items,
    FileLayout.readFrom Checksum.crc32 oneItemFile = .ok layout ∧
      oneItemFile = containerBytes Checksum.crc32 layout.metadata frames ∧
      SourceHolds Checksum.crc32 layout oneItemFile items ∧
      ((∃ core : PersistentIndexCore layout.metadata.signatureScheme,
          PersistentIndexCore.openFile Checksum.crc32 inPath
            (containerBytes Checksum.crc32 layout.metadata (withoutBuckets frames)) = .ok core) ↔
        (items.map Prod.fst).Nodup ∧ ∀ descriptor ∈ layout.sections,
          descriptor.kind = .tombstones → descriptor.required = false) := by
  obtain ⟨source, hreads⟩ := exists_reads_oneItem
  obtain ⟨stats, world', h⟩ := @exists_buildExternal_worldHolding _ _ ⟨1⟩ _ hreads (by decide)
    (by decide)
  obtain ⟨layout, frames, items, hread, hbytes, -, hsource, hopens⟩ := opens_withoutBuckets_iff
    Checksum.crc32_incremental read_worldHolding (Or.inl ⟨_, _, _, _, _, h⟩)
  exact ⟨layout, frames, items, hread, hbytes, hsource, hopens inPath⟩

end Pari.Build
