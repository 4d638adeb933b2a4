/-
# What a build publishes

A build that succeeds leaves at its destination the output of its source: a function of what the
source holds, whatever the bound on the buffer. If the keys of the source ascend, it is also what
the builder in memory publishes.
-/

import Pari.Build.External
import Pari.Lazy.Create

namespace Pari.Build

open Data Pari.Format Pari.Store

variable {crc : Checksum} {file : Bytes} {source : Source} {sourcePath temporary destination : Path}
  {nonce : Nat} {options : BuildOptions} {clock : Option Nat} {world world' : World}
  {items : List (UInt64 × List UInt64)} {stats : BuildStats} {bytes : Bytes}

/-! ## A build that succeeds -/

theorem holds_of_publishNoReplace (h : world.files.Holds temporary.location bytes)
    (hok : publishNoReplace temporary destination world = (.ok (), world')) :
    world'.files.Holds destination.location bytes := by
  unfold publishNoReplace publishNoReplaceWith at hok
  split at hok
  · cases hok
  next identity identified hidentity =>
  have hsame := (World.handleFromPath_eq_ok hidentity).2
  split at hok
  · split at hok
    · cases hok
    · cases hok
  next linked hlink =>
  split at hok
  · cases hok
  next removed hremove =>
  split at hok
  · cases hok
  next last hsync =>
  cases hok
  exact (World.holds_of_publication (hsame ▸ h) hlink hremove hsync).1

/-- What is published is there when the temporary names are gone. -/
theorem holds_of_buildTracked {scratch : Scratch} (hcrc : crc.Incremental)
    (hsource : source.Reads crc file items)
    (hcall : call ⟨[], world⟩ (buildTracked crc file source destination nonce options) =
      (.ok stats, scratch)) :
    scratch.drop.files.Holds destination.location
      (outputBytes crc source.layout.metadata items) := by
  have hfits : bufferFits options := by
    by_contra hfits
    rw [call_buildTracked_of_not_fits hsource hfits] at hcall
    cases hcall
  obtain ⟨_, staged, hstage, hpublish⟩ := call_bind_eq_ok_iff.mp hcall
  obtain ⟨_, published, hperform, hreturn⟩ := call_bind_eq_ok_iff.mp hpublish
  obtain ⟨-, rfl⟩ := Prod.mk.inj hreturn
  obtain ⟨⟨hpaths, _, _⟩, hholds⟩ := (@meets_stageOutput crc file source items destination nonce
    options ⟨[], world⟩ hcrc hsource hfits).completes _ _ hstage
  rcases hrun : publishNoReplace (tempPath destination nonce "commit") destination staged.world with
    ⟨publishing, after⟩
  rw [Scratch.call_perform hrun] at hperform
  obtain ⟨hok, rfl⟩ := Prod.mk.inj hperform
  rw [mapError_eq_ok_iff] at hok
  subst hok
  apply holds_drop (holds_of_publishNoReplace hholds hrun)
  intro path hpath
  rw [hpaths, List.nil_append] at hpath
  obtain ⟨suffix, rfl, -⟩ := begins_temporaryNames path hpath
  exact tempPath_ne_destination

/-- A build that succeeds has published the output of what its source holds. -/
theorem buildExternal_eq_ok (hcrc : crc.Incremental)
    (h : buildExternal crc sourcePath destination options clock world = (.ok stats, world')) :
    ∃ file layout items, world.files.read sourcePath.location = some file ∧
      SourceHolds crc layout file items ∧
      world'.files.Holds destination.location (outputBytes crc layout.metadata items) := by
  unfold buildExternal at h
  split at h
  · cases h
  split at h
  · cases h
  next looked hlooked =>
  have hexists := @World.files_pathExists world destination
  rw [hlooked] at hexists
  split at h
  · cases h
  next file opened hopen =>
  obtain ⟨hread, _⟩ := World.openRead_eq_ok hopen
  split at h
  · cases h
  next checked _ =>
  split at h
  · cases h
  next source haccepted =>
  split at h
  · cases h
  next nonce _ =>
  obtain ⟨items, hsource⟩ := (readSource_eq_ok_iff hcrc).mp haccepted
  obtain ⟨hok, rfl⟩ := Prod.mk.inj h
  refine ⟨file, source.layout, items, hexists ▸ hread, hsource.holds, ?_⟩
  exact holds_of_buildTracked hcrc hsource (Prod.ext hok rfl)

/-! ## Without faults -/

theorem exists_publishNoReplace_of_quiet (hquiet : world.Quiet)
    (hholds : world.files.Holds temporary.location bytes)
    (hfree : world.files.entries destination.location = none) :
    ∃ world', publishNoReplace temporary destination world = (.ok (), world') := by
  obtain ⟨inode, hentry, _⟩ := hholds
  have hidentity : world.handleFromPath temporary = (.ok (.file inode), world.leave world.files) :=
    World.call_of_quiet hquiet (by rw [FileSystem.lookup_of_entry hentry])
  obtain ⟨linked, removed, last, hlink, hremove, hsync⟩ :=
    @World.exists_publication_of_quiet (world.leave world.files) temporary destination inode
      (hquiet.leave _) hentry hfree destination.directory
  refine ⟨last, ?_⟩
  unfold publishNoReplace publishNoReplaceWith
  rw [hidentity]
  dsimp only
  rw [hlink]
  dsimp only
  rw [hremove]
  dsimp only [syncParentDirectory]
  rw [hsync]

/-- In a directory that is free, a build of a source that the builder accepts succeeds. -/
theorem exists_buildExternal_of_quiet (hcrc : crc.Incremental) (hquiet : world.Quiet)
    (hbuffer : options.maxBufferRecords ≠ 0) (hfits : bufferFits options)
    (hfile : world.files.read sourcePath.location = some file)
    (hsource : source.Reads crc file items)
    (hnonce : buildNonce clock world.processId = .ok nonce)
    (hdestination : world.files.entries destination.location = none)
    (hfree : ∀ path ∈ (temporaryNames destination nonce options items).flatten,
      world.files.entries path.location = none) :
    ∃ stats world', buildExternal crc sourcePath destination options clock world =
      (.ok stats, world') := by
  have hpath := World.pathExists_of_quiet hquiet hdestination
  have hopen := World.openRead_of_quiet (hquiet.leave world.files) hfile
  let opened := (world.leave world.files).leave world.files
  have hopened : opened.Quiet := (hquiet.leave _).leave _
  have hread : opened.readOn = (.ok (), opened.leave world.files) := World.call_of_quiet hopened rfl
  have haccepted := (readSource_eq_ok_iff hcrc).mpr ⟨items, hsource⟩
  rw [buildExternal_of_accepted hbuffer hpath hopen hread haccepted hnonce]
  have hmeets := @meets_stageOutput crc file source items destination nonce options
    ⟨[], opened.leave world.files⟩ hcrc hsource hfits
  rcases hstage : call ⟨[], opened.leave world.files⟩
    (stageOutput crc file source destination nonce options) with ⟨result, staged⟩
  cases result with
  | error error =>
      -- Only a taken name stops a build without faults.
      obtain ⟨done, rest, hnames, hhalts⟩ := hmeets.stops error staged hstage
      obtain ⟨earlier, group, path, rfl, hpath, htaken⟩ := hhalts.taken (hopened.leave _)
      refine absurd (hfree path ?_) htaken
      rw [hnames, List.flatten_append, List.flatten_append, List.flatten_singleton]
      exact List.mem_append_left _ (List.mem_append_right _ hpath)
  | ok stats =>
      obtain ⟨⟨_, _, hsteps⟩, hholds⟩ := hmeets.completes stats staged hstage
      have hstill : staged.world.files.entries destination.location = none := by
        rw [hsteps.holds.outside destination.location fun path hpath => ?_]
        · exact hdestination
        · obtain ⟨suffix, rfl, -⟩ := begins_temporaryNames path hpath
          exact tempPath_ne_destination
      obtain ⟨published, hpublish⟩ := exists_publishNoReplace_of_quiet
        (hsteps.quiet (hopened.leave _)) hholds hstill
      have hreturn : call ⟨[], opened.leave world.files⟩
          (buildTracked crc file source destination nonce options) =
            (.ok stats, ⟨staged.paths, published⟩) := by
        rw [buildTracked, call_bind_ok hstage, call_bind_ok (Scratch.call_perform hpublish), call_pure]
      rw [hreturn]
      exact ⟨stats, _, rfl⟩

/-- A build of a source in a directory that holds nothing else. -/
theorem exists_buildExternal_worldHolding (hsource : source.Reads Checksum.crc32 file items)
    (hbuffer : options.maxBufferRecords ≠ 0) (hfits : bufferFits options) :
    ∃ stats world', buildExternal Checksum.crc32 inPath outPath options (some 0)
      (worldHolding inPath.location file) = (.ok stats, world') := by
  have hnonce : buildNonce (some 0) 1 = .ok 1 := by rfl
  have hother : outPath.location ≠ inPath.location := by decide
  apply @exists_buildExternal_of_quiet Checksum.crc32 file source inPath outPath 1 options (some 0)
    (worldHolding inPath.location file) items Checksum.crc32_incremental (fun _ _ => rfl) hbuffer
    hfits read_worldHolding hsource hnonce
  · simp [worldHolding, Function.update_of_ne hother]
  · exact fun path hpath => free_worldHolding (begins_temporaryNames path hpath)

/-! ## One output -/

/-- Whatever builds a source, and whatever its buffer holds, it publishes the same: the metadata
and the two sections of the source, and the buckets of its items in segments. -/
theorem buildExternal_output (hcrc : crc.Incremental)
    (h : buildExternal crc sourcePath destination options clock world = (.ok stats, world')) :
    ∃ file layout items, world.files.read sourcePath.location = some file ∧
      SourceHolds crc layout file items ∧
      world'.files.Holds destination.location (containerBytes crc layout.metadata
        ((snapshotSections crc (countedKeys (items.map Prod.fst))
          (countedRows (items.map Prod.snd)) (segmentsOf (sourceBuckets items))).map
            KnownSection.frame)) ∧
      (Ascending ((sourceBuckets items).map (·.key)) ∧
        ∀ record, record ∈ sourceBuckets items ↔
          record.members = sortUnstable (fibre (bucketEntries items) record.key) ∧
            record.members ≠ []) ∧
      (∀ (sourcePath₂ destination₂ : Path) (options₂ : BuildOptions) (clock₂ : Option Nat)
          (world₂ world₂' : World) (stats₂ : BuildStats),
        world₂.files.read sourcePath₂.location = some file →
        buildExternal crc sourcePath₂ destination₂ options₂ clock₂ world₂ = (.ok stats₂, world₂') →
          world₂'.files.Holds destination₂.location (outputBytes crc layout.metadata items)) ∧
      (Ascending (items.map Prod.fst) →
        ∀ (sourcePath₂ destination₂ : Path) (world₂ world₂' : World),
          world₂.files.read sourcePath₂.location = some file →
          Lazy.buildFromSnapshot crc sourcePath₂ destination₂ world₂ = (.ok (), world₂') →
            world₂'.files.Holds destination₂.location (outputBytes crc layout.metadata items)) := by
  obtain ⟨file, layout, items, hfile, hsource, hholds⟩ := buildExternal_eq_ok hcrc h
  refine ⟨file, layout, items, hfile, hsource, hholds,
    ⟨ascending_sourceBuckets, fun _ => mem_sourceBuckets_iff⟩, ?_, ?_⟩
  · intro sourcePath₂ destination₂ options₂ clock₂ world₂ world₂' stats₂ hfile₂ h₂
    obtain ⟨file₂, layout₂, items₂, hread₂, hsource₂, hholds₂⟩ := buildExternal_eq_ok hcrc h₂
    obtain rfl : file₂ = file := Option.some.inj (hread₂.symm.trans hfile₂)
    obtain ⟨rfl, rfl⟩ := hsource.unique hsource₂
    exact hholds₂
  · intro hascending sourcePath₂ destination₂ world₂ world₂' hfile₂ h₂
    obtain ⟨file₂, bytes, hread₂, hencode, hholds₂⟩ := Lazy.buildFromSnapshot_eq_ok h₂
    obtain rfl : file₂ = file := Option.some.inj (hread₂.symm.trans hfile₂)
    obtain ⟨layout₂, items₂, hsource₂, _, rfl⟩ := Lazy.encodeFromSnapshot_eq_ok_iff.mp hencode
    obtain ⟨rfl, rfl⟩ := hsource.unique hsource₂
    rw [outputBytes, outputSections, sourceBuckets_eq hascending hsource.width_lt]
    exact hholds₂

/-- A build of one item. -/
theorem buildExternal_output_sample : ∃ stats world',
    buildExternal Checksum.crc32 inPath outPath ⟨1⟩ (some 0) sourceWorld = (.ok stats, world') ∧
      ∃ file layout items, sourceWorld.files.read inPath.location = some file ∧
        SourceHolds Checksum.crc32 layout file items ∧
        world'.files.Holds outPath.location (outputBytes Checksum.crc32 layout.metadata items) := by
  obtain ⟨source, hreads⟩ := exists_reads_oneItem
  obtain ⟨stats, world', h⟩ := @exists_buildExternal_worldHolding _ _ ⟨1⟩ _ hreads (by decide)
    (by decide)
  obtain ⟨file, layout, items, hfile, hsource, hholds, _⟩ :=
    buildExternal_output Checksum.crc32_incremental h
  exact ⟨stats, world', h, file, layout, items, hfile, hsource, hholds⟩

end Pari.Build
