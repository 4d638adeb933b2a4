/-
# What a build leaves alone

The builder tracks a temporary name before it makes the file, and removes every tracked name when
it ends. So it removes a file of another process under the name it stops at, whatever makes it
stop. It leaves everything alone exactly if no name of the first group that it cannot make is
taken by a file or a link.
-/

import Pari.Build.External

namespace Pari.Build

open Data Pari.Format Pari.Store

variable {crc : Checksum} {file : Bytes} {source : Source} {sourcePath temporary destination : Path}
  {nonce : Nat} {options : BuildOptions} {clock : Option Nat} {world : World} {base : FileSystem}
  {items : List (UInt64 × List UInt64)}

/-! ## Publishing -/

theorem recoverAfterPublication_steps {identity : Handle} {original : IoError}
    (h : base.Extends world.files) (htemporary : base.entries temporary.location = none)
    (hdestination : base.entries destination.location = none) :
    world.Steps base.Extends
      (recoverAfterPublication temporary destination identity original world).2 := by
  have hrollback := @World.rollbackLinked_steps base destination identity world h hdestination
  exact hrollback.trans (World.removeIfExists_steps hrollback.holds htemporary)

/-- Publishing beside existing files leaves them alone. -/
theorem publishNoReplace_steps (h : base.Extends world.files)
    (htemporary : base.entries temporary.location = none) :
    world.Steps base.Extends (publishNoReplace temporary destination world).2 := by
  have hlook := (@World.handleFromPath_steps world temporary).of_look h
  unfold publishNoReplace publishNoReplaceWith
  rcases hhandle : world.handleFromPath temporary with ⟨handling, identified⟩
  rw [hhandle] at hlook
  cases handling with
  | error error => exact hlook
  | ok identity =>
      dsimp only
      rcases hlink : identified.hardLink temporary destination with ⟨linking, linked⟩
      cases linking with
      | error error =>
          have hsame := hlook.trans ((World.look_of_error hlink).of_look hlook.holds)
          dsimp only
          split
          · exact hsame
          · exact hsame
      | ok value =>
          -- The destination was free, or the link would not have been made.
          have hdestination := hlook.holds.free (World.hardLink_eq_ok hlink).2.1
          have hlinked := @World.hardLink_steps identified base temporary destination hlook.holds
            hdestination
          rw [hlink] at hlinked
          have hremove := (hlook.trans hlinked).trans
            (World.removeFile_steps hlinked.holds htemporary)
          dsimp only
          rcases hremoved : linked.removeFile temporary with ⟨removal, removed⟩
          rw [hremoved] at hremove
          cases removal with
          | error error =>
              exact hremove.trans (@recoverAfterPublication_steps temporary destination removed base
                identity error hremove.holds htemporary hdestination)
          | ok value =>
              have hsync := hremove.trans
                ((@World.syncDirectory_steps removed destination.directory).of_look hremove.holds)
              dsimp only [syncParentDirectory]
              rcases hsynced : removed.syncDirectory destination.directory with ⟨syncing, synced⟩
              rw [hsynced] at hsync
              cases syncing with
              | error error =>
                  exact hsync.trans (@recoverAfterPublication_steps temporary destination synced
                    base identity error hsync.holds htemporary hdestination)
              | ok value => exact hsync

/-! ## While the names are tracked -/

/-- If the names are safe, a build leaves what was there. -/
theorem drop_buildTracked_steps (hcrc : crc.Incremental) (hsource : source.Reads crc file items)
    (hfits : bufferFits options)
    (hsafe : Safe world.files (temporaryNames destination nonce options items)) :
    world.Steps world.files.Extends
      (call ⟨[], world⟩ (buildTracked crc file source destination nonce options)).2.drop := by
  have hmeets := @meets_stageOutput crc file source items destination nonce options ⟨[], world⟩
    hcrc hsource hfits
  unfold buildTracked
  rcases hcall : call ⟨[], world⟩ (stageOutput crc file source destination nonce options) with
    ⟨result, staged⟩
  cases result with
  | error error =>
      rw [call_bind_error hcall]
      exact hmeets.steps_of_safe rfl hsafe hcall
  | ok stats =>
      obtain ⟨⟨hpaths, hfree, hsteps⟩, -⟩ := hmeets.completes stats staged hcall
      have hcommit : tempPath destination nonce "commit" ∈
          (temporaryNames destination nonce options items).flatten := by
        simp [temporaryNames]
      have hpublish := @publishNoReplace_steps (tempPath destination nonce "commit") destination
        staged.world world.files hsteps.holds.keeps (hfree _ hcommit)
      have hdropped : (call staged (Scratch.perform id (publishNoReplace
          (tempPath destination nonce "commit") destination) >>= fun _ =>
            (pure stats : Method Scratch BuildError BuildStats))).2 =
          ⟨staged.paths, (publishNoReplace (tempPath destination nonce "commit") destination
            staged.world).2⟩ := by
        rcases hrun : publishNoReplace (tempPath destination nonce "commit") destination
          staged.world with ⟨publishing, published⟩
        cases publishing with
        | error error => rw [call_bind_error (Scratch.call_perform hrun)]
        | ok value => rw [call_bind_ok (Scratch.call_perform hrun), call_pure]
      rw [call_bind_ok hcall, hdropped]
      have hkept := (hsteps.imp fun files hadds => hadds.keeps).trans hpublish
      apply hkept.trans
      apply drop_steps _ hpublish.holds
      intro path hpath
      rw [hpaths, List.nil_append] at hpath
      exact Or.inl (hfree path hpath)

/-- If the names are not safe, a build without faults removes one that was there. -/
theorem exists_removed_of_not_safe (hcrc : crc.Incremental) (hsource : source.Reads crc file items)
    (hfits : bufferFits options) (hquiet : world.Quiet)
    (hdanger : ¬ Safe world.files (temporaryNames destination nonce options items)) :
    ∃ path entry, world.files.entries path = some entry ∧
      (call ⟨[], world⟩ (buildTracked crc file source destination nonce
        options)).2.drop.files.entries path = none := by
  have hmeets := @meets_stageOutput crc file source items destination nonce options ⟨[], world⟩
    hcrc hsource hfits
  obtain ⟨error, after, path, entry, hcall, hentry, hgone⟩ :=
    hmeets.removes_of_not_safe hquiet hdanger
  refine ⟨path.location, entry, hentry, ?_⟩
  rw [buildTracked, call_bind_error hcall]
  exact hgone

/-! ## Whole builds -/

/-- The condition on the names: whenever the build gets as far as tracking some, they are safe. -/
def SparesNames (crc : Checksum) (sourcePath destination : Path) (options : BuildOptions)
    (clock : Option Nat) (world : World) : Prop :=
  ∀ (file : Bytes) (source : Source) (items : List (UInt64 × List UInt64)) (nonce : Nat),
    options.maxBufferRecords ≠ 0 → bufferFits options →
    world.files.read sourcePath.location = some file → source.Reads crc file items →
    buildNonce clock world.processId = .ok nonce →
      Safe world.files (temporaryNames destination nonce options items)

/-- If the names are spared, so is everything else, whatever fails. -/
theorem buildExternal_steps (hcrc : crc.Incremental)
    (h : SparesNames crc sourcePath destination options clock world) :
    world.Steps world.files.Extends
      (buildExternal crc sourcePath destination options clock world).2 := by
  have hrefl : world.Steps world.files.Extends world := .refl (.refl _)
  unfold buildExternal
  split
  · exact hrefl
  next hbuffer =>
  have hexists := @World.pathExists_steps world destination
  rcases hpath : world.pathExists destination with ⟨exists', looked⟩
  rw [hpath] at hexists
  cases exists' with
  | true => exact hexists.of_look (.refl _)
  | false =>
  dsimp only
  have hopen := hexists.look_trans (World.openRead_steps sourcePath)
  rcases hsource : looked.openRead sourcePath with ⟨reading, opened⟩
  rw [hsource] at hopen
  cases reading with
  | error error => exact hopen.of_look (.refl _)
  | ok file =>
  dsimp only
  have hread := hopen.look_trans World.readOn_steps
  rcases hon : opened.readOn with ⟨continuing, checked⟩
  rw [hon] at hread
  cases continuing with
  | error error => exact hread.of_look (.refl _)
  | ok value =>
  dsimp only
  cases haccepted : readSource crc file with
  | error error => exact hread.of_look (.refl _)
  | ok source =>
  dsimp only
  cases hnonce : buildNonce clock checked.processId with
  | error error => exact hread.of_look (.refl _)
  | ok nonce =>
  obtain ⟨items, hreads⟩ := (readSource_eq_ok_iff hcrc).mp haccepted
  have hfile : world.files.read sourcePath.location = some file := by
    rw [← hexists.holds]
    exact (World.openRead_eq_ok hsource).1
  have hsame : checked.files = world.files := hread.holds
  rw [hread.processId] at hnonce
  dsimp only
  apply (hread.of_look (.refl _)).trans
  by_cases hfits : bufferFits options
  · rw [← hsame]
    apply drop_buildTracked_steps hcrc hreads hfits
    rw [hsame]
    exact h file source items nonce hbuffer hfits hfile hreads hnonce
  · rw [call_buildTracked_of_not_fits hreads hfits]
    exact .refl (hsame ▸ .refl _)

/-- Where the names are not safe, a build removes something if nothing fails from the look at the
destination on. -/
theorem not_steps_of_not_safe {looked : World} (hcrc : crc.Incremental)
    (hbuffer : options.maxBufferRecords ≠ 0) (hfits : bufferFits options)
    (hpath : world.pathExists destination = (false, looked)) (hquiet : looked.Quiet)
    (hfile : world.files.read sourcePath.location = some file)
    (hreads : source.Reads crc file items) (hnonce : buildNonce clock world.processId = .ok nonce)
    (hdanger : ¬ Safe world.files (temporaryNames destination nonce options items)) :
    ¬ world.Steps world.files.Extends
      (buildExternal crc sourcePath destination options clock world).2 := by
  have hlook := @World.pathExists_steps world destination
  rw [hpath] at hlook
  have hfiles : looked.files = world.files := hlook.holds
  have hopen : looked.openRead sourcePath = (.ok file, looked.leave looked.files) := by
    apply World.openRead_of_quiet hquiet
    rw [hfiles]
    exact hfile
  have hread : (looked.leave looked.files).readOn =
      (.ok (), (looked.leave looked.files).leave looked.files) :=
    World.call_of_quiet (hquiet.leave _) rfl
  have hnonce' : buildNonce clock ((looked.leave looked.files).leave looked.files).processId =
      .ok nonce := by
    rw [show ((looked.leave looked.files).leave looked.files).processId = world.processId from
      hlook.processId]
    exact hnonce
  have haccepted := (readSource_eq_ok_iff hcrc).mpr ⟨items, hreads⟩
  obtain ⟨path, entry, hentry, hgone⟩ := @exists_removed_of_not_safe crc file source destination
    nonce options ((looked.leave looked.files).leave looked.files) items hcrc hreads hfits
    ((hquiet.leave _).leave _) (by
      rw [show ((looked.leave looked.files).leave looked.files).files = world.files from hfiles]
      exact hdanger)
  rw [show ((looked.leave looked.files).leave looked.files).files = world.files from hfiles] at hentry
  intro hsteps
  have hkept := hsteps.holds.entries path entry hentry
  rw [buildExternal_of_accepted hbuffer hpath hopen hread haccepted hnonce', hgone] at hkept
  cases hkept

/-- A build never removes or changes anything that was there, whatever fails, exactly if the names
it gets to track are safe. -/
theorem buildExternal_leaves_iff (hcrc : crc.Incremental) :
    (∀ faults, (world.withFaults faults).Steps world.files.Extends
        (buildExternal crc sourcePath destination options clock (world.withFaults faults)).2) ↔
      SparesNames crc sourcePath destination options clock world := by
  constructor
  · intro hsteps file source items nonce hbuffer hfits hfile hreads hnonce
    by_contra hdanger
    -- The look at the destination fails, which counts as no; after it nothing does.
    let faults := faultAt world.calls ⟨.other, 0⟩
    have hfault : (world.withFaults faults).faults (world.withFaults faults).calls =
        some ⟨.other, 0⟩ := if_pos rfl
    have hpath : (world.withFaults faults).pathExists destination =
        (false, (world.withFaults faults).leave world.files) := by
      rw [World.pathExists, World.metadataLength, World.call_of_fault hfault]
      rfl
    have hquiet : ((world.withFaults faults).leave world.files).Quiet := by
      intro n hn
      exact if_neg (Nat.ne_of_gt hn)
    exact @not_steps_of_not_safe crc file source sourcePath destination nonce options clock
      (world.withFaults faults) items _ hcrc hbuffer hfits hpath hquiet hfile hreads hnonce hdanger
      (hsteps faults)
  · intro hspares faults
    exact @buildExternal_steps crc sourcePath destination options clock (world.withFaults faults)
      hcrc hspares

/-! ## A name that is taken -/

/-- A source, and a file of someone else under the name of the first run. -/
def takenWorld : World :=
  { sourceWorld with files := sourceWorld.files.staged (runPath outPath 1 0).location [7] }

/-- The build of a single item stops at the name of its first run, and removes the file there. -/
theorem buildExternal_removes_sample :
    ¬ ∀ faults, (takenWorld.withFaults faults).Steps takenWorld.files.Extends
      (buildExternal Checksum.crc32 inPath outPath ⟨1⟩ (some 0)
        (takenWorld.withFaults faults)).2 := by
  intro hsteps
  obtain ⟨source, hreads⟩ := exists_reads_oneItem
  have hquiet : takenWorld.Quiet := fun _ _ => rfl
  have hpath : takenWorld.pathExists outPath = (false, takenWorld.leave takenWorld.files) := by
    apply World.pathExists_of_quiet hquiet
    decide
  have hread : takenWorld.files.read inPath.location = some oneItemFile := by
    have hentry : takenWorld.files.entries inPath.location = some (.file 0) := by decide
    rw [FileSystem.read_of_entry hentry]
    rfl
  apply @not_steps_of_not_safe Checksum.crc32 oneItemFile source inPath outPath 1 ⟨1⟩ (some 0)
    takenWorld oneItem _ Checksum.crc32_incremental (by decide) (by decide) hpath (hquiet.leave _)
    hread hreads rfl
  · rintro ⟨hspared, -⟩
    have htaken : takenWorld.files.entries (runPath outPath 1 0).location = some (.file 1) := by
      decide
    rcases hspared _ (List.mem_singleton_self _) with hfree | hdirectory
    · rw [htaken] at hfree
      cases hfree
    · rw [htaken] at hdirectory
      cases hdirectory
  · exact hsteps takenWorld.faults

/-- Where no temporary name is taken, the same build leaves everything alone. -/
theorem buildExternal_leaves_sample :
    SparesNames Checksum.crc32 inPath outPath ⟨1⟩ (some 0) sourceWorld ∧
      ∀ faults, (sourceWorld.withFaults faults).Steps sourceWorld.files.Extends
        (buildExternal Checksum.crc32 inPath outPath ⟨1⟩ (some 0)
          (sourceWorld.withFaults faults)).2 := by
  have hspares : SparesNames Checksum.crc32 inPath outPath ⟨1⟩ (some 0) sourceWorld := by
    intro file source items nonce _ _ _ _ _
    apply safe_of_free
    intro path hpath
    exact free_worldHolding (begins_temporaryNames path hpath)
  exact ⟨hspares, (buildExternal_leaves_iff Checksum.crc32_incremental).mpr hspares⟩

end Pari.Build
