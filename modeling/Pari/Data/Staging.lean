/-
# Staging a new file

A program writes a new file under a name of its own, links it to its destination, removes the
staging name and syncs the directory. If every call succeeds the destination holds what was
written; if nothing can fail and the names are free, every call succeeds.
-/

import Pari.Data.Publication

namespace Data

namespace World

/-- `path.exists()`: a failing lookup counts as no. -/
def pathExists (world : World) (path : Path) : Bool × World :=
  match world.metadataLength path with
  | (.ok _, world) => (true, world)
  | (.error _, world) => (false, world)

/-- Write an open file and sync it. -/
def writeSynced (world : World) (inode : Nat) (bytes : Bytes) : Except IoError Unit × World :=
  match world.writeAll inode bytes with
  | (.error error, world) => (.error error, world)
  | (.ok (), world) => world.syncAll

/-- Create a new file, write it and sync it. -/
def stageNew (world : World) (path : Path) (bytes : Bytes) : Except IoError Unit × World :=
  match world.createNew path with
  | (.error error, world) => (.error error, world)
  | (.ok inode, world) => world.writeSynced inode bytes

section Success

variable {world world' linked removed last : World} {path staged destination : Path}
  {bytes : Bytes} {inode : Nat}

theorem pathExists_steps (path : Path) :
    world.Steps (· = world.files) (world.pathExists path).2 := by
  have hsteps := @metadataLength_steps world path
  unfold pathExists
  split
  · next hcall =>
      rw [hcall] at hsteps
      exact hsteps
  · next hcall =>
      rw [hcall] at hsteps
      exact hsteps

theorem files_pathExists : (world.pathExists path).2.files = world.files :=
  (pathExists_steps path).holds

theorem openRead_eq_ok (h : world.openRead path = (.ok bytes, world')) :
    world.files.read path.location = some bytes ∧ world'.files = world.files := by
  have hsteps := @openRead_steps world path
  have hrun := run_of_call h
  rw [h] at hsteps
  refine ⟨?_, hsteps.holds⟩
  split at hrun
  · cases hrun
  · cases hrun
  · next hlookup =>
      obtain ⟨hcontents, _⟩ := Prod.mk.inj (Except.ok.inj hrun)
      exact FileSystem.read_eq_some_iff.mpr ⟨_, hlookup, hcontents⟩

theorem writeSynced_eq_ok (h : world.writeSynced inode bytes = (.ok (), world')) :
    world'.files = world.files.append inode bytes := by
  unfold writeSynced at h
  rcases hwrite : world.writeAll inode bytes with ⟨result, written⟩
  rw [hwrite] at h
  cases result with
  | error error => cases h
  | ok value =>
      have hsync := @syncAll_steps written
      have hrun := run_of_call hwrite
      simp only [Except.ok.injEq, Prod.mk.injEq, true_and] at hrun
      rw [show written.syncAll = _ from h] at hsync
      exact hsync.holds.trans hrun.symm

/-- A new file that was written holds the bytes. -/
theorem files_of_created {created : World} (hcreate : world.createNew path = (.ok inode, created))
    (hwrite : created.writeSynced inode bytes = (.ok (), world')) :
    world'.files = world.files.staged path.location bytes := by
  obtain ⟨_, rfl, hfiles⟩ := createNew_eq_ok hcreate
  rw [writeSynced_eq_ok hwrite, hfiles]
  rfl

theorem stageNew_eq_ok (h : world.stageNew path bytes = (.ok (), world')) :
    world'.files = world.files.staged path.location bytes := by
  unfold stageNew at h
  rcases hcreate : world.createNew path with ⟨result, created⟩
  rw [hcreate] at h
  cases result with
  | error error => cases h
  | ok inode => exact files_of_created hcreate h

/-- Linking, removing the staging name and syncing leave the destination with the file. -/
theorem holds_of_publication (h : world.files.Holds staged.location bytes)
    (hlink : world.hardLink staged destination = (.ok (), linked))
    (hremove : linked.removeFile staged = (.ok (), removed)) {directory : String}
    (hsync : removed.syncDirectory directory = (.ok (), last)) :
    last.files.Holds destination.location bytes ∧ staged.location ≠ destination.location := by
  obtain ⟨hne, _, hholds⟩ := hardLink_eq_ok hlink
  have hsteps := @syncDirectory_steps removed directory
  rw [hsync] at hsteps
  have hremoved := FileSystem.of_map_unit (run_of_call hremove)
  refine ⟨?_, hne⟩
  rw [show last.files = removed.files from hsteps.holds]
  exact (hholds bytes h).removeFile hne.symm hremoved

/-- Removing another name, whether that succeeds or not, leaves a file alone. -/
theorem holds_removeFile (h : world.files.Holds destination.location bytes)
    (hne : staged.location ≠ destination.location) :
    (world.removeFile staged).2.files.Holds destination.location bytes := by
  obtain ⟨inode, hentry, hcontents⟩ := h
  have hsteps : (world.removeFile staged).2.files.contents = world.files.contents := by
    rw [removeFile]
    cases hfault : world.faults world.calls with
    | some fault => rw [call_of_fault hfault]; rfl
    | none =>
        cases hremove : world.files.removeFile staged.location with
        | error kind => rw [call_of_refuses hfault (by rw [hremove]; rfl)]; rfl
        | ok files =>
            rw [call_of_runs hfault (by rw [hremove]; rfl), FileSystem.removeFile_eq_ok hremove]
            rfl
  refine ⟨inode, ?_, by rw [hsteps]; exact hcontents⟩
  rcases entries_removeFile staged destination.location with hkept | ⟨heq, _⟩
  · exact hkept.trans hentry
  · exact absurd heq.symm hne

end Success

/-! ## Without faults -/

section Quiet

variable {world : World} {path staged destination : Path} {bytes : Bytes} {inode : Nat}

theorem pathExists_of_quiet (hquiet : world.Quiet)
    (hfree : world.files.entries path.location = none) :
    world.pathExists path = (false, world.leave world.files) := by
  have hlookup : world.files.lookup path.location = none := by
    rw [FileSystem.lookup, FileSystem.maxLinks, FileSystem.resolve, hfree]
  have hcall : world.metadataLength path = (.error (.os .notFound), world.leave world.files) :=
    call_of_quiet_error hquiet (by rw [hlookup])
  rw [pathExists, hcall]

theorem openRead_of_quiet (hquiet : world.Quiet)
    (hread : world.files.read path.location = some bytes) :
    world.openRead path = (.ok bytes, world.leave world.files) := by
  obtain ⟨inode, hlookup, rfl⟩ := FileSystem.read_eq_some_iff.mp hread
  exact call_of_quiet hquiet (by rw [hlookup])

theorem createNew_of_quiet (hquiet : world.Quiet)
    (hfree : world.files.entries path.location = none) :
    world.createNew path =
      (.ok world.files.nextInode, world.leave (world.files.create path.location)) :=
  call_of_quiet hquiet (by rw [hfree])

theorem writeSynced_of_quiet (hquiet : world.Quiet) :
    ∃ world', world.writeSynced inode bytes = (.ok (), world') ∧ world'.Quiet := by
  let written := world.leave (world.files.append inode bytes)
  have hwrite : world.writeAll inode bytes = (.ok (), written) := call_of_quiet hquiet rfl
  have hwritten : written.Quiet := hquiet.leave _
  have hsync : written.syncAll = (.ok (), written.leave written.files) :=
    call_of_quiet hwritten rfl
  refine ⟨written.leave written.files, ?_, hwritten.leave _⟩
  rw [writeSynced, hwrite]
  exact hsync

theorem stageNew_of_quiet (hquiet : world.Quiet)
    (hfree : world.files.entries path.location = none) :
    ∃ world', world.stageNew path bytes = (.ok (), world') ∧ world'.Quiet := by
  obtain ⟨world', hwrite, hquiet'⟩ := @writeSynced_of_quiet
    (world.leave (world.files.create path.location)) bytes world.files.nextInode (hquiet.leave _)
  refine ⟨world', ?_, hquiet'⟩
  rw [stageNew, createNew_of_quiet hquiet hfree]
  exact hwrite

/-- The three calls of a publication to a free name. -/
theorem exists_publication_of_quiet (hquiet : world.Quiet)
    (hstaged : world.files.entries staged.location = some (.file inode))
    (hfree : world.files.entries destination.location = none) (directory : String) :
    ∃ linked removed last, world.hardLink staged destination = (.ok (), linked) ∧
      linked.removeFile staged = (.ok (), removed) ∧
      removed.syncDirectory directory = (.ok (), last) := by
  have hne : staged.location ≠ destination.location := by
    intro heq
    rw [heq, hfree] at hstaged
    cases hstaged
  obtain ⟨files, hlink, hentries⟩ := FileSystem.exists_hardLink hstaged hfree
  have hremove : files.removeFile staged.location = .ok (files.unlink staged.location) := by
    apply @FileSystem.removeFile_of_file _ _ inode
    rw [hentries, Function.update_of_ne hne, hstaged]
  have hlinkCall : world.hardLink staged destination = (.ok (), world.leave files) :=
    call_of_quiet hquiet (by rw [hlink]; rfl)
  have hremoveCall : (world.leave files).removeFile staged =
      (.ok (), (world.leave files).leave (files.unlink staged.location)) :=
    call_of_quiet (hquiet.leave _) (by
      rw [show (world.leave files).files = files from rfl, hremove]
      rfl)
  have hsyncCall : ((world.leave files).leave (files.unlink staged.location)).syncDirectory
      directory = (.ok (), _) := call_of_quiet ((hquiet.leave _).leave _) rfl
  exact ⟨_, _, _, hlinkCall, hremoveCall, hsyncCall⟩

end Quiet

end World

end Data
