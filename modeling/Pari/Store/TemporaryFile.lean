/-
# The temporary file of a transaction

A snapshot is written under a fresh name beside its target and then published, either by
renaming it over the target or by linking it to a target that must not exist. Before any
step that takes the name for its own, the transaction checks that the name still refers to
the file it created. Dropping the value removes the file if the transaction still owns it.
-/

import Pari.Data.Process
import Pari.Store.PersistentIndex

namespace Pari.Store

open Data

def temporaryAllocationAttempts : Nat := 1024

/-- `{value:016x}`. -/
def hex16 (value : UInt64) : String :=
  String.ofList ((List.range 16).map fun digit => Nat.digitChar (value.toNat / 16 ^ (15 - digit) % 16))

/-- The path for display. -/
def displayPath (path : Path) : String :=
  if path.parent = "" then path.fileName.getD ""
  else path.parent ++ "/" ++ path.fileName.getD ""

def temporaryPath (target : Path) (processId : Nat) (sequence : UInt64) : Path :=
  Path.join target.directory (".pari-tmp-" ++ toString processId ++ "-" ++ hex16 sequence)

/-- A temporary file: its path, the open file until it is closed, the identity of the file,
and whether the transaction owns the path. -/
structure OwnedTemporaryFile where
  path : Path
  file : Option Nat
  identity : Handle
  ownsPath : Bool

def syncParentDirectory (path : Path) (world : World) : Except IoError Unit × World :=
  world.syncDirectory path.directory

def cleanupContext (path : Path) : String :=
  "; additionally failed to remove transaction-owned " ++ displayPath path ++ ": "

def cleanupFailedAllocation (path : Path) (original : IoError) (world : World) :
    StoreError × World :=
  match world.removeFile path with
  | (.ok (), world) => (.io original, world)
  | (.error cleanup, world) =>
      if cleanup.kind = .notFound then (.io original, world)
      else (.io (.also original (cleanupContext path) cleanup), world)

namespace OwnedTemporaryFile

/-- The allocation loop: the attempts left. -/
def allocateLoop (target : Path) : Nat → World → Except StoreError OwnedTemporaryFile × World
  | 0, world =>
      (.error (.io (.custom .alreadyExists
        ("could not allocate a unique temporary file beside " ++ displayPath target))), world)
  | attempts + 1, world =>
      let (sequence, world) := world.fetchAdd
      let path := temporaryPath target world.processId sequence
      match world.createNew path with
      | (.ok inode, world) =>
          match world.handleFromFile inode with
          | (.ok identity, world) =>
              (.ok { path, file := some inode, identity, ownsPath := true }, world)
          | (.error error, world) =>
              let (error, world) := cleanupFailedAllocation path error world
              (.error error, world)
      | (.error error, world) =>
          if error.kind = .alreadyExists then allocateLoop target attempts world
          else (.error (.io error), world)

def allocate (target : Path) (world : World) : Except StoreError OwnedTemporaryFile × World :=
  match target.fileName with
  | none => (.error .invalidPath, world)
  | some _ => allocateLoop target temporaryAllocationAttempts world

def closedError : IoError := .custom .other "persistent-index temporary file is already closed"

def writeSynced (temporary : OwnedTemporaryFile) (bytes : Bytes) (world : World) :
    Except IoError Unit × World :=
  match temporary.file with
  | none => (.error closedError, world)
  | some inode =>
      match world.writeAll inode bytes with
      | (.error error, world) => (.error error, world)
      | (.ok (), world) => world.syncAll

def verifyOwnedPath (temporary : OwnedTemporaryFile) (world : World) :
    Except IoError Unit × OwnedTemporaryFile × World :=
  match world.symlinkMetadata temporary.path with
  | (.error error, world) => (.error error, temporary, world)
  | (.ok isSymlink, world) =>
      if isSymlink then
        (.error (.custom .notFound "transaction temporary path was replaced by a symlink"),
          { temporary with ownsPath := false }, world)
      else
        match world.handleFromPath temporary.path with
        | (.error error, world) => (.error error, temporary, world)
        | (.ok current, world) =>
            if current ≠ temporary.identity then
              (.error (.custom .notFound "transaction temporary path was replaced"),
                { temporary with ownsPath := false }, world)
            else (.ok (), temporary, world)

/-- Remove the path if it is owned; a path that is gone needs no removal. -/
def removeOwnedPath (temporary : OwnedTemporaryFile) (world : World) :
    Except IoError Unit × OwnedTemporaryFile × World :=
  let closed := { temporary with file := none }
  if closed.ownsPath = false then (.ok (), closed, world)
  else
    match closed.verifyOwnedPath world with
    | (.error error, temporary, world) =>
        if error.kind = .notFound then (.ok (), { temporary with ownsPath := false }, world)
        else (.error error, temporary, world)
    | (.ok (), temporary, world) =>
        match world.removeFile temporary.path with
        | (.ok (), world) => (.ok (), { temporary with ownsPath := false }, world)
        | (.error error, world) =>
            if error.kind = .notFound then (.ok (), { temporary with ownsPath := false }, world)
            else (.error error, temporary, world)

/-- Going out of scope. -/
def drop (temporary : OwnedTemporaryFile) (world : World) : World :=
  (temporary.removeOwnedPath world).2.2

/-- The value goes out of scope at the end, which tries a failed removal once more. -/
def cleanupAfter (temporary : OwnedTemporaryFile) (operationError : IoError) (world : World) :
    StoreError × World :=
  match temporary.removeOwnedPath world with
  | (.ok (), temporary, world) => (.io operationError, temporary.drop world)
  | (.error cleanup, temporary, world) =>
      (.io (.also operationError (cleanupContext temporary.path) cleanup), temporary.drop world)

/-- Fail with an error after cleaning up. -/
def failAfter (temporary : OwnedTemporaryFile) (operationError : IoError) (world : World) :
    Except StoreError Unit × World :=
  let (error, world) := temporary.cleanupAfter operationError world
  (.error error, world)

def publishReplace (temporary : OwnedTemporaryFile) (target : Path) (world : World) :
    Except StoreError Unit × World :=
  match temporary.verifyOwnedPath world with
  | (.error error, temporary, world) => temporary.failAfter error world
  | (.ok (), temporary, world) =>
      let temporary := { temporary with file := none }
      match world.rename temporary.path target with
      | (.ok (), world) => (.ok (), { temporary with ownsPath := false }.drop world)
      | (.error error, world) => temporary.failAfter error world

end OwnedTemporaryFile

/-- Take the published name back if it still refers to the published file. -/
def rollbackOwnedDestination (destination : Path) (identity : Handle) (world : World) :
    Except IoError Unit × World :=
  match world.symlinkMetadata destination with
  | (.error error, world) =>
      if error.kind = .notFound then (.ok (), world) else (.error error, world)
  | (.ok isSymlink, world) =>
      if isSymlink then (.ok (), world)
      else
        match world.handleFromPath destination with
        | (.error error, world) =>
            if error.kind = .notFound then (.ok (), world) else (.error error, world)
        | (.ok current, world) =>
            if current ≠ identity then (.ok (), world)
            else
              match world.removeFile destination with
              | (.error error, world) => (.error error, world)
              | (.ok (), world) => syncParentDirectory destination world

/-- `PublicationRecoveryError`: the original error and what recovering from it met. -/
def publicationRecoveryError (original : IoError) : Except IoError Unit → Except IoError Unit → IoError
  | .ok (), .ok () => original
  | .error rollback, .ok () => .also original "; also failed to roll back destination: " rollback
  | .ok (), .error cleanup => .also original "; also failed to remove temporary file: " cleanup
  | .error rollback, .error cleanup =>
      .also (.also original "; also failed to roll back destination: " rollback)
        "; also failed to remove temporary file: " cleanup

def recoverAfterInitialPublication (temporary : OwnedTemporaryFile) (destination : Path)
    (original : IoError) (world : World) : Except StoreError Unit × World :=
  let (rollback, world) := rollbackOwnedDestination destination temporary.identity world
  let (cleanup, temporary, world) := temporary.removeOwnedPath world
  (.error (.io (publicationRecoveryError original rollback cleanup)), temporary.drop world)

def OwnedTemporaryFile.publishNoReplace (temporary : OwnedTemporaryFile) (target : Path)
    (world : World) : Except StoreError Unit × World :=
  match temporary.file with
  | none => (.error (.io closedError), temporary.drop world)
  | some _ =>
      match { temporary with file := none }.verifyOwnedPath world with
      | (.error error, temporary, world) => temporary.failAfter error world
      | (.ok (), temporary, world) =>
          match world.hardLink temporary.path target with
          | (.error error, world) => temporary.failAfter error world
          | (.ok (), world) =>
              match world.removeFile temporary.path with
              | (.error error, world) => recoverAfterInitialPublication temporary target error world
              | (.ok (), world) =>
                  let temporary := { temporary with ownsPath := false }
                  match syncParentDirectory target world with
                  | (.error error, world) =>
                      recoverAfterInitialPublication temporary target error world
                  | (.ok (), world) => (.ok (), temporary.drop world)

/-! ## Working beside existing files -/

/-- A temporary file holding `bytes`, beside everything that `base` has. -/
structure Staged (base : FileSystem) (bytes : Bytes) (temporary : OwnedTemporaryFile)
    (world : World) : Prop where
  free : base.entries temporary.path.location = none
  files : world.files = base.staged temporary.path.location bytes
  file : temporary.file = some base.nextInode
  identity : temporary.identity = .file base.nextInode
  owns : temporary.ownsPath = true

namespace OwnedTemporaryFile

section Steps

variable {base : FileSystem} {temporary : OwnedTemporaryFile} {world : World} {bytes : Bytes}

/-- Verification looks at the path and keeps everything but the claim to own it. -/
theorem verifyOwnedPath_steps (temporary : OwnedTemporaryFile) (world : World) :
    world.Steps (· = world.files) (temporary.verifyOwnedPath world).2.2 ∧
      (temporary.verifyOwnedPath world).2.1.path = temporary.path ∧
      ((temporary.verifyOwnedPath world).1 = .ok () →
        (temporary.verifyOwnedPath world).2.1 = temporary) := by
  have hmetadata := @World.symlinkMetadata_steps world temporary.path
  unfold verifyOwnedPath
  split
  · next error world' heq =>
      rw [heq] at hmetadata
      exact ⟨hmetadata, rfl, fun h => by cases h⟩
  · next isSymlink world' heq =>
      rw [heq] at hmetadata
      have hsame : world'.files = world.files := hmetadata.holds
      split
      · exact ⟨hmetadata, rfl, fun h => by cases h⟩
      · have hhandle := @World.handleFromPath_steps world' temporary.path
        split
        · next error world'' heq' =>
            rw [heq', hsame] at hhandle
            exact ⟨hmetadata.trans hhandle, rfl, fun h => by cases h⟩
        · next current world'' heq' =>
            rw [heq', hsame] at hhandle
            have hsteps := hmetadata.trans hhandle
            split
            · exact ⟨hsteps, rfl, fun h => by cases h⟩
            · exact ⟨hsteps, rfl, fun _ => rfl⟩

/-- Removing the path touches nothing that was there before it. -/
theorem removeOwnedPath_steps (h : base.Extends world.files)
    (hfree : base.entries temporary.path.location = none) :
    world.Steps base.Extends (temporary.removeOwnedPath world).2.2 ∧
      (temporary.removeOwnedPath world).2.1.path = temporary.path := by
  obtain ⟨hverify, hpath, _⟩ := verifyOwnedPath_steps { temporary with file := none } world
  have hsteps := hverify.of_look h
  unfold removeOwnedPath
  dsimp only
  split
  · exact ⟨.refl h, rfl⟩
  · split
    · next error verified world' heq =>
        rw [heq] at hsteps hpath
        split <;> exact ⟨hsteps, hpath⟩
    · next verified world' heq =>
        rw [heq] at hsteps hpath
        have hremove := @World.removeFile_steps world' base verified.path hsteps.holds
          (by rw [hpath]; exact hfree)
        split
        · next world'' heq' =>
            rw [heq'] at hremove
            exact ⟨hsteps.trans hremove, hpath⟩
        · next error world'' heq' =>
            rw [heq'] at hremove
            split <;> exact ⟨hsteps.trans hremove, hpath⟩

theorem drop_steps (h : base.Extends world.files)
    (hfree : base.entries temporary.path.location = none) :
    world.Steps base.Extends (temporary.drop world) :=
  (removeOwnedPath_steps h hfree).1

/-- A value that no longer owns its path goes out of scope without a call. -/
theorem drop_of_not_owns (h : temporary.ownsPath = false) : temporary.drop world = world := by
  rw [drop, removeOwnedPath]
  simp [h]

theorem cleanupAfter_steps (h : base.Extends world.files)
    (hfree : base.entries temporary.path.location = none) (error : IoError) :
    world.Steps base.Extends (temporary.cleanupAfter error world).2 := by
  obtain ⟨hremove, hpath⟩ := removeOwnedPath_steps h hfree
  unfold cleanupAfter
  split
  all_goals
    next heq =>
      rw [heq] at hremove hpath
      exact hremove.trans (drop_steps hremove.holds (by rw [hpath]; exact hfree))

theorem failAfter_steps (h : base.Extends world.files)
    (hfree : base.entries temporary.path.location = none) (error : IoError) :
    world.Steps base.Extends (temporary.failAfter error world).2 ∧
      ∃ failure, (temporary.failAfter error world).1 = .error failure :=
  ⟨cleanupAfter_steps h hfree error, _, rfl⟩

theorem cleanupFailedAllocation_steps {path : Path} (h : base.Extends world.files)
    (hfree : base.entries path.location = none) (error : IoError) :
    world.Steps base.Extends (cleanupFailedAllocation path error world).2 := by
  have hremove := @World.removeFile_steps world base path h hfree
  unfold cleanupFailedAllocation
  split
  · next heq =>
      rw [heq] at hremove
      exact hremove
  · next heq =>
      rw [heq] at hremove
      split <;> exact hremove

/-- Allocation creates one new empty file beside what is there, or nothing lasting. -/
theorem allocateLoop_steps {target : Path} {attempts : Nat} (h : world.files = base) :
    world.Steps base.Extends (allocateLoop target attempts world).2 ∧
      ∀ temporary, (allocateLoop target attempts world).1 = .ok temporary →
        Staged base [] temporary (allocateLoop target attempts world).2 := by
  induction attempts generalizing world with
  | zero =>
      have hextends : base.Extends world.files := h ▸ .refl world.files
      exact ⟨.refl hextends, fun temporary hok => by cases hok⟩
  | succ attempts ih =>
      have hfetch : world.Steps base.Extends world.fetchAdd.2 :=
        World.fetchAdd_steps (by rw [h]; exact .refl base)
      have hcreate := @World.createNew_steps world.fetchAdd.2 base
        (temporaryPath target world.fetchAdd.2.processId world.fetchAdd.1) h
      unfold allocateLoop
      dsimp only
      split
      · next inode world' heq =>
          rw [heq] at hcreate
          obtain ⟨hfree, rfl, hfiles⟩ := World.createNew_eq_ok heq
          rw [show world.fetchAdd.2.files = base from h] at hfree hfiles
          have hidentity := @World.handleFromFile_steps world' world.fetchAdd.2.files.nextInode
          have hsteps := hfetch.trans hcreate
          split
          · next identity world'' heq' =>
              rw [heq'] at hidentity
              refine ⟨hsteps.trans (hidentity.of_look hcreate.holds), fun temporary hok => ?_⟩
              obtain rfl := Except.ok.inj hok
              have hrun := World.run_of_call heq'
              simp only [Except.ok.injEq, Prod.mk.injEq] at hrun
              refine ⟨hfree, ?_, by rw [← h]; rfl, ?_, rfl⟩
              · rw [← hrun.2, hfiles, FileSystem.staged_nil]
              · rw [← hrun.1, ← h]
                rfl
          · next error world'' heq' =>
              rw [heq'] at hidentity
              have hlooked := hidentity.of_look hcreate.holds
              refine ⟨(hsteps.trans hlooked).trans (cleanupFailedAllocation_steps hlooked.holds
                hfree error), fun temporary hok => ?_⟩
              cases hok
      · next error world' heq =>
          rw [heq] at hcreate
          split
          · -- The name is taken: the next attempt starts from the same files.
            have hsame : world'.files = base := (World.look_of_error heq).holds.trans h
            obtain ⟨hrest, hspec⟩ := ih hsame
            exact ⟨(hfetch.trans hcreate).trans hrest, hspec⟩
          · exact ⟨hfetch.trans hcreate, fun temporary hok => by cases hok⟩

theorem allocate_steps {target : Path} (h : world.files = base) :
    world.Steps base.Extends (allocate target world).2 ∧
      ∀ temporary, (allocate target world).1 = .ok temporary →
        Staged base [] temporary (allocate target world).2 := by
  unfold allocate
  split
  · have hextends : base.Extends world.files := h ▸ .refl world.files
    exact ⟨.refl hextends, fun temporary hok => by cases hok⟩
  · exact allocateLoop_steps h

/-- Writing fills the temporary file and nothing else. -/
theorem writeSynced_steps (h : Staged base [] temporary world) (bytes : Bytes) :
    world.Steps base.Extends (temporary.writeSynced bytes world).2 ∧
      ((temporary.writeSynced bytes world).1 = .ok () →
        Staged base bytes temporary (temporary.writeSynced bytes world).2) := by
  have hextends : base.Extends world.files := by
    rw [h.files]
    exact FileSystem.extends_staged h.free
  have hwrite := @World.writeAll_steps world base base.nextInode bytes hextends (Nat.le_refl _)
  unfold writeSynced
  rw [h.file]
  dsimp only
  split
  · next error world' heq =>
      rw [heq] at hwrite
      exact ⟨hwrite, fun hok => by cases hok⟩
  · next world' heq =>
      rw [heq] at hwrite
      have hsync := @World.syncAll_steps world'
      refine ⟨hwrite.trans (hsync.of_look hwrite.holds), fun _ => ?_⟩
      have hrun := World.run_of_call heq
      simp only [Except.ok.injEq, Prod.mk.injEq, true_and] at hrun
      refine ⟨h.free, ?_, h.file, h.identity, h.owns⟩
      rw [show world'.syncAll.2.files = world'.files from hsync.holds, ← hrun, h.files,
        FileSystem.append_staged, List.nil_append]

/-- Publication by renaming: on success the target holds the staged bytes, and until then
everything is as it was. -/
theorem publishReplace_steps (h : Staged base bytes temporary world) (target : Path) :
    world.Steps (fun files => base.Extends files ∨ files.read target.location = some bytes)
        (temporary.publishReplace target world).2 ∧
      ((temporary.publishReplace target world).1 = .ok () →
        (temporary.publishReplace target world).2.files.Holds target.location bytes) ∧
      ∀ error, (temporary.publishReplace target world).1 = .error error →
        base.Extends (temporary.publishReplace target world).2.files := by
  have hextends : base.Extends world.files := by
    rw [h.files]
    exact FileSystem.extends_staged h.free
  obtain ⟨hverify, hpath, hsame⟩ := verifyOwnedPath_steps temporary world
  have hverified := hverify.of_look hextends
  unfold publishReplace
  split
  · next error verified world' heq =>
      rw [heq] at hverified hpath
      obtain ⟨hfail, failure, hfailure⟩ := @failAfter_steps base verified world' hverified.holds
        (by rw [hpath]; exact h.free) error
      refine ⟨(hverified.trans hfail).imp fun _ => Or.inl, fun hok => ?_, fun _ _ => hfail.holds⟩
      rw [hfailure] at hok
      cases hok
  · next verified world' heq =>
      rw [heq] at hverify hverified hsame
      obtain rfl : verified = temporary := hsame rfl
      have hfiles : world'.files = base.staged verified.path.location bytes :=
        hverify.holds.trans h.files
      dsimp only
      split
      · next world'' heq' =>
          have hrun := World.run_of_call heq'
          rw [hfiles] at hrun
          cases hrename : (base.staged verified.path.location bytes).rename
              verified.path.location target.location with
          | error kind =>
              rw [hrename] at hrun
              cases hrun
          | ok files =>
              rw [hrename] at hrun
              simp only [Except.map, Except.ok.injEq, Prod.mk.injEq, true_and] at hrun
              have hholds := FileSystem.holds_of_rename_staged hrename
              rw [hrun] at hholds
              rw [drop_of_not_owns rfl]
              refine ⟨(hverified.imp fun _ => Or.inl).trans ?_, fun _ => hholds, fun _ herror => by
                cases herror⟩
              have hcall := @World.call_steps _ (fun files => base.Extends files ∨
                  files.read target.location = some bytes) world' (fun files =>
                    (files.rename verified.path.location target.location).map ((), ·))
                (fun _ files => files) (Or.inl hverified.holds) (fun _ => Or.inl hverified.holds)
                (by
                  intro value files' hok
                  rw [hfiles, hrename] at hok
                  simp only [Except.map, Except.ok.injEq, Prod.mk.injEq] at hok
                  rw [← hok.2, hrun]
                  exact Or.inr hholds.read)
              rw [World.rename] at heq'
              rw [heq'] at hcall
              exact hcall
      · next error world'' heq' =>
          have hrename := World.look_of_error heq'
          have hrenamed := hrename.of_look hverified.holds
          obtain ⟨hfail, failure, hfailure⟩ := @failAfter_steps base
            { verified with file := none } world'' hrenamed.holds h.free error
          refine ⟨((hverified.trans hrenamed).trans hfail).imp fun _ => Or.inl, fun hok => ?_,
            fun _ _ => hfail.holds⟩
          rw [hfailure] at hok
          cases hok

/-- Publication by linking: on success the target holds the staged bytes. -/
theorem holds_of_publishNoReplace (h : Staged base bytes temporary world) {target : Path}
    (hok : (temporary.publishNoReplace target world).1 = .ok ()) :
    (temporary.publishNoReplace target world).2.files.Holds target.location bytes := by
  obtain ⟨hverify, hpath, hsame⟩ := verifyOwnedPath_steps { temporary with file := none } world
  unfold publishNoReplace at hok ⊢
  rw [h.file] at hok ⊢
  dsimp only at hok ⊢
  split at hok
  · cases hok
  next verified world' heq =>
  rw [heq] at hverify hsame
  obtain rfl : verified = { temporary with file := none } := hsame rfl
  have hfiles : world'.files = base.staged temporary.path.location bytes :=
    hverify.holds.trans h.files
  simp only at hok ⊢
  split at hok
  · cases hok
  next world'' heqLink =>
  split at hok
  · cases hok
  next world''' heqRemove =>
  split at hok
  · cases hok
  next last heqSync =>
  rw [drop_of_not_owns rfl]
  have hlink := World.run_of_call heqLink
  have hremove := World.run_of_call heqRemove
  have hsync := @World.syncDirectory_steps world''' target.directory
  rw [show world'''.syncDirectory target.directory = _ from heqSync] at hsync
  rw [hfiles] at hlink
  rw [show last.files = world'''.files from hsync.holds]
  obtain ⟨hlinked, hne⟩ := FileSystem.holds_staged.hardLink (FileSystem.of_map_unit hlink)
  exact hlinked.removeFile hne (FileSystem.of_map_unit hremove)

/-! ## Runs without faults -/

theorem verifyOwnedPath_of_quiet {inode : Nat} (hquiet : world.Quiet)
    (hentry : world.files.entries temporary.path.location = some (.file inode))
    (hidentity : temporary.identity = .file inode) :
    (temporary.verifyOwnedPath world).1 = .ok () := by
  have hmetadata : world.symlinkMetadata temporary.path =
      (.ok false, world.leave world.files) :=
    World.call_of_quiet hquiet (by rw [hentry]; rfl)
  have hhandle : (world.leave world.files).handleFromPath temporary.path =
      (.ok (.file inode), (world.leave world.files).leave world.files) :=
    World.call_of_quiet (hquiet.leave _) (by
      rw [show (world.leave world.files).files = world.files from rfl,
        FileSystem.lookup_of_entry hentry])
  unfold verifyOwnedPath
  rw [hmetadata]
  simp [hhandle, hidentity]

theorem writeSynced_of_quiet (hquiet : world.Quiet) (h : Staged base [] temporary world) :
    (temporary.writeSynced bytes world).1 = .ok () := by
  have hwrite : world.writeAll base.nextInode bytes =
      (.ok (), world.leave (world.files.append base.nextInode bytes)) :=
    World.call_of_quiet hquiet rfl
  unfold writeSynced
  rw [h.file]
  simp only [hwrite]
  exact congrArg Prod.fst (World.call_of_quiet (hquiet.leave _) rfl)

theorem publishReplace_of_quiet (hquiet : world.Quiet) (h : Staged base bytes temporary world)
    {target : Path} {old : Bytes} (hread : base.read target.location = some old) :
    (temporary.publishReplace target world).1 = .ok () := by
  have hentry : world.files.entries temporary.path.location = some (.file base.nextInode) := by
    rw [h.files]
    exact FileSystem.entries_staged_self
  have hverified := verifyOwnedPath_of_quiet hquiet hentry h.identity
  obtain ⟨hverify, _, hsame⟩ := verifyOwnedPath_steps temporary world
  obtain ⟨files, hrename⟩ := @FileSystem.exists_rename_staged base temporary.path.location
    target.location bytes h.free old hread
  unfold publishReplace
  split
  · next heq =>
      rw [heq] at hverified
      cases hverified
  · next verified world' heq =>
      rw [heq] at hverify hsame
      obtain rfl : verified = temporary := hsame rfl
      have hfiles : world'.files = base.staged verified.path.location bytes :=
        hverify.holds.trans h.files
      have hcall : world'.rename verified.path target = (.ok (), world'.leave files) :=
        World.call_of_quiet (hverify.quiet hquiet) (by rw [hfiles, hrename]; rfl)
      simp only [hcall]

end Steps

/-- One of the next names is free. -/
def FreeName (target : Path) (attempts : Nat) (world : World) : Prop :=
  ∃ attempt < attempts, world.files.entries
    (temporaryPath target world.processId (world.counter + UInt64.ofNat attempt)).location = none

theorem allocateLoop_of_quiet {target : Path} {attempts : Nat} {world : World}
    (hquiet : world.Quiet) (hfree : FreeName target attempts world) :
    ∃ temporary, (allocateLoop target attempts world).1 = .ok temporary := by
  induction attempts generalizing world with
  | zero =>
      obtain ⟨attempt, hlt, _⟩ := hfree
      omega
  | succ attempts ih =>
      have hquiet' : world.fetchAdd.2.Quiet := hquiet
      unfold allocateLoop
      dsimp only
      cases hentry : world.files.entries
          (temporaryPath target world.processId world.counter).location with
      | none =>
          have hcreate : world.fetchAdd.2.createNew
              (temporaryPath target world.fetchAdd.2.processId world.fetchAdd.1) =
                (.ok world.files.nextInode, world.fetchAdd.2.leave (world.files.create
                  (temporaryPath target world.processId world.counter).location)) :=
            World.call_of_quiet hquiet' (by
              rw [show world.fetchAdd.2.files.entries (temporaryPath target
                world.fetchAdd.2.processId world.fetchAdd.1).location = none from hentry]
              rfl)
          have hidentity : ∀ files, (world.fetchAdd.2.leave files).handleFromFile
              world.files.nextInode = (.ok (.file world.files.nextInode),
                (world.fetchAdd.2.leave files).leave files) :=
            fun files => World.call_of_quiet (hquiet'.leave _) rfl
          rw [hcreate]
          simp only [hidentity]
          exact ⟨_, rfl⟩
      | some entry =>
          have hcreate : world.fetchAdd.2.createNew
              (temporaryPath target world.fetchAdd.2.processId world.fetchAdd.1) =
                (.error (.os .alreadyExists), world.fetchAdd.2.leave world.files) :=
            World.call_of_quiet_error hquiet' (by
              rw [show world.fetchAdd.2.files.entries (temporaryPath target
                world.fetchAdd.2.processId world.fetchAdd.1).location = some entry from hentry])
          rw [hcreate]
          refine ih (hquiet'.leave _) ?_
          obtain ⟨attempt, hlt, hnone⟩ := hfree
          cases attempt with
          | zero =>
              have hzero : world.counter + UInt64.ofNat 0 = world.counter := by simp
              rw [hzero, hentry] at hnone
              cases hnone
          | succ attempt =>
              refine ⟨attempt, by omega, ?_⟩
              have hnext : world.counter + 1 + UInt64.ofNat attempt =
                  world.counter + UInt64.ofNat (attempt + 1) := by
                rw [UInt64.ofNat_add, UInt64.add_assoc, UInt64.add_comm 1]
                rfl
              change world.files.entries (temporaryPath target world.processId
                (world.counter + 1 + UInt64.ofNat attempt)).location = none
              rw [hnext]
              exact hnone

end OwnedTemporaryFile

end Pari.Store
