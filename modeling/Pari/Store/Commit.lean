/-
# Committing an index

A commit stages a complete snapshot in a temporary file, drops the committed base, renames
the file over the target and reopens it. Every error exit rebuilds the overlay from the live
rows. The step lemmas at the end say what one commit does to the index, to the target and to
every state of the file system on the way.
-/

import Pari.Store.RoundTrip
import Pari.Store.TemporaryFile

namespace Pari.Store

open Data Pari.Format Pari.Core Pari.Index

def createParentIfNeeded (path : Path) (world : World) : Except IoError Unit × World :=
  if path.parent = "" then (.ok (), world) else world.createDirAll path.parent

def ensureDestinationAbsent (path : Path) (world : World) : Except StoreError Unit × World :=
  match world.symlinkMetadata path with
  | (.ok _, world) =>
      (.error (.io (.custom .alreadyExists
        ("index path " ++ displayPath path ++ " already exists"))), world)
  | (.error error, world) =>
      if error.kind = .notFound then (.ok (), world) else (.error (.io error), world)

/-- The error of syncing the parent directory after publication, if it is asked for. -/
def parentSyncError (path : Path) (syncParent : Bool) (world : World) :
    Option StoreError × World :=
  if syncParent then
    match syncParentDirectory path world with
    | (.ok (), world) => (none, world)
    | (.error error, world) => (some (.io error), world)
  else (none, world)

namespace PersistentIndexCore

variable {scheme : SignatureScheme} (crc : Checksum)

/-- `open`. -/
def openPath (scheme : SignatureScheme) (path : Path) (world : World) :
    Except StoreError (PersistentIndexCore scheme) × World :=
  match world.openRead path with
  | (.error error, world) => (.error (.io error), world)
  | (.ok file, world) => (openFile crc path file, world)

def stageSnapshot (core : PersistentIndexCore scheme) (world : World) :
    Except StoreError OwnedTemporaryFile × World :=
  match core.encodeSnapshot crc with
  | .error error => (.error error, world)
  | .ok snapshot =>
      match createParentIfNeeded core.path world with
      | (.error error, world) => (.error (.io error), world)
      | (.ok (), world) =>
          match OwnedTemporaryFile.allocate core.path world with
          | (.error error, world) => (.error error, world)
          | (.ok temporary, world) =>
              match temporary.writeSynced snapshot world with
              | (.ok (), world) => (.ok temporary, world)
              | (.error error, world) =>
                  let (error, world) := temporary.cleanupAfter error world
                  (.error error, world)

def refreshAfterCommit (core : PersistentIndexCore scheme) (parentError : Option StoreError)
    (world : World) : Except StoreError Unit × PersistentIndexCore scheme × World :=
  match openPath crc scheme core.path world with
  | (.ok refreshed, world) =>
      match parentError with
      | none => (.ok (), refreshed, world)
      | some error => (.error error, { refreshed with dirty := true }, world)
  | (.error error, world) =>
      match core.rebuildOverlayAll with
      | .error rebuildError => (.error rebuildError, core, world)
      | .ok rebuilt => (.error error, { rebuilt with dirty := true }, world)

/-- What a failed publication does: the base is gone, so every live key moves to the overlay. -/
def rebuildAfterFailure (core : PersistentIndexCore scheme) (error : StoreError) (world : World) :
    Except StoreError Unit × PersistentIndexCore scheme × World :=
  match core.rebuildOverlayAll with
  | .error rebuildError => (.error rebuildError, core, world)
  | .ok rebuilt => (.error error, rebuilt, world)

def commit (core : PersistentIndexCore scheme) (syncParent : Bool) (world : World) :
    Except StoreError Unit × PersistentIndexCore scheme × World :=
  if core.dirty = false then
    match parentSyncError core.path syncParent world with
    | (none, world) => (.ok (), core, world)
    | (some error, world) => (.error error, core, world)
  else
    match core.stageSnapshot crc world with
    | (.error error, world) => (.error error, core, world)
    | (.ok temporary, world) =>
        let core := { core with base := none }
        match temporary.publishReplace core.path world with
        | (.error error, world) => core.rebuildAfterFailure error world
        | (.ok (), world) =>
            let (parentError, world) := parentSyncError core.path syncParent world
            core.refreshAfterCommit crc parentError world

def flush (core : PersistentIndexCore scheme) (world : World) :
    Except StoreError Unit × PersistentIndexCore scheme × World := core.commit crc false world

def sync (core : PersistentIndexCore scheme) (world : World) :
    Except StoreError Unit × PersistentIndexCore scheme × World := core.commit crc true world

/-- `close` consumes the index. -/
def close (core : PersistentIndexCore scheme) (world : World) : Except StoreError Unit × World :=
  let (result, _, world) := core.sync crc world
  (result, world)

/-- The first commit; the hook before publication does nothing outside of tests. -/
def commitInitial (core : PersistentIndexCore scheme) (world : World) :
    Except StoreError Unit × PersistentIndexCore scheme × World :=
  match core.stageSnapshot crc world with
  | (.error error, world) => (.error error, core, world)
  | (.ok temporary, world) =>
      let core := { core with base := none }
      match temporary.publishNoReplace core.path world with
      | (.error error, world) => core.rebuildAfterFailure error world
      | (.ok (), world) => core.refreshAfterCommit crc none world

/-- `create_with_params`. -/
def createWithParams (scheme : SignatureScheme) (path : Path) (threshold : F64) (numPerm : Nat)
    (seed : UInt64) (params : LshParams) (world : World) :
    Except StoreError (PersistentIndexCore scheme) × World :=
  match ensureDestinationAbsent path world with
  | (.error error, world) => (.error error, world)
  | (.ok (), world) =>
      match LshConfig.new threshold numPerm seed params with
      | .error error => (.error (.index error), world)
      | .ok config =>
          match (empty scheme path config).commitInitial crc world with
          | (.error error, _, world) => (.error error, world)
          | (.ok (), store, world) => (.ok store, world)

end PersistentIndexCore

/-! ## What the target holds -/

/-- The file at a path opens as a well-formed index with a configuration and rows. -/
def Decodes (crc : Checksum) (scheme : SignatureScheme) (path : Path) (config : LshConfig)
    (files : FileSystem) (keyHashes : OrderedMap UInt64 (List UInt64)) : Prop :=
  ∃ (bytes : Bytes) (stored : PersistentIndexCore scheme), files.read path.location = some bytes ∧
    PersistentIndexCore.openFile crc path bytes = .ok stored ∧ stored.WellFormed crc ∧
    stored.config = config ∧ stored.keyHashes = keyHashes

/-- A file decodes to one configuration and one map. -/
theorem Decodes.unique {crc : Checksum} {scheme : SignatureScheme} {path : Path}
    {config config' : LshConfig} {files files' : FileSystem}
    {keyHashes keyHashes' : OrderedMap UInt64 (List UInt64)}
    (h : Decodes crc scheme path config files keyHashes)
    (h' : Decodes crc scheme path config' files' keyHashes')
    (hsame : files'.read path.location = files.read path.location) : keyHashes' = keyHashes := by
  obtain ⟨bytes, stored, hread, hopen, _, _, rfl⟩ := h
  obtain ⟨bytes', stored', hread', hopen', _, _, rfl⟩ := h'
  rw [hread', hread] at hsame
  obtain rfl := Option.some.inj hsame
  rw [Except.ok.inj (hopen.symm.trans hopen')]

/-- An index and the file it was opened from or committed to: the file holds a map, which is
the live one while the index is clean. -/
structure PersistentIndexCore.PublishedAs (crc : Checksum) {scheme : SignatureScheme}
    (core : PersistentIndexCore scheme) (files : FileSystem)
    (keyHashes : OrderedMap UInt64 (List UInt64)) : Prop where
  wellFormed : core.WellFormed crc
  decodes : Decodes crc scheme core.path core.config files keyHashes
  clean : core.dirty = false → keyHashes = core.keyHashes

/-- What the target holds after a commit: what it held if its bytes are the same, and what was
live otherwise. -/
def publishedAfter {α : Type} (path : Path) (world world' : World) (published live : α) : α :=
  if world'.files.read path.location = world.files.read path.location then published else live

/-- The observations of an index that a commit must not change. -/
structure SameContents {scheme : SignatureScheme} (core core' : PersistentIndexCore scheme) :
    Prop where
  path : core'.path = core.path
  config : core'.config = core.config
  keyHashes : core'.keyHashes = core.keyHashes

theorem SameContents.refl {scheme : SignatureScheme} (core : PersistentIndexCore scheme) :
    SameContents core core := ⟨rfl, rfl, rfl⟩

namespace PersistentIndexCore

section Specs

variable {scheme : SignatureScheme} {crc : Checksum} {core : PersistentIndexCore scheme}
  {world : World} {base : FileSystem}

theorem WellFormed.withDirty (h : core.WellFormed crc) (dirty : Bool) :
    ({ core with dirty } : PersistentIndexCore scheme).WellFormed crc :=
  ⟨h.width, h.overlay, h.committed⟩

theorem parentSyncError_steps (path : Path) (syncParent : Bool) (world : World) :
    world.Steps (· = world.files) (parentSyncError path syncParent world).2 := by
  have hsync := @World.syncDirectory_steps world path.directory
  unfold parentSyncError syncParentDirectory
  split
  · split
    · next heq =>
        rw [heq] at hsync
        exact hsync
    · next heq =>
        rw [heq] at hsync
        exact hsync
  · exact .refl rfl

theorem createParentIfNeeded_steps (path : Path) (world : World) :
    world.Steps (· = world.files) (createParentIfNeeded path world).2 := by
  unfold createParentIfNeeded
  split
  · exact .refl rfl
  · exact World.createDirAll_steps path.parent

theorem openPath_steps (path : Path) (world : World) :
    world.Steps (· = world.files) (openPath crc scheme path world).2 := by
  have hread := @World.openRead_steps world path
  unfold openPath
  split
  · next heq =>
      rw [heq] at hread
      exact hread
  · next heq =>
      rw [heq] at hread
      exact hread

/-- Opening a path opens the bytes it reads as. -/
theorem openPath_eq_ok {path : Path} {world world' : World}
    (h : openPath crc scheme path world = (.ok core, world')) :
    ∃ bytes, world.files.read path.location = some bytes ∧ openFile crc path bytes = .ok core ∧
      world'.files = world.files := by
  have hsteps := @openPath_steps scheme crc path world
  rw [h] at hsteps
  unfold openPath at h
  split at h
  · cases h
  · next file world'' heq =>
      obtain ⟨hopen, rfl⟩ := Prod.mk.inj h
      refine ⟨file, ?_, hopen, hsteps.holds⟩
      have hrun := World.run_of_call heq
      split at hrun
      · cases hrun
      · cases hrun
      · next inode hlookup =>
          simp only [Except.ok.injEq, Prod.mk.injEq] at hrun
          exact FileSystem.read_eq_some_iff.mpr ⟨inode, hlookup, hrun.1⟩

/-- Staging works beside what is there, and leaves a file with the encoded snapshot. -/
theorem stageSnapshot_steps (h : world.files = base) :
    world.Steps base.Extends (core.stageSnapshot crc world).2 ∧
      ∀ temporary, (core.stageSnapshot crc world).1 = .ok temporary →
        ∃ bytes, core.encodeSnapshot crc = .ok bytes ∧
          Staged base bytes temporary (core.stageSnapshot crc world).2 := by
  have hextends : base.Extends world.files := h ▸ .refl world.files
  have hparent := createParentIfNeeded_steps core.path world
  unfold stageSnapshot
  split
  · exact ⟨.refl hextends, fun temporary hok => by cases hok⟩
  next snapshot hencode =>
  split
  · next error world' heq =>
      rw [heq] at hparent
      exact ⟨hparent.of_look hextends, fun temporary hok => by cases hok⟩
  next world' heq =>
  rw [heq] at hparent
  have hparent' := hparent.of_look hextends
  obtain ⟨hallocate, hstaged⟩ :=
    @OwnedTemporaryFile.allocate_steps base world' core.path (hparent.holds.trans h)
  split
  · next error world'' heq' =>
      rw [heq'] at hallocate
      exact ⟨hparent'.trans hallocate, fun temporary hok => by cases hok⟩
  next temporary world'' heq' =>
  rw [heq'] at hallocate hstaged
  have hempty := hstaged temporary rfl
  obtain ⟨hwrite, hwritten⟩ := OwnedTemporaryFile.writeSynced_steps hempty snapshot
  have hsteps := hparent'.trans hallocate
  split
  · next world''' heq'' =>
      rw [heq''] at hwrite hwritten
      refine ⟨hsteps.trans hwrite, fun other hok => ?_⟩
      obtain rfl := Except.ok.inj hok
      exact ⟨snapshot, hencode, hwritten rfl⟩
  · next error world''' heq'' =>
      rw [heq''] at hwrite
      have hcleanup := OwnedTemporaryFile.cleanupAfter_steps hwrite.holds hempty.free error
      exact ⟨(hsteps.trans hwrite).trans hcleanup, fun other hok => by cases hok⟩

/-- Rebuilding after a failure keeps the contents and the dirty flag. -/
theorem WellFormed.rebuildAfterFailure (h : core.WellFormed crc) (error : StoreError)
    (world : World) :
    ∃ rebuilt, ({ core with base := none } : PersistentIndexCore scheme).rebuildAfterFailure error
        world = (.error error, rebuilt, world) ∧ rebuilt.WellFormed crc ∧
      SameContents core rebuilt ∧ rebuilt.dirty = core.dirty := by
  obtain ⟨rebuilt, hrebuilt, hwell, hkeys, hconfig, hpath, hdirty⟩ :=
    @rebuildOverlayAll_spec scheme { core with base := none } crc h.width
  refine ⟨rebuilt, ?_, hwell, ⟨hpath, hconfig, hkeys⟩, hdirty⟩
  rw [PersistentIndexCore.rebuildAfterFailure, hrebuilt]

/-- The outcome of refreshing from a file that holds the snapshot of the live rows: the same
contents, clean exactly if nothing failed. -/
theorem WellFormed.refreshAfterCommit (h : core.WellFormed crc) {bytes : Bytes}
    (hencode : core.encodeSnapshot crc = .ok bytes)
    (hread : world.files.read core.path.location = some bytes) (parentError : Option StoreError) :
    ∃ result refreshed world', ({ core with base := none } : PersistentIndexCore
        scheme).refreshAfterCommit crc parentError world = (result, refreshed, world') ∧
      world.Steps (· = world.files) world' ∧ refreshed.WellFormed crc ∧
      SameContents core refreshed ∧
      (result = .ok () → parentError = none ∧ refreshed.dirty = false) ∧
      (∀ error, result = .error error → refreshed.dirty = true) := by
  have hopen := @openPath_steps scheme crc core.path world
  unfold PersistentIndexCore.refreshAfterCommit
  split
  · next refreshed world' heq =>
      rw [heq] at hopen
      obtain ⟨file, hfile, hopened, _⟩ := openPath_eq_ok heq
      obtain rfl : bytes = file := Option.some.inj (hread.symm.trans hfile)
      obtain ⟨opened, hopened', hwell, hpath, hconfig, hkeys, hclean, _⟩ :=
        exists_openFile_of_encodeSnapshot hencode core.path
      obtain rfl : opened = refreshed := Except.ok.inj (hopened'.symm.trans hopened)
      split
      · exact ⟨_, _, _, rfl, hopen, hwell, ⟨hpath, hconfig, hkeys⟩, fun _ => ⟨rfl, hclean⟩,
          fun _ herror => by cases herror⟩
      · exact ⟨_, _, _, rfl, hopen, hwell.withDirty true, ⟨hpath, hconfig, hkeys⟩,
          (fun hok => by cases hok), fun _ _ => rfl⟩
  · next error world' heq =>
      rw [heq] at hopen
      obtain ⟨rebuilt, hrebuilt, hwell, hkeys, hconfig, hpath, hdirty⟩ :=
        @rebuildOverlayAll_spec scheme { core with base := none } crc h.width
      rw [hrebuilt]
      exact ⟨_, _, _, rfl, hopen, hwell.withDirty true, ⟨hpath, hconfig, hkeys⟩,
        (fun hok => by cases hok), fun _ _ => rfl⟩

/-- A file that holds the encoded snapshot of an index decodes to its rows. -/
theorem decodes_of_encodeSnapshot {bytes : Bytes} (hencode : core.encodeSnapshot crc = .ok bytes)
    {files : FileSystem} (hread : files.read core.path.location = some bytes) :
    Decodes crc scheme core.path core.config files core.keyHashes := by
  obtain ⟨opened, hopen, hwell, _, hconfig, hkeys, _⟩ :=
    exists_openFile_of_encodeSnapshot hencode core.path
  exact ⟨bytes, opened, hread, hopen, hwell, hconfig, hkeys⟩

/-- The target holds the bytes it held before, or the snapshot of the live rows. -/
def OldOrNew (crc : Checksum) (core : PersistentIndexCore scheme) (old : Bytes)
    (files : FileSystem) : Prop :=
  files.read core.path.location = some old ∨
    ∃ new, core.encodeSnapshot crc = .ok new ∧ files.read core.path.location = some new

/-- What a commit does, whichever of its calls fail. -/
theorem commit_spec (h : core.WellFormed crc) {old : Bytes}
    (hold : world.files.read core.path.location = some old) (syncParent : Bool) :
    ∃ result core' world', core.commit crc syncParent world = (result, core', world') ∧
      world.Steps (core.OldOrNew crc old) world' ∧ SameContents core core' ∧
      core'.WellFormed crc ∧
      (result = .ok () → core'.dirty = false) ∧
      (core.dirty = true → ∀ error, result = .error error → core'.dirty = true) ∧
      (core.dirty = true → result = .ok () →
        ∃ new, core.encodeSnapshot crc = .ok new ∧
          world'.files.Holds core.path.location new) ∧
      (core.dirty = false → core' = core ∧ world'.files = world.files) := by
  unfold commit
  split
  · next hclean =>
      have hsync := parentSyncError_steps core.path syncParent world
      have hold' : core.OldOrNew crc old world.files := Or.inl hold
      split
      · next world' heq =>
          rw [heq] at hsync
          exact ⟨_, _, _, rfl, hsync.of_look hold', .refl core, h, fun _ => hclean,
            (fun hdirty => absurd (hdirty.symm.trans hclean) (by decide)),
            (fun hdirty => absurd (hdirty.symm.trans hclean) (by decide)), fun _ => ⟨rfl, hsync.holds⟩⟩
      · next error world' heq =>
          rw [heq] at hsync
          exact ⟨_, _, _, rfl, hsync.of_look hold', .refl core, h,
            (fun hok => by cases hok),
            (fun hdirty => absurd (hdirty.symm.trans hclean) (by decide)),
            (fun hdirty => absurd (hdirty.symm.trans hclean) (by decide)), fun _ => ⟨rfl, hsync.holds⟩⟩
  next hnotClean =>
  have hdirty : core.dirty = true := Bool.not_eq_false _ ▸ hnotClean
  obtain ⟨hstage, hstaged⟩ := @stageSnapshot_steps scheme crc core world world.files rfl
  have hkeep : ∀ files, world.files.Extends files → core.OldOrNew crc old files :=
    fun files hextends => Or.inl (hextends.read hold)
  split
  · next error world' heq =>
      rw [heq] at hstage
      exact ⟨_, _, _, rfl, hstage.imp hkeep, .refl core, h, (fun hok => by cases hok),
        (fun _ _ _ => hdirty), (fun _ hok => by cases hok), fun hclean => absurd hclean hnotClean⟩
  next temporary world' heq =>
  rw [heq] at hstage hstaged
  obtain ⟨bytes, hencode, hbeside⟩ := hstaged temporary rfl
  obtain ⟨hpublish, hpublished, hunpublished⟩ :=
    OwnedTemporaryFile.publishReplace_steps hbeside core.path
  have hnew : ∀ files, world.files.Extends files ∨ files.read core.path.location = some bytes →
      core.OldOrNew crc old files := by
    rintro files (hextends | hread)
    · exact hkeep files hextends
    · exact Or.inr ⟨bytes, hencode, hread⟩
  have hsteps := (hstage.imp hkeep).trans (hpublish.imp hnew)
  dsimp only
  split
  · -- Publication failed: the committed base is gone, but no live row is.
    next error world'' heq' =>
      rw [heq'] at hsteps
      obtain ⟨rebuilt, hrebuilt, hwell, hsame, hflag⟩ := h.rebuildAfterFailure error world''
      exact ⟨_, _, _, hrebuilt, hsteps, hsame, hwell, (fun hok => by cases hok),
        (fun _ _ _ => hflag.trans hdirty), (fun _ hok => by cases hok), fun hclean => absurd hclean hnotClean⟩
  · next world'' heq' =>
      rw [heq'] at hsteps hpublished
      have hholds : world''.files.Holds core.path.location bytes := hpublished rfl
      have hread := hholds.read
      have hparent := parentSyncError_steps core.path syncParent world''
      have hparentRead : (parentSyncError core.path syncParent world'').2.files.read
          core.path.location = some bytes := by
        rw [hparent.holds]
        exact hread
      obtain ⟨result, refreshed, last, hrefresh, hlast, hwell, hsame, hok, herror⟩ :=
        h.refreshAfterCommit hencode hparentRead
          (parentSyncError core.path syncParent world'').1
      have hpublishedState : core.OldOrNew crc old world''.files := Or.inr ⟨bytes, hencode, hread⟩
      have hparentState : core.OldOrNew crc old
          (parentSyncError core.path syncParent world'').2.files :=
        Or.inr ⟨bytes, hencode, hparentRead⟩
      refine ⟨result, refreshed, last, hrefresh,
        (hsteps.trans (hparent.of_look hpublishedState)).trans (hlast.of_look hparentState), hsame,
        hwell, fun hresult => (hok hresult).2, fun _ => herror, fun _ _ => ?_,
        fun hclean => absurd hclean hnotClean⟩
      refine ⟨bytes, hencode, ?_⟩
      rw [show last.files = _ from hlast.holds, hparent.holds]
      exact hholds

/-- A commit keeps the contents of an index, and its target holds what it held or what is
live. -/
theorem PublishedAs.commit {keyHashes : OrderedMap UInt64 (List UInt64)}
    (h : core.PublishedAs crc world.files keyHashes) (syncParent : Bool) :
    ∃ result core' world', core.commit crc syncParent world = (result, core', world') ∧
      core'.PublishedAs crc world'.files
        (publishedAfter core.path world world' keyHashes core.keyHashes) ∧
      SameContents core core' ∧ (result = .ok () → core'.dirty = false) := by
  obtain ⟨old, stored, hold, hstored⟩ := h.decodes
  obtain ⟨result, core', world', hcommit, hsteps, hsame, hwell, hok, hfailed, hnew, hclean⟩ :=
    commit_spec h.wellFormed hold syncParent
  have hdecodes : Decodes crc scheme core.path core.config world'.files
      (publishedAfter core.path world world' keyHashes core.keyHashes) := by
    unfold publishedAfter
    split
    · next hread => exact ⟨old, stored, hread.trans hold, hstored⟩
    · next hread =>
        rcases hsteps.holds with hkept | ⟨new, hencode, hwritten⟩
        · exact absurd (hkept.trans hold.symm) hread
        · exact decodes_of_encodeSnapshot hencode hwritten
  refine ⟨result, core', world', hcommit, ⟨hwell, ?_, fun hflag => ?_⟩, hsame, hok⟩
  · rw [hsame.path, hsame.config]
    exact hdecodes
  rw [hsame.keyHashes]
  cases hdirty : core.dirty with
  | false =>
      obtain ⟨_, hfiles⟩ := hclean hdirty
      rw [publishedAfter, hfiles, if_pos rfl]
      exact h.clean hdirty
  | true =>
      cases result with
      | ok =>
          obtain ⟨new, hencode, hholds⟩ := hnew hdirty rfl
          exact (decodes_of_encodeSnapshot hencode hholds.read).unique hdecodes rfl
      | error error =>
          rw [hfailed hdirty error rfl] at hflag
          cases hflag

/-! ## Commits without failures -/

/-- Nothing fails from here on: no call by a fault, the snapshot encodes, and a temporary name
is free. -/
structure Unfailing (crc : Checksum) (core : PersistentIndexCore scheme) (world : World) : Prop where
  quiet : world.Quiet
  encodes : succeeds (core.encodeSnapshot crc)
  fileName : core.path.fileName ≠ none
  freeName : OwnedTemporaryFile.FreeName core.path temporaryAllocationAttempts world

theorem createParentIfNeeded_of_quiet (hquiet : world.Quiet) (path : Path) :
    ∃ world', createParentIfNeeded path world = (.ok (), world') ∧ world'.files = world.files ∧
      world'.counter = world.counter ∧ world'.processId = world.processId := by
  unfold createParentIfNeeded
  split
  · exact ⟨world, rfl, rfl, rfl, rfl⟩
  · exact ⟨_, World.call_of_quiet hquiet rfl, rfl, rfl, rfl⟩

theorem stageSnapshot_of_unfailing (h : core.Unfailing crc world) :
    ∃ temporary, (core.stageSnapshot crc world).1 = .ok temporary := by
  obtain ⟨snapshot, hencode⟩ := h.encodes
  have hparent := createParentIfNeeded_steps core.path world
  obtain ⟨world', hcreate, hfiles, hcounter, hprocess⟩ :=
    createParentIfNeeded_of_quiet h.quiet core.path
  rw [hcreate] at hparent
  have hquiet : world'.Quiet := hparent.quiet h.quiet
  have hfree : OwnedTemporaryFile.FreeName core.path temporaryAllocationAttempts world' := by
    rw [OwnedTemporaryFile.FreeName, hfiles, hcounter, hprocess]
    exact h.freeName
  obtain ⟨name, hname⟩ := Option.ne_none_iff_exists'.mp h.fileName
  obtain ⟨temporary, hallocate⟩ := OwnedTemporaryFile.allocateLoop_of_quiet hquiet hfree
  obtain ⟨hsteps, hstaged⟩ := @OwnedTemporaryFile.allocate_steps world'.files world' core.path rfl
  have hloop : OwnedTemporaryFile.allocate core.path world' =
      OwnedTemporaryFile.allocateLoop core.path temporaryAllocationAttempts world' := by
    rw [OwnedTemporaryFile.allocate, hname]
  rw [hloop] at hsteps hstaged
  have hwritten := @OwnedTemporaryFile.writeSynced_of_quiet world'.files temporary _ snapshot
    (hsteps.quiet hquiet) (hstaged temporary hallocate)
  refine ⟨temporary, ?_⟩
  unfold stageSnapshot
  simp only [hencode, hcreate, hloop]
  generalize OwnedTemporaryFile.allocateLoop core.path temporaryAllocationAttempts world' = allocated
    at hallocate hwritten
  obtain ⟨result, world''⟩ := allocated
  obtain rfl : result = .ok temporary := hallocate
  dsimp only at hwritten ⊢
  generalize temporary.writeSynced snapshot world'' = written at hwritten
  obtain ⟨result, world'''⟩ := written
  obtain rfl : result = .ok () := hwritten
  rfl

/-- A commit in which nothing fails succeeds. -/
theorem commit_of_unfailing {keyHashes : OrderedMap UInt64 (List UInt64)}
    (h : core.PublishedAs crc world.files keyHashes) (hnone : core.Unfailing crc world)
    (syncParent : Bool) : (core.commit crc syncParent world).1 = .ok () := by
  obtain ⟨old, _, hold, _⟩ := h.decodes
  have hparentNone : ∀ world' : World, world'.Quiet →
      (parentSyncError core.path syncParent world').1 = none := by
    intro world' hquiet
    unfold parentSyncError syncParentDirectory
    split
    · have hsync : world'.syncDirectory core.path.directory = (.ok (), world'.leave world'.files) :=
        World.call_of_quiet hquiet rfl
      rw [hsync]
    · rfl
  unfold commit
  split
  · have hparent := hparentNone world hnone.quiet
    split
    · rfl
    · next heq =>
        rw [heq] at hparent
        cases hparent
  obtain ⟨temporary, htemporary⟩ := stageSnapshot_of_unfailing hnone
  obtain ⟨hstage, hstaged⟩ := @stageSnapshot_steps scheme crc core world world.files rfl
  obtain ⟨bytes, hencode, hbeside⟩ := hstaged temporary htemporary
  have hstageQuiet := hstage.quiet hnone.quiet
  have hpublish := OwnedTemporaryFile.publishReplace_of_quiet hstageQuiet hbeside hold
  obtain ⟨hpublishSteps, hpublished, _⟩ :=
    OwnedTemporaryFile.publishReplace_steps hbeside core.path
  have hread := (hpublished hpublish).read
  have hquiet := hpublishSteps.quiet hstageQuiet
  split
  · next error world' heq =>
      rw [heq] at htemporary
      cases htemporary
  next other world' heq =>
  rw [heq] at htemporary hpublish hread hquiet
  obtain rfl := Except.ok.inj htemporary
  dsimp only at hpublish hread hquiet ⊢
  split
  · next error world'' heq' =>
      rw [heq'] at hpublish
      cases hpublish
  next world'' heq' =>
  rw [heq'] at hread hquiet
  replace hread : world''.files.read core.path.location = some bytes := hread
  have hparent := hparentNone world'' hquiet
  have hparentSteps := parentSyncError_steps core.path syncParent world''
  have hopenRead : (parentSyncError core.path syncParent world'').2.openRead core.path =
      (.ok bytes, (parentSyncError core.path syncParent world'').2.leave
        (parentSyncError core.path syncParent world'').2.files) := by
    refine World.call_of_quiet (hparentSteps.quiet hquiet) ?_
    rw [hparentSteps.holds]
    obtain ⟨inode, hlookup, hcontents⟩ := FileSystem.read_eq_some_iff.mp hread
    rw [hlookup, ← hcontents]
  obtain ⟨opened, hopened, _⟩ := exists_openFile_of_encodeSnapshot hencode core.path
  rw [PersistentIndexCore.refreshAfterCommit, openPath]
  simp only [hopenRead, hopened, hparent]

/-! ## Creation -/

/-- The snapshot is a function of the configuration and the live rows. -/
theorem encodeSnapshot_congr {core' : PersistentIndexCore scheme}
    (hconfig : core'.config = core.config) (hkeys : core'.keyHashes = core.keyHashes) :
    core'.encodeSnapshot crc = core.encodeSnapshot crc := by
  simp only [encodeSnapshot, snapshotMetadata, hconfig, hkeys]

/-- A created index is empty, clean, and its file holds it. -/
theorem createWithParams_published {path : Path} {threshold : F64} {numPerm : Nat} {seed : UInt64}
    {params : LshParams} {world' : World}
    (h : createWithParams crc scheme path threshold numPerm seed params world = (.ok core, world')) :
    core.PublishedAs crc world'.files ∅ ∧ core.path = path ∧ core.config.params = params ∧
      core.config.threshold = threshold ∧ core.config.numPerm = numPerm ∧ core.config.seed = seed ∧
      core.keyHashes = ∅ ∧ core.dirty = false ∧
      ∃ bytes, core.encodeSnapshot crc = .ok bytes ∧ world'.files.Holds path.location bytes := by
  unfold createWithParams at h
  split at h
  · cases h
  next absent _ =>
  split at h
  · cases h
  next config hconfig =>
  obtain ⟨hthreshold, hnumPerm, hseed, hparams⟩ := LshConfig.new_eq_ok_iff.mp hconfig
  have hempty : (empty scheme path config).WellFormed crc := wellFormed_empty path config
  unfold commitInitial at h
  obtain ⟨_, hstaged⟩ := @stageSnapshot_steps scheme crc (empty scheme path config) absent
    absent.files rfl
  split at h
  · cases h
  next failed store last hcommit =>
  cases h
  split at hcommit
  · cases hcommit
  next temporary staged hstage =>
  rw [hstage] at hstaged
  obtain ⟨bytes, hencode, hbeside⟩ := hstaged temporary rfl
  have hpublished := @OwnedTemporaryFile.holds_of_publishNoReplace absent.files temporary staged bytes
    hbeside path
  dsimp only at hcommit
  split at hcommit
  · next error published _ =>
      obtain ⟨rebuilt, hrebuilt, _⟩ :=
        hempty.rebuildAfterFailure error published
      rw [hrebuilt] at hcommit
      cases hcommit
  next published hpublish =>
  have hholds : published.files.Holds path.location bytes := by
    rw [show (empty scheme path config).path = path from rfl] at hpublish
    rw [hpublish] at hpublished
    exact hpublished rfl
  obtain ⟨result, refreshed, last', hrefresh, hlast, hwell, hsame, hok, _⟩ :=
    hempty.refreshAfterCommit hencode hholds.read none
  rw [hrefresh] at hcommit
  cases hcommit
  obtain ⟨_, hclean⟩ := hok rfl
  have hholds' : world'.files.Holds path.location bytes := by
    rw [show world'.files = published.files from hlast.holds]
    exact hholds
  have hdecodes : Decodes crc scheme core.path core.config world'.files ∅ := by
    rw [hsame.path, hsame.config]
    exact decodes_of_encodeSnapshot hencode hholds'.read
  refine ⟨⟨hwell, hdecodes, fun _ => hsame.keyHashes.symm⟩, hsame.path, ?_, ?_, ?_, ?_,
    hsame.keyHashes, hclean, bytes, ?_, hholds'⟩
  · rw [hsame.config]
    exact hparams
  · rw [hsame.config]
    exact hthreshold
  · rw [hsame.config]
    exact hnumPerm
  · rw [hsame.config]
    exact hseed
  · rw [encodeSnapshot_congr hsame.config hsame.keyHashes]
    exact hencode

/-- Reading a file that a name holds. -/
theorem openRead_of_quiet {path : Path} {bytes : Bytes} (hquiet : world.Quiet)
    (hholds : world.files.Holds path.location bytes) :
    world.openRead path = (.ok bytes, world.leave world.files) := by
  refine World.call_of_quiet hquiet ?_
  obtain ⟨inode, hentry, rfl⟩ := hholds
  rw [FileSystem.lookup_of_entry hentry]

end Specs

end PersistentIndexCore

end Pari.Store
