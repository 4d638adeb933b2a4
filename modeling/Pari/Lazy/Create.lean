/-
# Creating a lazy index file

The in-memory builder writes its output under a temporary name beside the destination and
publishes it by a link. A build that succeeds leaves at the destination exactly what the source
encodes to.
-/

import Pari.Data.Staging
import Pari.Lazy.Build
import Pari.Store.Commit

namespace Pari.Lazy

open Data Pari.Format Pari.Index Pari.Store

def temporaryCreateAttempts : Nat := 128

/-- `temporary_path`: a hidden name beside the path. -/
def temporaryPathFor (path : Path) (processId : Nat) (id : UInt64) : Except LazyStoreError Path :=
  match path.fileName with
  | none => .error (.invalidSnapshot "destination path must identify a file")
  | some name => .ok { path with
      fileName := some
        ("." ++ name ++ ".pari-lazy-" ++ toString processId ++ "-" ++ toString id ++ ".tmp") }

/-- The allocation loop: the attempts left. -/
def createTemporary (path : Path) : Nat → World → Except LazyStoreError (Path × Nat) × World
  | 0, world =>
      (.error (.io (.custom .alreadyExists
        "could not allocate a unique lazy-store temporary file")), world)
  | attempts + 1, world =>
      let (id, world) := world.fetchAdd
      match temporaryPathFor path world.processId id with
      | .error error => (.error error, world)
      | .ok temporary =>
          match world.createNew temporary with
          | (.ok inode, world) => (.ok (temporary, inode), world)
          | (.error error, world) =>
              if error.kind = .alreadyExists then createTemporary path attempts world
              else (.error (.io error), world)

def cleanupOwnedPath (path : Path) (original : LazyStoreError) (world : World) :
    LazyStoreError × World :=
  match world.removeFile path with
  | (.ok (), world) =>
      match syncParentDirectory path world with
      | (.ok (), world) => (original, world)
      | (.error cleanup, world) => (.cleanup original (.io cleanup), world)
  | (.error error, world) =>
      if error.kind = .notFound then (original, world)
      else (.cleanup original (.io error), world)

/-- Write the temporary file, and publish it under its identity. -/
def writeAndPublish (temporary : Path) (inode : Nat) (destination : Path) (bytes : Bytes)
    (world : World) : Except LazyStoreError Unit × World :=
  match world.writeSynced inode bytes with
  | (.error error, world) => (.error (.io error), world)
  | (.ok (), world) =>
      match world.handleFromFile inode with
      | (.error error, world) => (.error (.io error), world)
      | (.ok identity, world) => publishTemporary temporary destination identity world

def atomicCreate (path : Path) (bytes : Bytes) (world : World) :
    Except LazyStoreError Unit × World :=
  match createParentIfNeeded path world with
  | (.error error, world) => (.error (.io error), world)
  | (.ok (), world) =>
      match createTemporary path temporaryCreateAttempts world with
      | (.error error, world) => (.error error, world)
      | (.ok (temporary, inode), world) =>
          match writeAndPublish temporary inode path bytes world with
          | (.ok (), world) => (.ok (), world)
          | (.error original, world) =>
              let (error, world) := cleanupOwnedPath temporary original world
              (.error error, world)

/-- Convert one committed snapshot into the canonical lazy format. -/
def buildFromSnapshot (crc : Checksum) (source destination : Path) (world : World) :
    Except LazyStoreError Unit × World :=
  match world.pathExists destination with
  | (true, world) => (.error (.alreadyExists destination), world)
  | (false, world) =>
      match world.openRead source with
      | (.error error, world) => (.error (.io error), world)
      | (.ok file, world) =>
          match encodeFromSnapshot crc file with
          | .error error => (.error error, world)
          | .ok output => atomicCreate destination output world

/-! ## What a build publishes -/

section Publishing

variable {crc : Checksum} {world world' : World} {source destination temporary : Path}
  {bytes : Bytes} {inode : Nat} {identity : Handle}

theorem holds_of_publishTemporary (h : world.files.Holds temporary.location bytes)
    (hok : publishTemporary temporary destination identity world = (.ok (), world')) :
    world'.files.Holds destination.location bytes := by
  unfold publishTemporary publishTemporaryWith at hok
  split at hok
  · split at hok
    · cases hok
    · cases hok
  next linked hlink =>
  split at hok
  · cases hok
  next removed hremove =>
  split at hok
  · cases hok
  next last hsync =>
  cases hok
  exact (World.holds_of_publication h hlink hremove hsync).1

theorem createTemporary_eq_ok {attempts : Nat}
    (h : createTemporary destination attempts world = (.ok (temporary, inode), world')) :
    ∃ before : World, before.createNew temporary = (.ok inode, world') := by
  induction attempts generalizing world with
  | zero => cases h
  | succ attempts ih =>
      unfold createTemporary at h
      dsimp only at h
      split at h
      · cases h
      · split at h
        · next hcreate =>
            cases h
            exact ⟨_, hcreate⟩
        · split at h
          · exact ih h
          · cases h

theorem holds_of_atomicCreate (h : atomicCreate destination bytes world = (.ok (), world')) :
    world'.files.Holds destination.location bytes := by
  unfold atomicCreate at h
  split at h
  · cases h
  split at h
  · cases h
  next temporary inode created hcreated =>
  split at h
  · next hpublish =>
      cases h
      obtain ⟨before, hcreate⟩ := createTemporary_eq_ok hcreated
      unfold writeAndPublish at hpublish
      split at hpublish
      · cases hpublish
      next written hwrite =>
      split at hpublish
      · cases hpublish
      next identified hidentity =>
      have hlook := @World.handleFromFile_steps written inode
      rw [hidentity] at hlook
      apply holds_of_publishTemporary _ hpublish
      rw [show identified.files = written.files from hlook.holds,
        World.files_of_created hcreate hwrite]
      exact FileSystem.holds_staged
  · cases h

/-- A build that succeeds publishes what its source encodes to. -/
theorem buildFromSnapshot_eq_ok (h : buildFromSnapshot crc source destination world = (.ok (), world')) :
    ∃ file bytes, world.files.read source.location = some file ∧
      encodeFromSnapshot crc file = .ok bytes ∧
      world'.files.Holds destination.location bytes := by
  have hexists := @World.files_pathExists world destination
  unfold buildFromSnapshot at h
  split at h
  · cases h
  next looked hlooked =>
  rw [hlooked] at hexists
  split at h
  · cases h
  next file opened hopen =>
  obtain ⟨hread, _⟩ := World.openRead_eq_ok hopen
  split at h
  · cases h
  next bytes hencode =>
  exact ⟨file, bytes, hexists ▸ hread, hencode, holds_of_atomicCreate h⟩

end Publishing

end Pari.Lazy
