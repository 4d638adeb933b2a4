/-
# Publishing a lazy index

The lazy store links its temporary file to the destination, removes the temporary name and syncs
the directory; the last two are parameters, since another process may act during them. The
rollback follows the destination to the file it names, so it takes a foreign symbolic link that
leads to the file for the file.
-/

import Pari.Data.Publication
import Pari.Store.TemporaryFile

namespace Pari.Lazy

open Data Pari.Format Pari.Index Pari.Store

/-- Errors returned by the lazy local store. -/
inductive LazyStoreError
  | io (error : IoError)
  | layout (error : LayoutError)
  | format (error : FormatError)
  | bucket (error : BucketError)
  | index (error : LshError)
  | invalidSnapshot (reason : String)
  | lengthOverflow
  | alreadyExists (path : Path)
  | cleanup (original cleanup : LazyStoreError)
  | incompatibleSeed (expected actual : UInt64)
  | incompatiblePermutationCount (expected actual : Nat)
  deriving DecidableEq, Repr

/-- `rollback_published`: the error to return. -/
def rollbackPublished (destination : Path) (identity : Handle) (original : LazyStoreError)
    (world : World) : LazyStoreError × World :=
  match world.rollbackLinked destination identity with
  | (.ok (), world) => (original, world)
  | (.error error, world) => (.cleanup original (.io error), world)

/-- `publish_temporary`, with the calls it makes after the link. -/
def publishTemporaryWith (temporary destination : Path) (identity : Handle)
    (removeFile syncParent : PathCall) (world : World) : Except LazyStoreError Unit × World :=
  match world.hardLink temporary destination with
  | (.error error, world) =>
      if error.kind = .alreadyExists then (.error (.alreadyExists destination), world)
      else (.error (.io error), world)
  | (.ok (), world) =>
      match removeFile temporary world with
      | (.error error, world) =>
          let (error, world) := rollbackPublished destination identity (.io error) world
          (.error error, world)
      | (.ok (), world) =>
          match syncParent destination world with
          | (.error error, world) =>
              let (error, world) := rollbackPublished destination identity (.io error) world
              (.error error, world)
          | (.ok (), world) => (.ok (), world)

def publishTemporary (temporary destination : Path) (identity : Handle) :
    World → Except LazyStoreError Unit × World :=
  publishTemporaryWith temporary destination identity (fun path world => world.removeFile path)
    syncParentDirectory

/-- What the lazy store does between the link and a rollback. -/
def temporaryPlan (temporary destination : Path) (identity : Handle)
    (removeFile syncParent : PathCall) : LinkPlan where
  staged := temporary
  destination := destination
  identify := fun world => some (identity, world)
  proceed := World.thenCall (removeFile temporary) (syncParent destination)

section Taking

variable {temporary destination : Path} {identity : Handle} {removeFile syncParent : PathCall}
  {world : World}

theorem files_rollbackPublished {original : LazyStoreError} :
    (rollbackPublished destination identity original world).2.files =
      (world.rollbackLinked destination identity).2.files := by
  unfold rollbackPublished
  split
  all_goals
    next hrollback => rw [hrollback]

/-- The lazy store's publication is careful exactly if no link misleads its rollback. -/
theorem careful_publishTemporaryWith_iff :
    (temporaryPlan temporary destination identity removeFile syncParent).Careful
        (publishTemporaryWith temporary destination identity removeFile syncParent) world ↔
      ¬ (temporaryPlan temporary destination identity removeFile syncParent).Misled world := by
  apply LinkPlan.careful_iff_of_following
  · intro hunlinked
    rcases hlink : world.hardLink temporary destination with ⟨linking, linked⟩
    cases linking with
    | ok value => exact absurd ⟨identity, world, linked, rfl, hlink⟩ hunlinked
    | error error =>
        have hsame := (World.look_of_error hlink).holds
        unfold publishTemporaryWith
        rw [hlink]
        dsimp only
        split
        · exact ⟨nofun, by rw [hsame]⟩
        · exact ⟨nofun, by rw [hsame]⟩
  · rintro _ _ ⟨⟩
    rfl
  · rintro _ interfered ⟨_, linked, error, ⟨⟩, hlink, hproceed⟩
    dsimp only [temporaryPlan] at hlink hproceed ⊢
    unfold publishTemporaryWith
    rw [hlink]
    dsimp only
    rcases World.thenCall_eq_error hproceed with hremove | ⟨next, hremove, hsync⟩
    · rw [hremove]
      dsimp only
      rw [files_rollbackPublished]
    · rw [hremove]
      dsimp only
      rw [hsync]
      dsimp only
      rw [files_rollbackPublished]

end Taking

end Pari.Lazy
