/-
# Publishing a built index

The bounded builder links its temporary file to the destination, removes the temporary name and
syncs the directory; the last two are parameters, since another process may act during them. The
rollback follows the destination to the file it names, as that of the lazy store.
-/

import Pari.Data.Publication
import Pari.Store.TemporaryFile

namespace Pari.Build

open Data Pari.Format Pari.Store

/-- Errors returned by the bounded builder. -/
inductive BuildError
  | io (error : IoError)
  | layout (error : LayoutError)
  | format (error : FormatError)
  | bucket (error : BucketError)
  | invalidSource (reason : String)
  | invalidOptions (reason : String)
  | lengthOverflow
  | alreadyExists (path : Path)
  /-- Not an error of the source: the panic of `Vec::with_capacity`. -/
  | capacityOverflow
  deriving DecidableEq, Repr

def removeFileIfExists (path : Path) (world : World) : Except IoError Unit × World :=
  world.removeIfExists path

def rollbackFinal (destination : Path) (identity : Handle) (world : World) :
    Except IoError Unit × World :=
  world.rollbackLinked destination identity

def recoverAfterPublication (temporary destination : Path) (identity : Handle)
    (original : IoError) (world : World) : BuildError × World :=
  let (rollback, world) := rollbackFinal destination identity world
  let (cleanup, world) := removeFileIfExists temporary world
  (.io (publicationRecoveryError original rollback cleanup), world)

/-- `publish_no_replace_with`. -/
def publishNoReplaceWith (temporary destination : Path) (removeTemporary syncDirectory : PathCall)
    (world : World) : Except BuildError Unit × World :=
  match world.handleFromPath temporary with
  | (.error error, world) => (.error (.io error), world)
  | (.ok identity, world) =>
      match world.hardLink temporary destination with
      | (.error error, world) =>
          if error.kind = .alreadyExists then (.error (.alreadyExists destination), world)
          else (.error (.io error), world)
      | (.ok (), world) =>
          match removeTemporary temporary world with
          | (.error error, world) =>
              let (error, world) := recoverAfterPublication temporary destination identity error world
              (.error error, world)
          | (.ok (), world) =>
              match syncDirectory destination world with
              | (.error error, world) =>
                  let (error, world) :=
                    recoverAfterPublication temporary destination identity error world
                  (.error error, world)
              | (.ok (), world) => (.ok (), world)

def publishNoReplace (temporary destination : Path) : World → Except BuildError Unit × World :=
  publishNoReplaceWith temporary destination (fun path world => world.removeFile path)
    syncParentDirectory

/-- What the builder does before the link, and between the link and a rollback. -/
def finalPlan (temporary destination : Path) (removeTemporary syncDirectory : PathCall) :
    LinkPlan where
  staged := temporary
  destination := destination
  identify := fun world =>
    match world.handleFromPath temporary with
    | (.error _, _) => none
    | (.ok identity, world) => some (identity, world)
  proceed := World.thenCall (removeTemporary temporary) (syncDirectory destination)

section Taking

variable {temporary destination : Path} {removeTemporary syncDirectory : PathCall} {world : World}

theorem entries_recoverAfterPublication {identity : Handle} {original : IoError}
    (hne : temporary.location ≠ destination.location) :
    (recoverAfterPublication temporary destination identity original world).2.files.entries
        destination.location =
      (world.rollbackLinked destination identity).2.files.entries destination.location := by
  unfold recoverAfterPublication
  exact World.entries_removeIfExists hne

/-- The builder's publication is careful exactly if no link misleads its rollback. -/
theorem careful_publishNoReplaceWith_iff :
    (finalPlan temporary destination removeTemporary syncDirectory).Careful
        (publishNoReplaceWith temporary destination removeTemporary syncDirectory) world ↔
      ¬ (finalPlan temporary destination removeTemporary syncDirectory).Misled world := by
  have hidentify (identity : Handle) (identified : World) :
      (finalPlan temporary destination removeTemporary syncDirectory).identify world =
          some (identity, identified) ↔
        world.handleFromPath temporary = (.ok identity, identified) := by
    dsimp only [finalPlan]
    split
    · next hhandle =>
        rw [hhandle]
        exact ⟨nofun, nofun⟩
    · next hhandle =>
        rw [hhandle]
        simp
  apply LinkPlan.careful_iff_of_following
  · intro hunlinked
    unfold publishNoReplaceWith
    rcases hhandle : world.handleFromPath temporary with ⟨handling, identified⟩
    cases handling with
    | error error => exact ⟨nofun, by rw [(World.look_of_error hhandle).holds]⟩
    | ok identity =>
        dsimp only
        rcases hlink : identified.hardLink temporary destination with ⟨linking, linked⟩
        cases linking with
        | ok value =>
            exact absurd ⟨identity, identified, linked, (hidentify _ _).mpr hhandle, hlink⟩ hunlinked
        | error error =>
            have hsame := (World.look_of_error hlink).holds.trans
              (World.handleFromPath_eq_ok hhandle).2
            dsimp only
            split
            · exact ⟨nofun, by rw [hsame]⟩
            · exact ⟨nofun, by rw [hsame]⟩
  · intro identity identified h
    exact (World.handleFromPath_eq_ok ((hidentify _ _).mp h)).2
  · rintro identity interfered ⟨identified, linked, error, h, hlink, hproceed⟩
    rw [hidentify] at h
    dsimp only [finalPlan] at hlink hproceed ⊢
    have hne := (World.hardLink_eq_ok hlink).1
    unfold publishNoReplaceWith
    rw [h]
    dsimp only
    rw [hlink]
    dsimp only
    rcases World.thenCall_eq_error hproceed with hremove | ⟨next, hremove, hsync⟩
    · rw [hremove]
      exact @entries_recoverAfterPublication _ _ _ _ error hne
    · rw [hremove]
      dsimp only
      rw [hsync]
      exact @entries_recoverAfterPublication _ _ _ _ error hne

end Taking

end Pari.Build
