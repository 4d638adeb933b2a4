/-
# Publishing a new index

The store links its temporary file to the target, removes the temporary name and syncs the
directory; the last two are parameters, since another process may act during them. What the
store takes back it looks at without following links, so it only ever takes its own file.
-/

import Pari.Data.Publication
import Pari.Store.TemporaryFile

namespace Pari.Store

open Data

namespace OwnedTemporaryFile

/-- `publish_no_replace_with`. -/
def publishNoReplaceWith (temporary : OwnedTemporaryFile) (target : Path)
    (removeTemporary syncDirectory : PathCall) (world : World) : Except StoreError Unit × World :=
  match temporary.file with
  | none => (.error (.io closedError), temporary.drop world)
  | some _ =>
      match { temporary with file := none }.verifyOwnedPath world with
      | (.error error, temporary, world) => temporary.failAfter error world
      | (.ok (), temporary, world) =>
          match world.hardLink temporary.path target with
          | (.error error, world) => temporary.failAfter error world
          | (.ok (), world) =>
              match removeTemporary temporary.path world with
              | (.error error, world) => recoverAfterInitialPublication temporary target error world
              | (.ok (), world) =>
                  let temporary := { temporary with ownsPath := false }
                  match syncDirectory target world with
                  | (.error error, world) =>
                      recoverAfterInitialPublication temporary target error world
                  | (.ok (), world) => (.ok (), temporary.drop world)

/-- Publication with the calls of the file system. -/
theorem publishNoReplace_eq (temporary : OwnedTemporaryFile) (target : Path) :
    temporary.publishNoReplace target =
      temporary.publishNoReplaceWith target (fun path world => world.removeFile path)
        syncParentDirectory := rfl

/-- What the store does before the link, and between the link and a rollback. -/
def plan (temporary : OwnedTemporaryFile) (target : Path)
    (removeTemporary syncDirectory : PathCall) : LinkPlan where
  staged := temporary.path
  destination := target
  identify := fun world =>
    match temporary.file with
    | none => none
    | some _ =>
        match { temporary with file := none }.verifyOwnedPath world with
        | (.error _, _, _) => none
        | (.ok (), temporary, world) => some (temporary.identity, world)
  proceed := World.thenCall (removeTemporary temporary.path) (syncDirectory target)

end OwnedTemporaryFile

section Taking

variable {temporary : OwnedTemporaryFile} {world : World} {target : Path}
  {removeTemporary syncDirectory : PathCall}

/-- Verification changes nothing but the claim to own the path, and finds the file itself. -/
theorem verifyOwnedPath_spec :
    (temporary.verifyOwnedPath world).2.2.files = world.files ∧
      (temporary.verifyOwnedPath world).2.1.path = temporary.path ∧
      (temporary.verifyOwnedPath world).2.1.identity = temporary.identity ∧
      ((temporary.verifyOwnedPath world).1 = .ok () →
        (temporary.verifyOwnedPath world).2.1 = temporary ∧
          (∃ entry, world.files.entries temporary.path.location = some entry ∧
            entry.isSymlink = false) ∧
          world.files.lookup temporary.path.location = some temporary.identity) := by
  unfold OwnedTemporaryFile.verifyOwnedPath
  split
  · next error world' hmetadata =>
      exact ⟨(World.look_of_error hmetadata).holds, rfl, rfl, nofun⟩
  · next isSymlink world' hmetadata =>
      obtain ⟨hentry, hfiles⟩ := World.symlinkMetadata_eq_ok hmetadata
      split
      · exact ⟨hfiles, rfl, rfl, nofun⟩
      · next hdirect =>
          rw [Bool.not_eq_true] at hdirect
          rw [hdirect] at hentry
          split
          · next error world'' hhandle =>
              exact ⟨(World.look_of_error hhandle).holds.trans hfiles, rfl, rfl, nofun⟩
          · next current world'' hhandle =>
              obtain ⟨hlookup, hfiles'⟩ := World.handleFromPath_eq_ok hhandle
              rw [hfiles] at hlookup
              split
              · exact ⟨hfiles'.trans hfiles, rfl, rfl, nofun⟩
              · next hsame =>
                  rw [Ne, not_not] at hsame
                  exact ⟨hfiles'.trans hfiles, rfl, rfl, fun _ => ⟨rfl, hentry, hsame ▸ hlookup⟩⟩

/-- Giving up the path removes it only if it is a name of the file. -/
theorem removesOwn_removeOwnedPath :
    RemovesOwn temporary.identity temporary.path.location world.files
        (temporary.removeOwnedPath world).2.2.files ∧
      (temporary.removeOwnedPath world).2.1.path = temporary.path ∧
      (temporary.removeOwnedPath world).2.1.identity = temporary.identity := by
  obtain ⟨hfiles, hpath, hidentity, hverified⟩ :=
    @verifyOwnedPath_spec { temporary with file := none } world
  unfold OwnedTemporaryFile.removeOwnedPath
  dsimp only
  split
  · exact ⟨.of_eq rfl, rfl, rfl⟩
  · split
    · next error verified world' hverify =>
        rw [hverify] at hfiles hpath hidentity
        split <;> exact ⟨.of_eq hfiles, hpath, hidentity⟩
    · next verified world' hverify =>
        rw [hverify] at hfiles hverified
        obtain ⟨hsame, ⟨entry, hentry, hdirect⟩, hlookup⟩ := hverified rfl
        dsimp only at hfiles hsame hentry hlookup
        subst hsame
        rw [← hfiles] at hentry hlookup
        have hremoves := World.removesOwn_removeFile hentry hdirect hlookup
        rw [hfiles] at hremoves
        split
        · next world'' hremove =>
            rw [hremove] at hremoves
            exact ⟨hremoves, rfl, rfl⟩
        · next error world'' hremove =>
            rw [hremove] at hremoves
            split <;> exact ⟨hremoves, rfl, rfl⟩

theorem removesOwn_drop :
    RemovesOwn temporary.identity temporary.path.location world.files
      (temporary.drop world).files :=
  removesOwn_removeOwnedPath.1

theorem removesOwn_failAfter {error : IoError} :
    RemovesOwn temporary.identity temporary.path.location world.files
      (temporary.failAfter error world).2.files := by
  obtain ⟨hremoves, hpath, hidentity⟩ := @removesOwn_removeOwnedPath temporary world
  unfold OwnedTemporaryFile.failAfter OwnedTemporaryFile.cleanupAfter
  dsimp only
  split
  all_goals
    next hremove =>
      rw [hremove] at hremoves hpath hidentity
      dsimp only at hpath hidentity
      refine hremoves.trans ?_
      rw [← hpath, ← hidentity]
      exact removesOwn_drop

/-- The rollback looks at the destination itself, and takes only the file. -/
theorem removesOwn_rollbackOwnedDestination {identity : Handle} :
    RemovesOwn identity target.location world.files
      (rollbackOwnedDestination target identity world).2.files := by
  unfold rollbackOwnedDestination
  split
  · next hmetadata =>
      have hsame := (World.look_of_error hmetadata).holds
      split <;> exact .of_eq hsame
  · next isSymlink world' hmetadata =>
      obtain ⟨⟨entry, hentry, hdirect⟩, hfiles⟩ := World.symlinkMetadata_eq_ok hmetadata
      split
      · exact .of_eq hfiles
      · next hnot =>
          rw [Bool.not_eq_true] at hnot
          split
          · next hhandle =>
              have hsame := (World.look_of_error hhandle).holds.trans hfiles
              split <;> exact .of_eq hsame
          · next current world'' hhandle =>
              obtain ⟨hlookup, hfiles'⟩ := World.handleFromPath_eq_ok hhandle
              split
              · exact .of_eq (hfiles'.trans hfiles)
              · next hsame =>
                  rw [Ne, not_not] at hsame
                  have hall := hfiles'.trans hfiles
                  rw [hfiles, ← hall, hsame] at hlookup
                  rw [← hall] at hentry
                  have hremoves := World.removesOwn_removeFile hentry (hdirect.trans hnot) hlookup
                  rw [hall] at hremoves
                  split
                  · next hremove =>
                      rw [hremove] at hremoves
                      exact hremoves
                  · next hremove =>
                      rw [hremove] at hremoves
                      rw [syncParentDirectory, World.files_syncDirectory]
                      exact hremoves

/-- Recovering takes only the file, whichever of the two names it has. -/
theorem takesOwn_recoverAfterInitialPublication {error : IoError} (location : Location) :
    TakesOwn temporary.identity (world.files.entries location)
      ((recoverAfterInitialPublication temporary target error world).2.files.entries location) := by
  have hrollback := @removesOwn_rollbackOwnedDestination world target temporary.identity
  unfold recoverAfterInitialPublication
  dsimp only
  generalize (rollbackOwnedDestination target temporary.identity world).2 = rolledBack at *
  obtain ⟨hremoves, hpath, hidentity⟩ := @removesOwn_removeOwnedPath temporary rolledBack
  have hdrop := @removesOwn_drop (temporary.removeOwnedPath rolledBack).2.1
    (temporary.removeOwnedPath rolledBack).2.2
  rw [hpath, hidentity] at hdrop
  exact (hrollback.takesOwn location).trans ((hremoves.trans hdrop).takesOwn location)

/-- The store's publication is careful whatever other processes do to the destination. -/
theorem careful_publishNoReplaceWith :
    (temporary.plan target removeTemporary syncDirectory).Careful
      (temporary.publishNoReplaceWith target removeTemporary syncDirectory) world := by
  cases hfile : temporary.file with
  | none =>
      refine LinkPlan.careful_of_unlinked ?_ ?_ (@RemovesOwn.spares temporary.identity _ _ _ ?_ _)
      · rintro ⟨_, _, _, hidentify, _⟩
        simp [OwnedTemporaryFile.plan, hfile] at hidentify
      · rw [OwnedTemporaryFile.publishNoReplaceWith, hfile]
        nofun
      · rw [OwnedTemporaryFile.publishNoReplaceWith, hfile]
        exact removesOwn_drop
  | some inode =>
      obtain ⟨hlook, hpath, hidentity, hverified⟩ :=
        @verifyOwnedPath_spec { temporary with file := none } world
      rcases hverify : { temporary with file := none }.verifyOwnedPath world with
        ⟨result, verified, identified⟩
      rw [hverify] at hlook hpath hidentity hverified
      have hfail (later : World) (hlater : later.files = world.files) (error : IoError) :
          RemovesOwn temporary.identity temporary.path.location world.files
            (verified.failAfter error later).2.files := by
        have hremoves := @removesOwn_failAfter verified later error
        rw [hpath, hidentity, hlater] at hremoves
        exact hremoves
      cases result with
      | error error =>
          refine LinkPlan.careful_of_unlinked ?_ ?_ (@RemovesOwn.spares temporary.identity _ _ _ ?_ _)
          · rintro ⟨_, _, _, hidentify, _⟩
            simp [OwnedTemporaryFile.plan, hfile, hverify] at hidentify
          · rw [OwnedTemporaryFile.publishNoReplaceWith, hfile]
            simp [hverify, OwnedTemporaryFile.failAfter]
          · rw [OwnedTemporaryFile.publishNoReplaceWith, hfile]
            dsimp only
            rw [hverify]
            exact hfail identified hlook error
      | ok value =>
          obtain rfl := (hverified rfl).1
          have hidentify : (temporary.plan target removeTemporary syncDirectory).identify world =
              some (temporary.identity, identified) := by
            simp [OwnedTemporaryFile.plan, hfile, hverify]
          rcases hlink : identified.hardLink temporary.path target with ⟨linking, linked⟩
          cases linking with
          | error error =>
              refine LinkPlan.careful_of_unlinked ?_ ?_ (@RemovesOwn.spares temporary.identity _ _ _ ?_ _)
              · rintro ⟨_, _, _, hidentify', hlink'⟩
                rw [hidentify] at hidentify'
                cases hidentify'
                exact absurd (hlink.symm.trans hlink') nofun
              · rw [OwnedTemporaryFile.publishNoReplaceWith, hfile]
                simp [hverify, hlink, OwnedTemporaryFile.failAfter]
              · rw [OwnedTemporaryFile.publishNoReplaceWith, hfile]
                dsimp only
                rw [hverify]
                dsimp only
                rw [hlink]
                exact hfail linked ((World.look_of_error hlink).holds.trans hlook) error
          | ok value =>
              rw [LinkPlan.careful_iff_of_linked hidentify hlook hlink]
              intro error interfered hproceed
              rw [OwnedTemporaryFile.publishNoReplaceWith, hfile]
              dsimp only
              rw [hverify]
              dsimp only
              rw [hlink]
              dsimp only
              rcases World.thenCall_eq_error hproceed with hremove | ⟨next, hremove, hsync⟩
              · rw [hremove]
                exact takesOwn_recoverAfterInitialPublication target.location
              · rw [hremove]
                dsimp only
                rw [hsync]
                exact takesOwn_recoverAfterInitialPublication target.location

end Taking

end Pari.Store
