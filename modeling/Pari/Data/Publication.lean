/-
# Publication by a hard link

A file is staged under a name of its own and published by linking it to a destination that must
not exist. The calls that follow may fail, and another process may change the destination
meanwhile; then the publication is rolled back, and may take the entry away only if it is a name
of the staged file. A check that follows symbolic links takes a foreign link to the file for the
file itself.
-/

import Pari.Data.Process

namespace Data

/-- A call on a path. Another process may act during the call, so it may leave anything. -/
abbrev PathCall := Path → World → Except IoError Unit × World

/-- An entry stayed, or it was a name of the file and is gone. -/
def TakesOwn (identity : Handle) (before after : Option Entry) : Prop :=
  after = before ∨ ∃ inode, identity = .file inode ∧ before = some (.file inode) ∧ after = none

/-- Only this name can be gone, and only if it was a name of the file. -/
def RemovesOwn (identity : Handle) (name : Location) (before after : FileSystem) : Prop :=
  ∀ location, after.entries location = before.entries location ∨
    location = name ∧ ∃ inode, identity = .file inode ∧
      before.entries location = some (.file inode) ∧ after.entries location = none

/-- The destination is a symbolic link to the file, and neither following nor removing it
fails. -/
structure MisledBy (identity : Handle) (destination : Path) (world : World) : Prop where
  symlink : ∃ target, world.files.entries destination.location = some (.symlink target)
  resolves : world.files.lookup destination.location = some identity
  follows : world.faults world.calls = none
  removes : world.faults (world.calls + 1) = none

/-- What a publication does before its link, and between the link and a rollback. -/
structure LinkPlan where
  staged : Path
  destination : Path
  /-- The identity of the staged file, if the link is tried at all. -/
  identify : World → Option (Handle × World)
  proceed : World → Except IoError Unit × World

namespace LinkPlan

variable {ε : Type}

/-- The file was linked, and then a call failed: the identity of the file, the world the link
left, and the world at the rollback. -/
structure Interrupted (plan : LinkPlan) (world : World) (identity : Handle)
    (interfered : World) : Prop where
  linked : ∃ identified linked error, plan.identify world = some (identity, identified) ∧
    identified.hardLink plan.staged plan.destination = (.ok (), linked) ∧
    plan.proceed linked = (.error error, interfered)

/-- At the rollback the destination is a symbolic link that leads to the file. -/
def Misled (plan : LinkPlan) (world : World) : Prop :=
  ∃ identity interfered, plan.Interrupted world identity interfered ∧
    MisledBy identity plan.destination interfered

/-- The file was linked to a destination that did not exist. -/
structure Linked (plan : LinkPlan) (world : World) : Prop where
  linked : ∃ identity identified linked, plan.identify world = some (identity, identified) ∧
    identified.hardLink plan.staged plan.destination = (.ok (), linked) ∧
    identified.files.entries plan.destination.location = none ∧
    ∀ bytes, world.files.Holds plan.staged.location bytes →
      linked.files.Holds plan.destination.location bytes

/-- A publication that succeeds has linked the staged file to a new name. One that fails takes
the destination away only if it is a name of the staged file. -/
structure Careful (plan : LinkPlan) (publish : World → Except ε Unit × World) (world : World) :
    Prop where
  published : (publish world).1 = .ok () → plan.Linked world
  unlinked : (¬ ∃ identity identified linked, plan.identify world = some (identity, identified) ∧
      identified.hardLink plan.staged plan.destination = (.ok (), linked)) →
    (publish world).2.files.entries plan.destination.location =
        world.files.entries plan.destination.location ∨
      ∃ inode, world.files.entries plan.staged.location = some (.file inode) ∧
        world.files.entries plan.destination.location = some (.file inode) ∧
        (publish world).2.files.entries plan.destination.location = none
  rolledBack : ∀ identity interfered, plan.Interrupted world identity interfered →
    TakesOwn identity (interfered.files.entries plan.destination.location)
      ((publish world).2.files.entries plan.destination.location)

end LinkPlan

/-- Two calls, the second if the first succeeds. -/
def World.thenCall (first second : World → Except IoError Unit × World) (world : World) :
    Except IoError Unit × World :=
  match first world with
  | (.error error, world) => (.error error, world)
  | (.ok (), world) => second world

/-- Two calls fail in the first, or in the second after the first. -/
theorem World.thenCall_eq_error {first second : World → Except IoError Unit × World}
    {world world' : World} {error : IoError}
    (h : World.thenCall first second world = (.error error, world')) :
    first world = (.error error, world') ∨
      ∃ next, first world = (.ok (), next) ∧ second next = (.error error, world') := by
  unfold World.thenCall at h
  obtain ⟨⟨result, next⟩, hfirst⟩ : ∃ run, first world = run := ⟨_, rfl⟩
  rw [hfirst] at h
  cases result with
  | error raised =>
      cases h
      exact Or.inl hfirst
  | ok => exact Or.inr ⟨next, hfirst, h⟩

/-- Remove a file that may be gone already. -/
def World.removeIfExists (world : World) (path : Path) : Except IoError Unit × World :=
  match world.removeFile path with
  | (.ok (), world) => (.ok (), world)
  | (.error error, world) =>
      if error.kind = .notFound then (.ok (), world) else (.error error, world)

/-- Roll back by following the destination to a file. -/
def World.rollbackLinked (destination : Path) (identity : Handle) (world : World) :
    Except IoError Unit × World :=
  match world.handleFromPath destination with
  | (.error error, world) =>
      if error.kind = .notFound then (.ok (), world) else (.error error, world)
  | (.ok current, world) =>
      if current ≠ identity then (.ok (), world)
      else
        match world.removeFile destination with
        | (.error error, world) => (.error error, world)
        | (.ok (), world) => world.syncDirectory destination.directory

section Taking

variable {identity : Handle} {before after last : Option Entry} {world world' : World}
  {path destination : Path} {location : Location}

theorem TakesOwn.refl : TakesOwn identity before before := Or.inl rfl

theorem TakesOwn.trans (h : TakesOwn identity before after) (h' : TakesOwn identity after last) :
    TakesOwn identity before last := by
  rcases h with rfl | ⟨inode, hidentity, hbefore, rfl⟩
  · exact h'
  · rcases h' with rfl | ⟨_, _, hafter, _⟩
    · exact Or.inr ⟨inode, hidentity, hbefore, rfl⟩
    · cases hafter

section Removing

variable {name : Location} {files files' files'' : FileSystem}

theorem RemovesOwn.of_eq (h : files' = files) : RemovesOwn identity name files files' :=
  fun _ => Or.inl (by rw [h])

theorem RemovesOwn.trans (h : RemovesOwn identity name files files')
    (h' : RemovesOwn identity name files' files'') : RemovesOwn identity name files files'' := by
  intro location
  rcases h' location with hkept | ⟨heq, inode, hidentity, hown, hgone⟩
  · rw [hkept]
    exact h location
  · rcases h location with hkept | ⟨_, _, _, _, hnone⟩
    · rw [hkept] at hown
      exact Or.inr ⟨heq, inode, hidentity, hown, hgone⟩
    · rw [hnone] at hown
      cases hown

theorem RemovesOwn.takesOwn (h : RemovesOwn identity name files files') (location : Location) :
    TakesOwn identity (files.entries location) (files'.entries location) :=
  (h location).imp_right And.right

theorem RemovesOwn.spares (h : RemovesOwn identity name files files') (location : Location) :
    files'.entries location = files.entries location ∨
      ∃ inode, files.entries name = some (.file inode) ∧
        files.entries location = some (.file inode) ∧ files'.entries location = none := by
  rcases h location with hkept | ⟨rfl, inode, _, hown, hgone⟩
  · exact Or.inl hkept
  · exact Or.inr ⟨inode, hown, hown, hgone⟩

end Removing

/-! ## Calls one by one -/

section Calls

variable {α : Type} {run : FileSystem → Except IoErrorKind (α × FileSystem)}

/-- A call that is to fail changes nothing. -/
theorem World.call_of_fault {fault : Fault} (h : world.faults world.calls = some fault) :
    world.call run = (.error (.os fault.kind), world.leave world.files) := by
  rw [World.call, h]

theorem World.call_of_runs {value : α} {files : FileSystem}
    (h : world.faults world.calls = none) (hrun : run world.files = .ok (value, files)) :
    world.call run = (.ok value, world.leave files) := by
  rw [World.call, h]
  simp only [hrun]

theorem World.call_of_refuses {kind : IoErrorKind} (h : world.faults world.calls = none)
    (hrun : run world.files = .error kind) :
    world.call run = (.error (.os kind), world.leave world.files) := by
  rw [World.call, h]
  simp only [hrun]

/-- What a removal leaves of the entry under a name. -/
theorem World.entries_removeFile (path : Path) (location : Location) :
    (world.removeFile path).2.files.entries location = world.files.entries location ∨
      (location = path.location ∧ (world.removeFile path).2.files.entries location = none ∧
        world.files.removeFile path.location = .ok (world.files.unlink path.location)) := by
  rw [World.removeFile]
  cases hfault : world.faults world.calls with
  | some fault =>
      rw [World.call_of_fault hfault]
      exact Or.inl rfl
  | none =>
      cases hremove : world.files.removeFile path.location with
      | error kind =>
          rw [World.call_of_refuses hfault (by rw [hremove]; rfl)]
          exact Or.inl rfl
      | ok files =>
          rw [World.call_of_runs hfault (by rw [hremove]; rfl)]
          obtain rfl := FileSystem.removeFile_eq_ok hremove
          by_cases heq : location = path.location
          · exact Or.inr ⟨heq, by rw [heq]; exact Function.update_self _ _ _, rfl⟩
          · exact Or.inl (Function.update_of_ne heq _ _)

/-- Removing one name leaves the others alone. -/
theorem World.entries_removeIfExists (hne : path.location ≠ location) :
    (world.removeIfExists path).2.files.entries location = world.files.entries location := by
  have hremove := @World.entries_removeFile world path location
  unfold World.removeIfExists
  rcases hcall : world.removeFile path with ⟨result, world'⟩
  rw [hcall] at hremove
  have hkept : world'.files.entries location = world.files.entries location := by
    rcases hremove with hkept | ⟨heq, _⟩
    · exact hkept
    · exact absurd heq.symm hne
  cases result with
  | ok value => exact hkept
  | error error =>
      dsimp only
      split
      · exact hkept
      · exact hkept

/-- Removing a name that was seen to be a name of the file. -/
theorem World.removesOwn_removeFile {entry : Entry}
    (hentry : world.files.entries path.location = some entry) (hdirect : entry.isSymlink = false)
    (hlookup : world.files.lookup path.location = some identity) :
    RemovesOwn identity path.location world.files (world.removeFile path).2.files := by
  intro location
  rcases World.entries_removeFile path location with hkept | ⟨rfl, hgone, hremoved⟩
  · exact Or.inl hkept
  · refine Or.inr ⟨rfl, ?_⟩
    cases entry with
    | symlink target => cases hdirect
    | directory =>
        rw [FileSystem.removeFile, hentry] at hremoved
        cases hremoved
    | file inode =>
        rw [FileSystem.lookup_of_entry hentry] at hlookup
        exact ⟨inode, (Option.some.inj hlookup).symm, hentry, hgone⟩

theorem World.handleFromPath_eq_ok {handle : Handle}
    (h : world.handleFromPath path = (.ok handle, world')) :
    world.files.lookup path.location = some handle ∧ world'.files = world.files := by
  have hsteps := @World.handleFromPath_steps world path
  rw [h] at hsteps
  refine ⟨?_, hsteps.holds⟩
  have hrun := World.run_of_call h
  split at hrun
  · cases hrun
  · next found hlookup =>
      rw [hlookup]
      exact congrArg (fun reply => some reply.1) (Except.ok.inj hrun)

theorem World.symlinkMetadata_eq_ok {isSymlink : Bool}
    (h : world.symlinkMetadata path = (.ok isSymlink, world')) :
    (∃ entry, world.files.entries path.location = some entry ∧ entry.isSymlink = isSymlink) ∧
      world'.files = world.files := by
  have hsteps := @World.symlinkMetadata_steps world path
  rw [h] at hsteps
  refine ⟨?_, hsteps.holds⟩
  have hrun := World.run_of_call h
  split at hrun
  · cases hrun
  · next entry hentry => exact ⟨entry, hentry, congrArg Prod.fst (Except.ok.inj hrun)⟩

theorem World.files_syncDirectory (directory : String) :
    (world.syncDirectory directory).2.files = world.files :=
  (World.syncDirectory_steps directory).holds

theorem World.removeFile_of_entry {entry : Entry} (h : world.faults world.calls = none)
    (hentry : world.files.entries path.location = some entry) (hne : entry ≠ .directory) :
    world.removeFile path = (.ok (), world.leave (world.files.unlink path.location)) := by
  apply World.call_of_runs h
  have hremove : world.files.removeFile path.location =
      .ok (world.files.unlink path.location) := by
    rw [FileSystem.removeFile, hentry]
    cases entry with
    | directory => exact absurd rfl hne
    | file inode => rfl
    | symlink target => rfl
  rw [hremove]
  rfl

theorem World.removeFile_of_directory (h : world.faults world.calls = none)
    (hentry : world.files.entries path.location = some .directory) :
    world.removeFile path = (.error (.os .isADirectory), world.leave world.files) := by
  apply World.call_of_refuses h
  rw [FileSystem.removeFile, hentry]
  rfl

/-- A rollback removes the entry if it finds the file behind it, and else changes nothing. -/
theorem World.files_rollbackLinked :
    (world.files.lookup destination.location = some identity ∧
        world.faults world.calls = none ∧ world.faults (world.calls + 1) = none ∧
        (world.rollbackLinked destination identity).2.files =
          ((world.leave world.files).removeFile destination).2.files) ∨
      ¬ (world.files.lookup destination.location = some identity ∧
        world.faults world.calls = none ∧ world.faults (world.calls + 1) = none) ∧
        (world.rollbackLinked destination identity).2.files = world.files := by
  rw [World.rollbackLinked, World.handleFromPath]
  cases hfault : world.faults world.calls with
  | some fault =>
      refine Or.inr ⟨by simp, ?_⟩
      rw [World.call_of_fault hfault]
      dsimp only
      split <;> rfl
  | none =>
      cases hlookup : world.files.lookup destination.location with
      | none =>
          refine Or.inr ⟨by simp, ?_⟩
          rw [World.call_of_refuses hfault (by rw [hlookup])]
          rfl
      | some current =>
          rw [World.call_of_runs hfault (by rw [hlookup])]
          dsimp only
          by_cases heq : current = identity
          · subst heq
            rw [if_neg (by simp)]
            cases hfault' : world.faults (world.calls + 1) with
            | some fault =>
                refine Or.inr ⟨by simp, ?_⟩
                rw [World.removeFile, @World.call_of_fault (world.leave world.files) _ _ _ hfault']
                rfl
            | none =>
                refine Or.inl ⟨rfl, rfl, rfl, ?_⟩
                split
                · next heq =>
                    rw [heq]
                · next heq =>
                    rw [World.files_syncDirectory, heq]
          · rw [if_pos heq]
            exact Or.inr ⟨fun h => heq (Option.some.inj h.1), rfl⟩

/-- A rollback that follows links takes only its own file, unless it is misled by a link. -/
theorem World.takesOwn_rollbackLinked_iff :
    TakesOwn identity (world.files.entries destination.location)
        ((world.rollbackLinked destination identity).2.files.entries destination.location) ↔
      ¬ MisledBy identity destination world := by
  rcases @World.files_rollbackLinked identity world destination with
    ⟨hlookup, hfollows, hremoves, hfiles⟩ | ⟨hnot, hfiles⟩
  · rw [hfiles]
    have hcall : (world.leave world.files).faults (world.leave world.files).calls = none := hremoves
    have hremoved : (world.files.unlink destination.location).entries destination.location = none :=
      Function.update_self _ _ _
    cases hentry : world.files.entries destination.location with
    | none =>
        rw [FileSystem.lookup, FileSystem.maxLinks, FileSystem.resolve, hentry] at hlookup
        cases hlookup
    | some entry =>
        cases entry with
        | file inode =>
            rw [FileSystem.lookup, FileSystem.maxLinks, FileSystem.resolve, hentry] at hlookup
            rw [World.removeFile_of_entry hcall hentry (fun hdir => by cases hdir)]
            refine iff_of_true (Or.inr ⟨inode, (Option.some.inj hlookup).symm, rfl, hremoved⟩) ?_
            rintro ⟨⟨target, htarget⟩, _, _, _⟩
            rw [hentry] at htarget
            cases htarget
        | directory =>
            rw [World.removeFile_of_directory hcall hentry]
            refine iff_of_true (Or.inl hentry) ?_
            rintro ⟨⟨target, htarget⟩, _, _, _⟩
            rw [hentry] at htarget
            cases htarget
        | symlink target =>
            rw [World.removeFile_of_entry hcall hentry (fun hdir => by cases hdir)]
            refine iff_of_false ?_ fun h => h ⟨⟨target, hentry⟩, hlookup, hfollows, hremoves⟩
            rintro (hkept | ⟨inode, _, hfile, _⟩)
            · cases hremoved.symm.trans hkept
            · cases hfile
  · rw [hfiles]
    exact iff_of_true TakesOwn.refl fun h => hnot ⟨h.resolves, h.follows, h.removes⟩

end Calls

/-! ## What a rollback keeps -/

section Keeping

variable {base : FileSystem} {path destination : Path} {identity : Handle} {world : World}

theorem World.removeIfExists_steps (h : base.Extends world.files)
    (hfree : base.entries path.location = none) :
    world.Steps base.Extends (world.removeIfExists path).2 := by
  have hremove := World.removeFile_steps h hfree
  unfold World.removeIfExists
  rcases hcall : world.removeFile path with ⟨result, removed⟩
  rw [hcall] at hremove
  cases result with
  | ok value => exact hremove
  | error error =>
      dsimp only
      split
      · exact hremove
      · exact hremove

/-- Rolling back a name that is free in the base keeps what the base has. -/
theorem World.rollbackLinked_steps (h : base.Extends world.files)
    (hfree : base.entries destination.location = none) :
    world.Steps base.Extends (world.rollbackLinked destination identity).2 := by
  have hlook := (@World.handleFromPath_steps world destination).of_look h
  unfold World.rollbackLinked
  rcases hcall : world.handleFromPath destination with ⟨result, looked⟩
  rw [hcall] at hlook
  cases result with
  | error error =>
      dsimp only
      split
      · exact hlook
      · exact hlook
  | ok current =>
      dsimp only
      split
      · exact hlook
      · have hremove := hlook.trans (World.removeFile_steps hlook.holds hfree)
        rcases hremoved : looked.removeFile destination with ⟨removal, removed⟩
        rw [hremoved] at hremove
        cases removal with
        | error error => exact hremove
        | ok value =>
            exact hremove.trans ((World.syncDirectory_steps _).of_look hremove.holds)

end Keeping

/-! ## The link -/

/-- A link that was made gave a new name to what the staged name named. -/
theorem World.hardLink_eq_ok {staged : Path}
    (h : world.hardLink staged destination = (.ok (), world')) :
    staged.location ≠ destination.location ∧
      world.files.entries destination.location = none ∧
      ∀ bytes, world.files.Holds staged.location bytes →
        world'.files.Holds destination.location bytes := by
  have hlink := FileSystem.of_map_unit (World.run_of_call h)
  unfold FileSystem.hardLink at hlink
  split at hlink
  · cases hlink
  · next entry hentry =>
      split at hlink
      · next hfree =>
          refine ⟨fun heq => ?_, hfree, fun bytes hholds => ?_⟩
          · rw [heq, hfree] at hentry
            cases hentry
          · exact (hholds.hardLink (FileSystem.of_map_unit (World.run_of_call h))).1
      · cases hlink

/-! ## Careful publications -/

namespace LinkPlan

variable {ε : Type} {plan : LinkPlan} {publish : World → Except ε Unit × World}

/-- The link is not made: the publication fails and removes at most its own staged file. -/
theorem careful_of_unlinked
    (hnone : ¬ ∃ identity identified linked, plan.identify world = some (identity, identified) ∧
      identified.hardLink plan.staged plan.destination = (.ok (), linked))
    (hfailed : (publish world).1 ≠ .ok ())
    (hspares : (publish world).2.files.entries plan.destination.location =
        world.files.entries plan.destination.location ∨
      ∃ inode, world.files.entries plan.staged.location = some (.file inode) ∧
        world.files.entries plan.destination.location = some (.file inode) ∧
        (publish world).2.files.entries plan.destination.location = none) :
    plan.Careful publish world where
  published := fun hok => absurd hok hfailed
  unlinked := fun _ => hspares
  rolledBack := by
    rintro other interfered ⟨identified, linked, error, hidentify, hlink, _⟩
    exact absurd ⟨other, identified, linked, hidentify, hlink⟩ hnone

/-- The link is made: what is left to show is about the rollback. -/
theorem careful_iff_of_linked {identified linked : World}
    (hidentify : plan.identify world = some (identity, identified))
    (hlook : identified.files = world.files)
    (hlink : identified.hardLink plan.staged plan.destination = (.ok (), linked)) :
    plan.Careful publish world ↔ ∀ error interfered, plan.proceed linked = (.error error, interfered) →
      TakesOwn identity (interfered.files.entries plan.destination.location)
        ((publish world).2.files.entries plan.destination.location) := by
  constructor
  · intro h error interfered hproceed
    exact h.rolledBack identity interfered ⟨identified, linked, error, hidentify, hlink, hproceed⟩
  · intro h
    obtain ⟨_, hfree, hholds⟩ := World.hardLink_eq_ok hlink
    refine ⟨fun _ => ⟨identity, identified, linked, hidentify, hlink, hfree, hlook ▸ hholds⟩,
      fun hnone => absurd ⟨identity, identified, linked, hidentify, hlink⟩ hnone, ?_⟩
    rintro other interfered ⟨identified', linked', error, hidentify', hlink', hproceed⟩
    rw [hidentify] at hidentify'
    cases hidentify'
    rw [hlink] at hlink'
    cases hlink'
    exact h error interfered hproceed

/-- A publication whose rollback follows links is careful exactly if no link misleads it. -/
theorem careful_iff_of_following
    (hunlinked : (¬ ∃ identity identified linked, plan.identify world = some (identity, identified) ∧
        identified.hardLink plan.staged plan.destination = (.ok (), linked)) →
      (publish world).1 ≠ .ok () ∧ (publish world).2.files.entries plan.destination.location =
        world.files.entries plan.destination.location)
    (hlook : ∀ identity identified, plan.identify world = some (identity, identified) →
      identified.files = world.files)
    (hrollback : ∀ identity interfered, plan.Interrupted world identity interfered →
      (publish world).2.files.entries plan.destination.location =
        (interfered.rollbackLinked plan.destination identity).2.files.entries
          plan.destination.location) :
    plan.Careful publish world ↔ ¬ plan.Misled world := by
  by_cases hlinked : ∃ identity identified linked, plan.identify world =
      some (identity, identified) ∧
        identified.hardLink plan.staged plan.destination = (.ok (), linked)
  · obtain ⟨identity, identified, linked, hidentify, hlink⟩ := hlinked
    rw [careful_iff_of_linked hidentify (hlook identity identified hidentify) hlink]
    constructor
    · rintro h ⟨other, interfered, hinterrupted, hmisled⟩
      have htakes := hrollback other interfered hinterrupted
      obtain ⟨identified', linked', error, hidentify', hlink', hproceed⟩ := hinterrupted
      rw [hidentify] at hidentify'
      cases hidentify'
      rw [hlink] at hlink'
      cases hlink'
      have hown := h error interfered hproceed
      rw [htakes, World.takesOwn_rollbackLinked_iff] at hown
      exact hown hmisled
    · intro h error interfered hproceed
      have hinterrupted : plan.Interrupted world identity interfered :=
        ⟨identified, linked, error, hidentify, hlink, hproceed⟩
      rw [hrollback identity interfered hinterrupted, World.takesOwn_rollbackLinked_iff]
      exact fun hmisled => h ⟨identity, interfered, hinterrupted, hmisled⟩
  · obtain ⟨hfailed, hkept⟩ := hunlinked hlinked
    refine iff_of_true (careful_of_unlinked hlinked hfailed (Or.inl hkept)) ?_
    rintro ⟨other, interfered, ⟨identified, linked, _, hidentify, hlink, _⟩, _⟩
    exact hlinked ⟨other, identified, linked, hidentify, hlink⟩

end LinkPlan

end Taking

end Data
