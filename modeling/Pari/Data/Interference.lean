/-
# Processes beside each other

Other processes may change the files before each call of a process. A run is a chain of calls,
each described by the files the call before had left, the files it found, and the files it left
itself: what a process does to names that others use is stated about these three.
-/

import Pari.Data.Publication

namespace Data

universe u

/-- What other processes do to the files before each call. -/
abbrev Others := Nat → FileSystem → FileSystem

/-- What one call does: the files left by the call before, those it found and those it left. -/
abbrev Move := FileSystem → FileSystem → FileSystem → Prop

/-- The others leave some names alone, and the files under them. -/
structure Others.Spare (others : Others) (reserved : Location → Prop) : Prop where
  entries : ∀ n files location, reserved location →
    (others n files).entries location = files.entries location
  contents : ∀ n files location inode, reserved location →
    files.entries location = some (.file inode) →
      (others n files).contents inode = files.contents inode

namespace World

/-- The world a call finds. -/
def met (others : Others) (world : World) : World :=
  { world with files := others world.calls world.files }

/-- A chain of calls among other processes. -/
inductive Among (others : Others) (move : Move) (world : World) : World → Prop
  | refl : Among others move world world
  | call {before after : World} (run : Among others move world before)
      (moved : move before.files (before.met others).files after.files)
      (calls : after.calls = before.calls + 1) (faults : after.faults = before.faults) :
      Among others move world after

/-- The entry under a name stays. -/
def Untouched (location : Location) : Move := fun _ before after =>
  after.entries location = before.entries location

/-- A call says that a name is missing only if it is. -/
def Honest (world : World) : Prop :=
  ∀ n fault, world.faults n = some fault → fault.kind ≠ .notFound

section Runs

variable {α : Type u} {others : Others} {move move' : Move} {world world' world'' : World}

theorem Among.trans (h : Among others move world world') (h' : Among others move world' world'') :
    Among others move world world'' := by
  induction h' with
  | refl => exact h
  | call run moved calls faults ih => exact ih.call moved calls faults

theorem Among.imp (h : Among others move world world')
    (himp : ∀ left before after, move left before after → move' left before after) :
    Among others move' world world' := by
  induction h with
  | refl => exact .refl
  | call run moved calls faults ih => exact ih.call (himp _ _ _ moved) calls faults

theorem Among.faults (h : Among others move world world') : world'.faults = world.faults := by
  induction h with
  | refl => rfl
  | call run moved calls faults ih => rw [faults, ih]

/-- A call is a chain of one. -/
theorem among_call {run : FileSystem → Except IoErrorKind (α × FileSystem)}
    (hstay : move world.files (world.met others).files (world.met others).files)
    (hrun : ∀ value files, run (world.met others).files = .ok (value, files) →
      move world.files (world.met others).files files) :
    Among others move world ((world.met others).call run).2 := by
  unfold World.call
  split
  · exact Among.refl.call hstay rfl rfl
  · split
    · exact Among.refl.call hstay rfl rfl
    · next value files hok => exact Among.refl.call (hrun value files hok) rfl rfl

/-- A call that fails has at most looked. -/
theorem among_of_error {run : FileSystem → Except IoErrorKind (α × FileSystem)}
    {error : IoError}
    (hstay : move world.files (world.met others).files (world.met others).files)
    (h : (world.met others).call run = (.error error, world')) :
    Among others move world world' := by
  unfold World.call at h
  split at h
  · cases h
    exact Among.refl.call hstay rfl rfl
  · split at h
    · cases h
      exact Among.refl.call hstay rfl rfl
    · cases h

theorem Among.honest (h : Among others move world world') (hhonest : world.Honest) :
    world'.Honest := by
  unfold Honest
  rw [h.faults]
  exact hhonest

/-- What the others spare and each call keeps is kept by a chain of calls. -/
theorem Among.entries {reserved : Location → Prop} (hspare : others.Spare reserved)
    {location : Location} (hreserved : reserved location)
    (h : Among others (Untouched location) world world') :
    world'.files.entries location = world.files.entries location := by
  induction h with
  | refl => rfl
  | @call before after run moved calls faults ih =>
      rw [moved, ← ih]
      exact hspare.entries before.calls before.files location hreserved

end Runs

/-! ## Removing and linking among others -/

section Removing

variable {others : Others} {move : Move} {world world' : World} {path source target : Path}

theorem among_removeFile
    (hstay : move world.files (world.met others).files (world.met others).files)
    (hunlink : move world.files (world.met others).files
      ((world.met others).files.unlink path.location)) :
    Among others move world ((world.met others).removeFile path).2 := by
  apply among_call hstay
  intro value files hrun
  cases hremove : (world.met others).files.removeFile path.location with
  | error kind =>
      rw [hremove] at hrun
      cases hrun
  | ok result =>
      rw [hremove] at hrun
      cases hrun
      rw [FileSystem.removeFile_eq_ok hremove]
      exact hunlink

theorem among_removeIfExists
    (hstay : move world.files (world.met others).files (world.met others).files)
    (hunlink : move world.files (world.met others).files
      ((world.met others).files.unlink path.location)) :
    Among others move world ((world.met others).removeIfExists path).2 := by
  have hremove := among_removeFile hstay hunlink
  unfold removeIfExists
  rcases hcall : (world.met others).removeFile path with ⟨result, removed⟩
  rw [hcall] at hremove
  cases result with
  | ok value => exact hremove
  | error error =>
      dsimp only
      split
      · exact hremove
      · exact hremove

/-- A name that was removed is gone. -/
theorem gone_of_removeFile (h : world.removeFile path = (.ok (), world')) :
    world'.files.entries path.location = none := by
  have hremove := FileSystem.of_map_unit (run_of_call h)
  rw [FileSystem.removeFile_eq_ok hremove]
  exact Function.update_self _ _ _

/-- A call that reports a missing name has looked for it and changed nothing. -/
theorem run_of_notFound {α : Type} {run : FileSystem → Except IoErrorKind (α × FileSystem)}
    (hhonest : world.Honest) {error : IoError} (h : world.call run = (.error error, world'))
    (hkind : error.kind = .notFound) :
    run world.files = .error .notFound ∧ world'.files = world.files := by
  unfold call at h
  split at h
  · next fault hfault =>
      cases h
      exact absurd hkind (hhonest _ _ hfault)
  · split at h
    · next kind hrun =>
        cases h
        cases hkind
        exact ⟨hrun, rfl⟩
    · cases h

/-- A removal that finds nothing says the truth. -/
theorem gone_of_notFound (hhonest : world.Honest) {error : IoError}
    (h : world.removeFile path = (.error error, world')) (hkind : error.kind = .notFound) :
    world'.files.entries path.location = none := by
  obtain ⟨hrun, hfiles⟩ := run_of_notFound hhonest h hkind
  rw [hfiles]
  have hremove : world.files.removeFile path.location = .error .notFound := by
    cases hresult : world.files.removeFile path.location with
    | ok files =>
        rw [hresult] at hrun
        cases hrun
    | error kind =>
        rw [hresult] at hrun
        cases hrun
        rfl
  unfold FileSystem.removeFile at hremove
  split at hremove
  · next hnone => exact hnone
  · cases hremove
  · cases hremove
  · cases hremove

theorem gone_of_removeIfExists (hhonest : world.Honest)
    (h : world.removeIfExists path = (.ok (), world')) :
    world'.files.entries path.location = none := by
  unfold removeIfExists at h
  rcases hcall : world.removeFile path with ⟨result, removed⟩
  rw [hcall] at h
  cases result with
  | ok value =>
      cases h
      exact gone_of_removeFile hcall
  | error error =>
      dsimp only at h
      split at h
      · next hkind =>
          cases h
          exact gone_of_notFound hhonest hcall hkind
      · cases h

/-- What linking leaves. -/
theorem hardLink_leaves {files linked : FileSystem} {source target : Location} {entry : Entry}
    (hentry : files.entries source = some entry)
    (h : files.hardLink source target = .ok linked) :
    files.entries target = none ∧
      linked.entries = Function.update files.entries target (some entry) ∧
      linked.contents = files.contents := by
  unfold FileSystem.hardLink at h
  split at h
  · next hnone =>
      rw [hentry] at hnone
      cases hnone
  · next other hother =>
      obtain rfl : entry = other := Option.some.inj (hentry.symm.trans hother)
      split at h
      · next hfree =>
          cases h
          exact ⟨hfree, rfl, rfl⟩
      · cases h

end Removing

end World

end Data
