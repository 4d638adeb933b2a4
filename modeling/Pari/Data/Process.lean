/-
# A process and its faults

A process makes system calls on a file system. Any call may fail: a schedule says which ones
do, and how much a failing write had already written. Every state a call leaves behind is
recorded, so that a statement about the recorded states is one about stopping the process
after any step. Missing directories are not modelled; creating and syncing one can only fail
by a fault.
-/

import Pari.Data.FileSystem

namespace Data

universe u

/-! ## System calls -/

/-- Why a call fails, and how many bytes a write has written by then. -/
structure Fault where
  kind : IoErrorKind
  written : Nat

/-- A process and its file system: the schedule of faults, the calls made so far, a counter
and the number of the process, and the states the calls have left behind. -/
structure World where
  files : FileSystem
  faults : Nat → Option Fault
  calls : Nat
  counter : UInt64
  processId : Nat
  history : List FileSystem

namespace World

variable {α : Type u}

def leave (world : World) (files : FileSystem) : World :=
  { world with files, calls := world.calls + 1, history := world.history ++ [files] }

/-- Make a call: it fails with the fault scheduled for it, after `onFault` has happened, or
it runs. -/
def call (world : World) (run : FileSystem → Except IoErrorKind (α × FileSystem))
    (onFault : Fault → FileSystem → FileSystem := fun _ files => files) :
    Except IoError α × World :=
  match world.faults world.calls with
  | some fault => (.error (.os fault.kind), world.leave (onFault fault world.files))
  | none =>
      match run world.files with
      | .error kind => (.error (.os kind), world.leave world.files)
      | .ok (value, files) => (.ok value, world.leave files)

/-- Whether a name is a symbolic link. -/
def symlinkMetadata (world : World) (path : Path) : Except IoError Bool × World :=
  world.call fun files =>
    match files.entries path.location with
    | none => .error .notFound
    | some entry => .ok (entry.isSymlink, files)

def handleFromPath (world : World) (path : Path) : Except IoError Handle × World :=
  world.call fun files =>
    match files.lookup path.location with
    | none => .error .notFound
    | some handle => .ok (handle, files)

/-- The identity of an open file. -/
def handleFromFile (world : World) (inode : Nat) : Except IoError Handle × World :=
  world.call fun files => .ok (.file inode, files)

/-- Open a file and read its bytes. -/
def openRead (world : World) (path : Path) : Except IoError Bytes × World :=
  world.call fun files =>
    match files.lookup path.location with
    | none => .error .notFound
    | some (.directory _) => .error .isADirectory
    | some (.file inode) => .ok (files.contents inode, files)

/-- The length in the metadata of a file; that of a directory stands for none. -/
def metadataLength (world : World) (path : Path) : Except IoError Nat × World :=
  world.call fun files =>
    match files.lookup path.location with
    | none => .error .notFound
    | some (.directory _) => .ok (0, files)
    | some (.file inode) => .ok ((files.contents inode).length, files)

/-- `write(true).create_new(true)`: the inode of the new file. -/
def createNew (world : World) (path : Path) : Except IoError Nat × World :=
  world.call fun files =>
    match files.entries path.location with
    | some _ => .error .alreadyExists
    | none => .ok (files.nextInode, files.create path.location)

/-- A failing write may have written some of its bytes. -/
def writeAll (world : World) (inode : Nat) (bytes : Bytes) : Except IoError Unit × World :=
  world.call (fun files => .ok ((), files.append inode bytes))
    fun fault files => files.append inode (bytes.take fault.written)

def syncAll (world : World) : Except IoError Unit × World :=
  world.call fun files => .ok ((), files)

def rename (world : World) (source target : Path) : Except IoError Unit × World :=
  world.call fun files => (files.rename source.location target.location).map ((), ·)

def hardLink (world : World) (source target : Path) : Except IoError Unit × World :=
  world.call fun files => (files.hardLink source.location target.location).map ((), ·)

def removeFile (world : World) (path : Path) : Except IoError Unit × World :=
  world.call fun files => (files.removeFile path.location).map ((), ·)

def createDirAll (world : World) (_directory : String) : Except IoError Unit × World :=
  world.call fun files => .ok ((), files)

def syncDirectory (world : World) (_directory : String) : Except IoError Unit × World :=
  world.call fun files => .ok ((), files)

/-- `fetch_add(1)` on the counter. -/
def fetchAdd (world : World) : UInt64 × World :=
  (world.counter, { world with counter := world.counter + 1 })

end World

/-! ## Steps of a process -/

/-- A property holds of every state left on the way from one world to another, and at its
end; the schedule of faults stays the same. -/
structure World.Steps (P : FileSystem → Prop) (world world' : World) : Prop where
  history : ∃ states, world'.history = world.history ++ states ∧ ∀ files ∈ states, P files
  holds : P world'.files
  faults : world'.faults = world.faults
  calls : world.calls ≤ world'.calls
  processId : world'.processId = world.processId

/-- No call from now on fails by a fault. -/
def World.Quiet (world : World) : Prop := ∀ n, world.calls ≤ n → world.faults n = none

namespace World

section Stepping

variable {α : Type u} {P Q : FileSystem → Prop} {world world' world'' : World}

theorem Steps.refl (h : P world.files) : world.Steps P world where
  history := ⟨[], by simp, by simp⟩
  holds := h
  faults := rfl
  calls := Nat.le_refl _
  processId := rfl

theorem Steps.trans (h : world.Steps P world') (h' : world'.Steps P world'') :
    world.Steps P world'' where
  history := by
    obtain ⟨states, hstates, hall⟩ := h.history
    obtain ⟨states', hstates', hall'⟩ := h'.history
    refine ⟨states ++ states', by rw [hstates', hstates, List.append_assoc], fun files hmem => ?_⟩
    rcases List.mem_append.mp hmem with hmem | hmem
    · exact hall files hmem
    · exact hall' files hmem
  holds := h'.holds
  faults := h'.faults.trans h.faults
  calls := h.calls.trans h'.calls
  processId := h'.processId.trans h.processId

theorem Steps.imp (h : world.Steps P world') (himp : ∀ files, P files → Q files) :
    world.Steps Q world' where
  history := by
    obtain ⟨states, hstates, hall⟩ := h.history
    exact ⟨states, hstates, fun files hmem => himp files (hall files hmem)⟩
  holds := himp _ h.holds
  faults := h.faults
  calls := h.calls
  processId := h.processId

theorem Steps.quiet (h : world.Steps P world') (hquiet : world.Quiet) : world'.Quiet := by
  intro n hn
  rw [h.faults]
  exact hquiet n (h.calls.trans hn)

theorem leave_steps {files : FileSystem} (h : P files) : world.Steps P (world.leave files) where
  history := ⟨[files], rfl, by simpa using h⟩
  holds := h
  faults := rfl
  calls := Nat.le_succ _
  processId := rfl

/-- A call steps through what its fault or its success leaves behind. -/
theorem call_steps {run : FileSystem → Except IoErrorKind (α × FileSystem)}
    {onFault : Fault → FileSystem → FileSystem} (h : P world.files)
    (hfault : ∀ fault, P (onFault fault world.files))
    (hrun : ∀ value files, run world.files = .ok (value, files) → P files) :
    world.Steps P (world.call run onFault).2 := by
  rw [call]
  split
  · exact leave_steps (hfault _)
  · split
    · exact leave_steps h
    · next value files hok => exact leave_steps (hrun value files hok)

/-- Without faults a call runs. -/
theorem call_of_quiet {run : FileSystem → Except IoErrorKind (α × FileSystem)}
    {onFault : Fault → FileSystem → FileSystem} (hquiet : world.Quiet) {value : α}
    {files : FileSystem} (hrun : run world.files = .ok (value, files)) :
    world.call run onFault = (.ok value, world.leave files) := by
  rw [call, hquiet world.calls (Nat.le_refl _)]
  simp only [hrun]

/-- Without faults a call that cannot run fails. -/
theorem call_of_quiet_error {run : FileSystem → Except IoErrorKind (α × FileSystem)}
    {onFault : Fault → FileSystem → FileSystem} (hquiet : world.Quiet) {kind : IoErrorKind}
    (hrun : run world.files = .error kind) :
    world.call run onFault = (.error (.os kind), world.leave world.files) := by
  rw [call, hquiet world.calls (Nat.le_refl _)]
  simp only [hrun]

theorem Quiet.leave (h : world.Quiet) (files : FileSystem) : (world.leave files).Quiet := by
  intro n hn
  exact h n (Nat.le_of_succ_le hn)

/-- A call that succeeds has run. -/
theorem run_of_call {run : FileSystem → Except IoErrorKind (α × FileSystem)}
    {onFault : Fault → FileSystem → FileSystem} {value : α}
    (h : world.call run onFault = (.ok value, world')) :
    run world.files = .ok (value, world'.files) := by
  rw [call] at h
  split at h
  · cases h
  · split at h
    · cases h
    · next hok =>
        cases h
        exact hok

/-- Looking does not change anything. -/
theorem look_steps {run : FileSystem → Except IoErrorKind (α × FileSystem)}
    (hrun : ∀ value files, run world.files = .ok (value, files) → files = world.files) :
    world.Steps (· = world.files) (world.call run).2 :=
  call_steps rfl (fun _ => rfl) hrun

theorem symlinkMetadata_steps (path : Path) :
    world.Steps (· = world.files) (world.symlinkMetadata path).2 := by
  refine look_steps fun value files hok => ?_
  split at hok
  · cases hok
  · cases hok
    rfl

theorem handleFromPath_steps (path : Path) :
    world.Steps (· = world.files) (world.handleFromPath path).2 := by
  refine look_steps fun value files hok => ?_
  split at hok
  · cases hok
  · cases hok
    rfl

theorem openRead_steps (path : Path) : world.Steps (· = world.files) (world.openRead path).2 := by
  refine look_steps fun value files hok => ?_
  split at hok
  · cases hok
  · cases hok
  · cases hok
    rfl

theorem metadataLength_steps (path : Path) :
    world.Steps (· = world.files) (world.metadataLength path).2 := by
  refine look_steps fun value files hok => ?_
  split at hok
  · cases hok
  · cases hok
    rfl
  · cases hok
    rfl

theorem handleFromFile_steps (inode : Nat) :
    world.Steps (· = world.files) (world.handleFromFile inode).2 :=
  look_steps fun _ _ hok => by cases hok; rfl

theorem syncAll_steps : world.Steps (· = world.files) world.syncAll.2 :=
  look_steps fun _ _ hok => by cases hok; rfl

theorem createDirAll_steps (directory : String) :
    world.Steps (· = world.files) (world.createDirAll directory).2 :=
  look_steps fun _ _ hok => by cases hok; rfl

theorem syncDirectory_steps (directory : String) :
    world.Steps (· = world.files) (world.syncDirectory directory).2 :=
  look_steps fun _ _ hok => by cases hok; rfl

theorem fetchAdd_steps (h : P world.files) : world.Steps P world.fetchAdd.2 where
  history := ⟨[], by simp [fetchAdd], by simp⟩
  holds := h
  faults := rfl
  calls := Nat.le_refl _
  processId := rfl

/-- Steps that change nothing keep every property. -/
theorem Steps.of_look (h : world.Steps (· = world.files) world') (hP : P world.files) :
    world.Steps P world' :=
  h.imp fun _ hsame => hsame ▸ hP

/-- Looking twice changes nothing either. -/
theorem Steps.look_trans (h : world.Steps (· = world.files) world')
    (h' : world'.Steps (· = world'.files) world'') : world.Steps (· = world.files) world'' :=
  h.trans (h'.imp fun _ hsame => hsame.trans h.holds)

/-- Removing a free name of `base` keeps what `base` has. -/
theorem removeFile_steps {base : FileSystem} {path : Path} (h : base.Extends world.files)
    (hfree : base.entries path.location = none) :
    world.Steps base.Extends (world.removeFile path).2 := by
  refine call_steps h (fun _ => h) fun value files hok => ?_
  cases hremove : world.files.removeFile path.location with
  | error kind =>
      rw [hremove] at hok
      cases hok
  | ok result =>
      rw [hremove] at hok
      cases hok
      exact h.removeFile hfree hremove

theorem hardLink_steps {base : FileSystem} {source target : Path} (h : base.Extends world.files)
    (hfree : base.entries target.location = none) :
    world.Steps base.Extends (world.hardLink source target).2 := by
  refine call_steps h (fun _ => h) fun value files hok => ?_
  cases hlink : world.files.hardLink source.location target.location with
  | error kind =>
      rw [hlink] at hok
      cases hok
  | ok result =>
      rw [hlink] at hok
      cases hok
      exact h.hardLink hfree hlink

/-- Writing to a file that `base` does not have keeps what it has. -/
theorem writeAll_steps {base : FileSystem} {inode : Nat} {bytes : Bytes}
    (h : base.Extends world.files) (hnew : base.nextInode ≤ inode) :
    world.Steps base.Extends (world.writeAll inode bytes).2 := by
  refine call_steps h (fun _ => h.append hnew) fun value files hok => ?_
  cases hok
  exact h.append hnew

/-- What creating a file does. -/
theorem createNew_eq_ok {path : Path} {inode : Nat}
    (h : world.createNew path = (.ok inode, world')) :
    world.files.entries path.location = none ∧ inode = world.files.nextInode ∧
      world'.files = world.files.create path.location := by
  have hrun := run_of_call h
  split at hrun
  · cases hrun
  · next hfree =>
      simp only [Except.ok.injEq, Prod.mk.injEq] at hrun
      exact ⟨hfree, hrun.1.symm, hrun.2.symm⟩

/-- A call that only changes what it leaves on success leaves everything on failure. -/
theorem look_of_error {run : FileSystem → Except IoErrorKind (α × FileSystem)} {error : IoError}
    (h : world.call run = (.error error, world')) : world.Steps (· = world.files) world' := by
  rw [call] at h
  split at h
  · cases h
    exact leave_steps rfl
  · split at h
    · cases h
      exact leave_steps rfl
    · cases h

theorem createNew_steps {base : FileSystem} {path : Path} (h : world.files = base) :
    world.Steps base.Extends (world.createNew path).2 := by
  subst h
  refine call_steps (.refl _) (fun _ => .refl _) fun value files hok => ?_
  split at hok
  · cases hok
  · next hfree =>
      cases hok
      exact (FileSystem.Extends.refl _).create hfree

end Stepping

end World

end Data
