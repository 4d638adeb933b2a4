/-
# File systems

Names, the files behind them, and what creating, linking, renaming and removing do to them.
A state extends another if every name and file of the other is as it was, which is how a
transaction that works beside existing files leaves them alone.
-/

import Mathlib.Logic.Function.Basic
import Pari.Data.Bytes

namespace Data

universe u

/-! ## Names and errors -/

/-- A path, split into its parent, which may be empty, and its last component. -/
structure Path where
  parent : String
  fileName : Option String
  deriving DecidableEq, Repr

/-- A name in a directory. -/
abbrev Location := String × Option String

/-- The directory of a path: its parent, or the current directory. -/
def Path.directory (path : Path) : String := if path.parent = "" then "." else path.parent

def Path.location (path : Path) : Location := (path.directory, path.fileName)

def Path.join (directory name : String) : Path where
  parent := directory
  fileName := some name

/-- The kinds of I/O errors: those that programs tell apart or make, and any other by its
number. -/
inductive IoErrorKind
  | notFound
  | alreadyExists
  | isADirectory
  | other
  | numbered (code : Nat)
  deriving DecidableEq, Repr

/-- An I/O error: of a system call, made by the program, or one error that mentions another
met while recovering from it. -/
inductive IoError
  | os (kind : IoErrorKind)
  | custom (kind : IoErrorKind) (message : String)
  | also (original : IoError) (context : String) (further : IoError)
  deriving DecidableEq, Repr

def IoError.kind : IoError → IoErrorKind
  | .os kind => kind
  | .custom kind _ => kind
  | .also original _ _ => original.kind

/-! ## States of a file system -/

inductive Entry
  | file (inode : Nat)
  | symlink (target : Location)
  | directory
  deriving DecidableEq, Repr

def Entry.isSymlink : Entry → Bool
  | .symlink _ => true
  | .file _ | .directory => false

/-- What a name refers to after following links. -/
inductive Handle
  | file (inode : Nat)
  | directory (location : Location)
  deriving DecidableEq, Repr

/-- Entries and contents; inodes are allocated in order. -/
structure FileSystem where
  entries : Location → Option Entry
  contents : Nat → Bytes
  nextInode : Nat
  allocated : ∀ (location : Location) (inode : Nat),
    entries location = some (.file inode) → inode < nextInode

namespace FileSystem

/-- The number of links a lookup follows. -/
def maxLinks : Nat := 40

def resolve (files : FileSystem) : Nat → Location → Option Handle
  | 0, _ => none
  | links + 1, location =>
      match files.entries location with
      | none => none
      | some (.file inode) => some (.file inode)
      | some .directory => some (.directory location)
      | some (.symlink target) => files.resolve links target

def lookup (files : FileSystem) (location : Location) : Option Handle :=
  files.resolve maxLinks location

/-- The bytes of the file a name refers to. -/
def read (files : FileSystem) (location : Location) : Option Bytes :=
  match files.lookup location with
  | some (.file inode) => some (files.contents inode)
  | some (.directory _) | none => none

def setEntry (files : FileSystem) (location : Location) (entry : Option Entry)
    (h : ∀ inode, entry = some (.file inode) → inode < files.nextInode) : FileSystem where
  entries := Function.update files.entries location entry
  contents := files.contents
  nextInode := files.nextInode
  allocated := by
    intro other inode hother
    by_cases heq : other = location
    · rw [heq, Function.update_self] at hother
      exact h inode hother
    · rw [Function.update_of_ne heq] at hother
      exact files.allocated other inode hother

def unlink (files : FileSystem) (location : Location) : FileSystem :=
  files.setEntry location none (by simp)

/-- A new empty file under a free name. -/
def create (files : FileSystem) (location : Location) : FileSystem where
  entries := Function.update files.entries location (some (.file files.nextInode))
  contents := Function.update files.contents files.nextInode []
  nextInode := files.nextInode + 1
  allocated := by
    intro other inode hother
    by_cases heq : other = location
    · rw [heq, Function.update_self] at hother
      cases hother
      exact Nat.lt_succ_self _
    · rw [Function.update_of_ne heq] at hother
      exact Nat.lt_succ_of_lt (files.allocated other inode hother)

def append (files : FileSystem) (inode : Nat) (bytes : Bytes) : FileSystem :=
  { files with contents := Function.update files.contents inode (files.contents inode ++ bytes) }

/-- Two entries that are names of one file. -/
def sameFile : Entry → Option Entry → Bool
  | .file inode, some (.file other) => inode = other
  | _, _ => false

def rename (files : FileSystem) (source target : Location) : Except IoErrorKind FileSystem :=
  match h : files.entries source with
  | none => .error .notFound
  | some entry =>
      if sameFile entry (files.entries target) then .ok files
      else if files.entries target = some .directory then .error .isADirectory
      else .ok ((files.setEntry target (some entry) fun inode hinode =>
        files.allocated source inode (h.trans hinode)).unlink source)

def hardLink (files : FileSystem) (source target : Location) : Except IoErrorKind FileSystem :=
  match h : files.entries source with
  | none => .error .notFound
  | some entry =>
      if files.entries target = none then
        .ok (files.setEntry target (some entry) fun inode hinode =>
          files.allocated source inode (h.trans hinode))
      else .error .alreadyExists

def removeFile (files : FileSystem) (location : Location) : Except IoErrorKind FileSystem :=
  match files.entries location with
  | none => .error .notFound
  | some .directory => .error .isADirectory
  | some (.file _) | some (.symlink _) => .ok (files.unlink location)

end FileSystem

/-! ## States that keep what was there -/

namespace FileSystem

/-- Every name and every file of `base` is as it was; there may be more. -/
structure Extends (base files : FileSystem) : Prop where
  entries : ∀ (location : Location) (entry : Entry), base.entries location = some entry →
    files.entries location = some entry
  contents : ∀ inode < base.nextInode, files.contents inode = base.contents inode
  nextInode : base.nextInode ≤ files.nextInode

section Extending

variable {base files : FileSystem} {location : Location} {inode : Nat} {bytes : Bytes}

theorem Extends.refl (base : FileSystem) : base.Extends base :=
  ⟨fun _ _ h => h, fun _ _ => rfl, Nat.le_refl _⟩

theorem Extends.resolve (h : base.Extends files) {links : Nat} {handle : Handle}
    (hresolve : base.resolve links location = some handle) :
    files.resolve links location = some handle := by
  induction links generalizing location with
  | zero => cases hresolve
  | succ links ih =>
      rw [FileSystem.resolve] at hresolve ⊢
      cases hentry : base.entries location with
      | none =>
          rw [hentry] at hresolve
          cases hresolve
      | some entry =>
          rw [hentry] at hresolve
          rw [h.entries location entry hentry]
          cases entry with
          | file inode => exact hresolve
          | directory => exact hresolve
          | symlink target => exact ih hresolve

/-- A file that a name refers to has been allocated. -/
theorem lt_of_resolve {links : Nat} (h : base.resolve links location = some (.file inode)) :
    inode < base.nextInode := by
  induction links generalizing location with
  | zero => cases h
  | succ links ih =>
      rw [FileSystem.resolve] at h
      split at h
      · cases h
      · next other hentry =>
          cases h
          exact base.allocated location inode hentry
      · cases h
      · exact ih h

theorem read_eq_some_iff :
    base.read location = some bytes ↔
      ∃ inode, base.lookup location = some (.file inode) ∧ base.contents inode = bytes := by
  rw [read]
  split
  · next inode hlookup => simp [hlookup]
  · next other hlookup => simp [hlookup]
  · next hlookup => simp [hlookup]

/-- What a name read as it still reads as. -/
theorem Extends.read (h : base.Extends files) (hread : base.read location = some bytes) :
    files.read location = some bytes := by
  obtain ⟨inode, hlookup, hcontents⟩ := read_eq_some_iff.mp hread
  refine read_eq_some_iff.mpr ⟨inode, h.resolve hlookup, ?_⟩
  rw [h.contents inode (lt_of_resolve hlookup), hcontents]

theorem Extends.create (h : base.Extends files) (hfree : base.entries location = none) :
    base.Extends (files.create location) where
  entries := by
    intro other entry hentry
    have hne : other ≠ location := by
      rintro rfl
      rw [hfree] at hentry
      cases hentry
    exact (Function.update_of_ne hne _ _).trans (h.entries other entry hentry)
  contents := by
    intro other hother
    have hne : other ≠ files.nextInode := by
      have := h.nextInode
      omega
    exact (Function.update_of_ne hne _ _).trans (h.contents other hother)
  nextInode := Nat.le_succ_of_le h.nextInode

theorem Extends.append (h : base.Extends files) (hnew : base.nextInode ≤ inode) :
    base.Extends (files.append inode bytes) where
  entries := h.entries
  contents := by
    intro other hother
    have hne : other ≠ inode := by omega
    exact (Function.update_of_ne hne _ _).trans (h.contents other hother)
  nextInode := h.nextInode

theorem Extends.setEntry (h : base.Extends files) (hfree : base.entries location = none)
    {entry : Option Entry} (hentry : ∀ inode, entry = some (.file inode) → inode < files.nextInode) :
    base.Extends (files.setEntry location entry hentry) where
  entries := by
    intro other old hold
    have hne : other ≠ location := by
      rintro rfl
      rw [hfree] at hold
      cases hold
    exact (Function.update_of_ne hne _ _).trans (h.entries other old hold)
  contents := h.contents
  nextInode := h.nextInode

theorem Extends.unlink (h : base.Extends files) (hfree : base.entries location = none) :
    base.Extends (files.unlink location) :=
  h.setEntry hfree _

theorem removeFile_eq_ok {result : FileSystem} (h : files.removeFile location = .ok result) :
    result = files.unlink location := by
  rw [removeFile] at h
  split at h
  · cases h
  · cases h
  all_goals
    cases h
    rfl

theorem Extends.removeFile (h : base.Extends files) (hfree : base.entries location = none)
    {result : FileSystem} (hresult : files.removeFile location = .ok result) :
    base.Extends result := by
  rw [removeFile_eq_ok hresult]
  exact h.unlink hfree

theorem Extends.hardLink (h : base.Extends files) {source : Location}
    (hfree : base.entries location = none) {result : FileSystem}
    (hresult : files.hardLink source location = .ok result) : base.Extends result := by
  unfold FileSystem.hardLink at hresult
  split at hresult
  · cases hresult
  · split at hresult
    · cases hresult
      exact h.setEntry hfree _
    · cases hresult

end Extending

end FileSystem

/-! ## A file under a fresh name -/

namespace FileSystem

/-- A new file with contents under a name. -/
def staged (base : FileSystem) (location : Location) (bytes : Bytes) : FileSystem :=
  (base.create location).append base.nextInode bytes

section Staging

variable {base : FileSystem} {location target : Location} {bytes more : Bytes}

theorem staged_nil : base.staged location [] = base.create location := by
  rw [staged, append, List.append_nil, Function.update_eq_self]

theorem append_staged : (base.staged location bytes).append base.nextInode more =
    base.staged location (bytes ++ more) := by
  simp [staged, append]

theorem extends_staged (hfree : base.entries location = none) :
    base.Extends (base.staged location bytes) :=
  ((Extends.refl base).create hfree).append (Nat.le_refl _)

theorem entries_staged_self :
    (base.staged location bytes).entries location = some (.file base.nextInode) :=
  Function.update_self _ _ _

theorem contents_staged : (base.staged location bytes).contents base.nextInode = bytes := by
  simp [staged, append, create]

theorem lookup_of_entry {files : FileSystem} {inode : Nat}
    (h : files.entries location = some (.file inode)) :
    files.lookup location = some (.file inode) := by
  rw [lookup, maxLinks, resolve, h]

theorem read_of_entry {files : FileSystem} {inode : Nat}
    (h : files.entries location = some (.file inode)) :
    files.read location = some (files.contents inode) :=
  read_eq_some_iff.mpr ⟨inode, lookup_of_entry h, rfl⟩

theorem sameFile_eq_true_iff {entry : Entry} {other : Option Entry} :
    sameFile entry other = true ↔ ∃ inode, entry = .file inode ∧ other = some (.file inode) := by
  unfold sameFile
  split
  · next inode other' =>
      rw [decide_eq_true_eq]
      constructor
      · rintro rfl
        exact ⟨inode, rfl, rfl⟩
      · rintro ⟨_, hleft, hright⟩
        cases hleft
        cases hright
        rfl
  · next hdifferent =>
      simp only [Bool.false_eq_true, false_iff]
      rintro ⟨inode, hleft, hright⟩
      exact hdifferent inode inode hleft hright

/-- A name of a file, itself no link, with contents. -/
def Holds (files : FileSystem) (location : Location) (bytes : Bytes) : Prop :=
  ∃ inode, files.entries location = some (.file inode) ∧ files.contents inode = bytes

theorem Holds.read {files : FileSystem} (h : files.Holds location bytes) :
    files.read location = some bytes := by
  obtain ⟨inode, hentry, rfl⟩ := h
  exact read_of_entry hentry

theorem holds_staged : (base.staged location bytes).Holds location bytes :=
  ⟨_, entries_staged_self, contents_staged⟩

theorem Holds.unlink {files : FileSystem} (h : files.Holds target bytes)
    (hne : target ≠ location) : (files.unlink location).Holds target bytes := by
  obtain ⟨inode, hentry, hcontents⟩ := h
  exact ⟨inode, (Function.update_of_ne hne _ _).trans hentry, hcontents⟩

theorem Holds.removeFile {files result : FileSystem} (h : files.Holds target bytes)
    (hne : target ≠ location) (hresult : files.removeFile location = .ok result) :
    result.Holds target bytes := by
  rw [removeFile_eq_ok hresult]
  exact h.unlink hne

/-- Renaming the new file over a target makes the target hold its contents. -/
theorem holds_of_rename_staged {files : FileSystem}
    (h : (base.staged location bytes).rename location target = .ok files) :
    files.Holds target bytes := by
  unfold rename at h
  split at h
  · next hnone =>
      rw [entries_staged_self] at hnone
      cases hnone
  · next entry hentry =>
      have hentry' := hentry
      rw [entries_staged_self] at hentry'
      obtain rfl := Option.some.inj hentry'
      split at h
      · next hsame =>
          -- The target is the name of the new file already.
          cases h
          obtain ⟨inode, hinode, htarget⟩ := sameFile_eq_true_iff.mp hsame
          cases hinode
          exact ⟨_, htarget, contents_staged⟩
      · split at h
        · cases h
        · next hdifferent _ =>
            cases h
            have hne : target ≠ location := by
              rintro rfl
              exact hdifferent (sameFile_eq_true_iff.mpr ⟨_, rfl, entries_staged_self⟩)
            exact ⟨base.nextInode,
              (Function.update_of_ne hne _ _).trans (Function.update_self _ _ _), contents_staged⟩

/-- A link to a free name holds what the source holds, which still has another name. -/
theorem Holds.hardLink {files linked : FileSystem} (h : files.Holds location bytes)
    (hlink : files.hardLink location target = .ok linked) :
    linked.Holds target bytes ∧ target ≠ location := by
  obtain ⟨inode, hinode, hcontents⟩ := h
  unfold FileSystem.hardLink at hlink
  split at hlink
  · cases hlink
  · next entry hentry =>
      have hentry' := hentry
      rw [hinode] at hentry'
      obtain rfl := Option.some.inj hentry'
      split at hlink
      · next hfree =>
          cases hlink
          refine ⟨⟨inode, Function.update_self _ _ _, hcontents⟩, ?_⟩
          rintro rfl
          rw [hinode] at hfree
          cases hfree
      · cases hlink

/-- A file can be linked to a free name. -/
theorem exists_hardLink {files : FileSystem} {entry : Entry}
    (hentry : files.entries location = some entry) (hfree : files.entries target = none) :
    ∃ linked, files.hardLink location target = .ok linked ∧
      linked.entries = Function.update files.entries target (some entry) := by
  unfold hardLink
  split
  · next hnone =>
      rw [hentry] at hnone
      cases hnone
  · next other hsome =>
      obtain rfl := Option.some.inj (hentry.symm.trans hsome)
      rw [if_pos hfree]
      exact ⟨_, rfl, rfl⟩

theorem removeFile_of_file {files : FileSystem} {inode : Nat}
    (h : files.entries location = some (.file inode)) :
    files.removeFile location = .ok (files.unlink location) := by
  rw [removeFile, h]

/-- A target that reads as a file can be renamed over. -/
theorem exists_rename_staged (hfree : base.entries location = none) {old : Bytes}
    (hread : base.read target = some old) :
    ∃ files, (base.staged location bytes).rename location target = .ok files := by
  have htarget : (base.staged location bytes).entries target ≠ some .directory := by
    intro hdirectory
    have hsame := (@extends_staged base location bytes hfree).read hread
    obtain ⟨inode, hlookup, _⟩ := read_eq_some_iff.mp hsame
    rw [lookup, maxLinks, resolve, hdirectory] at hlookup
    cases hlookup
  unfold rename
  split
  · next hnone =>
      rw [entries_staged_self] at hnone
      cases hnone
  · split
    · exact ⟨_, rfl⟩
    · exact ⟨_, rfl⟩

theorem of_map_unit {result : Except IoErrorKind FileSystem} {files : FileSystem}
    (h : result.map ((), ·) = .ok ((), files)) : result = .ok files := by
  cases result with
  | error kind => cases h
  | ok other =>
      cases h
      rfl

end Staging

end FileSystem

end Data
