/-
# Temporary files

A process tracks the names of its temporary files before it makes them, and removes every
tracked name when it ends, whether it made the file or not. The names come in groups: those of a
group are tracked together, and a group is tracked only when all files of the groups before it
have been made. So what the end of the process removes is told by the first group in which a
name is taken.
-/

import Pari.Data.Staging
import Pari.Data.Stateful

namespace Data

variable {ε α β : Type}

/-! ## Files beside those of a base -/

namespace FileSystem

/-- What `base` has is as it was, and other names than the given ones are not made. -/
structure Adds (owned : List Path) (base files : FileSystem) : Prop where
  keeps : base.Extends files
  outside : ∀ location, (∀ path ∈ owned, path.location ≠ location) →
    files.entries location = base.entries location

section Adding

variable {owned more : List Path} {base files later : FileSystem} {location : Location}
  {path : Path} {bytes : Bytes} {inode : Nat}

theorem Adds.refl (owned : List Path) (base : FileSystem) : base.Adds owned base :=
  ⟨.refl base, fun _ _ => rfl⟩

theorem Extends.trans (h : base.Extends files) (h' : files.Extends later) : base.Extends later where
  entries := fun location entry hentry => h'.entries location entry (h.entries location entry hentry)
  contents := fun inode hinode =>
    (h'.contents inode (hinode.trans_le h.nextInode)).trans (h.contents inode hinode)
  nextInode := h.nextInode.trans h'.nextInode

theorem Adds.trans (h : Adds owned base files) (h' : Adds more files later) :
    Adds (owned ++ more) base later where
  keeps := h.keeps.trans h'.keeps
  outside := by
    intro location houtside
    rw [h'.outside location fun path hpath => houtside path (List.mem_append_right _ hpath)]
    exact h.outside location fun path hpath => houtside path (List.mem_append_left _ hpath)

theorem Adds.mono (h : Adds owned base files) (hsub : owned ⊆ more) : Adds more base files :=
  ⟨h.keeps, fun location houtside => h.outside location fun path hpath =>
    houtside path (hsub hpath)⟩

theorem Extends.holds (h : base.Extends files) (hholds : base.Holds location bytes) :
    files.Holds location bytes := by
  obtain ⟨inode, hentry, rfl⟩ := hholds
  exact ⟨inode, h.entries _ _ hentry, h.contents inode (base.allocated location inode hentry)⟩

/-- A name that is free in a later state was free. -/
theorem Extends.free (h : base.Extends files) (hfree : files.entries location = none) :
    base.entries location = none := by
  cases hentry : base.entries location with
  | none => rfl
  | some entry =>
      rw [h.entries location entry hentry] at hfree
      cases hfree

theorem Adds.create (h : Adds owned base files) (hmem : path ∈ owned)
    (hfree : files.entries path.location = none) :
    Adds owned base (files.create path.location) where
  keeps := h.keeps.create (h.keeps.free hfree)
  outside := by
    intro location houtside
    rw [← h.outside location houtside]
    exact Function.update_of_ne (houtside path hmem).symm _ _

theorem Adds.append (h : Adds owned base files) (hnew : base.nextInode ≤ inode) :
    Adds owned base (files.append inode bytes) :=
  ⟨h.keeps.append hnew, h.outside⟩

/-- A name outside is taken exactly if it was. -/
theorem Adds.entries_eq (h : Adds owned base files)
    (hapart : ∀ other ∈ owned, other.location ≠ path.location) :
    files.entries path.location = base.entries path.location :=
  h.outside _ hapart

end Adding

end FileSystem

/-! ## Tracked names -/

/-- Read on in a file that is open: its bytes are those it had when it was opened. -/
def World.readOn (world : World) : Except IoError Unit × World :=
  world.call fun files => .ok ((), files)

/-- The same world under another schedule of faults. -/
def World.withFaults (world : World) (faults : Nat → Option Fault) : World := { world with faults }

/-- The schedule under which only one call fails. -/
def faultAt (call : Nat) (fault : Fault) (n : Nat) : Option Fault :=
  if n = call then some fault else none

theorem World.readOn_steps {world : World} : world.Steps (· = world.files) world.readOn.2 :=
  World.look_steps fun _ _ hok => by cases hok; rfl

/-- The tracked names of a process, and its world. -/
structure Scratch where
  paths : List Path
  world : World

namespace Scratch

def track (paths : List Path) : Method Scratch ε Unit :=
  Method.update fun scratch => { scratch with paths := scratch.paths ++ paths }

/-- A call of the process. -/
def perform {ε' : Type} (convert : ε' → ε) (run : World → Except ε' α × World) :
    Method Scratch ε α :=
  Method.onPart Scratch.world (fun world scratch => { scratch with world }) convert run

theorem call_perform {ε' : Type} {convert : ε' → ε} {run : World → Except ε' α × World}
    {scratch : Scratch} {result : Except ε' α} {world : World}
    (h : run scratch.world = (result, world)) :
    call scratch (perform convert run) = (result.mapError convert, ⟨scratch.paths, world⟩) :=
  congrArg (fun ran : Except ε' α × World =>
    (ran.1.mapError convert, (⟨scratch.paths, ran.2⟩ : Scratch))) h

/-- The end of the process. -/
def drop (scratch : Scratch) : World :=
  scratch.paths.foldl (fun world path => (world.removeFile path).2) scratch.world

end Scratch

open FileSystem Scratch

/-! ## Making the files of a group -/

/-- Names that are tracked have their files made beside those of a base: every state extends the
base, and without faults only a taken name makes the method fail. -/
structure Makes (base : FileSystem) (owned : List Path) (Post : α → Scratch → Prop)
    (method : Method Scratch ε α) (before : Scratch) : Prop where
  paths : (call before method).2.paths = before.paths
  steps : before.world.Steps (Adds owned base) (call before method).2.world
  returns : ∀ value, (call before method).1 = .ok value → Post value (call before method).2
  fails : ∀ error, (call before method).1 = .error error → before.world.Quiet →
    ∃ path ∈ owned, base.entries path.location ≠ none

section Making

variable {base : FileSystem} {owned : List Path} {Post : α → Scratch → Prop}
  {Post' : β → Scratch → Prop} {method : Method Scratch ε α} {next : α → Method Scratch ε β}
  {before : Scratch} {convert : IoError → ε}

theorem Makes.bind (h : Makes base owned Post method before)
    (hnext : ∀ value middle, Adds owned base middle.world.files → Post value middle →
      Makes base owned Post' (next value) middle) :
    Makes base owned Post' (method >>= next) before := by
  rcases hcall : call before method with ⟨result, middle⟩
  obtain ⟨hpaths, hsteps, hreturns, hfails⟩ := h
  rw [hcall] at hpaths hsteps hreturns hfails
  cases result with
  | error error =>
      have hbind : call before (method >>= next) = (.error error, middle) := call_bind_error hcall
      refine ⟨?_, ?_, ?_, ?_⟩
      all_goals rw [hbind]
      · exact hpaths
      · exact hsteps
      · nofun
      · exact fun _ _ => hfails error rfl
  | ok value =>
      have hbind : call before (method >>= next) = call middle (next value) := call_bind_ok hcall
      obtain ⟨hpaths', hsteps', hreturns', hfails'⟩ :=
        hnext value middle hsteps.holds (hreturns value rfl)
      refine ⟨?_, ?_, ?_, ?_⟩
      all_goals rw [hbind]
      · exact hpaths'.trans hpaths
      · exact hsteps.trans hsteps'
      · exact hreturns'
      · exact fun error herror hquiet => hfails' error herror (hsteps.quiet hquiet)

theorem Makes.imp {Other : α → Scratch → Prop} (h : Makes base owned Post method before)
    (himp : ∀ value after, Post value after → Other value after) :
    Makes base owned Other method before :=
  ⟨h.paths, h.steps, fun value hvalue => himp value _ (h.returns value hvalue), h.fails⟩

/-- A step that succeeds without a call. -/
theorem Makes.lift {value : α} (hadds : Adds owned base before.world.files)
    (hpost : Post value before) :
    Makes base owned Post (Method.lift (.ok value) : Method Scratch ε α) before where
  paths := rfl
  steps := .refl hadds
  returns := by
    intro other hother
    obtain rfl : value = other := Except.ok.inj hother
    exact hpost
  fails := nofun

/-- What a call of the process does, from what its run does. -/
theorem Makes.perform {run : World → Except IoError α × World}
    (hsteps : before.world.Steps (Adds owned base) (run before.world).2)
    (hreturns : ∀ value, (run before.world).1 = .ok value →
      Post value { before with world := (run before.world).2 })
    (hfails : ∀ error, (run before.world).1 = .error error → before.world.Quiet →
      ∃ path ∈ owned, base.entries path.location ≠ none) :
    Makes base owned Post (Scratch.perform convert run) before where
  paths := rfl
  steps := hsteps
  returns := by
    intro value hvalue
    apply hreturns value
    exact mapError_eq_ok_iff.mp hvalue
  fails := by
    intro error herror
    cases hrun : (run before.world).1 with
    | ok value =>
        rw [Scratch.perform, call_onPart] at herror
        change (run before.world).1.mapError convert = .error error at herror
        rw [hrun] at herror
        cases herror
    | error raised => exact hfails raised hrun

/-- A call that only looks, and that succeeds without faults. -/
theorem Makes.look {run : World → Except IoError α × World}
    (hadds : Adds owned base before.world.files)
    (hlook : before.world.Steps (· = before.world.files) (run before.world).2)
    (hquiet : before.world.Quiet → ∃ value, (run before.world).1 = .ok value)
    (hreturns : ∀ value, (run before.world).1 = .ok value →
      Post value { before with world := (run before.world).2 }) :
    Makes base owned Post (Scratch.perform convert run) before := by
  apply Makes.perform (hlook.of_look hadds) hreturns
  intro error herror hcalm
  obtain ⟨value, hvalue⟩ := hquiet hcalm
  rw [hvalue] at herror
  cases herror

theorem Makes.readOn {unitPost : Unit → Scratch → Prop}
    (hadds : Adds owned base before.world.files)
    (hpost : ∀ after, after.files = before.world.files →
      unitPost () { before with world := after }) :
    Makes base owned unitPost (Scratch.perform convert World.readOn) before := by
  refine Makes.look hadds World.readOn_steps (fun hquiet => ?_) fun _ _ =>
    hpost _ World.readOn_steps.holds
  have hcall : before.world.readOn = (.ok (), _) := World.call_of_quiet hquiet rfl
  exact ⟨(), congrArg Prod.fst hcall⟩

/-- Making a file. -/
theorem Makes.createNew {path : Path} {inodePost : Nat → Scratch → Prop}
    (hadds : Adds owned base before.world.files) (hmem : path ∈ owned)
    (hsame : before.world.files.entries path.location = base.entries path.location)
    (hpost : ∀ after, base.entries path.location = none →
      after.files = before.world.files.create path.location →
        inodePost before.world.files.nextInode { before with world := after }) :
    Makes base owned inodePost (Scratch.perform convert fun world => world.createNew path)
      before := by
  apply Makes.perform
  · apply World.call_steps hadds fun _ => hadds
    intro value files hok
    split at hok
    · cases hok
    · next hfree =>
        cases hok
        exact hadds.create hmem hfree
  · intro inode hinode
    obtain ⟨hfree, rfl, hfiles⟩ := World.createNew_eq_ok (Prod.ext hinode rfl)
    exact hpost _ (hadds.keeps.free hfree) hfiles
  · intro error herror hquiet
    refine ⟨path, hmem, fun hfree => ?_⟩
    rw [World.createNew_of_quiet hquiet (hsame.trans hfree)] at herror
    cases herror

theorem World.writeSynced_steps {P : FileSystem → Prop} {world : World} {inode : Nat}
    {bytes : Bytes} (h : P world.files) (happend : ∀ bytes, P (world.files.append inode bytes)) :
    world.Steps P (world.writeSynced inode bytes).2 := by
  have hwrite : world.Steps P (world.writeAll inode bytes).2 := by
    apply World.call_steps h fun _ => happend _
    intro value files hok
    cases hok
    exact happend bytes
  unfold World.writeSynced
  rcases hcall : world.writeAll inode bytes with ⟨result, written⟩
  rw [hcall] at hwrite
  cases result with
  | error error => exact hwrite
  | ok value => exact hwrite.trans (World.syncAll_steps.of_look hwrite.holds)

/-- Writing a file that the process has made. -/
theorem Makes.writeSynced {inode : Nat} {bytes : Bytes} {unitPost : Unit → Scratch → Prop}
    (hadds : Adds owned base before.world.files) (hnew : base.nextInode ≤ inode)
    (hpost : ∀ after, after.files = before.world.files.append inode bytes →
      unitPost () { before with world := after }) :
    Makes base owned unitPost
      (Scratch.perform convert fun world => world.writeSynced inode bytes) before := by
  apply Makes.perform
  · exact World.writeSynced_steps hadds fun _ => hadds.append hnew
  · intro value hvalue
    exact hpost _ (World.writeSynced_eq_ok (Prod.ext hvalue rfl))
  · intro error herror hquiet
    obtain ⟨after, hwrite, _⟩ := @World.writeSynced_of_quiet before.world bytes inode hquiet
    rw [hwrite] at herror
    cases herror

/-- Reading a file. -/
theorem Makes.openRead {path : Path} {bytes : Bytes} {bytesPost : Bytes → Scratch → Prop}
    (hadds : Adds owned base before.world.files)
    (hread : before.world.files.read path.location = some bytes)
    (hpost : ∀ after, after.files = before.world.files →
      bytesPost bytes { before with world := after }) :
    Makes base owned bytesPost (Scratch.perform convert fun world => world.openRead path)
      before := by
  apply Makes.look hadds (World.openRead_steps path)
  · intro hquiet
    exact ⟨bytes, congrArg Prod.fst (World.openRead_of_quiet hquiet hread)⟩
  · intro value hvalue
    obtain ⟨hsame, hfiles⟩ := World.openRead_eq_ok (Prod.ext hvalue rfl)
    obtain rfl : bytes = value := Option.some.inj (hread.symm.trans hsame)
    exact hpost _ hfiles

/-- Writing to a file that the process has made, without syncing it. -/
theorem Makes.writeAll {inode : Nat} {bytes : Bytes} {unitPost : Unit → Scratch → Prop}
    (hadds : Adds owned base before.world.files) (hnew : base.nextInode ≤ inode)
    (hpost : ∀ after, after.files = before.world.files.append inode bytes →
      unitPost () { before with world := after }) :
    Makes base owned unitPost
      (Scratch.perform convert fun world => world.writeAll inode bytes) before := by
  apply Makes.perform
  · apply World.call_steps hadds fun _ => hadds.append hnew
    intro value files hok
    cases hok
    exact hadds.append hnew
  · intro value hvalue
    have hrun := World.run_of_call (Prod.ext hvalue rfl : before.world.writeAll inode bytes =
      (.ok value, (before.world.writeAll inode bytes).2))
    exact hpost _ (congrArg Prod.snd (Except.ok.inj hrun)).symm
  · intro error herror hquiet
    have hcall : before.world.writeAll inode bytes = (.ok (), _) := World.call_of_quiet hquiet rfl
    rw [hcall] at herror
    cases herror

theorem Makes.syncAll {unitPost : Unit → Scratch → Prop}
    (hadds : Adds owned base before.world.files)
    (hpost : ∀ after, after.files = before.world.files →
      unitPost () { before with world := after }) :
    Makes base owned unitPost (Scratch.perform convert fun world => world.syncAll) before := by
  apply Makes.look hadds World.syncAll_steps
  · intro hquiet
    have hcall : before.world.syncAll = (.ok (), _) := World.call_of_quiet hquiet rfl
    exact ⟨(), congrArg Prod.fst hcall⟩
  · exact fun _ _ => hpost _ World.syncAll_steps.holds

/-- Writing the file that was just made. -/
theorem Makes.writeCreated {path : Path} {bytes : Bytes} {unitPost : Unit → Scratch → Prop}
    (hfree : base.entries path.location = none)
    (hcreated : before.world.files = base.create path.location)
    (hpost : ∀ after, after.files = base.staged path.location bytes →
      unitPost () { before with world := after }) :
    Makes base [path] unitPost
      (Scratch.perform convert fun world => world.writeSynced base.nextInode bytes) before := by
  have hadds : Adds [path] base before.world.files := by
    rw [hcreated]
    exact (Adds.refl _ _).create (List.mem_singleton_self _) hfree
  apply Makes.writeSynced hadds (Nat.le_refl _)
  intro after hafter
  rw [hcreated] at hafter
  exact hpost after hafter

/-- A loop whose turns only look. -/
theorem Makes.mapM {γ δ : Type} {items : List γ} {body : γ → Method Scratch ε δ} {compute : γ → δ}
    (hadds : Adds owned base before.world.files)
    (hbody : ∀ item ∈ items, ∀ state : Scratch, state.world.files = before.world.files →
      Makes base owned (fun value after => value = compute item ∧
        after.world.files = before.world.files) (body item) state) :
    Makes base owned (fun values after => values = items.map compute ∧
      after.world.files = before.world.files) (items.mapM body) before := by
  suffices h : ∀ state : Scratch, state.world.files = before.world.files →
      Makes base owned (fun values after => values = items.map compute ∧
        after.world.files = before.world.files) (items.mapM body) state from h before rfl
  induction items with
  | nil =>
      intro state hstate
      rw [List.mapM_nil]
      exact Makes.lift (hstate ▸ hadds) ⟨rfl, hstate⟩
  | cons item items ih =>
      intro state hstate
      rw [List.forall_mem_cons] at hbody
      rw [List.mapM_cons]
      apply (hbody.1 state hstate).bind
      rintro value middle - ⟨rfl, hmiddle⟩
      apply (ih hbody.2 middle hmiddle).bind
      rintro values last - ⟨rfl, hlast⟩
      exact Makes.lift (hlast ▸ hadds) ⟨rfl, hlast⟩

end Making

/-! ## One group after another -/

/-- The files of some groups were made: their names were free, and now are tracked. -/
structure Completes (groups : List (List Path)) (before after : Scratch) : Prop where
  paths : after.paths = before.paths ++ groups.flatten
  free : ∀ path ∈ groups.flatten, before.world.files.entries path.location = none
  steps : before.world.Steps (Adds groups.flatten before.world.files) after.world

/-- The process stopped after tracking some groups: all but the last had free names, and without
faults the last has a taken one. -/
structure Halts (done : List (List Path)) (before after : Scratch) : Prop where
  paths : after.paths = before.paths ++ done.flatten
  free : ∀ path ∈ done.dropLast.flatten, before.world.files.entries path.location = none
  steps : before.world.Steps (Adds done.flatten before.world.files) after.world
  taken : before.world.Quiet → ∃ earlier group path, done = earlier ++ [group] ∧ path ∈ group ∧
    before.world.files.entries path.location ≠ none

/-- What a method does that tracks some groups. -/
structure Meets (groups : List (List Path)) (Post : α → Scratch → Prop)
    (method : Method Scratch ε α) (before : Scratch) : Prop where
  completes : ∀ value after, call before method = (.ok value, after) →
    Completes groups before after ∧ Post value after
  stops : ∀ error after, call before method = (.error error, after) →
    ∃ done rest, groups = done ++ rest ∧ Halts done before after

/-- No path of one list is a name of another. -/
def Apart (left right : List Path) : Prop :=
  ∀ path ∈ left, ∀ other ∈ right, path.location ≠ other.location

theorem apart_nil (left : List Path) : Apart left (List.flatten []) := nofun

theorem nil_apart (right : List Path) : Apart (List.flatten []) right := nofun

section Grouping

variable {groups more : List (List Path)} {group : List Path} {Post : α → Scratch → Prop}
  {Post' : β → Scratch → Prop} {method : Method Scratch ε α} {next : α → Method Scratch ε β}
  {before middle after : Scratch}

theorem Completes.refl (scratch : Scratch) : Completes [] scratch scratch :=
  ⟨(List.append_nil _).symm, nofun, .refl (.refl _ _)⟩

/-- A name of later groups is taken after the earlier ones exactly if it was before them. -/
theorem Completes.entries_eq (h : Completes groups before middle) {path : Path}
    (hapart : ∀ other ∈ groups.flatten, other.location ≠ path.location) :
    middle.world.files.entries path.location = before.world.files.entries path.location :=
  h.steps.holds.outside _ hapart

theorem Completes.trans (h : Completes groups before middle) (h' : Completes more middle after)
    (hapart : Apart groups.flatten more.flatten) : Completes (groups ++ more) before after where
  paths := by rw [h'.paths, h.paths, List.flatten_append, List.append_assoc]
  free := by
    intro path hpath
    rw [List.flatten_append, List.mem_append] at hpath
    rcases hpath with hfirst | hsecond
    · exact h.free path hfirst
    · rw [← h.entries_eq fun other hother => hapart other hother path hsecond]
      exact h'.free path hsecond
  steps := by
    rw [List.flatten_append]
    apply World.Steps.trans
      (h.steps.imp fun files hadds => hadds.mono (List.subset_append_left _ _))
    exact h'.steps.imp fun files hadds => h.steps.holds.trans hadds

theorem Completes.halts {done : List (List Path)} (h : Completes groups before middle)
    (h' : Halts done middle after) (hapart : Apart groups.flatten done.flatten) :
    Halts (groups ++ done) before after where
  paths := by rw [h'.paths, h.paths, List.flatten_append, List.append_assoc]
  free := by
    intro path hpath
    cases hdone : done with
    | nil =>
        rw [hdone, List.append_nil] at hpath
        apply h.free path
        obtain ⟨group, hgroup, hmem⟩ := List.mem_flatten.mp hpath
        exact List.mem_flatten.mpr ⟨group, List.mem_of_mem_dropLast hgroup, hmem⟩
    | cons first rest =>
        have hne : done ≠ [] := by
          rw [hdone]
          nofun
        rw [List.dropLast_append_of_ne_nil hne, List.flatten_append, List.mem_append] at hpath
        rcases hpath with hfirst | hsecond
        · exact h.free path hfirst
        · obtain ⟨group, hgroup, hmem⟩ := List.mem_flatten.mp hsecond
          have hin : path ∈ done.flatten :=
            List.mem_flatten.mpr ⟨group, List.mem_of_mem_dropLast hgroup, hmem⟩
          rw [← h.entries_eq fun other hother => hapart other hother path hin]
          exact h'.free path hsecond
  steps := by
    rw [List.flatten_append]
    apply World.Steps.trans
      (h.steps.imp fun files hadds => hadds.mono (List.subset_append_left _ _))
    exact h'.steps.imp fun files hadds => h.steps.holds.trans hadds
  taken := by
    intro hquiet
    obtain ⟨earlier, group, path, rfl, hpath, htaken⟩ := h'.taken (h.steps.quiet hquiet)
    refine ⟨groups ++ earlier, group, path, (List.append_assoc ..).symm, hpath, ?_⟩
    have hin : path ∈ (earlier ++ [group]).flatten := by
      rw [List.flatten_append, List.flatten_singleton]
      exact List.mem_append_right _ hpath
    rw [← h.entries_eq fun other hother => hapart other hother path hin]
    exact htaken

theorem Meets.bind (h : Meets groups Post method before)
    (hapart : Apart groups.flatten more.flatten)
    (hnext : ∀ value middle, Completes groups before middle → Post value middle →
      Meets more Post' (next value) middle) :
    Meets (groups ++ more) Post' (method >>= next) before := by
  rcases hcall : call before method with ⟨result, middle⟩
  cases result with
  | error error =>
      have hbind : call before (method >>= next) = (.error error, middle) := call_bind_error hcall
      obtain ⟨done, rest, hgroups, hhalts⟩ := h.stops error middle hcall
      refine ⟨fun value after hafter => ?_, fun other after hafter => ?_⟩
      · rw [hbind] at hafter
        cases hafter
      · rw [hbind] at hafter
        cases hafter
        exact ⟨done, rest ++ more, by rw [hgroups, List.append_assoc], hhalts⟩
  | ok value =>
      have hbind : call before (method >>= next) = call middle (next value) := call_bind_ok hcall
      obtain ⟨hcompletes, hpost⟩ := h.completes value middle hcall
      have hmeets := hnext value middle hcompletes hpost
      refine ⟨fun other after hafter => ?_, fun error after hafter => ?_⟩
      · rw [hbind] at hafter
        obtain ⟨hmore, hpost'⟩ := hmeets.completes other after hafter
        exact ⟨hcompletes.trans hmore hapart, hpost'⟩
      · rw [hbind] at hafter
        obtain ⟨done, rest, rfl, hhalts⟩ := hmeets.stops error after hafter
        refine ⟨groups ++ done, rest, (List.append_assoc ..).symm, hcompletes.halts hhalts ?_⟩
        intro path hpath other hother
        apply hapart path hpath
        rw [List.flatten_append]
        exact List.mem_append_left _ hother

/-- What is known besides: the groups were completed. -/
theorem Meets.imp {Other : α → Scratch → Prop} (h : Meets groups Post method before)
    (himp : ∀ value after, Completes groups before after → Post value after → Other value after) :
    Meets groups Other method before where
  completes := by
    intro value after hcall
    obtain ⟨hcompletes, hpost⟩ := h.completes value after hcall
    exact ⟨hcompletes, himp value after hcompletes hpost⟩
  stops := h.stops

theorem Meets.pure {value : α} (hpost : Post value before) :
    Meets [] Post (Pure.pure value : Method Scratch ε α) before where
  completes := by
    intro other after hcall
    cases hcall
    exact ⟨.refl before, hpost⟩
  stops := by
    intro error after hcall
    cases hcall

/-- A method that makes no file and tracks no name. -/
theorem Meets.of_makes (h : Makes before.world.files [] Post method before) :
    Meets [] Post method before where
  completes := by
    intro value after hcall
    obtain ⟨hpaths, hsteps, hreturns, _⟩ := h
    rw [hcall] at hpaths hsteps hreturns
    exact ⟨⟨by rw [hpaths]; exact (List.append_nil _).symm, nofun, hsteps⟩, hreturns value rfl⟩
  stops := by
    intro error after hcall
    obtain ⟨hpaths, hsteps, _, hfails⟩ := h
    rw [hcall] at hpaths hsteps hfails
    refine ⟨[], [], rfl, by rw [hpaths]; exact (List.append_nil _).symm, nofun, hsteps, ?_⟩
    intro hquiet
    obtain ⟨path, hpath, _⟩ := hfails error rfl hquiet
    cases hpath

/-- Tracking the names of a group, and making its files. -/
theorem Meets.of_group {make : Unit → Method Scratch ε α}
    (h : Makes before.world.files group
      (fun value after => (∀ path ∈ group, before.world.files.entries path.location = none) ∧
        Post value after)
      (make ()) { before with paths := before.paths ++ group }) :
    Meets [group] Post (track group >>= make) before where
  completes := by
    intro value after hcall
    rw [track, call_update_bind] at hcall
    obtain ⟨hpaths, hsteps, hreturns, _⟩ := h
    rw [hcall] at hpaths hsteps hreturns
    obtain ⟨hfree, hpost⟩ := hreturns value rfl
    refine ⟨⟨?_, ?_, ?_⟩, hpost⟩
    all_goals rw [List.flatten_singleton]
    · exact hpaths
    · exact hfree
    · exact hsteps
  stops := by
    intro error after hcall
    rw [track, call_update_bind] at hcall
    obtain ⟨hpaths, hsteps, _, hfails⟩ := h
    rw [hcall] at hpaths hsteps hfails
    refine ⟨[group], [], rfl, ?_, nofun, ?_, ?_⟩
    · rw [List.flatten_singleton]
      exact hpaths
    · rw [List.flatten_singleton]
      exact hsteps
    · intro hquiet
      obtain ⟨path, hpath, htaken⟩ := hfails error rfl hquiet
      exact ⟨[], group, path, rfl, hpath, htaken⟩

/-- Tracking one name, making its file, and going on with it. -/
theorem Meets.of_created {path : Path} {convert : IoError → ε} {write : Nat → Method Scratch ε α}
    (h : ∀ middle : Scratch, before.world.files.entries path.location = none →
      middle.world.files = before.world.files.create path.location →
        Makes before.world.files [path] Post (write before.world.files.nextInode) middle) :
    Meets [[path]] Post (track [path] >>= fun _ =>
      Scratch.perform convert (fun world => world.createNew path) >>= write) before := by
  apply Meets.of_group
  have hcreate : Makes before.world.files [path]
      (fun inode middle => inode = before.world.files.nextInode ∧
        before.world.files.entries path.location = none ∧
          middle.world.files = before.world.files.create path.location)
      (Scratch.perform convert fun world => world.createNew path)
      { before with paths := before.paths ++ [path] } := by
    have hadds : Adds [path] before.world.files
        ({ before with paths := before.paths ++ [path] } : Scratch).world.files := .refl _ _
    apply Makes.createNew hadds (List.mem_singleton_self _) rfl
    exact fun after hfree hafter => ⟨rfl, hfree, hafter⟩
  apply hcreate.bind
  rintro _ middle - ⟨rfl, hfree, hmiddle⟩
  apply (h middle hfree hmiddle).imp
  intro value after hpost
  refine ⟨fun other hother => ?_, hpost⟩
  rw [List.mem_singleton.mp hother]
  exact hfree

end Grouping

/-! ## Numbered files -/

/-- One group for each number of an interval. -/
def numbered (name : Nat → Path) (start stop : Nat) : List (List Path) :=
  (List.range' start (stop - start)).map fun index => [name index]

section Numbering

variable {name : Nat → Path} {start middle stop : Nat} {path : Path}

theorem numbered_self : numbered name start start = [] := by
  rw [numbered, Nat.sub_self]
  rfl

theorem numbered_succ : numbered name start (start + 1) = [[name start]] := by
  rw [numbered, Nat.add_sub_cancel_left]
  rfl

theorem numbered_append (h : start ≤ middle) (h' : middle ≤ stop) :
    numbered name start middle ++ numbered name middle stop = numbered name start stop := by
  have hsplit : stop - start = (middle - start) + (stop - middle) := by omega
  have hmiddle : middle = start + 1 * (middle - start) := by omega
  rw [numbered, numbered, numbered, hsplit, ← List.range'_append, List.map_append, ← hmiddle]

theorem mem_flatten_numbered_iff : path ∈ (numbered name start stop).flatten ↔
    ∃ index, start ≤ index ∧ index < stop ∧ name index = path := by
  simp only [numbered, List.mem_flatten, List.mem_map, List.mem_range'_1]
  constructor
  · rintro ⟨_, ⟨index, hindex, rfl⟩, hpath⟩
    exact ⟨index, by omega, by omega, (List.mem_singleton.mp hpath).symm⟩
  · rintro ⟨index, hstart, hstop, rfl⟩
    exact ⟨_, ⟨index, by omega, rfl⟩, List.mem_singleton_self _⟩

/-- Names with different numbers are different. -/
theorem apart_numbered (hinj : ∀ i j, (name i).location = (name j).location → i = j) :
    Apart (numbered name start middle).flatten (numbered name middle stop).flatten := by
  intro left hleft right hright heq
  obtain ⟨i, _, hi, rfl⟩ := mem_flatten_numbered_iff.mp hleft
  obtain ⟨j, hj, _, rfl⟩ := mem_flatten_numbered_iff.mp hright
  have hsame := hinj i j heq
  omega

variable {γ σ ι : Type}

/-- A loop that makes numbered files: an index says how far it is, and how many files there are by
then. -/
theorem Meets.foldlM (hinj : ∀ i j, (name i).location = (name j).location → i = j)
    {count : ι → Nat} {advance : ι → γ → ι} {Inv : ι → σ → Scratch → Prop}
    {body : σ → γ → Method Scratch ε σ} {items : List γ}
    (hmono : ∀ index item, count index ≤ count (advance index item))
    (hbody : ∀ item ∈ items, ∀ index state before, Inv index state before →
      Meets (numbered name (count index) (count (advance index item)))
        (Inv (advance index item)) (body state item) before)
    {index : ι} {state : σ} {before : Scratch} (hinv : Inv index state before) :
    Meets (numbered name (count index) (count (items.foldl advance index)))
      (Inv (items.foldl advance index)) (items.foldlM body state) before := by
  have hfold : ∀ (items : List γ) (index : ι), count index ≤ count (items.foldl advance index) := by
    intro items
    induction items with
    | nil => exact fun _ => Nat.le_refl _
    | cons item items ih => exact fun index => (hmono index item).trans (ih _)
  induction items generalizing index state before with
  | nil =>
      rw [List.foldl_nil, numbered_self, List.foldlM_nil]
      exact Meets.pure hinv
  | cons item items ih =>
      rw [List.forall_mem_cons] at hbody
      rw [List.foldl_cons, List.foldlM_cons,
        ← numbered_append (hmono index item) (hfold items (advance index item))]
      apply (hbody.1 index state before hinv).bind (apart_numbered hinj)
      intro value middle _ hmiddle
      exact ih hbody.2 hmiddle

end Numbering

/-! ## What the end removes -/

/-- In the first group with a taken name, no file and no link is under a name of the group; a
directory cannot be removed. -/
def Safe (files : FileSystem) : List (List Path) → Prop
  | [] => True
  | group :: groups =>
      (∀ path ∈ group, files.entries path.location = none ∨
        files.entries path.location = some .directory) ∧
      ((∀ path ∈ group, files.entries path.location = none) → Safe files groups)

section Dropping

variable {base : FileSystem} {groups done : List (List Path)} {before after scratch : Scratch}
  {paths : List Path} {world : World}

/-- What is tracked behind free groups is safe. -/
theorem spared_of_safe {rest : List (List Path)} (hsafe : Safe base (done ++ rest))
    (hfree : ∀ path ∈ done.dropLast.flatten, base.entries path.location = none) :
    ∀ path ∈ done.flatten, base.entries path.location = none ∨
      base.entries path.location = some .directory := by
  induction done with
  | nil => nofun
  | cons group done ih =>
      obtain ⟨hgroup, hlater⟩ := hsafe
      intro path hpath
      rw [List.flatten_cons, List.mem_append] at hpath
      rcases hpath with hhead | htail
      · exact hgroup path hhead
      · have hne : done ≠ [] := by
          rintro rfl
          cases htail
        rw [List.dropLast_cons_of_ne_nil hne, List.flatten_cons] at hfree
        exact ih (hlater fun other hother => hfree other (List.mem_append_left _ hother))
          (fun other hother => hfree other (List.mem_append_right _ hother)) path htail

theorem safe_of_free {files : FileSystem} {groups : List (List Path)}
    (h : ∀ path ∈ groups.flatten, files.entries path.location = none) : Safe files groups := by
  induction groups with
  | nil => trivial
  | cons group groups ih =>
      rw [List.flatten_cons, List.forall_mem_append] at h
      exact ⟨fun path hpath => Or.inl (h.1 path hpath), fun _ => ih h.2⟩

/-- Where a group is not safe, the groups before the first taken one are free. -/
theorem exists_of_not_safe (h : ¬ Safe base groups) :
    ∃ earlier group rest path, groups = earlier ++ group :: rest ∧
      (∀ other ∈ earlier.flatten, base.entries other.location = none) ∧ path ∈ group ∧
      base.entries path.location ≠ none ∧ base.entries path.location ≠ some .directory := by
  induction groups with
  | nil => exact absurd trivial h
  | cons group groups ih =>
      by_cases hgroup : ∀ path ∈ group, base.entries path.location = none ∨
          base.entries path.location = some .directory
      · have hlater : ¬ ((∀ path ∈ group, base.entries path.location = none) →
            Safe base groups) := fun hlater => h ⟨hgroup, hlater⟩
        obtain ⟨hfree, hdanger⟩ := Classical.not_imp.mp hlater
        obtain ⟨earlier, first, rest, path, rfl, hearlier, hrest⟩ := ih hdanger
        refine ⟨group :: earlier, first, rest, path, rfl, ?_, hrest⟩
        intro other hother
        rw [List.flatten_cons, List.mem_append] at hother
        exact hother.elim (hfree other) (hearlier other)
      · simp only [not_forall, not_or] at hgroup
        obtain ⟨path, hpath, hnone, hdirectory⟩ := hgroup
        exact ⟨[], group, groups, path, rfl, nofun, hpath, hnone, hdirectory⟩

/-- Removing names that are free or of directories in the base keeps what the base has. -/
theorem drop_steps
    (hspared : ∀ path ∈ paths, base.entries path.location = none ∨
      base.entries path.location = some .directory)
    (hextends : base.Extends world.files) :
    world.Steps base.Extends (Scratch.drop ⟨paths, world⟩) := by
  induction paths generalizing world with
  | nil => exact .refl hextends
  | cons path paths ih =>
      have hremove : world.Steps base.Extends (world.removeFile path).2 := by
        rcases hspared path (List.mem_cons_self ..) with hfree | hdirectory
        · exact World.removeFile_steps hextends hfree
        · apply World.call_steps hextends fun _ => hextends
          intro value files hok
          rw [FileSystem.removeFile, hextends.entries _ _ hdirectory] at hok
          cases hok
      exact hremove.trans (ih (fun other hother => hspared other (List.mem_cons_of_mem _ hother))
        hremove.holds)

/-- A file under another name than the tracked ones is there at the end. -/
theorem holds_drop {destination : Path} {bytes : Bytes}
    (hholds : world.files.Holds destination.location bytes)
    (hapart : ∀ path ∈ paths, path.location ≠ destination.location) :
    (Scratch.drop ⟨paths, world⟩).files.Holds destination.location bytes := by
  induction paths generalizing world with
  | nil => exact hholds
  | cons path paths ih =>
      rw [List.forall_mem_cons] at hapart
      exact ih (World.holds_removeFile hholds hapart.1) hapart.2

/-- Without faults a tracked name that is not of a directory is gone at the end. -/
theorem gone_of_drop (hquiet : world.Quiet) {path : Path}
    (hgone : path ∈ paths ∨ world.files.entries path.location = none)
    (hentry : world.files.entries path.location ≠ some .directory) :
    (Scratch.drop ⟨paths, world⟩).files.entries path.location = none := by
  induction paths generalizing world with
  | nil =>
      rcases hgone with hmem | hnone
      · cases hmem
      · exact hnone
  | cons first paths ih =>
      have hfault : world.faults world.calls = none := hquiet _ (Nat.le_refl _)
      have hcalm : (world.removeFile first).2.Quiet := by
        unfold World.removeFile World.call
        rw [hfault]
        dsimp only
        split
        · exact hquiet.leave _
        · exact hquiet.leave _
      have hentries := @World.entries_removeFile world first path.location
      have hstill : (world.removeFile first).2.files.entries path.location ≠ some .directory := by
        rcases hentries with hkept | ⟨_, hnone, _⟩
        · rw [hkept]
          exact hentry
        · rw [hnone]
          nofun
      apply ih hcalm _ hstill
      rcases hentries with hkept | ⟨_, hnone, _⟩
      · rcases hgone with hmem | hnone
        · rcases List.mem_cons.mp hmem with rfl | hold
          · -- The name itself: a removal that is not refused removes it.
            cases hsome : world.files.entries path.location with
            | none => exact Or.inr (hkept.trans hsome)
            | some entry =>
                have hne : entry ≠ .directory := fun heq => hentry (by rw [hsome, heq])
                rw [World.removeFile_of_entry hfault hsome hne]
                exact Or.inr (Function.update_self _ _ _)
          · exact Or.inl hold
        · exact Or.inr (hkept.trans hnone)
      · exact Or.inr hnone

end Dropping

/-! ## A process that drops what it tracked -/

section Process

variable {groups : List (List Path)} {Post : α → Scratch → Prop} {method : Method Scratch ε α}
  {before after : Scratch}

/-- If the names are safe, a process that stops leaves everything that was there. -/
theorem Meets.steps_of_safe (h : Meets groups Post method before) (hpaths : before.paths = [])
    (hsafe : Safe before.world.files groups) {error : ε}
    (hcall : call before method = (.error error, after)) :
    before.world.Steps before.world.files.Extends after.drop := by
  obtain ⟨done, rest, rfl, hhalts⟩ := h.stops error after hcall
  have htracked : after.paths = done.flatten := by rw [hhalts.paths, hpaths, List.nil_append]
  apply (hhalts.steps.imp fun files hadds => hadds.keeps).trans
  rw [Scratch.drop, htracked]
  exact drop_steps (spared_of_safe hsafe hhalts.free) hhalts.steps.holds.keeps

/-- Two ways to cut a list before its first group of a kind are one. -/
theorem eq_of_first {γ : Type} {P : γ → Prop} {earlier earlier' rest rest' : List γ} {item item' : γ}
    (h : earlier ++ item :: rest = earlier' ++ item' :: rest') (hearlier : ∀ x ∈ earlier, ¬ P x)
    (hearlier' : ∀ x ∈ earlier', ¬ P x) (hitem : P item) (hitem' : P item') : item = item' := by
  induction earlier generalizing earlier' with
  | nil =>
      cases earlier' with
      | nil => exact (List.cons.inj h).1
      | cons first earlier' =>
          obtain rfl : item = first := (List.cons.inj h).1
          exact absurd hitem (hearlier' item (List.mem_cons_self ..))
  | cons first earlier ih =>
      cases earlier' with
      | nil =>
          obtain rfl : first = item' := (List.cons.inj h).1
          exact absurd hitem' (hearlier first (List.mem_cons_self ..))
      | cons first' earlier' =>
          apply ih (List.cons.inj h).2
          · exact fun x hx => hearlier x (List.mem_cons_of_mem _ hx)
          · exact fun x hx => hearlier' x (List.mem_cons_of_mem _ hx)

/-- If the names are not safe, a process without faults stops and removes a name that was there. -/
theorem Meets.removes_of_not_safe (h : Meets groups Post method before)
    (hquiet : before.world.Quiet) (hdanger : ¬ Safe before.world.files groups) :
    ∃ (error : ε) (after : Scratch) (path : Path) (entry : Entry),
      call before method = (.error error, after) ∧
      before.world.files.entries path.location = some entry ∧
      after.drop.files.entries path.location = none := by
  obtain ⟨earlier, group, rest, path, rfl, hearlier, hpath, htaken, hentry⟩ :=
    exists_of_not_safe hdanger
  obtain ⟨entry, hsome⟩ := Option.ne_none_iff_exists'.mp htaken
  rcases hcall : call before method with ⟨result, after⟩
  cases result with
  | ok value =>
      obtain ⟨hcompletes, _⟩ := h.completes value after hcall
      refine absurd (hcompletes.free path ?_) htaken
      exact List.mem_flatten.mpr ⟨group, List.mem_append_right _ (List.mem_cons_self ..), hpath⟩
  | error error =>
      obtain ⟨done, later, hgroups, hhalts⟩ := h.stops error after hcall
      obtain ⟨first, last, other, rfl, hother, hotherTaken⟩ := hhalts.taken hquiet
      have hfirst := hhalts.free
      rw [List.dropLast_concat] at hfirst
      -- Both cuts are before the first group with a taken name.
      obtain rfl : group = last := by
        apply @eq_of_first _ (fun group : List Path =>
          ∃ path ∈ group, before.world.files.entries path.location ≠ none) earlier first rest later
        · rw [hgroups, List.append_assoc]
          rfl
        · rintro group hgroup ⟨path, hpath, hnot⟩
          exact hnot (hearlier path (List.mem_flatten.mpr ⟨group, hgroup, hpath⟩))
        · rintro group hgroup ⟨path, hpath, hnot⟩
          exact hnot (hfirst path (List.mem_flatten.mpr ⟨group, hgroup, hpath⟩))
        · exact ⟨path, hpath, htaken⟩
        · exact ⟨other, hother, hotherTaken⟩
      have hkept := hhalts.steps.holds.keeps.entries _ _ hsome
      have htracked : path ∈ after.paths := by
        rw [hhalts.paths]
        apply List.mem_append_right
        exact List.mem_flatten.mpr ⟨group, List.mem_append_right _ (List.mem_singleton_self _), hpath⟩
      refine ⟨error, after, path, entry, rfl, hsome, ?_⟩
      apply gone_of_drop (hhalts.steps.quiet hquiet) (Or.inl htracked)
      rw [hkept, ← hsome]
      exact hentry

end Process

end Data
