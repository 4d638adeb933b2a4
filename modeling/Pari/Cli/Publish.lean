/-
# Publishing in the presence of other processes

`pari index` links its staged file to the output, removes the staged name and its companion and
syncs the directory; the last three are parameters, since another process may act during them.
All four publications only take back what they linked, as long as no symbolic link to their file
misleads the three that follow links; the store's looks at the output itself.
-/

import Pari.Build.Publish
import Pari.Cli.Transaction
import Pari.Lazy.Publish
import Pari.Store.Publish

namespace Pari.Cli

open Data Pari.Store

namespace IndexOutputTransaction

/-- `publish_with`, and with the removal of the companion as a parameter, too. -/
def publishWith (transaction : IndexOutputTransaction)
    (removeStaged removeCompanion syncParent : PathCall) (world : World) :
    Except CliError Unit × World :=
  match world.handleFromPath transaction.stagedPath with
  | (.error error, world) =>
      let (error, world) := transaction.abort (.io error) world
      (.error error, world)
  | (.ok identity, world) =>
      match world.hardLink transaction.stagedPath transaction.finalPath with
      | (.error error, world) =>
          let (error, world) := transaction.abort (.ioContext
            ("failed to publish index " ++ displayPath transaction.finalPath ++
              " without replacement: ") error) world
          (.error error, world)
      | (.ok (), world) =>
          match removeStaged transaction.stagedPath world with
          | (.error error, world) =>
              let (error, world) := transaction.recoverAfterPublication identity (.ioContext
                ("failed to remove staged index " ++ displayPath transaction.stagedPath ++
                  " after publication: ") error) world
              (.error error, world)
          | (.ok (), world) =>
              match removeCompanion (storeTemporaryPath transaction.stagedPath) world with
              | (.error error, world) =>
                  let (error, world) := transaction.recoverAfterPublication identity (.ioContext
                    "failed to remove staged index companion after publication: " error) world
                  (.error error, world)
              | (.ok (), world) =>
                  match syncParent transaction.finalPath world with
                  | (.error error, world) =>
                      let (error, world) := transaction.recoverAfterPublication identity (.ioContext
                        ("failed to sync index output directory after publishing " ++
                          displayPath transaction.finalPath ++ ": ") error) world
                      (.error error, world)
                  | (.ok (), world) => (.ok (), { transaction with active := false }.drop world)

/-- Publication with the calls of the file system. -/
theorem publish_eq (transaction : IndexOutputTransaction) :
    transaction.publish = transaction.publishWith (fun path world => world.removeFile path)
      removeFileIfExists syncParentDirectory := rfl

/-- What an index run does before the link, and between the link and a rollback. -/
def plan (transaction : IndexOutputTransaction)
    (removeStaged removeCompanion syncParent : PathCall) : LinkPlan where
  staged := transaction.stagedPath
  destination := transaction.finalPath
  identify := fun world =>
    match world.handleFromPath transaction.stagedPath with
    | (.error _, _) => none
    | (.ok identity, world) => some (identity, world)
  proceed := World.thenCall (removeStaged transaction.stagedPath)
    (World.thenCall (removeCompanion (storeTemporaryPath transaction.stagedPath))
      (syncParent transaction.finalPath))

end IndexOutputTransaction

section Taking

variable {transaction : IndexOutputTransaction} {world : World}
  {removeStaged removeCompanion syncParent : PathCall}

theorem rollbackFinal_eq (identity : Handle) :
    transaction.rollbackFinal identity = World.rollbackLinked transaction.finalPath identity := rfl

/-- The names of a transaction differ from its output. -/
structure NamesApart (transaction : IndexOutputTransaction) : Prop where
  staged : transaction.stagedPath.location ≠ transaction.finalPath.location
  companion : (storeTemporaryPath transaction.stagedPath).location ≠
    transaction.finalPath.location

theorem namesApart_of_begin {finalPath : Path} {nonce : Nat} {before after : World}
    (h : IndexOutputTransaction.begin finalPath nonce before = (.ok transaction, after)) :
    NamesApart transaction := by
  obtain ⟨fileName, hname, hfinal, hstaged⟩ := (begin_spec h).1 transaction rfl
  refine ⟨?_, ?_⟩
  · rw [hstaged, hfinal]
    intro heq
    have hsame : some (stagedName fileName after.processId nonce) = some fileName :=
      (congrArg Prod.snd heq).trans hname
    have hlength := congrArg String.length (Option.some.inj hsame)
    simp only [stagedName, String.length_append] at hlength
    have hdot : ".".length = 1 := rfl
    omega
  · rw [hstaged, hfinal]
    exact companion_ne_final hname

/-- Removing the staged files leaves the output alone. -/
theorem entries_removeStagedFiles (h : NamesApart transaction) :
    (transaction.removeStagedFiles world).2.2.files.entries transaction.finalPath.location =
        world.files.entries transaction.finalPath.location ∧
      (transaction.removeStagedFiles world).2.1.stagedPath = transaction.stagedPath ∧
      (transaction.removeStagedFiles world).2.1.finalPath = transaction.finalPath := by
  have hfirst := @World.entries_removeIfExists world transaction.stagedPath _ h.staged
  have hsecond := @World.entries_removeIfExists
    (removeFileIfExists transaction.stagedPath world).2 _ _ h.companion
  unfold IndexOutputTransaction.removeStagedFiles
  dsimp only
  split <;> exact ⟨hsecond.trans hfirst, rfl, rfl⟩

theorem entries_drop (h : NamesApart transaction) :
    (transaction.drop world).files.entries transaction.finalPath.location =
      world.files.entries transaction.finalPath.location := by
  unfold IndexOutputTransaction.drop
  split
  · exact (entries_removeStagedFiles h).1
  · rfl

/-- Removing the staged files and going out of scope. -/
theorem entries_drop_removeStagedFiles (h : NamesApart transaction) :
    ((transaction.removeStagedFiles world).2.1.drop
        (transaction.removeStagedFiles world).2.2).files.entries transaction.finalPath.location =
      world.files.entries transaction.finalPath.location := by
  obtain ⟨hkept, hstaged, hfinal⟩ := @entries_removeStagedFiles transaction world h
  have hdrop := @entries_drop (transaction.removeStagedFiles world).2.1
    (transaction.removeStagedFiles world).2.2
    ⟨by rw [hstaged, hfinal]; exact h.staged, by rw [hstaged, hfinal]; exact h.companion⟩
  rw [hfinal] at hdrop
  exact hdrop.trans hkept

theorem entries_abort (h : NamesApart transaction) {original : CliError} :
    (transaction.abort original world).2.files.entries transaction.finalPath.location =
      world.files.entries transaction.finalPath.location := by
  have hkept := @entries_drop_removeStagedFiles transaction world h
  unfold IndexOutputTransaction.abort
  split
  all_goals
    next hremove =>
      rw [hremove] at hkept
      exact hkept

theorem entries_recoverAfterPublication (h : NamesApart transaction) {identity : Handle}
    (original : CliError) :
    (transaction.recoverAfterPublication identity original world).2.files.entries
        transaction.finalPath.location =
      (world.rollbackLinked transaction.finalPath identity).2.files.entries
        transaction.finalPath.location := by
  unfold IndexOutputTransaction.recoverAfterPublication
  exact entries_drop_removeStagedFiles h

/-- The publication of an index run is careful exactly if no link misleads its rollback. -/
theorem careful_publishWith_iff (h : NamesApart transaction) :
    (transaction.plan removeStaged removeCompanion syncParent).Careful
        (transaction.publishWith removeStaged removeCompanion syncParent) world ↔
      ¬ (transaction.plan removeStaged removeCompanion syncParent).Misled world := by
  have hidentify (identity : Handle) (identified : World) :
      (transaction.plan removeStaged removeCompanion syncParent).identify world =
          some (identity, identified) ↔
        world.handleFromPath transaction.stagedPath = (.ok identity, identified) := by
    dsimp only [IndexOutputTransaction.plan]
    split
    · next hhandle =>
        rw [hhandle]
        exact ⟨nofun, nofun⟩
    · next hhandle =>
        rw [hhandle]
        simp
  apply LinkPlan.careful_iff_of_following
  · intro hunlinked
    unfold IndexOutputTransaction.publishWith
    rcases hhandle : world.handleFromPath transaction.stagedPath with ⟨handling, identified⟩
    cases handling with
    | error error =>
        refine ⟨nofun, (entries_abort h).trans ?_⟩
        rw [(World.look_of_error hhandle).holds]
        rfl
    | ok identity =>
        dsimp only
        rcases hlink : identified.hardLink transaction.stagedPath transaction.finalPath with
          ⟨linking, linked⟩
        cases linking with
        | ok value =>
            exact absurd ⟨identity, identified, linked, (hidentify _ _).mpr hhandle, hlink⟩ hunlinked
        | error error =>
            refine ⟨nofun, (entries_abort h).trans ?_⟩
            rw [(World.look_of_error hlink).holds, (World.handleFromPath_eq_ok hhandle).2]
            rfl
  · intro identity identified hidentified
    exact (World.handleFromPath_eq_ok ((hidentify _ _).mp hidentified)).2
  · rintro identity interfered ⟨identified, linked, error, hidentified, hlink, hproceed⟩
    rw [hidentify] at hidentified
    dsimp only [IndexOutputTransaction.plan] at hlink hproceed ⊢
    unfold IndexOutputTransaction.publishWith
    rw [hidentified]
    dsimp only
    rw [hlink]
    dsimp only
    rcases World.thenCall_eq_error hproceed with hremove | ⟨removed, hremove, hrest⟩
    · rw [hremove]
      exact entries_recoverAfterPublication h (.io error)
    · rw [hremove]
      dsimp only
      rcases World.thenCall_eq_error hrest with hcompanion | ⟨next, hcompanion, hsync⟩
      · rw [hcompanion]
        exact entries_recoverAfterPublication h (.io error)
      · rw [hcompanion]
        dsimp only
        rw [hsync]
        exact entries_recoverAfterPublication h (.io error)

end Taking

/-! ## All publications -/

/-- On success every publication has linked the staged file to a name that did not exist. On
failure the store's takes back only its own file, whatever other processes put in its place; the
others do so exactly if no symbolic link to their file misleads their rollback. -/
theorem publications_careful_iff (world : World) :
    (∀ (temporary : OwnedTemporaryFile) (target : Path) (removeTemporary syncDirectory : PathCall),
      (temporary.plan target removeTemporary syncDirectory).Careful
        (temporary.publishNoReplaceWith target removeTemporary syncDirectory) world) ∧
    (∀ (temporary destination : Path) (identity : Handle) (removeFile syncParent : PathCall),
      (Lazy.temporaryPlan temporary destination identity removeFile syncParent).Careful
          (Lazy.publishTemporaryWith temporary destination identity removeFile syncParent) world ↔
        ¬ (Lazy.temporaryPlan temporary destination identity removeFile syncParent).Misled world) ∧
    (∀ (temporary destination : Path) (removeTemporary syncDirectory : PathCall),
      (Build.finalPlan temporary destination removeTemporary syncDirectory).Careful
          (Build.publishNoReplaceWith temporary destination removeTemporary syncDirectory) world ↔
        ¬ (Build.finalPlan temporary destination removeTemporary syncDirectory).Misled world) ∧
    ∀ (finalPath : Path) (nonce : Nat) (before after : World)
      (transaction : IndexOutputTransaction) (removeStaged removeCompanion syncParent : PathCall),
      IndexOutputTransaction.begin finalPath nonce before = (.ok transaction, after) →
        ((transaction.plan removeStaged removeCompanion syncParent).Careful
            (transaction.publishWith removeStaged removeCompanion syncParent) world ↔
          ¬ (transaction.plan removeStaged removeCompanion syncParent).Misled world) :=
  ⟨fun _ _ _ _ => careful_publishNoReplaceWith,
    fun _ _ _ _ _ => Lazy.careful_publishTemporaryWith_iff,
    fun _ _ _ _ => Build.careful_publishNoReplaceWith_iff,
    fun _ _ _ _ _ _ _ _ hbegin => careful_publishWith_iff (namesApart_of_begin hbegin)⟩

section Samples

def samplePath : Path where
  parent := "out"
  fileName := some "pari.idx"

def sampleTemporary : Path where
  parent := "out"
  fileName := some ".pari.idx.tmp"

theorem not_allocated (_ : Location) (inode : Nat) (h : (none : Option Entry) = some (.file inode)) :
    inode < 0 := by
  cases h

def emptyFiles : FileSystem where
  entries := fun _ => none
  contents := fun _ => []
  nextInode := 0
  allocated := not_allocated

/-- A process without faults on a file system. -/
def quietWorld (files : FileSystem) : World where
  files
  faults := fun _ => none
  calls := 0
  counter := 0
  processId := 1
  history := []

/-- Removing the temporary name fails, and another process puts a symbolic link to it in the
place of the destination. -/
def misleadingRemoval : PathCall := fun path world =>
  (.error (.os .other), { world with
    files := world.files.setEntry samplePath.location (some (.symlink path.location)) (by simp) })

/-- A foreign symbolic link to the temporary file is removed. -/
theorem foreign_link_removed :
    ¬ ∀ (temporary destination : Path) (identity : Handle) (removeFile syncParent : PathCall)
      (world : World),
      (Lazy.temporaryPlan temporary destination identity removeFile syncParent).Careful
        (Lazy.publishTemporaryWith temporary destination identity removeFile syncParent) world := by
  intro hclaim
  let files := emptyFiles.staged sampleTemporary.location [1]
  have hcareful := hclaim sampleTemporary samplePath (.file 0) misleadingRemoval
    (fun _ world => (.ok (), world)) (quietWorld files)
  rw [Lazy.careful_publishTemporaryWith_iff] at hcareful
  have hentry : files.entries sampleTemporary.location = some (.file 0) :=
    FileSystem.entries_staged_self
  obtain ⟨linked, hlink, hlinked⟩ := FileSystem.exists_hardLink hentry
    (show files.entries samplePath.location = none from rfl)
  have hcall : (quietWorld files).hardLink sampleTemporary samplePath =
      (.ok (), (quietWorld files).leave linked) :=
    World.call_of_quiet (fun _ _ => rfl) (by
      rw [show (quietWorld files).files = files from rfl, hlink]
      rfl)
  have hstaged : linked.entries sampleTemporary.location = some (.file 0) := by
    rw [hlinked]
    exact hentry
  have hlinkEntry : ((misleadingRemoval sampleTemporary
      ((quietWorld files).leave linked)).2.files.entries samplePath.location) =
        some (.symlink sampleTemporary.location) :=
    @Function.update_self Location (fun _ => Option Entry) _ samplePath.location
      (some (.symlink sampleTemporary.location)) linked.entries
  apply hcareful
  refine ⟨.file 0, (misleadingRemoval sampleTemporary ((quietWorld files).leave linked)).2,
    ⟨_, _, .os .other, rfl, hcall, rfl⟩, ⟨sampleTemporary.location, ?_⟩, ?_, rfl, rfl⟩
  · exact hlinkEntry
  · show FileSystem.resolve _ 40 samplePath.location = some (.file 0)
    rw [FileSystem.resolve, hlinkEntry]
    dsimp only
    rw [FileSystem.resolve, show (misleadingRemoval sampleTemporary
      ((quietWorld files).leave linked)).2.files.entries sampleTemporary.location =
        some (.file 0) from hstaged]

/-- An index run begun beside nothing. -/
theorem publications_careful_sample :
    ∃ transaction after,
      IndexOutputTransaction.begin samplePath 5 (quietWorld emptyFiles) = (.ok transaction, after) ∧
      ((transaction.plan (fun path world => world.removeFile path) removeFileIfExists
          syncParentDirectory).Careful transaction.publish after ↔
        ¬ (transaction.plan (fun path world => world.removeFile path) removeFileIfExists
          syncParentDirectory).Misled after) :=
  ⟨_, _, rfl, (publications_careful_iff _).2.2.2 samplePath 5 (quietWorld emptyFiles) _ _ _ _ _ rfl⟩

end Samples

end Pari.Cli
