/-
# The output of an index run

`pari index` builds its index under a staged name beside the output and links it to the output
only when it is complete. A failure before that removes the staged files, and one after it takes
the output back if it still is the file that was linked.
-/

import Pari.Store.Failures

namespace Pari.Cli

open Data Pari.Format Pari.Core Pari.Index Pari.Store

/-- The errors of an index run. The last one is the panic of a vector that cannot be as long as
it is asked to be. -/
inductive CliError
  | message (text : String)
  | io (error : IoError)
  | ioContext (context : String) (error : IoError)
  | store (error : StoreError)
  | line (number : Nat) (error : CliError)
  | cleanup (stagedPath : Path) (original : CliError) (cleanup : IoError)
  | recovery (original : CliError) (rollback cleanup : Option IoError)
  | capacityOverflow
  deriving DecidableEq, Repr

/-- The error is, or mentions, that of an I/O operation. -/
def CliError.IsIo : CliError → Prop
  | .io _ | .ioContext _ _ | .cleanup _ _ _ | .recovery _ _ _ => True
  | .store error => error.IsIo
  | .line _ error => error.IsIo
  | .message _ | .capacityOverflow => False

structure IndexOutputTransaction where
  finalPath : Path
  stagedPath : Path
  active : Bool

def removeFileIfExists (path : Path) (world : World) : Except IoError Unit × World :=
  match world.removeFile path with
  | (.ok (), world) => (.ok (), world)
  | (.error error, world) =>
      if error.kind = .notFound then (.ok (), world) else (.error error, world)

def storeTemporaryPath (path : Path) : Path where
  parent := path.parent
  fileName := path.fileName.map (· ++ ".tmp")

/-- `{path}.pari-cli-{process}-{nonce}.tmp`, hidden and beside the path. -/
def stagedName (fileName : String) (processId nonce : Nat) : String :=
  "." ++ fileName ++ ".pari-cli-" ++ toString processId ++ "-" ++ toString nonce ++ ".tmp"

def stagedPathFor (finalPath : Path) (fileName : String) (processId nonce : Nat) : Path where
  parent := finalPath.parent
  fileName := some (stagedName fileName processId nonce)

namespace IndexOutputTransaction

/-- The nonce is the time. -/
def begin (finalPath : Path) (nonce : Nat) (world : World) :
    Except CliError IndexOutputTransaction × World :=
  match world.symlinkMetadata finalPath with
  | (.ok _, world) =>
      (.error (.io (.custom .alreadyExists
        ("index path " ++ displayPath finalPath ++ " already exists"))), world)
  | (.error error, world) =>
      if error.kind = .notFound then
        match finalPath.fileName with
        | none => (.error (.message "index output must identify a file"), world)
        | some fileName =>
            (.ok {
              finalPath
              stagedPath := stagedPathFor finalPath fileName world.processId nonce
              active := true }, world)
      else (.error (.io error), world)

/-- Both removals are tried; the first error counts. -/
def removeStagedFiles (transaction : IndexOutputTransaction) (world : World) :
    Except IoError Unit × IndexOutputTransaction × World :=
  let (first, world) := removeFileIfExists transaction.stagedPath world
  let (second, world) := removeFileIfExists (storeTemporaryPath transaction.stagedPath) world
  match first, second with
  | .error error, _ => (.error error, transaction, world)
  | .ok (), .error error => (.error error, transaction, world)
  | .ok (), .ok () => (.ok (), { transaction with active := false }, world)

/-- Going out of scope. -/
def drop (transaction : IndexOutputTransaction) (world : World) : World :=
  if transaction.active then (transaction.removeStagedFiles world).2.2 else world

def abort (transaction : IndexOutputTransaction) (original : CliError) (world : World) :
    CliError × World :=
  match transaction.removeStagedFiles world with
  | (.ok (), transaction, world) => (original, transaction.drop world)
  | (.error cleanup, transaction, world) =>
      (.cleanup transaction.stagedPath original cleanup, transaction.drop world)

/-- Take the output back if it still refers to the linked file. -/
def rollbackFinal (transaction : IndexOutputTransaction) (identity : Handle) (world : World) :
    Except IoError Unit × World :=
  match world.handleFromPath transaction.finalPath with
  | (.error error, world) =>
      if error.kind = .notFound then (.ok (), world) else (.error error, world)
  | (.ok current, world) =>
      if current ≠ identity then (.ok (), world)
      else
        match world.removeFile transaction.finalPath with
        | (.error error, world) => (.error error, world)
        | (.ok (), world) => syncParentDirectory transaction.finalPath world

def errorOf : Except IoError Unit → Option IoError
  | .ok () => none
  | .error error => some error

def recoverAfterPublication (transaction : IndexOutputTransaction) (identity : Handle)
    (original : CliError) (world : World) : CliError × World :=
  let (rollback, world) := transaction.rollbackFinal identity world
  let (cleanup, transaction, world) := transaction.removeStagedFiles world
  let error :=
    match rollback, cleanup with
    | .ok (), .ok () => original
    | _, _ => .recovery original (errorOf rollback) (errorOf cleanup)
  (error, transaction.drop world)

def publish (transaction : IndexOutputTransaction) (world : World) : Except CliError Unit × World :=
  match world.handleFromPath transaction.stagedPath with
  | (.error error, world) =>
      let (error, world) := transaction.abort (.io error) world
      (.error error, world)
  | (.ok identity, world) =>
      match world.hardLink transaction.stagedPath transaction.finalPath with
      | (.error error, world) =>
          let (error, world) := transaction.abort (.ioContext
            ("failed to publish index " ++ displayPath transaction.finalPath ++
              " without replacement: ") error) world
          (.error error, world)
      | (.ok (), world) =>
          match world.removeFile transaction.stagedPath with
          | (.error error, world) =>
              let (error, world) := transaction.recoverAfterPublication identity (.ioContext
                ("failed to remove staged index " ++ displayPath transaction.stagedPath ++
                  " after publication: ") error) world
              (.error error, world)
          | (.ok (), world) =>
              match removeFileIfExists (storeTemporaryPath transaction.stagedPath) world with
              | (.error error, world) =>
                  let (error, world) := transaction.recoverAfterPublication identity (.ioContext
                    "failed to remove staged index companion after publication: " error) world
                  (.error error, world)
              | (.ok (), world) =>
                  match syncParentDirectory transaction.finalPath world with
                  | (.error error, world) =>
                      let (error, world) := transaction.recoverAfterPublication identity (.ioContext
                        ("failed to sync index output directory after publishing " ++
                          displayPath transaction.finalPath ++ ": ") error) world
                      (.error error, world)
                  | (.ok (), world) => (.ok (), { transaction with active := false }.drop world)

end IndexOutputTransaction

/-! ## What a transaction does -/

section Transactions

variable {transaction : IndexOutputTransaction} {world world' : World} {bytes : Bytes}

/-- Where a transaction can begin, and what it is then. -/
theorem begin_spec {finalPath : Path} {nonce : Nat} {result : Except CliError IndexOutputTransaction}
    (h : IndexOutputTransaction.begin finalPath nonce world = (result, world')) :
    (∀ transaction, result = .ok transaction → ∃ fileName, finalPath.fileName = some fileName ∧
      transaction.finalPath = finalPath ∧
      transaction.stagedPath = stagedPathFor finalPath fileName world'.processId nonce) ∧
    ∀ error, result = .error error → error.IsIo ∨ finalPath.fileName = none := by
  unfold IndexOutputTransaction.begin at h
  split at h
  · cases h
    exact ⟨nofun, fun error herror => by cases herror; exact Or.inl trivial⟩
  split at h
  · split at h
    · next hname =>
        cases h
        exact ⟨nofun, fun _ _ => Or.inr hname⟩
    · next fileName hname =>
        cases h
        refine ⟨fun transaction hok => ?_, nofun⟩
        cases hok
        exact ⟨fileName, hname, rfl, rfl⟩
  · cases h
    exact ⟨nofun, fun error herror => by cases herror; exact Or.inl trivial⟩

/-- The companion of a staged file is not the output: its name is longer. -/
theorem companion_ne_final {finalPath : Path} {fileName : String} {processId nonce : Nat}
    (hname : finalPath.fileName = some fileName) :
    (storeTemporaryPath (stagedPathFor finalPath fileName processId nonce)).location ≠
      finalPath.location := by
  intro heq
  have hsame : some (stagedName fileName processId nonce ++ ".tmp") = some fileName :=
    (congrArg Prod.snd heq).trans hname
  have hlength := congrArg String.length (Option.some.inj hsame)
  simp only [stagedName, String.length_append] at hlength
  have hdot : ".".length = 1 := rfl
  omega

end Transactions

end Pari.Cli
