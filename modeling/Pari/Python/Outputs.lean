/-
# Staged outputs of a workload

A workload's output paths are redirected to staging names beside them. On leaving, the staged
files are linked to the paths, which must be free, and the staging names removed; a failure at
any step removes the staging names and takes back the links already made, unless another file
has taken their place.
-/

import Mathlib.Data.List.Infix
import Pari.Data.Interference

namespace Pari.Python

open Data

/-! ## Paths and errors -/

/-- Attributes holding paths or `None`. -/
abbrev Namespace := String → Option Path

/-- An attribute with its entries in `_original` and `_staged`. -/
structure StagedOutput where
  attr : String
  original : Path
  staged : Path
  deriving DecidableEq

abbrev StagedOutputs := List StagedOutput

inductive OutputsError (ε : Type)
  | raised (error : ε)
  | emptyName
  | outputsNotDistinct
  | existingOutputs (paths : List Location)
  | missingStages (paths : List Path)
  | notRegular
  | os (location : Location) (error : IoError)
  | cleanup (errors : List (Path × IoError)) (original : OutputsError ε)

/-- The errors a failed cleanup tells of. -/
def OutputsError.cleanupErrors {ε : Type} : OutputsError ε → List (Path × IoError)
  | .cleanup errors _ => errors
  | _ => []

/-- `.{name}.pari-workload-{nonce}.tmp` -/
def stageName (name nonce : String) : String :=
  "." ++ name ++ ".pari-workload-" ++ nonce ++ ".tmp"

def stageFor (final : Path) (name nonce : String) : Path where
  parent := final.parent
  fileName := some (stageName name nonce)

/-- `{path}.tmp` -/
def companion (path : Path) : Path where
  parent := path.parent
  fileName := path.fileName.map (· ++ ".tmp")

/-! ## System calls -/

/-- `path.resolve()` as far as the links go. -/
def realpath (files : FileSystem) : Nat → Location → Option Location
  | 0, _ => none
  | links + 1, location =>
      match files.entries location with
      | some (.symlink target) => realpath files links target
      | some (.file _) | some .directory | none => some location

def resolve (path : Path) (world : World) : Except IoError Location × World :=
  world.call fun files =>
    match realpath files FileSystem.maxLinks path.location with
    | none => .error .other
    | some location => .ok (location, files)

/-- `os.stat(path)`, which follows links. -/
def stat (location : Location) (world : World) : Except IoError Unit × World :=
  world.call fun files =>
    match files.lookup location with
    | none => .error .notFound
    | some _ => .ok ((), files)

/-- `path.exists()`: an error other than that of a missing name is raised. -/
def existsAt (location : Location) (world : World) : Except IoError Bool × World :=
  match stat location world with
  | (.ok (), world) => (.ok true, world)
  | (.error error, world) =>
      if error.kind = .notFound then (.ok false, world) else (.error error, world)

/-- `path.stat(follow_symlinks=False)` -/
def lstat (path : Path) (world : World) : Except IoError Entry × World :=
  world.call fun files =>
    match files.entries path.location with
    | none => .error .notFound
    | some entry => .ok (entry, files)

def isRegular : Entry → Bool
  | .file _ => true
  | .symlink _ | .directory => false

namespace StagedOutputs

variable {ε : Type}

/-! ## Staging -/

/-- `__init__`: a repeated attribute finds its paths set. -/
def init (names : Namespace) (nonce : String) :
    List String → StagedOutputs → Except (OutputsError ε) StagedOutputs
  | [], outputs => .ok outputs
  | attr :: attributes, outputs =>
      match names attr with
      | none => init names nonce attributes outputs
      | some final =>
          match final.fileName with
          | none => .error .emptyName
          | some name =>
              if attr ∈ outputs.map (·.attr) then init names nonce attributes outputs
              else init names nonce attributes (outputs ++ [{
                attr
                original := final
                staged := stageFor final name nonce }])

def resolveAll : List Path → World → Except (OutputsError ε) (List Location) × World
  | [], world => (.ok [], world)
  | path :: paths, world =>
      match resolve path world with
      | (.error error, world) => (.error (.os path.location error), world)
      | (.ok location, world) =>
          match resolveAll paths world with
          | (.error error, world) => (.error error, world)
          | (.ok locations, world) => (.ok (location :: locations), world)

def existingOf : List Location → World → Except (OutputsError ε) (List Location) × World
  | [], world => (.ok [], world)
  | location :: locations, world =>
      match existsAt location world with
      | (.error error, world) => (.error (.os location error), world)
      | (.ok found, world) =>
          match existingOf locations world with
          | (.error error, world) => (.error error, world)
          | (.ok existing, world) =>
              (.ok (if found then location :: existing else existing), world)

def makeParents : List Path → World → Except (OutputsError ε) Unit × World
  | [], world => (.ok (), world)
  | path :: paths, world =>
      match world.createDirAll path.directory with
      | (.error error, world) => (.error (.os path.location error), world)
      | (.ok (), world) => makeParents paths world

def redirect (outputs : StagedOutputs) (names : Namespace) : Namespace :=
  outputs.foldl (fun names output =>
    Function.update names output.attr (some output.staged)) names

/-- `__enter__` -/
def enter (outputs : StagedOutputs) (names : Namespace) (world : World) :
    Except (OutputsError ε) Namespace × World :=
  match resolveAll (outputs.map (·.original)) world with
  | (.error error, world) => (.error error, world)
  | (.ok finals, world) =>
      if finals.Nodup then
        match existingOf finals world with
        | (.error error, world) => (.error error, world)
        | (.ok existing, world) =>
            if existing = [] then
              match makeParents (outputs.map (·.original)) world with
              | (.error error, world) => (.error error, world)
              | (.ok (), world) => (.ok (redirect outputs names), world)
            else (.error (.existingOutputs existing), world)
      else (.error .outputsNotDistinct, world)

/-! ## Leaving -/

def restore (outputs : StagedOutputs) (names : Namespace) : Namespace :=
  outputs.foldl (fun names output =>
    Function.update names output.attr (some output.original)) names

/-- Device and inode: of a regular file its entry, and no other entry is equal to that. -/
def identity (others : Others) (path : Path) (requireRegular : Bool) (world : World) :
    Except (OutputsError ε) Entry × World :=
  match lstat path (world.met others) with
  | (.error error, world) => (.error (.os path.location error), world)
  | (.ok current, world) =>
      if requireRegular && !isRegular current then (.error .notRegular, world)
      else (.ok current, world)

def missingStages (others : Others) : List Path → World →
    Except (OutputsError ε) (List Path) × World
  | [], world => (.ok [], world)
  | path :: paths, world =>
      match existsAt path.location (world.met others) with
      | (.error error, world) => (.error (.os path.location error), world)
      | (.ok found, world) =>
          match missingStages others paths world with
          | (.error error, world) => (.error error, world)
          | (.ok missing, world) => (.ok (if found then missing else path :: missing), world)

/-- The links made are known even if a later one fails. -/
def linkStages (others : Others) : StagedOutputs → List (Path × Entry) → World →
    (Except (OutputsError ε) Unit × List (Path × Entry)) × World
  | [], published, world => ((.ok (), published), world)
  | output :: outputs, published, world =>
      match identity others output.staged true world with
      | (.error error, world) => ((.error error, published), world)
      | (.ok identity, world) =>
          match (world.met others).hardLink output.staged output.original with
          | (.error error, world) => ((.error (.os output.original.location error), published), world)
          | (.ok (), world) =>
              linkStages others outputs (published ++ [(output.original, identity)]) world

def unlinkStages (others : Others) : List Path → World → Except (OutputsError ε) Unit × World
  | [], world => (.ok (), world)
  | path :: paths, world =>
      match (world.met others).removeFile path with
      | (.error error, world) => (.error (.os path.location error), world)
      | (.ok (), world) => unlinkStages others paths world

/-- The body of the `try`. -/
def publish (others : Others) (outputs : StagedOutputs) (world : World) :
    (Except (OutputsError ε) Unit × List (Path × Entry)) × World :=
  match missingStages others (outputs.map (·.staged)) world with
  | (.error error, world) => ((.error error, []), world)
  | (.ok missing, world) =>
      if missing ≠ [] then ((.error (.missingStages missing), []), world)
      else
        match linkStages others outputs [] world with
        | ((.error error, published), world) => ((.error error, published), world)
        | ((.ok (), published), world) =>
            let (result, world) := unlinkStages others (outputs.map (·.staged)) world
            ((result, published), world)

/-- Every call of a list is tried; the failures are kept with their paths. -/
def tryEach {α : Type} (pathOf : α → Path) (run : α → World → Except IoError Unit × World) :
    List α → World → List (Path × IoError) × World
  | [], world => ([], world)
  | item :: items, world =>
      let (result, world) := run item world
      let (errors, world) := tryEach pathOf run items world
      match result with
      | .ok () => (errors, world)
      | .error error => ((pathOf item, error) :: errors, world)

/-- Remove a link if the file is still there. -/
def takeBack (others : Others) (published : Path × Entry) (world : World) :
    Except IoError Unit × World :=
  match lstat published.1 (world.met others) with
  | (.error error, world) =>
      if error.kind = .notFound then (.ok (), world) else (.error error, world)
  | (.ok current, world) =>
      if current = published.2 then (world.met others).removeIfExists published.1
      else (.ok (), world)

def targets (outputs : StagedOutputs) : List Path :=
  outputs.map (·.staged) ++ outputs.map (companion ·.staged)

/-- `_cleanup`: the error to raise. -/
def cleanup (others : Others) (outputs : StagedOutputs) (original : OutputsError ε)
    (published : List (Path × Entry)) (world : World) : OutputsError ε × World :=
  let (errors, world) := tryEach id (fun path world => (world.met others).removeIfExists path)
    (targets outputs) world
  let (more, world) := tryEach Prod.fst (takeBack others) published world
  if errors ++ more = [] then (original, world) else (.cleanup (errors ++ more) original, world)

/-- `__exit__`: with the exception of the body, if it raised one. -/
def exit (others : Others) (outputs : StagedOutputs) (raised : Option ε) (names : Namespace)
    (world : World) : Except (OutputsError ε) Unit × Namespace × World :=
  match raised with
  | some error =>
      let (error, world) := cleanup others outputs (.raised error) [] world
      (.error error, restore outputs names, world)
  | none =>
      match publish others outputs world with
      | ((.ok (), _), world) => (.ok (), restore outputs names, world)
      | ((.error error, published), world) =>
          let (error, world) := cleanup others outputs error published world
          (.error error, restore outputs names, world)

end StagedOutputs

end Pari.Python
