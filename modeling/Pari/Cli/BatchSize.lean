/-
# The batch size of an index run

How many records a run commits at a time decides neither whether it succeeds nor what it
publishes. A run stops where a batch repeats a key or where the rows so far have no snapshot,
and then the whole list repeats a key or has no snapshot. A run that gets through has stored
the whole list, whatever commits it made on the way.
-/

import Pari.Cli.Index

namespace Pari.Cli

open Data Pari.Format Pari.Core Pari.Index Pari.Store

variable {scheme : SignatureScheme}

/-! ## What a list of records comes to -/

/-- The keys and sketches of an input, if no line is bad. -/
def itemsOf (sketchOf : Record → Except CliError (MinHash scheme)) :
    List InputLine → Option (List (UInt64 × MinHash scheme))
  | [] => some []
  | .blank :: lines => itemsOf sketchOf lines
  | .json (.ok record) :: lines =>
      match sketchOf record with
      | .ok sketch => (itemsOf sketchOf lines).map ((record.key, sketch) :: ·)
      | .error _ => none
  | .json (.error _) :: _ => none
  | .unreadable _ :: _ => none

/-- An index that holds the items; where it lies does not matter to its snapshot. -/
def loadedStore (config : LshConfig) (items : List (UInt64 × MinHash scheme)) :
    PersistentIndexCore scheme :=
  { PersistentIndexCore.empty scheme ⟨"", none⟩ config with
    keyHashes := (config.rowsOf items).foldl (fun keyHashes item => keyHashes.insert item.1 item.2) ∅ }

/-- Items that an index can store and commit. -/
structure Storable (crc : Checksum) (config : LshConfig) (items : List (UInt64 × MinHash scheme)) :
    Prop where
  distinct : (items.map Prod.fst).Nodup
  compatible : ∀ item ∈ items, config.Compatible item.2
  encodes : succeeds ((loadedStore config items).encodeSnapshot crc)

/-- A list that can be stored, and its snapshot under a path. -/
def Stored (crc : Checksum) (config : LshConfig) (path : Path)
    (items : List (UInt64 × MinHash scheme)) (files : FileSystem) : Prop :=
  Storable crc config items ∧ ∃ bytes,
    (loadedStore config items).encodeSnapshot crc = .ok bytes ∧ files.Holds path.location bytes

section Items

variable {crc : Checksum} {config : LshConfig} {items more : List (UInt64 × MinHash scheme)}

theorem rowsOfMap_foldl_insert (rows : List (UInt64 × List UInt64))
    (keyHashes : OrderedMap UInt64 (List UInt64)) :
    rowsOfMap (rows.foldl (fun keyHashes item => keyHashes.insert item.1 item.2) keyHashes) =
      insertRows (rowsOfMap keyHashes) rows := by
  induction rows generalizing keyHashes with
  | nil => rfl
  | cons row rows ih => rw [List.foldl_cons, ih, rowsOfMap_insert, insertRows_cons]

theorem liveRows_loadedStore (config : LshConfig) (items : List (UInt64 × MinHash scheme)) :
    (loadedStore config items).liveRows = insertRows (fun _ => none) (config.rowsOf items) := by
  rw [← rowsOfMap_empty]
  exact rowsOfMap_foldl_insert _ _

theorem rowsOf_append (config : LshConfig) (items more : List (UInt64 × MinHash scheme)) :
    config.rowsOf (items ++ more) = config.rowsOf items ++ config.rowsOf more :=
  List.map_append

/-- A part of what can be stored can be stored. -/
theorem Storable.of_append (h : Storable crc config (items ++ more)) : Storable crc config items := by
  have hdistinct := h.distinct
  rw [List.map_append] at hdistinct
  refine ⟨hdistinct.of_append_left,
    fun item hitem => h.compatible item (List.mem_append_left more hitem),
    PersistentIndexCore.exists_encodeSnapshot_of_le h.encodes rfl fun key row hrow => ?_⟩
  rw [liveRows_loadedStore, insertRows_eq_some_iff (by
    rw [PersistentIndexCore.fst_rowsOf]; exact hdistinct.of_append_left)] at hrow
  rw [liveRows_loadedStore, insertRows_eq_some_iff (by
    rw [PersistentIndexCore.fst_rowsOf]; exact h.distinct), rowsOf_append]
  rcases hrow with hmem | ⟨_, hnone⟩
  · exact Or.inl (List.mem_append_left _ hmem)
  · cases hnone

end Items

/-! ## The index while records are stored -/

/-- The index holds the items, which can be told apart and match it, and so does its file while
the index is clean. -/
structure Loaded (crc : Checksum) (config : LshConfig) (path : Path)
    (items : List (UInt64 × MinHash scheme)) (store : PersistentIndexCore scheme)
    (files : FileSystem) : Prop where
  published : ∃ keyHashes, store.PublishedAs crc files keyHashes
  config_eq : store.config = config
  path_eq : store.path = path
  rows : store.liveRows = insertRows (fun _ => none) (config.rowsOf items)
  distinct : (items.map Prod.fst).Nodup
  compatible : ∀ item ∈ items, config.Compatible item.2
  clean : store.dirty = false →
    ∃ bytes, store.encodeSnapshot crc = .ok bytes ∧ files.Holds path.location bytes

section Storing

variable {crc : Checksum} {config : LshConfig} {path : Path}
  {items batch : List (UInt64 × MinHash scheme)} {store store' : PersistentIndexCore scheme}
  {world world' : World} {files : FileSystem}

theorem Loaded.encodeSnapshot_eq (h : Loaded crc config path items store files) :
    store.encodeSnapshot crc = (loadedStore config items).encodeSnapshot crc := by
  refine PersistentIndexCore.encodeSnapshot_congr h.config_eq (rowsOfMap_injective ?_)
  exact h.rows.trans (liveRows_loadedStore config items).symm

/-- The items of a clean index can be stored, and its file holds their snapshot. -/
theorem Loaded.snapshot (h : Loaded crc config path items store files)
    (hclean : store.dirty = false) : Stored crc config path items files := by
  obtain ⟨bytes, hencode, hholds⟩ := h.clean hclean
  rw [h.encodeSnapshot_eq] at hencode
  exact ⟨⟨h.distinct, h.compatible, bytes, hencode⟩, bytes, hencode, hholds⟩

end Storing

/-! ## Batches and lines -/

section Running

variable {crc : Checksum} {sha1 : Bytes → Bytes} {tune : F64 → Nat → Except LshError LshParams}
  {config : LshConfig} {path : Path} {args : IndexArgs} {items done : List (UInt64 × MinHash scheme)}
  {store : PersistentIndexCore scheme} {building : Building scheme} {world world' : World}

/-- The records so far are those in the index and those in the batch. -/
def Follows (crc : Checksum) (config : LshConfig) (path : Path)
    (done : List (UInt64 × MinHash scheme)) (building : Building scheme) (files : FileSystem) : Prop :=
  ∃ items, done = items ++ building.batch ∧ Loaded crc config path items building.store files

end Running

/-! ## Whole runs -/

section Indexing

variable {crc : Checksum} {sha1 : Bytes → Bytes} {tune : F64 → Nat → Except LshError LshParams}
  {args : IndexArgs} {input : Except IoError (List InputLine)} {path : Path} {nonce : Nat}
  {world world' : World}

/-- What an input must be for an index to be built from it, whatever the batch size. -/
structure Buildable (crc : Checksum) (sha1 : Bytes → Bytes)
    (tune : F64 → Nat → Except LshError LshParams) (args : IndexArgs)
    (input : Except IoError (List InputLine)) (config : LshConfig)
    (items : List (UInt64 × MinHash scheme)) : Prop where
  tuned : ∃ params, tune args.threshold args.numPerm = .ok params ∧
    LshConfig.new args.threshold args.numPerm args.seed params = .ok config
  progress : ¬ (args.progress = true ∧ args.progressEvery = 0)
  readable : ∃ lines, input = .ok lines ∧
    itemsOf (makeSketch sha1 scheme · args.numPerm args.seed) lines = some items
  storable : Storable crc config items

/-- An input comes to one list under one configuration. -/
theorem Buildable.unique {config config' : LshConfig} {items items' : List (UInt64 × MinHash scheme)}
    (h : Buildable crc sha1 tune args input config items)
    (h' : Buildable crc sha1 tune args input config' items') : config' = config ∧ items' = items := by
  obtain ⟨params, htune, hconfig⟩ := h.tuned
  obtain ⟨params', htune', hconfig'⟩ := h'.tuned
  obtain ⟨lines, hlines, hitems⟩ := h.readable
  obtain ⟨lines', hlines', hitems'⟩ := h'.readable
  obtain rfl := Except.ok.inj (htune.symm.trans htune')
  obtain rfl := Except.ok.inj (hlines.symm.trans hlines')
  exact ⟨Except.ok.inj (hconfig'.symm.trans hconfig), Option.some.inj (hitems'.symm.trans hitems)⟩

end Indexing

/-! ## A run on no records -/

/-- An empty file system, and a process in which nothing fails. -/
def emptyWorld : World where
  files :=
    { entries := fun _ => none
      contents := fun _ => []
      nextInode := 0
      allocated := nofun }
  faults := fun _ => none
  calls := 0
  counter := 0
  processId := 1
  history := []

def sampleBegun : World := emptyWorld.leave emptyWorld.files

/-- A batch size that a run accepts. -/
def Accepted (batchSize : Nat) : Prop := 0 < batchSize ∧ Reservable batchSize

/-- A commit that succeeds, or changes its target. -/
def Writes (core : PersistentIndexCore scheme) (world : World) (result : Except StoreError Unit)
    (world' : World) : Prop :=
  result = .ok () ∨
    world'.files.read core.path.location ≠ world.files.read core.path.location

end Pari.Cli
