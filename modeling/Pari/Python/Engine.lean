/-
# The native engine of the Python index

`_DedupeEngine` keeps an in-memory index and, with the local backend, a persistent index that
mirrors it. A batch of feature rows is sketched and inserted in the index first and in the
mirror second; if the mirror refuses it, its keys are removed from the index again. Threads,
poisoned pools and contended locks show as the errors a call runs into.
-/

import Pari.Core.Sketching
import Pari.Store.Runs
import Pari.Cli.Index

namespace Pari.Python

open Data Pari.Format Pari.Core Pari.Index Pari.Store

/-- The copied buffers of one feature row. -/
abbrev Features := List Bytes

/-- `std::sync::TryLockError`. -/
inductive TryLockError
  | poisoned | wouldBlock
  deriving DecidableEq, Repr

inductive BindingError
  | busy | closed | poisoned
  | index (error : LshError)
  | minHash (error : MinHashError)
  | batchPoolUnavailable (message : String)
  | store (error : StoreError)
  deriving DecidableEq, Repr

def BindingError.ofTryLock : TryLockError → BindingError
  | .poisoned => .poisoned
  | .wouldBlock => .busy

/-- What a native call raises. -/
inductive NativeError
  | configuration (message : String)
  | binding (error : BindingError)
  deriving DecidableEq, Repr

/-- What a call runs into outside of the index: the worker pool cannot be set up, the lock is
not free, or the mirror fails without storing anything. -/
structure Surroundings where
  pool : Option String := none
  lock : Option TryLockError := none
  mirror : Option StoreError := none

/-- `DedupeState`. -/
structure DedupeState where
  index : LshIndex .pariAffine32V1
  store : Option PersistentIndex32

structure DedupeEngine where
  inner : Option DedupeState
  numPerm : Nat
  seed : UInt64

/-! ## The functions of the engine -/

/-- `store.insert_many(..)`. -/
def insertMirror (fault : Option StoreError) (store : PersistentIndex32)
    (items : List (UInt64 × MinHash32)) : Except StoreError Unit × PersistentIndex32 :=
  match fault with
  | some error => (.error error, store)
  | none => store.insertMany items

/-- The operation that `add_many` runs under the lock. -/
def DedupeState.insertMany (fault : Option StoreError) (state : DedupeState)
    (items : List (UInt64 × MinHash32)) : Except BindingError Unit × DedupeState :=
  match state.index.insertMany items with
  | (.error error, index) => (.error (.index error), { state with index })
  | (.ok (), index) =>
      match state.store with
      | none => (.ok (), { state with index })
      | some store =>
          match insertMirror fault store items with
          | (.ok (), store) => (.ok (), { index, store := some store })
          | (.error error, store) =>
              let index := (items.map Prod.fst).foldl (fun index key => (index.remove key).2) index
              (.error (.store error), { index, store := some store })

/-- `build_sketches`. -/
def buildSketches (sha1 : Bytes → Bytes) (pool : Option String) (rows : List Features)
    (numPerm : Nat) (seed : UInt64) : Except BindingError (List MinHash32) :=
  match pool with
  | some message => .error (.batchPoolUnavailable message)
  | none => (MinHash.fromBatch sha1 .pariAffine32V1 rows numPerm seed).mapError .minHash

/-- The consecutive keys of a batch. -/
def ingestionKeys (startKey : UInt64) (count : Nat) : Except NativeError (List UInt64) :=
  (List.range count).mapM fun offset =>
    okOr (tryU64 (startKey.toNat + offset)) (.configuration "ingestion key exceeds u64 range")

namespace DedupeEngine

variable (crc : Checksum) (sha1 : Bytes → Bytes) (tune : F64 → Nat → Except LshError LshParams)

/-- The keys and sketches of a batch. -/
def batchItems (engine : DedupeEngine) (pool : Option String) (startKey : UInt64)
    (rows : List Features) : Except NativeError (List (UInt64 × MinHash32)) := do
  let keys ← ingestionKeys startKey rows.length
  let sketches ← (buildSketches sha1 pool rows engine.numPerm engine.seed).mapError .binding
  return keys.zip sketches

/-- `run_write`, with what `try_lock` returns. -/
def runWrite {α : Type} (engine : DedupeEngine) (lock : Option TryLockError)
    (operation : DedupeState → World → Except BindingError α × DedupeState × World)
    (world : World) : Except NativeError α × DedupeEngine × World :=
  match lock with
  | some error => (.error (.binding (.ofTryLock error)), engine, world)
  | none =>
      match engine.inner with
      | none => (.error (.binding .closed), engine, world)
      | some state =>
          let (result, state, world) := operation state world
          (result.mapError .binding, { engine with inner := some state }, world)

/-- `add_many`, once `collect_feature_rows` has copied the rows. -/
def addMany (engine : DedupeEngine) (surroundings : Surroundings) (startKey : UInt64)
    (rows : List Features) (world : World) : Except NativeError Unit × DedupeEngine × World :=
  if rows.isEmpty then (.ok (), engine, world)
  else
    match engine.batchItems sha1 surroundings.pool startKey rows with
    | .error error => (.error error, engine, world)
    | .ok items =>
        engine.runWrite surroundings.lock (fun state world =>
          let (result, state) := state.insertMany surroundings.mirror items
          (result, state, world)) world

/-- `sync`. -/
def sync (engine : DedupeEngine) (lock : Option TryLockError) (world : World) :
    Except NativeError Unit × DedupeEngine × World :=
  engine.runWrite lock (fun state world =>
    match state.store with
    | none => (.ok (), state, world)
    | some store =>
        let (result, store, world) := store.sync crc world
        (result.mapError .store, { state with store := some store }, world)) world

/-- `close`. A failed commit leaves the index open. -/
def close (engine : DedupeEngine) (lock : Option TryLockError) (world : World) :
    Except NativeError Unit × DedupeEngine × World :=
  match lock with
  | some error => (.error (.binding (.ofTryLock error)), engine, world)
  | none =>
      match engine.inner with
      | none => (.ok (), engine, world)
      | some state =>
          match state.store with
          | none => (.ok (), { engine with inner := none }, world)
          | some store =>
              match store.sync crc world with
              | (.error error, store, world) => (.error (.binding (.store error)),
                  { engine with inner := some { state with store := some store } }, world)
              | (.ok (), _, world) => (.ok (), { engine with inner := none }, world)

/-- `_DedupeEngine(..)`, with the banding that the threshold is tuned to. -/
def new (threshold : F64) (numPerm : Nat) (seed : UInt64) (path : Option Path) (world : World) :
    Except BindingError DedupeEngine × World :=
  match tune threshold numPerm with
  | .error error => (.error (.index error), world)
  | .ok params =>
      match LshIndex.withParams .pariAffine32V1 threshold numPerm seed params with
      | .error error => (.error (.index error), world)
      | .ok index =>
          match path with
          | none => (.ok { inner := some { index, store := none }, numPerm, seed }, world)
          | some path =>
              match Cli.createTuned crc tune .pariAffine32V1 path threshold numPerm seed world with
              | (.error error, world) => (.error (.store error), world)
              | (.ok store, world) =>
                  (.ok { inner := some { index, store := some store }, numPerm, seed }, world)

end DedupeEngine

/-! ## What rows of features are stored as -/

section Ingested

variable {sha1 : Bytes → Bytes} {config : LshConfig}

/-- The template of `from_batch` for the permutations of a configuration. -/
def templateOf (config : LshConfig) : MinHash32 where
  seed := config.seed
  signature := List.replicate config.numPerm (Word.max .pariAffine32V1)
  valid := by
    rw [List.length_replicate]
    exact ⟨config.bounds.2.1, config.bounds.2.2.1⟩

theorem new_eq_templateOf (config : LshConfig) :
    MinHash.new .pariAffine32V1 config.numPerm config.seed = .ok (templateOf config) :=
  dif_pos ⟨config.bounds.2.1, config.bounds.2.2.1⟩

/-- The sketch of one feature row. -/
def sketchRow (sha1 : Bytes → Bytes) (config : LshConfig) (row : Features) : MinHash32 :=
  (templateOf config).updateMany sha1 row

theorem compatible_sketchRow (row : Features) : config.Compatible (sketchRow sha1 config row) := by
  obtain ⟨hseed, hnumPerm⟩ := (templateOf config).updateMany_fields sha1 row
  refine ⟨hseed, hnumPerm.trans ?_⟩
  exact List.length_replicate

/-- Feature row `i` under key `i`. -/
def ingestedRows (sha1 : Bytes → Bytes) (config : LshConfig) (features : List Features) : Rows :=
  fun key => features[key.toNat]?.map fun row =>
    computeBandHashes config.params (sketchRow sha1 config row).signature

theorem ingestedRows_nil : ingestedRows sha1 config [] = fun _ => none := rfl

theorem ingestedRows_eq_none_iff {features : List Features} {key : UInt64} :
    ingestedRows sha1 config features key = none ↔ features.length ≤ key.toNat := by
  rw [ingestedRows, Option.map_eq_none_iff, List.getElem?_eq_none_iff]

/-- The keys and sketches of rows that are numbered from `start` on. -/
def numberedRows (sha1 : Bytes → Bytes) (config : LshConfig) :
    Nat → List Features → List (UInt64 × MinHash32)
  | _, [] => []
  | start, row :: rows =>
      (UInt64.ofNat start, sketchRow sha1 config row) :: numberedRows sha1 config (start + 1) rows

theorem fst_numberedRows (start : Nat) (rows : List Features) :
    (numberedRows sha1 config start rows).map Prod.fst =
      (List.range' start rows.length).map UInt64.ofNat := by
  induction rows generalizing start with
  | nil => rfl
  | cons row rows ih =>
      rw [numberedRows, List.map_cons, ih, List.length_cons, List.range'_succ, List.map_cons]

/-- One more row. -/
theorem update_ingestedRows {features : List Features} (row : Features)
    (hrange : features.length < 2 ^ 64) :
    Function.update (ingestedRows sha1 config features) (UInt64.ofNat features.length)
        (some (computeBandHashes config.params (sketchRow sha1 config row).signature)) =
      ingestedRows sha1 config (features ++ [row]) := by
  funext key
  by_cases heq : key = UInt64.ofNat features.length
  · rw [heq, Function.update_self, ingestedRows, toNat_ofNat64 hrange, List.getElem?_concat_length]
    rfl
  · have hne : key.toNat ≠ features.length := by
      intro hlength
      exact heq (by rw [← hlength, UInt64.ofNat_toNat])
    rw [Function.update_of_ne heq, ingestedRows, ingestedRows]
    rcases Nat.lt_or_gt_of_ne hne with hlt | hgt
    · rw [List.getElem?_append_left hlt]
    · rw [List.getElem?_eq_none hgt.le, List.getElem?_eq_none (by simp; omega)]

/-- Rows numbered on from the last one follow it. -/
theorem insertRows_numberedRows {features rows : List Features}
    (hrange : features.length + rows.length ≤ 2 ^ 64) :
    insertRows (ingestedRows sha1 config features)
        (config.rowsOf (numberedRows sha1 config features.length rows)) =
      ingestedRows sha1 config (features ++ rows) := by
  induction rows generalizing features with
  | nil => rw [List.append_nil]; rfl
  | cons row rows ih =>
      rw [List.length_cons] at hrange
      have hnext := @ih (features ++ [row]) (by rw [List.length_append, List.length_singleton]; omega)
      rw [List.length_append, List.length_singleton, List.append_assoc,
        List.singleton_append, ← update_ingestedRows row (by omega)] at hnext
      exact hnext

theorem ingestionKeys_eq_ok {startKey : UInt64} {count : Nat} {keys : List UInt64}
    (h : ingestionKeys startKey count = .ok keys) :
    keys = (List.range' startKey.toNat count).map UInt64.ofNat ∧
      (count ≠ 0 → startKey.toNat + count ≤ 2 ^ 64) := by
  have hsteps := mapM_eq_ok_iff.mp h
  simp only [okOr_eq_ok_iff, tryU64_eq_some_iff] at hsteps
  constructor
  · have hkeys : (List.range count).map (fun offset => UInt64.ofNat (startKey.toNat + offset)) =
        keys := by
      rw [← List.forall₂_eq_eq_eq, List.forall₂_map_left_iff]
      exact hsteps.imp fun _ _ hstep => hstep.2
    rw [← hkeys, List.range'_eq_map_range, List.map_map]
    rfl
  · intro hcount
    have hlast := ((List.forall₂_iff_get.mp hsteps).2 (count - 1)
      (by rw [List.length_range]; omega) (by rw [← hsteps.length_eq, List.length_range]; omega)).1
    simp only [List.get_eq_getElem, List.getElem_range] at hlast
    omega

/-- The items of a batch are its rows, numbered from its first key. -/
theorem DedupeEngine.batchItems_eq_ok {engine : DedupeEngine} {pool : Option String}
    {startKey : UInt64} {rows : List Features} {items : List (UInt64 × MinHash32)}
    (hnumPerm : engine.numPerm = config.numPerm) (hseed : engine.seed = config.seed)
    (h : engine.batchItems sha1 pool startKey rows = .ok items) :
    items = numberedRows sha1 config startKey.toNat rows ∧
      (rows ≠ [] → startKey.toNat + rows.length ≤ 2 ^ 64) := by
  simp only [batchItems, bind_eq_ok_iff, pure_eq_ok_iff, mapError_eq_ok_iff] at h
  obtain ⟨keys, hkeys, sketches, hsketches, rfl⟩ := h
  obtain ⟨rfl, hrange⟩ := ingestionKeys_eq_ok hkeys
  have hrows : sketches = rows.map (sketchRow sha1 config) := by
    unfold buildSketches at hsketches
    split at hsketches
    · cases hsketches
    · rw [mapError_eq_ok_iff, MinHash.fromBatch, hnumPerm, hseed, new_eq_templateOf, ok_bind] at hsketches
      exact (Except.ok.inj hsketches).symm
  refine ⟨?_, fun hne => hrange (by simpa using hne)⟩
  rw [hrows]
  clear hkeys hsketches hrange hrows
  generalize startKey.toNat = start
  induction rows generalizing start with
  | nil => rfl
  | cons row rows ih =>
      rw [List.length_cons, List.range'_succ, List.map_cons, List.map_cons, List.zip_cons_cons, ih,
        numberedRows]

end Ingested

/-! ## What the engine keeps -/

/-- The index and its mirror hold the same rows, under one configuration. -/
structure DedupeState.Keeps (crc : Checksum) (config : LshConfig) (state : DedupeState)
    (world : World) (rows : Rows) : Prop where
  config_eq : state.index.config = config
  index : state.index.Holds rows
  mirror : ∀ store, state.store = some store →
    Reaches crc store world ∧ store.config = config ∧ store.liveRows = rows

/-- As long as the engine is open. -/
structure DedupeEngine.Keeps (crc : Checksum) (config : LshConfig) (engine : DedupeEngine)
    (world : World) (rows : Rows) : Prop where
  numPerm : engine.numPerm = config.numPerm
  seed : engine.seed = config.seed
  state : ∀ state, engine.inner = some state → state.Keeps crc config world rows

section Keeping

variable {crc : Checksum} {sha1 : Bytes → Bytes} {config : LshConfig} {world world' : World}
  {rows : Rows} {items : List (UInt64 × MinHash32)}

/-- Removing keys one after another. -/
theorem holds_foldl_remove {index : LshIndex .pariAffine32V1} (h : index.Holds rows)
    (keys : List UInt64) :
    (keys.foldl (fun index key => (index.remove key).2) index).config = index.config ∧
      (keys.foldl (fun index key => (index.remove key).2) index).Holds
        fun key => if key ∈ keys then none else rows key := by
  induction keys generalizing index rows with
  | nil => exact ⟨rfl, by simpa using h⟩
  | cons key keys ih =>
      obtain ⟨_, hconfig, hremoved⟩ := h.remove key
      obtain ⟨hkept, hholds⟩ := ih hremoved
      refine ⟨hkept.trans hconfig, ?_⟩
      have hrows : (fun other => if other ∈ key :: keys then none else rows other) =
          fun other => if other ∈ keys then none else Function.update rows key none other := by
        funext other
        by_cases heq : other = key
        · simp [heq]
        · simp [heq]
      rw [hrows]
      exact hholds

/-- Withdrawing a batch from what its insertion made of the rows. -/
theorem withdraw_insertRows (hfresh : ∀ item ∈ items, rows item.1 = none)
    (hdistinct : (items.map Prod.fst).Nodup) :
    (fun key => if key ∈ items.map Prod.fst then none
      else insertRows rows (config.rowsOf items) key) = rows := by
  funext key
  have hkeys := PersistentIndexCore.fst_rowsOf config items
  by_cases hmem : key ∈ items.map Prod.fst
  · obtain ⟨item, hitem, rfl⟩ := List.mem_map.mp hmem
    rw [if_pos hmem, hfresh item hitem]
  · refine Option.ext fun row => ?_
    have hnot : (key, row) ∉ config.rowsOf items := fun hrow =>
      hmem (hkeys ▸ List.mem_map_of_mem (f := Prod.fst) hrow)
    rw [if_neg hmem, insertRows_eq_some_iff (hkeys ▸ hdistinct), hkeys]
    simp [hnot, hmem]

/-- The mirror inserts a batch as a step of its own or stays as it is. -/
theorem insertMirror_cases {fault : Option StoreError} {store store' : PersistentIndex32}
    {result : Except StoreError Unit} (h : Reaches crc store world)
    (hrun : insertMirror fault store items = (result, store')) :
    Outcome result
      (fun _ => Reaches crc store' world ∧ store'.config = store.config ∧
        store'.liveRows = insertRows store.liveRows (store.config.rowsOf items))
      (fun _ => store' = store) := by
  unfold insertMirror at hrun
  split at hrun
  · obtain ⟨rfl, rfl⟩ := Prod.mk.inj hrun
    rfl
  cases result with
  | error error =>
      rcases store.insertMany_cases items with ⟨other, herror⟩ | ⟨_, hok⟩
      · exact congrArg Prod.snd (hrun.symm.trans herror)
      · rw [hrun] at hok
        cases hok
  | ok =>
      obtain ⟨_, hpublished⟩ := h.published
      have hstep : Step crc store world (.inserted items) store' world := Step.insertMany hrun
      have hspec := hstep.spec hpublished
      exact ⟨h.step hstep, hspec.config, hspec.liveRows⟩

/-- A batch is inserted in the index and in its mirror, or in neither. -/
theorem DedupeState.Keeps.insertMany {state state' : DedupeState} {fault : Option StoreError}
    {result : Except BindingError Unit} (h : state.Keeps crc config world rows)
    (hrun : state.insertMany fault items = (result, state')) :
    Outcome result
      (fun _ => (∀ item ∈ items, rows item.1 = none) ∧
        state'.Keeps crc config world (insertRows rows (config.rowsOf items)))
      (fun _ => state'.Keeps crc config world rows) := by
  obtain ⟨hconfig, hindex, hmirror⟩ := h
  unfold DedupeState.insertMany at hrun
  rcases hinsert : state.index.insertMany items with ⟨_ | ⟨⟨⟩⟩, index⟩
  · next error =>
    rw [hinsert] at hrun
    obtain ⟨rfl, rfl⟩ := Prod.mk.inj hrun
    obtain rfl : index = state.index := by
      have hsame := LshIndex.insertMany_of_error (congrArg Prod.fst hinsert)
      rwa [hinsert] at hsame
    exact ⟨hconfig, hindex, hmirror⟩
  have haccepts := hindex.insertMany_ok_iff.mp (congrArg Prod.fst hinsert)
  obtain ⟨hkept, _, hholds⟩ := hindex.insertMany_of_accepts haccepts
  rw [hinsert] at hrun hkept hholds
  dsimp only at hrun hkept hholds
  rw [hconfig] at hkept hholds
  split at hrun
  · next hnone =>
    obtain ⟨rfl, rfl⟩ := Prod.mk.inj hrun
    exact ⟨haccepts.fresh, hkept, hholds, fun store hstore => by
      rw [hnone] at hstore
      cases hstore⟩
  next store hstore =>
  obtain ⟨hreaches, hsame, hlive⟩ := hmirror store hstore
  rcases hinserted : insertMirror fault store items with ⟨_ | ⟨⟨⟩⟩, store'⟩
  · next error =>
    have hcases := insertMirror_cases hreaches hinserted
    rw [hinserted] at hrun
    obtain ⟨rfl, rfl⟩ := Prod.mk.inj hrun
    obtain rfl : store' = store := hcases
    obtain ⟨hwithdrawn, hremaining⟩ := holds_foldl_remove hholds (items.map Prod.fst)
    rw [withdraw_insertRows haccepts.fresh haccepts.distinct] at hremaining
    refine ⟨hwithdrawn.trans hkept, hremaining, fun other hother => ?_⟩
    obtain rfl := Option.some.inj hother
    exact ⟨hreaches, hsame, hlive⟩
  · have hcases := insertMirror_cases hreaches hinserted
    rw [hinserted] at hrun
    obtain ⟨rfl, rfl⟩ := Prod.mk.inj hrun
    obtain ⟨hreaches', hsame', hlive'⟩ := hcases
    refine ⟨haccepts.fresh, hkept, hholds, fun other hother => ?_⟩
    obtain rfl := Option.some.inj hother
    refine ⟨hreaches', hsame'.trans hsame, ?_⟩
    rw [hlive', hlive, hsame]

theorem DedupeState.Keeps.sync {state : DedupeState} {store store' : PersistentIndex32}
    {result : Except StoreError Unit} (h : state.Keeps crc config world rows)
    (hstore : state.store = some store) (hrun : store.sync crc world = (result, store', world')) :
    DedupeState.Keeps crc config { state with store := some store' } world' rows := by
  obtain ⟨hreaches, hsame, hlive⟩ := h.mirror store hstore
  obtain ⟨_, hpublished⟩ := hreaches.published
  have hstep := Step.sync hrun
  have hspec := hstep.spec hpublished
  refine ⟨h.config_eq, h.index, fun other hother => ?_⟩
  obtain rfl := Option.some.inj hother
  exact ⟨hreaches.step hstep, hspec.config.trans hsame, hspec.liveRows.trans hlive⟩

namespace DedupeEngine.Keeps

variable {engine engine' : DedupeEngine} {features batch : List Features}
  {lock : Option TryLockError} {result : Except NativeError Unit}

/-- An operation under the lock fails before it begins, or runs on the state. -/
theorem runWrite_cases {operation : DedupeState → World → Except BindingError Unit × DedupeState × World}
    (hrun : engine.runWrite lock operation world = (result, engine', world')) :
    (engine' = engine ∧ world' = world ∧ ∃ error, result = .error error) ∨
      ∃ state state' outcome, engine.inner = some state ∧
        operation state world = (outcome, state', world') ∧
        result = outcome.mapError .binding ∧ engine' = { engine with inner := some state' } := by
  unfold runWrite at hrun
  split at hrun
  · cases hrun
    exact Or.inl ⟨rfl, rfl, _, rfl⟩
  split at hrun
  · cases hrun
    exact Or.inl ⟨rfl, rfl, _, rfl⟩
  next state hstate =>
  obtain ⟨⟨outcome, state', world''⟩, houtcome⟩ : ∃ run, operation state world = run := ⟨_, rfl⟩
  rw [houtcome] at hrun
  cases hrun
  exact Or.inr ⟨state, state', outcome, hstate, houtcome, rfl, rfl⟩

theorem withState {state : DedupeState} {others : Rows} (h : engine.Keeps crc config world rows)
    (hstate : state.Keeps crc config world' others) :
    DedupeEngine.Keeps crc config { engine with inner := some state } world' others := by
  refine ⟨h.numPerm, h.seed, fun other hother => ?_⟩
  obtain rfl := Option.some.inj hother
  exact hstate

/-- A batch that is inserted begins behind the last row, and any other batch changes nothing. -/
theorem addMany {surroundings : Surroundings} {startKey : UInt64}
    (h : engine.Keeps crc config world (ingestedRows sha1 config features))
    (hrun : engine.addMany sha1 surroundings startKey batch world = (result, engine', world')) :
    world' = world ∧ Outcome result
      (fun _ => (batch = [] ∧ engine' = engine) ∨ (batch ≠ [] ∧ features.length ≤ startKey.toNat ∧
        (startKey.toNat = features.length → (features ++ batch).length ≤ 2 ^ 64 ∧
          engine'.Keeps crc config world (ingestedRows sha1 config (features ++ batch)))))
      (fun _ => engine'.Keeps crc config world (ingestedRows sha1 config features)) := by
  unfold DedupeEngine.addMany at hrun
  split at hrun
  · next hempty =>
    cases hrun
    exact ⟨rfl, Or.inl ⟨List.isEmpty_iff.mp hempty, rfl⟩⟩
  next hnonempty =>
  have hne : batch ≠ [] := fun hempty => hnonempty (List.isEmpty_iff.mpr hempty)
  split at hrun
  · cases hrun
    exact ⟨rfl, h⟩
  next items hitems =>
  obtain ⟨rfl, hrange⟩ := batchItems_eq_ok h.numPerm h.seed hitems
  rcases runWrite_cases hrun with
    ⟨rfl, rfl, error, rfl⟩ | ⟨state, state', outcome, hstate, houtcome, rfl, rfl⟩
  · exact ⟨rfl, h⟩
  obtain ⟨⟨inserted, state''⟩, hinsert⟩ : ∃ run, state.insertMany surroundings.mirror
    (numberedRows sha1 config startKey.toNat batch) = run := ⟨_, rfl⟩
  have hkeeps := (h.state state hstate).insertMany hinsert
  rw [hinsert] at houtcome
  cases houtcome
  refine ⟨rfl, ?_⟩
  cases outcome with
  | error error => exact h.withState hkeeps
  | ok =>
      obtain ⟨hfresh, hkeeps⟩ := hkeeps
      refine Or.inr ⟨hne, ?_, fun hstart => ?_⟩
      · obtain ⟨row, rows, rfl⟩ := List.exists_cons_of_ne_nil hne
        have hfirst := ingestedRows_eq_none_iff.mp (hfresh (UInt64.ofNat startKey.toNat, sketchRow sha1 config row)
          List.mem_cons_self)
        rwa [UInt64.ofNat_toNat] at hfirst
      · have hlength := hrange hne
        rw [hstart] at hkeeps hlength
        rw [insertRows_numberedRows hlength] at hkeeps
        rw [List.length_append]
        exact ⟨hlength, h.withState hkeeps⟩

theorem sync (h : engine.Keeps crc config world rows)
    (hrun : engine.sync crc lock world = (result, engine', world')) :
    engine'.Keeps crc config world' rows := by
  rcases runWrite_cases hrun with
    ⟨rfl, rfl, error, rfl⟩ | ⟨state, state', outcome, hstate, houtcome, rfl, rfl⟩
  · exact h
  apply h.withState
  split at houtcome
  · cases houtcome
    exact h.state state hstate
  next store hstore =>
  obtain ⟨⟨committed, store', world''⟩, hsync⟩ : ∃ run, store.sync crc world = run := ⟨_, rfl⟩
  rw [hsync] at houtcome
  cases houtcome
  exact (h.state state hstate).sync hstore hsync

theorem close (h : engine.Keeps crc config world rows)
    (hrun : engine.close crc lock world = (result, engine', world')) :
    engine'.Keeps crc config world' rows := by
  unfold DedupeEngine.close at hrun
  split at hrun
  · cases hrun
    exact h
  split at hrun
  · cases hrun
    exact h
  next state hstate =>
  split at hrun
  · cases hrun
    exact ⟨h.numPerm, h.seed, fun _ hother => by cases hother⟩
  next store hstore =>
  split at hrun
  · next error store' _ hsync =>
    cases hrun
    exact h.withState ((h.state state hstate).sync hstore hsync)
  · cases hrun
    exact ⟨h.numPerm, h.seed, fun _ hother => by cases hother⟩

/-- Files elsewhere do not matter. -/
theorem elsewhere (h : engine.Keeps crc config world rows)
    (hfiles : ∀ state store, engine.inner = some state → state.store = some store →
      world'.files.read store.path.location = world.files.read store.path.location) :
    engine.Keeps crc config world' rows := by
  refine ⟨h.numPerm, h.seed, fun state hstate => ?_⟩
  obtain ⟨hconfig, hindex, hmirror⟩ := h.state state hstate
  refine ⟨hconfig, hindex, fun store hstore => ?_⟩
  obtain ⟨hreaches, hsame, hlive⟩ := hmirror store hstore
  exact ⟨hreaches.step (.elsewhere (hfiles state store hstate hstore)), hsame, hlive⟩

end DedupeEngine.Keeps

/-- A new engine is empty, and its mirror is tuned like its index. -/
theorem DedupeEngine.keeps_new {tune : F64 → Nat → Except LshError LshParams} {threshold : F64}
    {numPerm : Nat} {seed : UInt64} {path : Option Path} {engine : DedupeEngine}
    (hrun : DedupeEngine.new crc tune threshold numPerm seed path world = (.ok engine, world')) :
    ∃ config, engine.Keeps crc config world' fun _ => none := by
  unfold DedupeEngine.new at hrun
  split at hrun
  · cases hrun
  next params htune =>
  split at hrun
  · cases hrun
  next index hindex =>
  obtain ⟨hholds, _⟩ := LshIndex.withParams_holds hindex
  have hvalid := hindex
  simp only [LshIndex.withParams, bind_eq_ok_iff, pure_eq_ok_iff] at hvalid
  obtain ⟨config, hconfig, rfl⟩ := hvalid
  refine ⟨config, ?_⟩
  obtain ⟨hthreshold, hnumPerm, hseed, _⟩ := LshConfig.new_eq_ok_iff.mp hconfig
  split at hrun
  · cases hrun
    refine ⟨hnumPerm.symm, hseed.symm, fun state hstate => ?_⟩
    obtain rfl := Option.some.inj hstate
    exact ⟨rfl, hholds, fun _ hstore => by cases hstore⟩
  split at hrun
  · cases hrun
  next path _ _ store world'' hcreated =>
  cases hrun
  refine ⟨hnumPerm.symm, hseed.symm, fun state hstate => ?_⟩
  obtain rfl := Option.some.inj hstate
  refine ⟨rfl, hholds, fun other hother => ?_⟩
  obtain rfl := Option.some.inj hother
  unfold Cli.createTuned at hcreated
  rw [htune] at hcreated
  dsimp only at hcreated
  rw [hindex] at hcreated
  dsimp only at hcreated
  obtain ⟨_, _, hparams', hthreshold', hnumPerm', hseed', hkeys, _⟩ :=
    PersistentIndexCore.createWithParams_published hcreated
  refine ⟨.start (.created hcreated), LshConfig.ext (hthreshold'.trans hthreshold.symm)
    (hnumPerm'.trans hnumPerm.symm) (hseed'.trans hseed.symm) hparams', ?_⟩
  funext key
  rw [PersistentIndexCore.liveRows, hkeys]
  simp [rowsOfMap]

end Keeping

end Pari.Python
