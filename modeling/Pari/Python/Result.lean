/-
# The result of a deduplication

`result` asks the engine for groups of positions, lets the caller select a record of each group,
and splits the positions into those it keeps and those it drops. The engine verifies candidate
pairs with a callback that may raise; the selected record is found again by identity, so records
that occur several times are told apart by their positions only.
-/

import Pari.Index.DuplicateGroups
import Pari.Python.Ingestion

namespace Pari.Python

open Data Relation Pari.Format Pari.Core Pari.Index Pari.Store

/-- What `result` raises. -/
inductive ResultError
  | closed
  | native (error : NativeError)
  | indexError
  | invalidRepresentative
  deriving DecidableEq, Repr

/-! ## Native groups with a callback -/

section Calling

variable {ε : Type}

/-- The body of the pair loop with a callback: after it raised, it is not called again and
accepts nothing. -/
def unionPairCalling (data : IndexData) (verifier : UInt64 → UInt64 → Except ε Bool)
    (run : UnionFind × Option ε) (pair : UInt32 × UInt32) : Option (UnionFind × Option ε) := do
  let (connected, unionFind) ← run.1.connected pair.1.toNat pair.2.toNat
  if connected then return (unionFind, run.2)
  match data.liveKey pair.1, data.liveKey pair.2, run.2 with
  | some leftKey, some rightKey, none =>
      let keys := orderedPair leftKey rightKey
      match verifier keys.1 keys.2 with
      | .error error => return (unionFind, some error)
      | .ok false => return (unionFind, none)
      | .ok true =>
          let unionFind ← unionFind.union pair.1.toNat pair.2.toNat
          return (unionFind, none)
  | _, _, _ => return (unionFind, run.2)

/-- `duplicate_groups_with` and the error the callback raised. -/
def duplicateGroupsCalling (data : IndexData) (orders : HashOrders) (minSize : Nat)
    (verifier : UInt64 → UInt64 → Except ε Bool) :
    Option (List Index.DuplicateGroup × Option ε) := do
  let (unionFind, raised) ← (visitedBuckets data orders.buckets).foldlM
    (fun run ids => (bucketPairs ids).foldlM (unionPairCalling data verifier) run)
    (UnionFind.withLen data.idToKey.length, none)
  let groups ← collectDefaultGroups orders.roots unionFind (liveMembers data) minSize
  return (groups, raised)

section Returning

variable {data : IndexData} {verifier : UInt64 → UInt64 → Except ε Bool}
  {accepts : UInt64 → UInt64 → Bool}

end Returning

end Calling

/-! ## The functions of the index -/

variable {T : Type}

/-- The callbacks of an index. Selectors need not be functions of the records they are given, so
the number of the group is an argument as well. -/
structure Callbacks (T : Type) where
  exact : Option (T → T → Bool)
  representative : Option (Nat → List T → T)

/-- `DuplicateGroup`. -/
structure DuplicateGroup (T : Type) where
  representative : T
  members : List T
  representativeIndex : Nat
  memberIndices : List Nat

structure DeduplicationResult (T : Type) where
  groups : List (DuplicateGroup T)
  kept : List T
  dropped : List T
  keptIndices : List Nat
  droppedIndices : List Nat

/-- `tuple(records[index] for index in indices)`. -/
def recordsAt (records : List T) (indices : List Nat) : Except ResultError (List T) :=
  indices.mapM fun index => okOr records[index]? .indexError

/-- `_convert_group`; records are compared by identity. -/
def convertGroup [DecidableEq T] (records : List T) (select : Option (List T → T))
    (rawIndices : List Nat) : Except ResultError (DuplicateGroup T) := do
  let members ← recordsAt records rawIndices
  let first ← okOr (rawIndices.zip members).head? .indexError
  let found ← match select with
    | none => .ok first
    | some select =>
        let selected := select members
        okOr ((rawIndices.zip members).find? fun member => selected = member.2) .invalidRepresentative
  return {
    representative := found.2
    members
    representativeIndex := found.1
    memberIndices := rawIndices }

/-- The verifier that `_native_verifier` makes of `exact`. -/
def verify (records : List T) (exact : T → T → Bool) (left right : UInt64) :
    Except ResultError Bool := do
  let leftRecord ← okOr records[left.toNat]? .indexError
  let rightRecord ← okOr records[right.toNat]? .indexError
  return exact leftRecord rightRecord

namespace DedupeEngine

/-- `_ensure_open`. -/
def ensureOpen (engine : DedupeEngine) : Option TryLockError → Except ResultError Unit
  | some error => .error (.native (.binding (.ofTryLock error)))
  | none => rejectIf (engine.inner.isNone = true) .closed

/-- `groups`. -/
def groups (engine : DedupeEngine) (orders : HashOrders) (lock : Option TryLockError)
    (verifier : Option (UInt64 → UInt64 → Except ResultError Bool)) :
    Option (Except ResultError (List Index.DuplicateGroup)) :=
  match lock, engine.inner with
  | some error, _ => some (.error (.native (.binding (.ofTryLock error))))
  | none, none => some (.error (.native (.binding .closed)))
  | none, some state =>
      match verifier with
      | none => (duplicateGroups state.index.data orders).map .ok
      | some verifier => (duplicateGroupsCalling state.index.data orders 2 verifier).map fun outcome =>
          match outcome.2 with
          | some error => .error error
          | none => .ok outcome.1

end DedupeEngine

namespace Dedupe

/-- `groups`. The locks are those its native calls try to take, in order. -/
def groups [DecidableEq T] (dedupe : Dedupe T) (callbacks : Callbacks T) (orders : HashOrders)
    (locks : Nat → Option TryLockError) :
    Option (Except ResultError (List (DuplicateGroup T))) :=
  let records := dedupe.records.map Entry.record
  match dedupe.engine.ensureOpen (locks 0) with
  | .error error => some (.error error)
  | .ok () =>
      (dedupe.engine.groups orders (locks 1) (callbacks.exact.map (verify records))).map fun rawGroups => do
        let rawGroups ← rawGroups
        rawGroups.zipIdx.mapM fun (group, number) =>
          convertGroup records (callbacks.representative.map (· number))
            (group.members.map UInt64.toNat)

/-- `{member_index .. if member_index != group.representative_index}`. -/
def droppedSet (groups : List (DuplicateGroup T)) : OrderedSet Nat :=
  (∅ : OrderedSet Nat).insertMany (groups.flatMap fun group =>
    group.memberIndices.filter fun index => index ≠ group.representativeIndex)

/-- The result for the groups, once they are known. -/
def partition (records : List T) (groups : List (DuplicateGroup T)) :
    Except ResultError (DeduplicationResult T) := do
  let dropped := droppedSet groups
  let keptIndices := (List.range records.length).filter fun index => ¬ index ∈ dropped
  let droppedIndices := sortUnstable dropped.toList
  return {
    groups
    kept := ← recordsAt records keptIndices
    dropped := ← recordsAt records droppedIndices
    keptIndices
    droppedIndices }

/-- `result`. It commits the mirror before it returns. -/
def result [DecidableEq T] (crc : Checksum) (dedupe : Dedupe T) (callbacks : Callbacks T)
    (orders : HashOrders) (locks : Nat → Option TryLockError) :
    Option (Except ResultError (DeduplicationResult T) × Dedupe T) :=
  (dedupe.groups callbacks orders locks).map fun groups =>
    match groups with
    | .error error => (.error error, dedupe)
    | .ok groups =>
        match dedupe.engine.ensureOpen (locks 2) with
        | .error error => (.error error, dedupe)
        | .ok () =>
            match dedupe.engine.sync crc (locks 3) dedupe.world with
            | (.error error, engine, world) => (.error (.native error), { dedupe with engine, world })
            | (.ok (), engine, world) =>
                (partition (dedupe.records.map Entry.record) groups, { dedupe with engine, world })

end Dedupe

end Pari.Python
