/-
# Ingestion into the Python index

`DedupeIndex` keeps a list of records beside its native engine, and numbers what it inserts by
the length of the list. Every call asks its iterator for records and their features, inserts a
batch, appends the records of the batch, and reports its progress; between any two of these any
callback and any other call may run, on this thread or another. Elapsed times are left out of
the progress events.
-/

import Pari.Python.Engine
import Mathlib.Logic.Relation

namespace Pari.Python

open Data Pari.Format Pari.Core Pari.Index Pari.Store

variable {T : Type}

/-! ## Calls -/

/-- `add` and `add_features` add one record; `add_many` and `add_many_features` add batches,
with a progress callback or without, and know the total of a sized iterable. -/
inductive Manner (T : Type)
  | single (record : T)
  | batched (progress : Bool) (total : Option Nat)

structure ProgressEvent where
  completed : Nat
  total : Option Nat
  batchSize : Nat
  final : Bool

/-- How a call fails: a callback, an iterator, a buffer or a check of Python code raises, the
engine raises, or a progress callback returns `False`. -/
inductive Failure
  | raised
  | native (error : NativeError)
  | progressCancelled (completed : Nat)

/-- Where a call stands: before it reads the number of records, while the engine collects its
rows, between the insertion and the append, in its progress callback after a batch or after the
last one, or at its end. -/
inductive Phase (T : Type)
  | ready
  | collecting (start : UInt64) (records : List T) (rows : List Features)
  | inserted (start : UInt64) (records : List T) (rows : List Features)
  | reporting (event : ProgressEvent)
  | concluding (event : ProgressEvent)
  | finished (result : Except Failure Nat)

/-- The records that are inserted and not appended. -/
def Phase.pending : Phase T → List T
  | .inserted _ records _ => records
  | _ => []

/-- No code of a user runs between the insertion and the append, or at the end. -/
def Phase.Interruptible : Phase T → Prop
  | .inserted _ _ _ => False
  | .finished _ => False
  | _ => True

/-- A call, with the batches it has completed. -/
structure Call (T : Type) where
  manner : Manner T
  added : Nat
  batches : List (List (T × Features))
  phase : Phase T

def Call.new (manner : Manner T) : Call T where
  manner
  added := 0
  batches := []
  phase := .ready

/-- The records that are there before the engine asks for any row. -/
def Manner.opening : Manner T → List T
  | .single record => [record]
  | .batched _ _ => []

/-- The call once its batch is appended. -/
def Call.append (call : Call T) (start : UInt64) (records : List T) (rows : List Features) :
    Call T where
  manner := call.manner
  added := call.added + records.length
  batches := call.batches ++ [records.zip rows]
  phase :=
    match call.manner with
    | .single _ => .finished (.ok start.toNat)
    | .batched progress total =>
        let added := call.added + records.length
        if progress then
          .reporting { completed := added, total, batchSize := records.length, final := total = some added }
        else .ready

/-- The call once its iterator had no more records. -/
def Call.exhaust (call : Call T) (progress : Bool) (total : Option Nat) : Call T :=
  { call with
    phase :=
      if progress ∧ (total = none ∨ call.added = 0) then
        .concluding { completed := call.added, total, batchSize := 0, final := true }
      else .finished (.ok call.added) }

/-- What a call does by itself, when the index has `count` records. A row is copied before the
next record is asked for. -/
inductive CallStep (batchSize count : Nat) : Call T → Call T → Prop
  | started {call : Call T} {start : UInt64} (hphase : call.phase = .ready)
      (hstart : start.toNat = count) : CallStep batchSize count call
        { call with phase := .collecting start call.manner.opening [] }
  | yielded {call : Call T} {start : UInt64} {records : List T} {rows : List Features}
      {progress : Bool} {total : Option Nat} {record : T}
      (hphase : call.phase = .collecting start records rows)
      (hmanner : call.manner = .batched progress total) (hasked : records.length = rows.length)
      (hroom : records.length < batchSize) : CallStep batchSize count call
        { call with phase := .collecting start (records ++ [record]) rows }
  | copied {call : Call T} {start : UInt64} {records : List T} {rows : List Features}
      {features : Features} (hphase : call.phase = .collecting start records rows)
      (hyielded : rows.length < records.length) : CallStep batchSize count call
        { call with phase := .collecting start records (rows ++ [features]) }
  | raised {call : Call T} (hphase : call.phase.Interruptible) :
      CallStep batchSize count call { call with phase := .finished (.error .raised) }
  | exhausted {call : Call T} {start : UInt64} {rows : List Features} {progress : Bool}
      {total : Option Nat} (hphase : call.phase = .inserted start [] rows)
      (hmanner : call.manner = .batched progress total) :
      CallStep batchSize count call (call.exhaust progress total)
  | reported {call : Call T} {event : ProgressEvent} (hphase : call.phase = .reporting event) :
      CallStep batchSize count call { call with phase := .ready }
  | concluded {call : Call T} {event : ProgressEvent} (hphase : call.phase = .concluding event) :
      CallStep batchSize count call { call with phase := .finished (.ok call.added) }
  | cancelled {call : Call T} {event : ProgressEvent}
      (hphase : call.phase = .reporting event ∨ call.phase = .concluding event) :
      CallStep batchSize count call
        { call with phase := .finished (.error (.progressCancelled event.completed)) }

/-! ## The index -/

/-- A record, with the features that were supplied with it and the call that added it. -/
structure Entry (T : Type) where
  record : T
  features : Features
  call : Nat

/-- `DedupeIndex`, its file system, and the calls that were made on it. -/
structure Dedupe (T : Type) where
  engine : DedupeEngine
  world : World
  batchSize : Nat
  records : List (Entry T)
  calls : Nat → Option (Call T)

/-- `DedupeIndex(..)`. -/
def Dedupe.new (T : Type) (crc : Checksum) (tune : F64 → Nat → Except LshError LshParams)
    (threshold : F64) (numPerm : Nat) (seed : UInt64) (path : Option Path) (batchSize : Nat)
    (world : World) : Except BindingError (Dedupe T) :=
  match DedupeEngine.new crc tune threshold numPerm seed path world with
  | (.error error, _) => .error error
  | (.ok engine, world) => .ok { engine, world, batchSize, records := [], calls := fun _ => none }

namespace Dedupe

def setCall (dedupe : Dedupe T) (id : Nat) (call : Call T) : Dedupe T :=
  { dedupe with calls := Function.update dedupe.calls id (some call) }

/-- `self._records.extend(records)`. -/
def extend (dedupe : Dedupe T) (id : Nat) (records : List T) (rows : List Features) : Dedupe T :=
  { dedupe with
    records := dedupe.records ++
      (records.zip rows).map fun item => { record := item.1, features := item.2, call := id } }

def features (dedupe : Dedupe T) : List Features := dedupe.records.map Entry.features

/-- What a call has added. -/
def contributed (dedupe : Dedupe T) (id : Nat) : List (T × Features) :=
  (dedupe.records.filter (·.call = id)).map fun entry => (entry.record, entry.features)

/-- No call stands between its insertion and its append. -/
def Settled (dedupe : Dedupe T) : Prop :=
  ∀ id call, dedupe.calls id = some call → call.phase.pending = []

end Dedupe

/-- One step of any call, of `sync` or `close`, or of another process. -/
inductive DedupeStep (crc : Checksum) (sha1 : Bytes → Bytes) : Dedupe T → Dedupe T → Prop
  | began {dedupe : Dedupe T} {id : Nat} (manner : Manner T) (hnew : dedupe.calls id = none) :
      DedupeStep crc sha1 dedupe (dedupe.setCall id (.new manner))
  | called {dedupe : Dedupe T} {id : Nat} {call call' : Call T}
      (hcall : dedupe.calls id = some call)
      (hstep : CallStep dedupe.batchSize dedupe.records.length call call') :
      DedupeStep crc sha1 dedupe (dedupe.setCall id call')
  | inserted {dedupe : Dedupe T} {id : Nat} {call : Call T} {start : UInt64} {records : List T}
      {rows : List Features} {surroundings : Surroundings} {engine : DedupeEngine} {world : World}
      (hcall : dedupe.calls id = some call) (hphase : call.phase = .collecting start records rows)
      (hcopied : records.length = rows.length)
      (hrun : dedupe.engine.addMany sha1 surroundings start rows dedupe.world =
        (.ok (), engine, world)) :
      DedupeStep crc sha1 dedupe
        (Dedupe.setCall { dedupe with engine, world } id
          { call with phase := .inserted start records rows })
  | refused {dedupe : Dedupe T} {id : Nat} {call : Call T} {start : UInt64} {records : List T}
      {rows : List Features} {surroundings : Surroundings} {engine : DedupeEngine} {world : World}
      {error : NativeError} (hcall : dedupe.calls id = some call)
      (hphase : call.phase = .collecting start records rows) (hcopied : records.length = rows.length)
      (hrun : dedupe.engine.addMany sha1 surroundings start rows dedupe.world =
        (.error error, engine, world)) :
      DedupeStep crc sha1 dedupe
        (Dedupe.setCall { dedupe with engine, world } id
          { call with phase := .finished (.error (.native error)) })
  | appended {dedupe : Dedupe T} {id : Nat} {call : Call T} {start : UInt64} {records : List T}
      {rows : List Features} (hcall : dedupe.calls id = some call)
      (hphase : call.phase = .inserted start records rows) (hne : records ≠ []) :
      DedupeStep crc sha1 dedupe
        ((dedupe.extend id records rows).setCall id (call.append start records rows))
  | synced {dedupe : Dedupe T} {lock : Option TryLockError} {result : Except NativeError Unit}
      {engine : DedupeEngine} {world : World}
      (hrun : dedupe.engine.sync crc lock dedupe.world = (result, engine, world)) :
      DedupeStep crc sha1 dedupe { dedupe with engine, world }
  | closed {dedupe : Dedupe T} {lock : Option TryLockError} {result : Except NativeError Unit}
      {engine : DedupeEngine} {world : World}
      (hrun : dedupe.engine.close crc lock dedupe.world = (result, engine, world)) :
      DedupeStep crc sha1 dedupe { dedupe with engine, world }
  | elsewhere {dedupe : Dedupe T} {world : World}
      (hfiles : ∀ state store, dedupe.engine.inner = some state → state.store = some store →
        world.files.read store.path.location = dedupe.world.files.read store.path.location) :
      DedupeStep crc sha1 dedupe { dedupe with world }

end Pari.Python
