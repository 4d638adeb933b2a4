/-
# Deduplicating records

`pari dedup` inserts the records batch by batch into an index in memory and prints its candidate
pairs or its groups. The batches do not matter: what is printed is what one insertion of all
records would give. Progress events, the output file, which must not be the input, and the two
renderings of a line are left out; the digest and the tuning of the parameters are parameters.
-/

import Pari.Cli.Search
import Pari.Index.UniquePairs
import Pari.Store.Insertion

namespace Pari.Cli

open Data Pari.Format Pari.Core Pari.Index Pari.Store Relation

/-! ## The command -/

inductive DedupOutput
  | pairs
  | groups
  deriving DecidableEq, Repr

structure DedupArgs where
  threshold : F64
  numPerm : Nat
  seed : UInt64
  emit : DedupOutput
  minSize : Nat
  batchSize : Nat
  /-- `--progress` is given. -/
  progress : Bool
  progressEvery : Nat

inductive RecordError
  | sketch (error : CliError)
  | index (error : LshError)
  deriving DecidableEq, Repr

/-- The last one is the panic of a vector that cannot be as long as it is asked to be. -/
inductive DedupError
  | message (text : String)
  | io (error : IoError)
  | index (error : LshError)
  | lines (error : LineError RecordError)
  | capacityOverflow
  deriving DecidableEq, Repr

/-- What is printed, before it is rendered. -/
inductive DedupLines
  | pairs (pairs : List (UInt64 × UInt64))
  | groups (groups : List DuplicateGroup)
  deriving DecidableEq

/-- The index and the batch that has not been inserted yet. -/
structure Deduping (scheme : SignatureScheme) where
  index : LshIndex scheme
  batch : List (UInt64 × MinHash scheme)

section Deduping

variable (sha1 : Bytes → Bytes) (tune : F64 → Nat → Except LshError LshParams)
  {scheme : SignatureScheme}

def insertPending (deduping : Deduping scheme) : Except LshError (Deduping scheme) :=
  match deduping.index.insertMany deduping.batch with
  | (.error error, _) => .error error
  | (.ok (), index) => .ok { index, batch := [] }

/-- One record. A full batch is inserted. -/
def addPending (args : DedupArgs) (record : Record) (deduping : Deduping scheme) :
    Except RecordError (Deduping scheme) := do
  let sketch ← (makeSketch sha1 scheme record args.numPerm args.seed).mapError .sketch
  let added := { deduping with batch := deduping.batch ++ [(record.key, sketch)] }
  if added.batch.length = args.batchSize then (insertPending added).mapError .index
  else .ok added

/-- What follows the last line. -/
def insertRest (deduping : Deduping scheme) : Except LshError (LshIndex scheme) :=
  if deduping.batch.isEmpty then .ok deduping.index
  else do
    let inserted ← insertPending deduping
    return inserted.index

/-- The index of all records. -/
def dedupIndex (args : DedupArgs) (index : LshIndex scheme) (lines : List (JsonLine Record)) :
    Except DedupError (LshIndex scheme) :=
  match forEachLine (addPending sha1 args) 0 lines { index, batch := [] } with
  | (.error error, _) => .error (.lines error)
  | (.ok (), deduping) => (insertRest deduping).mapError .index

/-- The pairs or groups of an index; neither verifies. -/
def dedupLines (args : DedupArgs) (orders : HashOrders) (data : IndexData) : Option DedupLines :=
  match args.emit with
  | .pairs => (candidatePairs data orders.buckets).map .pairs
  | .groups => (duplicateGroupsWith data orders args.minSize fun _ _ => true).map .groups

/-- `pari dedup`; the input may not open. -/
def dedup (scheme : SignatureScheme) (args : DedupArgs) (orders : HashOrders)
    (input : Except IoError (List (JsonLine Record))) : Except DedupError (Option DedupLines) := do
  rejectIf (args.minSize = 0) (.message "--min-size must be positive")
  rejectIf (args.batchSize = 0) (.message "--batch-size must be positive")
  rejectIf (args.progress = true ∧ args.progressEvery = 0)
    (.message "--progress-every must be positive")
  let params ← (tune args.threshold args.numPerm).mapError .index
  let index ← (LshIndex.withParams scheme args.threshold args.numPerm args.seed params).mapError
    .index
  let lines ← input.mapError .io
  rejectIf (¬ Reservable args.batchSize) .capacityOverflow
  let index ← dedupIndex sha1 args index lines
  return dedupLines args orders index.data

end Deduping

/-! ## Lines -/

section Lines

variable {ρ σ ε : Type}

/-- The records of an input, if no line is bad. -/
def recordsOf : List (JsonLine ρ) → Option (List ρ)
  | [] => some []
  | .blank :: lines => recordsOf lines
  | .json (.ok record) :: lines => (recordsOf lines).map (record :: ·)
  | .json (.error _) :: _ => none
  | .unreadable _ :: _ => none

end Lines

/-! ## Batches -/

section Batches

variable {sha1 : Bytes → Bytes} {scheme : SignatureScheme} {index final : LshIndex scheme}
  {rows : Rows} {items more : List (UInt64 × MinHash scheme)}

/-- The index with a batch in it. -/
def filled (index : LshIndex scheme) (items : List (UInt64 × MinHash scheme)) : LshIndex scheme where
  config := index.config
  data := items.foldl (fun data item =>
    data.insertValidated item.1 (computeBandHashes index.config.params item.2.signature)) index.data

/-- The key and the sketch of a record. -/
def sketched (sha1 : Bytes → Bytes) (scheme : SignatureScheme) (args : DedupArgs) (record : Record) :
    Except CliError (UInt64 × MinHash scheme) := do
  let sketch ← makeSketch sha1 scheme record args.numPerm args.seed
  return (record.key, sketch)

end Batches

/-! ## What is printed -/

section Printed

variable {sha1 : Bytes → Bytes} {tune : F64 → Nat → Except LshError LshParams}
  {scheme : SignatureScheme} {args : DedupArgs} {orders : HashOrders} {config : LshConfig}
  {items : List (UInt64 × MinHash scheme)} {lines : List (JsonLine Record)}

/-- What an input must be for a run to print something, whatever the batch size. -/
structure Dedupable (sha1 : Bytes → Bytes) (tune : F64 → Nat → Except LshError LshParams)
    (args : DedupArgs) (lines : List (JsonLine Record)) (config : LshConfig)
    (items : List (UInt64 × MinHash scheme)) : Prop where
  minSize : 0 < args.minSize
  progress : ¬ (args.progress = true ∧ args.progressEvery = 0)
  tuned : ∃ params, tune args.threshold args.numPerm = .ok params ∧
    LshConfig.new args.threshold args.numPerm args.seed params = .ok config
  readable : ∃ records, recordsOf lines = some records ∧
    records.mapM (sketched sha1 scheme args) = .ok items
  distinct : (items.map Prod.fst).Nodup
  capacity : items.length ≤ 2 ^ 32 - 1

def DedupLines.kind : DedupLines → DedupOutput
  | .pairs _ => .pairs
  | .groups _ => .groups

theorem compatible_of_sketched {records : List Record} (hnumPerm : config.numPerm = args.numPerm)
    (hseed : config.seed = args.seed) (h : records.mapM (sketched sha1 scheme args) = .ok items) :
    ∀ item ∈ items, config.Compatible item.2 := by
  intro item hitem
  obtain ⟨record, _, hrecord⟩ := exists_left_of_forall₂ (mapM_eq_ok_iff.mp h) hitem
  rw [sketched, ← hnumPerm, ← hseed] at hrecord
  obtain ⟨sketch, hsketch, hpair⟩ := bind_eq_ok_iff.mp hrecord
  obtain rfl := Except.ok.inj hpair
  exact compatible_of_makeSketch hsketch

theorem Dedupable.compatible (h : Dedupable sha1 tune args lines config items) :
    ∀ item ∈ items, config.Compatible item.2 := by
  obtain ⟨_, _, hnew⟩ := h.tuned
  obtain ⟨_, hnumPerm, hseed, _⟩ := LshConfig.new_eq_ok_iff.mp hnew
  obtain ⟨_, _, hitems⟩ := h.readable
  exact compatible_of_sketched hnumPerm hseed hitems

/-- An input comes to one list under one configuration. -/
theorem Dedupable.unique {config' : LshConfig} {items' : List (UInt64 × MinHash scheme)}
    (h : Dedupable sha1 tune args lines config items)
    (h' : Dedupable sha1 tune args lines config' items') : config' = config ∧ items' = items := by
  obtain ⟨params, htune, hnew⟩ := h.tuned
  obtain ⟨params', htune', hnew'⟩ := h'.tuned
  obtain ⟨records, hrecords, hitems⟩ := h.readable
  obtain ⟨records', hrecords', hitems'⟩ := h'.readable
  obtain rfl := Except.ok.inj (htune.symm.trans htune')
  obtain rfl := Option.some.inj (hrecords.symm.trans hrecords')
  exact ⟨Except.ok.inj (hnew'.symm.trans hnew), Except.ok.inj (hitems'.symm.trans hitems)⟩

end Printed

end Pari.Cli
