/-
# Building an index

`pari index` reads records line by line, turns each into a sketch, and stores and commits them
batch by batch. The input is what the JSON decoder makes of its lines; SHA-1 and the tuning of
the parameters are parameters here. Progress events and the printed summary are left out.
-/

import Pari.Cli.Transaction
import Pari.Core.Sketching

namespace Pari.Cli

open Data Pari.Format Pari.Core Pari.Index Pari.Store

/-! ## Records -/

structure Record where
  key : UInt64
  values : Option (List String)
  signature : Option (List UInt64)
  scheme : Option String
  seed : Option UInt64
  deriving DecidableEq, Repr

/-- A line of the input: blank, decoded or refused by the decoder, or not read at all. -/
inductive InputLine
  | blank
  | json (record : Except String Record)
  | unreadable (error : IoError)

structure IndexArgs where
  output : Path
  threshold : F64
  numPerm : Nat
  seed : UInt64
  batchSize : Nat
  /-- `--progress` is given. -/
  progress : Bool
  progressEvery : Nat

def validateSignatureSeed (actual : Option UInt64) (expected : UInt64) : Except CliError Unit :=
  match actual with
  | none => .ok ()
  | some actual => rejectIf (actual ≠ expected) (.message
      ("precomputed signature seed " ++ toString actual ++ " does not match configured seed " ++
        toString expected))

def signatureSchemeName : SignatureScheme → String
  | .pariAffine32V1 => affine32Scheme
  | .pariAffine64V1 => affine64Scheme

/-- The two sketch makers word this differently. -/
def schemeMismatch : SignatureScheme → String → String
  | .pariAffine32V1 => fun scheme => "unsupported signature scheme " ++ scheme.quote ++
      "; expected " ++ affine32Scheme.quote
  | .pariAffine64V1 => fun scheme => "incompatible signature scheme " ++ scheme.quote ++
      "; expected " ++ affine64Scheme.quote

/-- The words of a precomputed signature; only 32-bit words can be exceeded. -/
def signatureWords (scheme : SignatureScheme) (signature : List UInt64) :
    Except CliError (List (Word scheme)) :=
  signature.zipIdx.mapM fun (value, index) =>
    okOr (Word.tryFrom scheme value) (.message
      ("precomputed affine32 signature value " ++ toString index ++ " (" ++ toString value ++
        ") exceeds 4294967295"))

def minHashMessage : MinHashError → CliError
  | .invalidPermutationCount requested =>
      .message ("num_perm must be in 1..=4294967295, got " ++ toString requested)
  | .incompatibleSeed left right => .message
      ("incompatible MinHash seeds: " ++ toString left ++ " != " ++ toString right)
  | .incompatiblePermutationCount left right => .message
      ("incompatible MinHash permutation counts: " ++ toString left ++ " != " ++ toString right)
  | .batchPoolUnavailable message =>
      .message ("MinHash batch worker pool is unavailable: " ++ message)

/-- `make_sketch32` and `make_sketch64`. -/
def makeSketch (sha1 : Bytes → Bytes) (scheme : SignatureScheme) (record : Record) (numPerm : Nat)
    (seed : UInt64) : Except CliError (MinHash scheme) :=
  match record.values, record.signature with
  | some values, none => do
      rejectIf (record.scheme.isSome = true)
        (.message "scheme is only valid with a precomputed signature")
      rejectIf (record.seed.isSome = true)
        (.message "seed is only valid with a precomputed signature")
      let sketch ← (MinHash.new scheme numPerm seed).mapError minHashMessage
      return values.foldl (fun sketch value => sketch.update sha1 value.toUTF8.toList) sketch
  | none, some signature => do
      let name ← okOr record.scheme (.message "precomputed signatures require a scheme field")
      rejectIf (name ≠ signatureSchemeName scheme) (.message (schemeMismatch scheme name))
      rejectIf (signature.length ≠ numPerm) (.message
        ("precomputed signature has " ++ toString signature.length ++ " values; expected " ++
          toString numPerm))
      validateSignatureSeed record.seed seed
      let words ← signatureWords scheme signature
      (MinHash.fromSignature words seed).mapError minHashMessage
  | some _, some _ => .error (.message "record must contain either values or signature, not both")
  | none, none => .error (.message "record must contain either values or signature")

/-- `for_json_lines`, with the lines read so far. -/
def forJsonLines {σ : Type} (operation : Record → σ → World → Except CliError σ × World) :
    Nat → List InputLine → σ → World → Except CliError σ × World
  | _, [], state, world => (.ok state, world)
  | _, .unreadable error :: _, _, world => (.error (.io error), world)
  | lines, .blank :: rest, state, world => forJsonLines operation (lines + 1) rest state world
  | lines, .json (.error error) :: _, _, world =>
      (.error (.message ("invalid JSON on line " ++ toString (lines + 1) ++ ": " ++ error)), world)
  | lines, .json (.ok record) :: rest, state, world =>
      match operation record state world with
      | (.error error, world) => (.error (.line (lines + 1) error), world)
      | (.ok state, world) => forJsonLines operation (lines + 1) rest state world

/-! ## Building -/

/-- The size of a batched key and sketch: the key, the seed, a vector and two shared slices. -/
def batchItemBytes : Nat := 72

/-- `Vec::with_capacity` does not panic. -/
def Reservable (batchSize : Nat) : Prop := batchSize * batchItemBytes < 2 ^ 63

instance (batchSize : Nat) : Decidable (Reservable batchSize) := Nat.decLt _ _

/-- The index and the batch that has not been stored yet. -/
structure Building (scheme : SignatureScheme) where
  store : PersistentIndexCore scheme
  batch : List (UInt64 × MinHash scheme)

structure IndexSummary where
  items : Nat
  fileBytes : Nat
  bands : Nat
  rows : Nat
  deriving DecidableEq, Repr

section Building

variable (crc : Checksum) (sha1 : Bytes → Bytes)
  (tune : F64 → Nat → Except LshError LshParams) {scheme : SignatureScheme}

/-- `PersistentIndex32::create` and `PersistentIndex64::create`. -/
def createTuned (scheme : SignatureScheme) (path : Path) (threshold : F64) (numPerm : Nat)
    (seed : UInt64) (world : World) : Except StoreError (PersistentIndexCore scheme) × World :=
  match tune threshold numPerm with
  | .error error => (.error (.index error), world)
  | .ok params =>
      match LshIndex.withParams scheme threshold numPerm seed params with
      | .error error => (.error (.index error), world)
      | .ok reference => PersistentIndexCore.createWithParams crc scheme path threshold numPerm seed
          reference.config.params world

/-- `insert_many` and `sync`. -/
def storeBatch (store : PersistentIndexCore scheme) (batch : List (UInt64 × MinHash scheme))
    (world : World) : Except CliError (PersistentIndexCore scheme) × World :=
  match store.insertMany batch with
  | (.error error, _) => (.error (.store error), world)
  | (.ok (), store) =>
      match store.sync crc world with
      | (.error error, _, world) => (.error (.store error), world)
      | (.ok (), store, world) => (.ok store, world)

/-- One record. -/
def addRecord (args : IndexArgs) (record : Record) (building : Building scheme) (world : World) :
    Except CliError (Building scheme) × World :=
  match makeSketch sha1 scheme record args.numPerm args.seed with
  | .error error => (.error error, world)
  | .ok sketch =>
      let batch := building.batch ++ [(record.key, sketch)]
      if batch.length = args.batchSize then
        match storeBatch crc building.store batch world with
        | (.error error, world) => (.error error, world)
        | (.ok store, world) => (.ok { store, batch := [] }, world)
      else (.ok { building with batch }, world)

/-- The length of the file in `stats`, which a missing file does not have. -/
def fileBytes (store : PersistentIndexCore scheme) (world : World) : Except StoreError Nat × World :=
  match world.metadataLength store.path with
  | (.ok length, world) => (.ok length, world)
  | (.error error, world) =>
      if error.kind = .notFound then (.ok 0, world) else (.error (.io error), world)

/-- An empty rest is not inserted, but the index is synced. -/
def storeRest (building : Building scheme) (world : World) :
    Except CliError (PersistentIndexCore scheme) × World :=
  if building.batch.isEmpty then
    match building.store.sync crc world with
    | (.error error, _, world) => (.error (.store error), world)
    | (.ok (), store, world) => (.ok store, world)
  else storeBatch crc building.store building.batch world

/-- What follows the last line. -/
def finish (building : Building scheme) (world : World) : Except CliError IndexSummary × World :=
  match storeRest crc building world with
  | (.error error, world) => (.error error, world)
  | (.ok store, world) =>
      match fileBytes store world with
      | (.error error, world) => (.error (.store error), world)
      | (.ok length, world) =>
          match store.close crc world with
          | (.error error, world) => (.error (.store error), world)
          | (.ok (), world) => (.ok {
              items := store.len
              fileBytes := length
              bands := store.config.params.bands
              rows := store.config.params.rows }, world)

/-- `build_index32` and `build_index64`; the input may not open. -/
def buildIndex (scheme : SignatureScheme) (args : IndexArgs)
    (input : Except IoError (List InputLine)) (output : Path) (world : World) :
    Except CliError IndexSummary × World :=
  match createTuned crc tune scheme output args.threshold args.numPerm args.seed world with
  | (.error error, world) => (.error (.store error), world)
  | (.ok store, world) =>
      if args.progress = true ∧ args.progressEvery = 0 then
        (.error (.message "--progress-every must be positive"), world)
      else
        match input with
        | .error error => (.error (.io error), world)
        | .ok lines =>
            if Reservable args.batchSize then
              match forJsonLines (addRecord crc sha1 args) 0 lines { store, batch := [] } world with
              | (.error error, world) => (.error error, world)
              | (.ok building, world) => finish crc building world
            else (.error .capacityOverflow, world)

/-- `pari index`. A panic only drops the transaction. -/
def index (scheme : SignatureScheme) (args : IndexArgs) (input : Except IoError (List InputLine))
    (nonce : Nat) (world : World) : Except CliError IndexSummary × World :=
  if args.batchSize = 0 then (.error (.message "--batch-size must be positive"), world)
  else
    match IndexOutputTransaction.begin args.output nonce world with
    | (.error error, world) => (.error error, world)
    | (.ok transaction, world) =>
        match buildIndex crc sha1 tune scheme args input transaction.stagedPath world with
        | (.error .capacityOverflow, world) => (.error .capacityOverflow, transaction.drop world)
        | (.error error, world) =>
            let (error, world) := transaction.abort error world
            (.error error, world)
        | (.ok summary, world) =>
            match transaction.publish world with
            | (.error error, world) => (.error error, world)
            | (.ok (), world) => (.ok summary, world)

end Building

end Pari.Cli
