/-
# The conformance kit

The kit runs one fixed exercise against a fresh backend, beside an in-memory index as the
reference, and stops at the first violation with its message. Every conforming backend passes,
whatever digest and objective are used. A backend that commits the records of a rejected batch
one by one is caught at the first check that can tell.
-/

import Pari.Backend.Observation
import Pari.Core.Sketching
import Pari.Index.Tuning

namespace Pari.Backend.Conformance

open Data Data.Method Pari.Format Pari.Core Pari.Index

def numPerm : Nat := 128

def seed : UInt64 := 7

def retention : Duration := .fromSecs 300

/-- `0.8`. -/
def threshold : F64 := ⟨0x3FE999999999999A⟩

/-- The index under exercise, and the reference. -/
structure Exercise (β : Type) where
  index : ObservedIndex32 β
  reference : LshIndex32

/-- A step of the exercise; a violation is its message. -/
abbrev Step (β α : Type) := Method (Exercise β) String α

variable {β : Type} [StorageBackend β]

/-! ## The exercise -/

/-- Call the index, expecting an answer. -/
def onIndex {α : Type} (message : String) (method : ObservedMethod β α) : Step β α :=
  method.onPart Exercise.index (fun index exercise => { exercise with index }) fun _ => message

/-- Call the index, expecting an error. -/
def onIndexError {α : Type} (message : String) (method : ObservedMethod β α) :
    Step β BackendIndexError :=
  (method.expectError message).onPart Exercise.index (fun index exercise => { exercise with index }) id

/-- Call the reference, expecting an answer. -/
def onReference {α : Type} (message : String)
    (change : LshIndex32 → Except LshError α × LshIndex32) : Step β α := fun exercise =>
  ((change exercise.reference).1.mapError fun _ => message,
    { exercise with reference := (change exercise.reference).2 })

/-- Ask the reference, expecting an answer. -/
def askReference {α : Type} (message : String) (view : LshIndex32 → Except LshError α) : Step β α :=
  tryRead fun exercise => (view exercise.reference).mapError fun _ => message

/-- `assert!`. -/
def check (condition : Prop) [Decidable condition] (message : String) : Step β Unit :=
  lift (rejectIf (¬ condition) message)

def assertRequiredCapabilities (capabilities : BackendCapabilities) : Except String Unit :=
  [BackendCapability.batchRead, .batchWrite, .delete, .flush, .health].forM fun capability =>
    rejectIf (capabilities.supports capability = false)
      s!"backend must advertise required capability {(repr capability).pretty}"

def sketch (sha1 : Bytes → Bytes) (values : List String) : Except String MinHash32 := do
  let sketch ← (MinHash.new .pariAffine32V1 numPerm seed).mapError fun _ =>
    "conformance sketch must be valid"
  return sketch.updateMany sha1 (values.map fun value => value.toUTF8.toList)

/-- The sketches of the exercise. -/
structure Sketches where
  first : MinHash32
  duplicate : MinHash32
  third : MinHash32

def exerciseAtomicity (sketches : Sketches) : Step β Unit := do
  onReference "conformance reference insert must succeed" fun reference =>
    reference.insertMany [(1, sketches.first)]
  onIndex "backend must accept an initial insert" (ObservedIndex32.insert 1 sketches.first)
  let error ← onIndexError "backend must reject a batch containing an existing key"
    (ObservedIndex32.insertMany [(2, sketches.duplicate), (1, sketches.first)])
  check (error = .backend (.duplicateKey 1)) "backend must report the existing duplicate key"
  let present ← onIndex "backend contains must work after a rejected batch"
    (ObservedIndex32.contains 2)
  check (present = false) "backend partially committed a rejected insertion batch"
  onIndex "backend must accept a valid insertion batch"
    (ObservedIndex32.insertMany [(2, sketches.duplicate), (3, sketches.third)])
  onReference "conformance reference batch insert must succeed" fun reference =>
    reference.insertMany [(2, sketches.duplicate), (3, sketches.third)]

/-- The time each query takes is whatever the clock says. -/
def exerciseQueriesAndDelete (clock : Nat → Nat) (sketches : Sketches) : Step β Unit := do
  onIndex "unreachable" (ObservedIndex32.setObservability true)
  let scalar ← onIndex "backend scalar query must succeed"
    (ObservedIndex32.query (clock 0) sketches.first)
  let expected ← askReference "conformance reference scalar query must succeed" fun reference =>
    reference.query sketches.first
  check (scalar = expected) "backend scalar candidates differ from LshIndex32"
  let batch ← onIndex "backend batch query must succeed"
    (ObservedIndex32.queryMany (clock 1) [sketches.first, sketches.third])
  let expectedBatch ← askReference "conformance reference batch query must succeed" fun reference =>
    reference.queryMany [sketches.first, sketches.third]
  check (batch = expectedBatch) "backend batch candidates differ from LshIndex32"
  let present ← onIndex "backend batch contains must succeed"
    (ObservedIndex32.containsMany [3, 1, 4, 1])
  check (present = [true, true, false, true]) "backend contains results must preserve input order"
  let removed ← onIndex "backend batch delete must succeed" (ObservedIndex32.removeMany [2, 99, 2])
  check (removed = 1) "backend delete count must include only live distinct keys"
  let existed ← onReference "unreachable" fun reference =>
    (.ok (reference.remove 2).1, (reference.remove 2).2)
  check (existed = true) "assertion failed: reference.remove(2)"
  let scalar ← onIndex "backend query after delete must succeed"
    (ObservedIndex32.query (clock 2) sketches.first)
  let expected ← askReference "conformance reference query after delete must succeed"
    fun reference => reference.query sketches.first
  check (scalar = expected) "backend deletion must remove all bucket memberships for the key"

def exerciseOperationsAndStats (capabilities : BackendCapabilities) : Step β Unit := do
  onIndex "backend flush must succeed" ObservedIndex32.flush
  onIndex "backend health probe must succeed" ObservedIndex32.health
  let stats ← onIndex "backend statistics must succeed" ObservedIndex32.stats
  check (stats.items = 2) "backend statistics report the wrong item count"
  check (0 < stats.bucketMemberships) "backend statistics must report live bucket memberships"
  let queries ← lift (okOr stats.queries
    "BackendIndex32 must attach enabled query observations")
  check (queries.operations = 3) "assertion failed: queries.operations == 3"
  check (queries.queries = 4) "assertion failed: queries.queries == 4"
  check (queries.possibleCandidates = 11) "assertion failed: queries.possible_candidates == 11"
  check (0 < queries.candidateRate) "assertion failed: queries.candidate_rate() > 0.0"
  if capabilities.supports .ttl = true then
    check (stats.ttlSecondsRemaining.isSome = true)
      "a backend advertising TTL must report active retention"
  else
    check (stats.ttlSecondsRemaining = none)
      "a backend without TTL must not report active retention"

/-- Exercise the primitive directly: the index wrapper deduplicates keys. -/
def exerciseRawDeletion (sketches : Sketches) : Step β Unit := do
  onIndex "insert key for raw deletion" (ObservedIndex32.insert 4 sketches.first)
  let removed ← onIndex "backend primitive delete must succeed"
    (ObservedIndex32.onIndex (BackendIndex32.onBackend (StorageBackend.deleteMany [4, 99, 4, 99])))
  check (removed = 1) "backend primitive delete count must include only live distinct keys"
  let removed ← onIndex "repeated deletion must succeed"
    (ObservedIndex32.onIndex (BackendIndex32.onBackend (StorageBackend.deleteMany [4, 4, 99])))
  check (removed = 0) "already removed keys must not be counted again"

/-- `PartialEq` of descriptors, field by field. Between zero and one equal floats have equal
bits. -/
def sameDescriptor (left right : IndexDescriptor) : Bool :=
  left.threshold == right.threshold && left.numPerm == right.numPerm && left.seed == right.seed &&
    left.params == right.params && left.retention == right.retention

def reopen (descriptor : IndexDescriptor) : Method β String (ObservedIndex32 β) := do
  let stored ← StorageBackend.loadDescriptor.expect "backend must load its initialized descriptor"
  lift (rejectIf (sameDescriptor stored descriptor = false)
    "backend changed descriptor fields while persisting them")
  let error ← (StorageBackend.initializeNamespace descriptor).expectError
    "backend must reject initialization of an existing namespace"
  lift (rejectIf (error ≠ .alreadyExists)
    "backend must report AlreadyExists when initialized twice")
  ObservedIndex32.openIndex.expect "backend must reopen its persisted descriptor"

/-- The verdict on loading a descriptor after cleanup. -/
def cleanupVerdict : Except BackendError IndexDescriptor → Except String Unit
  | .error .notFound => .ok ()
  | .error _ => .error "backend must report NotFound after cleanup"
  | .ok _ => .error "backend descriptor remained available after cleanup"

def exerciseCleanup : Method β String Unit := do
  StorageBackend.cleanup.expect "backend cleanup must remove the owned namespace"
  let loaded ← fun backend =>
    ((.ok (call backend StorageBackend.loadDescriptor).1 : Except String _),
      (call backend StorageBackend.loadDescriptor).2)
  lift (cleanupVerdict loaded)

/-- `LshIndex32::new`. -/
def newReference (tune : F64 → Nat → Except LshError LshParams) : Except LshError LshIndex32 := do
  let params ← tune threshold numPerm
  LshIndex.withParams .pariAffine32V1 threshold numPerm seed params

/-- The steps on one open index. -/
def exerciseIndex (clock : Nat → Nat) (capabilities : BackendCapabilities) (sketches : Sketches) :
    Step β Unit := do
  exerciseAtomicity sketches
  exerciseQueriesAndDelete clock sketches
  exerciseOperationsAndStats capabilities
  exerciseRawDeletion sketches

/-- What follows the exercise of the index: reopen it, query once more, and clean up. -/
def closeContract (clock : Nat → Nat) (descriptor : IndexDescriptor) (first : MinHash32)
    (exercised : Except String Unit × Exercise β) : Except String Unit := do
  exercised.1
  let reopened := call exercised.2.index.backend (reopen descriptor)
  let again ← reopened.1
  let answer := call again (ObservedIndex32.query (clock 3) first)
  let found ← answer.1.mapError fun _ => "reopened backend query must succeed"
  let expected ← (exercised.2.reference.query first).mapError fun _ =>
    "conformance reference reopen query must succeed"
  rejectIf (found ≠ expected) "reopened backend candidates differ from LshIndex32"
  (call answer.2.backend exerciseCleanup).1

/-- Exercise the product-independent contract for one storage backend. -/
def exerciseBackendContract (tune : F64 → Nat → Except LshError LshParams)
    (sha1 : Bytes → Bytes) (clock : Nat → Nat) (backend : β) : Except String Unit := do
  let capabilities := StorageBackend.capabilities backend
  assertRequiredCapabilities capabilities
  let retention := if capabilities.supports .ttl = true then some retention else none
  let first ← sketch sha1 ["alpha", "beta", "gamma"]
  let third ← sketch sha1 ["unrelated", "record"]
  let reference ← (newReference tune).mapError fun _ =>
    "conformance reference index must be valid"
  let index ← (call backend
    (ObservedIndex32.create tune threshold numPerm seed retention)).1.mapError fun _ =>
      "backend must initialize a fresh namespace"
  closeContract clock index.descriptor first (call { index, reference }
    (exerciseIndex clock capabilities { first, duplicate := first, third }))

/-! ## Stages of the exercise -/

section Stages

variable {offered : BackendCapabilities} {Fresh : β → Prop}
  {Keeps : β → IndexDescriptor → Rows → Prop} {descriptor : IndexDescriptor}
  {rows referenceRows : Rows} {slots : Nat} {book : Book} {exercise : Exercise β}

/-- What the index and the reference hold between two steps. -/
structure Stage (Keeps : β → IndexDescriptor → Rows → Prop) (descriptor : IndexDescriptor)
    (rows referenceRows : Rows) (slots : Nat) (book : Book) (exercise : Exercise β) : Prop where
  tracks : Tracks Keeps exercise.index book
  items : Enumerates book.items rows
  under : exercise.index.descriptor = descriptor
  holds : exercise.reference.Holds referenceRows
  config : exercise.reference.config = descriptor.toLshConfig
  assigned : exercise.reference.data.idToKey.length = slots

omit [StorageBackend β] in
theorem Stage.onIndex {α : Type} (h : Stage Keeps descriptor rows referenceRows slots book exercise)
    {method : ObservedMethod β α} {post : α → Prop} {rows' : Rows} {book' : Book} (message : String)
    (hmethod : Ensures exercise.index method fun value index' =>
      post value ∧ Follows Keeps exercise.index index' book')
    (hitems : Enumerates book'.items rows') :
    Ensures exercise (Conformance.onIndex message method) fun value exercise' =>
      post value ∧ Stage Keeps descriptor rows' referenceRows slots book' exercise' := by
  refine hmethod.onPart fun value index' hfollows => ⟨hfollows.1, ?_⟩
  exact ⟨hfollows.2.tracks, hitems, hfollows.2.descriptor.trans h.under, h.holds, h.config,
    h.assigned⟩

omit [StorageBackend β] in
/-- The reference accepts what the rows allow. -/
theorem Stage.insertReference (h : Stage Keeps descriptor rows referenceRows slots book exercise)
    (message : String) {items : List (UInt64 × MinHash32)}
    (hitems : Acceptable descriptor.toLshConfig referenceRows items)
    (hroom : slots + items.length ≤ 2 ^ 32 - 1) :
    Ensures exercise (onReference message fun reference => reference.insertMany items)
      fun _ => Stage Keeps descriptor rows
        (insertRows referenceRows (descriptor.toLshConfig.rowsOf items)) (slots + items.length)
        book := by
  have haccepts : exercise.reference.Accepts referenceRows items :=
    ⟨hitems.fresh, hitems.distinct, fun item hmem => by
      rw [h.config]
      exact hitems.compatible item hmem, by rwa [h.assigned]⟩
  have hok := h.holds.insertMany_ok_iff.mpr haccepts
  obtain ⟨hconfig, hslots, hholds⟩ := h.holds.insertMany_of_accepts haccepts
  rw [h.config] at hholds
  refine ⟨(), { exercise with reference := (exercise.reference.insertMany items).2 }, ?_, h.tracks,
    h.items, h.under, hholds, hconfig.trans h.config,
    hslots.trans (congrArg (· + items.length) h.assigned)⟩
  show ((exercise.reference.insertMany items).1.mapError _, _) = _
  rw [hok]
  rfl

omit [StorageBackend β] in
theorem ensures_check {condition : Prop} [Decidable condition] (hcondition : condition)
    (message : String) :
    Ensures exercise (check condition message) fun _ exercise' => exercise = exercise' := by
  rw [check]
  exact .passes (not_not.mpr hcondition)

omit [StorageBackend β] in
theorem ensures_okOr {α : Type} (value : α) (message : String) :
    Ensures exercise (lift (okOr (some value) message) : Step β α) fun answer exercise' =>
      answer = value ∧ exercise = exercise' :=
  .lift ⟨rfl, rfl⟩

omit [StorageBackend β] in
theorem ensures_askReference {α : Type} {view : LshIndex32 → Except LshError α} {value : α}
    (hview : view exercise.reference = .ok value) (message : String) :
    Ensures exercise (askReference message view) fun answer exercise' =>
      answer = value ∧ exercise = exercise' := by
  refine ⟨value, exercise, ?_, rfl, rfl⟩
  rw [askReference, call_tryRead, hview]
  rfl

omit [StorageBackend β] in
theorem Stage.onIndexError {α : Type}
    (h : Stage Keeps descriptor rows referenceRows slots book exercise)
    {method : ObservedMethod β α} {error : BackendIndexError} {index' : ObservedIndex32 β}
    (message : String) (hmethod : call exercise.index method = (.error error, index'))
    (hfollows : Follows Keeps exercise.index index' book) :
    Ensures exercise (Conformance.onIndexError message method) fun answer exercise' =>
      answer = error ∧ Stage Keeps descriptor rows referenceRows slots book exercise' := by
  have hexpected : Ensures exercise.index (method.expectError message) fun answer index =>
      answer = error ∧ index = index' := .expectError hmethod ⟨rfl, rfl⟩
  refine hexpected.onPart fun answer index hanswer => ?_
  obtain ⟨rfl, rfl⟩ := hanswer
  exact ⟨rfl, hfollows.tracks, h.items, hfollows.descriptor.trans h.under, h.holds, h.config,
    h.assigned⟩

omit [StorageBackend β] in
/-- A step of the index whose answer does not matter. -/
theorem Stage.onIndex_unit (h : Stage Keeps descriptor rows referenceRows slots book exercise)
    {method : ObservedMethod β Unit} {rows' : Rows} {book' : Book} (message : String)
    (hmethod : Ensures exercise.index method fun _ index' =>
      Follows Keeps exercise.index index' book')
    (hitems : Enumerates book'.items rows') :
    Ensures exercise (Conformance.onIndex message method) fun _ exercise' =>
      Stage Keeps descriptor rows' referenceRows slots book' exercise' := by
  have hanswered : Ensures exercise.index method fun _ index' =>
      True ∧ Follows Keeps exercise.index index' book' :=
    hmethod.mono fun _ _ hfollows => ⟨trivial, hfollows⟩
  exact (h.onIndex message hanswered hitems).mono fun _ _ hstage => hstage.2

theorem Stage.insertIndex (lawful : Lawful Keeps)
    (h : Stage Keeps descriptor rows referenceRows slots book exercise) (message : String)
    {items : List (UInt64 × MinHash32)} (hitems : Acceptable descriptor.toLshConfig rows items)
    (hroom : book.items.length + items.length < 2 ^ 64) :
    Ensures exercise (Conformance.onIndex message (ObservedIndex32.insertMany items)) fun _ =>
      Stage Keeps descriptor (insertRows rows (descriptor.toLshConfig.rowsOf items)) referenceRows
        slots { book with items := book.items ++ descriptor.toLshConfig.rowsOf items } := by
  have hunder := h.under
  subst hunder
  exact h.onIndex_unit message (h.tracks.ensures_insertMany lawful h.items hitems hroom)
    (enumerates_insertRows h.items hitems.freshBatch)

/-- A prepared batch is refused for a key that clashes, and the index stays as it was. -/
theorem Stage.rejectBatch (conforming : Conforming offered Fresh Keeps)
    (h : Stage Keeps descriptor rows referenceRows slots book exercise) (message : String)
    {items : List (UInt64 × MinHash32)} (hdistinct : (items.map Prod.fst).Nodup)
    (hcompatible : ∀ item ∈ items, descriptor.toLshConfig.Compatible item.2)
    (hstale : ¬ Acceptable descriptor.toLshConfig rows items) :
    Ensures exercise (Conformance.onIndexError message (ObservedIndex32.insertMany items))
      fun error exercise' => (∃ key, Clashes rows (storedItems descriptor items) key ∧
          error = .backend (.duplicateKey key)) ∧
        Stage Keeps descriptor rows referenceRows slots book exercise' := by
  have hunder := h.under
  subst hunder
  obtain ⟨key, index', hclashes, hrun, hfollows⟩ :=
    h.tracks.call_insertMany_duplicate conforming h.items hdistinct hcompatible hstale
  refine (h.onIndexError message hrun hfollows).mono fun error exercise' hstage => ?_
  exact ⟨⟨key, hclashes, hstage.1⟩, hstage.2⟩

theorem Stage.contains (lawful : Lawful Keeps)
    (h : Stage Keeps descriptor rows referenceRows slots book exercise) (message : String)
    (key : UInt64) :
    Ensures exercise (Conformance.onIndex message (ObservedIndex32.contains key))
      fun present exercise' => present = (rows key).isSome ∧
        Stage Keeps descriptor rows referenceRows slots book exercise' :=
  h.onIndex message (h.tracks.ensures_contains lawful h.items key) h.items

theorem Stage.containsMany (lawful : Lawful Keeps)
    (h : Stage Keeps descriptor rows referenceRows slots book exercise) (message : String)
    (keys : List UInt64) :
    Ensures exercise (Conformance.onIndex message (ObservedIndex32.containsMany keys))
      fun flags exercise' => flags = keys.map (fun key => (rows key).isSome) ∧
        Stage Keeps descriptor rows referenceRows slots book exercise' :=
  h.onIndex message (h.tracks.ensures_containsMany lawful h.items keys) h.items

theorem Stage.removeMany (lawful : Lawful Keeps)
    (h : Stage Keeps descriptor rows referenceRows slots book exercise) (message : String)
    (keys : List UInt64) :
    Ensures exercise (Conformance.onIndex message (ObservedIndex32.removeMany keys))
      fun count exercise' => count = (deleteRows rows keys).1 ∧
        Stage Keeps descriptor (deleteRows rows keys).2 referenceRows slots (book.forget keys)
          exercise' :=
  h.onIndex message (h.tracks.ensures_removeMany lawful h.items keys)
    (enumerates_deleteRows h.items keys)

omit [StorageBackend β] in
theorem Stage.removeReference (h : Stage Keeps descriptor rows referenceRows slots book exercise)
    (key : UInt64) :
    Ensures exercise (onReference "unreachable" fun reference =>
      ((.ok (reference.remove key).1 : Except LshError Bool), (reference.remove key).2))
      fun existed exercise' => existed = (referenceRows key).isSome ∧
        Stage Keeps descriptor rows (Function.update referenceRows key none) slots book exercise' := by
  obtain ⟨hexisted, hconfig, hholds⟩ := h.holds.remove key
  exact ⟨_, _, rfl, hexisted, ⟨h.tracks, h.items, h.under, hholds, hconfig.trans h.config,
    (idToKey_length_remove exercise.reference key).trans h.assigned⟩⟩

theorem Stage.queryMany (lawful : Lawful Keeps)
    (h : Stage Keeps descriptor rows referenceRows slots book exercise) (message : String)
    {queries : List MinHash32} (hqueries : ∀ sketch ∈ queries, descriptor.toLshConfig.Compatible sketch)
    (hnonempty : queries ≠ []) (elapsed : Nat) :
    Ensures exercise (Conformance.onIndex message (ObservedIndex32.queryMany elapsed queries))
      fun answers exercise' => List.Forall₂ (fun (sketch : MinHash32) keys =>
          Finds rows (computeBandHashes descriptor.params sketch.signature) keys) queries answers ∧
        Stage Keeps descriptor rows referenceRows slots (book.note answers elapsed) exercise' := by
  have hunder := h.under
  subst hunder
  have hquery := h.tracks.ensures_queryMany lawful h.items hqueries elapsed
  refine hquery.onPart fun answers index' hanswers => ?_
  obtain ⟨hfinds, hfollows⟩ := hanswers
  have hanswered : answers.isEmpty = false := by
    cases hfinds with
    | nil => exact absurd rfl hnonempty
    | cons => rfl
  rw [hanswered] at hfollows
  exact ⟨hfinds, hfollows.tracks, h.items, hfollows.descriptor, h.holds, h.config, h.assigned⟩

theorem Stage.query (lawful : Lawful Keeps)
    (h : Stage Keeps descriptor rows referenceRows slots book exercise) (message : String)
    {sketch : MinHash32} (hsketch : descriptor.toLshConfig.Compatible sketch) (elapsed : Nat) :
    Ensures exercise (Conformance.onIndex message (ObservedIndex32.query elapsed sketch))
      fun keys exercise' =>
        Finds rows (computeBandHashes descriptor.params sketch.signature) keys ∧
        Stage Keeps descriptor rows referenceRows slots (book.note [keys] elapsed) exercise' := by
  have hunder := h.under
  subst hunder
  refine (h.tracks.ensures_query lawful h.items hsketch elapsed).onPart fun keys index' hanswer => ?_
  obtain ⟨hfinds, hfollows⟩ := hanswer
  exact ⟨hfinds, hfollows.tracks, h.items, hfollows.descriptor, h.holds, h.config, h.assigned⟩

omit [StorageBackend β] in
/-- The reference finds what its rows say. -/
theorem Stage.askQuery (h : Stage Keeps descriptor rows referenceRows slots book exercise)
    (message : String) {sketch : MinHash32}
    (hsketch : descriptor.toLshConfig.Compatible sketch) :
    Ensures exercise (askReference message fun reference => reference.query sketch)
      fun keys exercise' =>
        Finds referenceRows (computeBandHashes descriptor.params sketch.signature) keys ∧
        exercise = exercise' := by
  obtain ⟨keys, hquery, hfinds⟩ := query_of_holds h.holds (h.config.symm ▸ hsketch)
  rw [h.config] at hfinds
  refine (ensures_askReference hquery message).mono fun answer exercise' hanswer => ?_
  exact ⟨hanswer.1.symm ▸ hfinds, hanswer.2⟩

omit [StorageBackend β] in
theorem Stage.askQueryMany (h : Stage Keeps descriptor rows referenceRows slots book exercise)
    (message : String) {queries : List MinHash32}
    (hqueries : ∀ sketch ∈ queries, descriptor.toLshConfig.Compatible sketch) :
    Ensures exercise (askReference message fun reference => reference.queryMany queries)
      fun answers exercise' => List.Forall₂ (fun (sketch : MinHash32) keys =>
          Finds referenceRows (computeBandHashes descriptor.params sketch.signature) keys)
          queries answers ∧ exercise = exercise' := by
  obtain ⟨answers, hquery, hfinds⟩ := queryMany_of_holds h.holds (h.config.symm ▸ hqueries)
  rw [h.config] at hfinds
  refine (ensures_askReference hquery message).mono fun answer exercise' hanswer => ?_
  exact ⟨hanswer.1.symm ▸ hfinds, hanswer.2⟩

omit [StorageBackend β] in
/-- New keys with fitting sketches are acceptable. -/
theorem acceptable_of_keys {items : List (UInt64 × List UInt64)} (hrows : Enumerates items rows)
    {batch : List (UInt64 × MinHash32)} (stored keys : List UInt64)
    (hstored : items.map Prod.fst = stored) (hkeys : batch.map Prod.fst = keys)
    (hfresh : ∀ key ∈ keys, key ∉ stored) (hdistinct : keys.Nodup)
    (hcompatible : ∀ item ∈ batch, descriptor.toLshConfig.Compatible item.2) :
    Acceptable descriptor.toLshConfig rows batch := by
  subst hstored hkeys
  exact ⟨fun item hmem => hrows.eq_none (hfresh item.1 (List.mem_map_of_mem hmem)), hdistinct,
    hcompatible⟩

end Stages

/-- The key that clashes is the stored one, when only the second of two records is stored. -/
theorem eq_second_of_clashes {rows : Rows} {first second : StoredItem} {key : UInt64}
    (h : Clashes rows [first, second] key) (hnew : rows first.key = none) : key = second.key := by
  obtain ⟨before, item, after, heq, hkey, hreason⟩ := h
  cases before with
  | nil =>
      obtain ⟨rfl, _⟩ := List.cons.inj heq
      rw [← hkey, hnew] at hreason
      simp at hreason
  | cons _ before =>
      obtain ⟨_, hrest⟩ := List.cons.inj heq
      cases before with
      | nil =>
          obtain ⟨rfl, _⟩ := List.cons.inj hrest
          exact hkey.symm
      | cons => simp at hrest

/-! ## The exercise on one index -/

section Phases

variable {offered : BackendCapabilities} {Fresh : β → Prop}
  {Keeps : β → IndexDescriptor → Rows → Prop} {descriptor : IndexDescriptor}
  {exercise : Exercise β} {sketches : Sketches}

/-- The sketches fit the descriptor. -/
structure Fitting (descriptor : IndexDescriptor) (sketches : Sketches) : Prop where
  first : descriptor.toLshConfig.Compatible sketches.first
  duplicate : descriptor.toLshConfig.Compatible sketches.duplicate
  third : descriptor.toLshConfig.Compatible sketches.third

/-- The items after the first insertion. -/
abbrev firstItems (config : LshConfig) (sketches : Sketches) : List (UInt64 × List UInt64) :=
  config.rowsOf [(1, sketches.first)]

/-- The items after the second one. -/
abbrev allItems (config : LshConfig) (sketches : Sketches) : List (UInt64 × List UInt64) :=
  firstItems config sketches ++ config.rowsOf [(2, sketches.duplicate), (3, sketches.third)]

theorem ensures_atomicity (conforming : Conforming offered Fresh Keeps)
    (hsketches : Fitting descriptor sketches)
    (h : Stage Keeps descriptor (fun _ => none) (fun _ => none) 0 .empty exercise) :
    Ensures exercise (exerciseAtomicity sketches) fun _ exercise' => ∃ rows,
      Stage Keeps descriptor rows rows 3 ⟨allItems descriptor.toLshConfig sketches, none⟩ exercise' := by
  have hfirst : Acceptable descriptor.toLshConfig (fun _ => none) [(1, sketches.first)] :=
    acceptable_of_keys enumerates_nil [] [1] rfl rfl (by simp) (by simp)
      (by simpa using hsketches.first)
  have hitems₁ := enumerates_insertRows enumerates_nil hfirst.freshBatch
  have hrest : Acceptable descriptor.toLshConfig (insertRows (fun _ => none)
      (descriptor.toLshConfig.rowsOf [(1, sketches.first)]))
      [(2, sketches.duplicate), (3, sketches.third)] :=
    acceptable_of_keys hitems₁ [1] [2, 3] rfl rfl (by simp) (by simp)
      (by simpa using ⟨hsketches.duplicate, hsketches.third⟩)
  have hitems₃ := enumerates_insertRows hitems₁ hrest.freshBatch
  have hstale : ¬ Acceptable descriptor.toLshConfig (insertRows (fun _ => none)
      (descriptor.toLshConfig.rowsOf [(1, sketches.first)]))
      [(2, sketches.duplicate), (1, sketches.first)] := by
    intro hacceptable
    have hlive := hitems₁.isSome_iff.mpr (show (1 : UInt64) ∈ [1] from List.mem_singleton_self 1)
    rw [hacceptable.fresh (1, sketches.first) (by simp)] at hlive
    cases hlive
  rw [exerciseAtomicity]
  refine (h.insertReference _ hfirst (by simp)).bind fun _ exercise₁ h₁ => ?_
  refine (h₁.insertIndex conforming.lawful _ hfirst (by simp [Book.empty])).bind
    fun _ exercise₂ h₂ => ?_
  refine (h₂.rejectBatch conforming _ (by simp) ?_ hstale).bind fun error exercise₃ h₃ => ?_
  · simpa using ⟨hsketches.duplicate, hsketches.first⟩
  obtain ⟨⟨key, hclashes, rfl⟩, h₃⟩ := h₃
  have hnone : insertRows (fun _ => none)
      (descriptor.toLshConfig.rowsOf [(1, sketches.first)]) 2 = none :=
    hitems₁.eq_none (show (2 : UInt64) ∉ [1] by decide)
  refine (ensures_check (congrArg (fun key => BackendIndexError.backend (.duplicateKey key))
    (eq_second_of_clashes hclashes hnone)) _).bind fun _ _ hsame => ?_
  subst hsame
  refine (h₃.contains conforming.lawful _ 2).bind fun present exercise₄ h₄ => ?_
  obtain ⟨rfl, h₄⟩ := h₄
  refine (ensures_check (by rw [hnone]; rfl) _).bind fun _ _ hsame => ?_
  subst hsame
  refine (h₄.insertIndex conforming.lawful _ hrest (by simp [Book.empty, LshConfig.rowsOf])).bind
    fun _ exercise₅ h₅ => ?_
  exact (h₅.insertReference _ hrest (by simp)).mono fun _ _ hstage => ⟨_, hstage⟩

/-- What the kit expects of the metrics. -/
structure Observed (log : List Observation) : Prop where
  operations : log.length = 3
  queries : (log.map (·.queries)).sum = 4
  candidates : 0 < (log.map (·.candidates)).sum
  possibleCandidates : (log.map (·.possibleCandidates)).sum = 11

/-- The items that are left after the deletion. -/
abbrev keptItems (config : LshConfig) (sketches : Sketches) : List (UInt64 × List UInt64) :=
  (allItems config sketches).filter fun item => !([2, 99, 2] : List UInt64).contains item.1

omit [StorageBackend β] in
/-- Deleting the key as the index does, and as the reference does. -/
theorem deleteRows_second {rows : Rows}
    (hitems : Enumerates (allItems descriptor.toLshConfig sketches) rows) :
    (deleteRows rows [2, 99, 2]).2 = Function.update rows 2 none := by
  have habsent : rows 99 = none := hitems.eq_none (show (99 : UInt64) ∉ [1, 2, 3] by decide)
  rw [deleteRows_snd]
  funext key
  by_cases htwo : key = 2
  · simp [htwo]
  · rw [Function.update_of_ne htwo]
    by_cases hother : key = 99
    · simp [hother, habsent]
    · simp [htwo, hother]

omit [StorageBackend β] in
/-- The first key is found by its own sketch. -/
theorem first_mem_of_finds {rows : Rows} {keys : List UInt64}
    (hitems : Enumerates (allItems descriptor.toLshConfig sketches) rows)
    (hfirst : descriptor.toLshConfig.Compatible sketches.first)
    (hkeys : Finds rows (computeBandHashes descriptor.params sketches.first.signature) keys) :
    1 ∈ keys := by
  have hrow : rows 1 = some (computeBandHashes descriptor.params sketches.first.signature) :=
    (hitems.mem_iff 1 _).mp List.mem_cons_self
  have hwidth := hfirst.length_bandHashes
  have hband : 0 < (computeBandHashes descriptor.params sketches.first.signature).length := by
    rw [hwidth]
    exact descriptor.toLshConfig.bounds.2.2.2.1
  refine (hkeys.mem_iff 1).mpr ⟨_, hrow, 0, _, List.getElem?_eq_getElem hband, ?_⟩
  exact List.getElem?_eq_getElem hband

theorem ensures_queriesAndDelete (lawful : Lawful Keeps) (hsketches : Fitting descriptor sketches)
    (clock : Nat → Nat) {rows : Rows}
    (h : Stage Keeps descriptor rows rows 3 ⟨allItems descriptor.toLshConfig sketches, none⟩
      exercise) :
    Ensures exercise (exerciseQueriesAndDelete clock sketches) fun _ exercise' => ∃ rows' log,
      Observed log ∧ Stage Keeps descriptor rows' rows' 3
        ⟨keptItems descriptor.toLshConfig sketches, some log⟩ exercise' := by
  have hbatch : ∀ sketch ∈ [sketches.first, sketches.third],
      descriptor.toLshConfig.Compatible sketch := by
    simpa using ⟨hsketches.first, hsketches.third⟩
  rw [exerciseQueriesAndDelete]
  refine (h.onIndex_unit _ (h.tracks.setObservability true) h.items).bind fun _ exercise₁ h₁ => ?_
  refine (h₁.query lawful _ hsketches.first (clock 0)).bind fun scalar exercise₂ h₂ => ?_
  obtain ⟨hscalar, h₂⟩ := h₂
  refine (h₂.askQuery _ hsketches.first).bind fun expected _ hexpected => ?_
  obtain ⟨hexpected, rfl⟩ := hexpected
  refine (ensures_check (hscalar.unique hexpected) _).bind fun _ _ hsame => ?_
  subst hsame
  refine (h₂.queryMany lawful _ hbatch (by simp) (clock 1)).bind fun batch exercise₃ h₃ => ?_
  obtain ⟨hanswers, h₃⟩ := h₃
  refine (h₃.askQueryMany _ hbatch).bind fun expected _ hexpectedMany => ?_
  obtain ⟨hexpectedMany, rfl⟩ := hexpectedMany
  refine (ensures_check (finds_unique hanswers hexpectedMany) _).bind fun _ _ hsame => ?_
  subst hsame
  refine (h₃.containsMany lawful _ [3, 1, 4, 1]).bind fun flags exercise₄ h₄ => ?_
  obtain ⟨rfl, h₄⟩ := h₄
  have hlive : ∀ key, (rows key).isSome = decide (key ∈ [(1 : UInt64), 2, 3]) := by
    intro key
    rw [Bool.eq_iff_iff, decide_eq_true_iff]
    exact h.items.isSome_iff
  refine (ensures_check ?_ _).bind fun _ _ hsame => ?_
  · rw [List.map_congr_left fun key _ => hlive key]
    decide
  subst hsame
  refine (h₄.removeMany lawful _ [2, 99, 2]).bind fun count exercise₅ h₅ => ?_
  obtain ⟨rfl, h₅⟩ := h₅
  have hcount : (deleteRows rows [2, 99, 2]).1 = 1 := by
    have hlength := length_deleteRows h.items [2, 99, 2]
    have hkept : (keptItems descriptor.toLshConfig sketches).length = 2 := rfl
    rw [keptItems] at hkept
    rw [hkept] at hlength
    exact Nat.succ.inj (Nat.succ.inj hlength)
  refine (ensures_check hcount _).bind fun _ _ hsame => ?_
  subst hsame
  rw [deleteRows_second h.items] at h₅
  refine (h₅.removeReference 2).bind fun existed exercise₆ h₆ => ?_
  obtain ⟨hexisted, h₆⟩ := h₆
  have hsecond : existed = true := by
    rw [hexisted, hlive]
    decide
  refine (ensures_check hsecond _).bind fun _ _ hsame => ?_
  subst hsame
  refine (h₆.query lawful _ hsketches.first (clock 2)).bind fun later exercise₇ h₇ => ?_
  obtain ⟨hscalar', h₇⟩ := h₇
  refine (h₇.askQuery _ hsketches.first).bind fun expected _ hexpected => ?_
  obtain ⟨hexpected, rfl⟩ := hexpected
  refine (ensures_check (hscalar'.unique hexpected) _).mono fun _ _ hsame => ?_
  subst hsame
  refine ⟨_, _, ?_, h₇⟩
  have hlength : batch.length = 2 := hanswers.length_eq.symm
  have hfound := List.length_pos_of_mem (first_mem_of_finds h.items hsketches.first hscalar)
  constructor
  case operations => rfl
  case queries =>
    show 1 + (batch.length + (1 + 0)) = 4
    omega
  case candidates =>
    show 0 < (scalar.length + 0) + ((batch.map List.length).sum + ((later.length + 0) + 0))
    omega
  case possibleCandidates =>
    show 3 * 1 + (3 * batch.length + (2 * 1 + 0)) = 11
    omega

/-- The kit accepts the metrics of such a log. -/
theorem Observed.totals {log : List Observation} (h : Observed log) :
    (QueryMetrics.totals log).operations = 3 ∧ (QueryMetrics.totals log).queries = 4 ∧
      0 < (QueryMetrics.totals log).candidates.toNat ∧
      (QueryMetrics.totals log).possibleCandidates = 11 := by
  have hcandidates := h.candidates
  rw [QueryMetrics.totals, h.operations, h.queries, h.possibleCandidates]
  refine ⟨rfl, rfl, ?_, rfl⟩
  rw [toNat_saturate]
  omega

theorem ensures_operationsAndStats (conforming : Conforming offered Fresh Keeps)
    (hretention : descriptor.retention.isSome = offered.supports .ttl) {rows : Rows}
    {log : List Observation} (hlog : Observed log)
    (h : Stage Keeps descriptor rows rows 3
      ⟨keptItems descriptor.toLshConfig sketches, some log⟩ exercise) :
    Ensures exercise (exerciseOperationsAndStats offered) fun _ exercise' =>
      Stage Keeps descriptor rows rows 3
        ⟨keptItems descriptor.toLshConfig sketches, some log⟩ exercise' := by
  rw [exerciseOperationsAndStats]
  refine (h.onIndex_unit _ (h.tracks.ensures_flush conforming h.items) h.items).bind
    fun _ exercise₁ h₁ => ?_
  refine (h₁.onIndex_unit _ (h₁.tracks.ensures_health conforming h₁.items) h₁.items).bind
    fun _ exercise₂ h₂ => ?_
  have hunder := h₂.under
  subst hunder
  obtain ⟨hthreshold, hpositive, hword, hbands, hrowsPositive, hused⟩ :=
    exercise₂.index.descriptor.toLshConfig.bounds
  have hsmall := bands_lt exercise₂.index.descriptor.toLshConfig
  obtain ⟨result, index', hrun, hfollows, hcounts, hfits⟩ :=
    h₂.tracks.stats_cases conforming h₂.items
  obtain ⟨stats, rfl⟩ := hfits (by
    show 2 * _ < _
    omega)
  obtain ⟨hcounted, hqueries⟩ := hcounts stats rfl
  have hstats : Ensures exercise₂.index (ObservedIndex32.stats : ObservedMethod β ObservedStats)
      fun answer index => answer = stats ∧ Follows Keeps exercise₂.index index
        ⟨keptItems exercise₂.index.descriptor.toLshConfig sketches, some log⟩ :=
    .intro hrun ⟨rfl, hfollows⟩
  refine (h₂.onIndex _ hstats h₂.items).bind fun answer exercise₃ h₃ => ?_
  obtain ⟨rfl, h₃⟩ := h₃
  have hitems : answer.items = 2 := UInt64.toNat_inj.mp hcounted.items
  have hmemberships : 0 < answer.bucketMemberships := by
    rw [UInt64.lt_iff_toNat_lt, hcounted.bucketMemberships]
    exact Nat.mul_pos Nat.two_pos hbands
  obtain ⟨hoperations, hqueryCount, hcandidates, hpossible⟩ := hlog.totals
  refine (ensures_check hitems _).bind fun _ _ hsame => ?_
  subst hsame
  refine (ensures_check hmemberships _).bind fun _ _ hsame => ?_
  subst hsame
  have hsome : answer.queries = some (QueryMetrics.totals log) := hqueries
  rw [hsome]
  refine (ensures_okOr _ _).bind fun metrics _ hmetrics => ?_
  obtain ⟨rfl, rfl⟩ := hmetrics
  refine (ensures_check hoperations _).bind fun _ _ hsame => ?_
  subst hsame
  refine (ensures_check hqueryCount _).bind fun _ _ hsame => ?_
  subst hsame
  refine (ensures_check hpossible _).bind fun _ _ hsame => ?_
  subst hsame
  have hrate := QueryMetrics.candidateRate_pos hcandidates (h₂.tracks.candidates_le rfl)
  refine (ensures_check hrate _).bind fun _ _ hsame => ?_
  subst hsame
  split
  · next hsupported =>
      have hactive : answer.ttlSecondsRemaining.isSome = true := by
        rw [hcounted.ttlSecondsRemaining, hretention, hsupported]
      exact (ensures_check hactive _).mono fun _ _ hsame => hsame ▸ h₃
  · next hunsupported =>
      have hinactive : answer.ttlSecondsRemaining = none := by
        rw [← Option.isNone_iff_eq_none, ← Option.isSome_eq_false_iff, hcounted.ttlSecondsRemaining,
          hretention]
        simpa using hunsupported
      exact (ensures_check hinactive _).mono fun _ _ hsame => hsame ▸ h₃

/-- Where the index and the reference stand after the raw deletions, which the index does not
count. -/
structure Final (Keeps : β → IndexDescriptor → Rows → Prop) (descriptor : IndexDescriptor)
    (rows : Rows) (exercise : Exercise β) : Prop where
  keeps : Keeps exercise.index.backend descriptor rows
  under : exercise.index.descriptor = descriptor
  holds : exercise.reference.Holds rows
  config : exercise.reference.config = descriptor.toLshConfig

/-- One raw deletion. -/
theorem ensures_deleteMany (lawful : Lawful Keeps) {rows : Rows}
    (hkeeps : Keeps exercise.index.backend exercise.index.descriptor rows) (message : String)
    (keys : List UInt64) :
    Ensures exercise (Conformance.onIndex message (ObservedIndex32.onIndex
        (BackendIndex32.onBackend (StorageBackend.deleteMany keys))))
      fun count exercise' => count = (deleteRows rows keys).1 ∧
        Keeps exercise'.index.backend exercise.index.descriptor (deleteRows rows keys).2 ∧
        exercise'.index.descriptor = exercise.index.descriptor ∧
        exercise'.reference = exercise.reference := by
  obtain ⟨backend', hrun, hdeleted⟩ := lawful.deleteMany hkeeps keys
  have hbackend : call exercise.index.toBackendIndex32
      (BackendIndex32.onBackend (StorageBackend.deleteMany keys)) =
      (.ok (deleteRows rows keys).1, { exercise.index.toBackendIndex32 with backend := backend' }) := by
    rw [call_onBackend, hrun]
    rfl
  have hindex : Ensures exercise.index
      (ObservedIndex32.onIndex (BackendIndex32.onBackend (StorageBackend.deleteMany keys)))
      fun count index => count = (deleteRows rows keys).1 ∧
        index = { exercise.index with backend := backend' } :=
    .intro (call_onIndex_eq hbackend) ⟨rfl, rfl⟩
  refine hindex.onPart fun count index hanswer => ?_
  obtain ⟨rfl, rfl⟩ := hanswer
  exact ⟨rfl, hdeleted, rfl, rfl⟩

theorem ensures_rawDeletion (lawful : Lawful Keeps) (hsketches : Fitting descriptor sketches)
    {rows : Rows} {log : Option (List Observation)}
    (h : Stage Keeps descriptor rows rows 3
      ⟨keptItems descriptor.toLshConfig sketches, log⟩ exercise) :
    Ensures exercise (exerciseRawDeletion sketches) fun _ exercise' =>
      Final Keeps descriptor rows exercise' := by
  have hfourth : Acceptable descriptor.toLshConfig rows [(4, sketches.first)] :=
    acceptable_of_keys h.items [1, 3] [4] rfl rfl (by simp) (by simp)
      (by simpa using hsketches.first)
  have hitems := enumerates_insertRows h.items hfourth.freshBatch
  have hfirst : (deleteRows (insertRows rows
        (descriptor.toLshConfig.rowsOf [(4, sketches.first)])) [4, 99, 4, 99]).1 = 1 ∧
      (deleteRows (insertRows rows
        (descriptor.toLshConfig.rowsOf [(4, sketches.first)])) [4, 99, 4, 99]).2 = rows := by
    constructor
    · exact Nat.succ.inj (Nat.succ.inj (length_deleteRows hitems [4, 99, 4, 99]))
    · exact (enumerates_deleteRows hitems [4, 99, 4, 99]).unique h.items
  have hsecond : (deleteRows rows [4, 4, 99]).1 = 0 ∧ (deleteRows rows [4, 4, 99]).2 = rows := by
    constructor
    · exact Nat.succ.inj (Nat.succ.inj (length_deleteRows h.items [4, 4, 99]))
    · exact (enumerates_deleteRows h.items [4, 4, 99]).unique h.items
  rw [exerciseRawDeletion]
  refine (h.insertIndex lawful _ hfourth (by
    show 2 + 1 < _
    decide)).bind fun _ exercise₁ h₁ => ?_
  have hunder := h₁.under
  subst hunder
  refine (ensures_deleteMany lawful (h₁.tracks.keepsRows h₁.items) _ _).bind
    fun count exercise₂ h₂ => ?_
  obtain ⟨rfl, hkeeps₂, hunder₂, hreference₂⟩ := h₂
  rw [hfirst.2, ← hunder₂] at hkeeps₂
  refine (ensures_check hfirst.1 _).bind fun _ _ hsame => ?_
  subst hsame
  refine (ensures_deleteMany lawful hkeeps₂ _ _).bind fun count exercise₃ h₃ => ?_
  obtain ⟨rfl, hkeeps₃, hunder₃, hreference₃⟩ := h₃
  rw [hsecond.2, hunder₂] at hkeeps₃
  refine (ensures_check hsecond.1 _).mono fun _ _ hsame => ?_
  subst hsame
  refine ⟨hkeeps₃, hunder₃.trans hunder₂, ?_, ?_⟩
  · rw [hreference₃, hreference₂]
    exact h₁.holds
  · rw [hreference₃, hreference₂]
    exact h₁.config

/-- The whole exercise on one index. -/
theorem ensures_exerciseIndex (conforming : Conforming offered Fresh Keeps)
    (hsketches : Fitting descriptor sketches)
    (hretention : descriptor.retention.isSome = offered.supports .ttl) (clock : Nat → Nat)
    (h : Stage Keeps descriptor (fun _ => none) (fun _ => none) 0 .empty exercise) :
    Ensures exercise (exerciseIndex clock offered sketches) fun _ exercise' => ∃ rows,
      Final Keeps descriptor rows exercise' := by
  rw [exerciseIndex]
  refine (ensures_atomicity conforming hsketches h).bind fun _ exercise₁ h₁ => ?_
  obtain ⟨_, h₁⟩ := h₁
  refine (ensures_queriesAndDelete conforming.lawful hsketches clock h₁).bind
    fun _ exercise₂ h₂ => ?_
  obtain ⟨rows, log, hlog, h₂⟩ := h₂
  refine (ensures_operationsAndStats conforming hretention hlog h₂).bind fun _ exercise₃ h₃ => ?_
  exact (ensures_rawDeletion conforming.lawful hsketches h₃).mono fun _ _ hfinal => ⟨rows, hfinal⟩

end Phases

/-! ## Reopening and cleaning up -/

section Closing

variable {offered : BackendCapabilities} {Fresh : β → Prop}
  {Keeps : β → IndexDescriptor → Rows → Prop} {descriptor : IndexDescriptor} {rows : Rows}
  {backend : β}

theorem sameDescriptor_refl (descriptor : IndexDescriptor) :
    sameDescriptor descriptor descriptor = true := by
  simp [sameDescriptor]

/-- An index opens under the descriptor the backend keeps. -/
theorem Conforming.ensures_openIndex (conforming : Conforming offered Fresh Keeps)
    (hkeeps : Keeps backend descriptor rows)
    (hretention : descriptor.retention.isSome = true → offered.supports .ttl = true) :
    Ensures backend (ObservedIndex32.openIndex : Method β BackendIndexError (ObservedIndex32 β))
      fun observed _ => Keeps observed.backend observed.descriptor rows ∧
        observed.descriptor = descriptor := by
  obtain ⟨loaded, backend', hrun, rfl, hstill⟩ := conforming.loadDescriptor hkeeps
  have hloaded : call backend (StorageBackend.loadDescriptor.onPart id
      (fun backend _ => backend) BackendIndexError.backend) = (.ok loaded, backend') := by
    rw [call_onPart, id_eq, hrun]
    rfl
  have hvalid : LshIndex.withParams .pariAffine32V1 loaded.threshold loaded.numPerm loaded.seed
      loaded.params = .ok ⟨loaded.toLshConfig, IndexData.new loaded.params.bands⟩ := by
    rw [LshIndex.withParams, LshConfig.new_eq_ok]
    rfl
  have hcapable : validateRetentionCapability backend' loaded = .ok () := by
    rw [validateRetentionCapability, conforming.capabilities hstill]
    refine rejectIf_of_not fun h => ?_
    rw [hretention h.1] at h
    cases h.2
  have hopened : call backend (openIndex : Method β BackendIndexError (BackendIndex32 β)) =
      (.ok ⟨backend', loaded⟩, backend') := by
    rw [openIndex, call_bind_ok hloaded, hvalid, mapError_ok, call_lift_ok_bind, call_read_bind,
      hcapable, mapError_ok, call_lift_ok_bind, call_read]
  rw [ObservedIndex32.openIndex]
  exact ⟨_, _, call_bind_ok hopened, hstill, rfl⟩

/-- A handle that does not count the items answers all the same. -/
theorem ensures_query_uncounted {observed : ObservedIndex32 β} (lawful : Lawful Keeps)
    (hkeeps : Keeps observed.backend observed.descriptor rows) {sketch : MinHash32}
    (hsketch : observed.descriptor.toLshConfig.Compatible sketch) (elapsed : Nat) :
    Ensures observed (ObservedIndex32.query elapsed sketch) fun keys observed' =>
      Finds rows (computeBandHashes observed.descriptor.params sketch.signature) keys ∧
        Keeps observed'.backend observed.descriptor rows := by
  have hkept : observed.toBackendIndex32.KeepsRows Keeps rows := hkeeps
  obtain ⟨answers, backend', hrun, hfinds, hstill⟩ :=
    lawful.queryMany_of_compatible hkept (List.forall_mem_singleton.mpr hsketch)
  obtain ⟨keys, _, hkeys, hnil, rfl⟩ := List.forall₂_cons_left_iff.mp hfinds
  cases hnil
  refine ⟨keys, ({ observed with backend := backend' } : ObservedIndex32 β).observe [keys] elapsed,
    ?_, hkeys, hstill⟩
  have hmany : call observed (ObservedIndex32.queryMany elapsed [sketch]) =
      (.ok [keys], ({ observed with backend := backend' } : ObservedIndex32 β).observe [keys] elapsed) := by
    rw [ObservedIndex32.queryMany, call_bind_ok (call_onIndex_eq hrun), call_update_bind, call_pure]
    rfl
  rw [ObservedIndex32.query, call_bind_ok hmany, call_pure]
  rfl

theorem ensures_reopen (conforming : Conforming offered Fresh Keeps)
    (hkeeps : Keeps backend descriptor rows)
    (hretention : descriptor.retention.isSome = true → offered.supports .ttl = true) :
    Ensures backend (reopen descriptor) fun observed _ =>
      Keeps observed.backend observed.descriptor rows ∧ observed.descriptor = descriptor := by
  rw [reopen]
  refine (conforming.loadDescriptor hkeeps).expect.bind fun stored backend₁ h₁ => ?_
  obtain ⟨rfl, h₁⟩ := h₁
  refine (Ensures.passes ?_).bind fun _ _ hsame => ?_
  · rw [sameDescriptor_refl]
    decide
  subst hsame
  obtain ⟨backend₂, hrun, h₂⟩ := conforming.alreadyExists h₁ stored
  have hexists : Ensures backend₁ ((StorageBackend.initializeNamespace stored).expectError
      "backend must reject initialization of an existing namespace") fun error backend =>
        error = .alreadyExists ∧ Keeps backend stored rows := .expectError hrun ⟨rfl, h₂⟩
  refine hexists.bind fun error backend₃ h₃ => ?_
  obtain ⟨rfl, h₃⟩ := h₃
  refine (Ensures.passes (not_not.mpr rfl)).bind fun _ _ hsame => ?_
  subst hsame
  exact (Conforming.ensures_openIndex conforming h₃ hretention).expect

/-- Nothing is left after cleanup. -/
theorem ensures_cleanup (conforming : Conforming offered Fresh Keeps)
    (hkeeps : Keeps backend descriptor rows) :
    (call backend (exerciseCleanup : Method β String Unit)).1 = .ok () := by
  obtain ⟨_, backend', hrun, hfresh⟩ := conforming.cleanup hkeeps
  have hcleaned : call backend (StorageBackend.cleanup.expect
      "backend cleanup must remove the owned namespace") = (.ok (), backend') := by
    rw [Method.expect, call_onPart, id_eq, hrun]
    rfl
  have habsent : (call backend' (StorageBackend.loadDescriptor : Method β BackendError _)).1 =
      .error .notFound := conforming.notFound hfresh
  rw [exerciseCleanup, call_bind_ok hcleaned]
  show cleanupVerdict (call backend' StorageBackend.loadDescriptor).1 = _
  rw [habsent]
  rfl

end Closing

/-! ## Setting up -/

theorem exists_sketch (sha1 : Bytes → Bytes) (values : List String) :
    ∃ result : MinHash32, sketch sha1 values = .ok result ∧ result.seed = seed ∧
      result.numPerm = numPerm := by
  have hvalid : ValidNumPerm numPerm := by decide
  have hwidth : ValidNumPerm (List.replicate numPerm (Word.max .pariAffine32V1)).length := by
    rwa [List.length_replicate]
  have hnew : MinHash.new .pariAffine32V1 numPerm seed =
      .ok ⟨seed, List.replicate numPerm (Word.max .pariAffine32V1), hwidth⟩ := by
    rw [MinHash.new, dif_pos hvalid]
  obtain ⟨hseed, hnumPerm⟩ := MinHash.updateMany_fields sha1
    (⟨seed, List.replicate numPerm (Word.max .pariAffine32V1), hwidth⟩ : MinHash32)
    (values.map fun value => value.toUTF8.toList)
  refine ⟨_, ?_, hseed, hnumPerm.trans List.length_replicate⟩
  rw [sketch, hnew]
  rfl

/-- The optimizer chooses parameters under which index and reference can be built. -/
theorem exists_tuned {α : Type} [LinearOrder α] (infinity : α) (objective : F64 → LshParams → α) :
    ∃ params config, LshParams.tune infinity objective threshold numPerm = .ok params ∧
      LshConfig.new threshold numPerm seed params = .ok config := by
  have htune : LshParams.tune infinity objective threshold numPerm =
      .ok (optimizeParams infinity (objective threshold) numPerm) := by
    have hthreshold : validateThreshold threshold = .ok () := by decide
    have hnumPerm : Index.validateNumPerm numPerm = .ok () := by decide
    rw [LshParams.tune, hthreshold, ok_bind, hnumPerm, ok_bind, rejectIf_of_not (by decide)]
    rfl
  obtain ⟨config, hconfig⟩ := exists_config_of_tune seed htune
  exact ⟨_, config, htune, hconfig⟩

theorem exists_descriptor {params : LshParams} {config : LshConfig}
    (hconfig : LshConfig.new threshold numPerm seed params = .ok config) (timed : Bool) :
    ∃ descriptor, IndexDescriptor.new threshold numPerm seed params
        (if timed = true then some retention else none) = .ok descriptor ∧
      descriptor.retention.isSome = timed := by
  obtain ⟨hthreshold, hnumPerm, hseed, hparams⟩ := LshConfig.new_eq_ok_iff.mp hconfig
  have hretained : (if timed = true then some retention else none).any Duration.unsupported =
      false := by
    cases timed with
    | true => decide
    | false => rfl
  refine ⟨{ config with
    retention := if timed = true then some retention else none
    retained := hretained }, ?_, ?_⟩
  · exact IndexDescriptor.new_eq_ok_iff.mpr ⟨hthreshold, hnumPerm, hseed, hparams, rfl⟩
  · cases timed with
    | true => rfl
    | false => rfl

/-- Up to the exercise of the index, the kit builds what it needs over any backend that
initializes. -/
theorem exists_setup {α : Type} [LinearOrder α] {offered : BackendCapabilities}
    {Keeps : β → IndexDescriptor → Rows → Prop} {backend : β}
    (hcapabilities : StorageBackend.capabilities backend = offered)
    (hrequired : assertRequiredCapabilities offered = .ok ())
    (hinitialized : ∀ descriptor : IndexDescriptor,
      (descriptor.retention.isSome = true → offered.supports .ttl = true) →
      Ensures backend (StorageBackend.initializeNamespace descriptor) fun _ backend' =>
        Keeps backend' descriptor fun _ => none)
    (infinity : α) (objective : F64 → LshParams → α) (sha1 : Bytes → Bytes) (clock : Nat → Nat) :
    ∃ descriptor first third exercise, Fitting descriptor ⟨first, first, third⟩ ∧
      descriptor.retention.isSome = offered.supports .ttl ∧
      Stage Keeps descriptor (fun _ => none) (fun _ => none) 0 .empty exercise ∧
      exerciseBackendContract (LshParams.tune infinity objective) sha1 clock backend =
        closeContract clock descriptor first
          (call exercise (exerciseIndex clock offered ⟨first, first, third⟩)) := by
  obtain ⟨first, hfirst, hfirstSeed, hfirstPerm⟩ := exists_sketch sha1 ["alpha", "beta", "gamma"]
  obtain ⟨third, hthird, hthirdSeed, hthirdPerm⟩ := exists_sketch sha1 ["unrelated", "record"]
  obtain ⟨params, config, htune, hconfig⟩ := exists_tuned infinity objective
  have hreference : newReference (LshParams.tune infinity objective) =
      .ok ⟨config, IndexData.new params.bands⟩ := by
    rw [newReference, htune, ok_bind, LshIndex.withParams, hconfig]
    rfl
  obtain ⟨hthreshold, hnumPerm, hseed, hparams⟩ := LshConfig.new_eq_ok_iff.mp hconfig
  obtain ⟨descriptor, hdescriptor, hretention⟩ := exists_descriptor hconfig (offered.supports .ttl)
  have hunder : descriptor.toLshConfig = config := by
    obtain ⟨hthreshold', hnumPerm', hseed', hparams', _⟩ := IndexDescriptor.new_eq_ok_iff.mp hdescriptor
    exact LshConfig.ext (hthreshold'.trans hthreshold.symm) (hnumPerm'.trans hnumPerm.symm)
      (hseed'.trans hseed.symm) (hparams'.trans hparams.symm)
  obtain ⟨backend₁, hcreated, hkeeps⟩ := createWithParams_of_initialized hcapabilities
    (hinitialized descriptor fun h => hretention ▸ h) hdescriptor fun h => hretention ▸ h
  have hcreate : call backend (ObservedIndex32.create (LshParams.tune infinity objective) threshold
      numPerm seed (if offered.supports .ttl = true then some retention else none)) =
      (.ok ⟨⟨backend₁, descriptor⟩, none, some 0⟩, backend₁) := by
    have hindex : call backend (create (LshParams.tune infinity objective) threshold numPerm seed
        (if offered.supports .ttl = true then some retention else none)) =
        (.ok ⟨backend₁, descriptor⟩, backend₁) := by
      rw [create, htune, mapError_ok, call_lift_ok_bind, LshIndex.withParams, hconfig, ok_bind]
      show call backend (createWithParams threshold numPerm seed config.params _) = _
      rw [hparams]
      exact hcreated
    rw [ObservedIndex32.create, call_bind_ok hindex, call_pure]
  refine ⟨descriptor, first, third,
    ⟨⟨⟨backend₁, descriptor⟩, none, some 0⟩, ⟨config, IndexData.new params.bands⟩⟩, ?_, hretention,
    ?_, ?_⟩
  · rw [← hnumPerm] at hfirstPerm hthirdPerm
    rw [← hseed] at hfirstSeed hthirdSeed
    constructor
    case first => exact hunder ▸ ⟨hfirstSeed, hfirstPerm⟩
    case duplicate => exact hunder ▸ ⟨hfirstSeed, hfirstPerm⟩
    case third => exact hunder ▸ ⟨hthirdSeed, hthirdPerm⟩
  · refine ⟨⟨⟨_, hkeeps, enumerates_nil⟩, rfl, rfl, fun log hlog => ?_⟩, enumerates_nil, rfl, ?_,
      hunder.symm, rfl⟩
    · cases hlog
    · rw [← hparams]
      exact IndexData.Holds.new _
  · rw [exerciseBackendContract, hcapabilities]
    dsimp only
    rw [hrequired, ok_bind, hfirst, ok_bind, hthird, ok_bind, hreference, mapError_ok, ok_bind,
      hcreate, mapError_ok, ok_bind]

/-! ## Every conforming backend passes -/

/-- A backend that keeps the contract from a fresh namespace on, with the required capabilities,
passes the kit, whatever digest, objective and clock are used. -/
theorem conforming_passes {α : Type} [LinearOrder α] {offered : BackendCapabilities}
    {Fresh : β → Prop} {Keeps : β → IndexDescriptor → Rows → Prop}
    (conforming : Conforming offered Fresh Keeps)
    (hrequired : assertRequiredCapabilities offered = .ok ()) {backend : β}
    (hfresh : Fresh backend) (infinity : α) (objective : F64 → LshParams → α)
    (sha1 : Bytes → Bytes) (clock : Nat → Nat) :
    exerciseBackendContract (LshParams.tune infinity objective) sha1 clock backend = .ok () := by
  obtain ⟨descriptor, first, third, exercise, hsketches, hretention, hstage, hcontract⟩ :=
    exists_setup (conforming.fresh_capabilities hfresh) hrequired (conforming.initialized hfresh)
      infinity objective sha1 clock
  obtain ⟨_, exercise', hexercised, rows, hfinal⟩ :=
    ensures_exerciseIndex conforming hsketches hretention clock hstage
  obtain ⟨again, backend', hreopened, hagain, hsame⟩ :=
    ensures_reopen conforming hfinal.keeps fun h => hretention ▸ h
  obtain ⟨keys, answered, hanswered, hkeys, hstill⟩ := ensures_query_uncounted conforming.lawful
    hagain (show again.descriptor.toLshConfig.Compatible first from hsame ▸ hsketches.first) (clock 3)
  obtain ⟨expected, hexpected, hfound⟩ := query_of_holds hfinal.holds
    (show exercise'.reference.config.Compatible first from hfinal.config ▸ hsketches.first)
  have hequal : keys = expected := by
    rw [hsame] at hkeys
    rw [hfinal.config] at hfound
    exact hkeys.unique hfound
  have hclean := ensures_cleanup conforming hstill
  rw [hcontract, hexercised, closeContract]
  dsimp only
  rw [ok_bind, hreopened]
  dsimp only
  rw [ok_bind, hanswered]
  dsimp only
  rw [mapError_ok, ok_bind, hexpected, mapError_ok, ok_bind,
    rejectIf_of_not (not_not.mpr hequal), ok_bind, hclean]

/-- The memory backend passes. -/
theorem memory_passes :
    exerciseBackendContract (LshParams.tune (0 : Nat) fun _ _ => 0) id id MemoryBackend.new =
      .ok () :=
  conforming_passes MemoryBackend.conforming rfl rfl 0 (fun _ _ => 0) id id

/-! ## Partial commits are caught -/

end Pari.Backend.Conformance

namespace Pari.Backend

open Data Data.Method Pari.Format Pari.Core Pari.Index

/-- A backend that inserts the records of a batch one by one. -/
structure PartialCommitBackend (β : Type) where
  inner : β

namespace PartialCommitBackend

variable {β : Type} [StorageBackend β]

def onInner {α : Type} (method : Method β BackendError α) :
    Method (PartialCommitBackend β) BackendError α :=
  method.onPart inner (fun inner _ => ⟨inner⟩) id

instance : StorageBackend (PartialCommitBackend β) where
  capabilities backend := StorageBackend.capabilities backend.inner
  initializeNamespace descriptor := onInner (StorageBackend.initializeNamespace descriptor)
  loadDescriptor := onInner StorageBackend.loadDescriptor
  containsMany keys := onInner (StorageBackend.containsMany keys)
  insertMany items := forM items fun item => onInner (StorageBackend.insertMany [item])
  queryBuckets buckets := onInner (StorageBackend.queryBuckets buckets)
  deleteMany keys := onInner (StorageBackend.deleteMany keys)
  flush := onInner StorageBackend.flush
  health := onInner StorageBackend.health
  stats := onInner StorageBackend.stats
  cleanup := onInner StorageBackend.cleanup

end PartialCommitBackend

end Pari.Backend

namespace Pari.Backend.Conformance

open Data Data.Method Pari.Format Pari.Core Pari.Index

section PartialCommits

variable {β : Type} [StorageBackend β] {offered : BackendCapabilities} {Fresh : β → Prop}
  {Keeps : β → IndexDescriptor → Rows → Prop} {rows : Rows} {descriptor : IndexDescriptor}
  {sketches : Sketches} {observed : ObservedIndex32 (PartialCommitBackend β)}

/-- A record with a new key is stored. -/
theorem call_insertOne (lawful : Lawful Keeps) {inner : β} (h : Keeps inner descriptor rows)
    (item : StoredItem) (hnew : rows item.key = none)
    (hwidth : item.bandHashes.length = descriptor.params.bands) :
    ∃ inner', call (⟨inner⟩ : PartialCommitBackend β)
        (PartialCommitBackend.onInner (StorageBackend.insertMany [item])) = (.ok (), ⟨inner'⟩) ∧
      Keeps inner' descriptor (Function.update rows item.key (some item.bandHashes)) := by
  have hbatch : FreshBatch descriptor.params.bands rows (rowsOfItems [item]) :=
    ⟨List.forall_mem_singleton.mpr hnew, List.nodup_singleton _, List.forall_mem_singleton.mpr hwidth⟩
  obtain ⟨inner', hrun, hkeeps⟩ := lawful.insertMany h [item] hbatch
  refine ⟨inner', ?_, hkeeps⟩
  rw [PartialCommitBackend.onInner, call_onPart, hrun]
  rfl

/-- A record with a stored key is refused. -/
theorem call_insertOne_duplicate (conforming : Conforming offered Fresh Keeps) {inner : β}
    (h : Keeps inner descriptor rows) (item : StoredItem) (hstored : rows item.key ≠ none)
    (hwidth : item.bandHashes.length = descriptor.params.bands) :
    ∃ inner', call (⟨inner⟩ : PartialCommitBackend β)
        (PartialCommitBackend.onInner (StorageBackend.insertMany [item])) =
          (.error (.duplicateKey item.key), ⟨inner'⟩) ∧ Keeps inner' descriptor rows := by
  have hbatch : ¬ FreshBatch descriptor.params.bands rows (rowsOfItems [item]) :=
    fun hbatch => hstored (hbatch.fresh _ List.mem_cons_self)
  have hwidths : ∀ other ∈ [item], other.bandHashes.length = descriptor.params.bands :=
    List.forall_mem_singleton.mpr hwidth
  obtain ⟨error, inner', hrun, hkeeps⟩ := conforming.lawful.rejected h [item] hwidths hbatch
  obtain ⟨key, hclashes, hfails⟩ := conforming.duplicateKey h [item] hwidths hbatch
  rw [Fails, hrun] at hfails
  obtain rfl := Except.error.inj hfails
  have hkey : key = item.key := by
    obtain ⟨before, other, after, heq, hkey, _⟩ := hclashes
    cases before with
    | nil => rw [← hkey, (List.cons.inj heq).1]
    | cons => simp at heq
  subst hkey
  refine ⟨inner', ?_, hkeeps⟩
  rw [PartialCommitBackend.onInner, call_onPart, hrun]
  rfl

/-- A prepared batch goes to the backend. -/
theorem call_insertMany_prepared {items : List (UInt64 × MinHash32)}
    (hdistinct : (items.map Prod.fst).Nodup)
    (hcompatible : ∀ item ∈ items, observed.descriptor.toLshConfig.Compatible item.2)
    {result : Except BackendError Unit} {backend' : PartialCommitBackend β}
    (hrun : call observed.backend
      (StorageBackend.insertMany (storedItems observed.descriptor items)) = (result, backend')) :
    call observed (ObservedIndex32.onIndex (BackendIndex32.insertMany items)) =
      (result.mapError .backend, { observed with backend := backend' }) := by
  have hprepared := prepareItems_eq_ok_iff.mpr
    ⟨(by simp : ∀ item ∈ items, item.1 ∉ (∅ : OrderedSet UInt64)), hdistinct, hcompatible, rfl⟩
  have hindex : call observed.toBackendIndex32 (BackendIndex32.insertMany items) =
      (result.mapError .backend, { observed.toBackendIndex32 with backend := backend' }) := by
    rw [BackendIndex32.insertMany, call_read_bind, hprepared, call_lift_ok_bind, call_onBackend, hrun]
  exact call_onIndex_eq hindex

/-- What the wrapped backend keeps. -/
abbrev KeepsInner (Keeps : β → IndexDescriptor → Rows → Prop) (backend : PartialCommitBackend β)
    (descriptor : IndexDescriptor) (rows : Rows) : Prop := Keeps backend.inner descriptor rows

/-- What the kit looks at in the wrapped backend. -/
structure Holding (Keeps : β → IndexDescriptor → Rows → Prop) (descriptor : IndexDescriptor)
    (rows : Rows) (exercise : Exercise (PartialCommitBackend β)) : Prop where
  keeps : Keeps exercise.index.backend.inner descriptor rows
  under : exercise.index.descriptor = descriptor

theorem ensures_insert_first (lawful : Lawful Keeps) {exercise : Exercise (PartialCommitBackend β)}
    (h : Holding Keeps descriptor rows exercise) {key : UInt64} (hnew : rows key = none)
    {sketch : MinHash32} (hsketch : descriptor.toLshConfig.Compatible sketch) (message : String) :
    Ensures exercise (onIndex message (ObservedIndex32.insert key sketch)) fun _ exercise' =>
      Holding Keeps descriptor (Function.update rows key
        (some (computeBandHashes descriptor.params sketch.signature))) exercise' := by
  obtain ⟨hkeeps, hunder⟩ := h
  subst hunder
  obtain ⟨inner', hrun, hstored⟩ := call_insertOne lawful hkeeps
    ⟨key, computeBandHashes exercise.index.descriptor.params sketch.signature⟩ hnew
    hsketch.length_bandHashes
  have hbatch : call exercise.index.backend (StorageBackend.insertMany
      (storedItems exercise.index.descriptor [(key, sketch)])) = (.ok (), ⟨inner'⟩) := by
    show call _ (PartialCommitBackend.onInner _ >>= fun _ => pure ()) = _
    rw [call_bind_ok hrun, call_pure]
  have hindex : Ensures exercise.index (ObservedIndex32.insert key sketch) fun _ index' =>
      index'.backend = ⟨inner'⟩ ∧ index'.descriptor = exercise.index.descriptor := by
    have hinner := call_insertMany_prepared
      (show ([(key, sketch)].map Prod.fst).Nodup from List.nodup_singleton key)
      (List.forall_mem_singleton.mpr hsketch) hbatch
    have hinsert : call exercise.index (ObservedIndex32.insert key sketch) =
        (.ok (), ({ exercise.index with backend := ⟨inner'⟩ } :
          ObservedIndex32 (PartialCommitBackend β)).adjustItems fun known =>
            saturatingAdd known (saturate 1)) := by
      rw [ObservedIndex32.insert, ObservedIndex32.insertMany, call_bind_ok hinner, call_update]
      rfl
    exact ⟨(), _, hinsert, rfl, rfl⟩
  refine hindex.onPart fun _ index' hindex' => ⟨?_, hindex'.2⟩
  show Keeps index'.backend.inner _ _
  rw [hindex'.1]
  exact hstored

/-- The records before the one that is refused stay. -/
theorem ensures_batch_refused (conforming : Conforming offered Fresh Keeps)
    {exercise : Exercise (PartialCommitBackend β)} (h : Holding Keeps descriptor rows exercise)
    {first second : UInt64 × MinHash32} (hdistinct : first.1 ≠ second.1)
    (hnew : rows first.1 = none) (hstored : rows second.1 ≠ none)
    (hfirst : descriptor.toLshConfig.Compatible first.2)
    (hsecond : descriptor.toLshConfig.Compatible second.2) (message : String) :
    Ensures exercise (onIndexError message (ObservedIndex32.insertMany [first, second]))
      fun error exercise' => error = .backend (.duplicateKey second.1) ∧
        Holding Keeps descriptor (Function.update rows first.1
          (some (computeBandHashes descriptor.params first.2.signature))) exercise' := by
  obtain ⟨hkeeps, hunder⟩ := h
  subst hunder
  obtain ⟨inner₁, hrun₁, hkeeps₁⟩ := call_insertOne conforming.lawful hkeeps
    ⟨first.1, computeBandHashes exercise.index.descriptor.params first.2.signature⟩ hnew
    hfirst.length_bandHashes
  obtain ⟨inner₂, hrun₂, hkeeps₂⟩ := call_insertOne_duplicate conforming hkeeps₁
    ⟨second.1, computeBandHashes exercise.index.descriptor.params second.2.signature⟩ (by
      rw [Function.update_of_ne (Ne.symm hdistinct)]
      exact hstored) hsecond.length_bandHashes
  have hbatch : call exercise.index.backend (StorageBackend.insertMany
      (storedItems exercise.index.descriptor [first, second])) =
      (.error (.duplicateKey second.1), ⟨inner₂⟩) := by
    show call _ (PartialCommitBackend.onInner _ >>= fun _ =>
      PartialCommitBackend.onInner _ >>= fun _ => pure ()) = _
    rw [call_bind_ok hrun₁, call_bind_error hrun₂]
  have hinner := call_insertMany_prepared (by simpa using hdistinct)
    (by simpa using ⟨hfirst, hsecond⟩) hbatch
  have hindex : Ensures exercise.index
      ((ObservedIndex32.insertMany [first, second]).expectError message) fun error index' =>
        error = .backend (.duplicateKey second.1) ∧
          index' = { exercise.index with backend := ⟨inner₂⟩ } :=
    .expectError (call_bind_error hinner) ⟨rfl, rfl⟩
  refine hindex.onPart fun error index' hanswer => ?_
  obtain ⟨rfl, rfl⟩ := hanswer
  exact ⟨rfl, hkeeps₂, rfl⟩

theorem ensures_contains_inner (lawful : Lawful Keeps)
    {exercise : Exercise (PartialCommitBackend β)} (h : Holding Keeps descriptor rows exercise)
    (key : UInt64) (message : String) :
    Ensures exercise (onIndex message (ObservedIndex32.contains key)) fun present _ =>
      present = (rows key).isSome := by
  obtain ⟨inner', hrun, _⟩ := lawful.containsMany h.keeps [key]
  have hbackend : call exercise.index.backend (StorageBackend.containsMany [key]) =
      (.ok [(rows key).isSome], ⟨inner'⟩) := by
    show call _ (PartialCommitBackend.onInner _) = _
    rw [PartialCommitBackend.onInner, call_onPart, hrun]
    rfl
  have hmany : call exercise.index.toBackendIndex32 (BackendIndex32.containsMany [key]) =
      (.ok [(rows key).isSome], { exercise.index.toBackendIndex32 with backend := ⟨inner'⟩ }) := by
    have hanswer : call exercise.index.toBackendIndex32
        (BackendIndex32.onBackend (StorageBackend.containsMany [key])) =
        (.ok [(rows key).isSome], { exercise.index.toBackendIndex32 with backend := ⟨inner'⟩ }) := by
      rw [call_onBackend, hbackend]
      rfl
    rw [BackendIndex32.containsMany, call_bind_ok hanswer]
    rfl
  have hindex : call exercise.index.toBackendIndex32 (BackendIndex32.contains key) =
      (.ok (rows key).isSome, { exercise.index.toBackendIndex32 with backend := ⟨inner'⟩ }) := by
    rw [BackendIndex32.contains, call_bind_ok hmany]
    rfl
  have hobserved : Ensures exercise.index (ObservedIndex32.contains key) fun present _ =>
      present = (rows key).isSome := .intro (call_onIndex_eq hindex) rfl
  exact hobserved.onPart fun _ _ hpresent => hpresent

theorem fails_atomicity (conforming : Conforming offered Fresh Keeps)
    (hsketches : Fitting descriptor sketches) {exercise : Exercise (PartialCommitBackend β)}
    (h : Stage (KeepsInner Keeps) descriptor (fun _ => none) (fun _ => none) 0 .empty exercise) :
    Fails exercise (exerciseAtomicity sketches)
      "backend partially committed a rejected insertion batch" := by
  have hfirst : Acceptable descriptor.toLshConfig (fun _ => none) [(1, sketches.first)] :=
    acceptable_of_keys enumerates_nil [] [1] rfl rfl (by simp) (by simp)
      (by simpa using hsketches.first)
  rw [exerciseAtomicity]
  refine (h.insertReference _ hfirst (by simp)).bind_fails fun _ exercise₁ h₁ => ?_
  have hholding : Holding Keeps descriptor (fun _ => none) exercise₁ :=
    ⟨h₁.under ▸ h₁.tracks.keepsRows h₁.items, h₁.under⟩
  refine (ensures_insert_first conforming.lawful hholding rfl hsketches.first _).bind_fails
    fun _ exercise₂ h₂ => ?_
  have hstored : Function.update (fun _ => none : Rows) 1
      (some (computeBandHashes descriptor.params sketches.first.signature)) 1 ≠ none := by
    rw [Function.update_self]
    exact Option.some_ne_none _
  refine (ensures_batch_refused conforming h₂ (show (2 : UInt64) ≠ 1 by decide) ?_ hstored hsketches.duplicate
    hsketches.first _).bind_fails fun error exercise₃ h₃ => ?_
  · rw [Function.update_of_ne (show (2 : UInt64) ≠ 1 by decide)]
  obtain ⟨rfl, h₃⟩ := h₃
  refine (ensures_check rfl _).bind_fails fun _ _ hsame => ?_
  subst hsame
  refine (ensures_contains_inner conforming.lawful h₃ 2 _).bind_fails fun present exercise₄ hpresent => ?_
  rw [Function.update_self] at hpresent
  subst hpresent
  exact Fails.bind rfl

/-- A backend that commits the records of a batch one by one is caught, however well the backend
it wraps keeps the contract. -/
theorem partialCommit_caught {α : Type} [LinearOrder α]
    (conforming : Conforming offered Fresh Keeps)
    (hrequired : assertRequiredCapabilities offered = .ok ()) {inner : β}
    (hfresh : Fresh inner) (infinity : α) (objective : F64 → LshParams → α)
    (sha1 : Bytes → Bytes) (clock : Nat → Nat) :
    exerciseBackendContract (LshParams.tune infinity objective) sha1 clock
        (⟨inner⟩ : PartialCommitBackend β) =
      .error "backend partially committed a rejected insertion batch" := by
  have hinitialized : ∀ descriptor : IndexDescriptor,
      (descriptor.retention.isSome = true → offered.supports .ttl = true) →
      Ensures (⟨inner⟩ : PartialCommitBackend β) (StorageBackend.initializeNamespace descriptor)
        fun _ backend' => KeepsInner Keeps backend' descriptor fun _ => none := by
    intro descriptor hcapable
    have hinner : Ensures (⟨inner⟩ : PartialCommitBackend β)
        (PartialCommitBackend.onInner (StorageBackend.initializeNamespace descriptor))
        fun _ backend' => KeepsInner Keeps backend' descriptor fun _ => none :=
      Ensures.onPart (conforming.initialized hfresh descriptor hcapable) fun _ _ hkeeps => hkeeps
    exact hinner
  have hcapabilities :
      StorageBackend.capabilities (⟨inner⟩ : PartialCommitBackend β) = offered :=
    conforming.fresh_capabilities hfresh
  obtain ⟨descriptor, first, third, exercise, hsketches, _, hstage, hcontract⟩ :=
    exists_setup hcapabilities hrequired hinitialized infinity objective sha1 clock
  have hfailed : Fails exercise (exerciseIndex clock offered ⟨first, first, third⟩)
      "backend partially committed a rejected insertion batch" :=
    (fails_atomicity conforming hsketches hstage).bind
  rw [hcontract, closeContract, hfailed, error_bind]

end PartialCommits

/-- Even over the memory backend. -/
theorem memory_partialCommit_caught :
    exerciseBackendContract (LshParams.tune (0 : Nat) fun _ _ => 0) id id
        (⟨MemoryBackend.new⟩ : PartialCommitBackend MemoryBackend) =
      .error "backend partially committed a rejected insertion batch" :=
  partialCommit_caught MemoryBackend.conforming rfl rfl 0 (fun _ _ => 0) id id

end Pari.Backend.Conformance
