/-
# The memory backend

The in-process reference implementation keeps the rows under their keys and the members of
every bucket. Both agree with the abstract content, each operation keeps them so, and what
it answers is a function of that content.
-/

import Pari.Backend.Rows
import Pari.Data.SetTable

namespace Pari.Backend

open Data Data.Method Pari.Format Pari.Core Pari.Index

/-- In-process reference implementation of the storage contract. -/
structure MemoryBackend where
  descriptor : Option IndexDescriptor
  records : OrderedMap UInt64 (List UInt64)
  buckets : SetTable BucketKey UInt64

namespace MemoryBackend

def new : MemoryBackend := { descriptor := none, records := ∅, buckets := ∅ }

/-- A method of the memory backend. -/
abbrev Operation (α : Type) := Method MemoryBackend BackendError α

def initializeNamespace (descriptor : IndexDescriptor) : Operation Unit := do
  let used ← read fun backend =>
    backend.descriptor.isSome || !backend.records.isEmpty || !backend.buckets.isEmpty
  lift (rejectIf (used = true) .alreadyExists)
  lift (rejectIf (descriptor.retention.isSome = true) (.unsupportedCapability .ttl))
  update fun backend => { backend with descriptor := some descriptor }

def loadDescriptor : Operation IndexDescriptor := do
  let descriptor ← read MemoryBackend.descriptor
  lift (okOr descriptor .notFound)

def containsMany (keys : List UInt64) : Operation (List Bool) :=
  read fun backend => keys.map backend.records.contains

def widthReason (width expectedBands : Nat) : String :=
  s!"stored item has {width} band hashes; expected {expectedBands}"

/-- The validation loop over a batch. -/
def validateItems (backend : MemoryBackend) (expectedBands : Nat) :
    OrderedSet UInt64 → List StoredItem → Except BackendError Unit
  | _, [] => .ok ()
  | seen, item :: items => do
      rejectIf (item.bandHashes.length ≠ expectedBands)
        (.corruptData (widthReason item.bandHashes.length expectedBands))
      rejectIf (backend.records.contains item.key = true ∨ seen.contains item.key = true)
        (.duplicateKey item.key)
      validateItems backend expectedBands (seen.insert item.key) items

/-- Change the members of one bucket. -/
def mapBuckets (change : SetTable BucketKey UInt64 → BucketKey → SetTable BucketKey UInt64)
    (backend : MemoryBackend) (bucket : BucketKey) : MemoryBackend :=
  { backend with buckets := change backend.buckets bucket }

/-- Change the bucket of one band. -/
def visitBand (change : SetTable BucketKey UInt64 → BucketKey → SetTable BucketKey UInt64)
    (slot : UInt64 × Nat) : Operation Unit := do
  let band ← lift (okOr (tryU32 slot.2) .lengthOverflow)
  update fun backend => backend.mapBuckets change { band, hash := slot.1 }

def insertItem (item : StoredItem) : Operation Unit := do
  update fun backend =>
    { backend with records := backend.records.insert item.key item.bandHashes }
  item.bandHashes.zipIdx.forM (visitBand fun buckets bucket => SetTable.join buckets bucket item.key)

def insertMany (items : List StoredItem) : Operation Unit := do
  let descriptor ← read MemoryBackend.descriptor
  let descriptor ← lift (okOr descriptor .notFound)
  let valid ← read fun backend => backend.validateItems descriptor.params.bands ∅ items
  lift valid
  items.forM insertItem

def queryBuckets (buckets : List BucketKey) : Operation (List (List UInt64)) :=
  read fun backend => buckets.map fun bucket => SetTable.members backend.buckets bucket

/-- Delete one key, returning how many were removed. -/
def deleteKey (key : UInt64) : Operation Nat := do
  let row ← read fun backend => backend.records[key]?
  match row with
  | none => pure 0
  | some hashes => do
      update fun backend => { backend with records := backend.records.erase key }
      hashes.zipIdx.forM (visitBand fun buckets bucket => SetTable.leave buckets bucket key)
      pure 1

/-- The deletion loop over a batch. -/
def deleteKeys : List UInt64 → Operation Nat
  | [] => pure 0
  | key :: keys => do
      let removed ← deleteKey key
      let others ← deleteKeys keys
      pure (removed + others)

def requireDescriptor : Operation Unit := do
  let descriptor ← read MemoryBackend.descriptor
  lift (rejectIf (descriptor.isNone = true) .notFound)

def deleteMany (keys : List UInt64) : Operation Nat := do
  requireDescriptor
  deleteKeys keys

def flush : Operation Unit := requireDescriptor

def health : Operation Unit := pure ()

/-- `try_fold` over the bucket sizes. -/
def countMemberships (buckets : SetTable BucketKey UInt64) : Except BackendError Nat :=
  buckets.toList.foldlM (fun total entry => do
    let count ← okOr (tryU64 entry.2.size) .lengthOverflow
    okOr (checkedAdd total count.toNat) .lengthOverflow) 0

def stats : Operation BackendStats := do
  requireDescriptor
  let records ← read fun backend => backend.records.size
  let items ← lift (okOr (tryU64 records) .lengthOverflow)
  let buckets ← read MemoryBackend.buckets
  let memberships ← lift (countMemberships buckets)
  pure { items, bucketMemberships := UInt64.ofNat memberships, roundTrips := 0,
         ttlSecondsRemaining := none }

def cleanup : Operation Unit := update fun _ => new

instance : StorageBackend MemoryBackend where
  capabilities _ := .memory
  initializeNamespace := initializeNamespace
  loadDescriptor := loadDescriptor
  containsMany := containsMany
  insertMany := insertMany
  queryBuckets := queryBuckets
  deleteMany := deleteMany
  flush := flush
  health := health
  stats := stats
  cleanup := cleanup

/-! ## What the backend holds -/

/-- The records are the rows, and the buckets hold the keys filed in them. -/
structure Holds (backend : MemoryBackend) (bands : Nat) (rows : Rows) : Prop where
  records : ∀ key, backend.records[key]? = rows key
  width : ∀ key row, rows key = some row → row.length = bands
  buckets : SetTable.Represents backend.buckets (Filed rows)

variable {backend : MemoryBackend} {bands : Nat} {rows : Rows}

theorem Holds.empty (bands : Nat) (descriptor : Option IndexDescriptor) :
    Holds { new with descriptor } bands fun _ => none where
  records := by simp [new]
  width := by simp
  buckets := SetTable.Represents.empty.congr (by simp [Filed])

theorem Holds.contains_eq (h : backend.Holds bands rows) (key : UInt64) :
    backend.records.contains key = (rows key).isSome := by
  rw [← h.records, ← Std.ExtTreeMap.isSome_getElem?_eq_contains]

theorem Holds.containsMany (h : backend.Holds bands rows) (keys : List UInt64) :
    call backend (containsMany keys) = (.ok (keys.map fun key => (rows key).isSome), backend) := by
  rw [MemoryBackend.containsMany, call_read]
  congr 2
  exact List.map_congr_left fun key _ => h.contains_eq key

/-! ## Insertion -/

/-- The batches that are inserted: rows as wide as expected, under new distinct keys. -/
theorem Holds.validateItems_eq_ok_iff (h : backend.Holds bands rows) {seen : OrderedSet UInt64}
    {items : List StoredItem} {result : Unit} :
    backend.validateItems bands seen items = .ok result ↔
      FreshBatch bands rows (items.map fun item => (item.key, item.bandHashes)) ∧
      ∀ item ∈ items, item.key ∉ seen := by
  induction items generalizing seen with
  | nil =>
      have hempty : FreshBatch bands rows [] := ⟨by simp, List.nodup_nil, by simp⟩
      simpa [validateItems] using hempty
  | cons item items ih =>
      simp only [validateItems, bind_eq_ok_iff, rejectIf_eq_ok_iff, exists_const, not_not, ne_eq,
        ih, h.contains_eq, not_or, Bool.not_eq_true, Option.isSome_eq_false_iff,
        Option.isNone_iff_eq_none, contains_eq_false_iff, mem_insert_iff, List.forall_mem_cons]
      constructor
      · rintro ⟨hwidth, ⟨hnew, hunseen⟩, hbatch, hdisjoint⟩
        refine ⟨⟨?_, ?_, ?_⟩, hunseen, fun other hmem => (hdisjoint other hmem).2⟩
        · rw [List.map_cons, List.forall_mem_cons]
          exact ⟨hnew, hbatch.fresh⟩
        · have hdistinct := hbatch.distinct
          rw [List.map_map] at hdistinct
          rw [List.map_cons, List.map_cons, List.map_map, List.nodup_cons]
          refine ⟨fun hmem => ?_, hdistinct⟩
          obtain ⟨other, hother, heq⟩ := List.mem_map.mp hmem
          exact (hdisjoint other hother).1 heq
        · rw [List.map_cons, List.forall_mem_cons]
          exact ⟨hwidth, hbatch.width⟩
      · rintro ⟨hbatch, hunseen, hunseens⟩
        have hfresh := hbatch.fresh
        have hdistinct := hbatch.distinct
        have hwidth := hbatch.width
        rw [List.map_cons, List.forall_mem_cons] at hfresh hwidth
        rw [List.map_cons, List.map_cons, List.nodup_cons] at hdistinct
        refine ⟨hwidth.1, ⟨hfresh.1, hunseen⟩, ⟨hfresh.2, hdistinct.2, hwidth.2⟩, ?_⟩
        intro other hmem
        refine ⟨fun heq => hdistinct.1 ?_, hunseens other hmem⟩
        rw [List.map_map]
        exact List.mem_map.mpr ⟨other, hmem, heq⟩

/-- A loop over the bands of a row visits every bucket of the row. -/
theorem call_forM_visitBand {hashes : List UInt64} (hwidth : hashes.length < 2 ^ 32)
    (change : SetTable BucketKey UInt64 → BucketKey → SetTable BucketKey UInt64) :
    call backend (hashes.zipIdx.forM (visitBand change)) =
      (.ok (), { backend with buckets := (rowBuckets hashes).foldl change backend.buckets }) := by
  have hfold : ∀ (keys : List BucketKey) (backend : MemoryBackend),
      keys.foldl (mapBuckets change) backend =
        { backend with buckets := keys.foldl change backend.buckets } := by
    intro keys
    induction keys with
    | nil => exact fun _ => rfl
    | cons key keys ih => exact fun backend => ih (backend.mapBuckets change key)
  rw [← hfold, rowBuckets, List.foldl_map]
  refine call_forM_ok ?_
  rintro ⟨hash, band⟩ hmem backend
  have hlt : band < hashes.length := by simpa using List.snd_lt_of_mem_zipIdx hmem
  rw [visitBand, tryU32_of_lt (by dsimp only; omega)]
  rfl

theorem Holds.insertItem (h : backend.Holds bands rows) {item : StoredItem}
    (hfresh : rows item.key = none) (hwidth : item.bandHashes.length = bands)
    (hbands : bands < 2 ^ 32) :
    ∃ backend', call backend (insertItem item) = (.ok (), backend') ∧
      backend'.descriptor = backend.descriptor ∧
      backend'.Holds bands (Function.update rows item.key (some item.bandHashes)) := by
  have hrun : call backend (MemoryBackend.insertItem item) = (.ok (), { backend with
      records := backend.records.insert item.key item.bandHashes
      buckets := (rowBuckets item.bandHashes).foldl
        (fun buckets bucket => SetTable.join buckets bucket item.key) backend.buckets }) := by
    rw [MemoryBackend.insertItem, call_update_bind, call_forM_visitBand (by omega)]
  refine ⟨_, hrun, rfl, ?_, ?_, (h.buckets.joinAll (rowBuckets item.bandHashes)).congr
    fun bucket key => (filed_update_some hfresh bucket key).symm⟩
  · intro key
    rw [getElem?_insert, h.records]
    by_cases heq : key = item.key
    · rw [heq, Function.update_self, if_pos rfl]
    · rw [Function.update_of_ne heq, if_neg (Ne.symm heq)]
  · intro key row hrow
    by_cases heq : key = item.key
    · rw [heq, Function.update_self] at hrow
      rwa [← Option.some.inj hrow]
    · rw [Function.update_of_ne heq] at hrow
      exact h.width key row hrow

/-- Storing a batch that passed the validation loop. -/
theorem Holds.forM_insertItem (h : backend.Holds bands rows) {items : List StoredItem}
    (hbatch : FreshBatch bands rows (items.map fun item => (item.key, item.bandHashes)))
    (hbands : bands < 2 ^ 32) :
    ∃ backend', call backend (items.forM MemoryBackend.insertItem) = (.ok (), backend') ∧
      backend'.descriptor = backend.descriptor ∧
      backend'.Holds bands
        (insertRows rows (items.map fun item => (item.key, item.bandHashes))) := by
  induction items generalizing backend rows with
  | nil => exact ⟨backend, rfl, rfl, h⟩
  | cons item items ih =>
      rw [List.map_cons] at hbatch
      obtain ⟨middle, hfirst, hsame, hholds⟩ := h.insertItem
        (hbatch.fresh _ List.mem_cons_self) (hbatch.width _ List.mem_cons_self) hbands
      obtain ⟨backend', hrest, hsame', hholds'⟩ := ih hholds hbatch.tail
      refine ⟨backend', ?_, hsame'.trans hsame, hholds'⟩
      show call backend (MemoryBackend.insertItem item >>= fun _ =>
        items.forM MemoryBackend.insertItem) = _
      rw [call_bind_ok hfirst, hrest]

section Initialized

variable {descriptor : IndexDescriptor}

/-- A batch is stored as a whole, or rejected without a change. -/
theorem Holds.insertMany (h : backend.Holds descriptor.params.bands rows)
    (hdescriptor : backend.descriptor = some descriptor) {items : List StoredItem}
    (hbatch : FreshBatch descriptor.params.bands rows
      (items.map fun item => (item.key, item.bandHashes))) :
    ∃ backend', call backend (MemoryBackend.insertMany items) = (.ok (), backend') ∧
      backend'.descriptor = some descriptor ∧ backend'.Holds descriptor.params.bands
        (insertRows rows (items.map fun item => (item.key, item.bandHashes))) := by
  have hvalid : backend.validateItems descriptor.params.bands ∅ items = .ok () :=
    h.validateItems_eq_ok_iff.mpr ⟨hbatch, by simp⟩
  obtain ⟨backend', hrun, hsame, hholds⟩ :=
    h.forM_insertItem hbatch (bands_lt descriptor.toLshConfig)
  refine ⟨backend', ?_, hsame.trans hdescriptor, hholds⟩
  rw [MemoryBackend.insertMany, call_read_bind, hdescriptor, okOr_some, call_lift_ok_bind,
    call_read_bind, hvalid, call_lift_ok_bind, hrun]

theorem insertMany_of_error (hdescriptor : backend.descriptor = some descriptor)
    {items : List StoredItem} {error : BackendError}
    (hinvalid : backend.validateItems descriptor.params.bands ∅ items = .error error) :
    call backend (MemoryBackend.insertMany items) = (.error error, backend) := by
  rw [MemoryBackend.insertMany, call_read_bind, hdescriptor, okOr_some, call_lift_ok_bind,
    call_read_bind, hinvalid, call_lift_error_bind]

/-! ## Deletion -/

theorem Holds.deleteKey (h : backend.Holds bands rows) (hbands : bands < 2 ^ 32) (key : UInt64) :
    ∃ backend', call backend (deleteKey key) =
        (.ok (if (rows key).isSome then 1 else 0), backend') ∧
      backend'.descriptor = backend.descriptor ∧
      backend'.Holds bands (Function.update rows key none) := by
  cases hrow : rows key with
  | none =>
      refine ⟨backend, ?_, rfl, ?_⟩
      · rw [MemoryBackend.deleteKey, call_read_bind, h.records, hrow]
        rfl
      · rwa [← hrow, Function.update_eq_self]
  | some hashes =>
      have hrun : call backend (MemoryBackend.deleteKey key) = (.ok 1, { backend with
          records := backend.records.erase key
          buckets := (rowBuckets hashes).foldl
            (fun buckets bucket => SetTable.leave buckets bucket key) backend.buckets }) := by
        rw [MemoryBackend.deleteKey, call_read_bind, h.records, hrow]
        dsimp only
        have hwidth := h.width key hashes hrow
        rw [call_update_bind, call_bind_ok (call_forM_visitBand (by omega) _), call_pure]
      refine ⟨_, hrun, rfl, ?_, ?_, (h.buckets.leaveAll (rowBuckets hashes)).congr
        fun bucket other => (filed_update_none hrow bucket other).symm⟩
      · intro other
        rw [getElem?_erase, h.records]
        by_cases heq : other = key
        · rw [heq, Function.update_self, if_pos rfl]
        · rw [Function.update_of_ne heq, if_neg (Ne.symm heq)]
      · intro other row hother
        by_cases heq : other = key
        · rw [heq, Function.update_self] at hother
          cases hother
        · rw [Function.update_of_ne heq] at hother
          exact h.width other row hother

theorem Holds.deleteKeys (h : backend.Holds bands rows) (hbands : bands < 2 ^ 32)
    (keys : List UInt64) :
    ∃ backend', call backend (deleteKeys keys) = (.ok (deleteRows rows keys).1, backend') ∧
      backend'.descriptor = backend.descriptor ∧
      backend'.Holds bands (deleteRows rows keys).2 := by
  induction keys generalizing backend rows with
  | nil => exact ⟨backend, rfl, rfl, h⟩
  | cons key keys ih =>
      obtain ⟨middle, hfirst, hsame, hholds⟩ := h.deleteKey hbands key
      obtain ⟨backend', hrest, hsame', hholds'⟩ := ih hholds
      refine ⟨backend', ?_, hsame'.trans hsame, hholds'⟩
      rw [MemoryBackend.deleteKeys, call_bind_ok hfirst, call_bind_ok hrest]
      rfl

theorem Holds.deleteMany (h : backend.Holds descriptor.params.bands rows)
    (hdescriptor : backend.descriptor = some descriptor) (keys : List UInt64) :
    ∃ backend', call backend (MemoryBackend.deleteMany keys) =
        (.ok (deleteRows rows keys).1, backend') ∧
      backend'.descriptor = some descriptor ∧
      backend'.Holds descriptor.params.bands (deleteRows rows keys).2 := by
  obtain ⟨backend', hrun, hsame, hholds⟩ :=
    h.deleteKeys (bands_lt descriptor.toLshConfig) keys
  refine ⟨backend', ?_, hsame.trans hdescriptor, hholds⟩
  have hready : call backend requireDescriptor = (.ok (), backend) := by
    rw [requireDescriptor, call_read_bind, hdescriptor]
    rfl
  rw [MemoryBackend.deleteMany, call_bind_ok hready, hrun]

end Initialized

/-! ## Queries -/

/-- A bucket is answered with the ascending list of the keys filed in it. -/
theorem Holds.queryBuckets (h : backend.Holds bands rows) (buckets : List BucketKey) :
    ∃ members : BucketKey → List UInt64,
      call backend (queryBuckets buckets) = (.ok (buckets.map members), backend) ∧
      ∀ bucket key, key ∈ members bucket ↔ Filed rows bucket key :=
  ⟨SetTable.members backend.buckets, rfl, fun _ _ => h.buckets.mem_members_iff⟩

end MemoryBackend

end Pari.Backend
