/-
# The index over a lawful backend

A backend is lawful for a relation between its states and the rows it keeps when its batch
operations read and change those rows as the storage contract says. Over any lawful backend
the index answers from the rows: a batch is stored exactly when its keys are new and distinct
and its sketches fit, and a query finds the keys that share a band, whichever buckets the
queries of its batch have in common.
-/

import Pari.Backend.Rows

namespace Pari.Backend

open Data Data.Method Pari.Format Pari.Core Pari.Index

/-- The rows a batch of records stores. -/
def rowsOfItems (items : List StoredItem) : List (UInt64 × List UInt64) :=
  items.map fun item => (item.key, item.bandHashes)

/-- The storage contract, for what a backend keeps under a descriptor. -/
structure Lawful {β : Type} [StorageBackend β] (Keeps : β → IndexDescriptor → Rows → Prop) :
    Prop where
  width : ∀ {backend descriptor rows}, Keeps backend descriptor rows → ∀ key row,
    rows key = some row → row.length = descriptor.params.bands
  containsMany : ∀ {backend descriptor rows}, Keeps backend descriptor rows → ∀ keys, ∃ backend',
    call backend (StorageBackend.containsMany keys) =
      (.ok (keys.map fun key => (rows key).isSome), backend') ∧ Keeps backend' descriptor rows
  insertMany : ∀ {backend descriptor rows}, Keeps backend descriptor rows → ∀ items,
    FreshBatch descriptor.params.bands rows (rowsOfItems items) → ∃ backend',
    call backend (StorageBackend.insertMany items) = (.ok (), backend') ∧
      Keeps backend' descriptor (insertRows rows (rowsOfItems items))
  rejected : ∀ {backend descriptor rows}, Keeps backend descriptor rows → ∀ items,
    (∀ item ∈ items, item.bandHashes.length = descriptor.params.bands) →
    ¬ FreshBatch descriptor.params.bands rows (rowsOfItems items) → ∃ error backend',
    call backend (StorageBackend.insertMany items) = (.error error, backend') ∧
      Keeps backend' descriptor rows
  queryBuckets : ∀ {backend descriptor rows}, Keeps backend descriptor rows → ∀ buckets,
    ∃ (members : BucketKey → List UInt64) (backend' : β),
    call backend (StorageBackend.queryBuckets buckets) = (.ok (buckets.map members), backend') ∧
      (∀ bucket key, key ∈ members bucket ↔ Filed rows bucket key) ∧
      Keeps backend' descriptor rows
  deleteMany : ∀ {backend descriptor rows}, Keeps backend descriptor rows → ∀ keys, ∃ backend',
    call backend (StorageBackend.deleteMany keys) = (.ok (deleteRows rows keys).1, backend') ∧
      Keeps backend' descriptor (deleteRows rows keys).2

/-! ## Preparing a batch -/

/-- The records of a batch of sketches. -/
def storedItems (descriptor : IndexDescriptor) (items : List (UInt64 × MinHash32)) :
    List StoredItem :=
  items.map fun item =>
    { key := item.1, bandHashes := computeBandHashes descriptor.params item.2.signature }

theorem rowsOfItems_storedItems (descriptor : IndexDescriptor)
    (items : List (UInt64 × MinHash32)) :
    rowsOfItems (storedItems descriptor items) = descriptor.toLshConfig.rowsOf items := by
  rw [rowsOfItems, storedItems, List.map_map]
  rfl

/-- The batches that are prepared: distinct keys and fitting sketches. -/
theorem prepareItems_eq_ok_iff {descriptor : IndexDescriptor} {seen : OrderedSet UInt64}
    {items : List (UInt64 × MinHash32)} {stored : List StoredItem} :
    BackendIndex32.prepareItems descriptor seen items = .ok stored ↔
      (∀ item ∈ items, item.1 ∉ seen) ∧ (items.map Prod.fst).Nodup ∧
      (∀ item ∈ items, descriptor.toLshConfig.Compatible item.2) ∧
      storedItems descriptor items = stored := by
  induction items generalizing seen stored with
  | nil => simp [BackendIndex32.prepareItems, storedItems]
  | cons item items ih =>
      obtain ⟨key, sketch⟩ := item
      simp only [BackendIndex32.prepareItems, bind_eq_ok_iff, rejectIf_eq_ok_iff, exists_const,
        mapError_eq_ok_iff, bandHashes_eq_ok_iff, pure_eq_ok_iff, ih, Bool.not_eq_true,
        contains_eq_false_iff, List.forall_mem_cons, List.map_cons, List.nodup_cons,
        mem_insert_iff, not_or, storedItems]
      constructor
      · rintro ⟨hunseen, _, ⟨hcompatible, rfl⟩, _, ⟨hdisjoint, hnodup, hcompatibles, rfl⟩, rfl⟩
        refine ⟨⟨hunseen, fun item hmem => (hdisjoint item hmem).2⟩, ⟨?_, hnodup⟩,
          ⟨hcompatible, hcompatibles⟩, rfl⟩
        intro hmem
        obtain ⟨item, hitem, heq⟩ := List.mem_map.mp hmem
        exact (hdisjoint item hitem).1 heq
      · rintro ⟨⟨hunseen, hunseens⟩, ⟨hdistinct, hnodup⟩, ⟨hcompatible, hcompatibles⟩, rfl⟩
        refine ⟨hunseen, _, ⟨hcompatible, rfl⟩, _,
          ⟨fun item hmem => ⟨fun heq => hdistinct ?_, hunseens item hmem⟩, hnodup,
            hcompatibles, rfl⟩, rfl⟩
        exact List.mem_map.mpr ⟨item, hmem, heq⟩

/-! ## Requesting buckets -/

theorem bucketsOf_zipIdx {hashes : List UInt64} (hwidth : hashes.length < 2 ^ 32) :
    BackendIndex32.bucketsOf hashes.zipIdx = .ok (rowBuckets hashes) := by
  have hslots : ∀ slots : List (UInt64 × Nat), (∀ slot ∈ slots, slot.2 < 2 ^ 32) →
      BackendIndex32.bucketsOf slots = .ok (slots.map fun slot =>
        { band := UInt32.ofNat slot.2, hash := slot.1 }) := by
    intro slots
    induction slots with
    | nil => exact fun _ => rfl
    | cons slot slots ih =>
        intro hslots
        rw [List.forall_mem_cons] at hslots
        rw [BackendIndex32.bucketsOf, tryU32_of_lt hslots.1, okOr_some, ok_bind, ih hslots.2]
        rfl
  refine hslots _ ?_
  rintro ⟨hash, band⟩ hmem
  have hlt : band < hashes.length := by simpa using List.snd_lt_of_mem_zipIdx hmem
  dsimp only
  omega

/-- The positions of a list of buckets name them. -/
abbrev Names (buckets : List BucketKey) (positions : List Nat) (named : List BucketKey) : Prop :=
  List.Forall₂ (fun (position : Nat) bucket => buckets[position]? = some bucket) positions named

/-- Every sketch that fits gets the positions of its buckets. -/
theorem requestBuckets_of_compatible {descriptor : IndexDescriptor} {requests : Interner BucketKey}
    {sketches : List MinHash32}
    (h : ∀ sketch ∈ sketches, descriptor.toLshConfig.Compatible sketch) :
    ∃ queryPositions requests', BackendIndex32.requestBuckets descriptor requests sketches =
        .ok (queryPositions, requests') ∧ requests.values <+: requests'.values ∧
      List.Forall₂ (fun positions (sketch : MinHash32) => Names requests'.values positions
        (rowBuckets (computeBandHashes descriptor.params sketch.signature)))
        queryPositions sketches := by
  induction sketches generalizing requests with
  | nil => exact ⟨[], requests, rfl, List.prefix_refl _, .nil⟩
  | cons sketch sketches ih =>
      rw [List.forall_mem_cons] at h
      have hhashes := bandHashes_eq_ok_iff.mpr ⟨h.1, rfl⟩
      have hwidth := h.1.length_bandHashes.trans_lt (bands_lt descriptor.toLshConfig)
      obtain ⟨queryPositions, requests', hrest, hprefix, hnames⟩ :=
        @ih (requests.internAll (rowBuckets (computeBandHashes descriptor.params
          sketch.signature))).2 h.2
      have hnamed := @Interner.forall₂_internAll BucketKey _ requests
        (rowBuckets (computeBandHashes descriptor.params sketch.signature))
      refine ⟨(requests.internAll (rowBuckets (computeBandHashes descriptor.params
        sketch.signature))).1 :: queryPositions, requests', ?_,
        (Interner.values_internAll _).trans hprefix,
        .cons (hnamed.imp fun _ _ => getElem?_of_prefixed hprefix) hnames⟩
      rw [BackendIndex32.requestBuckets, hhashes, mapError_ok, ok_bind,
        bucketsOf_zipIdx hwidth, mapError_ok, ok_bind]
      dsimp only
      rw [hrest]
      rfl

/-- The band hashes of a sketch, or the error an index operation returns for it. -/
def sketchHashes (descriptor : IndexDescriptor) (sketch : MinHash32) :
    Except BackendIndexError (List UInt64) :=
  (bandHashes descriptor sketch).mapError .index

/-- A sketch that does not fit fails the request with its own error. -/
theorem requestBuckets_of_error {descriptor : IndexDescriptor} {requests : Interner BucketKey}
    {sketches : List MinHash32} {error : BackendIndexError}
    (h : sketches.mapM (sketchHashes descriptor) = .error error) :
    BackendIndex32.requestBuckets descriptor requests sketches = .error error := by
  induction sketches generalizing requests with
  | nil => cases h
  | cons sketch sketches ih =>
      rw [List.mapM_cons, sketchHashes] at h
      rw [BackendIndex32.requestBuckets]
      cases hhashes : bandHashes descriptor sketch with
      | error failure =>
          rw [hhashes] at h
          change Except.error (BackendIndexError.index failure) = _ at h
          obtain rfl := Except.error.inj h
          rfl
      | ok hashes =>
          rw [hhashes, mapError_ok, ok_bind] at h
          obtain ⟨hcompatible, rfl⟩ := bandHashes_eq_ok_iff.mp hhashes
          have hwidth := hcompatible.length_bandHashes.trans_lt (bands_lt descriptor.toLshConfig)
          rw [mapError_ok, ok_bind, bucketsOf_zipIdx hwidth, mapError_ok, ok_bind]
          cases hrest : sketches.mapM (sketchHashes descriptor) with
          | error failure =>
              rw [hrest, error_bind] at h
              obtain rfl := Except.error.inj h
              dsimp only
              rw [ih hrest, error_bind]
          | ok rows =>
              rw [hrest] at h
              cases h

/-! ## Candidates -/

theorem mem_candidateKeys_iff {bucketMembers : List (List UInt64)} {positions : List Nat}
    {key : UInt64} :
    key ∈ BackendIndex32.candidateKeys bucketMembers positions ↔
      ∃ position ∈ positions, key ∈ bucketMembers[position]?.getD [] := by
  have hfold : ∀ (positions : List Nat) (start : OrderedSet UInt64),
      key ∈ positions.foldl (fun candidates position =>
        candidates.insertMany (bucketMembers[position]?.getD [])) start ↔
      key ∈ start ∨ ∃ position ∈ positions, key ∈ bucketMembers[position]?.getD [] := by
    intro positions
    induction positions with
    | nil => simp
    | cons position positions ih =>
        intro start
        rw [List.foldl_cons, ih, mem_insertMany, or_assoc]
        simp
  rw [BackendIndex32.candidateKeys, mem_sortUnstable, Std.ExtTreeSet.mem_toList, hfold]
  simp

theorem ascending_candidateKeys (bucketMembers : List (List UInt64)) (positions : List Nat) :
    Ascending (BackendIndex32.candidateKeys bucketMembers positions) :=
  sortUnstable_ascending ascending_toList.nodup

/-- Looking the buckets of a row up by position finds the keys that share a band with it. -/
theorem mem_candidateKeys_of_names {rows : Rows} {members : BucketKey → List UInt64}
    (hmembers : ∀ bucket key, key ∈ members bucket ↔ Filed rows bucket key)
    {buckets : List BucketKey} {positions : List Nat} {hashes : List UInt64}
    (hnames : Names buckets positions (rowBuckets hashes)) {key : UInt64} :
    key ∈ BackendIndex32.candidateKeys (buckets.map members) positions ↔
      ∃ bucket ∈ rowBuckets hashes, Filed rows bucket key := by
  rw [mem_candidateKeys_iff]
  constructor
  · rintro ⟨position, hposition, hmem⟩
    obtain ⟨bucket, hbucket, hname⟩ := exists_right_of_forall₂ hnames hposition
    rw [List.getElem?_map, hname, Option.map_some, Option.getD_some] at hmem
    exact ⟨bucket, hbucket, (hmembers bucket key).mp hmem⟩
  · rintro ⟨bucket, hbucket, hfiled⟩
    obtain ⟨position, hposition, hname⟩ := exists_left_of_forall₂ hnames hbucket
    refine ⟨position, hposition, ?_⟩
    rw [List.getElem?_map, hname, Option.map_some, Option.getD_some]
    exact (hmembers bucket key).mpr hfiled

/-- Being filed in a bucket of a row is sharing a band with it. -/
theorem exists_filed_iff_sharesBand {rows : Rows} {bands : Nat} (hbands : bands < 2 ^ 32)
    (hrows : ∀ key row, rows key = some row → row.length = bands) {hashes : List UInt64}
    (hwidth : hashes.length = bands) {key : UInt64} :
    (∃ bucket ∈ rowBuckets hashes, Filed rows bucket key) ↔
      ∃ row, rows key = some row ∧ SharesBand row hashes := by
  have hlt : hashes.length < 2 ^ 32 := by omega
  constructor
  · rintro ⟨bucket, hbucket, row, hrow, hmem⟩
    have hrowLt : row.length < 2 ^ 32 := by
      rw [hrows key row hrow]
      exact hbands
    exact ⟨row, hrow, bucket.band.toNat, bucket.hash, (mem_rowBuckets_iff hrowLt).mp hmem,
      (mem_rowBuckets_iff hlt).mp hbucket⟩
  · rintro ⟨row, hrow, band, hash, hleft, hright⟩
    have hrowLt : row.length < 2 ^ 32 := by
      rw [hrows key row hrow]
      exact hbands
    have hband : band < hashes.length := (List.getElem?_eq_some_iff.mp hright).1
    have hword : (UInt32.ofNat band).toNat = band := toNat_ofNat32 (by omega)
    refine ⟨{ band := UInt32.ofNat band, hash }, ?_, row, hrow, ?_⟩
    · rw [mem_rowBuckets_iff hlt, hword, hright]
    · rw [mem_rowBuckets_iff hrowLt, hword, hleft]

end Pari.Backend
