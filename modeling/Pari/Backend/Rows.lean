/-
# What a namespace holds

The abstract content of a namespace is a partial function from keys to band-hash rows, as
for an index. A key is filed in one bucket for each band of its row. Both backends are
related to this content, and what their operations answer is a function of it.
-/

import Pari.Backend.BackendIndex
import Pari.Index.LiveItems

namespace Pari.Backend

open Data Pari.Format Pari.Core Pari.Index

/-! ## The buckets of a row -/

/-- The buckets of a row, band by band. -/
def rowBuckets (hashes : List UInt64) : List BucketKey :=
  hashes.zipIdx.map fun slot => { band := UInt32.ofNat slot.2, hash := slot.1 }

@[simp]
theorem length_rowBuckets (hashes : List UInt64) : (rowBuckets hashes).length = hashes.length := by
  simp [rowBuckets]

theorem mem_rowBuckets_iff {hashes : List UInt64} (hwidth : hashes.length < 2 ^ 32)
    {bucket : BucketKey} :
    bucket ∈ rowBuckets hashes ↔ hashes[bucket.band.toNat]? = some bucket.hash := by
  rw [rowBuckets, List.mem_map]
  constructor
  · rintro ⟨⟨hash, band⟩, hmem, rfl⟩
    have hslot : hashes[band]? = some hash := List.mem_zipIdx_iff_getElem?.mp hmem
    have hlt : band < hashes.length := (List.getElem?_eq_some_iff.mp hslot).1
    show hashes[(UInt32.ofNat band).toNat]? = some hash
    rw [toNat_ofNat32 (by omega), hslot]
  · intro hslot
    refine ⟨(bucket.hash, bucket.band.toNat), List.mem_zipIdx_iff_getElem?.mpr hslot, ?_⟩
    simp

theorem nodup_rowBuckets {hashes : List UInt64} (hwidth : hashes.length < 2 ^ 32) :
    (rowBuckets hashes).Nodup := by
  have hbands : (rowBuckets hashes).map BucketKey.band =
      (List.range hashes.length).map UInt32.ofNat := by
    rw [List.range_eq_range', ← List.zipIdx_map_snd, List.map_map, rowBuckets, List.map_map]
    rfl
  refine List.Nodup.of_map BucketKey.band ?_
  rw [hbands]
  refine List.Nodup.map_on ?_ List.nodup_range
  intro left hleft right hright heq
  rw [List.mem_range] at hleft hright
  rw [← toNat_ofNat32 (show left < 2 ^ 32 by omega),
    ← toNat_ofNat32 (show right < 2 ^ 32 by omega), heq]

/-- A key is filed in the buckets of its row. -/
def Filed (rows : Rows) (bucket : BucketKey) (key : UInt64) : Prop :=
  ∃ row, rows key = some row ∧ bucket ∈ rowBuckets row

theorem filed_update_some {rows : Rows} {key : UInt64} {hashes : List UInt64}
    (hfresh : rows key = none) (bucket : BucketKey) (other : UInt64) :
    Filed (Function.update rows key (some hashes)) bucket other ↔
      Filed rows bucket other ∨ bucket ∈ rowBuckets hashes ∧ other = key := by
  rw [Filed, Filed]
  by_cases heq : other = key
  · subst heq
    rw [Function.update_self, hfresh]
    simp
  · rw [Function.update_of_ne heq]
    simp [heq]

theorem filed_update_none {rows : Rows} {key : UInt64} {hashes : List UInt64}
    (hrow : rows key = some hashes) (bucket : BucketKey) (other : UInt64) :
    Filed (Function.update rows key none) bucket other ↔
      Filed rows bucket other ∧ ¬(bucket ∈ rowBuckets hashes ∧ other = key) := by
  rw [Filed, Filed]
  by_cases heq : other = key
  · subst heq
    rw [Function.update_self, hrow]
    simp
  · rw [Function.update_of_ne heq]
    simp [heq]

/-- Rows stay as wide as the index when such rows are inserted. -/
theorem width_insertRows {rows : Rows} {bands : Nat} {items : List (UInt64 × List UInt64)}
    (hrows : ∀ key row, rows key = some row → row.length = bands)
    (hitems : ∀ item ∈ items, item.2.length = bands) :
    ∀ key row, insertRows rows items key = some row → row.length = bands := by
  induction items generalizing rows with
  | nil => exact hrows
  | cons item items ih =>
      rw [List.forall_mem_cons] at hitems
      refine ih (fun key row hrow => ?_) hitems.2
      dsimp only at hrow
      by_cases heq : key = item.1
      · rw [heq, Function.update_self] at hrow
        rw [← Option.some.inj hrow]
        exact hitems.1
      · rw [Function.update_of_ne heq] at hrow
        exact hrows key row hrow

/-! ## Deleting keys -/

/-- Delete keys one after another, counting those that were live. -/
def deleteRows (rows : Rows) : List UInt64 → Nat × Rows
  | [] => (0, rows)
  | key :: keys =>
      let (removed, remaining) := deleteRows (Function.update rows key none) keys
      ((if (rows key).isSome then 1 else 0) + removed, remaining)

theorem deleteRows_snd (rows : Rows) (keys : List UInt64) :
    (deleteRows rows keys).2 = fun key => if key ∈ keys then none else rows key := by
  induction keys generalizing rows with
  | nil => simp [deleteRows]
  | cons key keys ih =>
      simp only [deleteRows, ih]
      funext other
      by_cases heq : other = key
      · simp [heq]
      · simp [heq]

/-- Every distinct live key is counted once. -/
theorem deleteRows_fst (rows : Rows) (keys : List UInt64) :
    (deleteRows rows keys).1 = (keys.toFinset.filter fun key => (rows key).isSome).card := by
  induction keys generalizing rows with
  | nil => rfl
  | cons key keys ih =>
      have hrest : (keys.toFinset.filter fun other =>
          (Function.update rows key none other).isSome) =
          (keys.toFinset.filter fun other => (rows other).isSome).erase key := by
        ext other
        by_cases heq : other = key
        · simp [heq]
        · simp [heq]
      simp only [deleteRows, ih, hrest, List.toFinset_cons, Finset.filter_insert]
      by_cases hlive : (rows key).isSome = true
      · rw [if_pos hlive, if_pos hlive, ← Finset.erase_insert_eq_erase, Nat.add_comm]
        exact Finset.card_erase_add_one (Finset.mem_insert_self _ _)
      · rw [if_neg hlive, if_neg hlive, Finset.erase_eq_of_notMem, Nat.zero_add]
        simp [hlive]

/-- The order of the keys and their repetitions do not matter. -/
theorem deleteRows_congr {rows : Rows} {keys others : List UInt64}
    (h : ∀ key, key ∈ keys ↔ key ∈ others) : deleteRows rows keys = deleteRows rows others := by
  have hset : keys.toFinset = others.toFinset := by
    ext key
    simp [h]
  refine Prod.ext ?_ ?_
  · rw [deleteRows_fst, deleteRows_fst, hset]
  · rw [deleteRows_snd, deleteRows_snd]
    simp [h]

/-! ## The index layer -/

theorem hashBand_eq (values : List UInt32) :
    hashBand values = Core.hashBand .pariAffine32V1 values := by
  have hwords : Core.hashBand .pariAffine32V1 values =
      hashBandWords (values.map UInt32.toUInt64) := rfl
  rw [hwords, hashBandWords, List.foldl_map, List.length_map]
  rfl

/-- The sketches that fit are the compatible ones, and their hashes are those of an index. -/
theorem bandHashes_eq_ok_iff {descriptor : IndexDescriptor} {sketch : MinHash32}
    {hashes : List UInt64} :
    bandHashes descriptor sketch = .ok hashes ↔
      descriptor.toLshConfig.Compatible sketch ∧
      computeBandHashes descriptor.params sketch.signature = hashes := by
  have hhash : computeBandHashes descriptor.params sketch.signature =
      (chunksExact descriptor.params.rows (sketch.signature.take
        (descriptor.params.bands * descriptor.params.rows))).map hashBand := by
    rw [computeBandHashes]
    exact List.map_congr_left fun values _ => (hashBand_eq values).symm
  simp only [bandHashes, bind_eq_ok_iff, rejectIf_eq_ok_iff, not_not, ne_eq, exists_const,
    pure_eq_ok_iff, hhash]
  constructor
  · rintro ⟨hseed, hnumPerm, rfl⟩
    exact ⟨⟨hseed, hnumPerm⟩, rfl⟩
  · rintro ⟨hcompatible, rfl⟩
    exact ⟨hcompatible.seed, hcompatible.numPerm, rfl⟩

/-- The rows of an index have fewer than `2 ^ 32` bands. -/
theorem bands_lt (config : LshConfig) : config.params.bands < 2 ^ 32 := by
  obtain ⟨_, _, hword, _, hrows, hused⟩ := config.bounds
  have hle : config.params.bands * 1 ≤ config.params.bands * config.params.rows :=
    Nat.mul_le_mul_left _ hrows
  omega

end Pari.Backend
