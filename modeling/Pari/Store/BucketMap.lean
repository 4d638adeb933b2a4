/-
# The bucket map of a snapshot

Every item is filed in one bucket for each band of its row, under the band and the hash.
The members of a bucket are then the keys of the items whose rows have the hash in the
band, in the order the items come, and the bucket records of a snapshot are these fibres
in key order.
-/

import Pari.Store.BucketSections

namespace Pari.Store

open Data Pari.Format

variable {ε : Type}

/-- File one key under every band of its row: the inner loop of the bucket map. -/
def fileRow (overflow : ε) (buckets : Table BucketKey UInt64) (key : UInt64)
    (hashes : List UInt64) : Except ε (Table BucketKey UInt64) :=
  hashes.zipIdx.foldlM (fun buckets slot => do
    let band ← okOr (tryU32 slot.2) overflow
    return pushAt buckets { band, hash := slot.1 } key) buckets

/-- `(band, hash)` and key, for every band of a row. -/
def rowEntries (key : UInt64) (hashes : List UInt64) : List (BucketKey × UInt64) :=
  hashes.zipIdx.map fun slot => (⟨UInt32.ofNat slot.2, slot.1⟩, key)

/-- The entries of all items, item by item. -/
def bucketEntries (items : List (UInt64 × List UInt64)) : List (BucketKey × UInt64) :=
  items.flatMap fun item => rowEntries item.1 item.2

theorem bucketEntries_cons (item : UInt64 × List UInt64) (items : List (UInt64 × List UInt64)) :
    bucketEntries (item :: items) = rowEntries item.1 item.2 ++ bucketEntries items := rfl

/-- The sorted buckets of a table. -/
def recordsOf (buckets : Table BucketKey UInt64) : List BucketRecord :=
  buckets.toList.map fun entry => ⟨entry.1, entry.2⟩

/-- The bucket records of a snapshot with these items. -/
def bucketRecords (items : List (UInt64 × List UInt64)) : List BucketRecord :=
  recordsOf (collectTable (bucketEntries items))

section Filing

variable {overflow : ε} {buckets : Table BucketKey UInt64} {key : UInt64} {hashes : List UInt64}

theorem fileRow_eq_ok (hwidth : hashes.length < 2 ^ 32) :
    fileRow overflow buckets key hashes = .ok ((rowEntries key hashes).foldl
      (fun buckets entry => pushAt buckets entry.1 entry.2) buckets) := by
  have hstep : ∀ (slots : List (UInt64 × Nat)) (buckets : Table BucketKey UInt64),
      (∀ slot ∈ slots, slot.2 < 2 ^ 32) →
      (slots.foldlM (fun buckets slot => do
        let band ← okOr (tryU32 slot.2) overflow
        return pushAt buckets { band, hash := slot.1 } key) buckets) =
      .ok ((slots.map fun slot => ((⟨UInt32.ofNat slot.2, slot.1⟩ : BucketKey), key)).foldl
        (fun buckets entry => pushAt buckets entry.1 entry.2) buckets) := by
    intro slots
    induction slots with
    | nil => exact fun _ _ => rfl
    | cons slot slots ih =>
        intro buckets hslots
        rw [List.forall_mem_cons] at hslots
        rw [List.foldlM_cons, tryU32_of_lt hslots.1, okOr_some, ok_bind]
        exact ih _ hslots.2
  refine hstep _ _ ?_
  rintro ⟨hash, index⟩ hmem
  have hlt := List.snd_lt_of_mem_zipIdx hmem
  dsimp only
  omega

/-- Filing all rows files all entries. -/
theorem foldlM_fileRow {items : List (UInt64 × List UInt64)}
    (hwidth : ∀ item ∈ items, item.2.length < 2 ^ 32) :
    items.foldlM (fun buckets item => fileRow overflow buckets item.1 item.2) buckets =
      .ok ((bucketEntries items).foldl
        (fun buckets entry => pushAt buckets entry.1 entry.2) buckets) := by
  induction items generalizing buckets with
  | nil => rfl
  | cons item items ih =>
      rw [List.forall_mem_cons] at hwidth
      rw [List.foldlM_cons, fileRow_eq_ok hwidth.1, ok_bind, ih hwidth.2, bucketEntries_cons,
        List.foldl_append]

end Filing

/-! ## The members of a bucket -/

section Members

variable {items : List (UInt64 × List UInt64)} {key : UInt64} {bucket : BucketKey}

theorem fibre_zipIdx {hashes : List UInt64} {start : Nat}
    (hwidth : start + hashes.length < 2 ^ 32) :
    fibre ((hashes.zipIdx start).map fun slot =>
        ((⟨UInt32.ofNat slot.2, slot.1⟩ : BucketKey), key)) bucket =
      if start ≤ bucket.band.toNat ∧ hashes[bucket.band.toNat - start]? = some bucket.hash
      then [key] else [] := by
  induction hashes generalizing start with
  | nil => simp
  | cons hash hashes ih =>
      rw [List.length_cons] at hwidth
      rw [List.zipIdx_cons, List.map_cons, fibre_cons, ih (by omega)]
      have hword : (UInt32.ofNat start).toNat = start := toNat_ofNat32 (by omega)
      by_cases hband : bucket.band.toNat = start
      · have hsame : UInt32.ofNat start = bucket.band := UInt32.toNat_inj.mp (hword.trans hband.symm)
        have hkey : (⟨UInt32.ofNat start, hash⟩ : BucketKey) = bucket ↔ hash = bucket.hash := by
          rw [BucketKey.ext_iff]
          simp [hsame]
        by_cases hhash : hash = bucket.hash
        · rw [if_pos (hkey.mpr hhash)]
          simp [hband, hhash]
        · rw [if_neg fun heq => hhash (hkey.mp heq)]
          simp [hband, hhash]
      · have hkey : (⟨UInt32.ofNat start, hash⟩ : BucketKey) ≠ bucket := by
          rintro rfl
          exact hband hword
        rw [if_neg hkey]
        by_cases hlt : start ≤ bucket.band.toNat
        · have hnext : start + 1 ≤ bucket.band.toNat := by omega
          have hindex : bucket.band.toNat - start = bucket.band.toNat - (start + 1) + 1 := by omega
          simp [hlt, hnext, hindex]
        · have hnext : ¬ start + 1 ≤ bucket.band.toNat := by omega
          simp [hlt, hnext]

/-- An item is filed once in every bucket its row selects. -/
theorem fibre_rowEntries {hashes : List UInt64} (hwidth : hashes.length < 2 ^ 32) :
    fibre (rowEntries key hashes) bucket =
      if hashes[bucket.band.toNat]? = some bucket.hash then [key] else [] := by
  have h := @fibre_zipIdx key bucket hashes 0 (by omega)
  simpa [rowEntries] using h

/-- The members of a bucket are the keys whose rows select it, in the order of the items. -/
theorem fibre_bucketEntries (hwidth : ∀ item ∈ items, item.2.length < 2 ^ 32) :
    fibre (bucketEntries items) bucket =
      (items.filter fun item => item.2[bucket.band.toNat]? = some bucket.hash).map Prod.fst := by
  induction items with
  | nil => rfl
  | cons item items ih =>
      rw [List.forall_mem_cons] at hwidth
      rw [bucketEntries_cons, fibre_append, fibre_rowEntries hwidth.1, ih hwidth.2,
        List.filter_cons]
      by_cases h : item.2[bucket.band.toNat]? = some bucket.hash <;> simp [h]

theorem ascending_bucketRecords : Ascending ((bucketRecords items).map (·.key)) := by
  have h := (isGrouping_collectTable (bucketEntries items)).ascending
  rw [bucketRecords, recordsOf, List.map_map]
  exact h

/-- The records are the nonempty fibres of the items. -/
theorem mem_bucketRecords_iff {record : BucketRecord} :
    record ∈ bucketRecords items ↔
      record.members = fibre (bucketEntries items) record.key ∧ record.members ≠ [] := by
  rw [← (isGrouping_collectTable (bucketEntries items)).mem_iff, bucketRecords, recordsOf,
    List.mem_map]
  constructor
  · rintro ⟨entry, hentry, rfl⟩
    exact hentry
  · intro h
    exact ⟨_, h, rfl⟩

/-- The members of a record: exactly the keys whose rows have its hash in its band. -/
theorem mem_members_iff (hwidth : ∀ item ∈ items, item.2.length < 2 ^ 32) {record : BucketRecord}
    (h : record ∈ bucketRecords items) :
    key ∈ record.members ↔
      ∃ row, (key, row) ∈ items ∧ row[record.key.band.toNat]? = some record.key.hash := by
  rw [(mem_bucketRecords_iff.mp h).1, fibre_bucketEntries hwidth, List.mem_map]
  constructor
  · rintro ⟨⟨other, row⟩, hmem, rfl⟩
    rw [List.mem_filter, decide_eq_true_eq] at hmem
    exact ⟨row, hmem⟩
  · rintro ⟨row, hmem⟩
    exact ⟨(key, row), by rw [List.mem_filter, decide_eq_true_eq]; exact hmem, rfl⟩

/-- Every band and hash of an item has a record. -/
theorem exists_bucketRecord (hwidth : ∀ item ∈ items, item.2.length < 2 ^ 32) {row : List UInt64}
    (h : (key, row) ∈ items) (hrow : row[bucket.band.toNat]? = some bucket.hash) :
    ∃ record ∈ bucketRecords items, record.key = bucket := by
  have hmem : key ∈ fibre (bucketEntries items) bucket := by
    rw [fibre_bucketEntries hwidth, List.mem_map]
    exact ⟨(key, row), by rw [List.mem_filter, decide_eq_true_eq]; exact ⟨h, hrow⟩, rfl⟩
  exact ⟨⟨bucket, fibre (bucketEntries items) bucket⟩,
    mem_bucketRecords_iff.mpr ⟨rfl, List.ne_nil_of_mem hmem⟩, rfl⟩

/-- Items in key order give records with members in key order. -/
theorem ascending_members (hwidth : ∀ item ∈ items, item.2.length < 2 ^ 32)
    (hkeys : Ascending (items.map Prod.fst)) {record : BucketRecord}
    (h : record ∈ bucketRecords items) : Ascending record.members := by
  rw [(mem_bucketRecords_iff.mp h).1, fibre_bucketEntries hwidth]
  exact List.Pairwise.sublist (List.filter_sublist.map Prod.fst) hkeys

/-- A bucket with members has a band that the rows reach. -/
theorem band_lt_of_fibre_ne_nil {bands : Nat} (hword : bands < 2 ^ 32)
    (hwidth : ∀ item ∈ items, item.2.length = bands) {bucket : BucketKey}
    (h : fibre (bucketEntries items) bucket ≠ []) : bucket.band.toNat < bands := by
  have hsmall : ∀ item ∈ items, item.2.length < 2 ^ 32 := fun item hitem => by
    rw [hwidth item hitem]
    exact hword
  rw [fibre_bucketEntries hsmall, ne_eq, List.map_eq_nil_iff] at h
  obtain ⟨item, hitem⟩ := List.exists_mem_of_ne_nil _ h
  obtain ⟨hmem, hrow⟩ := List.mem_filter.mp hitem
  rw [← hwidth item hmem]
  exact (List.getElem?_eq_some_iff.mp (of_decide_eq_true hrow)).1

/-- The band of a record is a band of some row. -/
theorem band_lt_of_mem_bucketRecords {bands : Nat} (hword : bands < 2 ^ 32)
    (hwidth : ∀ item ∈ items, item.2.length = bands) {record : BucketRecord}
    (h : record ∈ bucketRecords items) : record.key.band.toNat < bands := by
  obtain ⟨hmembers, hne⟩ := mem_bucketRecords_iff.mp h
  exact band_lt_of_fibre_ne_nil hword hwidth (hmembers ▸ hne)

end Members

end Pari.Store
