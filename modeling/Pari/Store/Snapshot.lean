/-
# Snapshot sections

The steps every crate that reads or writes a snapshot has its own copy of: finding the
metadata sections, collecting the bucket sections, decoding the counted words of the
`Keys` and `BandHashes` payloads, and framing sorted buckets greedily into segments. A
copy is one of these functions at the errors of its crate.
-/

import Pari.Data.Packing
import Pari.Format.SegmentReads

namespace Pari.Store

open Data Pari.Format

variable {ε : Type}

/-- How the error type of a crate wraps the errors of the format crate. -/
structure ErrorWrapping (ε : Type) where
  layout : LayoutError → ε
  format : FormatError → ε
  bucket : BucketError → ε
  lengthOverflow : ε

/-! ## Finding sections -/

/-- The only section of a kind, which must be required. -/
def requiredUniqueSection (missing duplicate optional : ε) (layout : FileLayout)
    (kind : SectionKind) : Except ε SectionDescriptor :=
  match layout.sections.filter (·.kind = kind) with
  | [] => .error missing
  | [descriptor] => do
      rejectIf (descriptor.required = false) optional
      return descriptor
  | _ :: _ :: _ => .error duplicate

theorem requiredUniqueSection_eq_ok_iff {missing duplicate optional : ε} {layout : FileLayout}
    {kind : SectionKind} {descriptor : SectionDescriptor} :
    requiredUniqueSection missing duplicate optional layout kind = .ok descriptor ↔
      layout.sections.filter (·.kind = kind) = [descriptor] ∧ descriptor.required = true := by
  unfold requiredUniqueSection
  split
  · next hnil => simp [hnil]
  · next only honly =>
      simp only [bind_eq_ok_iff, rejectIf_eq_ok_iff, exists_const, pure_eq_ok_iff, honly,
        Bool.not_eq_false, List.cons.injEq, and_true]
      constructor
      · rintro ⟨hrequired, rfl⟩
        exact ⟨rfl, hrequired⟩
      · rintro ⟨rfl, hrequired⟩
        exact ⟨hrequired, rfl⟩
  · next first second rest hmany => simp [hmany]

/-- The loop that keeps the bucket sections and refuses required tombstones. -/
def collectBucketSections (optional tombstones : ε) :
    List SectionDescriptor → Except ε (List SectionDescriptor)
  | [] => .ok []
  | descriptor :: descriptors =>
      match descriptor.kind with
      | .buckets => do
          rejectIf (descriptor.required = false) optional
          return descriptor :: (← collectBucketSections optional tombstones descriptors)
      | .tombstones => do
          rejectIf (descriptor.required = true) tombstones
          collectBucketSections optional tombstones descriptors
      | .keys | .bandHashes => collectBucketSections optional tombstones descriptors

theorem collectBucketSections_eq_ok_iff {optional tombstones : ε}
    {descriptors result : List SectionDescriptor} :
    collectBucketSections optional tombstones descriptors = .ok result ↔
      (∀ descriptor ∈ descriptors, descriptor.kind = .buckets → descriptor.required = true) ∧
      (∀ descriptor ∈ descriptors, descriptor.kind = .tombstones → descriptor.required = false) ∧
      result = descriptors.filter (·.kind = .buckets) := by
  induction descriptors generalizing result with
  | nil =>
      rw [collectBucketSections, Except.ok.injEq, List.filter_nil, eq_comm]
      simp
  | cons descriptor descriptors ih =>
      rw [collectBucketSections]
      cases hkind : descriptor.kind with
      | buckets =>
          simp only [bind_eq_ok_iff, rejectIf_eq_ok_iff, exists_const, pure_eq_ok_iff, ih,
            List.forall_mem_cons, hkind, Bool.not_eq_false, List.filter_cons, decide_true, if_true,
            forall_const, reduceCtorEq, false_implies, true_and]
          constructor
          · rintro ⟨hrequired, _, ⟨hbuckets, htombstones, rfl⟩, rfl⟩
            exact ⟨⟨hrequired, hbuckets⟩, htombstones, rfl⟩
          · rintro ⟨⟨hrequired, hbuckets⟩, htombstones, rfl⟩
            exact ⟨hrequired, _, ⟨hbuckets, htombstones, rfl⟩, rfl⟩
      | tombstones =>
          simp only [bind_eq_ok_iff, rejectIf_eq_ok_iff, exists_const, ih, List.forall_mem_cons,
            hkind, Bool.not_eq_true, List.filter_cons, forall_const, reduceCtorEq, false_implies,
            true_and, decide_false, Bool.false_eq_true, if_false]
          constructor
          · rintro ⟨hoptional, hbuckets, htombstones, rfl⟩
            exact ⟨hbuckets, ⟨hoptional, htombstones⟩, rfl⟩
          · rintro ⟨hbuckets, ⟨hoptional, htombstones⟩, rfl⟩
            exact ⟨hoptional, hbuckets, htombstones, rfl⟩
      | keys => simp [ih, hkind]
      | bandHashes => simp [ih, hkind]

/-! ## Counted words -/

/-- The errors of a crate's word decoders. -/
structure WordErrors (ε : Type) where
  missingCount : ε
  truncated : ε
  keysLength : ε
  hashesLength : ε
  lengthOverflow : ε

section Words

variable (errors : WordErrors ε)

def readU64 (bytes : Bytes) : Except ε UInt64 := okOr (u64Exact? bytes) errors.truncated

def readCount (payload : Bytes) : Except ε Nat := do
  let raw ← okOr (slice? 0 8 payload) errors.missingCount
  let count ← readU64 errors raw
  return count.toNat

def decodeKeys (payload : Bytes) : Except ε (List UInt64) := do
  let count ← readCount errors payload
  let words ← okOr (checkedMul count 8) errors.lengthOverflow
  let expected ← okOr (checkedAdd 8 words) errors.lengthOverflow
  rejectIf (payload.length ≠ expected) errors.keysLength
  (chunksExact 8 (payload.drop 8)).mapM (readU64 errors)

def decodeBandHashes (payload : Bytes) (bands : Nat) : Except ε (List (List UInt64)) := do
  let count ← readCount errors payload
  let rowBytes ← okOr (checkedMul bands 8) errors.lengthOverflow
  let words ← okOr (checkedMul count rowBytes) errors.lengthOverflow
  let expected ← okOr (checkedAdd 8 words) errors.lengthOverflow
  rejectIf (payload.length ≠ expected) errors.hashesLength
  (chunksExact rowBytes (payload.drop 8)).mapM fun row =>
    (chunksExact 8 row).mapM (readU64 errors)

end Words

/-- A count and that many words. -/
def countedKeys (keys : List UInt64) : Bytes :=
  u64Bytes (UInt64.ofNat keys.length) ++ u64List keys

/-- A count and that many rows of words. -/
def countedRows (rows : List (List UInt64)) : Bytes :=
  u64Bytes (UInt64.ofNat rows.length) ++ u64List rows.flatten

@[simp]
theorem length_countedKeys (keys : List UInt64) :
    (countedKeys keys).length = 8 + 8 * keys.length := by
  simp [countedKeys]

theorem length_flatten_rows {rows : List (List UInt64)} {bands : Nat}
    (h : ∀ row ∈ rows, row.length = bands) : rows.flatten.length = rows.length * bands := by
  rw [List.length_flatten, List.map_congr_left h, List.map_const', List.sum_replicate_nat]

theorem length_countedRows {rows : List (List UInt64)} {bands : Nat}
    (h : ∀ row ∈ rows, row.length = bands) :
    (countedRows rows).length = 8 + 8 * (rows.length * bands) := by
  simp [countedRows, length_flatten_rows h]

section Decoding

variable {errors : WordErrors ε} {payload : Bytes}

theorem mapM_readU64 {chunks : List Bytes} (h : ∀ chunk ∈ chunks, chunk.length = 8) :
    chunks.mapM (readU64 errors) = .ok (chunks.map u64OfBytes) := by
  refine mapM_eq_ok_map fun chunk hmem => ?_
  rw [readU64, u64Exact?_of_length (h chunk hmem), okOr_some]

theorem mapM_readU64_chunksExact (bytes : Bytes) :
    (chunksExact 8 bytes).mapM (readU64 errors) = .ok ((chunksExact 8 bytes).map u64OfBytes) :=
  mapM_readU64 fun _ => length_of_mem_chunksExact

theorem readCount_eq_ok_iff {count : Nat} :
    readCount errors payload = .ok count ↔
      8 ≤ payload.length ∧ count < 2 ^ 64 ∧
        window 0 8 payload = u64Bytes (UInt64.ofNat count) := by
  simp only [readCount, readU64, bind_eq_ok_iff, okOr_eq_ok_iff, slice?_eq_some_iff, Nat.zero_add,
    pure_eq_ok_iff]
  constructor
  · rintro ⟨_, ⟨hlength, rfl⟩, value, hvalue, rfl⟩
    have h8 : (window 0 8 payload).length = 8 := length_window hlength
    rw [u64Exact?_of_length h8, Option.some.injEq] at hvalue
    refine ⟨hlength, value.toNat_lt, ?_⟩
    rw [UInt64.ofNat_toNat, ← hvalue, u64Bytes_u64OfBytes h8]
  · rintro ⟨hlength, hlt, hwindow⟩
    refine ⟨_, ⟨hlength, rfl⟩, UInt64.ofNat count, ?_, toNat_ofNat64 hlt⟩
    rw [hwindow, u64Exact?_of_length (length_u64Bytes _), u64OfBytes_u64Bytes]

/-- A payload splits into its count word and what follows it. -/
theorem eq_count_append_iff {count : Nat} {rest : Bytes} :
    payload = u64Bytes (UInt64.ofNat count) ++ rest ↔
      window 0 8 payload = u64Bytes (UInt64.ofNat count) ∧ payload.drop 8 = rest := by
  conv_lhs => rw [← List.drop_zero (l := payload)]
  rw [drop_eq_append_iff, length_u64Bytes, Nat.zero_add]

theorem u64List_flatten (rows : List (List UInt64)) :
    u64List rows.flatten = rows.flatMap u64List := by
  rw [u64List, List.flatMap_def, List.map_flatten, List.flatten_flatten, List.map_map,
    List.flatMap_def]
  rfl

/-- The key decoder accepts exactly counted keys. -/
theorem decodeKeys_eq_ok_iff (haddress : payload.length < 2 ^ 64) {keys : List UInt64} :
    decodeKeys errors payload = .ok keys ↔ payload = countedKeys keys := by
  simp only [decodeKeys, bind_eq_ok_iff, readCount_eq_ok_iff, okOr_eq_ok_iff,
    checkedMul_eq_some_iff, checkedAdd_eq_some_iff, rejectIf_eq_ok_iff, not_not, exists_const,
    mapM_readU64_chunksExact, Except.ok.injEq, ne_eq]
  constructor
  · rintro ⟨count, ⟨hshort, _, hwindow⟩, _, ⟨_, rfl⟩, _, ⟨_, rfl⟩, hlength, rfl⟩
    have hrest : (payload.drop 8).length = count * 8 := by
      rw [List.length_drop]
      omega
    have hkeys : ((chunksExact 8 (payload.drop 8)).map u64OfBytes).length = count := by
      rw [List.length_map, length_chunksExact, hrest, Nat.mul_div_cancel _ (by norm_num)]
    rw [countedKeys, hkeys, eq_count_append_iff]
    exact ⟨hwindow, (u64List_map_chunksExact (by rw [hrest]; exact Nat.dvd_mul_left _ _)).symm⟩
  · intro h
    obtain ⟨hwindow, hdrop⟩ := eq_count_append_iff.mp h
    have hlength : payload.length = 8 + 8 * keys.length := by rw [h, length_countedKeys]
    refine ⟨keys.length, ⟨by omega, by omega, hwindow⟩, _, ⟨by omega, rfl⟩, _, ⟨by omega, rfl⟩,
      by omega, ?_⟩
    rw [hdrop, map_chunksExact_u64List]

/-- The row decoder accepts exactly counted rows of the expected width. -/
theorem decodeBandHashes_eq_ok_iff (haddress : payload.length < 2 ^ 64) {bands : Nat}
    (hbands : 0 < bands) (hword : bands < 2 ^ 32) {rows : List (List UInt64)} :
    decodeBandHashes errors payload bands = .ok rows ↔
      (∀ row ∈ rows, row.length = bands) ∧ payload = countedRows rows := by
  simp only [decodeBandHashes, bind_eq_ok_iff, readCount_eq_ok_iff, okOr_eq_ok_iff,
    checkedMul_eq_some_iff, checkedAdd_eq_some_iff, rejectIf_eq_ok_iff, not_not, exists_const,
    mapM_readU64_chunksExact, ne_eq]
  have hrowBytes : 0 < bands * 8 := by omega
  have hmap : ∀ list : List Bytes, (list.mapM fun row =>
      (Except.ok ((chunksExact 8 row).map u64OfBytes) : Except ε (List UInt64))) =
      .ok (list.map fun row => (chunksExact 8 row).map u64OfBytes) :=
    fun list => mapM_eq_ok_map fun _ _ => rfl
  simp only [hmap, Except.ok.injEq]
  constructor
  · rintro ⟨count, ⟨_, _, hwindow⟩, _, ⟨_, rfl⟩, _, ⟨_, rfl⟩, _, ⟨_, rfl⟩, hlength, rfl⟩
    have hrest : (payload.drop 8).length = count * (bands * 8) := by
      rw [List.length_drop]
      omega
    have hdvd : bands * 8 ∣ (payload.drop 8).length := by
      rw [hrest]
      exact Nat.dvd_mul_left _ _
    have hcount : (chunksExact (bands * 8) (payload.drop 8)).length = count := by
      rw [length_chunksExact, hrest, Nat.mul_div_cancel _ hrowBytes]
    refine ⟨?_, ?_⟩
    · intro row hrow
      obtain ⟨chunk, hchunk, rfl⟩ := List.mem_map.mp hrow
      rw [List.length_map, length_chunksExact, length_of_mem_chunksExact hchunk,
        Nat.mul_div_cancel _ (by norm_num)]
    · rw [countedRows, List.length_map, hcount, eq_count_append_iff]
      refine ⟨hwindow, ?_⟩
      -- Every chunk is the encoding of its own words.
      have hwords : ∀ chunk ∈ chunksExact (bands * 8) (payload.drop 8),
          u64List ((chunksExact 8 chunk).map u64OfBytes) = chunk := by
        intro chunk hchunk
        refine u64List_map_chunksExact ?_
        rw [length_of_mem_chunksExact hchunk]
        exact Nat.dvd_mul_left _ _
      have hself : (chunksExact (bands * 8) (payload.drop 8)).map
          (fun chunk => u64List ((chunksExact 8 chunk).map u64OfBytes)) =
          chunksExact (bands * 8) (payload.drop 8) :=
        (List.map_congr_left hwords).trans (List.map_id _)
      rw [u64List_flatten, List.flatMap_def, List.map_map]
      conv_lhs => rw [← chunksExact_flatten hdvd]
      exact congrArg List.flatten hself.symm
  · rintro ⟨hwidth, h⟩
    obtain ⟨hwindow, hdrop⟩ := eq_count_append_iff.mp h
    have hlength : payload.length = 8 + 8 * (rows.length * bands) := by
      rw [h, length_countedRows hwidth]
    have hproduct : rows.length * (bands * 8) = 8 * (rows.length * bands) := by ring
    have hrows : rows.length ≤ rows.length * bands := Nat.le_mul_of_pos_right _ hbands
    refine ⟨rows.length, ⟨by omega, by omega, hwindow⟩, _, ⟨by omega, rfl⟩, _, ⟨by omega, rfl⟩,
      _, ⟨by omega, rfl⟩, by omega, ?_⟩
    rw [hdrop, u64List_flatten, chunksExact_flatMap u64List rows hrowBytes, List.map_map]
    · conv_rhs => rw [← List.map_id rows]
      exact List.map_congr_left fun row _ => map_chunksExact_u64List row
    · intro row hrow
      rw [length_u64List, hwidth row hrow, Nat.mul_comm]

end Decoding

end Pari.Store
