/-
# Framing buckets into sections

Sorted buckets are packed greedily into segments near the target size, and every segment
becomes a required `Buckets` section. The loop pushes exactly the groups of the greedy
packing, so what it appends is determined by the buckets.
-/

import Pari.Data.Grouping
import Pari.Store.Snapshot

namespace Pari.Store

open Data Pari.Format

variable {ε : Type}

section Appending

variable (errors : ErrorWrapping ε) (crc : Checksum)

def pushBucketSection (sections : List Section) (records : List BucketRecord) :
    Except ε (List Section) := do
  let payload ← (encodeBucketSegment crc records).mapError errors.bucket
  let framed ← (Section.new .buckets true payload).mapError errors.format
  return sections ++ [framed]

/-- `!current.is_empty() && estimated + contribution > BUCKET_SEGMENT_TARGET_BYTES`. -/
def segmentFull (current : List BucketRecord) (estimated contribution : Nat) : Except ε Bool :=
  if current.isEmpty then .ok false
  else do
    let projected ← okOr (checkedAdd estimated contribution) errors.lengthOverflow
    return decide (bucketSegmentTargetBytes < projected)

/-- The packing loop: the sections so far, the current records and their estimated size. -/
def packBucketSections :
    List Section → List BucketRecord → Nat → List BucketRecord → Except ε (List Section)
  | sections, current, _, [] =>
      if current.isEmpty then .ok sections else pushBucketSection errors crc sections current
  | sections, current, estimated, record :: records => do
      let contribution ← (bucketRecordSize record.members.length).mapError errors.bucket
      let full ← segmentFull errors current estimated contribution
      if full then do
        let sections ← pushBucketSection errors crc sections current
        let estimated ← okOr (checkedAdd bucketSegmentHeaderBytes contribution)
          errors.lengthOverflow
        packBucketSections sections [record] estimated records
      else do
        let estimated ← okOr (checkedAdd estimated contribution) errors.lengthOverflow
        packBucketSections sections (current ++ [record]) estimated records

def appendBucketSections (sections : List Section) (buckets : List BucketRecord) :
    Except ε (List Section) :=
  if buckets.isEmpty then pushBucketSection errors crc sections []
  else packBucketSections errors crc sections [] bucketSegmentHeaderBytes buckets

end Appending

/-- The size a record adds to a segment. -/
def recordSize (record : BucketRecord) : Nat :=
  bucketDirectoryEntryBytes + record.members.length * 8

/-- The segments of sorted buckets: one empty segment, or the greedy packing. -/
def segmentsOf (buckets : List BucketRecord) : List (List BucketRecord) :=
  if buckets.isEmpty then [[]]
  else pack recordSize bucketSegmentHeaderBytes bucketSegmentTargetBytes buckets

theorem segmentsOf_flatten (buckets : List BucketRecord) : (segmentsOf buckets).flatten = buckets := by
  rw [segmentsOf]
  split
  · next hempty =>
      rw [List.isEmpty_iff] at hempty
      rw [hempty]
      rfl
  · exact flatten_pack buckets

/-- A section that frames the segment of a group of records. -/
structure FramesSegment (crc : Checksum) (records : List BucketRecord) (framed : Section) :
    Prop where
  kind : framed.kind = .buckets
  required : framed.required = true
  payload : framed.payload = segmentBytes crc records
  ascending : Ascending (records.map (·.key))
  counts : ∀ record ∈ records, record.members.length < 2 ^ 32

section Closed

variable {errors : ErrorWrapping ε} {crc : Checksum} {sections result : List Section}
  {records : List BucketRecord}

theorem bucketRecordSize_eq_ok_iff {record : BucketRecord} {size : Nat} :
    bucketRecordSize record.members.length = .ok size ↔
      recordSize record < 2 ^ 64 ∧ size = recordSize record := by
  simp only [bucketRecordSize, recordSize, bind_eq_ok_iff, okOr_eq_ok_iff, checkedMul_eq_some_iff,
    checkedAdd_eq_some_iff]
  constructor
  · rintro ⟨_, ⟨_, rfl⟩, hlt, rfl⟩
    exact ⟨hlt, rfl⟩
  · rintro ⟨hlt, rfl⟩
    exact ⟨_, ⟨by omega, rfl⟩, hlt, rfl⟩

/-- A segment is its header and the sizes of its records. -/
theorem segmentLength_eq (records : List BucketRecord) :
    segmentLength records = bucketSegmentHeaderBytes + totalSize recordSize records := by
  rw [segmentLength, memberStart, Nat.add_assoc]
  congr 1
  induction records with
  | nil => rfl
  | cons record records ih =>
      rw [totalSize_cons, ← ih, recordSize, List.map_cons, List.sum_cons, List.length_cons,
        Nat.succ_mul]
      omega

theorem length_payload {framed : Section} (h : FramesSegment crc records framed) :
    framed.payload.length = bucketSegmentHeaderBytes + totalSize recordSize records := by
  rw [h.payload, length_segmentBytes, segmentLength_eq]

theorem pushBucketSection_eq_ok_iff :
    pushBucketSection errors crc sections records = .ok result ↔
      ∃ framed, FramesSegment crc records framed ∧ result = sections ++ [framed] := by
  simp only [pushBucketSection, bind_eq_ok_iff, mapError_eq_ok_iff, encodeBucketSegment_eq_ok_iff,
    Section.new_eq_ok_iff, pure_eq_ok_iff]
  constructor
  · rintro ⟨_, ⟨hascending, hcounts, _, rfl⟩, framed, ⟨hkind, hrequired, hpayload⟩, rfl⟩
    exact ⟨framed, ⟨hkind, hrequired, hpayload, hascending, hcounts⟩, rfl⟩
  · rintro ⟨framed, hframed, rfl⟩
    have hlength : segmentLength records < 2 ^ 64 := by
      rw [← length_segmentBytes crc, ← hframed.payload]
      exact lt_of_le_of_lt framed.bounded (by decide)
    exact ⟨_, ⟨hframed.ascending, hframed.counts, hlength, rfl⟩, framed,
      ⟨hframed.kind, hframed.required, hframed.payload⟩, rfl⟩

theorem foldlM_pushBucketSection {groups : List (List BucketRecord)} :
    groups.foldlM (pushBucketSection errors crc) sections = .ok result ↔
      ∃ framed, List.Forall₂ (FramesSegment crc) groups framed ∧ result = sections ++ framed := by
  induction groups generalizing sections with
  | nil => simp [pure, Except.pure, eq_comm]
  | cons group groups ih =>
      simp only [List.foldlM_cons, bind_eq_ok_iff, pushBucketSection_eq_ok_iff, ih]
      constructor
      · rintro ⟨_, ⟨framed, hframed, rfl⟩, rest, hrest, rfl⟩
        exact ⟨framed :: rest, .cons hframed hrest, by simp⟩
      · rintro ⟨all, hall, rfl⟩
        cases hall with
        | @cons _ framed _ rest hframed hrest =>
            exact ⟨_, ⟨framed, hframed, rfl⟩, rest, hrest, by simp⟩

theorem segmentFull_eq_ok_iff {current : List BucketRecord} {estimated contribution : Nat}
    {full : Bool} :
    segmentFull errors current estimated contribution = .ok full ↔
      (current ≠ [] → estimated + contribution < 2 ^ 64) ∧
        (full = true ↔ current ≠ [] ∧ bucketSegmentTargetBytes < estimated + contribution) := by
  unfold segmentFull
  split
  · next hempty =>
      rw [List.isEmpty_iff] at hempty
      simp [hempty]
  · next hnonempty =>
      rw [List.isEmpty_iff] at hnonempty
      simp only [bind_eq_ok_iff, okOr_eq_ok_iff, checkedAdd_eq_some_iff, pure_eq_ok_iff, ne_eq,
        hnonempty, not_false_eq_true, forall_const, true_and]
      constructor
      · rintro ⟨_, ⟨hlt, rfl⟩, rfl⟩
        exact ⟨hlt, decide_eq_true_iff⟩
      · rintro ⟨hlt, hfull⟩
        exact ⟨_, ⟨hlt, rfl⟩, by rw [Bool.eq_iff_iff, decide_eq_true_eq, hfull]⟩

/-- If the packing loop succeeds, it has pushed the groups of the greedy packing. -/
theorem packBucketSections_sound {current : List BucketRecord} {estimated : Nat}
    (h : packBucketSections errors crc sections current estimated records = .ok result) :
    (packFrom recordSize bucketSegmentHeaderBytes bucketSegmentTargetBytes current estimated
      records).foldlM (pushBucketSection errors crc) sections = .ok result := by
  induction records generalizing sections current estimated with
  | nil =>
      rw [packBucketSections] at h
      rw [packFrom]
      split at h
      · next hempty =>
          rw [if_pos hempty]
          exact h
      · next hnonempty =>
          rw [if_neg hnonempty]
          simpa [List.foldlM_cons, List.foldlM_nil] using h
  | cons record records ih =>
      simp only [packBucketSections, bind_eq_ok_iff, mapError_eq_ok_iff,
        bucketRecordSize_eq_ok_iff, segmentFull_eq_ok_iff] at h
      obtain ⟨_, ⟨_, rfl⟩, full, ⟨_, hfull⟩, h⟩ := h
      rw [packFrom]
      split at h
      · next hyes =>
          simp only [bind_eq_ok_iff, okOr_eq_ok_iff, checkedAdd_eq_some_iff] at h
          obtain ⟨pushed, hpush, _, ⟨_, rfl⟩, hrest⟩ := h
          rw [if_pos (hfull.mp hyes), List.foldlM_cons, hpush, ok_bind]
          exact ih hrest
      · next hno =>
          simp only [bind_eq_ok_iff, okOr_eq_ok_iff, checkedAdd_eq_some_iff] at h
          obtain ⟨_, ⟨_, rfl⟩, hrest⟩ := h
          rw [if_neg fun hyes => hno (hfull.mpr hyes)]
          exact ih hrest

/-- On records up to twice the section limit the packing loop pushes the greedy packing: no sum
overflows. -/
theorem packBucketSections_eq {current : List BucketRecord} {estimated : Nat}
    (hsmall : ∀ record ∈ records, recordSize record ≤ 2 * maxSectionBytes)
    (hstart : current = [] → estimated = bucketSegmentHeaderBytes)
    (hestimated : estimated ≤ bucketSegmentTargetBytes + 2 * maxSectionBytes) :
    packBucketSections errors crc sections current estimated records =
      (packFrom recordSize bucketSegmentHeaderBytes bucketSegmentTargetBytes current estimated
        records).foldlM (pushBucketSection errors crc) sections := by
  induction records generalizing sections current estimated with
  | nil =>
      rw [packBucketSections, packFrom]
      split
      · rfl
      · simp [List.foldlM_cons, List.foldlM_nil]
  | cons record records ih =>
      rw [List.forall_mem_cons] at hsmall
      have hlimit : bucketSegmentTargetBytes + 2 * maxSectionBytes + 2 * maxSectionBytes < 2 ^ 64 :=
        by decide
      have hheader : bucketSegmentHeaderBytes ≤ bucketSegmentTargetBytes := by decide
      have hsize : bucketRecordSize record.members.length = .ok (recordSize record) :=
        bucketRecordSize_eq_ok_iff.mpr ⟨by omega, rfl⟩
      have hsum : checkedAdd estimated (recordSize record) =
          some (estimated + recordSize record) := checkedAdd_of_lt (by omega)
      have hfirst : checkedAdd bucketSegmentHeaderBytes (recordSize record) =
          some (bucketSegmentHeaderBytes + recordSize record) := checkedAdd_of_lt (by omega)
      have hfull : segmentFull errors current estimated (recordSize record) =
          .ok (decide (current ≠ [] ∧ bucketSegmentTargetBytes <
            estimated + recordSize record)) :=
        segmentFull_eq_ok_iff.mpr ⟨fun _ => by omega, decide_eq_true_iff⟩
      rw [packBucketSections, packFrom, hsize, mapError_ok, ok_bind, hfull, ok_bind]
      simp only [decide_eq_true_eq]
      split
      · rw [List.foldlM_cons, hfirst, okOr_some]
        refine congrArg _ (funext fun pushed => ?_)
        rw [ok_bind]
        exact ih hsmall.2 (by simp) (by omega)
      · next hroom =>
          rw [hsum, okOr_some, ok_bind]
          refine ih hsmall.2 (by simp) ?_
          rw [not_and_or, not_not] at hroom
          rcases hroom with hnil | hfits
          · have := hstart hnil
            omega
          · omega

/-- On such records appending pushes the segments one by one. -/
theorem appendBucketSections_eq {buckets : List BucketRecord}
    (hsmall : ∀ record ∈ buckets, recordSize record ≤ 2 * maxSectionBytes) :
    appendBucketSections errors crc sections buckets =
      (segmentsOf buckets).foldlM (pushBucketSection errors crc) sections := by
  rw [appendBucketSections, segmentsOf]
  split
  · simp [List.foldlM_cons, List.foldlM_nil]
  · exact packBucketSections_eq hsmall (fun _ => rfl) (by decide)

/-- Appending succeeds exactly when every segment of the buckets fits in a section, and
appends those sections. -/
theorem appendBucketSections_eq_ok_iff {buckets : List BucketRecord} :
    appendBucketSections errors crc sections buckets = .ok result ↔
      ∃ framed, List.Forall₂ (FramesSegment crc) (segmentsOf buckets) framed ∧
        result = sections ++ framed := by
  rw [← @foldlM_pushBucketSection _ errors crc]
  constructor
  · rw [appendBucketSections, segmentsOf]
    split
    · simp [List.foldlM_cons, List.foldlM_nil]
    · exact packBucketSections_sound
  · intro h
    rw [appendBucketSections_eq ?_]
    · exact h
    · -- Every record lies in a segment that fits in a section.
      obtain ⟨framed, hframed, -⟩ := foldlM_pushBucketSection.mp h
      intro record hrecord
      rw [← segmentsOf_flatten buckets, List.mem_flatten] at hrecord
      obtain ⟨group, hgroup, hmem⟩ := hrecord
      obtain ⟨segment, _, hsegment⟩ := exists_right_of_forall₂ hframed hgroup
      have hbounded := segment.bounded
      have hle : recordSize record ≤ totalSize recordSize group := size_le_totalSize hmem
      rw [length_payload hsegment] at hbounded
      omega

end Closed

end Pari.Store
