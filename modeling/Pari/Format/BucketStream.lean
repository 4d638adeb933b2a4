/-
# The streaming segment writer

`writeBucketSegment` writes the same segment as the in-memory encoder from directory
metadata and a sequential reader of member bytes. The reader is the list of bytes
it has still to deliver; the writer is the bytes written so far.
-/

import Pari.Format.Segments

namespace Pari.Format

open Data

/-- Size and outer checksum of a streamed bucket segment. -/
structure StreamedBucketSegment where
  bytes : Nat
  checksum : UInt32
  deriving DecidableEq, Repr

def copyBufferBytes : Nat := 64 * 1024

/-- The directory and member length the first loop of the writer accumulates. -/
structure DirectoryBuffers where
  directory : Bytes
  memberOffset : Nat
  totalMemberBytes : Nat

def pushDirectoryEntry (buffers : DirectoryBuffers) (record : BucketWriteRecord) :
    Except BucketError DirectoryBuffers := do
  let memberBytes ← okOr (checkedMul record.memberCount.toNat 8) .lengthOverflow
  let memberOffset ← okOr (checkedAdd buffers.memberOffset memberBytes) .lengthOverflow
  let totalMemberBytes ← okOr (checkedAdd buffers.totalMemberBytes memberBytes) .lengthOverflow
  return {
    directory := buffers.directory ++ directoryEntry record.key buffers.memberOffset
      record.memberCount record.memberChecksum
    memberOffset
    totalMemberBytes }

/-- The buffered copy of one member list: the hashers of the bucket and of the segment, what is
written, and what the reader still holds. -/
def copyChunks (crc : Checksum) (remaining : Nat) (bucket outer : crc.Hasher) (members : Bytes) :
    Except BucketError (crc.Hasher × crc.Hasher × Bytes × Bytes) :=
  if remaining = 0 then .ok (bucket, outer, [], members)
  else do
    let count := min remaining copyBufferBytes
    let chunk ← okOr (slice? 0 count members) (.layout .unexpectedEof)
    let (bucket, outer, written, rest) ← copyChunks crc (remaining - count)
      (crc.update bucket chunk) (crc.update outer chunk) (members.drop count)
    return (bucket, outer, chunk ++ written, rest)
termination_by remaining
decreasing_by
  have hbuffer : 0 < copyBufferBytes := by decide
  omega

/-- The copy loop over the records: the outer hasher, what is written, and what the
reader still holds. -/
def copyMembers (crc : Checksum) :
    List BucketWriteRecord → crc.Hasher → Bytes → Except BucketError (crc.Hasher × Bytes × Bytes)
  | [], outer, members => .ok (outer, [], members)
  | record :: records, outer, members => do
      let remaining ← okOr (checkedMul record.memberCount.toNat 8) .lengthOverflow
      let (bucket, outer, written, rest) ← copyChunks crc remaining crc.new outer members
      let actual := crc.finalize bucket
      rejectIf (actual ≠ record.memberChecksum)
        (.memberChecksumMismatch record.memberChecksum actual)
      let (outer, others, rest) ← copyMembers crc records outer rest
      return (outer, written ++ others, rest)

/-- Stream one canonical bucket segment without materializing member payloads: the bytes
written, their size and checksum, and what the reader still holds. -/
def writeBucketSegment (crc : Checksum) (records : List BucketWriteRecord) (members : Bytes) :
    Except BucketError (Bytes × StreamedBucketSegment × Bytes) := do
  rejectUnordered (records.map (·.key)) "bucket records must be strictly sorted and unique"
  let directoryBytes ← okOr (checkedMul records.length bucketDirectoryEntryBytes) .lengthOverflow
  let memberStart ← okOr (checkedAdd bucketSegmentHeaderBytes directoryBytes) .lengthOverflow
  let buffers ← records.foldlM pushDirectoryEntry ⟨[], memberStart, 0⟩
  let countWord ← okOr (tryU64 records.length) .lengthOverflow
  let directoryWord ← okOr (tryU64 directoryBytes) .lengthOverflow
  let header := segmentHeader crc countWord directoryWord (crc.hash buffers.directory)
  let outer := crc.update (crc.update crc.new header) buffers.directory
  let (outer, written, rest) ← copyMembers crc records outer members
  let bytes ← okOr (checkedAdd memberStart buffers.totalMemberBytes) .lengthOverflow
  return (header ++ (buffers.directory ++ written), ⟨bytes, crc.finalize outer⟩, rest)

/-! ## The writer computes the closed form -/

/-- The directory loop succeeds exactly when the segment is addressable. -/
theorem foldlM_pushDirectoryEntry {records : List BucketWriteRecord}
    {buffers result : DirectoryBuffers} (hoffset : buffers.memberOffset < 2 ^ 64)
    (htotal : buffers.totalMemberBytes ≤ buffers.memberOffset) :
    records.foldlM pushDirectoryEntry buffers = .ok result ↔
      buffers.memberOffset + memberTotal records < 2 ^ 64 ∧
      result = {
        directory := buffers.directory ++ (directoryEntries buffers.memberOffset records).flatten
        memberOffset := buffers.memberOffset + memberTotal records
        totalMemberBytes := buffers.totalMemberBytes + memberTotal records } := by
  induction records generalizing buffers with
  | nil =>
      simp only [List.foldlM_nil, pure_eq_ok_iff, memberTotal, directoryEntries, List.map_nil,
        List.sum_nil, List.flatten_nil, List.append_nil, Nat.add_zero, hoffset, true_and]
      exact eq_comm
  | cons record records ih =>
      have hcons : memberTotal (record :: records) =
          record.memberCount.toNat * 8 + memberTotal records := rfl
      simp only [List.foldlM_cons, bind_eq_ok_iff, pushDirectoryEntry, okOr_eq_ok_iff,
        checkedMul_eq_some_iff, checkedAdd_eq_some_iff, pure_eq_ok_iff, directoryEntries,
        List.flatten_cons, BucketWriteRecord.memberLength]
      constructor
      · rintro ⟨_, ⟨_, ⟨_, rfl⟩, _, ⟨hnext, rfl⟩, _, ⟨_, rfl⟩, rfl⟩, hrest⟩
        obtain ⟨hfits, rfl⟩ := (ih hnext (show _ + _ ≤ _ + _ by omega)).mp hrest
        refine ⟨by rwa [hcons, ← Nat.add_assoc], ?_⟩
        simp only [hcons, List.append_assoc, Nat.add_assoc]
      · rintro ⟨hfits, rfl⟩
        refine ⟨_, ⟨_, ⟨by omega, rfl⟩, _, ⟨by omega, rfl⟩, _, ⟨by omega, rfl⟩, rfl⟩, ?_⟩
        rw [ih (show _ + _ < _ by omega) (show _ + _ ≤ _ + _ by omega)]
        refine ⟨show _ + _ + _ < _ by omega, ?_⟩
        simp only [hcons, List.append_assoc, Nat.add_assoc]

/-- The buffered copy delivers the first bytes of the reader in pieces, whatever their number. -/
theorem copyChunks_of_le {crc : Checksum} {remaining : Nat} {members : Bytes}
    (h : remaining ≤ members.length) (bucket outer : crc.Hasher) :
    ∃ pieces : List Bytes, pieces.flatten = members.take remaining ∧
      copyChunks crc remaining bucket outer members =
        .ok (pieces.foldl crc.update bucket, pieces.foldl crc.update outer,
          members.take remaining, members.drop remaining) := by
  have hbuffer : 0 < copyBufferBytes := by decide
  induction remaining using Nat.strongRecOn generalizing members bucket outer with
  | ind remaining ih =>
      rw [copyChunks]
      split
      · next hzero =>
          subst hzero
          exact ⟨[], rfl, rfl⟩
      · next hpos =>
          -- One turn takes a full buffer, or all that remains.
          have hslice : slice? 0 (min remaining copyBufferBytes) members =
              some (members.take (min remaining copyBufferBytes)) :=
            slice?_of_le (by omega)
          obtain ⟨pieces, hpieces, hcopy⟩ := @ih (remaining - min remaining copyBufferBytes)
            (by omega) (members.drop (min remaining copyBufferBytes))
            (by rw [List.length_drop]; omega)
            (crc.update bucket (members.take (min remaining copyBufferBytes)))
            (crc.update outer (members.take (min remaining copyBufferBytes)))
          have htake : members.take (min remaining copyBufferBytes) ++
              (members.drop (min remaining copyBufferBytes)).take
                (remaining - min remaining copyBufferBytes) = members.take remaining := by
            rw [← List.take_add, Nat.add_sub_cancel' (Nat.min_le_left _ _)]
          refine ⟨members.take (min remaining copyBufferBytes) :: pieces, ?_, ?_⟩
          · rw [List.flatten_cons, hpieces, htake]
          · dsimp only
            rw [hslice, okOr_some, ok_bind, hcopy, ok_bind]
            dsimp only
            rw [htake, List.drop_drop, Nat.add_sub_cancel' (Nat.min_le_left _ _)]
            rfl

/-- A record describes the member list of a bucket: it has its key and the number of its
members, whatever checksum it gives. -/
structure Describes (record : BucketRecord) (described : BucketWriteRecord) : Prop where
  key : described.key = record.key
  count : described.memberCount.toNat = record.members.length

/-- The copy of the list a record describes. -/
theorem copyMembers_cons_of_describes {crc : Checksum} (hcrc : crc.Incremental)
    {record : BucketRecord} {described : BucketWriteRecord} (h : Describes record described)
    (outer : crc.Hasher) (rest : Bytes) (others : List BucketWriteRecord) :
    ∃ pieces : List Bytes, pieces.flatten = record.memberBytes ∧
      copyMembers crc (described :: others) outer (record.memberBytes ++ rest) = (do
        rejectIf (crc.hash record.memberBytes ≠ described.memberChecksum)
          (.memberChecksumMismatch described.memberChecksum (crc.hash record.memberBytes))
        let (outer, written, rest) ← copyMembers crc others (pieces.foldl crc.update outer) rest
        return (outer, record.memberBytes ++ written, rest)) := by
  have hlength : record.memberBytes.length = record.members.length * 8 := length_memberBytes record
  have hword := described.memberCount.toNat_lt
  have hcount : checkedMul described.memberCount.toNat 8 = some record.memberBytes.length := by
    rw [hlength, ← h.count]
    exact checkedMul_of_lt (by omega)
  obtain ⟨pieces, hpieces, hcopy⟩ := @copyChunks_of_le crc record.memberBytes.length
    (record.memberBytes ++ rest) (by rw [List.length_append]; omega) crc.new outer
  rw [List.take_left'  rfl, List.drop_left' rfl] at hcopy
  rw [List.take_left' rfl] at hpieces
  refine ⟨pieces, hpieces, ?_⟩
  have hchecksum : crc.finalize (pieces.foldl crc.update crc.new) = crc.hash record.memberBytes :=
    hcrc.hashPieces_eq hpieces
  rw [copyMembers, hcount, okOr_some, ok_bind, hcopy, ok_bind]
  dsimp only
  rw [hchecksum]

/-- The members of the records, as the copy loop delivers them. -/
theorem copyMembers_writeRecord {crc : Checksum} (hcrc : crc.Incremental)
    {records : List BucketRecord} (outer : crc.Hasher) (rest : Bytes)
    (h : ∀ record ∈ records, record.members.length < 2 ^ 32) :
    ∃ pieces : List Bytes, pieces.flatten = segmentMembers records ∧
      copyMembers crc (records.map (BucketRecord.writeRecord crc)) outer
        (segmentMembers records ++ rest) =
          .ok (pieces.foldl crc.update outer, segmentMembers records, rest) := by
  induction records generalizing outer with
  | nil => exact ⟨[], rfl, rfl⟩
  | cons record records ih =>
      obtain ⟨hcount, hcounts⟩ := List.forall_mem_cons.mp h
      have hdescribes : Describes record (record.writeRecord crc) := ⟨rfl, toNat_ofNat32 hcount⟩
      obtain ⟨first, hfirst, hcopy⟩ := copyMembers_cons_of_describes hcrc hdescribes outer
        (segmentMembers records ++ rest) (records.map (BucketRecord.writeRecord crc))
      obtain ⟨pieces, hpieces, hrest⟩ := ih (first.foldl crc.update outer) hcounts
      have hchecksum : ¬ crc.hash record.memberBytes ≠ (record.writeRecord crc).memberChecksum :=
        not_not.mpr rfl
      refine ⟨first ++ pieces, ?_, ?_⟩
      · rw [List.flatten_append, hfirst, hpieces, segmentMembers_cons]
      · rw [List.map_cons, segmentMembers_cons, List.append_assoc, hcopy,
          rejectIf_of_not hchecksum, ok_bind, hrest, ok_bind, List.foldl_append]
        rfl

/-- The copy of the lists of some records succeeds only if every checksum is right. -/
theorem checksum_of_copyMembers {crc : Checksum} (hcrc : crc.Incremental)
    {records : List BucketRecord} {described : List BucketWriteRecord}
    (h : List.Forall₂ Describes records described) {outer : crc.Hasher} {rest : Bytes}
    {result : crc.Hasher × Bytes × Bytes}
    (hok : copyMembers crc described outer (segmentMembers records ++ rest) = .ok result) :
    ∀ pair ∈ records.zip described, pair.2.memberChecksum = crc.hash pair.1.memberBytes := by
  induction h generalizing outer result with
  | nil => exact fun pair hpair => absurd hpair List.not_mem_nil
  | @cons record entry records described hdescribes _ ih =>
      obtain ⟨pieces, _, hcopy⟩ := copyMembers_cons_of_describes hcrc hdescribes outer
        (segmentMembers records ++ rest) described
      rw [segmentMembers_cons, List.append_assoc, hcopy] at hok
      simp only [bind_eq_ok_iff, rejectIf_eq_ok_iff, exists_const, not_not, ne_eq] at hok
      obtain ⟨hchecksum, _, hothers, _⟩ := hok
      rw [List.zip_cons_cons, List.forall_mem_cons]
      exact ⟨hchecksum.symm, ih hothers⟩

/-- Fed the members the records describe, the writer writes the closed form, reports its
length and checksum, and leaves the reader just past the last member. -/
theorem writeBucketSegment_eq_ok {crc : Checksum} (hcrc : crc.Incremental)
    {records : List BucketRecord} (rest : Bytes) (hsorted : Ascending (records.map (·.key)))
    (hcounts : ∀ record ∈ records, record.members.length < 2 ^ 32)
    (hfits : segmentLength records < 2 ^ 64) :
    writeBucketSegment crc (records.map (BucketRecord.writeRecord crc))
        (segmentMembers records ++ rest) =
      .ok (segmentBytes crc records,
        ⟨segmentLength records, crc.hash (segmentBytes crc records)⟩, rest) := by
  have hkeys : (records.map (BucketRecord.writeRecord crc)).map (·.key) = records.map (·.key) := by
    rw [List.map_map]
    rfl
  have hmembers := length_segmentMembers records
  have hlength : segmentLength records = bucketSegmentHeaderBytes +
      records.length * bucketDirectoryEntryBytes + (segmentMembers records).length := by
    rw [segmentLength, memberStart, hmembers]
  have hcount : records.length ≤ records.length * bucketDirectoryEntryBytes :=
    Nat.le_mul_of_pos_right _ (by decide)
  have hstart : bucketSegmentHeaderBytes + records.length * bucketDirectoryEntryBytes < 2 ^ 64 := by
    omega
  have htotal : memberTotal (records.map (BucketRecord.writeRecord crc)) =
      (segmentMembers records).length := memberTotal_writeRecord hcounts
  have hfold : (records.map (BucketRecord.writeRecord crc)).foldlM pushDirectoryEntry
      ⟨[], bucketSegmentHeaderBytes + records.length * bucketDirectoryEntryBytes, 0⟩ = .ok _ :=
    (foldlM_pushDirectoryEntry hstart (Nat.zero_le _)).mpr
      ⟨by rw [htotal, ← hlength]; exact hfits, rfl⟩
  have hdirectory : (directoryEntries
      (bucketSegmentHeaderBytes + records.length * bucketDirectoryEntryBytes)
      (records.map (BucketRecord.writeRecord crc))).flatten =
        segmentDirectory (records.map (BucketRecord.writeRecord crc)) := by
    rw [segmentDirectory, List.length_map, memberStart]
  obtain ⟨pieces, hpieces, hcopy⟩ := copyMembers_writeRecord hcrc (crc.update (crc.update crc.new
    (segmentHeader crc (UInt64.ofNat records.length)
      (UInt64.ofNat (records.length * bucketDirectoryEntryBytes))
      (crc.hash (segmentDirectory (records.map (BucketRecord.writeRecord crc))))))
    (segmentDirectory (records.map (BucketRecord.writeRecord crc)))) rest hcounts
  have hbytes : segmentHeader crc (UInt64.ofNat records.length)
      (UInt64.ofNat (records.length * bucketDirectoryEntryBytes))
      (crc.hash (segmentDirectory (records.map (BucketRecord.writeRecord crc)))) ++
        (segmentDirectory (records.map (BucketRecord.writeRecord crc)) ++ segmentMembers records) =
      segmentBytes crc records := by
    rw [segmentBytes, segmentPrefix, List.length_map, List.append_assoc]
  have houter := hcrc (segmentHeader crc (UInt64.ofNat records.length)
    (UInt64.ofNat (records.length * bucketDirectoryEntryBytes))
    (crc.hash (segmentDirectory (records.map (BucketRecord.writeRecord crc)))) ::
      segmentDirectory (records.map (BucketRecord.writeRecord crc)) :: pieces)
  rw [List.flatten_cons, List.flatten_cons, hpieces, hbytes] at houter
  simp only [writeBucketSegment, hkeys, bind_eq_ok_iff, rejectUnordered_eq_ok_iff, exists_const,
    okOr_eq_ok_iff, checkedMul_eq_some_iff, checkedAdd_eq_some_iff, tryU64_eq_some_iff,
    pure_eq_ok_iff, Prod.exists, List.length_map]
  refine ⟨hsorted, _, ⟨by omega, rfl⟩, _, ⟨hstart, rfl⟩, _, hfold, _, ⟨by omega, rfl⟩, _,
    ⟨by omega, rfl⟩, ?_⟩
  simp only [List.nil_append, hdirectory, Nat.zero_add]
  refine ⟨_, _, _, hcopy, _, ⟨by rw [htotal, ← hlength]; exact hfits, rfl⟩, ?_⟩
  rw [hbytes, htotal, ← hlength]
  rw [← houter]
  rfl

/-! ## The writer and the encoder -/

section Refinement

variable {crc : Checksum} {records : List BucketRecord} {described : List BucketWriteRecord}

/-- Records with the right keys, counts and checksums are those the encoder derives. -/
theorem eq_map_writeRecord (h : List.Forall₂ Describes records described)
    (hchecksums : ∀ pair ∈ records.zip described,
      pair.2.memberChecksum = crc.hash pair.1.memberBytes) :
    described = records.map (BucketRecord.writeRecord crc) := by
  induction h with
  | nil => rfl
  | @cons record entry records described hdescribes _ ih =>
      rw [List.zip_cons_cons, List.forall_mem_cons] at hchecksums
      obtain ⟨key, memberCount, memberChecksum⟩ := entry
      obtain ⟨rfl, hcount⟩ := hdescribes
      obtain ⟨hchecksum, hothers⟩ := hchecksums
      rw [List.map_cons, ← ih hothers, BucketRecord.writeRecord]
      simp only at hcount hchecksum
      rw [hchecksum, ← hcount, UInt32.ofNat_toNat]

/-- Sorted records that the encoder cannot encode overflow a length. -/
theorem outcome_encodeBucketSegment (hsorted : Ascending (records.map (·.key))) :
    Outcome (encodeBucketSegment crc records) (fun _ => True) (· = .lengthOverflow) := by
  have horder : validateRecordOrder records = .ok () := rejectUnordered_eq_ok_iff.mpr hsorted
  rw [encodeBucketSegment, horder, ok_bind]
  apply outcome_bind outcome_okOr
  intro directoryBytes _
  apply outcome_bind (outcome_foldlM fun _ _ => outcome_bind outcome_okOr fun _ _ => outcome_okOr)
  intro memberBytes _
  apply outcome_bind outcome_okOr
  intro _ _
  apply outcome_bind outcome_okOr
  intro memberStart _
  apply outcome_bind (outcome_foldlM fun _ _ => outcome_bind outcome_okOr fun _ _ =>
    outcome_bind outcome_okOr fun _ _ => outcome_bind outcome_okOr fun _ _ => trivial)
  intro buffers _
  apply outcome_bind outcome_okOr
  intro countWord _
  apply outcome_bind outcome_okOr
  intro directoryWord _
  trivial

/-- Fed the members of sorted records, the writer fails only on a length that overflows. -/
theorem outcome_writeBucketSegment (hcrc : crc.Incremental) (rest : Bytes)
    (hsorted : Ascending (records.map (·.key)))
    (hcounts : ∀ record ∈ records, record.members.length < 2 ^ 32) :
    Outcome (writeBucketSegment crc (records.map (BucketRecord.writeRecord crc))
      (segmentMembers records ++ rest)) (fun _ => True) (· = .lengthOverflow) := by
  have hkeys : (records.map (BucketRecord.writeRecord crc)).map (·.key) = records.map (·.key) := by
    rw [List.map_map]
    rfl
  have horder : rejectUnordered ((records.map (BucketRecord.writeRecord crc)).map (·.key))
      "bucket records must be strictly sorted and unique" = .ok () := by
    rw [hkeys]
    exact rejectUnordered_eq_ok_iff.mpr hsorted
  rw [writeBucketSegment, horder, ok_bind]
  apply outcome_bind outcome_okOr
  intro directoryBytes _
  apply outcome_bind outcome_okOr
  intro memberStart _
  apply outcome_bind (outcome_foldlM fun _ _ => outcome_bind outcome_okOr fun _ _ =>
    outcome_bind outcome_okOr fun _ _ => outcome_bind outcome_okOr fun _ _ => trivial)
  intro buffers _
  apply outcome_bind outcome_okOr
  intro countWord _
  apply outcome_bind outcome_okOr
  intro directoryWord _
  obtain ⟨pieces, _, hcopy⟩ := copyMembers_writeRecord hcrc (crc.update (crc.update crc.new
    (segmentHeader crc countWord directoryWord (crc.hash buffers.directory))) buffers.directory)
    rest hcounts
  apply outcome_bind (outcome_of_ok hcopy trivial : Outcome _ (fun _ => True) _)
  intro copied _
  apply outcome_bind outcome_okOr
  intro bytes _
  trivial

/-- What the writer writes fits the length fields. -/
theorem segmentLength_lt_of_writeBucketSegment {members : Bytes}
    {result : Bytes × StreamedBucketSegment × Bytes}
    (hcounts : ∀ record ∈ records, record.members.length < 2 ^ 32)
    (hok : writeBucketSegment crc (records.map (BucketRecord.writeRecord crc)) members =
      .ok result) : segmentLength records < 2 ^ 64 := by
  have htotal : memberTotal (records.map (BucketRecord.writeRecord crc)) =
      (segmentMembers records).length := memberTotal_writeRecord hcounts
  simp only [writeBucketSegment, bind_eq_ok_iff, okOr_eq_ok_iff, checkedMul_eq_some_iff,
    checkedAdd_eq_some_iff, List.length_map] at hok
  obtain ⟨_, _, _, ⟨_, rfl⟩, _, ⟨hstart, rfl⟩, _, hfold, _⟩ := hok
  have hfits := ((foldlM_pushDirectoryEntry hstart (Nat.zero_le _)).mp hfold).1
  rw [htotal, length_segmentMembers] at hfits
  exact hfits

/-- Fed the concatenated members of sorted records, described with the right keys and counts, the
writer does what the encoder does if every checksum is right: it writes the same payload, reports
its length and checksum, and leaves the reader just past the last member, and it fails where the
encoder fails, with the same error. If a checksum is wrong it fails. -/
theorem writeBucketSegment_refines (hcrc : crc.Incremental)
    (hsorted : Ascending (records.map (·.key)))
    (hdescribed : List.Forall₂ Describes records described) (rest : Bytes) :
    ((∀ pair ∈ records.zip described, pair.2.memberChecksum = crc.hash pair.1.memberBytes) →
      writeBucketSegment crc described (segmentMembers records ++ rest) =
        (encodeBucketSegment crc records).map fun payload =>
          (payload, ⟨payload.length, crc.hash payload⟩, rest)) ∧
    ((∃ pair ∈ records.zip described, pair.2.memberChecksum ≠ crc.hash pair.1.memberBytes) →
      ∃ error, writeBucketSegment crc described (segmentMembers records ++ rest) =
        .error error) := by
  constructor
  · intro hchecksums
    rw [eq_map_writeRecord hdescribed hchecksums]
    have hcounts : ∀ record ∈ records, record.members.length < 2 ^ 32 := by
      intro record hrecord
      obtain ⟨entry, _, hentry⟩ := exists_right_of_forall₂ hdescribed hrecord
      rw [← hentry.count]
      exact entry.memberCount.toNat_lt
    by_cases hfits : segmentLength records < 2 ^ 64
    · rw [writeBucketSegment_eq_ok hcrc rest hsorted hcounts hfits,
        encodeBucketSegment_eq_ok_iff.mpr ⟨hsorted, hcounts, hfits, rfl⟩, Except.map,
        length_segmentBytes]
    · have hencode := @outcome_encodeBucketSegment crc records hsorted
      have hwrite := outcome_writeBucketSegment hcrc rest hsorted hcounts
      cases hencoded : encodeBucketSegment crc records with
      | ok payload =>
          exact absurd (encodeBucketSegment_eq_ok_iff.mp hencoded).2.2.1 hfits
      | error error =>
          rw [hencoded] at hencode
          obtain rfl : error = .lengthOverflow := hencode
          cases hwritten : writeBucketSegment crc (records.map (BucketRecord.writeRecord crc))
              (segmentMembers records ++ rest) with
          | ok result => exact absurd (segmentLength_lt_of_writeBucketSegment hcounts hwritten) hfits
          | error error =>
              rw [hwritten] at hwrite
              obtain rfl : error = .lengthOverflow := hwrite
              rfl
  · rintro ⟨pair, hpair, hwrong⟩
    cases hwritten : writeBucketSegment crc described (segmentMembers records ++ rest) with
    | error error => exact ⟨error, rfl⟩
    | ok result =>
        simp only [writeBucketSegment, bind_eq_ok_iff] at hwritten
        obtain ⟨_, _, _, _, _, _, _, _, _, _, _, _, _, hcopy, _⟩ := hwritten
        exact absurd (checksum_of_copyMembers hcrc hdescribed hcopy pair hpair) hwrong

end Refinement

/-- Two buckets, and a byte the reader holds beyond them. -/
theorem writeBucketSegment_refines_two_buckets :
    ∃ records : List BucketRecord, records.length = 2 ∧
      writeBucketSegment Checksum.crc32 (records.map (BucketRecord.writeRecord Checksum.crc32))
          (segmentMembers records ++ [5]) =
        (encodeBucketSegment Checksum.crc32 records).map fun payload =>
          (payload, ⟨payload.length, Checksum.crc32.hash payload⟩, [5]) := by
  have hsorted : Ascending ([⟨⟨0, 11⟩, [1, 2, 3]⟩, ⟨⟨1, 22⟩, [7, 9]⟩].map BucketRecord.key) :=
    (List.pairwise_pair).mpr (by decide)
  refine ⟨[⟨⟨0, 11⟩, [1, 2, 3]⟩, ⟨⟨1, 22⟩, [7, 9]⟩], rfl,
    (writeBucketSegment_refines Checksum.crc32_incremental hsorted
      (.cons ⟨rfl, rfl⟩ (.cons ⟨rfl, rfl⟩ .nil)) [5]).1 ?_⟩
  intro pair hpair
  rcases List.mem_pair.mp hpair with rfl | rfl
  all_goals rfl

end Pari.Format
