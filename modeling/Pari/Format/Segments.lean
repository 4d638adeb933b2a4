/-
# The closed form of a bucket segment

What the encoder writes, as one expression in the records: a header, one directory
entry for each record with the running member offset, and the concatenated member
lists. The encoder computes this expression, and the decoder accepts exactly the
payloads that have it, for some member bytes.
-/

import Pari.Format.Buckets

namespace Pari.Format

open Data

/-- Metadata for one bucket whose encoded members are supplied separately. -/
structure BucketWriteRecord where
  key : BucketKey
  memberCount : UInt32
  memberChecksum : UInt32
  deriving DecidableEq, Repr

/-- The length of the member list a record describes. -/
def BucketWriteRecord.memberLength (record : BucketWriteRecord) : Nat :=
  record.memberCount.toNat * 8

def BucketRecord.memberBytes (record : BucketRecord) : Bytes := u64List record.members

/-- The directory metadata of a bucket. -/
def BucketRecord.writeRecord (crc : Checksum) (record : BucketRecord) : BucketWriteRecord where
  key := record.key
  memberCount := UInt32.ofNat record.members.length
  memberChecksum := crc.hash record.memberBytes

/-- The total length of the member lists. -/
def memberTotal (records : List BucketWriteRecord) : Nat :=
  (records.map BucketWriteRecord.memberLength).sum

/-- The directory entries, the first of which describes members at `offset`. -/
def directoryEntries : Nat → List BucketWriteRecord → List Bytes
  | _, [] => []
  | offset, record :: records =>
      directoryEntry record.key offset record.memberCount record.memberChecksum ::
        directoryEntries (offset + record.memberLength) records

/-- Where the members of a segment start. -/
def memberStart (count : Nat) : Nat := bucketSegmentHeaderBytes + count * bucketDirectoryEntryBytes

/-- The directory of a segment with these records. -/
def segmentDirectory (records : List BucketWriteRecord) : Bytes :=
  (directoryEntries (memberStart records.length) records).flatten

/-- The header and the directory of a segment. -/
def segmentPrefix (crc : Checksum) (records : List BucketWriteRecord) : Bytes :=
  segmentHeader crc (UInt64.ofNat records.length)
      (UInt64.ofNat (records.length * bucketDirectoryEntryBytes))
      (crc.hash (segmentDirectory records)) ++
    segmentDirectory records

/-- The member lists back to back. -/
def segmentMembers (records : List BucketRecord) : Bytes :=
  records.flatMap BucketRecord.memberBytes

/-- The payload of a segment. -/
def segmentBytes (crc : Checksum) (records : List BucketRecord) : Bytes :=
  segmentPrefix crc (records.map (BucketRecord.writeRecord crc)) ++ segmentMembers records

/-- The length of the payload of a segment. -/
def segmentLength (records : List BucketRecord) : Nat :=
  memberStart records.length + (records.map (·.members.length * 8)).sum

/-- The locations a directory describes. -/
def locationsFrom (descriptor : SectionDescriptor) : Nat → List BucketWriteRecord →
    List BucketLocation
  | _, [] => []
  | offset, record :: records =>
      { key := record.key, container := descriptor, memberOffset := offset
        memberCount := record.memberCount, memberChecksum := record.memberChecksum } ::
        locationsFrom descriptor (offset + record.memberLength) records

/-! ## Lengths -/

@[simp]
theorem length_bucketSegmentMagic : bucketSegmentMagic.length = 8 := by
  simp [bucketSegmentMagic]

@[simp]
theorem length_directoryEntry (key : BucketKey) (memberOffset : Nat)
    (memberCount memberChecksum : UInt32) :
    (directoryEntry key memberOffset memberCount memberChecksum).length =
      bucketDirectoryEntryBytes := by
  simp [directoryEntry, bucketDirectoryEntryBytes]

@[simp]
theorem length_segmentHeaderFields (count directoryBytes : UInt64) (directoryChecksum : UInt32) :
    (segmentHeaderFields count directoryBytes directoryChecksum).length = 32 := by
  simp [segmentHeaderFields]

@[simp]
theorem length_segmentHeader (crc : Checksum) (count directoryBytes : UInt64)
    (directoryChecksum : UInt32) :
    (segmentHeader crc count directoryBytes directoryChecksum).length =
      bucketSegmentHeaderBytes := by
  simp [segmentHeader, bucketSegmentHeaderBytes]

@[simp]
theorem length_memberBytes (record : BucketRecord) :
    record.memberBytes.length = record.members.length * 8 := by
  rw [BucketRecord.memberBytes, length_u64List, Nat.mul_comm]

@[simp]
theorem length_directoryEntries (offset : Nat) (records : List BucketWriteRecord) :
    (directoryEntries offset records).length = records.length := by
  induction records generalizing offset with
  | nil => rfl
  | cons record records ih => simp [directoryEntries, ih]

theorem length_of_mem_directoryEntries {offset : Nat} {records : List BucketWriteRecord}
    {entry : Bytes} (h : entry ∈ directoryEntries offset records) :
    entry.length = bucketDirectoryEntryBytes := by
  induction records generalizing offset with
  | nil => simp [directoryEntries] at h
  | cons record records ih =>
      rcases List.mem_cons.mp h with rfl | hrest
      · exact length_directoryEntry _ _ _ _
      · exact ih hrest

@[simp]
theorem length_segmentDirectory (records : List BucketWriteRecord) :
    (segmentDirectory records).length = records.length * bucketDirectoryEntryBytes := by
  have hall : ∀ entry ∈ directoryEntries (memberStart records.length) records,
      entry.length = bucketDirectoryEntryBytes := fun _ => length_of_mem_directoryEntries
  rw [segmentDirectory, List.length_flatten, List.map_congr_left hall, List.map_const',
    List.sum_replicate_nat, length_directoryEntries]

@[simp]
theorem length_segmentPrefix (crc : Checksum) (records : List BucketWriteRecord) :
    (segmentPrefix crc records).length = memberStart records.length := by
  simp [segmentPrefix, memberStart]

theorem length_segmentMembers (records : List BucketRecord) :
    (segmentMembers records).length = (records.map (·.members.length * 8)).sum := by
  simp [segmentMembers, List.length_flatMap]

theorem length_segmentBytes (crc : Checksum) (records : List BucketRecord) :
    (segmentBytes crc records).length = segmentLength records := by
  rw [segmentBytes, List.length_append, length_segmentPrefix, List.length_map,
    length_segmentMembers, segmentLength]

/-- With 32-bit counts the directory describes the member bytes exactly. -/
theorem memberTotal_writeRecord {crc : Checksum} {records : List BucketRecord}
    (h : ∀ record ∈ records, record.members.length < 2 ^ 32) :
    memberTotal (records.map (BucketRecord.writeRecord crc)) = (segmentMembers records).length := by
  rw [memberTotal, length_segmentMembers, List.map_map]
  refine congrArg List.sum (List.map_congr_left fun record hmem => ?_)
  simp [BucketWriteRecord.memberLength, BucketRecord.writeRecord, toNat_ofNat32 (h record hmem)]

/-! ## The encoder -/

theorem rejectUnordered_eq_ok_iff {keys : List BucketKey} {reason : String} {result : Unit} :
    rejectUnordered keys reason = .ok result ↔ Ascending keys := by
  rw [rejectUnordered, rejectIf_eq_ok_iff, not_not, List.isChain_iff_pairwise, Ascending]

@[simp]
theorem segmentMembers_cons (record : BucketRecord) (records : List BucketRecord) :
    segmentMembers (record :: records) = record.memberBytes ++ segmentMembers records := rfl

theorem encodeRecord_eq_ok_iff {crc : Checksum} {record : BucketRecord}
    {buffers result : SegmentBuffers} :
    encodeRecord crc buffers record = .ok result ↔
      record.members.length < 2 ^ 32 ∧
      buffers.memberOffset + record.memberBytes.length < 2 ^ 64 ∧
      result = {
        directory := buffers.directory ++ directoryEntry record.key buffers.memberOffset
          (record.writeRecord crc).memberCount (record.writeRecord crc).memberChecksum
        membersPayload := buffers.membersPayload ++ record.memberBytes
        memberOffset := buffers.memberOffset + record.memberBytes.length } := by
  simp only [encodeRecord, bind_eq_ok_iff, okOr_eq_ok_iff, tryU32_eq_some_iff,
    checkedMul_eq_some_iff, checkedAdd_eq_some_iff, pure_eq_ok_iff, length_memberBytes]
  constructor
  · rintro ⟨_, ⟨hcount, rfl⟩, _, ⟨_, rfl⟩, _, ⟨hoffset, rfl⟩, rfl⟩
    rw [toNat_ofNat32 hcount] at hoffset ⊢
    exact ⟨hcount, hoffset, rfl⟩
  · rintro ⟨hcount, hoffset, rfl⟩
    have hword := toNat_ofNat32 hcount
    refine ⟨_, ⟨hcount, rfl⟩, _, ⟨?_, rfl⟩, _, ⟨?_, rfl⟩, ?_⟩
    · rw [hword]
      omega
    · rwa [hword]
    · rw [hword]
      rfl

/-- The encoding loop appends one entry and one member list for each record. -/
theorem foldlM_encodeRecord {crc : Checksum} {records : List BucketRecord}
    {buffers result : SegmentBuffers} (hoffset : buffers.memberOffset < 2 ^ 64) :
    records.foldlM (encodeRecord crc) buffers = .ok result ↔
      (∀ record ∈ records, record.members.length < 2 ^ 32) ∧
      buffers.memberOffset + (segmentMembers records).length < 2 ^ 64 ∧
      result = {
        directory := buffers.directory ++ (directoryEntries buffers.memberOffset
          (records.map (BucketRecord.writeRecord crc))).flatten
        membersPayload := buffers.membersPayload ++ segmentMembers records
        memberOffset := buffers.memberOffset + (segmentMembers records).length } := by
  induction records generalizing buffers with
  | nil =>
      simp only [List.foldlM_nil, pure_eq_ok_iff, List.map_nil, directoryEntries, segmentMembers,
        List.flatten_nil, List.flatMap_nil, List.append_nil, List.length_nil, Nat.add_zero, hoffset,
        List.not_mem_nil, false_implies, implies_true, true_and]
      exact eq_comm
  | cons record records ih =>
      simp only [List.foldlM_cons, bind_eq_ok_iff, encodeRecord_eq_ok_iff, List.forall_mem_cons,
        segmentMembers_cons, List.length_append, List.map_cons, directoryEntries,
        List.flatten_cons]
      constructor
      · rintro ⟨_, ⟨hcount, hnext, rfl⟩, hrest⟩
        obtain ⟨hcounts, htotal, rfl⟩ := (ih hnext).mp hrest
        have hlength : (record.writeRecord crc).memberLength = record.memberBytes.length := by
          rw [BucketWriteRecord.memberLength, BucketRecord.writeRecord, toNat_ofNat32 hcount,
            length_memberBytes]
        refine ⟨⟨hcount, hcounts⟩, by rwa [← Nat.add_assoc], ?_⟩
        rw [hlength]
        simp only [List.append_assoc, Nat.add_assoc]
        rfl
      · rintro ⟨⟨hcount, hcounts⟩, htotal, rfl⟩
        have hlength : (record.writeRecord crc).memberLength = record.memberBytes.length := by
          rw [BucketWriteRecord.memberLength, BucketRecord.writeRecord, toNat_ofNat32 hcount,
            length_memberBytes]
        refine ⟨_, ⟨hcount, by omega, rfl⟩, ?_⟩
        rw [ih (show _ + _ < _ by omega)]
        refine ⟨hcounts, by rwa [Nat.add_assoc], ?_⟩
        rw [hlength]
        simp only [List.append_assoc, Nat.add_assoc]
        rfl

/-- The length pass succeeds exactly when the members fit the address space. -/
theorem memberBytes_eq_ok_iff {records : List BucketRecord} {total result : Nat}
    (h : total < 2 ^ 64) :
    (records.foldlM (fun total record => do
      let memberLength ← okOr (checkedMul record.members.length 8) BucketError.lengthOverflow
      okOr (checkedAdd total memberLength) .lengthOverflow) total = .ok result) ↔
      total + (segmentMembers records).length < 2 ^ 64 ∧
        result = total + (segmentMembers records).length := by
  induction records generalizing total with
  | nil =>
      simp only [List.foldlM_nil, pure_eq_ok_iff, segmentMembers, List.flatMap_nil,
        List.length_nil, Nat.add_zero, h, true_and]
      exact eq_comm
  | cons record records ih =>
      simp only [List.foldlM_cons, bind_eq_ok_iff, okOr_eq_ok_iff, checkedMul_eq_some_iff,
        checkedAdd_eq_some_iff, segmentMembers_cons, List.length_append, length_memberBytes]
      constructor
      · rintro ⟨_, ⟨_, ⟨_, rfl⟩, hadd, rfl⟩, hrest⟩
        obtain ⟨htotal, rfl⟩ := (ih hadd).mp hrest
        exact ⟨by omega, by omega⟩
      · rintro ⟨htotal, rfl⟩
        refine ⟨_, ⟨_, ⟨by omega, rfl⟩, by omega, rfl⟩, ?_⟩
        rw [ih (by omega)]
        exact ⟨by omega, by omega⟩

/-- The encoder succeeds on sorted records that fit their length fields, and writes the
closed form. -/
theorem encodeBucketSegment_eq_ok_iff {crc : Checksum} {records : List BucketRecord}
    {payload : Bytes} :
    encodeBucketSegment crc records = .ok payload ↔
      Ascending (records.map (·.key)) ∧
      (∀ record ∈ records, record.members.length < 2 ^ 32) ∧
      segmentLength records < 2 ^ 64 ∧ payload = segmentBytes crc records := by
  have hmembers := length_segmentMembers records
  have hlength : segmentLength records = bucketSegmentHeaderBytes +
      records.length * bucketDirectoryEntryBytes + (segmentMembers records).length := by
    rw [segmentLength, memberStart, hmembers]
  simp only [encodeBucketSegment, validateRecordOrder, bind_eq_ok_iff, rejectUnordered_eq_ok_iff,
    exists_const, okOr_eq_ok_iff, checkedMul_eq_some_iff, Option.bind_eq_some_iff,
    checkedAdd_eq_some_iff, tryU64_eq_some_iff, pure_eq_ok_iff,
    memberBytes_eq_ok_iff (show 0 < 2 ^ 64 by decide)]
  constructor
  · rintro ⟨hsorted, _, ⟨_, rfl⟩, _, ⟨_, rfl⟩, _, ⟨_, ⟨_, rfl⟩, _, rfl⟩, _, ⟨hstart, rfl⟩, _,
      hfold, _, ⟨_, rfl⟩, _, ⟨_, rfl⟩, rfl⟩
    obtain ⟨hcounts, htotal, rfl⟩ := (foldlM_encodeRecord hstart).mp hfold
    refine ⟨hsorted, hcounts, by rw [hlength]; exact htotal, ?_⟩
    simp [segmentBytes, segmentPrefix, segmentDirectory, memberStart]
  · rintro ⟨hsorted, hcounts, htotal, rfl⟩
    have hcount : records.length ≤ records.length * bucketDirectoryEntryBytes :=
      Nat.le_mul_of_pos_right _ (by decide)
    have hstart : bucketSegmentHeaderBytes + records.length * bucketDirectoryEntryBytes < 2 ^ 64 :=
      by omega
    have hfold : records.foldlM (encodeRecord crc) ⟨[], [], _⟩ = .ok _ :=
      (foldlM_encodeRecord hstart).mpr ⟨hcounts, hlength ▸ htotal, rfl⟩
    refine ⟨hsorted, _, ⟨by omega, rfl⟩, _, ⟨by omega, rfl⟩, _, ⟨_, ⟨hstart, rfl⟩, by omega, rfl⟩,
      _, ⟨hstart, rfl⟩, _, hfold, _, ⟨by omega, rfl⟩, _, ⟨by omega, rfl⟩, ?_⟩
    simp [segmentBytes, segmentPrefix, segmentDirectory, memberStart]

/-! ## What the field readers return -/

theorem readFieldAt_eq_ok_iff {count offset : Nat} {bytes part : Bytes} {reason : String}
    (h : offset + count < 2 ^ 64) :
    readFieldAt count bytes offset reason = .ok part ↔
      offset + count ≤ bytes.length ∧ window offset count bytes = part := by
  simp [readFieldAt, checkedAdd_of_lt h, slice?_eq_some_iff]

theorem readU16At_eq_ok_iff {bytes : Bytes} {offset : Nat} {value : UInt16}
    (h : offset + 2 < 2 ^ 64) :
    readU16At bytes offset = .ok value ↔
      offset + 2 ≤ bytes.length ∧ window offset 2 bytes = u16Bytes value :=
  field_eq_ok_iff (fun _ => readFieldAt_eq_ok_iff h) window_eq_u16Bytes_iff

theorem readU32At_eq_ok_iff {bytes : Bytes} {offset : Nat} {value : UInt32}
    (h : offset + 4 < 2 ^ 64) :
    readU32At bytes offset = .ok value ↔
      offset + 4 ≤ bytes.length ∧ window offset 4 bytes = u32Bytes value :=
  field_eq_ok_iff (fun _ => readFieldAt_eq_ok_iff h) window_eq_u32Bytes_iff

theorem readU64At_eq_ok_iff {bytes : Bytes} {offset : Nat} {value : UInt64}
    (h : offset + 8 < 2 ^ 64) :
    readU64At bytes offset = .ok value ↔
      offset + 8 ≤ bytes.length ∧ window offset 8 bytes = u64Bytes value :=
  field_eq_ok_iff (fun _ => readFieldAt_eq_ok_iff h) window_eq_u64Bytes_iff

/-! ## The directory decoder -/

/-- An entry decodes to the location whose entry it is, at the expected offset. -/
theorem decodeDirectoryEntry_eq_ok_iff {descriptor : SectionDescriptor} {bands : UInt32}
    {previousKey : Option BucketKey} {offset : Nat} {entry : Bytes} {location : BucketLocation}
    (hlength : entry.length = bucketDirectoryEntryBytes)
    (haddress : descriptor.payloadLength < 2 ^ 64) :
    decodeDirectoryEntry descriptor bands previousKey offset entry = .ok location ↔
      entry = directoryEntry location.key offset location.memberCount location.memberChecksum ∧
      location.container = descriptor ∧ location.memberOffset = offset ∧
      location.key.band < bands ∧ (∀ previous ∈ previousKey, previous < location.key) ∧
      location.memberEnd ≤ descriptor.payloadLength := by
  have h32 : entry.length = 32 := hlength
  have hlast : (entry.drop 28 = u32Bytes location.memberChecksum) =
      (window 28 4 entry = u32Bytes location.memberChecksum) :=
    propext (drop_eq_iff_window (by simp [h32]))
  rw [directoryEntry]
  conv_rhs => rw [← List.drop_zero (l := entry)]
  simp (disch := decide) only [decodeDirectoryEntry, bind_eq_ok_iff, rejectIf_eq_ok_iff,
    exists_const, okOr_eq_ok_iff, readU32At_eq_ok_iff, readU64At_eq_ok_iff, pure_eq_ok_iff, h32,
    checkedMul_eq_some_iff, checkedAdd_eq_some_iff, not_not, ne_eq, not_lt, not_le, not_exists,
    not_and, Nat.reduceLeDiff, Nat.reduceAdd, true_and, drop_eq_append_iff, length_u32Bytes,
    length_u64Bytes, hlast, and_assoc]
  constructor
  · rintro ⟨_, hreserved, rfl, band, hband, hash, hhash, hbands, hprevious, word, hoffset, rfl,
      count, hcount, _, _, rfl, _, _, rfl, hend, checksum, hchecksum, rfl⟩
    exact ⟨hband, hreserved, hhash, by rwa [UInt64.ofNat_toNat], hcount, hchecksum, rfl, rfl,
      hbands, hprevious, hend⟩
  · rintro ⟨hband, hreserved, hhash, hoffset, hcount, hchecksum, rfl, rfl, hbands, hprevious,
      hend⟩
    rw [BucketLocation.memberEnd] at hend
    have hword : (UInt64.ofNat location.memberOffset).toNat = location.memberOffset :=
      toNat_ofNat64 (by omega)
    refine ⟨_, hreserved, rfl, _, hband, _, hhash, hbands, hprevious, _, hoffset, hword, _, hcount,
      _, by omega, rfl, _, by omega, rfl, by omega, _, hchecksum, ?_⟩
    rw [hword]

/-- The directory loop accepts exactly the entries of an ascending list of records whose
member ranges stay inside the payload. -/
theorem decodeDirectoryLoop_eq_ok_iff {descriptor : SectionDescriptor} {bands : UInt32}
    {previousKey : Option BucketKey} {offset last : Nat} {entries : List Bytes}
    {locations : List BucketLocation} (haddress : descriptor.payloadLength < 2 ^ 64)
    (hentries : ∀ entry ∈ entries, entry.length = bucketDirectoryEntryBytes) :
    decodeDirectoryLoop descriptor bands previousKey offset entries = .ok (locations, last) ↔
      ∃ records : List BucketWriteRecord,
        entries = directoryEntries offset records ∧
        locations = locationsFrom descriptor offset records ∧
        last = offset + memberTotal records ∧
        (∀ record ∈ records, record.key.band < bands) ∧
        (previousKey.toList ++ records.map (·.key)).IsChain (· < ·) ∧
        ∀ location ∈ locations, location.memberEnd ≤ descriptor.payloadLength := by
  induction entries generalizing previousKey offset last locations with
  | nil =>
      simp only [decodeDirectoryLoop, Except.ok.injEq, Prod.mk.injEq]
      constructor
      · rintro ⟨rfl, rfl⟩
        refine ⟨[], rfl, rfl, rfl, by simp, ?_, by simp⟩
        cases previousKey <;> simp
      · rintro ⟨records, hentries, rfl, rfl, -⟩
        cases records with
        | nil => exact ⟨rfl, rfl⟩
        | cons record records => cases hentries
  | cons entry entries ih =>
      obtain ⟨hentry, hrest⟩ := List.forall_mem_cons.mp hentries
      simp only [decodeDirectoryLoop, bind_eq_ok_iff, Prod.exists, pure_eq_ok_iff, Prod.mk.injEq,
        decodeDirectoryEntry_eq_ok_iff hentry haddress, ih hrest]
      constructor
      · rintro ⟨location, ⟨rfl, rfl, rfl, hband, hprevious, hend⟩, _, _,
          ⟨records, rfl, rfl, rfl, hbands, hchain, hends⟩, rfl, rfl⟩
        refine ⟨⟨location.key, location.memberCount, location.memberChecksum⟩ :: records, rfl, rfl,
          ?_, List.forall_mem_cons.mpr ⟨hband, hbands⟩, ?_, List.forall_mem_cons.mpr ⟨hend, hends⟩⟩
        · simp [memberTotal, BucketWriteRecord.memberLength, BucketLocation.memberEnd,
            Nat.add_assoc]
        · cases previousKey with
          | none => exact hchain
          | some previous => exact List.IsChain.cons_cons (hprevious previous rfl) hchain
      · rintro ⟨records, hentries, rfl, rfl, hbands, hchain, hends⟩
        cases records with
        | nil => cases hentries
        | cons record records =>
            obtain ⟨rfl, rfl⟩ := List.cons.inj hentries
            obtain ⟨hband, hbands⟩ := List.forall_mem_cons.mp hbands
            obtain ⟨hend, hends⟩ := List.forall_mem_cons.mp hends
            refine ⟨_, ⟨rfl, rfl, rfl, hband, ?_, hend⟩, _, _, ⟨records, rfl, rfl, rfl, hbands, ?_,
              hends⟩, rfl, ?_⟩
            · rintro previous hmem
              cases previousKey with
              | none => cases hmem
              | some other =>
                  cases hmem
                  exact (List.isChain_cons_cons.mp hchain).1
            · cases previousKey with
              | none => exact hchain
              | some other => exact (List.isChain_cons_cons.mp hchain).2
            · simp [memberTotal, BucketWriteRecord.memberLength, BucketLocation.memberEnd,
                Nat.add_assoc]

/-! ## The segment decoder -/

theorem eq_segmentHeader_iff {crc : Checksum} {header : Bytes} {count directoryBytes : UInt64}
    {directoryChecksum : UInt32} (hlength : header.length = bucketSegmentHeaderBytes) :
    header = segmentHeader crc count directoryBytes directoryChecksum ↔
      window 0 8 header = bucketSegmentMagic ∧ window 8 2 header = u16Bytes bucketSegmentVersion ∧
      window 10 2 header = u16Bytes bucketSegmentHeaderBytesU16 ∧
      window 12 8 header = u64Bytes count ∧ window 20 8 header = u64Bytes directoryBytes ∧
      window 28 4 header = u32Bytes directoryChecksum ∧
      window 32 4 header = u32Bytes (crc.hash (header.take 32)) ∧
      window 36 4 header = reserved := by
  have h40 : header.length = 40 := hlength
  have hchecked : (window 0 32 header).length = 32 := length_window (by omega)
  have hfields : window 0 32 header = segmentHeaderFields count directoryBytes directoryChecksum ↔
      window 0 8 header = bucketSegmentMagic ∧ window 8 2 header = u16Bytes bucketSegmentVersion ∧
      window 10 2 header = u16Bytes bucketSegmentHeaderBytesU16 ∧
      window 12 8 header = u64Bytes count ∧ window 20 8 header = u64Bytes directoryBytes ∧
      window 28 4 header = u32Bytes directoryChecksum := by
    have hlast : ((window 0 32 header).drop 28 = u32Bytes directoryChecksum) =
        (window 28 4 (window 0 32 header) = u32Bytes directoryChecksum) :=
      propext (drop_eq_iff_window (by simp [hchecked]))
    rw [segmentHeaderFields]
    conv_lhs => rw [← List.drop_zero (l := window 0 32 header)]
    simp (disch := decide) only [drop_eq_append_iff, length_bucketSegmentMagic, length_u16Bytes,
      length_u64Bytes, Nat.reduceAdd, hlast, window_window]
  have hlast : (header.drop 36 = reserved) = (window 36 4 header = reserved) :=
    propext (drop_eq_iff_window (by simp [h40]))
  have htake : header.take 32 = window 0 32 header := by simp [window]
  rw [segmentHeader]
  conv_lhs => rw [← List.drop_zero (l := header)]
  simp only [drop_eq_append_iff, length_segmentHeaderFields, length_u32Bytes, Nat.reduceAdd, hlast,
    htake]
  constructor
  · rintro ⟨hwindow, hchecksum, hreserved⟩
    obtain ⟨h1, h2, h3, h4, h5, h6⟩ := hfields.mp hwindow
    exact ⟨h1, h2, h3, h4, h5, h6, hwindow ▸ hchecksum, hreserved⟩
  · rintro ⟨h1, h2, h3, h4, h5, h6, hchecksum, hreserved⟩
    have hwindow := hfields.mpr ⟨h1, h2, h3, h4, h5, h6⟩
    exact ⟨hwindow, hwindow ▸ hchecksum, hreserved⟩

/-- The fields of a segment header, as the decoder checks and reads them. -/
structure HeaderReads (crc : Checksum) (header : Bytes) (count directoryBytes : UInt64)
    (directoryChecksum : UInt32) : Prop where
  fixed : validateHeaderFixedFields header = .ok ()
  checksum : readU32At header 32 = .ok (crc.hash (header.take 32))
  count : readU64At header 12 = .ok count
  directoryBytes : readU64At header 20 = .ok directoryBytes
  directoryChecksum : readU32At header 28 = .ok directoryChecksum

theorem headerReads_iff {crc : Checksum} {header : Bytes} {count directoryBytes : UInt64}
    {directoryChecksum : UInt32} (hlength : header.length = bucketSegmentHeaderBytes) :
    HeaderReads crc header count directoryBytes directoryChecksum ↔
      header = segmentHeader crc count directoryBytes directoryChecksum := by
  have h40 : header.length = 40 := hlength
  have hfixed : validateHeaderFixedFields header = .ok () ↔
      window 0 8 header = bucketSegmentMagic ∧ window 8 2 header = u16Bytes bucketSegmentVersion ∧
      window 10 2 header = u16Bytes bucketSegmentHeaderBytesU16 ∧
      window 36 4 header = reserved := by
    simp (disch := decide) only [validateHeaderFixedFields, bind_eq_ok_iff, rejectIf_eq_ok_iff,
      exists_const, readU16At_eq_ok_iff, slice?_eq_some_iff, h40, not_not, ne_eq,
      Nat.reduceLeDiff, Nat.reduceAdd, true_and]
    constructor
    · rintro ⟨hmagic, _, hversion, rfl, _, hsize, rfl, hreserved⟩
      exact ⟨hmagic, hversion, hsize, hreserved⟩
    · rintro ⟨hmagic, hversion, hsize, hreserved⟩
      exact ⟨hmagic, _, hversion, rfl, _, hsize, rfl, hreserved⟩
  rw [eq_segmentHeader_iff hlength]
  constructor
  · rintro ⟨hok, h32, h12, h20, h28⟩
    rw [readU32At_eq_ok_iff (by decide)] at h32 h28
    rw [readU64At_eq_ok_iff (by decide)] at h12 h20
    obtain ⟨h1, h2, h3, h4⟩ := hfixed.mp hok
    exact ⟨h1, h2, h3, h12.2, h20.2, h28.2, h32.2, h4⟩
  · rintro ⟨h1, h2, h3, h12, h20, h28, h32, h4⟩
    refine ⟨hfixed.mpr ⟨h1, h2, h3, h4⟩, ?_, ?_, ?_, ?_⟩
    · exact (readU32At_eq_ok_iff (by decide)).mpr ⟨by omega, h32⟩
    · exact (readU64At_eq_ok_iff (by decide)).mpr ⟨by omega, h12⟩
    · exact (readU64At_eq_ok_iff (by decide)).mpr ⟨by omega, h20⟩
    · exact (readU32At_eq_ok_iff (by decide)).mpr ⟨by omega, h28⟩

theorem memberEnd_le {descriptor : SectionDescriptor} {offset : Nat}
    {records : List BucketWriteRecord} {location : BucketLocation}
    (h : location ∈ locationsFrom descriptor offset records) :
    location.memberEnd ≤ offset + memberTotal records := by
  induction records generalizing offset with
  | nil => simp [locationsFrom] at h
  | cons record records ih =>
      have htotal : memberTotal (record :: records) = record.memberLength + memberTotal records :=
        rfl
      rcases List.mem_cons.mp h with rfl | hrest
      · simp only [BucketLocation.memberEnd, htotal, BucketWriteRecord.memberLength]
        omega
      · have := ih hrest
        omega

@[simp]
theorem length_locationsFrom (descriptor : SectionDescriptor) (offset : Nat)
    (records : List BucketWriteRecord) :
    (locationsFrom descriptor offset records).length = records.length := by
  induction records generalizing offset with
  | nil => rfl
  | cons record records ih => simp [locationsFrom, ih]

/-- The directory decoder accepts exactly the directories of ascending records whose
members fill the payload. -/
theorem decodeDirectoryEntries_eq_ok_iff {descriptor : SectionDescriptor} {directory : Bytes}
    {count bands : Nat} {locations : List BucketLocation}
    (haddress : descriptor.payloadLength < 2 ^ 64)
    (hlength : directory.length = count * bucketDirectoryEntryBytes) :
    decodeDirectoryEntries descriptor directory count (memberStart count) bands = .ok locations ↔
      bands < 2 ^ 32 ∧ ∃ records : List BucketWriteRecord, records.length = count ∧
        directory = segmentDirectory records ∧
        memberStart count + memberTotal records = descriptor.payloadLength ∧
        Ascending (records.map (·.key)) ∧ (∀ record ∈ records, record.key.band.toNat < bands) ∧
        locations = locationsFrom descriptor (memberStart count) records := by
  have hchunks : ∀ entry ∈ chunksExact bucketDirectoryEntryBytes directory,
      entry.length = bucketDirectoryEntryBytes := fun _ => length_of_mem_chunksExact
  have hflatten : (chunksExact bucketDirectoryEntryBytes directory).flatten = directory :=
    chunksExact_flatten ⟨count, by rw [hlength, Nat.mul_comm]⟩
  simp only [decodeDirectoryEntries, bind_eq_ok_iff, okOr_eq_ok_iff, tryU32_eq_some_iff,
    Prod.exists, rejectIf_eq_ok_iff, exists_const, pure_eq_ok_iff, not_not, ne_eq,
    decodeDirectoryLoop_eq_ok_iff haddress hchunks, Option.toList_none, List.nil_append,
    List.isChain_iff_pairwise]
  constructor
  · rintro ⟨_, ⟨hbands, rfl⟩, _, _, ⟨records, hentries, rfl, rfl, hband, hsorted, _⟩, hcount, htotal,
      rfl⟩
    rw [length_locationsFrom] at hcount
    refine ⟨hbands, records, hcount, ?_, htotal, hsorted, fun record hmem => ?_, rfl⟩
    · rw [segmentDirectory, hcount, ← hentries, hflatten]
    · have hlt := UInt32.lt_iff_toNat_lt.mp (hband record hmem)
      rwa [toNat_ofNat32 hbands] at hlt
  · rintro ⟨hbands, records, hcount, hdirectory, htotal, hsorted, hband, rfl⟩
    refine ⟨_, ⟨hbands, rfl⟩, _, _, ⟨records, ?_, rfl, rfl, fun record hmem => ?_, hsorted, ?_⟩, ?_,
      htotal, rfl⟩
    · rw [hdirectory, segmentDirectory, hcount]
      have hall : ∀ entry ∈ directoryEntries (memberStart count) records,
          (id entry).length = bucketDirectoryEntryBytes :=
        fun _ => length_of_mem_directoryEntries
      have := chunksExact_flatMap id _ (by decide) hall
      rwa [List.map_id, List.flatMap_id] at this
    · rw [UInt32.lt_iff_toNat_lt, toNat_ofNat32 hbands]
      exact hband record hmem
    · intro location hmem
      have := memberEnd_le hmem
      omega
    · rw [length_locationsFrom, hcount]

/-- The segment decoder accepts exactly the payloads in closed form, over some member
bytes, that the directory describes completely. -/
theorem decodeBucketSegment_eq_ok_iff {crc : Checksum} {layout : FileLayout} {file : Bytes}
    {descriptor : SectionDescriptor} {bands : Nat} {locations : List BucketLocation}
    (h : layout.Describes file) (hmem : descriptor ∈ layout.sections) :
    decodeBucketSegment crc layout file descriptor bands = .ok locations ↔
      descriptor.kind = .buckets ∧ descriptor.required = true ∧ bands < 2 ^ 32 ∧
      ∃ records : List BucketWriteRecord, ∃ members : Bytes,
        descriptor.payloadIn file = segmentPrefix crc records ++ members ∧
        members.length = memberTotal records ∧ Ascending (records.map (·.key)) ∧
        (∀ record ∈ records, record.key.band.toNat < bands) ∧
        locations = locationsFrom descriptor (memberStart records.length) records := by
  have hpayload := length_payloadIn h hmem
  have haddress : descriptor.payloadLength < 2 ^ 64 := by
    have := h.within descriptor hmem
    have := h.addressable
    omega
  simp only [decodeBucketSegment, bind_eq_ok_iff, rejectIf_eq_ok_iff, exists_const,
    mapError_eq_ok_iff, readSectionRange_eq_ok_iff h hmem, okOr_eq_ok_iff, checkedMul_eq_some_iff,
    checkedAdd_eq_some_iff, not_or, not_not, not_lt, ne_eq, Bool.not_eq_false]
  have hheaderLength (hfits : bucketSegmentHeaderBytes ≤ descriptor.payloadLength) :
      (window 0 bucketSegmentHeaderBytes (descriptor.payloadIn file)).length =
        bucketSegmentHeaderBytes := length_window (by omega)
  constructor
  · rintro ⟨⟨hkind, hrequired⟩, hfits, _, ⟨_, rfl⟩, _, hfixed, _, hchecksum, rfl, count, hcount,
      directoryBytes, hbytes, _, ⟨_, rfl⟩, hmatch, _, ⟨_, rfl⟩, _, _, ⟨hrange, rfl⟩, _, hstored,
      rfl, hentries⟩
    have hheader := (headerReads_iff (hheaderLength hfits)).mp
      ⟨hfixed, hchecksum, hcount, hbytes, hstored⟩
    rw [hmatch] at hrange hentries hheader
    obtain ⟨hbands, records, hlength, hdirectory, htotal, hsorted, hband, rfl⟩ :=
      (decodeDirectoryEntries_eq_ok_iff haddress (length_window (by omega))).mp hentries
    refine ⟨hkind, hrequired, hbands, records,
      (descriptor.payloadIn file).drop (memberStart count.toNat), ?_, ?_, hsorted, hband, ?_⟩
    · have hword : UInt64.ofNat (records.length * bucketDirectoryEntryBytes) = directoryBytes := by
        rw [hlength, ← hmatch, UInt64.ofNat_toNat]
      rw [segmentPrefix, hlength, UInt64.ofNat_toNat, ← hlength, hword, ← hdirectory, ← hheader,
        hlength, List.append_assoc, memberStart, ← drop_eq_window_append]
      exact @drop_eq_window_append _ 0 bucketSegmentHeaderBytes _
    · rw [List.length_drop, hpayload]
      omega
    · rw [hlength]
  · rintro ⟨hkind, hrequired, hbands, records, members, hbytes, hmembers, hsorted, hband, rfl⟩
    have htotal : memberStart records.length + memberTotal records = descriptor.payloadLength := by
      rw [← hpayload, hbytes, List.length_append, length_segmentPrefix, hmembers]
    have hcount : records.length ≤ records.length * bucketDirectoryEntryBytes :=
      Nat.le_mul_of_pos_right _ (by decide)
    have hstart : memberStart records.length =
        bucketSegmentHeaderBytes + records.length * bucketDirectoryEntryBytes := rfl
    have hcountWord := toNat_ofNat64 (show records.length < 2 ^ 64 by omega)
    have hbytesWord :=
      toNat_ofNat64 (show records.length * bucketDirectoryEntryBytes < 2 ^ 64 by omega)
    rw [segmentPrefix, List.append_assoc, ← List.drop_zero (l := descriptor.payloadIn file),
      drop_eq_append_iff, drop_eq_append_iff] at hbytes
    simp only [length_segmentHeader, length_segmentDirectory, Nat.zero_add] at hbytes
    obtain ⟨hheader, hdirectory, -⟩ := hbytes
    have hreads := (headerReads_iff (hheaderLength (by omega))).mpr hheader
    have hentries := (decodeDirectoryEntries_eq_ok_iff haddress
      (length_segmentDirectory records)).mpr
        ⟨hbands, records, rfl, rfl, htotal, hsorted, hband, rfl⟩
    refine ⟨⟨hkind, hrequired⟩, by omega, _, ⟨by omega, rfl⟩, _, hreads.fixed, _, hreads.checksum, rfl,
      _, hreads.count, _, hreads.directoryBytes, _, ⟨by rw [hcountWord]; omega, rfl⟩, ?_, _,
      ⟨by omega, rfl⟩, by omega, _, ⟨by omega, rfl⟩, _, hreads.directoryChecksum, ?_, ?_⟩
    · rw [hcountWord, hbytesWord]
    · rw [hbytesWord, hdirectory]
    · rw [hbytesWord, hcountWord, hdirectory]
      exact hentries

/-- The member list at a location is the words of its range, provided they have the stored
checksum. -/
theorem readBucketMembers_eq_ok_iff {crc : Checksum} {layout : FileLayout} {file : Bytes}
    {location : BucketLocation} (h : layout.Describes file)
    (hmem : location.container ∈ layout.sections) {members : List UInt64} :
    readBucketMembers crc layout file location = .ok members ↔
      location.memberEnd ≤ location.container.payloadLength ∧
      window location.memberOffset (location.memberCount.toNat * 8)
        (location.container.payloadIn file) = u64List members ∧
      crc.hash (u64List members) = location.memberChecksum := by
  have hcount : location.memberCount.toNat < 2 ^ 32 := location.memberCount.toNat_lt
  simp only [readBucketMembers, bind_eq_ok_iff, okOr_eq_ok_iff, checkedMul_eq_some_iff,
    mapError_eq_ok_iff, readSectionRange_eq_ok_iff h hmem, rejectIf_eq_ok_iff, exists_const,
    not_not, ne_eq, BucketLocation.memberEnd]
  have hwords : ∀ bytes : Bytes, (chunksExact 8 bytes).mapM (fun chunk =>
      okOr (u64Exact? chunk) (BucketError.invalid "fixed-width u64 field is truncated")) =
      .ok ((chunksExact 8 bytes).map u64OfBytes) := fun bytes =>
    mapM_eq_ok_map fun chunk hchunk => by
      rw [u64Exact?_of_length (length_of_mem_chunksExact hchunk), okOr_some]
  simp only [hwords, Except.ok.injEq]
  constructor
  · rintro ⟨_, ⟨_, rfl⟩, _, ⟨hend, rfl⟩, hchecksum, rfl⟩
    have hlength := length_window (by rwa [length_payloadIn h hmem])
    rw [u64List_map_chunksExact ⟨location.memberCount.toNat, by rw [hlength, Nat.mul_comm]⟩]
    exact ⟨hend, rfl, hchecksum⟩
  · rintro ⟨hend, hwindow, hchecksum⟩
    refine ⟨_, ⟨by omega, rfl⟩, _, ⟨hend, rfl⟩, by rw [hwindow, hchecksum], ?_⟩
    rw [hwindow, map_chunksExact_u64List]

end Pari.Format
