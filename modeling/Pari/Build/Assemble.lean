/-
# Assembling the segments

The builder reads its descriptors back, fills groups of them up to the target size of a segment,
and streams every group with its members into a segment file. The groups are those the in-memory
encoder cuts.
-/

import Pari.Build.Merge

namespace Pari.Build

open Data Pari.Format Pari.Store

/-! ## The loops -/

structure SegmentFile where
  path : Path
  bytes : Nat
  checksum : UInt32
  deriving DecidableEq, Repr

/-- `BucketWriteRecord::new(record.key, record.member_count, record.checksum)`. -/
def DescriptorDraft.writeRecord (draft : DescriptorDraft) : BucketWriteRecord where
  key := draft.key
  memberCount := draft.memberCount
  memberChecksum := draft.checksum

/-- `!group.is_empty() && estimated + contribution > BUCKET_SEGMENT_TARGET_BYTES`. -/
def groupFull (group : List DescriptorDraft) (estimated contribution : Nat) :
    Except BuildError Bool :=
  if group.isEmpty then .ok false
  else do
    let projected ← okOr (checkedAdd estimated contribution) .lengthOverflow
    return decide (bucketSegmentTargetBytes < projected)

theorem length_readDescriptorOptional {reader rest : Bytes} {draft : DescriptorDraft}
    (h : readDescriptorOptional reader = .ok (some (draft, rest))) :
    rest.length < reader.length := by
  unfold readDescriptorOptional at h
  split at h
  · cases h
  split at h
  · cases h
  next hlong =>
  cases h
  rw [List.length_drop]
  have hpos : 0 < descriptorBytes := by decide
  omega

/-- The inner loop: the group, the record that is pending behind it, and the reader. -/
def fillGroup (group : List DescriptorDraft) (estimated : Nat) (record : DescriptorDraft)
    (reader : Bytes) : Except BuildError (List DescriptorDraft × Option DescriptorDraft × Bytes) :=
  do
    let contribution ← (bucketRecordSize record.memberCount.toNat).mapError .bucket
    let full ← groupFull group estimated contribution
    if full then return (group, some record, reader)
    else do
      let estimated ← okOr (checkedAdd estimated contribution) .lengthOverflow
      match hread : readDescriptorOptional reader with
      | .error error => .error error
      | .ok none => return (group ++ [record], none, reader)
      | .ok (some (next, rest)) => fillGroup (group ++ [record]) estimated next rest
termination_by reader.length
decreasing_by exact length_readDescriptorOptional hread

/-- How much the outer loop has still to do. -/
def leftToFill (pending : Option DescriptorDraft) (reader : Bytes) : Nat :=
  (if pending.isSome then 1 else 0) + reader.length

/-- The inner loop takes the pending record. -/
theorem leftToFill_lt {group filled : List DescriptorDraft} {estimated : Nat}
    {record : DescriptorDraft} {pending : Option DescriptorDraft} {reader rest : Bytes}
    (h : fillGroup group estimated record reader = .ok (filled, pending, rest)) :
    leftToFill pending rest ≤ 1 + reader.length ∧
      (group = [] → leftToFill pending rest < 1 + reader.length) := by
  induction reader using WellFounded.induction
      (measure (fun bytes : Bytes => bytes.length)).wf generalizing group estimated record with
  | _ reader ih =>
      rw [fillGroup] at h
      obtain ⟨contribution, _, h⟩ := bind_eq_ok_iff.mp h
      obtain ⟨full, hfull, h⟩ := bind_eq_ok_iff.mp h
      cases full with
      | true =>
          cases h
          refine ⟨Nat.le_refl _, fun hempty => ?_⟩
          rw [hempty] at hfull
          cases hfull
      | false =>
          obtain ⟨sum, _, h⟩ := bind_eq_ok_iff.mp h
          split at h
          · cases h
          · cases h
            have hnone : leftToFill none rest = rest.length := Nat.zero_add _
            omega
          · next next rest' hread =>
              have hless := length_readDescriptorOptional hread
              have hfilled := (ih rest' hless h).1
              omega

/-- Stream one segment into a file of its own. -/
def writeOneSegment (crc : Checksum) (records : List DescriptorDraft) (memberships : Bytes)
    (destination : Path) (nonce index : Nat) : Method Scratch BuildError SegmentFile := do
  let path := bucketPath destination nonce index
  Scratch.track [path]
  let inode ← Scratch.perform .io fun world => world.createNew path
  Scratch.perform .io World.readOn
  let (written, result, _) ← Method.lift
    ((writeBucketSegment crc (records.map DescriptorDraft.writeRecord) memberships).mapError
      .bucket)
  Scratch.perform .io fun world => world.writeSynced inode written
  return { path, bytes := result.bytes, checksum := result.checksum }

/-- The outer loop, behind the segments so far. -/
def assembleFrom (crc : Checksum) (memberships : Bytes) (destination : Path) (nonce : Nat)
    (segments : List SegmentFile) (pending : Option DescriptorDraft) (reader : Bytes) :
    Method Scratch BuildError (List SegmentFile) :=
  match pending with
  | none => pure segments
  | some record => do
      Scratch.perform .io World.readOn
      match hfill : fillGroup [] bucketSegmentHeaderBytes record reader with
      | .error error => Method.lift (.error error)
      | .ok (group, pending, rest) => do
          let first ← Method.lift
            (okOr group.head? (.invalidSource "empty bucket segment group"))
          let segment ← writeOneSegment crc group (memberships.drop first.relativeOffset)
            destination nonce segments.length
          assembleFrom crc memberships destination nonce (segments ++ [segment]) pending rest
termination_by leftToFill pending reader
decreasing_by exact (leftToFill_lt hfill).2 rfl

def assembleSegments (crc : Checksum) (descriptorPath membershipPath destination : Path)
    (nonce : Nat) : Method Scratch BuildError (List SegmentFile) := do
  let descriptors ← Scratch.perform .io fun world => world.openRead descriptorPath
  let memberships ← Scratch.perform .io fun world => world.openRead membershipPath
  Scratch.perform .io World.readOn
  let pending ← Method.lift (readDescriptorOptional descriptors)
  match pending with
  | none => do
      let segment ← writeOneSegment crc [] memberships destination nonce 0
      return [segment]
  | some (record, rest) =>
      assembleFrom crc memberships destination nonce [] (some record) rest

/-! ## The groups -/

section Filling

variable {crc : Checksum} {start : Nat} {record : BucketRecord}
  {group records left right : List BucketRecord}

theorem segmentMembers_append :
    segmentMembers (left ++ right) = segmentMembers left ++ segmentMembers right :=
  List.flatMap_append

theorem draftsFrom_append : draftsFrom crc start (left ++ right) =
    draftsFrom crc start left ++ draftsFrom crc (start + (segmentMembers left).length) right := by
  induction left generalizing start with
  | nil => rfl
  | cons record left ih =>
      rw [List.cons_append, draftsFrom, draftsFrom, ih, segmentMembers_cons, List.length_append,
        length_memberBytes, Nat.add_assoc]
      rfl

theorem writeRecord_draftOf : (draftOf crc start record).writeRecord = record.writeRecord crc := rfl

theorem map_writeRecord_draftsFrom : (draftsFrom crc start records).map DescriptorDraft.writeRecord =
    records.map (BucketRecord.writeRecord crc) := by
  induction records generalizing start with
  | nil => rfl
  | cons record records ih => rw [draftsFrom, List.map_cons, List.map_cons, ih, writeRecord_draftOf]

/-- The members of records take no more room than the records. -/
theorem length_segmentMembers_le :
    (segmentMembers records).length ≤ totalSize recordSize records := by
  have hlength := segmentLength_eq records
  rw [segmentLength, memberStart] at hlength
  rw [length_segmentMembers]
  omega

theorem readDescriptorOptional_draftsFrom (hfits : start < 2 ^ 64) :
    readDescriptorOptional (encodeDescriptors (draftsFrom crc start (record :: records))) =
      .ok (some (draftOf crc start record, encodeDescriptors
        (draftsFrom crc (start + record.members.length * 8) records))) :=
  @readDescriptorOptional_encode (draftOf crc start record) _ hfits

theorem contribution_draftOf (hcount : record.members.length < 2 ^ 32)
    (hsize : recordSize record < 2 ^ 64) :
    (bucketRecordSize (draftOf crc start record).memberCount.toNat).mapError BuildError.bucket =
      .ok (recordSize record) := by
  have hword : (draftOf crc start record).memberCount.toNat = record.members.length :=
    toNat_ofNat32 hcount
  rw [hword, bucketRecordSize_eq_ok_iff.mpr ⟨hsize, rfl⟩]
  rfl

/-- A group is full if it is not empty and the next record does not fit. -/
theorem groupFull_draftsFrom {estimated contribution : Nat}
    (hfits : estimated + contribution < 2 ^ 64) :
    ∃ full, groupFull (draftsFrom crc start group) estimated contribution = .ok full ∧
      (full = true ↔ group ≠ [] ∧ bucketSegmentTargetBytes < estimated + contribution) := by
  cases group with
  | nil => exact ⟨false, rfl, by simp⟩
  | cons record group =>
      refine ⟨decide (bucketSegmentTargetBytes < estimated + contribution), ?_, ?_⟩
      · rw [groupFull, checkedAdd_of_lt hfits]
        rfl
      · simp

/-- A full group leaves the record pending. -/
theorem fillGroup_of_full {estimated : Nat} {reader : Bytes} {offset : Nat}
    (hcount : record.members.length < 2 ^ 32) (hfits : estimated + recordSize record < 2 ^ 64)
    (hpast : group ≠ [] ∧ bucketSegmentTargetBytes < estimated + recordSize record) :
    fillGroup (draftsFrom crc start group) estimated (draftOf crc offset record) reader =
      .ok (draftsFrom crc start group, some (draftOf crc offset record), reader) := by
  obtain ⟨full, hfull, hiff⟩ := @groupFull_draftsFrom crc start group estimated _ hfits
  rw [fillGroup, contribution_draftOf hcount (by omega), ok_bind, hfull, ok_bind,
    if_pos (hiff.mpr hpast)]
  rfl

/-- A group that has room takes the record. -/
theorem fillGroup_of_room {estimated : Nat} {reader : Bytes}
    (hcount : record.members.length < 2 ^ 32) (hfits : estimated + recordSize record < 2 ^ 64)
    (hroom : ¬ (group ≠ [] ∧ bucketSegmentTargetBytes < estimated + recordSize record))
    {behind : Option (DescriptorDraft × Bytes)} (hread : readDescriptorOptional reader = .ok behind) :
    fillGroup (draftsFrom crc start group) estimated
        (draftOf crc (start + (segmentMembers group).length) record) reader =
      match behind with
      | none => .ok (draftsFrom crc start (group ++ [record]), none, reader)
      | some (next, rest) => fillGroup (draftsFrom crc start (group ++ [record]))
          (estimated + recordSize record) next rest := by
  obtain ⟨full, hfull, hiff⟩ := @groupFull_draftsFrom crc start group estimated _ hfits
  have hopen : ¬ full = true := fun h => hroom (hiff.mp h)
  rw [fillGroup, contribution_draftOf hcount (by omega), ok_bind, hfull, ok_bind, if_neg hopen,
    checkedAdd_of_lt hfits, okOr_some, ok_bind, draftsFrom_append]
  split
  · next herror => cases hread.symm.trans herror
  · next hnone =>
      cases hread.symm.trans hnone
      rfl
  · next hsome =>
      cases hread.symm.trans hsome
      rfl

theorem length_segmentMembers_snoc : (segmentMembers (group ++ [record])).length =
    (segmentMembers group).length + record.members.length * 8 := by
  rw [segmentMembers_append, List.length_append, segmentMembers_cons, List.length_append,
    length_memberBytes]
  rfl

/-- The inner loop takes the first group that the packing of the records has, and leaves the rest
of the records. -/
def FillsFirst (crc : Checksum) (start : Nat) (group : List BucketRecord) (record : BucketRecord)
    (records : List BucketRecord) : Prop :=
  ∃ taken rest, record :: records = taken ++ rest ∧ (group = [] → taken ≠ []) ∧
    fillGroup (draftsFrom crc start group) (bucketSegmentHeaderBytes + totalSize recordSize group)
        (draftOf crc (start + (segmentMembers group).length) record)
        (encodeDescriptors
          (draftsFrom crc (start + (segmentMembers (group ++ [record])).length) records)) =
      .ok (draftsFrom crc start (group ++ taken),
        (draftsFrom crc (start + (segmentMembers (group ++ taken)).length) rest).head?,
        encodeDescriptors
          (draftsFrom crc (start + (segmentMembers (group ++ taken)).length) rest).tail) ∧
    packFrom recordSize bucketSegmentHeaderBytes bucketSegmentTargetBytes group
        (bucketSegmentHeaderBytes + totalSize recordSize group) (record :: records) =
      (group ++ taken) :: pack recordSize bucketSegmentHeaderBytes bucketSegmentTargetBytes rest

theorem fillsFirst_of_full (hcount : record.members.length < 2 ^ 32)
    (hfits : bucketSegmentHeaderBytes + totalSize recordSize group + recordSize record < 2 ^ 64)
    (hpast : group ≠ [] ∧ bucketSegmentTargetBytes <
      bucketSegmentHeaderBytes + totalSize recordSize group + recordSize record) :
    FillsFirst crc start group record records := by
  refine ⟨[], record :: records, rfl, fun hempty => absurd hempty hpast.1, ?_, ?_⟩
  · rw [fillGroup_of_full hcount hfits hpast, List.append_nil, length_segmentMembers_snoc,
      ← Nat.add_assoc]
    rfl
  · rw [packFrom, if_pos hpast, List.append_nil]
    rfl

theorem fillsFirst_of_counts (hcounts : ∀ other ∈ record :: records, other.members.length < 2 ^ 32)
    (hfits : start + bucketSegmentHeaderBytes + totalSize recordSize (group ++ record :: records) <
      2 ^ 64) :
    FillsFirst crc start group record records := by
  induction records generalizing group record with
  | nil =>
      have hcount := hcounts record (List.mem_cons_self ..)
      have hsizes : totalSize recordSize (group ++ [record]) =
          totalSize recordSize group + recordSize record := by
        rw [totalSize_append, totalSize_cons, totalSize_nil, Nat.add_zero]
      by_cases hpast : group ≠ [] ∧ bucketSegmentTargetBytes <
          bucketSegmentHeaderBytes + totalSize recordSize group + recordSize record
      · exact fillsFirst_of_full hcount (by omega) hpast
      · refine ⟨[record], [], rfl, fun _ => List.cons_ne_nil _ _, ?_, ?_⟩
        · exact fillGroup_of_room hcount (by omega) hpast readDescriptorOptional_nil
        · rw [packFrom, if_neg hpast, packFrom]
          simp [pack, packFrom]
  | cons next records ih =>
      rw [List.forall_mem_cons] at hcounts
      have hsizes : totalSize recordSize (group ++ record :: next :: records) =
          totalSize recordSize group + (recordSize record + totalSize recordSize (next :: records)) := by
        rw [totalSize_append, totalSize_cons]
      by_cases hpast : group ≠ [] ∧ bucketSegmentTargetBytes <
          bucketSegmentHeaderBytes + totalSize recordSize group + recordSize record
      · exact fillsFirst_of_full hcounts.1 (by omega) hpast
      · have hmembers := @length_segmentMembers_le (group ++ [record])
        have hsnoc : totalSize recordSize (group ++ [record]) =
            totalSize recordSize group + recordSize record := by
          rw [totalSize_append, totalSize_cons, totalSize_nil, Nat.add_zero]
        obtain ⟨taken, rest, hsplit, _, hfill, hpack⟩ := @ih next (group ++ [record]) hcounts.2 (by
          rw [List.append_assoc]
          exact hfits)
        have hnext := @length_segmentMembers_snoc next (group ++ [record])
        have happend : group ++ [record] ++ taken = group ++ record :: taken :=
          (List.append_cons ..).symm
        rw [hnext, happend, hsnoc, ← Nat.add_assoc, ← Nat.add_assoc] at hfill
        rw [happend, hsnoc, ← Nat.add_assoc] at hpack
        refine ⟨record :: taken, rest, by rw [hsplit]; rfl, fun _ => List.cons_ne_nil _ _, ?_, ?_⟩
        · rw [fillGroup_of_room hcounts.1 (by omega) hpast
            (readDescriptorOptional_draftsFrom (by omega))]
          exact hfill
        · rw [packFrom, if_neg hpast]
          exact hpack

end Filling

/-! ## The segment files -/

/-- What is kept of the file of a segment. -/
def segmentFile (crc : Checksum) (destination : Path) (nonce index : Nat)
    (group : List BucketRecord) : SegmentFile where
  path := bucketPath destination nonce index
  bytes := segmentLength group
  checksum := crc.hash (segmentBytes crc group)

def segmentFiles (crc : Checksum) (destination : Path) (nonce start : Nat)
    (groups : List (List BucketRecord)) : List SegmentFile :=
  (groups.zipIdx start).map fun slot => segmentFile crc destination nonce slot.2 slot.1

/-- The files of the segments hold the groups. -/
def HoldsSegments (crc : Checksum) (destination : Path) (nonce start : Nat)
    (groups : List (List BucketRecord)) (files : FileSystem) : Prop :=
  ∀ index group, groups[index]? = some group →
    files.Holds (bucketPath destination nonce (start + index)).location (segmentBytes crc group)

section Assembling

variable {crc : Checksum} {destination : Path} {nonce start index : Nat}
  {group done records : List BucketRecord} {groups : List (List BucketRecord)}
  {segments : List SegmentFile} {before : Scratch} {files : FileSystem}

theorem HoldsSegments.cons
    (hfirst : files.Holds (bucketPath destination nonce start).location (segmentBytes crc group))
    (hrest : HoldsSegments crc destination nonce (start + 1) groups files) :
    HoldsSegments crc destination nonce start (group :: groups) files := by
  intro index other hother
  cases index with
  | zero =>
      obtain rfl : group = other := Option.some.inj hother
      exact hfirst
  | succ index =>
      have hholds := hrest index other hother
      rw [Nat.add_right_comm] at hholds
      exact hholds

/-- Streaming one segment. -/
theorem meets_writeOneSegment (hcrc : crc.Incremental) (hsorted : Ascending (group.map (·.key)))
    (hcounts : ∀ record ∈ group, record.members.length < 2 ^ 32)
    (hfits : segmentLength group < 2 ^ 64) (rest : Bytes) :
    Meets [[bucketPath destination nonce index]]
      (fun segment after => segment = segmentFile crc destination nonce index group ∧
        after.world.files.Holds (bucketPath destination nonce index).location
          (segmentBytes crc group))
      (writeOneSegment crc (draftsFrom crc start group) (segmentMembers group ++ rest) destination
        nonce index) before := by
  apply Meets.of_created
  intro middle hfree hmiddle
  have hadds : FileSystem.Adds [bucketPath destination nonce index] before.world.files
      middle.world.files := by
    rw [hmiddle]
    exact (FileSystem.Adds.refl _ _).create (List.mem_singleton_self _) hfree
  have hread : Makes before.world.files [bucketPath destination nonce index]
      (fun _ after => after.world.files = middle.world.files)
      (Scratch.perform BuildError.io World.readOn) middle :=
    Makes.readOn hadds fun after hafter => hafter
  apply hread.bind
  intro _ reading _ hreading
  rw [hmiddle] at hreading
  rw [map_writeRecord_draftsFrom, writeBucketSegment_eq_ok hcrc rest hsorted hcounts hfits]
  have hwrite : Makes before.world.files [bucketPath destination nonce index]
      (fun _ after => after.world.files = before.world.files.staged
        (bucketPath destination nonce index).location (segmentBytes crc group))
      (Scratch.perform BuildError.io fun world =>
        world.writeSynced before.world.files.nextInode (segmentBytes crc group)) reading :=
    Makes.writeCreated hfree hreading fun after hafter => hafter
  apply hwrite.bind
  intro _ last hadds hlast
  apply Makes.lift hadds
  refine ⟨rfl, ?_⟩
  rw [hlast]
  exact FileSystem.holds_staged

theorem assembleFrom_none {memberships reader : Bytes} :
    assembleFrom crc memberships destination nonce segments none reader = pure segments := by
  rw [assembleFrom]

/-- One turn of the outer loop. -/
theorem assembleFrom_of_fill {memberships reader rest : Bytes} {record first : DescriptorDraft}
    {filled : List DescriptorDraft} {pending : Option DescriptorDraft}
    (hfill : fillGroup [] bucketSegmentHeaderBytes record reader =
      .ok (first :: filled, pending, rest)) :
    assembleFrom crc memberships destination nonce segments (some record) reader = (do
      Scratch.perform .io World.readOn
      let segment ← writeOneSegment crc (first :: filled) (memberships.drop first.relativeOffset)
        destination nonce segments.length
      assembleFrom crc memberships destination nonce (segments ++ [segment]) pending rest) := by
  rw [assembleFrom]
  apply bind_congr
  intro _
  split
  · next herror => cases hfill.symm.trans herror
  · next hok =>
      cases hfill.symm.trans hok
      rfl

/-- The outer loop streams the packing of the records that are left. -/
theorem meets_assembleFrom (hcrc : crc.Incremental) (hsorted : Ascending (records.map (·.key)))
    (hcounts : ∀ record ∈ records, record.members.length < 2 ^ 32)
    (hfits : bucketSegmentHeaderBytes + totalSize recordSize (done ++ records) < 2 ^ 64) :
    Meets (numbered (bucketPath destination nonce) segments.length (segments.length +
        (pack recordSize bucketSegmentHeaderBytes bucketSegmentTargetBytes records).length))
      (fun result after => result = segments ++ segmentFiles crc destination nonce segments.length
          (pack recordSize bucketSegmentHeaderBytes bucketSegmentTargetBytes records) ∧
        HoldsSegments crc destination nonce segments.length
          (pack recordSize bucketSegmentHeaderBytes bucketSegmentTargetBytes records)
          after.world.files)
      (assembleFrom crc (segmentMembers (done ++ records)) destination nonce segments
        (draftsFrom crc (segmentMembers done).length records).head?
        (encodeDescriptors (draftsFrom crc (segmentMembers done).length records).tail)) before := by
  induction hsize : records.length using Nat.strongRecOn generalizing records done segments before with
  | ind size ih =>
      cases records with
      | nil =>
          rw [draftsFrom, List.head?_nil, assembleFrom_none, pack_nil, List.length_nil, Nat.add_zero,
            numbered_self]
          exact Meets.pure ⟨(List.append_nil _).symm, fun _ _ hgroup => by cases hgroup⟩
      | cons record records =>
          have hmembers := @length_segmentMembers_le done
          rw [totalSize_append] at hfits
          obtain ⟨taken, rest, hsplit, hne, hfill, hpack⟩ :=
            @fillsFirst_of_counts crc (segmentMembers done).length record [] records hcounts
              (by rw [List.nil_append]; omega)
          have hlengths := congrArg List.length hsplit
          have hpos := List.length_pos_of_ne_nil (hne rfl)
          rw [List.length_cons, List.length_append] at hlengths
          rw [List.length_cons] at hsize
          have hone : (segmentMembers ([] ++ [record])).length = record.members.length * 8 := by
            rw [length_segmentMembers_snoc, segmentMembers, List.flatMap_nil, List.length_nil,
              Nat.zero_add]
          have hmemberships : segmentMembers (done ++ record :: records) =
              segmentMembers done ++ (segmentMembers taken ++ segmentMembers rest) := by
            rw [hsplit, segmentMembers_append, segmentMembers_append]
          have hzero : (segmentMembers ([] : List BucketRecord)).length = 0 := rfl
          rw [hone, hzero, Nat.add_zero] at hfill
          have hsortedTaken := hsorted
          rw [hsplit, List.map_append, Ascending, List.pairwise_append] at hsortedTaken
          have hcountsTaken := hcounts
          rw [hsplit, List.forall_mem_append] at hcountsTaken
          rw [hsplit, totalSize_append] at hfits
          -- The first group goes into a file of its own, the rest is left to the loop.
          obtain ⟨first, others, rfl⟩ := List.exists_cons_of_ne_nil (hne rfl)
          have hturn := @assembleFrom_of_fill crc destination nonce segments
            (segmentMembers (done ++ record :: records)) _ _ _ _ _ _ hfill
          have hdrop : (segmentMembers (done ++ record :: records)).drop
              (draftOf crc (segmentMembers done).length first).relativeOffset =
                segmentMembers (first :: others) ++ segmentMembers rest := by
            rw [hmemberships]
            exact List.drop_left' rfl
          have hpackAll : pack recordSize bucketSegmentHeaderBytes bucketSegmentTargetBytes
              (record :: records) = (first :: others) ::
                pack recordSize bucketSegmentHeaderBytes bucketSegmentTargetBytes rest := hpack
          have hgroups : numbered (bucketPath destination nonce) segments.length (segments.length +
              (pack recordSize bucketSegmentHeaderBytes bucketSegmentTargetBytes
                (record :: records)).length) =
              [[bucketPath destination nonce segments.length]] ++
                numbered (bucketPath destination nonce) (segments.length + 1) (segments.length + 1 +
                  (pack recordSize bucketSegmentHeaderBytes bucketSegmentTargetBytes
                    rest).length) := by
            rw [hpackAll, List.length_cons, ← numbered_succ,
              numbered_append (Nat.le_succ _) (Nat.le_add_right _ _)]
            congr 1
            omega
          have hmethod : assembleFrom crc (segmentMembers (done ++ record :: records)) destination
              nonce segments (draftsFrom crc (segmentMembers done).length (record :: records)).head?
              (encodeDescriptors
                (draftsFrom crc (segmentMembers done).length (record :: records)).tail) = _ := hturn
          rw [hgroups, hmethod]
          have hlook : Meets [] (fun _ _ => True) (Scratch.perform BuildError.io World.readOn)
              before := Meets.of_makes (Makes.readOn (.refl _ _) fun _ _ => trivial)
          apply hlook.bind (nil_apart _)
          intro _ middle _ _
          rw [hdrop]
          have hfirst := @totalSize_append _ recordSize (first :: others) rest
          have hwrite := @meets_writeOneSegment crc destination nonce (segmentMembers done).length
            segments.length (first :: others) middle hcrc hsortedTaken.1 hcountsTaken.1
            (by rw [segmentLength_eq]; omega) (segmentMembers rest)
          apply hwrite.bind (numbered_succ ▸ apart_numbered fun _ _ => bucketPath_inj)
          rintro _ written - ⟨rfl, hholds⟩
          have hrest := @ih rest.length (by omega) (done ++ first :: others) rest
            (segments ++ [segmentFile crc destination nonce segments.length (first :: others)])
            written hsortedTaken.2.1 hcountsTaken.2 (by
              rw [List.append_assoc, totalSize_append, totalSize_append]
              omega) rfl
          have hall : done ++ first :: others ++ rest = done ++ record :: records := by
            rw [hsplit, List.append_assoc]
          have hstart : (segmentMembers (done ++ first :: others)).length =
              (segmentMembers done).length + (segmentMembers (first :: others)).length := by
            rw [segmentMembers_append, List.length_append]
          rw [List.length_append, List.length_singleton, hall, hstart] at hrest
          apply hrest.imp
          rintro result after hcompletes ⟨rfl, hsegments⟩
          rw [hpackAll]
          refine ⟨by rw [List.append_assoc]; rfl, ?_⟩
          exact HoldsSegments.cons (hcompletes.steps.holds.keeps.holds hholds) hsegments

/-- The builder streams the segments that the in-memory encoder frames. -/
theorem meets_assembleSegments {descriptorPath membershipPath : Path} (hcrc : crc.Incremental)
    (hsorted : Ascending (records.map (·.key)))
    (hcounts : ∀ record ∈ records, record.members.length < 2 ^ 32)
    (hfits : bucketSegmentHeaderBytes + totalSize recordSize records < 2 ^ 64)
    (hdescriptors : before.world.files.Holds descriptorPath.location
      (encodeDescriptors (draftsFrom crc 0 records)))
    (hmemberships : before.world.files.Holds membershipPath.location (segmentMembers records)) :
    Meets (numbered (bucketPath destination nonce) 0 (segmentsOf records).length)
      (fun result after => result = segmentFiles crc destination nonce 0 (segmentsOf records) ∧
        HoldsSegments crc destination nonce 0 (segmentsOf records) after.world.files)
      (assembleSegments crc descriptorPath membershipPath destination nonce) before := by
  have hopen : Meets [] (fun bytes after => bytes = encodeDescriptors (draftsFrom crc 0 records) ∧
      after.world.files = before.world.files)
      (Scratch.perform BuildError.io fun world => world.openRead descriptorPath) before :=
    Meets.of_makes (Makes.openRead (.refl _ _) hdescriptors.read fun _ hafter => ⟨rfl, hafter⟩)
  unfold assembleSegments
  apply hopen.bind (nil_apart _)
  rintro _ opened - ⟨rfl, hopened⟩
  have hmembers : Meets [] (fun bytes after => bytes = segmentMembers records ∧
      after.world.files = before.world.files)
      (Scratch.perform BuildError.io fun world => world.openRead membershipPath) opened :=
    Meets.of_makes (Makes.openRead (.refl _ _) (hopened ▸ hmemberships.read) fun _ hafter =>
      ⟨rfl, hafter.trans hopened⟩)
  apply hmembers.bind (nil_apart _)
  rintro _ both - ⟨rfl, _⟩
  have hlook : Meets [] (fun _ _ => True) (Scratch.perform BuildError.io World.readOn) both :=
    Meets.of_makes (Makes.readOn (.refl _ _) fun _ _ => trivial)
  apply hlook.bind (nil_apart _)
  intro _ reading _ _
  cases records with
  | nil =>
      have hwrite := @meets_writeOneSegment crc destination nonce 0 0 [] reading hcrc
        List.Pairwise.nil nofun (by decide) []
      apply hwrite.bind (apart_nil _)
      rintro _ written - ⟨rfl, hholds⟩
      exact Meets.pure ⟨rfl, HoldsSegments.cons hholds nofun⟩
  | cons record records =>
      have hread := @readDescriptorOptional_draftsFrom crc 0 record records (by decide)
      have hloop := @meets_assembleFrom crc destination nonce [] (record :: records) [] reading hcrc
        hsorted hcounts hfits
      rw [hread, segmentsOf, if_neg (by simp)]
      rw [List.length_nil, Nat.zero_add] at hloop
      exact hloop

end Assembling

end Pari.Build
