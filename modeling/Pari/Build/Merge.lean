/-
# Merging the runs

The builder merges its runs through a queue of their fronts, closes a descriptor whenever the
group changes, and streams the members into a file of their own. Whatever the runs were, the two
files it writes are those of the bucket records of the source.
-/

import Pari.Build.Runs

namespace Pari.Build

open Data Pari.Format Pari.Store

/-! ## Descriptors -/

structure DescriptorDraft where
  key : BucketKey
  memberCount : UInt32
  relativeOffset : Nat
  checksum : UInt32
  deriving DecidableEq, Repr

def descriptorBytes : Nat := 28

/-- `finish_descriptor`. -/
def encodeDescriptor (draft : DescriptorDraft) : Bytes :=
  u32Bytes draft.key.band ++ (u32Bytes draft.memberCount ++ (u64Bytes draft.key.hash ++
    (u64Bytes (UInt64.ofNat draft.relativeOffset) ++ u32Bytes draft.checksum)))

/-- `read_descriptor_optional`: the draft, and what the reader has still to deliver. -/
def readDescriptorOptional (reader : Bytes) :
    Except BuildError (Option (DescriptorDraft × Bytes)) :=
  if reader.length = 0 then .ok none
  else if reader.length < descriptorBytes then
    .error (.invalidSource "truncated temporary descriptor")
  else
    .ok (some ({
      key := ⟨u32OfBytes (window 0 4 reader), u64OfBytes (window 8 8 reader)⟩
      memberCount := u32OfBytes (window 4 4 reader)
      relativeOffset := (u64OfBytes (window 16 8 reader)).toNat
      checksum := u32OfBytes (window 24 4 reader) }, reader.drop descriptorBytes))

/-! ## The loop -/

/-- The bucket that is open, and what is written so far. -/
structure Merging (crc : Checksum) where
  currentKey : Option BucketKey
  currentCount : UInt32
  currentOffset : Nat
  currentHasher : crc.Hasher
  bucketCount : Nat
  descriptors : Bytes
  memberships : Bytes

namespace Merging

variable {crc : Checksum}

def start (crc : Checksum) : Merging crc where
  currentKey := none
  currentCount := 0
  currentOffset := 0
  currentHasher := crc.new
  bucketCount := 0
  descriptors := []
  memberships := []

/-- Write the descriptor of the open bucket and count it. -/
def close (merging : Merging crc) (key : BucketKey) : Except BuildError (Merging crc) := do
  let bucketCount ← okOr (checkedAdd merging.bucketCount 1) .lengthOverflow
  return { merging with
    bucketCount
    descriptors := merging.descriptors ++ encodeDescriptor {
      key
      memberCount := merging.currentCount
      relativeOffset := merging.currentOffset
      checksum := crc.finalize merging.currentHasher } }

/-- The group changes: close the open bucket, if there is one, and open the next. -/
def switch (merging : Merging crc) (group : BucketKey) : Except BuildError (Merging crc) := do
  let merging ← match merging.currentKey with
    | none => pure merging
    | some key => do
        let closed ← merging.close key
        let memberBytes ← okOr (checkedMul closed.currentCount.toNat 8) .lengthOverflow
        let currentOffset ← okOr (checkedAdd closed.currentOffset memberBytes) .lengthOverflow
        pure { closed with currentOffset }
  return { merging with currentKey := some group, currentCount := 0, currentHasher := crc.new }

/-- One record out of the queue. -/
def push (merging : Merging crc) (record : SpillRecord) : Except BuildError (Merging crc) := do
  let merging ←
    if merging.currentKey ≠ some record.group then merging.switch record.group else pure merging
  let currentCount ← okOr (tryU32 (merging.currentCount.toNat + 1)) .lengthOverflow
  return { merging with
    memberships := merging.memberships ++ u64Bytes record.key
    currentHasher := crc.update merging.currentHasher (u64Bytes record.key)
    currentCount }

/-- The last bucket. -/
def finish (merging : Merging crc) : Except BuildError (Merging crc) :=
  match merging.currentKey with
  | none => .ok merging
  | some key => merging.close key

end Merging

theorem length_readSpillRecord {reader rest : Bytes} {record : SpillRecord}
    (h : readSpillRecord reader = .ok (some (record, rest))) : rest.length < reader.length := by
  unfold readSpillRecord at h
  split at h
  · cases h
  split at h
  · cases h
  next hlong =>
  cases h
  rw [List.length_drop]
  have hpos : 0 < spillRecordBytes := by decide
  omega

theorem length_flatten_set {readers : List Bytes} {run : Nat} {rest : Bytes}
    (h : rest.length < (restOf readers run).length) :
    (readers.set run rest).flatten.length < readers.flatten.length := by
  induction readers generalizing run with
  | nil => cases h
  | cons reader readers ih =>
      cases run with
      | zero =>
          have hfirst : rest.length < reader.length := h
          rw [List.set_cons_zero, List.flatten_cons, List.flatten_cons, List.length_append,
            List.length_append]
          omega
      | succ run =>
          have hrest := ih h
          rw [List.set_cons_succ, List.flatten_cons, List.flatten_cons, List.length_append,
            List.length_append]
          omega

/-- The loop over the queue: the fronts, and what the readers have still to deliver. -/
def mergeLoop {crc : Checksum} (heap : MinHeap SpillRecord) (readers : List Bytes)
    (merging : Merging crc) : Except BuildError (Merging crc) :=
  match hpop : heap.pop with
  | none => .ok merging
  | some (entry, heap') => do
      let merging ← merging.push entry.record
      match hread : readSpillRecord (restOf readers entry.run) with
      | .error error => .error error
      | .ok none => mergeLoop heap' readers merging
      | .ok (some (next, rest)) =>
          mergeLoop (heap'.push ⟨next, entry.run⟩) (readers.set entry.run rest) merging
termination_by heap.entries.length + readers.flatten.length
decreasing_by
  · rw [MinHeap.pop_eq_some_iff.mp hpop, List.length_cons]
    omega
  · have hreaders := length_flatten_set (length_readSpillRecord hread)
    have hpush := (heap'.push_perm ⟨next, entry.run⟩).length_eq
    rw [List.length_cons] at hpush
    rw [MinHeap.pop_eq_some_iff.mp hpop, List.length_cons]
    omega

/-- Read the front of every run, numbering the runs from `index` on. -/
def readFronts (heap : MinHeap SpillRecord) :
    Nat → List Bytes → Except BuildError (MinHeap SpillRecord × List Bytes)
  | _, [] => .ok (heap, [])
  | index, reader :: readers => do
      match ← readSpillRecord reader with
      | none =>
          let (heap, rests) ← readFronts heap (index + 1) readers
          return (heap, reader :: rests)
      | some (record, rest) =>
          let (heap, rests) ← readFronts (heap.push ⟨record, index⟩) (index + 1) readers
          return (heap, rest :: rests)

/-- `merge_runs`, from the open readers to what is written. -/
def mergeReaders (crc : Checksum) (readers : List Bytes) : Except BuildError (Merging crc) := do
  let (heap, rests) ← readFronts .empty 0 readers
  let merging ← mergeLoop heap rests (Merging.start crc)
  merging.finish

/-- Merge the runs into a file of descriptors and a file of members. -/
def mergeRuns (crc : Checksum) (runs : List Path) (descriptorPath membershipPath : Path) :
    Method Scratch BuildError Nat := do
  let readers ← runs.mapM fun path => Scratch.perform .io fun world => world.openRead path
  let descriptorFile ← Scratch.perform .io fun world => world.createNew descriptorPath
  let membershipFile ← Scratch.perform .io fun world => world.createNew membershipPath
  Scratch.perform .io World.readOn
  let merged ← Method.lift (mergeReaders crc readers)
  -- Both files are buffered; they are flushed before either is synced.
  Scratch.perform .io fun world => world.writeAll descriptorFile merged.descriptors
  Scratch.perform .io fun world => world.writeAll membershipFile merged.memberships
  Scratch.perform .io fun world => world.syncAll
  Scratch.perform .io fun world => world.syncAll
  return merged.bucketCount

/-! ## Reading back -/

section Reading

variable {draft : DescriptorDraft} {records : List SpillRecord} {runs rests : List (List SpillRecord)}

@[simp]
theorem length_encodeDescriptor (draft : DescriptorDraft) :
    (encodeDescriptor draft).length = descriptorBytes := by
  simp [encodeDescriptor, descriptorBytes]

@[simp]
theorem readDescriptorOptional_nil : readDescriptorOptional [] = .ok none := rfl

theorem readDescriptorOptional_encode (rest : Bytes) (h : draft.relativeOffset < 2 ^ 64) :
    readDescriptorOptional (encodeDescriptor draft ++ rest) = .ok (some (draft, rest)) := by
  have hlength : (encodeDescriptor draft ++ rest).length = descriptorBytes + rest.length := by
    rw [List.length_append, length_encodeDescriptor]
  have hband : window 0 4 (encodeDescriptor draft ++ rest) = u32Bytes draft.key.band := by
    rw [encodeDescriptor, List.append_assoc]
    exact window_prefix (length_u32Bytes _)
  have hcount : window 4 4 (encodeDescriptor draft ++ rest) = u32Bytes draft.memberCount := by
    rw [encodeDescriptor, List.append_assoc, List.append_assoc]
    exact window_middle (length_u32Bytes _) (length_u32Bytes _)
  have hhash : window 8 8 (encodeDescriptor draft ++ rest) = u64Bytes draft.key.hash := by
    rw [encodeDescriptor, ← List.append_assoc, List.append_assoc, List.append_assoc]
    exact window_middle (by simp) (length_u64Bytes _)
  have hoffset : window 16 8 (encodeDescriptor draft ++ rest) =
      u64Bytes (UInt64.ofNat draft.relativeOffset) := by
    have hsplit : encodeDescriptor draft ++ rest =
        (u32Bytes draft.key.band ++ (u32Bytes draft.memberCount ++ u64Bytes draft.key.hash)) ++
          (u64Bytes (UInt64.ofNat draft.relativeOffset) ++ (u32Bytes draft.checksum ++ rest)) := by
      simp only [encodeDescriptor, List.append_assoc]
    rw [hsplit]
    exact window_middle (by simp) (length_u64Bytes _)
  have hchecksum : window 24 4 (encodeDescriptor draft ++ rest) = u32Bytes draft.checksum := by
    have hsplit : encodeDescriptor draft ++ rest =
        (u32Bytes draft.key.band ++ (u32Bytes draft.memberCount ++ (u64Bytes draft.key.hash ++
          u64Bytes (UInt64.ofNat draft.relativeOffset)))) ++ (u32Bytes draft.checksum ++ rest) := by
      simp only [encodeDescriptor, List.append_assoc]
    rw [hsplit]
    exact window_middle (by simp) (length_u32Bytes _)
  rw [readDescriptorOptional, if_neg (by rw [hlength]; simp [descriptorBytes]),
    if_neg (by rw [hlength]; omega), hband, hcount, hhash, hoffset, hchecksum,
    List.drop_left' (length_encodeDescriptor draft)]
  simp only [u32OfBytes_u32Bytes, u64OfBytes_u64Bytes, toNat_ofNat64 h]

theorem encodeRun_cons (record : SpillRecord) (records : List SpillRecord) :
    encodeRun (record :: records) = encodeSpillRecord record ++ encodeRun records := rfl

theorem readSpillRecord_encodeRun :
    readSpillRecord (encodeRun records) =
      .ok (match records with
        | [] => none
        | record :: rest => some (record, encodeRun rest)) := by
  cases records with
  | nil => rfl
  | cons record rest => exact readSpillRecord_encode record (encodeRun rest)

/-- The fronts of encoded runs are the fronts of the runs. -/
theorem readFronts_encodeRun {heap : MinHeap SpillRecord} {index : Nat} :
    readFronts heap index (runs.map encodeRun) =
      .ok (pushFronts heap index runs, (runs.map List.tail).map encodeRun) := by
  induction runs generalizing heap index with
  | nil => rfl
  | cons run runs ih =>
      rw [List.map_cons, readFronts, readSpillRecord_encodeRun, ok_bind]
      cases run with
      | nil =>
          dsimp only
          rw [ih, ok_bind]
          rfl
      | cons record rest =>
          dsimp only
          rw [ih, ok_bind]
          rfl

theorem restOf_map_encodeRun {run : Nat} :
    restOf (rests.map encodeRun) run = encodeRun (restOf rests run) := by
  rw [restOf, restOf, List.getElem?_map]
  cases rests[run]? with
  | none => rfl
  | some rest => rfl

/-- The loop pushes the merge of the runs. -/
theorem mergeLoop_encodeRun {crc : Checksum} {heap : MinHeap SpillRecord} {merging : Merging crc} :
    mergeLoop heap (rests.map encodeRun) merging =
      (mergeFronts heap rests).foldlM Merging.push merging := by
  induction heap, rests using mergeFronts.induct generalizing merging with
  | case1 heap rests hpop =>
      rw [mergeFronts_of_none hpop, mergeLoop]
      split
      · rfl
      · next hsome => cases hpop.symm.trans hsome
  | case2 heap rests entry heap' hpop hrest ih =>
      rw [mergeFronts_of_last hpop hrest, List.foldlM_cons, mergeLoop]
      split
      · next hnone => cases hpop.symm.trans hnone
      · next hsome =>
          cases hpop.symm.trans hsome
          apply bind_congr
          intro merging
          have hread := @readSpillRecord_encodeRun (restOf rests entry.run)
          rw [← restOf_map_encodeRun, hrest] at hread
          split
          · next herror => cases hread.symm.trans herror
          · exact ih
          · next hnext => cases hread.symm.trans hnext
  | case3 heap rests entry heap' hpop next rest hrest ih =>
      rw [mergeFronts_of_next hpop hrest, List.foldlM_cons, mergeLoop]
      split
      · next hnone => cases hpop.symm.trans hnone
      · next hsome =>
          cases hpop.symm.trans hsome
          apply bind_congr
          intro merging
          have hread := @readSpillRecord_encodeRun (restOf rests entry.run)
          rw [← restOf_map_encodeRun, hrest] at hread
          split
          · next herror => cases hread.symm.trans herror
          · next hnone => cases hread.symm.trans hnone
          · next hnext =>
              cases hread.symm.trans hnext
              rw [← List.map_set]
              exact ih

end Reading

/-! ## The buckets -/

def recordOfGroup (group : BucketKey × List UInt64) : BucketRecord := ⟨group.1, group.2⟩

/-- The buckets of records that are in order. -/
def bucketsOf (records : List SpillRecord) : List BucketRecord :=
  (groupConsecutive (records.map SpillRecord.entry)).map recordOfGroup

/-- The descriptor of a bucket whose members start at an offset. -/
def draftOf (crc : Checksum) (offset : Nat) (record : BucketRecord) : DescriptorDraft where
  key := record.key
  memberCount := UInt32.ofNat record.members.length
  relativeOffset := offset
  checksum := crc.hash record.memberBytes

/-- The descriptors of buckets whose members follow each other from an offset on. -/
def draftsFrom (crc : Checksum) : Nat → List BucketRecord → List DescriptorDraft
  | _, [] => []
  | offset, record :: records =>
      draftOf crc offset record :: draftsFrom crc (offset + record.members.length * 8) records

/-- The contents of the file of descriptors. -/
def encodeDescriptors (drafts : List DescriptorDraft) : Bytes := drafts.flatMap encodeDescriptor

/-- A bucket is open, with some members so far. -/
structure Merging.Opens {crc : Checksum} (merging : Merging crc) (key : BucketKey)
    (members : List UInt64) : Prop where
  currentKey : merging.currentKey = some key
  currentCount : merging.currentCount.toNat = members.length
  currentHasher : ∃ pieces : List Bytes, pieces.flatten = u64List members ∧
    merging.currentHasher = pieces.foldl crc.update crc.new

/-- Some buckets and some members have been written. -/
structure Merging.Writes {crc : Checksum} (before after : Merging crc) (buckets : List BucketRecord)
    (keys : List UInt64) : Prop where
  bucketCount : after.bucketCount = before.bucketCount + buckets.length
  descriptors : after.descriptors =
    before.descriptors ++ encodeDescriptors (draftsFrom crc before.currentOffset buckets)
  memberships : after.memberships = before.memberships ++ u64List keys

section Buckets

variable {crc : Checksum} {merging : Merging crc} {key : BucketKey} {members : List UInt64}
  {record : SpillRecord} {records : List SpillRecord}

theorem Merging.close_eq_ok (hcrc : crc.Incremental) (h : merging.Opens key members)
    (hcount : merging.bucketCount + 1 < 2 ^ 64) :
    merging.close key = .ok { merging with
      bucketCount := merging.bucketCount + 1
      descriptors := merging.descriptors ++
        encodeDescriptor (draftOf crc merging.currentOffset ⟨key, members⟩) } := by
  obtain ⟨pieces, hpieces, hhasher⟩ := h.currentHasher
  have hchecksum : crc.finalize merging.currentHasher = crc.hash (u64List members) := by
    rw [hhasher]
    exact hcrc.hashPieces_eq hpieces
  have hword : merging.currentCount = UInt32.ofNat members.length := by
    rw [← h.currentCount, UInt32.ofNat_toNat]
  rw [close, checkedAdd_of_lt hcount, okOr_some, ok_bind, hchecksum, hword]
  rfl

/-- Another member of the open bucket. -/
theorem Merging.push_eq_ok_of_same (h : merging.Opens key members) (hgroup : record.group = key)
    (hcount : members.length + 1 < 2 ^ 32) :
    ∃ next, merging.push record = .ok next ∧ next.Opens key (members ++ [record.key]) ∧
      next.currentOffset = merging.currentOffset ∧ merging.Writes next [] [record.key] := by
  obtain ⟨pieces, hpieces, hhasher⟩ := h.currentHasher
  have hsame : ¬ merging.currentKey ≠ some record.group := by
    rw [h.currentKey, hgroup]
    exact not_not.mpr rfl
  rw [push, if_neg hsame, pure_bind]
  dsimp only
  rw [h.currentCount, tryU32_of_lt hcount, okOr_some, ok_bind]
  refine ⟨_, rfl, ⟨h.currentKey, ?_, pieces ++ [u64Bytes record.key], ?_, ?_⟩, rfl, rfl, ?_, ?_⟩
  · rw [List.length_append, List.length_singleton]
    exact toNat_ofNat32 hcount
  · rw [List.flatten_append, hpieces, u64List_append]
    rfl
  · rw [List.foldl_append, ← hhasher]
    rfl
  · exact (List.append_nil _).symm
  · rfl

/-- The first member of the next bucket. -/
theorem Merging.push_eq_ok_of_switch (hcrc : crc.Incremental) (h : merging.Opens key members)
    (hgroup : record.group ≠ key) (hbuckets : merging.bucketCount + 1 < 2 ^ 64)
    (hoffset : merging.currentOffset + members.length * 8 < 2 ^ 64) :
    ∃ next, merging.push record = .ok next ∧ next.Opens record.group [record.key] ∧
      next.currentOffset = merging.currentOffset + members.length * 8 ∧
      merging.Writes next [⟨key, members⟩] [record.key] := by
  have hother : merging.currentKey ≠ some record.group := by
    rw [h.currentKey]
    exact fun heq => hgroup (Option.some.inj heq).symm
  have hbytes : checkedMul merging.currentCount.toNat 8 = some (members.length * 8) := by
    rw [h.currentCount]
    exact checkedMul_of_lt (by omega)
  rw [push, if_pos hother, switch, h.currentKey]
  dsimp only
  rw [close_eq_ok hcrc h hbuckets, ok_bind]
  dsimp only
  rw [hbytes, okOr_some, ok_bind, checkedAdd_of_lt hoffset, okOr_some, ok_bind]
  refine ⟨_, rfl, ⟨rfl, rfl, [u64Bytes record.key], rfl, rfl⟩, rfl, rfl, ?_, rfl⟩
  exact congrArg (merging.descriptors ++ ·) (List.append_nil _).symm

/-- From an open bucket on, the loop writes the buckets of the records it pushes. -/
theorem Merging.finish_foldlM_push (hcrc : crc.Incremental) (h : merging.Opens key members)
    (hcount : members.length + records.length < 2 ^ 32)
    (hbuckets : merging.bucketCount + records.length + 1 < 2 ^ 64)
    (hoffset : merging.currentOffset + (members.length + records.length) * 8 < 2 ^ 64) :
    ∃ last, (records.foldlM Merging.push merging >>= Merging.finish) = .ok last ∧
      merging.Writes last
        ((groupFrom key members (records.map SpillRecord.entry)).map recordOfGroup)
        (records.map SpillRecord.key) := by
  induction records generalizing merging key members with
  | nil =>
      rw [List.foldlM_nil, pure_bind, finish, h.currentKey]
      dsimp only
      rw [close_eq_ok hcrc h hbuckets]
      exact ⟨_, rfl, rfl, congrArg (merging.descriptors ++ ·) (List.append_nil _).symm,
        (List.append_nil _).symm⟩
  | cons record records ih =>
      rw [List.length_cons] at hcount hbuckets hoffset
      rw [List.foldlM_cons, bind_assoc, List.map_cons, List.map_cons, groupFrom]
      by_cases hgroup : record.group = key
      · obtain ⟨next, hpush, hopens, hnext, hwrites⟩ := push_eq_ok_of_same h hgroup (by omega)
        have hlength : (members ++ [record.key]).length = members.length + 1 := by simp
        have hsame : next.bucketCount = merging.bucketCount := hwrites.bucketCount
        obtain ⟨last, hlast, hcounted, hdescribed, hmembers⟩ :=
          ih hopens (by omega) (by omega) (by omega)
        rw [hpush, ok_bind, if_pos (show record.entry.1 = key from hgroup)]
        refine ⟨last, hlast, ?_, ?_, ?_⟩
        · rw [hcounted, hsame]
          rfl
        · rw [hdescribed, hwrites.descriptors, hnext]
          simp [draftsFrom, encodeDescriptors]
          rfl
        · rw [hmembers, hwrites.memberships, List.append_assoc, ← u64List_append]
          rfl
      · obtain ⟨next, hpush, hopens, hnext, hwrites⟩ :=
          push_eq_ok_of_switch hcrc h hgroup (by omega) (by omega)
        have hsame : next.bucketCount = merging.bucketCount + 1 := hwrites.bucketCount
        have hlength : [record.key].length = 1 := rfl
        obtain ⟨last, hlast, hcounted, hdescribed, hmembers⟩ :=
          ih hopens (by omega) (by omega) (by omega)
        rw [hpush, ok_bind, if_neg (show ¬ record.entry.1 = key from hgroup), List.map_cons]
        refine ⟨last, hlast, ?_, ?_, ?_⟩
        · rw [hcounted, hsame, List.length_cons, Nat.add_assoc, Nat.add_comm 1]
          rfl
        · rw [hdescribed, hwrites.descriptors, hnext, List.append_assoc]
          rfl
        · rw [hmembers, hwrites.memberships, List.append_assoc, ← u64List_append]
          rfl

end Buckets

/-! ## What the merge writes -/

section Merged

variable {crc : Checksum} {records : List SpillRecord} {pieces : List (List SpillRecord)}

/-- The buckets of records have all their keys, in order. -/
theorem flatten_members_bucketsOf :
    ((bucketsOf records).map BucketRecord.members).flatten = records.map SpillRecord.key := by
  have hvalues := @flatMap_groupConsecutive _ _ _ (records.map SpillRecord.entry)
  rw [List.map_map, List.flatMap_def] at hvalues
  rw [bucketsOf, List.map_map]
  exact hvalues

theorem segmentMembers_bucketsOf :
    segmentMembers (bucketsOf records) = u64List (records.map SpillRecord.key) := by
  rw [← flatten_members_bucketsOf, u64List_flatten, List.flatMap_map]
  rfl

/-- Pushing records from the start writes their buckets and their members. -/
theorem finish_foldlM_start (hcrc : crc.Incremental) (hfew : records.length < 2 ^ 32) :
    ∃ last, (records.foldlM Merging.push (Merging.start crc) >>= Merging.finish) = .ok last ∧
      last.bucketCount = (bucketsOf records).length ∧
      last.descriptors = encodeDescriptors (draftsFrom crc 0 (bucketsOf records)) ∧
      last.memberships = segmentMembers (bucketsOf records) := by
  cases records with
  | nil => exact ⟨_, rfl, rfl, rfl, rfl⟩
  | cons record records =>
      have hopen : Merging.push (Merging.start crc) record = .ok { Merging.start crc with
          currentKey := some record.group
          currentCount := 1
          currentHasher := crc.update crc.new (u64Bytes record.key)
          memberships := u64Bytes record.key } := rfl
      rw [List.length_cons] at hfew
      rw [segmentMembers_bucketsOf, List.foldlM_cons, bind_assoc, hopen, ok_bind]
      have hone : [record.key].length = 1 := rfl
      obtain ⟨last, hlast, hcounted, hdescribed, hmembers⟩ := @Merging.finish_foldlM_push crc
        { Merging.start crc with
          currentKey := some record.group
          currentCount := 1
          currentHasher := crc.update crc.new (u64Bytes record.key)
          memberships := u64Bytes record.key } record.group [record.key] records hcrc
        ⟨rfl, rfl, [u64Bytes record.key], rfl, rfl⟩ (by omega)
        (show 0 + records.length + 1 < 2 ^ 64 by omega)
        (show 0 + ([record.key].length + records.length) * 8 < 2 ^ 64 by omega)
      refine ⟨last, hlast, ?_, hdescribed, hmembers⟩
      rw [hcounted]
      exact Nat.zero_add _

/-- Merging sorted pieces writes the buckets of all their records in order. -/
theorem mergeReaders_eq_ok (hcrc : crc.Incremental) (hfew : pieces.flatten.length < 2 ^ 32) :
    ∃ merged, mergeReaders crc (pieces.map fun piece => encodeRun (sortUnstable piece)) =
        .ok merged ∧
      merged.bucketCount = (bucketsOf (sortUnstable pieces.flatten)).length ∧
      merged.descriptors =
        encodeDescriptors (draftsFrom crc 0 (bucketsOf (sortUnstable pieces.flatten))) ∧
      merged.memberships = segmentMembers (bucketsOf (sortUnstable pieces.flatten)) := by
  have hruns : ∀ run ∈ pieces.map sortUnstable, run.Pairwise (· ≤ ·) := by
    intro run hrun
    obtain ⟨piece, _, rfl⟩ := List.mem_map.mp hrun
    exact sortUnstable_pairwise piece
  have hperm : (pieces.map sortUnstable).flatten.Perm pieces.flatten := by
    induction pieces with
    | nil => exact List.Perm.refl _
    | cons piece pieces ih =>
        rw [List.flatten_cons, List.length_append] at hfew
        rw [List.map_cons, List.forall_mem_cons] at hruns
        rw [List.map_cons, List.flatten_cons, List.flatten_cons]
        exact (sortUnstable_perm piece).append (ih (by omega) hruns.2)
  have hmerge : mergeFronts (pushFronts .empty 0 (pieces.map sortUnstable))
      ((pieces.map sortUnstable).map List.tail) = sortUnstable pieces.flatten :=
    (mergeRuns_eq_sortUnstable hruns).trans (sortUnstable_eq_of_perm hperm)
  have hreaders : pieces.map (fun piece => encodeRun (sortUnstable piece)) =
      (pieces.map sortUnstable).map encodeRun := by
    rw [List.map_map]
    rfl
  rw [hreaders, mergeReaders, readFronts_encodeRun, ok_bind]
  dsimp only
  rw [mergeLoop_encodeRun, hmerge]
  apply finish_foldlM_start hcrc
  rw [length_sortUnstable]
  exact hfew

end Merged

/-! ## The buckets of a source -/

/-- The buckets that a source has, whatever order its items come in. -/
def sourceBuckets (items : List (UInt64 × List UInt64)) : List BucketRecord :=
  bucketsOf (sortUnstable (spillRecords items))

section Sources

variable {items : List (UInt64 × List UInt64)} {record : BucketRecord}

theorem map_entry_spillRecords : (spillRecords items).map SpillRecord.entry = bucketEntries items := by
  rw [spillRecords, List.map_map]
  exact List.map_id'' (fun _ => rfl) _

/-- Sorted records come in the order of their groups. -/
theorem groups_sortUnstable (records : List SpillRecord) :
    ((sortUnstable records).map SpillRecord.entry).Pairwise
      fun left right => left.1 < right.1 ∨ left.1 = right.1 ∧ left.2 ≤ right.2 := by
  rw [List.pairwise_map]
  exact (sortUnstable_pairwise records).imp SpillRecord.le_iff.mp

theorem isGrouping_sourceBuckets :
    IsGrouping ((sortUnstable (spillRecords items)).map SpillRecord.entry)
      (groupConsecutive ((sortUnstable (spillRecords items)).map SpillRecord.entry)) := by
  apply isGrouping_groupConsecutive
  apply (groups_sortUnstable _).imp
  rintro left right (hlt | ⟨heq, _⟩)
  · exact le_of_lt hlt
  · exact le_of_eq heq

/-- The members of a bucket are the keys filed under it, in order. -/
theorem fibre_sorted (bucket : BucketKey) :
    fibre ((sortUnstable (spillRecords items)).map SpillRecord.entry) bucket =
      sortUnstable (fibre (bucketEntries items) bucket) := by
  apply eq_sortUnstable
  · apply pairwise_fibre
    apply (groups_sortUnstable _).imp
    rintro left right (hlt | ⟨_, hle⟩) heq
    · exact absurd heq hlt.ne
    · exact hle
  · rw [← map_entry_spillRecords]
    exact fibre_perm ((sortUnstable_perm _).map _) bucket

theorem ascending_sourceBuckets : Ascending ((sourceBuckets items).map (·.key)) := by
  have h := (@isGrouping_sourceBuckets items).ascending
  rw [sourceBuckets, bucketsOf, List.map_map]
  exact h

theorem mem_sourceBuckets_iff : record ∈ sourceBuckets items ↔
    record.members = sortUnstable (fibre (bucketEntries items) record.key) ∧
      record.members ≠ [] := by
  obtain ⟨key, members⟩ := record
  rw [← fibre_sorted, ← isGrouping_sourceBuckets.mem_iff, sourceBuckets, bucketsOf, List.mem_map]
  constructor
  · rintro ⟨⟨other, others⟩, hmem, heq⟩
    cases heq
    exact hmem
  · intro hmem
    exact ⟨_, hmem, rfl⟩

/-- If the keys of the items ascend, the buckets are those of the in-memory builder. -/
theorem sourceBuckets_eq (hascending : Ascending (items.map Prod.fst))
    (hwidth : ∀ item ∈ items, item.2.length < 2 ^ 32) :
    sourceBuckets items = bucketRecords items := by
  have hfibre : ∀ bucket, fibre ((sortUnstable (spillRecords items)).map SpillRecord.entry) bucket =
      fibre (bucketEntries items) bucket := by
    intro bucket
    rw [fibre_sorted, fibre_bucketEntries hwidth]
    apply sortUnstable_eq_self
    rw [List.pairwise_map]
    apply List.Pairwise.filter
    rw [Ascending, List.pairwise_map] at hascending
    exact hascending.imp le_of_lt
  have hgroups := isGrouping_sourceBuckets.unique
    (isGrouping_collectTable (bucketEntries items)) hfibre
  rw [sourceBuckets, bucketsOf, hgroups]
  rfl

/-- A record for every band of every item. -/
theorem length_spillRecords {bands : Nat} (hwidth : ∀ item ∈ items, item.2.length = bands) :
    (spillRecords items).length = items.length * bands := by
  have hrows : ∀ item ∈ items, (rowEntries item.1 item.2).length = bands := by
    intro item hitem
    rw [rowEntries, List.length_map, List.length_zipIdx]
    exact hwidth item hitem
  rw [spillRecords, List.length_map, bucketEntries, List.length_flatMap,
    List.map_congr_left hrows, List.map_const', List.sum_replicate_nat]

theorem length_segmentMembers_sourceBuckets :
    (segmentMembers (sourceBuckets items)).length = (spillRecords items).length * 8 := by
  rw [sourceBuckets, segmentMembers_bucketsOf, length_u64List, List.length_map,
    length_sortUnstable, Nat.mul_comm]

theorem length_flatten_members : ((sourceBuckets items).map BucketRecord.members).flatten.length =
    (spillRecords items).length := by
  rw [sourceBuckets, flatten_members_bucketsOf, List.length_map, length_sortUnstable]

/-- There are no more buckets than records. -/
theorem length_sourceBuckets_le : (sourceBuckets items).length ≤ (spillRecords items).length := by
  rw [← length_flatten_members, ← List.length_map (f := BucketRecord.members)]
  apply length_le_length_flatten
  intro members hmembers
  obtain ⟨record, hrecord, rfl⟩ := List.mem_map.mp hmembers
  exact (mem_sourceBuckets_iff.mp hrecord).2

/-- A bucket has no more members than there are records. -/
theorem length_members_le (hrecord : record ∈ sourceBuckets items) :
    record.members.length ≤ (spillRecords items).length := by
  rw [← length_flatten_members]
  exact (List.sublist_flatten_of_mem (List.mem_map_of_mem hrecord)).length_le

/-- A record takes at most a directory entry and a word. -/
theorem totalSize_sourceBuckets_le :
    totalSize recordSize (sourceBuckets items) ≤ 40 * (spillRecords items).length := by
  have hcount := @length_sourceBuckets_le items
  have hmembers := @length_segmentMembers_sourceBuckets items
  have hlength := segmentLength_eq (sourceBuckets items)
  rw [segmentLength, memberStart, ← length_segmentMembers, hmembers] at hlength
  have hentry : bucketDirectoryEntryBytes = 32 := rfl
  rw [hentry] at hlength
  omega

theorem length_segmentsOf_le :
    (segmentsOf (sourceBuckets items)).length ≤ (spillRecords items).length + 1 := by
  have hcount := @length_sourceBuckets_le items
  rw [segmentsOf]
  split
  · exact Nat.le_add_left _ _
  · have hgroups := @length_pack_le_length _ recordSize bucketSegmentHeaderBytes
      bucketSegmentTargetBytes (sourceBuckets items)
    omega

end Sources

/-! ## Writing the two files -/

section Writing

variable {crc : Checksum} {destination descriptorPath membershipPath : Path} {nonce : Nat}
  {pieces : List (List SpillRecord)} {before : Scratch} {base files : FileSystem}
  {descriptors memberships : Bytes}

/-- Two files that were made one after the other hold what was written to them. -/
theorem holds_of_two_created (hne : descriptorPath.location ≠ membershipPath.location)
    (hfiles : files = (((base.create descriptorPath.location).create
      membershipPath.location).append base.nextInode descriptors).append (base.nextInode + 1)
        memberships) :
    files.Holds descriptorPath.location descriptors ∧
      files.Holds membershipPath.location memberships := by
  subst hfiles
  refine ⟨⟨base.nextInode, ?_, ?_⟩, ⟨base.nextInode + 1, ?_, ?_⟩⟩
  · exact (Function.update_of_ne hne _ _).trans (Function.update_self _ _ _)
  · simp [FileSystem.append, FileSystem.create]
  · exact Function.update_self _ _ _
  · simp [FileSystem.append, FileSystem.create]

theorem makes_openRuns {owned : List Path} (hruns : HoldsRuns destination nonce pieces
      before.world.files) :
    Makes before.world.files owned (fun readers after =>
        readers = pieces.map (fun piece => encodeRun (sortUnstable piece)) ∧
          after.world.files = before.world.files)
      ((runPaths destination nonce pieces.length).mapM fun path =>
        Scratch.perform BuildError.io fun world => world.openRead path) before := by
  let contents : Path → Bytes := fun path => (before.world.files.read path.location).getD []
  have hread : ∀ index piece, pieces[index]? = some piece →
      before.world.files.read (runPath destination nonce index).location =
        some (encodeRun (sortUnstable piece)) :=
    fun index piece hpiece => (hruns index piece hpiece).read
  have hcontents : (runPaths destination nonce pieces.length).map contents =
      pieces.map fun piece => encodeRun (sortUnstable piece) := by
    apply List.ext_getElem?
    intro index
    rw [runPaths, List.map_map, List.getElem?_map, List.getElem?_map]
    cases hpiece : pieces[index]? with
    | none =>
        rw [List.getElem?_eq_none_iff.mpr (by
          rw [List.length_range]
          exact List.getElem?_eq_none_iff.mp hpiece)]
        rfl
    | some piece =>
        rw [List.getElem?_range (List.getElem?_eq_some_iff.mp hpiece).1]
        exact congrArg (fun bytes => some (Option.getD bytes [])) (hread index piece hpiece)
  rw [← hcontents]
  apply Makes.mapM (.refl _ _)
  intro path hpath state hstate
  obtain ⟨index, hindex, rfl⟩ := List.mem_map.mp hpath
  have hlt : index < pieces.length := List.mem_range.mp hindex
  have hpiece : pieces[index]? = some pieces[index] := List.getElem?_eq_getElem hlt
  have hhere := hread index _ hpiece
  apply Makes.openRead (hstate ▸ .refl _ _) (hstate ▸ hhere)
  intro after hafter
  exact ⟨congrArg (Option.getD · []) hhere.symm, hafter.trans hstate⟩

/-- Merging the runs of some pieces writes the descriptors and the members of their buckets. -/
theorem meets_mergeRuns (hcrc : crc.Incremental)
    (hne : descriptorPath.location ≠ membershipPath.location)
    (hfew : pieces.flatten.length < 2 ^ 32)
    (hruns : HoldsRuns destination nonce pieces before.world.files) :
    Meets [[descriptorPath, membershipPath]]
      (fun count after => count = (bucketsOf (sortUnstable pieces.flatten)).length ∧
        after.world.files.Holds descriptorPath.location
          (encodeDescriptors (draftsFrom crc 0 (bucketsOf (sortUnstable pieces.flatten)))) ∧
        after.world.files.Holds membershipPath.location
          (segmentMembers (bucketsOf (sortUnstable pieces.flatten))))
      (Scratch.track [descriptorPath, membershipPath] >>= fun _ =>
        mergeRuns crc (runPaths destination nonce pieces.length) descriptorPath membershipPath)
      before := by
  apply Meets.of_group
  generalize hbefore : ({ before with
    paths := before.paths ++ [descriptorPath, membershipPath] } : Scratch) = tracked
  have hworld : tracked.world.files = before.world.files := by rw [← hbefore]
  rw [← hworld] at hruns ⊢
  obtain ⟨merged, hmerged, hcount, hdescriptors, hmemberships⟩ := mergeReaders_eq_ok hcrc hfew
  have hdescriptorMem : descriptorPath ∈ [descriptorPath, membershipPath] := by simp
  have hmembershipMem : membershipPath ∈ [descriptorPath, membershipPath] := by simp
  unfold mergeRuns
  apply (makes_openRuns hruns).bind
  rintro _ opened hadds ⟨rfl, hopened⟩
  rw [← hopened]
  have hrefl : FileSystem.Adds [descriptorPath, membershipPath] opened.world.files opened.world.files :=
    .refl _ _
  -- Both names were free, and the files have the next two inodes.
  have hfirst : Makes opened.world.files [descriptorPath, membershipPath]
      (fun inode after => inode = opened.world.files.nextInode ∧
        opened.world.files.entries descriptorPath.location = none ∧
        after.world.files = opened.world.files.create descriptorPath.location)
      (Scratch.perform BuildError.io fun world => world.createNew descriptorPath) opened :=
    Makes.createNew hrefl hdescriptorMem rfl fun after hfree hafter => ⟨rfl, hfree, hafter⟩
  apply hfirst.bind
  rintro _ first hadds ⟨rfl, hfreeFirst, hfirstFiles⟩
  have hentries : first.world.files.entries membershipPath.location =
      opened.world.files.entries membershipPath.location := by
    rw [hfirstFiles]
    exact Function.update_of_ne hne.symm _ _
  have hsecond : Makes opened.world.files [descriptorPath, membershipPath]
      (fun inode after => inode = first.world.files.nextInode ∧
        opened.world.files.entries membershipPath.location = none ∧
        after.world.files = first.world.files.create membershipPath.location)
      (Scratch.perform BuildError.io fun world => world.createNew membershipPath) first :=
    Makes.createNew hadds hmembershipMem hentries fun after hfree hafter => ⟨rfl, hfree, hafter⟩
  apply hsecond.bind
  rintro _ second hadds ⟨rfl, hfreeSecond, hsecondFiles⟩
  rw [hfirstFiles] at hsecondFiles ⊢
  have hreadOn : Makes opened.world.files [descriptorPath, membershipPath]
      (fun _ after => after.world.files = second.world.files)
      (Scratch.perform BuildError.io World.readOn) second :=
    Makes.readOn hadds fun after hafter => hafter
  apply hreadOn.bind
  intro _ third hadds hthird
  rw [hmerged]
  apply (Makes.writeAll hadds (Nat.le_refl _) fun after hafter => hafter :
    Makes opened.world.files [descriptorPath, membershipPath]
      (fun _ after => after.world.files =
        third.world.files.append opened.world.files.nextInode merged.descriptors)
      (Scratch.perform BuildError.io fun world =>
        world.writeAll opened.world.files.nextInode merged.descriptors) third).bind
  intro _ fourth hadds hfourth
  apply (Makes.writeAll hadds (Nat.le_succ _) fun after hafter => hafter :
    Makes opened.world.files [descriptorPath, membershipPath]
      (fun _ after => after.world.files =
        fourth.world.files.append (opened.world.files.nextInode + 1) merged.memberships)
      (Scratch.perform BuildError.io fun world =>
        world.writeAll (opened.world.files.nextInode + 1) merged.memberships) fourth).bind
  intro _ fifth hadds hfifth
  apply (Makes.syncAll hadds fun after hafter => hafter :
    Makes opened.world.files [descriptorPath, membershipPath]
      (fun _ after => after.world.files = fifth.world.files)
      (Scratch.perform BuildError.io fun world => world.syncAll) fifth).bind
  intro _ sixth hadds hsixth
  apply (Makes.syncAll hadds fun after hafter => hafter :
    Makes opened.world.files [descriptorPath, membershipPath]
      (fun _ after => after.world.files = sixth.world.files)
      (Scratch.perform BuildError.io fun world => world.syncAll) sixth).bind
  intro _ last hadds hlast
  apply Makes.lift hadds
  have hholds := @holds_of_two_created descriptorPath membershipPath opened.world.files
    last.world.files merged.descriptors merged.memberships hne (by
      rw [hlast, hsixth, hfifth, hfourth, hthird, hsecondFiles])
  rw [← hdescriptors, ← hmemberships]
  refine ⟨?_, hcount, hholds⟩
  intro path hpath
  rcases List.mem_pair.mp hpath with rfl | rfl
  · exact hfreeFirst
  · exact hfreeSecond

end Writing

end Pari.Build
