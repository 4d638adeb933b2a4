/-
# The bucket directory of a snapshot

Opening a snapshot decodes every bucket section into locations and checks that the whole
directory is in strict key order. A directory holds records when its locations are those
of the records in order and reading a location returns the members of its record; the
directory decoded from segments holds their records, and a query over it collects exactly
the members of the records it selects.
-/

import Pari.Store.BucketSections

namespace Pari.Store

open Data Pari.Format

variable {ε : Type}

section Reading

variable (errors : ErrorWrapping ε) (crc : Checksum) (layout : FileLayout) (file : Bytes)

/-- Decode every bucket section and check the order of the whole directory. -/
def readDirectory (bands : Nat) (descriptors : List SectionDescriptor) :
    Except ε (List BucketLocation) := do
  let directory ← descriptors.foldlM (fun directory descriptor => do
    let segment ← (decodeBucketSegment crc layout file descriptor bands).mapError errors.bucket
    return directory ++ segment) []
  (validateGlobalBucketOrder directory).mapError errors.bucket
  return directory

/-- `binary_search_by_key` on a directory in strict key order: the only location with the
key, if there is one. -/
def findBucket (directory : List BucketLocation) (key : BucketKey) : Option BucketLocation :=
  directory.find? (·.key = key)

/-- The query loop from a band on: the members of every bucket the hashes select, as far as
they are kept. -/
def collectMembers (directory : List BucketLocation) (keep : UInt64 → Bool) :
    Nat → List UInt64 → OrderedSet UInt64 → Except ε (OrderedSet UInt64)
  | _, [], output => .ok output
  | band, hash :: hashes, output => do
      let bandWord ← okOr (tryU32 band) errors.lengthOverflow
      match findBucket directory { band := bandWord, hash } with
      | none => collectMembers directory keep (band + 1) hashes output
      | some location => do
          let members ← (readBucketMembers crc layout file location).mapError errors.bucket
          collectMembers directory keep (band + 1) hashes
            (output.insertMany (members.filter keep))

end Reading

/-- A directory in strict key order whose locations read back as the records. -/
structure DirectoryHolds (crc : Checksum) (layout : FileLayout) (file : Bytes)
    (directory : List BucketLocation) (records : List BucketRecord) : Prop where
  reads : List.Forall₂ (ReadsAs crc layout file) records directory
  ascending : Ascending (records.map (·.key))

section Holding

variable {errors : ErrorWrapping ε} {crc : Checksum} {layout : FileLayout} {file : Bytes}
  {bands : Nat} {records : List BucketRecord} {descriptor : SectionDescriptor}
  {directory : List BucketLocation}

/-- Reading a directory is decoding its sections one after another, and checking the order. -/
theorem readDirectory_eq_ok_iff {descriptors : List SectionDescriptor} :
    readDirectory errors crc layout file bands descriptors = .ok directory ↔
      (descriptors.foldlM (fun directory descriptor => do
        let segment ← (decodeBucketSegment crc layout file descriptor bands).mapError errors.bucket
        return directory ++ segment) []) = .ok directory ∧
      Ascending (directory.map (·.key)) := by
  simp only [readDirectory, validateGlobalBucketOrder, bind_eq_ok_iff, mapError_eq_ok_iff,
    rejectUnordered_eq_ok_iff, exists_const, pure_eq_ok_iff]
  constructor
  · rintro ⟨_, hfold, hascending, rfl⟩
    exact ⟨hfold, hascending⟩
  · rintro ⟨hfold, hascending⟩
    exact ⟨_, hfold, hascending, rfl⟩

/-- Whatever every section of a directory is known to decode to, the directory holds. -/
theorem readDirectory_forall₂ {groups : List (List BucketRecord)}
    {descriptors : List SectionDescriptor} {Holds : BucketRecord → BucketLocation → Prop}
    (hdecodes : List.Forall₂ (fun records descriptor => ∀ locations,
      decodeBucketSegment crc layout file descriptor bands = .ok locations →
        List.Forall₂ Holds records locations) groups descriptors)
    (h : readDirectory errors crc layout file bands descriptors = .ok directory) :
    List.Forall₂ Holds groups.flatten directory := by
  have hloop : ∀ start, (descriptors.foldlM (fun directory descriptor => do
        let segment ← (decodeBucketSegment crc layout file descriptor bands).mapError errors.bucket
        return directory ++ segment) start) = .ok directory →
      ∃ rest, directory = start ++ rest ∧ List.Forall₂ Holds groups.flatten rest := by
    clear h
    induction hdecodes with
    | nil =>
        intro start hfold
        obtain rfl := pure_eq_ok_iff.mp hfold
        exact ⟨[], by simp, .nil⟩
    | cons hdecode _ ih =>
        intro start hfold
        simp only [List.foldlM_cons, bind_eq_ok_iff, mapError_eq_ok_iff, pure_eq_ok_iff] at hfold
        obtain ⟨_, ⟨segment, hsegment, rfl⟩, hrest⟩ := hfold
        obtain ⟨rest, rfl, hholds⟩ := ih _ hrest
        exact ⟨segment ++ rest, by rw [List.append_assoc],
          List.rel_append (hdecode segment hsegment) hholds⟩
  obtain ⟨rest, rfl, hholds⟩ := hloop [] (readDirectory_eq_ok_iff.mp h).1
  exact hholds

/-- Every section of a directory decodes. -/
theorem exists_decode_of_readDirectory {descriptors : List SectionDescriptor}
    (h : readDirectory errors crc layout file bands descriptors = .ok directory) :
    ∀ descriptor ∈ descriptors,
      succeeds (decodeBucketSegment crc layout file descriptor bands) := by
  have hfold := (readDirectory_eq_ok_iff.mp h).1
  generalize ([] : List BucketLocation) = start at hfold
  clear h
  induction descriptors generalizing start with
  | nil => simp
  | cons descriptor descriptors ih =>
      simp only [List.foldlM_cons, bind_eq_ok_iff, mapError_eq_ok_iff, pure_eq_ok_iff] at hfold
      obtain ⟨_, ⟨segment, hsegment, rfl⟩, hrest⟩ := hfold
      exact List.forall_mem_cons.mpr ⟨⟨segment, hsegment⟩, ih _ hrest⟩

/-- The directory of bucket sections that hold groups of records holds all the records. -/
theorem readDirectory_of_segments (h : layout.Describes file) (hbands : bands < 2 ^ 32)
    {groups : List (List BucketRecord)} {descriptors : List SectionDescriptor}
    (hsegments : List.Forall₂ (HoldsSegment crc layout file bands) groups descriptors)
    (hascending : Ascending (groups.flatten.map (·.key))) :
    ∃ directory, readDirectory errors crc layout file bands descriptors = .ok directory ∧
      DirectoryHolds crc layout file directory groups.flatten := by
  have hloop : ∀ start, ∃ rest, (descriptors.foldlM (fun directory descriptor => do
        let segment ← (decodeBucketSegment crc layout file descriptor bands).mapError errors.bucket
        return directory ++ segment) start) = .ok (start ++ rest) ∧
      List.Forall₂ (ReadsAs crc layout file) groups.flatten rest := by
    clear hascending
    induction hsegments with
    | nil => exact fun start => ⟨[], by simp [pure, Except.pure], .nil⟩
    | cons hsegment _ ih =>
        intro start
        obtain ⟨locations, hdecode, hreads⟩ := decodeBucketSegment_of_segment h hbands hsegment
        obtain ⟨rest, hfold, hrest⟩ := ih (start ++ locations)
        refine ⟨locations ++ rest, ?_, ?_⟩
        · rw [List.foldlM_cons, hdecode, mapError_ok, ok_bind]
          rw [List.append_assoc] at hfold
          exact hfold
        · rw [List.flatten_cons]
          exact List.rel_append hreads hrest
  obtain ⟨directory, hfold, hreads⟩ := hloop []
  refine ⟨directory, readDirectory_eq_ok_iff.mpr ⟨hfold, ?_⟩, hreads, hascending⟩
  rw [ReadsAs.keys_eq hreads]
  exact hascending

end Holding

/-! ## Queries -/

section Collecting

variable {errors : ErrorWrapping ε} {crc : Checksum} {layout : FileLayout} {file : Bytes}
  {records : List BucketRecord} {directory : List BucketLocation} {keep : UInt64 → Bool}

/-- A query fails only on a location it reads. -/
theorem exists_collectMembers
    (hreads : ∀ location ∈ directory, succeeds (readBucketMembers crc layout file location))
    {band : Nat} {hashes : List UInt64} (hword : band + hashes.length ≤ 2 ^ 32)
    (output : OrderedSet UInt64) :
    succeeds (collectMembers errors crc layout file directory keep band hashes output) := by
  induction hashes generalizing band output with
  | nil => exact ⟨output, rfl⟩
  | cons hash hashes ih =>
      rw [List.length_cons] at hword
      rw [collectMembers, tryU32_of_lt (by omega), okOr_some, ok_bind]
      cases hfind : findBucket directory ⟨UInt32.ofNat band, hash⟩ with
      | none => exact ih (by omega) output
      | some location =>
          obtain ⟨members, hread⟩ := hreads location (List.mem_of_find?_eq_some hfind)
          simp only [hread, mapError_ok, ok_bind]
          exact ih (by omega) _

/-- A location found in a directory has the key, and belongs to the record with the key. -/
theorem exists_record_of_findBucket
    (h : List.Forall₂ (MayReadAs crc layout file) records directory) {key : BucketKey}
    {location : BucketLocation} (hfind : findBucket directory key = some location) :
    ∃ record ∈ records, record.key = key ∧ MayReadAs crc layout file record location := by
  have hkey : location.key = key := by simpa using List.find?_some hfind
  obtain ⟨record, hrecord, hreads⟩ := exists_left_of_forall₂ h (List.mem_of_find?_eq_some hfind)
  exact ⟨record, hrecord, hreads.key.symm.trans hkey, hreads⟩

theorem findBucket_ne_none (h : List.Forall₂ (MayReadAs crc layout file) records directory)
    {record : BucketRecord} (hrecord : record ∈ records) : findBucket directory record.key ≠ none := by
  obtain ⟨location, hlocation, hreads⟩ := exists_right_of_forall₂ h hrecord
  intro hnone
  exact List.find?_eq_none.mp hnone location hlocation (by simp [hreads.key])

/-- A query that succeeds has collected the kept members of the records it selects. -/
theorem mem_collectMembers_iff (h : List.Forall₂ (MayReadAs crc layout file) records directory)
    (hascending : Ascending (records.map (·.key))) {band : Nat} {hashes : List UInt64}
    {output result : OrderedSet UInt64} (hword : band + hashes.length ≤ 2 ^ 32)
    (hresult : collectMembers errors crc layout file directory keep band hashes output = .ok result)
    (member : UInt64) :
    member ∈ result ↔ member ∈ output ∨ (keep member = true ∧
      ∃ (index : Nat) (hash : UInt64), hashes[index]? = some hash ∧
        ∃ record ∈ records, record.key = ⟨UInt32.ofNat (band + index), hash⟩ ∧
          member ∈ record.members) := by
  induction hashes generalizing band output with
  | nil =>
      obtain rfl := Except.ok.inj hresult
      simp
  | cons hash hashes ih =>
      rw [List.length_cons] at hword
      -- The members selected from this band on are those of this band and of the later ones.
      have hsplit : (∃ (index : Nat) (value : UInt64),
            (hash :: hashes)[index]? = some value ∧ ∃ record ∈ records,
              record.key = ⟨UInt32.ofNat (band + index), value⟩ ∧ member ∈ record.members) ↔
          (∃ record ∈ records, record.key = ⟨UInt32.ofNat band, hash⟩ ∧ member ∈ record.members) ∨
          ∃ (index : Nat) (value : UInt64), hashes[index]? = some value ∧ ∃ record ∈ records,
            record.key = ⟨UInt32.ofNat (band + 1 + index), value⟩ ∧ member ∈ record.members := by
        constructor
        · rintro ⟨index, value, hvalue, hrecord⟩
          cases index with
          | zero =>
              obtain rfl := Option.some.inj hvalue
              exact Or.inl hrecord
          | succ index =>
              rw [show band + (index + 1) = band + 1 + index by omega] at hrecord
              exact Or.inr ⟨index, value, hvalue, hrecord⟩
        · rintro (hrecord | ⟨index, value, hvalue, hrecord⟩)
          · exact ⟨0, hash, rfl, hrecord⟩
          · rw [show band + 1 + index = band + (index + 1) by omega] at hrecord
            exact ⟨index + 1, value, hvalue, hrecord⟩
      rw [collectMembers, tryU32_of_lt (by omega), okOr_some, ok_bind] at hresult
      rw [hsplit]
      cases hfind : findBucket directory ⟨UInt32.ofNat band, hash⟩ with
      | none =>
          rw [hfind] at hresult
          have hnone : ¬ ∃ record ∈ records,
              record.key = ⟨UInt32.ofNat band, hash⟩ ∧ member ∈ record.members := by
            rintro ⟨record, hrecord, hkey, _⟩
            exact findBucket_ne_none h hrecord (hkey ▸ hfind)
          rw [ih (by omega) hresult, or_iff_right hnone]
      | some location =>
          simp only [hfind, bind_eq_ok_iff, mapError_eq_ok_iff] at hresult
          obtain ⟨members, hread, hresult⟩ := hresult
          obtain ⟨record, hrecord, hkey, hreads⟩ := exists_record_of_findBucket h hfind
          obtain rfl := hreads.members members hread
          have hthis : (∃ other ∈ records,
              other.key = ⟨UInt32.ofNat band, hash⟩ ∧ member ∈ other.members) ↔
              member ∈ record.members := by
            constructor
            · rintro ⟨other, hother, hotherKey, hmember⟩
              rwa [List.inj_on_of_nodup_map hascending.nodup hrecord hother
                (hkey.trans hotherKey.symm)]
            · exact fun hmember => ⟨record, hrecord, hkey, hmember⟩
          rw [ih (by omega) hresult, mem_insertMany, List.mem_filter, hthis, or_assoc,
            and_or_left, and_comm (a := member ∈ record.members)]

/-- A query over a directory collects the kept members of the records it selects. -/
theorem DirectoryHolds.collectMembers (h : DirectoryHolds crc layout file directory records)
    {band : Nat} {hashes : List UInt64} {output : OrderedSet UInt64}
    (hword : band + hashes.length ≤ 2 ^ 32) :
    ∃ result, collectMembers errors crc layout file directory keep band hashes output =
        .ok result ∧
      ∀ member, member ∈ result ↔ member ∈ output ∨ (keep member = true ∧
        ∃ (index : Nat) (hash : UInt64), hashes[index]? = some hash ∧
          ∃ record ∈ records, record.key = ⟨UInt32.ofNat (band + index), hash⟩ ∧
            member ∈ record.members) := by
  obtain ⟨result, hresult⟩ := @exists_collectMembers _ errors crc layout file directory keep
    (fun location hlocation => by
      obtain ⟨record, _, hreads⟩ := exists_left_of_forall₂ h.reads hlocation
      exact ⟨_, hreads.members⟩) band hashes hword output
  exact ⟨result, hresult, fun member => mem_collectMembers_iff
    (h.reads.imp fun _ _ hread => hread.mayReadAs) h.ascending hword hresult member⟩

end Collecting

end Pari.Store
