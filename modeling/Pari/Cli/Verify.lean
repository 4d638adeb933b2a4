/-
# Verifying a file

`pari verify` scans the layout of a file, opens it as the index its metadata names, and then
reads every section, every bucket directory and every member list. What it accepts therefore
opens, and no later query can run into a bucket that does not read. Progress reports and the
printed summary are left out.
-/

import Pari.Store.Flips
import Pari.Store.Steps

namespace Pari.Cli

open Data Pari.Format Pari.Core Pari.Index Pari.Store

/-- The errors `verify` passes on. -/
inductive VerifyError
  | layout (error : LayoutError)
  | store (error : StoreError)
  | bucket (error : BucketError)
  | memberCountOverflow
  deriving DecidableEq, Repr

structure VerifyResult where
  valid : Bool
  sections : Nat
  bucketSections : Nat
  buckets : Nat
  membersChecked : Nat
  deriving DecidableEq, Repr

section Verifying

variable (crc : Checksum)

/-- Open the file as an index of the scheme its metadata names, and drop it again. -/
def openAs (path : Path) (file : Bytes) : SignatureScheme → Except StoreError Unit
  | .pariAffine32V1 => do
      let _index : PersistentIndex32 ← PersistentIndexCore.openFile crc path file
      return ()
  | .pariAffine64V1 => do
      let _index : PersistentIndex64 ← PersistentIndexCore.openFile crc path file
      return ()

variable (layout : FileLayout) (file : Bytes)

/-- One turn of the section loop: the bucket sections so far and their locations. -/
def verifySection (bands : Nat) (found : Nat × List BucketLocation)
    (descriptor : SectionDescriptor) : Except VerifyError (Nat × List BucketLocation) := do
  let _payload ← (layout.readSection crc file descriptor).mapError .layout
  if descriptor.kind = .buckets then do
    let segment ← (decodeBucketSegment crc layout file descriptor bands).mapError .bucket
    return (found.1 + 1, found.2 ++ segment)
  else return found

/-- One turn of the member loop. -/
def verifyMembers (membersChecked : Nat) (location : BucketLocation) : Except VerifyError Nat := do
  let members ← (readBucketMembers crc layout file location).mapError .bucket
  okOr (checkedAdd membersChecked members.length) .memberCountOverflow

/-- `pari verify`, on the bytes of the file. -/
def verify (path : Path) (file : Bytes) : Except VerifyError VerifyResult := do
  let layout ← (FileLayout.readFrom crc file).mapError .layout
  (openAs crc path file layout.metadata.signatureScheme).mapError .store
  let (bucketSections, locations) ← layout.sections.foldlM
    (verifySection crc layout file layout.metadata.bands.toNat) (0, [])
  (validateGlobalBucketOrder locations).mapError .bucket
  let membersChecked ← locations.foldlM (verifyMembers crc layout file) 0
  return {
    valid := true
    sections := layout.sections.length
    bucketSections
    buckets := locations.length
    membersChecked }

end Verifying

/-! ## What verification has checked -/

section Loops

variable {crc : Checksum} {layout : FileLayout} {file : Bytes}

theorem openAs_eq_ok_iff {path : Path} {scheme : SignatureScheme} {result : Unit} :
    openAs crc path file scheme = .ok result ↔
      succeeds (PersistentIndexCore.openFile crc path file :
        Except StoreError (PersistentIndexCore scheme)) := by
  cases scheme <;>
    simp only [openAs, Data.succeeds, bind_eq_ok_iff, pure_eq_ok_iff, and_true]

/-- The section loop reads every section and decodes the bucket sections one after another. -/
theorem foldlM_verifySection {ε : Type} {errors : ErrorWrapping ε} {bands : Nat}
    {descriptors : List SectionDescriptor} {found result : Nat × List BucketLocation} :
    descriptors.foldlM (verifySection crc layout file bands) found = .ok result ↔
      (∀ descriptor ∈ descriptors, succeeds (layout.readSection crc file descriptor)) ∧
      result.1 = found.1 + (descriptors.filter (·.kind = .buckets)).length ∧
      (descriptors.filter (·.kind = .buckets)).foldlM (fun directory descriptor => do
        let segment ← (decodeBucketSegment crc layout file descriptor bands).mapError errors.bucket
        return directory ++ segment) found.2 = .ok result.2 := by
  induction descriptors generalizing found with
  | nil =>
      simp only [List.foldlM_nil, pure_eq_ok_iff, List.not_mem_nil, false_implies, implies_true,
        List.filter_nil, List.length_nil, Nat.add_zero, true_and]
      rw [Prod.ext_iff, eq_comm]
  | cons descriptor descriptors ih =>
      rw [List.foldlM_cons, List.forall_mem_cons]
      by_cases hkind : descriptor.kind = .buckets
      · simp only [verifySection, hkind, if_true, bind_eq_ok_iff, mapError_eq_ok_iff, pure_eq_ok_iff,
          List.filter_cons, decide_true, List.length_cons, List.foldlM_cons, Data.succeeds]
        constructor
        · rintro ⟨_, ⟨payload, hpayload, segment, hsegment, rfl⟩, hrest⟩
          obtain ⟨hreads, hcount, hfold⟩ := ih.mp hrest
          exact ⟨⟨⟨payload, hpayload⟩, hreads⟩, by omega, _, ⟨segment, hsegment, rfl⟩, hfold⟩
        · rintro ⟨⟨⟨payload, hpayload⟩, hreads⟩, hcount, _, ⟨segment, hsegment, rfl⟩, hfold⟩
          exact ⟨_, ⟨payload, hpayload, segment, hsegment, rfl⟩,
            ih.mpr ⟨hreads, by simp only; omega, hfold⟩⟩
      · simp only [verifySection, hkind, if_false, bind_eq_ok_iff, mapError_eq_ok_iff, pure_eq_ok_iff,
          List.filter_cons, decide_false, Bool.false_eq_true, Data.succeeds]
        constructor
        · rintro ⟨_, ⟨payload, hpayload, rfl⟩, hrest⟩
          obtain ⟨hreads, hbuckets⟩ := ih.mp hrest
          exact ⟨⟨⟨payload, hpayload⟩, hreads⟩, hbuckets⟩
        · rintro ⟨⟨⟨payload, hpayload⟩, hreads⟩, hbuckets⟩
          exact ⟨_, ⟨payload, hpayload, rfl⟩, ih.mpr ⟨hreads, hbuckets⟩⟩

/-- The member loop reads every location, and counts. -/
theorem foldlM_verifyMembers {locations : List BucketLocation} {start : Nat} :
    succeeds (locations.foldlM (verifyMembers crc layout file) start) → ∀ location ∈ locations,
      succeeds (readBucketMembers crc layout file location) := by
  rintro ⟨total, htotal⟩
  induction locations generalizing start with
  | nil => simp
  | cons location locations ih =>
      simp only [List.foldlM_cons, verifyMembers, bind_eq_ok_iff, mapError_eq_ok_iff] at htotal
      obtain ⟨next, ⟨members, hmembers, _⟩, hrest⟩ := htotal
      exact List.forall_mem_cons.mpr ⟨⟨members, hmembers⟩, ih hrest⟩

/-- The number of members the locations announce. -/
def announcedMembers (locations : List BucketLocation) : Nat :=
  (locations.map (·.memberCount.toNat)).sum

theorem exists_foldlM_verifyMembers {locations : List BucketLocation} {start : Nat}
    (hdescribes : layout.Describes file)
    (hcontainers : ∀ location ∈ locations, location.container ∈ layout.sections)
    (hreads : ∀ location ∈ locations, succeeds (readBucketMembers crc layout file location))
    (htotal : start + announcedMembers locations < 2 ^ 64) :
    succeeds (locations.foldlM (verifyMembers crc layout file) start) := by
  induction locations generalizing start with
  | nil => exact ⟨start, rfl⟩
  | cons location locations ih =>
      rw [List.forall_mem_cons] at hcontainers hreads
      obtain ⟨members, hmembers⟩ := hreads.1
      have hlength : members.length = location.memberCount.toNat := by
        obtain ⟨hend, hwindow, _⟩ :=
          (readBucketMembers_eq_ok_iff hdescribes hcontainers.1).mp hmembers
        have hbytes := congrArg List.length hwindow
        rw [length_window (by rw [length_payloadIn hdescribes hcontainers.1]; exact hend),
          length_u64List] at hbytes
        omega
      rw [announcedMembers, List.map_cons, List.sum_cons, ← announcedMembers, ← Nat.add_assoc,
        ← hlength] at htotal
      obtain ⟨total, hrest⟩ := ih hcontainers.2 hreads.2 htotal
      refine ⟨total, ?_⟩
      rw [List.foldlM_cons, verifyMembers, hmembers, mapError_ok, ok_bind,
        checkedAdd_of_lt (by omega), okOr_some, ok_bind]
      exact hrest

/-- Accepted sections are few and bounded. -/
theorem sections_bounded (hread : FileLayout.readFrom crc file = .ok layout) :
    layout.sections.length ≤ maxSectionCount ∧
      ∀ descriptor ∈ layout.sections, descriptor.payloadLength ≤ maxSectionBytes := by
  obtain ⟨hdescribes, frames, hcount, haccepted, _, hview⟩ := readFrom_spec hread
  refine ⟨?_, fun descriptor hmem => ?_⟩
  · have hlength := congrArg List.length hview
    rw [List.length_map] at hlength
    exact hlength ▸ le_trans (List.length_filterMap_le _ _) hcount
  · have hknown := List.mem_map_of_mem (f := SectionDescriptor.view file) hmem
    rw [hview, List.mem_filterMap] at hknown
    obtain ⟨frame, hframe, hknown⟩ := hknown
    simp only [Frame.known?, Option.map_eq_some_iff] at hknown
    obtain ⟨_, _, hknown⟩ := hknown
    have hpayload : frame.payload = descriptor.payloadIn file := congrArg KnownSection.payload hknown
    rw [← length_payloadIn hdescribes hmem, ← hpayload]
    exact (haccepted frame hframe).bounded

@[simp]
theorem announcedMembers_append (first second : List BucketLocation) :
    announcedMembers (first ++ second) = announcedMembers first + announcedMembers second := by
  rw [announcedMembers, List.map_append, List.sum_append, announcedMembers, announcedMembers]

theorem announcedMembers_locationsFrom (descriptor : SectionDescriptor) (offset : Nat)
    (records : List BucketWriteRecord) :
    announcedMembers (locationsFrom descriptor offset records) ≤ memberTotal records ∧
      ∀ location ∈ locationsFrom descriptor offset records, location.container = descriptor := by
  induction records generalizing offset with
  | nil => exact ⟨Nat.le_refl 0, by simp [locationsFrom]⟩
  | cons record records ih =>
      obtain ⟨hle, hall⟩ := ih (offset + record.memberLength)
      refine ⟨?_, List.forall_mem_cons.mpr ⟨rfl, hall⟩⟩
      have hlength : record.memberLength = record.memberCount.toNat * 8 := rfl
      show record.memberCount.toNat + announcedMembers _ ≤ record.memberLength + memberTotal records
      omega

/-- What one decoded section announces fits in it, and lies in it. -/
theorem announcedMembers_decode (hdescribes : layout.Describes file)
    {descriptor : SectionDescriptor} {bands : Nat} {locations : List BucketLocation}
    (hmem : descriptor ∈ layout.sections)
    (hdecode : decodeBucketSegment crc layout file descriptor bands = .ok locations) :
    announcedMembers locations ≤ descriptor.payloadLength ∧
      ∀ location ∈ locations, location.container = descriptor := by
  obtain ⟨_, _, _, records, members, hpayload, hmembers, _, _, rfl⟩ :=
    (decodeBucketSegment_eq_ok_iff hdescribes hmem).mp hdecode
  have hlength := congrArg List.length hpayload
  rw [length_payloadIn hdescribes hmem, List.length_append, hmembers] at hlength
  obtain ⟨hle, hall⟩ :=
    announcedMembers_locationsFrom descriptor (memberStart records.length) records
  exact ⟨by omega, hall⟩

/-- The sections of a directory announce no more than they can hold. -/
theorem announcedMembers_sections {ε : Type} {errors : ErrorWrapping ε} {bands : Nat}
    (hread : FileLayout.readFrom crc file = .ok layout) {descriptors : List SectionDescriptor}
    {start directory : List BucketLocation}
    (hmem : ∀ descriptor ∈ descriptors, descriptor ∈ layout.sections)
    (hstart : ∀ location ∈ start, location.container ∈ layout.sections)
    (hfold : (descriptors.foldlM (fun directory descriptor => do
      let segment ← (decodeBucketSegment crc layout file descriptor bands).mapError errors.bucket
      return directory ++ segment) start) = .ok directory) :
    announcedMembers directory ≤ announcedMembers start + descriptors.length * maxSectionBytes ∧
      ∀ location ∈ directory, location.container ∈ layout.sections := by
  induction descriptors generalizing start with
  | nil =>
      obtain rfl := pure_eq_ok_iff.mp hfold
      exact ⟨by omega, hstart⟩
  | cons descriptor descriptors ih =>
      rw [List.forall_mem_cons] at hmem
      simp only [List.foldlM_cons, bind_eq_ok_iff, mapError_eq_ok_iff, pure_eq_ok_iff] at hfold
      obtain ⟨_, ⟨segment, hsegment, rfl⟩, hrest⟩ := hfold
      obtain ⟨hsmall, hcontainer⟩ := announcedMembers_decode (readFrom_spec hread).1 hmem.1 hsegment
      have hsection := (sections_bounded hread).2 descriptor hmem.1
      have hboth : ∀ location ∈ start ++ segment, location.container ∈ layout.sections := by
        intro location hlocation
        rcases List.mem_append.mp hlocation with hold | hnew
        · exact hstart location hold
        · rw [hcontainer location hnew]
          exact hmem.1
      obtain ⟨htotal, hall⟩ := ih hmem.2 hboth hrest
      refine ⟨?_, hall⟩
      rw [announcedMembers_append] at htotal
      rw [List.length_cons, Nat.succ_mul]
      omega

/-- What a whole directory announces is far below the range of the counter. -/
theorem announcedMembers_directory {ε : Type} {errors : ErrorWrapping ε} {bands : Nat}
    {directory : List BucketLocation} (hread : FileLayout.readFrom crc file = .ok layout)
    (hdirectory : readDirectory errors crc layout file bands
      (layout.sections.filter (·.kind = .buckets)) = .ok directory) :
    announcedMembers directory < 2 ^ 64 ∧
      ∀ location ∈ directory, location.container ∈ layout.sections := by
  obtain ⟨hfold, _⟩ := readDirectory_eq_ok_iff.mp hdirectory
  obtain ⟨htotal, hall⟩ := announcedMembers_sections hread
    (fun descriptor hmem => (List.mem_filter.mp hmem).1) (by simp) hfold
  refine ⟨?_, hall⟩
  have hsections := List.length_filter_le
    (fun descriptor : SectionDescriptor => decide (descriptor.kind = .buckets)) layout.sections
  have hlimit : maxSectionCount * maxSectionBytes < 2 ^ 64 := by decide
  have hproduct := Nat.mul_le_mul_right maxSectionBytes
    (le_trans hsections (sections_bounded hread).1)
  have hnone : announcedMembers [] = 0 := rfl
  omega

/-- What a file has passed that `verify` accepts. -/
structure Verified (crc : Checksum) (path : Path) (file : Bytes) (layout : FileLayout) : Prop where
  read : FileLayout.readFrom crc file = .ok layout
  opens : succeeds (PersistentIndexCore.openFile crc path file :
    Except StoreError (PersistentIndexCore layout.metadata.signatureScheme))
  sections : ∀ descriptor ∈ layout.sections, succeeds (layout.readSection crc file descriptor)
  buckets : ∃ directory, readDirectory StoreError.wrapping crc layout file
      layout.metadata.bands.toNat (layout.sections.filter (·.kind = .buckets)) = .ok directory ∧
    ∀ location ∈ directory, succeeds (readBucketMembers crc layout file location)

/-- Verification fails for no other reason: the member counter cannot overflow. -/
theorem succeeds_verify_iff {path : Path} :
    succeeds (verify crc path file) ↔ ∃ layout, Verified crc path file layout := by
  constructor
  · rintro ⟨result, h⟩
    simp only [verify, validateGlobalBucketOrder, bind_eq_ok_iff, mapError_eq_ok_iff,
      openAs_eq_ok_iff, Prod.exists, exists_const, rejectUnordered_eq_ok_iff,
      @foldlM_verifySection crc _ file _ StoreError.wrapping] at h
    obtain ⟨layout, hread, hopens, count, locations, ⟨hsections, _, hfold⟩, hascending, total,
      htotal, _⟩ := h
    exact ⟨layout, hread, hopens, hsections, locations,
      readDirectory_eq_ok_iff.mpr ⟨hfold, hascending⟩, foldlM_verifyMembers ⟨total, htotal⟩⟩
  · rintro ⟨layout, hread, hopens, hsections, directory, hdirectory, hmembers⟩
    obtain ⟨htotal, hcontainers⟩ := announcedMembers_directory hread hdirectory
    obtain ⟨total, hmemberLoop⟩ := @exists_foldlM_verifyMembers crc layout file directory 0
      (readFrom_spec hread).1 hcontainers hmembers (by omega)
    obtain ⟨hfold, hascending⟩ := readDirectory_eq_ok_iff.mp hdirectory
    have hloop : layout.sections.foldlM
        (verifySection crc layout file layout.metadata.bands.toNat) (0, []) =
          .ok (0 + (layout.sections.filter (·.kind = .buckets)).length, directory) :=
      (@foldlM_verifySection crc layout file _ StoreError.wrapping _ _ _ _).mpr
        ⟨hsections, rfl, hfold⟩
    have horder : validateGlobalBucketOrder directory = .ok () :=
      rejectUnordered_eq_ok_iff.mpr hascending
    have hopen : openAs crc path file layout.metadata.signatureScheme = .ok () :=
      openAs_eq_ok_iff.mpr hopens
    rw [verify, hread, mapError_ok, ok_bind, hopen, mapError_ok, ok_bind, hloop, ok_bind]
    dsimp only
    rw [horder, mapError_ok, ok_bind, hmemberLoop]
    exact ⟨_, rfl⟩

/-- Every section of a snapshot file has the checksum of its payload. -/
theorem readSection_of_snapshot {keys hashes : Bytes} {groups : List (List BucketRecord)}
    (h : IsSnapshot crc layout file keys hashes groups) {descriptor : SectionDescriptor}
    (hmem : descriptor ∈ layout.sections) : succeeds (layout.readSection crc file descriptor) := by
  have hknown := List.mem_map_of_mem (f := SectionDescriptor.view file) hmem
  have hchecksum : ∀ known ∈ snapshotSections crc keys hashes groups,
      crc.hash known.payload = known.checksum := by
    intro known hmem
    rw [snapshotSections, List.mem_cons, List.mem_cons, List.mem_map] at hmem
    rcases hmem with rfl | rfl | ⟨records, _, rfl⟩ <;> rfl
  rw [h.sections] at hknown
  exact ⟨_, (readSection_eq_ok_iff h.describes hmem).mpr ⟨rfl, hchecksum _ hknown⟩⟩

/-- Verification accepts every snapshot that is written. -/
theorem verify_encodeSnapshot {scheme : SignatureScheme} {core : PersistentIndexCore scheme}
    {bytes : Bytes} (h : core.encodeSnapshot crc = .ok bytes) (path : Path) :
    succeeds (verify crc path bytes) := by
  obtain ⟨layout, hencoded⟩ := PersistentIndexCore.encodeSnapshot_spec h
  obtain ⟨directory, hopen, hholds⟩ := hencoded.openFile path
  refine succeeds_verify_iff.mpr ⟨layout, hencoded.read, ?_,
    fun descriptor => readSection_of_snapshot hencoded.snapshot, directory, ?_, ?_⟩
  · rw [hencoded.metadata.signatureScheme]
    exact ⟨_, hopen⟩
  · obtain ⟨_, _, ⟨_, hnone⟩ | ⟨found, hfound, hbase, _⟩⟩ :=
      PersistentIndexCore.openFile_buckets hopen hencoded.read
    · cases hnone
    · obtain rfl : directory = found := congrArg LazyBase.buckets (Option.some.inj hbase)
      rw [hencoded.metadata.bands]
      exact hfound
  · intro location hlocation
    obtain ⟨record, _, hreads⟩ := exists_left_of_forall₂ hholds.reads hlocation
    exact ⟨_, hreads.members⟩

end Loops

/-! ## Queries after verification -/

/-- What insertions and removals make of an open index. -/
inductive Mutated {scheme : SignatureScheme} (core : PersistentIndexCore scheme) :
    PersistentIndexCore scheme → Prop
  | refl : Mutated core core
  | insertMany {core' : PersistentIndexCore scheme} (h : Mutated core core')
      (items : List (UInt64 × MinHash scheme)) : Mutated core (core'.insertMany items).2
  | remove {core' : PersistentIndexCore scheme} (h : Mutated core core') (key : UInt64) :
      Mutated core (core'.remove key).2

section Queries

variable {scheme : SignatureScheme} {core core' : PersistentIndexCore scheme} {crc : Checksum}
  {path : Path} {file : Bytes} {layout : FileLayout}

theorem base_insertPrepared (prepared : List (UInt64 × List UInt64)) :
    (core.insertPrepared prepared).base = core.base := by
  rw [PersistentIndexCore.insertPrepared]
  dsimp only
  induction prepared generalizing core with
  | nil => rfl
  | cons item prepared ih => exact ih

/-- Mutations leave the committed buckets and the configuration alone. -/
theorem Mutated.base_eq (h : Mutated core core') :
    core'.base = core.base ∧ core'.config = core.config := by
  induction h with
  | refl => exact ⟨rfl, rfl⟩
  | @insertMany core' _ items ih =>
      rcases core'.insertMany_cases items with ⟨error, herror⟩ | ⟨_, hok⟩
      · rw [herror]
        exact ih
      · rw [hok]
        have hmutates := @Mutates.insertPrepared _ core' (core'.config.rowsOf items)
        exact ⟨(base_insertPrepared _).trans ih.1, hmutates.config.trans ih.2⟩
  | @remove core' _ key ih =>
      rw [PersistentIndexCore.remove]
      split
      · exact ih
      · exact ih

/-- Every location of an index opened from a verified file reads. -/
theorem Verified.reads (h : Verified crc path file layout) {opened : PersistentIndexCore scheme}
    (hopen : PersistentIndexCore.openFile crc path file = .ok opened) :
    ∀ base, opened.base = some base → ∀ location ∈ base.buckets,
      succeeds (readBucketMembers crc base.layout base.file location) := by
  obtain ⟨layout', _, hread, hmetadata, _⟩ := PersistentIndexCore.openFile_eq_ok hopen
  obtain rfl := Except.ok.inj (hread.symm.trans h.read)
  obtain ⟨_, _, ⟨_, hnone⟩ | ⟨directory, hdirectory, hbase, _⟩⟩ :=
    PersistentIndexCore.openFile_buckets hopen h.read
  · intro base hsome
    rw [hnone] at hsome
    cases hsome
  · obtain ⟨verified, hverified, hreads⟩ := h.buckets
    rw [hmetadata.bands] at hverified
    obtain rfl := Except.ok.inj (hdirectory.symm.trans hverified)
    intro base hsome
    obtain rfl := Option.some.inj (hbase.symm.trans hsome)
    exact hreads

/-- A compatible query of an index whose committed locations all read succeeds. -/
theorem exists_query (hreads : ∀ base, core.base = some base → ∀ location ∈ base.buckets,
      succeeds (readBucketMembers crc base.layout base.file location)) {sketch : MinHash scheme}
    (hsketch : core.config.Compatible sketch) : succeeds (core.query crc sketch) := by
  have hbands := PersistentIndexCore.bandHashes_eq_ok_iff.mpr ⟨hsketch, rfl⟩
  rw [PersistentIndexCore.query, hbands, ok_bind]
  exact PersistentIndexCore.exists_queryHashes hreads hsketch.length_bandHashes

theorem exists_queryMany (hreads : ∀ base, core.base = some base → ∀ location ∈ base.buckets,
      succeeds (readBucketMembers crc base.layout base.file location))
    {sketches : List (MinHash scheme)}
    (hsketches : ∀ sketch ∈ sketches, core.config.Compatible sketch) :
    succeeds (core.queryMany crc sketches) := by
  have hbands : sketches.mapM core.bandHashes = .ok (sketches.map fun sketch =>
      computeBandHashes core.config.params sketch.signature) :=
    mapM_eq_ok_map fun sketch hmem =>
      PersistentIndexCore.bandHashes_eq_ok_iff.mpr ⟨hsketches sketch hmem, rfl⟩
  rw [PersistentIndexCore.queryMany, hbands, ok_bind]
  refine exists_mapM fun hashes hmem => ?_
  obtain ⟨sketch, hsketch, rfl⟩ := List.mem_map.mp hmem
  exact PersistentIndexCore.exists_queryHashes hreads (hsketches sketch hsketch).length_bandHashes

end Queries

/-- What verification accepts opens as an index of the scheme in its metadata, and whatever is
inserted and removed then, compatible queries succeed. -/
theorem exists_open_of_verify {crc : Checksum} {path : Path} {file : Bytes} {result : VerifyResult}
    (h : verify crc path file = .ok result) :
    ∃ (layout : FileLayout) (core : PersistentIndexCore layout.metadata.signatureScheme),
      FileLayout.readFrom crc file = .ok layout ∧
      PersistentIndexCore.openFile crc path file = .ok core ∧
      ∀ core', Mutated core core' →
        (∀ sketch, core.config.Compatible sketch → succeeds (core'.query crc sketch)) ∧
        ∀ sketches, (∀ sketch ∈ sketches, core.config.Compatible sketch) →
          succeeds (core'.queryMany crc sketches) := by
  obtain ⟨layout, hverified⟩ := succeeds_verify_iff.mp ⟨result, h⟩
  obtain ⟨core, hopen⟩ := hverified.opens
  refine ⟨layout, core, hverified.read, hopen, fun core' hmutated => ?_⟩
  obtain ⟨hbase, hconfig⟩ := hmutated.base_eq
  have hreads := hverified.reads hopen
  rw [← hbase] at hreads
  rw [← hconfig]
  exact ⟨fun _ => exists_query hreads, fun _ => exists_queryMany hreads⟩

/-- The snapshot of one key is accepted, and answers. -/
theorem exists_open_of_verify_one_item :
    ∃ (bytes : Bytes) (result : VerifyResult) (layout : FileLayout)
      (core : PersistentIndexCore layout.metadata.signatureScheme),
      verify Checksum.crc32 sampleCore.path bytes = .ok result ∧
      PersistentIndexCore.openFile Checksum.crc32 sampleCore.path bytes = .ok core ∧
      ∀ sketch, core.config.Compatible sketch → succeeds (core.query Checksum.crc32 sketch) := by
  obtain ⟨bytes, hencode⟩ := exists_encodeSnapshot_sampleCore
  obtain ⟨result, hresult⟩ := verify_encodeSnapshot hencode sampleCore.path
  obtain ⟨layout, core, _, hopen, hqueries⟩ := exists_open_of_verify hresult
  exact ⟨bytes, result, layout, core, hresult, hopen, (hqueries core .refl).1⟩

/-! ## Verification of damaged files -/

/-- Verification rejects a written snapshot with one flipped bit: where it still opens, the flip
lies in a bucket section, and verification reads all sections. -/
theorem verify_of_flip {crc : Checksum} {scheme : SignatureScheme}
    {core : PersistentIndexCore scheme} {bytes : Bytes} (hcrc : crc.DetectsFlips)
    (hencode : core.encodeSnapshot crc = .ok bytes) {position bit : Nat}
    (hposition : position < bytes.length) (hbit : bit < 8) (path : Path) :
    ∃ error, verify crc path (flipBit bytes position bit) = .error error := by
  cases hverify : verify crc path (flipBit bytes position bit) with
  | error error => exact ⟨error, rfl⟩
  | ok result =>
      obtain ⟨layout, hverified⟩ := succeeds_verify_iff.mp ⟨result, hverify⟩
      obtain ⟨opened, hopen⟩ := hverified.opens
      obtain ⟨layout', hread, _, _, _, _, _, _, hdamaged⟩ :=
        exists_isDamaged hcrc hencode (oneBit_flipBit hposition hbit) hopen
      obtain rfl := Except.ok.inj (hread.symm.trans hverified.read)
      obtain ⟨descriptor, hmem, hunreadable⟩ := hdamaged.exists_unreadable
      obtain ⟨payload, hpayload⟩ := hverified.sections descriptor hmem
      exact absurd hpayload (hunreadable payload)

/-- The snapshot of one key, with a flipped bit in its magic bytes. -/
theorem verify_of_flip_one_item :
    ∃ bytes error, sampleCore.encodeSnapshot Checksum.crc32 = .ok bytes ∧
      verify Checksum.crc32 sampleCore.path (flipBit bytes 0 0) = .error error := by
  obtain ⟨bytes, hencode⟩ := exists_encodeSnapshot_sampleCore
  have hlength := PersistentIndexCore.length_pos_of_encodeSnapshot hencode
  obtain ⟨error, herror⟩ := verify_of_flip Checksum.crc32_detectsFlips hencode hlength
    (by decide : 0 < 8) sampleCore.path
  exact ⟨bytes, error, hencode, herror⟩

end Pari.Cli
