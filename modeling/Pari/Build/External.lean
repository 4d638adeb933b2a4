/-
# The bounded builder

`build_external` checks its source, spills, merges and assembles, copies the sections of the
source and the segments into one container, and publishes it without replacing anything. What it
publishes is a function of the source alone, whatever the bound on its buffer.
-/

import Pari.Build.Assemble
import Pari.Store.Runs

namespace Pari.Build

open Data Pari.Format Pari.Store

/-! ## The container -/

def fileMagic : Bytes := [80, 65, 82, 73, 73, 68, 88, 0]

def algorithmRaw : Algorithm → UInt16
  | .minHashLsh => 1

def schemeRaw : SignatureScheme → UInt16
  | .pariAffine32V1 => 1
  | .pariAffine64V1 => 2

def codecRaw : CodecId → UInt16
  | .bytes => 1
  | .utf8 => 2
  | .u64 => 3
  | .i64 => 4
  | .json => 5

def sectionKindRaw : SectionKind → UInt16
  | .keys => 1
  | .bandHashes => 2
  | .buckets => 3
  | .tombstones => 4

/-- The first 64 bytes of the builder's header; those it leaves zero are written as zeros. -/
def encodeHeaderFields (metadata : IndexMetadata) (sectionCount : UInt32) : Bytes :=
  fileMagic ++ (u16Bytes 1 ++ (u16Bytes 72 ++ (u16Bytes (algorithmRaw metadata.algorithm) ++
    (u16Bytes (schemeRaw metadata.signatureScheme) ++
    (u16Bytes metadata.signatureScheme.widthBits ++ (u16Bytes (codecRaw metadata.keyCodec) ++
    (u32Bytes metadata.numPerm ++ (u32Bytes metadata.bands ++ (u32Bytes metadata.rows ++
    (u32Bytes sectionCount ++ ([0, 0, 0, 0] ++ (u64Bytes metadata.seed ++
    (u64Bytes metadata.threshold.bits ++ u64Bytes metadata.featureFlags)))))))))))))

/-- `encode_header`. -/
def encodeHeader (crc : Checksum) (metadata : IndexMetadata) (sectionCount : UInt32) : Bytes :=
  encodeHeaderFields metadata sectionCount ++
    (u32Bytes (crc.hash (encodeHeaderFields metadata sectionCount)) ++ [0, 0, 0, 0])

def encodeSectionHeader (kind : SectionKind) (payloadLength : Nat) (checksum : UInt32) : Bytes :=
  u16Bytes (sectionKindRaw kind) ++ (u16Bytes 1 ++
    (u64Bytes (UInt64.ofNat payloadLength) ++ u32Bytes checksum))

def copyFramedSourceSection (file : Bytes) (kind : SectionKind) (descriptor : SectionDescriptor) :
    Except BuildError Bytes := do
  let chunks ← readChunks file descriptor.payloadOffset descriptor.payloadLength
  return encodeSectionHeader kind descriptor.payloadLength descriptor.checksum ++ chunks.flatten

/-- One turn of the loop over the segments. -/
def copySegment (segment : SegmentFile) : Method Scratch BuildError Bytes := do
  let payload ← Scratch.perform .io fun world => world.openRead segment.path
  return encodeSectionHeader .buckets segment.bytes segment.checksum ++ payload

def writeFinalContainer (crc : Checksum) (file : Bytes) (source : Source)
    (segments : List SegmentFile) (destinationTemp : Path) : Method Scratch BuildError Unit := do
  let count ← Method.lift (okOr (checkedAdd 2 segments.length) .lengthOverflow)
  let sectionCount ← Method.lift (okOr (tryU32 count) .lengthOverflow)
  let inode ← Scratch.perform .io fun world => world.createNew destinationTemp
  Scratch.perform .io World.readOn
  let keys ← Method.lift (copyFramedSourceSection file .keys source.keys)
  let bandHashes ← Method.lift (copyFramedSourceSection file .bandHashes source.bandHashes)
  let payloads ← segments.mapM copySegment
  Scratch.perform .io fun world => world.writeSynced inode
    (encodeHeader crc source.layout.metadata sectionCount ++
      (keys ++ (bandHashes ++ payloads.flatten)))

/-! ## The builder -/

/-- Measured construction state. -/
structure BuildStats where
  records : Nat
  spillRuns : Nat
  peakBufferedRecords : Nat
  buckets : Nat
  outputBytes : Nat
  deriving DecidableEq, Repr

/-- From the checked source to the file that is ready to be published. -/
def stageOutput (crc : Checksum) (file : Bytes) (source : Source) (destination : Path)
    (nonce : Nat) (options : BuildOptions) : Method Scratch BuildError BuildStats := do
  let runs ← spillRuns file source destination nonce options
  let records ← Method.lift (okOr (checkedMul source.itemCount source.bands) .lengthOverflow)
  let descriptors := tempPath destination nonce "descriptors"
  let memberships := tempPath destination nonce "memberships"
  Scratch.track [descriptors, memberships]
  let buckets ← mergeRuns crc runs descriptors memberships
  let segments ← assembleSegments crc descriptors memberships destination nonce
  let destinationTemp := tempPath destination nonce "commit"
  Scratch.track [destinationTemp]
  writeFinalContainer crc file source segments destinationTemp
  let outputBytes ← Scratch.perform .io fun world => world.metadataLength destinationTemp
  return {
    records
    spillRuns := runs.length
    peakBufferedRecords := min options.maxBufferRecords records
    buckets
    outputBytes }

/-- What happens while the temporary files are tracked. -/
def buildTracked (crc : Checksum) (file : Bytes) (source : Source) (destination : Path)
    (nonce : Nat) (options : BuildOptions) : Method Scratch BuildError BuildStats := do
  let stats ← stageOutput crc file source destination nonce options
  Scratch.perform id (publishNoReplace (tempPath destination nonce "commit") destination)
  return stats

/-- Build a canonical lazy paged index with bounded construction memory. -/
def buildExternal (crc : Checksum) (sourcePath destination : Path) (options : BuildOptions)
    (clock : Option Nat) (world : World) : Except BuildError BuildStats × World :=
  if options.maxBufferRecords = 0 then
    (.error (.invalidOptions "max_buffer_records must be positive"), world)
  else
    match world.pathExists destination with
    | (true, world) => (.error (.alreadyExists destination), world)
    | (false, world) =>
        match world.openRead sourcePath with
        | (.error error, world) => (.error (.io error), world)
        | (.ok file, world) =>
            match world.readOn with
            | (.error error, world) => (.error (.io error), world)
            | (.ok (), world) =>
                match readSource crc file with
                | .error error => (.error error, world)
                | .ok source =>
                    match buildNonce clock world.processId with
                    | .error error => (.error error, world)
                    | .ok nonce =>
                        let (result, scratch) := call { paths := [], world }
                          (buildTracked crc file source destination nonce options)
                        -- The temporary files are dropped on every way out.
                        (result, scratch.drop)

/-- A build that gets as far as tracking temporary names. -/
theorem buildExternal_of_accepted {crc : Checksum} {sourcePath destination : Path}
    {options : BuildOptions} {clock : Option Nat} {world looked opened checked : World}
    {file : Bytes} {source : Source} {nonce : Nat} (hbuffer : options.maxBufferRecords ≠ 0)
    (hpath : world.pathExists destination = (false, looked))
    (hopen : looked.openRead sourcePath = (.ok file, opened))
    (hread : opened.readOn = (.ok (), checked)) (haccepted : readSource crc file = .ok source)
    (hnonce : buildNonce clock checked.processId = .ok nonce) :
    buildExternal crc sourcePath destination options clock world =
      ((call ⟨[], checked⟩ (buildTracked crc file source destination nonce options)).1,
        (call ⟨[], checked⟩ (buildTracked crc file source destination nonce options)).2.drop) := by
  unfold buildExternal
  rw [if_neg hbuffer, hpath]
  dsimp only
  rw [hopen]
  dsimp only
  rw [hread]
  dsimp only
  rw [haccepted]
  dsimp only
  rw [hnonce]

/-! ## The container that is written -/

/-- The sections of an output: those of the source, and the segments of its buckets. -/
def outputSections (crc : Checksum) (items : List (UInt64 × List UInt64)) : List KnownSection :=
  snapshotSections crc (countedKeys (items.map Prod.fst)) (countedRows (items.map Prod.snd))
    (segmentsOf (sourceBuckets items))

/-- What is published: a function of the metadata and the items of the source. -/
def outputBytes (crc : Checksum) (metadata : IndexMetadata)
    (items : List (UInt64 × List UInt64)) : Bytes :=
  containerBytes crc metadata ((outputSections crc items).map KnownSection.frame)

section Writing

variable {crc : Checksum} {file : Bytes} {source : Source} {items : List (UInt64 × List UInt64)}
  {destination destinationTemp : Path} {nonce : Nat} {options : BuildOptions} {before : Scratch}

/-- The builder's header is that of the format. -/
theorem encodeHeader_eq (metadata : IndexMetadata) (sectionCount : UInt32) :
    encodeHeader crc metadata sectionCount = Format.encodeHeader crc metadata sectionCount := by
  have hfields : encodeHeaderFields metadata sectionCount = headerFields metadata sectionCount := by
    have halgorithm : algorithmRaw metadata.algorithm = metadata.algorithm.asRaw := by
      cases metadata.algorithm <;> rfl
    have hscheme : schemeRaw metadata.signatureScheme = metadata.signatureScheme.asRaw := by
      cases metadata.signatureScheme <;> rfl
    have hcodec : codecRaw metadata.keyCodec = metadata.keyCodec.asRaw := by
      cases metadata.keyCodec <;> rfl
    rw [encodeHeaderFields, halgorithm, hscheme, hcodec]
    rfl
  rw [encodeHeader, hfields]
  rfl

/-- A section header in front of its payload is the frame of a required section. -/
theorem encodeSectionHeader_append {kind : SectionKind} {checksum : UInt32} {payload : Bytes} :
    encodeSectionHeader kind payload.length checksum ++ payload =
      (KnownSection.frame ⟨kind, true, checksum, payload⟩).bytes := by
  have hkind : sectionKindRaw kind = kind.asRaw := by cases kind <;> rfl
  rw [encodeSectionHeader, hkind]
  rfl

/-- A section of the source is copied with its frame. -/
theorem copyFramedSourceSection_eq_ok (hdescribes : source.layout.Describes file)
    {kind : SectionKind} {descriptor : SectionDescriptor}
    (hmem : descriptor ∈ source.layout.sections) {payload : Bytes}
    (hview : descriptor.view file = metadataKnown crc kind payload) :
    copyFramedSourceSection file kind descriptor =
      .ok (metadataKnown crc kind payload).frame.bytes := by
  obtain ⟨chunks, hchunks, hflatten⟩ := readChunks_of_le (hdescribes.within _ hmem)
  have hpayload : descriptor.payloadIn file = payload := congrArg KnownSection.payload hview
  have hchecksum : descriptor.checksum = crc.hash payload := congrArg KnownSection.checksum hview
  have hlength := length_payloadIn hdescribes hmem
  have hwindow : window descriptor.payloadOffset descriptor.payloadLength file = payload := hpayload
  rw [hpayload] at hlength
  rw [copyFramedSourceSection, hchunks, ok_bind, hflatten, hwindow, ← hlength, hchecksum,
    encodeSectionHeader_append]
  rfl

/-- What is copied for a segment, if its file can be read. -/
def copiedSegment (files : FileSystem) (segment : SegmentFile) : Bytes :=
  encodeSectionHeader .buckets segment.bytes segment.checksum ++
    (files.read segment.path.location).getD []

theorem copiedSegment_eq {files : FileSystem} {index : Nat} {group : List BucketRecord}
    (h : files.read (bucketPath destination nonce index).location = some (segmentBytes crc group)) :
    copiedSegment files (segmentFile crc destination nonce index group) =
      (segmentSection crc group).frame.bytes := by
  unfold copiedSegment segmentFile
  rw [h, Option.getD_some, ← length_segmentBytes crc, encodeSectionHeader_append]
  rfl

/-- The segment files are copied with their frames. -/
theorem makes_copySegments {base : FileSystem} {owned : List Path}
    {groups : List (List BucketRecord)} (hadds : FileSystem.Adds owned base before.world.files)
    (hholds : HoldsSegments crc destination nonce 0 groups before.world.files) :
    Makes base owned (fun payloads after =>
        payloads.flatten = framesBytes (groups.map fun group => (segmentSection crc group).frame) ∧
          after.world.files = before.world.files)
      ((segmentFiles crc destination nonce 0 groups).mapM copySegment) before := by
  have hread : ∀ slot ∈ groups.zipIdx, before.world.files.read
      (bucketPath destination nonce slot.2).location = some (segmentBytes crc slot.1) := by
    intro slot hslot
    have hhere := hholds slot.2 slot.1 (List.mem_zipIdx_iff_getElem?.mp hslot)
    rw [Nat.zero_add] at hhere
    exact hhere.read
  have hcopied : (segmentFiles crc destination nonce 0 groups).map
      (copiedSegment before.world.files) =
        groups.map fun group => (segmentSection crc group).frame.bytes := by
    calc (segmentFiles crc destination nonce 0 groups).map (copiedSegment before.world.files)
      _ = (groups.zipIdx.map Prod.fst).map fun group => (segmentSection crc group).frame.bytes := by
          rw [segmentFiles, List.map_map, List.map_map]
          exact List.map_congr_left fun slot hslot => copiedSegment_eq (hread slot hslot)
      _ = groups.map fun group => (segmentSection crc group).frame.bytes := by
          rw [List.zipIdx_map_fst]
  have hloop : Makes base owned (fun payloads after => payloads =
        (segmentFiles crc destination nonce 0 groups).map (copiedSegment before.world.files) ∧
          after.world.files = before.world.files)
      ((segmentFiles crc destination nonce 0 groups).mapM copySegment) before := by
    apply Makes.mapM hadds
    intro segment hsegment state hstate
    obtain ⟨slot, hslot, rfl⟩ := List.mem_map.mp hsegment
    have hopen : Makes base owned (fun bytes after =>
        before.world.files.read (bucketPath destination nonce slot.2).location = some bytes ∧
          after.world.files = before.world.files)
        (Scratch.perform BuildError.io fun world =>
          world.openRead (bucketPath destination nonce slot.2)) state :=
      Makes.openRead (hstate ▸ hadds) (hstate ▸ hread slot hslot) fun _ hafter =>
        ⟨hread slot hslot, hafter.trans hstate⟩
    apply hopen.bind
    rintro bytes after hafterAdds ⟨hbytes, hafter⟩
    apply Makes.lift hafterAdds
    refine ⟨?_, hafter⟩
    exact congrArg (encodeSectionHeader _ _ _ ++ Option.getD · []) hbytes.symm
  apply hloop.imp
  rintro _ after ⟨rfl, hafter⟩
  refine ⟨?_, hafter⟩
  rw [hcopied, framesBytes, List.flatMap_map, List.flatMap_def]

/-- The container is written with the sections of the source and the segments. -/
theorem meets_writeFinalContainer (hsource : source.Reads crc file items)
    (hcount : (segmentsOf (sourceBuckets items)).length + 2 < 2 ^ 32)
    (hholds : HoldsSegments crc destination nonce 0 (segmentsOf (sourceBuckets items))
      before.world.files) :
    Meets [[destinationTemp]] (fun _ after => after.world.files.Holds destinationTemp.location
        (outputBytes crc source.layout.metadata items))
      (Scratch.track [destinationTemp] >>= fun _ => writeFinalContainer crc file source
        (segmentFiles crc destination nonce 0 (segmentsOf (sourceBuckets items))) destinationTemp)
      before := by
  have hlength : (segmentFiles crc destination nonce 0 (segmentsOf (sourceBuckets items))).length =
      (segmentsOf (sourceBuckets items)).length := by
    rw [segmentFiles, List.length_map, List.length_zipIdx]
  have hdescribes := hsource.holds.describes
  have hkeys := copyFramedSourceSection_eq_ok hdescribes (mem_of_filter_kind hsource.keys).1
    hsource.view_keys
  have hbandHashes := copyFramedSourceSection_eq_ok hdescribes
    (mem_of_filter_kind hsource.bandHashes).1 hsource.view_bandHashes
  have hword : tryU32 (2 + (segmentsOf (sourceBuckets items)).length) =
      some (UInt32.ofNat (2 + (segmentsOf (sourceBuckets items)).length)) :=
    tryU32_of_lt (by omega)
  have hbytes : outputBytes crc source.layout.metadata items =
      encodeHeader crc source.layout.metadata
          (UInt32.ofNat (2 + (segmentsOf (sourceBuckets items)).length)) ++
        ((metadataKnown crc .keys (countedKeys (items.map Prod.fst))).frame.bytes ++
          ((metadataKnown crc .bandHashes (countedRows (items.map Prod.snd))).frame.bytes ++
            framesBytes ((segmentsOf (sourceBuckets items)).map fun group =>
              (segmentSection crc group).frame))) := by
    rw [encodeHeader_eq, outputBytes, containerBytes, outputSections, snapshotSections,
      List.map_cons, List.map_cons, List.map_map, List.length_cons, List.length_cons,
      List.length_map, Nat.add_comm 2]
    rfl
  unfold writeFinalContainer
  rw [hlength, checkedAdd_of_lt (by omega), okOr_some]
  show Meets _ _ (Scratch.track [destinationTemp] >>= fun _ =>
    Method.lift (okOr (tryU32 (2 + (segmentsOf (sourceBuckets items)).length)) _) >>= _) before
  rw [hword, okOr_some]
  apply Meets.of_created
  intro middle hfree hmiddle
  have hadds : FileSystem.Adds [destinationTemp] before.world.files middle.world.files := by
    rw [hmiddle]
    exact (FileSystem.Adds.refl _ _).create (List.mem_singleton_self _) hfree
  have hread : Makes before.world.files [destinationTemp]
      (fun _ after => after.world.files = middle.world.files)
      (Scratch.perform BuildError.io World.readOn) middle :=
    Makes.readOn hadds fun after hafter => hafter
  apply hread.bind
  intro _ reading hreadingAdds hreading
  rw [hkeys, hbandHashes]
  apply (makes_copySegments hreadingAdds fun index group hgroup =>
    hreadingAdds.keeps.holds (hholds index group hgroup)).bind
  rintro payloads copied hcopiedAdds ⟨hpayloads, hcopied⟩
  rw [hreading, hmiddle] at hcopied
  rw [hpayloads, ← hbytes]
  apply Makes.writeCreated hfree hcopied
  intro after hafter
  show after.files.Holds _ _
  rw [hafter]
  exact FileSystem.holds_staged

/-! ## The temporary names -/

/-- The temporary names of a build, in the groups in which they are tracked. -/
def temporaryNames (destination : Path) (nonce : Nat) (options : BuildOptions)
    (items : List (UInt64 × List UInt64)) : List (List Path) :=
  numbered (runPath destination nonce) 0
      (piecesOf options.maxBufferRecords (spillRecords items)).length ++
    ([[tempPath destination nonce "descriptors", tempPath destination nonce "memberships"]] ++
      (numbered (bucketPath destination nonce) 0 (segmentsOf (sourceBuckets items)).length ++
        [[tempPath destination nonce "commit"]]))

theorem begins_runs {start stop : Nat} :
    ∀ path ∈ (numbered (runPath destination nonce) start stop).flatten,
      Begins destination nonce ['r'] path := by
  intro path hpath
  obtain ⟨index, _, _, rfl⟩ := mem_flatten_numbered_iff.mp hpath
  exact begins_runPath

theorem begins_commit : ∀ path ∈ [[tempPath destination nonce "commit"]].flatten,
    Begins destination nonce ['c'] path := by
  intro path hpath
  rw [List.flatten_singleton, List.mem_singleton] at hpath
  exact ⟨_, hpath, 'c', List.mem_singleton_self _, rfl⟩

theorem begins_buckets {start stop : Nat} :
    ∀ path ∈ (numbered (bucketPath destination nonce) start stop).flatten,
      Begins destination nonce ['b'] path := by
  intro path hpath
  obtain ⟨index, _, _, rfl⟩ := mem_flatten_numbered_iff.mp hpath
  exact begins_bucketPath

theorem begins_merged : ∀ path ∈
    [[tempPath destination nonce "descriptors", tempPath destination nonce "memberships"]].flatten,
      Begins destination nonce ['d', 'm'] path := by
  intro path hpath
  rw [List.flatten_singleton] at hpath
  rcases List.mem_pair.mp hpath with rfl | rfl
  · exact ⟨_, rfl, 'd', by decide, rfl⟩
  · exact ⟨_, rfl, 'm', by decide, rfl⟩

theorem begins_temporaryNames : ∀ path ∈ (temporaryNames destination nonce options items).flatten,
    Begins destination nonce (['r'] ++ (['d', 'm'] ++ (['b'] ++ ['c']))) path :=
  begins_append begins_runs (begins_append begins_merged (begins_append begins_buckets begins_commit))

/-- From a source that the builder accepts, staging writes its output, and only a fault or a taken
name stops it. -/
theorem meets_stageOutput (hcrc : crc.Incremental) (hsource : source.Reads crc file items)
    (hfits : bufferFits options) :
    Meets (temporaryNames destination nonce options items)
      (fun _ after => after.world.files.Holds (tempPath destination nonce "commit").location
        (outputBytes crc source.layout.metadata items))
      (stageOutput crc file source destination nonce options) before := by
  have hlimits := hsource.length_le
  have hrecords := length_spillRecords hsource.width
  have hmax : maxSectionBytes = 268435456 := rfl
  have hfew : (spillRecords items).length < 2 ^ 26 := by
    have hwords : items.length * (source.bands * 8) = items.length * source.bands * 8 := by ring
    omega
  have hpieces : (piecesOf options.maxBufferRecords (spillRecords items)).flatten =
      spillRecords items := flatten_piecesOf
  have htotal := @totalSize_sourceBuckets_le items
  have hgroups := @length_segmentsOf_le items
  unfold stageOutput temporaryNames
  apply (meets_spillRuns hsource hfits).bind
  · apply apart_of_begins begins_runs
      (begins_append begins_merged (begins_append begins_buckets begins_commit))
    simp
  rintro _ spilled - ⟨rfl, hruns⟩
  rw [hsource.itemCount, checkedMul_of_lt (by omega), okOr_some, Method.lift_ok_bind]
  dsimp only
  rw [← bind_assoc]
  have hmerge := @meets_mergeRuns crc destination (tempPath destination nonce "descriptors")
    (tempPath destination nonce "memberships") nonce _ spilled hcrc (tempPath_ne (by decide))
    (by rw [hpieces]; omega) hruns
  rw [hpieces] at hmerge
  apply hmerge.bind
  · apply apart_of_begins begins_merged (begins_append begins_buckets begins_commit)
    simp
  rintro _ merged - ⟨rfl, hdescriptors, hmemberships⟩
  apply (meets_assembleSegments hcrc ascending_sourceBuckets
    (fun record hrecord => (length_members_le hrecord).trans_lt (by omega))
    (by simp only [bucketSegmentHeaderBytes]; omega) hdescriptors hmemberships).bind
  · apply apart_of_begins begins_buckets begins_commit
    simp
  rintro _ assembled - ⟨rfl, hsegments⟩
  rw [← bind_assoc, ← List.append_nil [[tempPath destination nonce "commit"]]]
  apply (meets_writeFinalContainer hsource (by omega) hsegments).bind (apart_nil _)
  intro _ written _ hholds
  rw [← List.append_nil (List.nil : List (List Path))]
  have hlength : Meets [] (fun _ after => after.world.files.Holds
        (tempPath destination nonce "commit").location
          (outputBytes crc source.layout.metadata items))
      (Scratch.perform BuildError.io fun world =>
        world.metadataLength (tempPath destination nonce "commit")) written := by
    apply Meets.of_makes
    apply Makes.look (.refl _ _) (World.metadataLength_steps _)
    · intro hquiet
      obtain ⟨inode, hentry, _⟩ := hholds
      have hlookup := FileSystem.lookup_of_entry hentry
      have hcall : written.world.metadataLength (tempPath destination nonce "commit") =
          (.ok _, _) := World.call_of_quiet hquiet (by rw [hlookup])
      exact ⟨_, congrArg Prod.fst hcall⟩
    · intro _ _
      show (written.world.metadataLength _).2.files.Holds _ _
      rw [(World.metadataLength_steps _).holds]
      exact hholds
  apply hlength.bind (apart_nil _)
  exact fun _ _ _ hpublished => Meets.pure hpublished

/-- A buffer that cannot be allocated stops the build before anything is tracked. -/
theorem call_buildTracked_of_not_fits (hsource : source.Reads crc file items)
    (hfits : ¬ bufferFits options) :
    call ⟨[], world⟩ (buildTracked crc file source destination nonce options) =
      (.error .capacityOverflow, ⟨[], world⟩) := by
  have hbands : source.bands < 2 ^ 32 := by
    rw [hsource.bands]
    exact source.layout.metadata.bands.toNat_lt
  unfold buildTracked stageOutput spillRuns
  rw [checkedMul_of_lt (by omega), okOr_some, rejectIf, if_pos hfits]
  rfl

end Writing

/-! ## A source of one item -/

/-- The metadata of an index with one band of one row. -/
def oneBandMetadata : IndexMetadata where
  algorithm := .minHashLsh
  signatureScheme := .pariAffine32V1
  keyCodec := .u64
  numPerm := 1
  seed := 1
  threshold := ⟨0x3FE0000000000000⟩
  bands := 1
  rows := 1
  featureFlags := 0
  valid := by decide

def oneItem : List (UInt64 × List UInt64) := [(1, [5])]

def oneItemFile : Bytes :=
  containerBytes Checksum.crc32 oneBandMetadata
    ((sectionsWith Checksum.crc32 oneItem []).map KnownSection.frame)

def inPath : Path := ⟨"", some "in.pari"⟩

def outPath : Path := ⟨"", some "out.pari"⟩

/-- A source, and nothing else. -/
def sourceWorld : World := worldHolding inPath.location oneItemFile

theorem exists_reads_oneItem :
    ∃ source : Source, source.Reads Checksum.crc32 oneItemFile oneItem := by
  obtain ⟨layout, hholds, -⟩ := @exists_sourceHolds Checksum.crc32 oneBandMetadata oneItem []
    rfl rfl (by decide) (by decide) nofun (by decide)
  obtain ⟨source, hreads, -⟩ := exists_reads hholds
  exact ⟨source, hreads⟩

/-- No temporary name is taken beside a source. -/
theorem free_worldHolding {nonce : Nat} {heads : List Char} {path : Path} {file : Bytes}
    (h : Begins outPath nonce heads path) :
    (worldHolding inPath.location file).files.entries path.location = none := by
  have hother : path.location ≠ inPath.location := location_ne_of_begins h (by decide)
  exact Function.update_of_ne hother (some (Entry.file 0)) fun _ => none

theorem read_worldHolding {path : Path} {file : Bytes} :
    (worldHolding path.location file).files.read path.location = some file := by
  have hentry : (worldHolding path.location file).files.entries path.location = some (.file 0) := by
    simp [worldHolding]
  rw [FileSystem.read_of_entry hentry]
  rfl

end Pari.Build
