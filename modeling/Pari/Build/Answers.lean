/-
# One answer from every file

A snapshot, what the in-memory builder makes of it and what the bounded builder makes of it are
the same bytes. The lazy index that opens them, the persistent index on the snapshot and an index
in memory with the same rows answer every compatible query alike.
-/

import Pari.Build.Output
import Pari.Lazy.Create
import Pari.Store.Runs

namespace Pari.Build

open Data Pari.Format Pari.Core Pari.Index Pari.Store

variable {scheme : SignatureScheme} {crc : Checksum} {config : LshConfig} {file output : Bytes}

/-! ## Batches of queries -/

/-- Preparing all items before the first answer makes no difference if all can be prepared. -/
theorem mapM_after_mapM {ε α β γ : Type} {items : List α} {prepare : α → Except ε β}
    {compute : α → β} {answer : β → Except ε γ}
    (h : ∀ item ∈ items, prepare item = .ok (compute item)) :
    (items.mapM prepare >>= fun prepared => prepared.mapM answer) =
      items.mapM fun item => prepare item >>= answer := by
  rw [mapM_eq_ok_map h, ok_bind, List.mapM_map]
  apply mapM_congr_of_mem
  intro item hitem
  rw [h item hitem, ok_bind]
  rfl

theorem queryMany_lazy {index : Lazy.LazyIndexCore scheme} {records : List BucketRecord}
    (h : index.Holds crc config records) {sketches : List (MinHash scheme)}
    (hsketches : ∀ sketch ∈ sketches, config.Compatible sketch) :
    index.queryMany crc sketches = sketches.mapM (index.query crc) :=
  mapM_after_mapM fun sketch hsketch => h.bandHashes (hsketches sketch hsketch)

theorem queryMany_persistent {core : PersistentIndexCore scheme} {sketches : List (MinHash scheme)}
    (hsketches : ∀ sketch ∈ sketches, core.config.Compatible sketch) :
    core.queryMany crc sketches = sketches.mapM (core.query crc) :=
  mapM_after_mapM fun sketch hsketch =>
    PersistentIndexCore.bandHashes_eq_ok_iff.mpr ⟨hsketches sketch hsketch, rfl⟩

/-! ## The outputs of a snapshot -/

/-- A snapshot is a source of its items, in the order of their keys. -/
theorem sourceHolds_of_encodeSnapshot {core : PersistentIndexCore scheme}
    (h : core.encodeSnapshot crc = .ok file) :
    ∃ layout, SourceHolds crc layout file core.items ∧ core.EncodedAs crc layout file ∧
      file = containerBytes crc layout.metadata (snapshotFrames crc core.items) := by
  obtain ⟨metadata, hmetadata, _, hfile⟩ := PersistentIndexCore.encodeSnapshot_eq_ok_iff.mp h
  obtain ⟨layout, hencoded⟩ := PersistentIndexCore.encodeSnapshot_spec h
  obtain ⟨hkeys, hhashes⟩ := hencoded.snapshot.metadataSections
  refine ⟨layout, ⟨hencoded.read, hencoded.metadata.keyCodec, hencoded.metadata.featureFlags, hkeys,
    hhashes, ?_⟩, hencoded, ?_⟩
  · rw [hencoded.metadata.bands]
    exact hencoded.width
  · rw [hencoded.metadata.unique hmetadata]
    exact hfile

/-- A file that is a snapshot, or what one of the builders has published for it. -/
inductive OutputOf (crc : Checksum) (file : Bytes) : Bytes → Prop
  | snapshot : OutputOf crc file file
  | inMemory {source destination : Path} {world world' : World} {output : Bytes}
      (hfile : world.files.read source.location = some file)
      (h : Lazy.buildFromSnapshot crc source destination world = (.ok (), world'))
      (houtput : world'.files.read destination.location = some output) : OutputOf crc file output
  | bounded {source destination : Path} {options : BuildOptions} {clock : Option Nat}
      {world world' : World} {stats : BuildStats} {output : Bytes}
      (hfile : world.files.read source.location = some file)
      (h : buildExternal crc source destination options clock world = (.ok stats, world'))
      (houtput : world'.files.read destination.location = some output) : OutputOf crc file output

/-- What is built from a snapshot is the snapshot. -/
theorem OutputOf.eq (hcrc : crc.Incremental) {core : PersistentIndexCore scheme}
    (hencode : core.encodeSnapshot crc = .ok file) (h : OutputOf crc file output) :
    output = file := by
  obtain ⟨layout, hsource, _, hbytes⟩ := sourceHolds_of_encodeSnapshot hencode
  cases h with
  | snapshot => rfl
  | inMemory hfile h houtput =>
      obtain ⟨file', bytes, hread, hencode', hholds⟩ := Lazy.buildFromSnapshot_eq_ok h
      obtain rfl := Option.some.inj (hread.symm.trans hfile)
      obtain ⟨layout', items, hsource', _, rfl⟩ := Lazy.encodeFromSnapshot_eq_ok_iff.mp hencode'
      obtain ⟨rfl, rfl⟩ := hsource.unique hsource'
      rw [hbytes]
      exact Option.some.inj (houtput.symm.trans hholds.read)
  | bounded hfile h houtput =>
      obtain ⟨file', layout', items, hread, hsource', hholds⟩ := buildExternal_eq_ok hcrc h
      obtain rfl := Option.some.inj (hread.symm.trans hfile)
      obtain ⟨rfl, rfl⟩ := hsource.unique hsource'
      have hbuckets : sourceBuckets core.items = bucketRecords core.items :=
        sourceBuckets_eq ascending_keys hsource.width_lt
      have hsame : outputBytes crc layout'.metadata core.items = file' := by
        rw [hbytes, outputBytes, outputSections, hbuckets]
        rfl
      rw [← hsame]
      exact Option.some.inj (houtput.symm.trans hholds.read)

/-! ## The answers -/

/-- A lazy index opens on a snapshot, with the configuration of the index that wrote it and a
directory of the buckets of its rows. -/
theorem exists_openFile_snapshot {core : PersistentIndexCore scheme}
    (hencode : core.encodeSnapshot crc = .ok file) :
    ∃ index : Lazy.LazyIndexCore scheme,
      Lazy.LazyIndexCore.openFile crc scheme file = .ok index ∧
      index.Holds crc core.config (bucketRecords core.items) ∧
      RecordsSelect (bucketRecords core.items) core.config.params.bands core.liveRows := by
  obtain ⟨layout, hencoded⟩ := PersistentIndexCore.encodeSnapshot_spec hencode
  have hflatten := segmentsOf_flatten (bucketRecords core.items)
  obtain ⟨index, hopen, hholds⟩ := Lazy.LazyIndexCore.openFile_of_snapshot hencoded.read
    hencoded.metadata hencoded.snapshot (segmentsOf_ne_nil _)
    (by rw [hflatten]; exact ascending_bucketRecords) (by rw [hflatten]; exact hencoded.counts) (by
      rw [hflatten]
      exact fun record =>
        band_lt_of_mem_bucketRecords (PersistentIndexCore.bands_lt core.config) hencoded.width)
  rw [hflatten] at hholds
  exact ⟨index, hopen, hholds, hencoded.recordsSelect⟩

/-- The lazy index on a snapshot or on what was built from it, the persistent index on the
snapshot, and an index in memory with the same rows answer compatible queries alike. -/
theorem lazy_answers_agree {written core : PersistentIndexCore scheme}
    {memory : LshIndex scheme} {index : Lazy.LazyIndexCore scheme} {path : Path}
    (hcrc : crc.Incremental) (hencode : written.encodeSnapshot crc = .ok file)
    (hcore : PersistentIndexCore.openFile crc path file = .ok core)
    (hmemory : Mirrors memory written.config written.liveRows)
    (houtput : OutputOf crc file output)
    (hindex : Lazy.LazyIndexCore.openFile crc scheme output = .ok index) :
    (∀ sketch, written.config.Compatible sketch → ∃ keys,
      index.query crc sketch = .ok keys ∧ core.query crc sketch = .ok keys ∧
        memory.query sketch = .ok keys) ∧
      ∀ sketches, (∀ sketch ∈ sketches, written.config.Compatible sketch) → ∃ answers,
        index.queryMany crc sketches = .ok answers ∧ core.queryMany crc sketches = .ok answers ∧
          memory.queryMany sketches = .ok answers := by
  obtain rfl := houtput.eq hcrc hencode
  obtain ⟨found, hfound, hholds, hselect⟩ := exists_openFile_snapshot hencode
  obtain rfl := Except.ok.inj (hfound.symm.trans hindex)
  obtain ⟨opened, hopened, hwell, _, hconfig, hkeys, _⟩ :=
    PersistentIndexCore.exists_openFile_of_encodeSnapshot hencode path
  obtain rfl := Except.ok.inj (hopened.symm.trans hcore)
  obtain ⟨hmemoryConfig, hmemoryHolds⟩ := hmemory
  have hrows : opened.liveRows = written.liveRows := congrArg rowsOfMap hkeys
  have hone : ∀ sketch, written.config.Compatible sketch → ∃ keys,
      found.query crc sketch = .ok keys ∧ opened.query crc sketch = .ok keys ∧
        memory.query sketch = .ok keys := by
    intro sketch hsketch
    obtain ⟨keys, hlazy, hsorted, hmem⟩ := hholds.query hselect hsketch
    obtain ⟨keys', hstored, hsorted', hmem'⟩ := hwell.query (hconfig.symm ▸ hsketch)
    obtain ⟨keys'', hlive, hsorted'', hmem''⟩ := hmemoryHolds.query (hmemoryConfig.symm ▸ hsketch)
    have hsame : keys' = keys := hsorted'.ext hsorted fun key => by
      rw [hmem, hmem', hrows, hconfig]
    have hsame' : keys'' = keys := hsorted''.ext hsorted fun key => by
      rw [hmem, hmem'', hmemoryConfig]
    exact ⟨keys, hlazy, hsame ▸ hstored, hsame' ▸ hlive⟩
  refine ⟨hone, fun sketches hsketches => ?_⟩
  -- Each batch is the list of its single answers.
  choose! answer hanswer using hone
  refine ⟨sketches.map answer, ?_, ?_, ?_⟩
  · rw [queryMany_lazy hholds hsketches]
    exact mapM_eq_ok_map fun sketch hsketch => (hanswer sketch (hsketches sketch hsketch)).1
  · rw [queryMany_persistent fun sketch hsketch => hconfig.symm ▸ hsketches sketch hsketch]
    exact mapM_eq_ok_map fun sketch hsketch => (hanswer sketch (hsketches sketch hsketch)).2.1
  · exact mapM_eq_ok_map fun sketch hsketch => (hanswer sketch (hsketches sketch hsketch)).2.2

/-- The snapshot of one key answers from every kind of index. -/
theorem lazy_answers_agree_sample : ∃ (bytes : Bytes) (core : PersistentIndex32)
    (index : Lazy.LazyIndex32) (memory : LshIndex .pariAffine32V1),
    sampleCore.encodeSnapshot Checksum.crc32 = .ok bytes ∧
      PersistentIndexCore.openFile Checksum.crc32 sampleCore.path bytes = .ok core ∧
      Lazy.LazyIndexCore.openFile Checksum.crc32 .pariAffine32V1 bytes = .ok index ∧
      ∃ keys, index.query Checksum.crc32 sampleSketch = .ok keys ∧
        core.query Checksum.crc32 sampleSketch = .ok keys ∧ memory.query sampleSketch = .ok keys := by
  obtain ⟨bytes, hencode⟩ := exists_encodeSnapshot_sampleCore
  obtain ⟨core, hcore, hwell, _, hconfig, hkeys, _⟩ :=
    PersistentIndexCore.exists_openFile_of_encodeSnapshot hencode sampleCore.path
  obtain ⟨index, hindex, _⟩ := exists_openFile_snapshot hencode
  have hcapacity : core.len ≤ 2 ^ 32 - 1 := by
    rw [PersistentIndexCore.len, hkeys]
    decide
  have hmemory := mirrors_loadedIndex hwell hcapacity
  have hrows : core.liveRows = sampleCore.liveRows := congrArg rowsOfMap hkeys
  rw [hconfig, hrows] at hmemory
  have hanswers := (lazy_answers_agree Checksum.crc32_incremental hencode hcore hmemory .snapshot
    hindex).1 sampleSketch ⟨rfl, rfl⟩
  exact ⟨bytes, core, index, _, hencode, hcore, hindex, hanswers⟩

end Pari.Build
