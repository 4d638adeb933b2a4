/-
# Runs of an open index

A run creates or opens an index and takes steps in any order. Two results about runs: queries
answer like an in-memory index that follows the same events, and a commit is atomic whichever
of its calls fail.
-/

import Pari.Store.Steps

namespace Pari.Store

open Data Pari.Format Pari.Core Pari.Index

variable {scheme : SignatureScheme}

/-- How a run begins: an index is created, or a file is opened whose buckets, if it has any,
match its rows. A legacy snapshot has none. -/
inductive Start (crc : Checksum) : PersistentIndexCore scheme → World → Prop
  | created {core : PersistentIndexCore scheme} {world world' : World} {path : Path}
      {threshold : F64} {numPerm : Nat} {seed : UInt64} {params : LshParams}
      (h : PersistentIndexCore.createWithParams crc scheme path threshold numPerm seed params world =
        (.ok core, world')) : Start crc core world'
  | opened {core : PersistentIndexCore scheme} {world world' : World} {path : Path}
      (h : PersistentIndexCore.openPath crc scheme path world = (.ok core, world'))
      (hbuckets : core.BucketsMatch crc) : Start crc core world'

/-- The states an index and its file system can reach. -/
inductive Reaches (crc : Checksum) : PersistentIndexCore scheme → World → Prop
  | start {core : PersistentIndexCore scheme} {world : World} (h : Start crc core world) :
      Reaches crc core world
  | step {core core' : PersistentIndexCore scheme} {world world' : World} {event : Event scheme}
      (hrun : Reaches crc core world) (hstep : Step crc core world event core' world') :
      Reaches crc core' world'

section Starting

variable {crc : Checksum} {core : PersistentIndexCore scheme} {world world' : World}

/-- Opening a file whose buckets match publishes its rows. -/
theorem published_of_openPath {path : Path}
    (h : PersistentIndexCore.openPath crc scheme path world = (.ok core, world'))
    (hbuckets : core.BucketsMatch crc) : core.PublishedAs crc world'.files core.keyHashes := by
  obtain ⟨bytes, hread, hopen, hfiles⟩ := PersistentIndexCore.openPath_eq_ok h
  obtain ⟨_, _, _, _, _, _, _, rfl, hwell, _⟩ := PersistentIndexCore.openFile_eq_ok hopen
  exact ⟨hwell hbuckets, ⟨bytes, core, hfiles ▸ hread, hopen, hwell hbuckets, rfl, rfl⟩, fun _ => rfl⟩

theorem Start.published (h : Start crc core world) :
    core.PublishedAs crc world.files core.keyHashes := by
  cases h with
  | created h =>
      obtain ⟨hpublished, _, _, _, _, _, hkeys, _⟩ := PersistentIndexCore.createWithParams_published h
      rw [hkeys]
      exact hpublished
  | opened h hbuckets => exact published_of_openPath h hbuckets

theorem Reaches.published (h : Reaches crc core world) :
    ∃ keyHashes, core.PublishedAs crc world.files keyHashes := by
  induction h with
  | start h => exact ⟨_, h.published⟩
  | step _ hstep ih =>
      obtain ⟨keyHashes, hpublished⟩ := ih
      exact ⟨_, (hstep.spec hpublished).published⟩

end Starting

/-! ## The in-memory index beside a run -/

/-- The in-memory index that takes part in an event; reverting goes back to a kept one. -/
def Event.follow : Event scheme → LshIndex scheme → LshIndex scheme → LshIndex scheme
  | .inserted items, memory, _ => (memory.insertMany items).2
  | .removed key, memory, _ => (memory.remove key).2
  | .unchanged, memory, _ => memory
  | .reverted, _, published => published

/-- An in-memory index with given items. -/
def loadedIndex (scheme : SignatureScheme) (config : LshConfig)
    (items : List (UInt64 × List UInt64)) : LshIndex scheme where
  config
  data := items.foldl (fun data item => data.insertValidated item.1 item.2)
    (IndexData.new config.params.bands)

/-- Runs with an in-memory index beside them. It starts out empty, or with the items of the
opened file, and makes the same insertions and removals; a second copy keeps what was live
when the target was last written. -/
inductive Run (crc : Checksum) :
    PersistentIndexCore scheme → World → LshIndex scheme → LshIndex scheme → Prop
  | created {core : PersistentIndexCore scheme} {world world' : World} {path : Path}
      {threshold : F64} {numPerm : Nat} {seed : UInt64} {params : LshParams}
      {memory : LshIndex scheme}
      (h : PersistentIndexCore.createWithParams crc scheme path threshold numPerm seed params world =
        (.ok core, world'))
      (hmemory : LshIndex.withParams scheme threshold numPerm seed params = .ok memory) :
      Run crc core world' memory memory
  | opened {core : PersistentIndexCore scheme} {world world' : World} {path : Path}
      (h : PersistentIndexCore.openPath crc scheme path world = (.ok core, world'))
      (hbuckets : core.BucketsMatch crc) (hcapacity : core.len ≤ 2 ^ 32 - 1) :
      Run crc core world' (loadedIndex scheme core.config core.items)
        (loadedIndex scheme core.config core.items)
  | step {core core' : PersistentIndexCore scheme} {world world' : World}
      {memory published : LshIndex scheme} {event : Event scheme}
      (hrun : Run crc core world memory published)
      (hstep : Step crc core world event core' world')
      (hcapacity : ∀ items, event = .inserted items →
        memory.data.idToKey.length + items.length ≤ 2 ^ 32 - 1) :
      Run crc core' world'
        (event.follow memory (publishedAfter core.path world world' published memory))
        (publishedAfter core.path world world' published memory)

/-- An in-memory index with the configuration and the rows of an assignment. -/
structure Mirrors (memory : LshIndex scheme) (config : LshConfig) (rows : Rows) : Prop where
  config : memory.config = config
  holds : memory.Holds rows

section Mirroring

variable {crc : Checksum} {core : PersistentIndexCore scheme} {world world' : World}
  {memory published : LshIndex scheme} {config : LshConfig} {live publishedRows : Rows}

theorem Event.follow_mirrors {event : Event scheme} (h : Mirrors memory config live)
    (hpublished : Mirrors published config publishedRows)
    (haccepts : ∀ items, event = .inserted items → memory.Accepts live items) :
    Mirrors (event.follow memory published) config (event.rows config live publishedRows) := by
  cases event with
  | inserted items =>
      obtain ⟨hconfig, _, hholds⟩ := h.holds.insertMany_of_accepts (haccepts items rfl)
      rw [h.config] at hholds
      exact ⟨hconfig.trans h.config, hholds⟩
  | removed key =>
      obtain ⟨_, hconfig, hholds⟩ := h.holds.remove key
      exact ⟨hconfig.trans h.config, hholds⟩
  | unchanged => exact h
  | reverted => exact hpublished

theorem mirrors_loadedIndex (h : core.WellFormed crc) (hcapacity : core.len ≤ 2 ^ 32 - 1) :
    Mirrors (loadedIndex scheme core.config core.items) core.config core.liveRows := by
  refine ⟨rfl, ?_⟩
  have hlength : (IndexData.new core.config.params.bands).idToKey.length + core.items.length ≤
      2 ^ 32 - 1 := by
    rw [PersistentIndexCore.items, Std.ExtTreeMap.length_toList]
    simpa [IndexData.new, PersistentIndexCore.len] using hcapacity
  have hholds := (IndexData.Holds.new core.config.params.bands).insertBatch
    (FreshBatch.of_map h.width) hlength
  rw [insertRows_toList] at hholds
  exact hholds

/-- Beside a run, the in-memory index holds the live rows. -/
theorem Run.mirrors (h : Run crc core world memory published) :
    ∃ keyHashes, core.PublishedAs crc world.files keyHashes ∧
      Mirrors memory core.config core.liveRows ∧
      Mirrors published core.config (rowsOfMap keyHashes) := by
  induction h with
  | @created core _ _ _ _ _ _ _ memory h hmemory =>
      obtain ⟨hpublished, _, hparams, hthreshold, hnumPerm, hseed, hkeys, _⟩ :=
        PersistentIndexCore.createWithParams_published h
      obtain ⟨hholds, _⟩ := LshIndex.withParams_holds hmemory
      simp only [LshIndex.withParams, bind_eq_ok_iff, pure_eq_ok_iff, LshConfig.new_eq_ok_iff]
        at hmemory
      obtain ⟨config, ⟨hthreshold', hnumPerm', hseed', hparams'⟩, rfl⟩ := hmemory
      have hconfig : config = core.config := LshConfig.ext (hthreshold'.trans hthreshold.symm)
        (hnumPerm'.trans hnumPerm.symm) (hseed'.trans hseed.symm) (hparams'.trans hparams.symm)
      refine ⟨∅, hpublished, ⟨hconfig, ?_⟩, ⟨hconfig, ?_⟩⟩
      · rw [PersistentIndexCore.liveRows, hkeys, rowsOfMap_empty]
        exact hholds
      · rw [rowsOfMap_empty]
        exact hholds
  | opened h hbuckets hcapacity =>
      have hpublished := published_of_openPath h hbuckets
      have hloaded := mirrors_loadedIndex hpublished.wellFormed hcapacity
      exact ⟨_, hpublished, hloaded, hloaded⟩
  | @step core core' world world' memory published event _ hstep hcapacity ih =>
      obtain ⟨keyHashes, hpublished, hlive, hkept⟩ := ih
      have hspec := hstep.spec hpublished
      have hafter : Mirrors (publishedAfter core.path world world' published memory) core.config
          (rowsOfMap (publishedAfter core.path world world' keyHashes core.keyHashes)) := by
        unfold publishedAfter
        split
        · exact hkept
        · exact hlive
      have haccepts : ∀ items, event = .inserted items → memory.Accepts core.liveRows items := by
        intro items hevent
        have hbatch := hspec.accepts items hevent
        refine ⟨hbatch.fresh, hbatch.distinct, ?_, hcapacity items hevent⟩
        rw [hlive.config]
        exact hbatch.compatible
      have hfollow := Event.follow_mirrors hlive hafter haccepts
      refine ⟨_, hspec.published, ?_, ?_⟩
      · rw [hspec.config, hspec.liveRows]
        exact hfollow
      · rw [hspec.config]
        exact hafter

end Mirroring

/-- After every run a compatible query answers like the in-memory index that made the same
insertions and removals: with the ascending list of the live keys that share a band. -/
theorem Run.query_refines {crc : Checksum} {core : PersistentIndexCore scheme} {world : World}
    {memory published : LshIndex scheme} (h : Run crc core world memory published)
    {sketch : MinHash scheme} (hsketch : core.config.Compatible sketch) :
    ∃ keys, core.query crc sketch = .ok keys ∧ memory.query sketch = .ok keys ∧ Ascending keys ∧
      ∀ key, key ∈ keys ↔ ∃ row, core.keyHashes[key]? = some row ∧
        SharesBand row (computeBandHashes core.config.params sketch.signature) := by
  obtain ⟨_, hpublished, hmemory, _⟩ := h.mirrors
  obtain ⟨keys, hquery, hsorted, hmem⟩ := hpublished.wellFormed.query hsketch
  obtain ⟨keys', hquery', hsorted', hmem'⟩ := hmemory.holds.query (hmemory.config.symm ▸ hsketch)
  have hsame : keys' = keys := hsorted'.ext hsorted fun key => by
    rw [hmem, hmem', hmemory.config]
  exact ⟨keys, hquery, hsame ▸ hquery', hsorted, hmem⟩

/-- A file system with one file, and a process in which nothing fails. -/
def worldHolding (location : Location) (bytes : Bytes) : World where
  files :=
    { entries := Function.update (fun _ => none) location (some (.file 0))
      contents := fun _ => bytes
      nextInode := 1
      allocated := by
        intro other inode hother
        by_cases heq : other = location
        · rw [heq, Function.update_self] at hother
          cases hother
          exact Nat.one_pos
        · rw [Function.update_of_ne heq] at hother
          cases hother }
  faults := fun _ => none
  calls := 0
  counter := 0
  processId := 1
  history := []

theorem openRead_worldHolding (path : Path) (bytes : Bytes) :
    ((worldHolding path.location bytes).openRead path).1 = .ok bytes := by
  have hentry : (worldHolding path.location bytes).files.entries path.location = some (.file 0) := by
    simp [worldHolding]
  have hlookup := FileSystem.lookup_of_entry hentry
  have hquiet : (worldHolding path.location bytes).Quiet := fun _ _ => rfl
  have hopen : (worldHolding path.location bytes).openRead path = (.ok bytes, _) :=
    World.call_of_quiet hquiet (by rw [hlookup]; rfl)
  rw [hopen]

/-- The snapshot of one key, opened from its file. -/
theorem exists_sample_opened : ∃ (bytes : Bytes) (core : PersistentIndex32) (world : World),
    PersistentIndexCore.openPath Checksum.crc32 .pariAffine32V1 sampleCore.path
        (worldHolding sampleCore.path.location bytes) = (.ok core, world) ∧
      core.BucketsMatch Checksum.crc32 ∧ core.config = sampleConfig ∧
      core.keyHashes = sampleCore.keyHashes := by
  obtain ⟨bytes, hencode⟩ := exists_encodeSnapshot_sampleCore
  obtain ⟨core, hopen, _, _, hconfig, hkeys, _, hmatch⟩ :=
    PersistentIndexCore.exists_openFile_of_encodeSnapshot hencode sampleCore.path
  have hread := openRead_worldHolding sampleCore.path bytes
  refine ⟨bytes, core, ((worldHolding sampleCore.path.location bytes).openRead
    sampleCore.path).2, ?_, hmatch, hconfig, hkeys⟩
  unfold PersistentIndexCore.openPath
  generalize (worldHolding sampleCore.path.location bytes).openRead sampleCore.path = outcome
    at hread ⊢
  obtain ⟨result, world⟩ := outcome
  obtain rfl : result = .ok bytes := hread
  dsimp only
  rw [hopen]

/-- An opened index answers a query like an in-memory index with its items. -/
theorem query_refines_opened :
    ∃ (core : PersistentIndex32) (keys : List UInt64), core.keyHashes = sampleCore.keyHashes ∧
      core.query Checksum.crc32 sampleSketch = .ok keys ∧
      (loadedIndex .pariAffine32V1 core.config core.items).query sampleSketch = .ok keys := by
  obtain ⟨bytes, core, world, hopen, hmatch, hconfig, hkeys⟩ := exists_sample_opened
  have hlength : core.len ≤ 2 ^ 32 - 1 := by
    rw [PersistentIndexCore.len, hkeys]
    decide
  have hsketch : core.config.Compatible sampleSketch := by
    rw [hconfig]
    exact ⟨rfl, rfl⟩
  obtain ⟨keys, hquery, hmemory, _⟩ := (Run.opened hopen hmatch hlength).query_refines hsketch
  exact ⟨core, keys, hkeys, hquery, hmemory⟩

/-! ## Commits are atomic -/

/-- A commit of a reachable index, whichever of its calls fail: every state it leaves behind
has the complete old or the complete new snapshot at the target, its outcome is reachable,
and if it fails on a dirty index the answers and the flag are as before. A commit in which
nothing fails publishes the live rows, and the file of a clean index holds them. -/
theorem Reaches.commit_atomic {crc : Checksum} {core : PersistentIndexCore scheme} {world : World}
    (h : Reaches crc core world) (syncParent : Bool) :
    ∃ old result core' world', world.files.read core.path.location = some old ∧
      core.commit crc syncParent world = (result, core', world') ∧
      (∃ states, world'.history = world.history ++ states ∧
        ∀ files ∈ states, core.OldOrNew crc old files) ∧
      core.OldOrNew crc old world'.files ∧ Reaches crc core' world' ∧
      (core.dirty = true → ∀ error, result = .error error → core'.dirty = true ∧
        core'.path = core.path ∧ core'.config = core.config ∧ core'.keyHashes = core.keyHashes ∧
        core'.contains = core.contains ∧ core'.len = core.len ∧
        core'.query crc = core.query crc ∧ core'.queryMany crc = core.queryMany crc) ∧
      (core.Unfailing crc world → result = .ok ()) ∧
      (result = .ok () → core'.dirty = false ∧
        Decodes crc scheme core.path core.config world'.files core.keyHashes) ∧
      (core.dirty = false → Decodes crc scheme core.path core.config world.files core.keyHashes) := by
  obtain ⟨keyHashes, hpublished⟩ := h.published
  obtain ⟨old, stored, hold, hstored⟩ := hpublished.decodes
  obtain ⟨result, core', world', hcommit, hsteps, hsame, hwell, hok, hfailed, hnew, hclean⟩ :=
    PersistentIndexCore.commit_spec hpublished.wellFormed hold syncParent
  have hrows : core'.liveRows = core.liveRows := congrArg rowsOfMap hsame.keyHashes
  have hreaches : Reaches crc core' world' := by
    cases syncParent with
    | false => exact h.step (.flush hcommit)
    | true => exact h.step (.sync hcommit)
  refine ⟨old, result, core', world', hold, hcommit, hsteps.history, hsteps.holds, hreaches, ?_, ?_,
    ?_, fun hflag => hpublished.clean hflag ▸ hpublished.decodes⟩
  · intro hdirty error herror
    refine ⟨hfailed hdirty error herror, hsame.path, hsame.config, hsame.keyHashes, ?_, ?_, ?_, ?_⟩
    · funext key
      rw [PersistentIndexCore.contains, PersistentIndexCore.contains, hsame.keyHashes]
    · rw [PersistentIndexCore.len, PersistentIndexCore.len, hsame.keyHashes]
    · funext sketch
      exact hpublished.wellFormed.query_congr hwell hsame.config hrows sketch
    · funext sketches
      exact hpublished.wellFormed.queryMany_congr hwell hsame.config hrows sketches
  · intro hunfailing
    have hunfailed := PersistentIndexCore.commit_of_unfailing hpublished hunfailing syncParent
    rw [hcommit] at hunfailed
    exact hunfailed
  · intro hresult
    obtain ⟨keyHashes', hpublished'⟩ := hreaches.published
    have hdecodes := hpublished'.decodes
    rw [hpublished'.clean (hok hresult), hsame.path, hsame.config, hsame.keyHashes] at hdecodes
    exact ⟨hok hresult, hdecodes⟩

/-- A sync of an opened index. -/
theorem commit_atomic_opened :
    ∃ (core core' : PersistentIndex32) (world world' : World) (result : Except StoreError Unit),
      core.keyHashes = sampleCore.keyHashes ∧
      core.commit Checksum.crc32 true world = (result, core', world') ∧
      Reaches Checksum.crc32 core' world' := by
  obtain ⟨bytes, core, world, hopen, hmatch, _, hkeys⟩ := exists_sample_opened
  obtain ⟨_, result, core', world', _, hcommit, _, _, hreaches, _⟩ :=
    (Reaches.start (.opened hopen hmatch)).commit_atomic true
  exact ⟨core, core', world, world', result, hkeys, hcommit, hreaches⟩

end Pari.Store
