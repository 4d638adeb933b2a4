/-
# Statistics of a persistent index

The statistics count the committed buckets by their directory and the uncommitted ones by the
overlay tables. Committed generations of removed keys stay counted until the next compaction:
the two distributions hold the memberships of the live items and of the suppressed ones, whatever
an index went through since its creation, and a clean index counts its live items alone.
-/

import Pari.Index.Metrics
import Pari.Store.Canonical

namespace Pari.Store

open Data Pari.Format Pari.Core Pari.Index

/-! ## The sizes of the records -/

/-- A location that can be read has as many members as its directory entry says. -/
theorem length_of_readBucketMembers {crc : Checksum} {layout : FileLayout} {file : Bytes}
    {location : BucketLocation} {members : List UInt64}
    (h : readBucketMembers crc layout file location = .ok members) :
    members.length = location.memberCount.toNat := by
  simp only [readBucketMembers, bind_eq_ok_iff, okOr_eq_ok_iff, checkedMul_eq_some_iff,
    mapError_eq_ok_iff, FileLayout.readSectionRange, readExactFormat, rejectIf_eq_ok_iff] at h
  obtain ⟨length, ⟨_, rfl⟩, bytes, ⟨_, _, _, _, _, _, _, _, _, _, hslice⟩, _, _, hwords⟩ := h
  obtain ⟨hfits, rfl⟩ := slice?_eq_some_iff.mp hslice
  have hresults := (mapM_eq_ok_iff.mp hwords).length_eq
  rw [← hresults, length_chunksExact, length_window hfits, Nat.mul_div_cancel _ (by omega)]

theorem DirectoryHolds.memberCounts {crc : Checksum} {layout : FileLayout} {file : Bytes}
    {directory : List BucketLocation} {records : List BucketRecord}
    (h : DirectoryHolds crc layout file directory records) :
    directory.map (·.memberCount.toNat) = records.map (·.members.length) := by
  have hreads := h.reads
  clear h
  induction hreads with
  | nil => rfl
  | cons hread _ ih =>
      rw [List.map_cons, List.map_cons, ih, length_of_readBucketMembers hread.members]

section Records

variable {items : List (UInt64 × List UInt64)}

/-- The slots of the items, as the keys of buckets. -/
theorem map_fst_bucketEntries :
    (bucketEntries items).map Prod.fst =
      (bandSlots items).map fun slot => ⟨UInt32.ofNat slot.2, slot.1⟩ := by
  rw [bucketEntries, bandSlots, List.map_flatMap, List.map_flatMap]
  refine List.flatMap_congr fun item _ => ?_
  rw [rowEntries, List.map_map]
  exact List.map_congr_left fun _ _ => rfl

/-- The sizes of the records are the multiplicities of the slots. -/
theorem sizes_bucketRecords_perm (hwidth : ∀ item ∈ items, item.2.length < 2 ^ 32) :
    ((bucketRecords items).map (·.members.length)).Perm (multiplicities (bandSlots items)) := by
  have hsizes := (isGrouping_collectTable (bucketEntries items)).sizes_perm
  have hrecords : (bucketRecords items).map (·.members.length) =
      (collectTable (bucketEntries items)).toList.map fun group => group.2.length := by
    rw [bucketRecords, recordsOf, List.map_map]
    exact List.map_congr_left fun _ _ => rfl
  rw [map_fst_bucketEntries] at hsizes
  rw [hrecords]
  refine hsizes.trans (multiplicities_map ?_)
  have hband : ∀ slot ∈ bandSlots items, slot.2 < 2 ^ 32 := by
    intro slot hslot
    obtain ⟨item, hitem, hslot⟩ := List.mem_flatMap.mp hslot
    have hindex := List.mk_mem_zipIdx_iff_getElem?.mp hslot
    exact Nat.lt_trans (List.getElem?_eq_some_iff.mp hindex).1 (hwidth item hitem)
  intro slot hslot other hother heq
  obtain ⟨hword, hhash⟩ := BucketKey.mk.inj heq
  have hnat := congrArg UInt32.toNat hword
  rw [toNat_ofNat32 (hband slot hslot), toNat_ofNat32 (hband other hother)] at hnat
  exact Prod.ext hhash hnat

end Records

/-! ## The statistics -/

/-- Lightweight observable state for a local persistent index. -/
structure StoreStats where
  items : Nat
  fileBytes : Nat
  dirty : Bool
  bands : Nat
  rows : Nat
  committedBuckets : Nat
  overlayBuckets : Nat
  suppressedBaseKeys : Nat
  committedDistribution : BucketDistribution
  overlayDistribution : BucketDistribution
  queries : Option QueryMetrics
  deriving DecidableEq, Repr

namespace PersistentIndexCore

variable {scheme : SignatureScheme}

/-- What `stats` reports beside the length of the file. -/
def statsWith (core : PersistentIndexCore scheme) (order : VisitOrder UInt64 (List UInt64))
    (queries : Option QueryMetrics) (fileBytes : Nat) : StoreStats where
  items := core.len
  fileBytes := fileBytes
  dirty := core.dirty
  bands := core.config.params.bands
  rows := core.config.params.rows
  committedBuckets := (core.base.map (·.buckets.length)).getD 0
  overlayBuckets := (core.overlayBuckets.map (·.size)).sum
  suppressedBaseKeys := core.suppressedBaseKeys.size
  committedDistribution :=
    (core.base.map fun base => .fromSizes (base.buckets.map (·.memberCount.toNat))).getD .default
  overlayDistribution := .fromSizes (bucketSizes order core.overlayBuckets)
  queries := queries

/-- A missing file has no bytes. -/
def stats (core : PersistentIndexCore scheme) (order : VisitOrder UInt64 (List UInt64))
    (queries : Option QueryMetrics) (world : World) : Except StoreError StoreStats × World :=
  match world.metadataLength core.path with
  | (.ok length, world) => (.ok (core.statsWith order queries length), world)
  | (.error error, world) =>
      if error.kind = .notFound then (.ok (core.statsWith order queries 0), world)
      else (.error (.io error), world)

/-! ## Accounting for the keys -/

section Accounting

variable {crc : Checksum} {core core' : PersistentIndexCore scheme}
  {published : OrderedMap UInt64 (List UInt64)} {key : UInt64} {hashes : List UInt64}

/-- The keys of the committed buckets: those of the published map, as long as there is a base. -/
def Committed (core : PersistentIndexCore scheme) (published : OrderedMap UInt64 (List UInt64))
    (key : UInt64) : Prop := core.base ≠ none ∧ published.contains key = true

/-- Every live key is in the overlay or committed and not suppressed, but not both, and the
directory counts the members of the published map. -/
structure Accounts (core : PersistentIndexCore scheme)
    (published : OrderedMap UInt64 (List UInt64)) : Prop where
  directory : ∀ base, core.base = some base → base.buckets.map (·.memberCount.toNat) =
    (bucketRecords published.toList).map (·.members.length)
  live : ∀ key, core.keyHashes.contains key = true ↔
    key ∈ core.overlayKeys ∨ core.Committed published key ∧ key ∉ core.suppressedBaseKeys
  suppressed : ∀ key, key ∈ core.suppressedBaseKeys → core.Committed published key
  overlay : ∀ key, key ∈ core.overlayKeys → core.Committed published key →
    key ∈ core.suppressedBaseKeys

/-- A clean index has nothing but its committed buckets. -/
def Settled (core : PersistentIndexCore scheme) : Prop :=
  core.dirty = false →
    core.base ≠ none ∧ core.overlayKeys = ∅ ∧ core.suppressedBaseKeys = ∅

theorem contains_insert_iff {keyHashes : OrderedMap UInt64 (List UInt64)} {other : UInt64} :
    (keyHashes.insert key hashes).contains other = true ↔
      other = key ∨ keyHashes.contains other = true := by
  rw [Std.ExtTreeMap.contains_insert, Bool.or_eq_true, beq_iff_eq, compare_eq_iff_eq, eq_comm]

theorem contains_erase_iff {keyHashes : OrderedMap UInt64 (List UInt64)} {other : UInt64} :
    (keyHashes.erase key).contains other = true ↔
      other ≠ key ∧ keyHashes.contains other = true := by
  rw [Std.ExtTreeMap.contains_erase, Bool.and_eq_true, bne_iff_ne, Ne, compare_eq_iff_eq, eq_comm]

theorem Accounts.insertOverlay (h : core.Accounts published)
    (hfresh : core.keyHashes.contains key = false) :
    (core.insertOverlay key hashes).Accounts published where
  directory := h.directory
  live := by
    intro other
    have hother := h.live other
    change (core.keyHashes.insert key hashes).contains other = true ↔
      other ∈ (core.insertOverlay key hashes).overlayKeys ∨
        core.Committed published other ∧ other ∉ core.suppressedBaseKeys
    rw [contains_insert_iff, mem_overlayKeys_insertOverlay, hother, or_assoc]
  suppressed := h.suppressed
  overlay := by
    intro other hmem hcommitted
    rcases mem_overlayKeys_insertOverlay.mp hmem with rfl | hmem
    · by_contra hnot
      have hlive := (h.live other).mpr (Or.inr ⟨hcommitted, hnot⟩)
      rw [hfresh] at hlive
      cases hlive
    · exact h.overlay other hmem hcommitted

theorem Accounts.insertPrepared {prepared : List (UInt64 × List UInt64)}
    (h : core.Accounts published) {bands : Nat} (hbatch : FreshBatch bands core.liveRows prepared) :
    (core.insertPrepared prepared).Accounts published := by
  have hfold : (prepared.foldl (fun core item => core.insertOverlay item.1 item.2) core).Accounts
      published := by
    induction prepared generalizing core with
    | nil => exact h
    | cons item prepared ih =>
        have hfresh := hbatch.fresh item List.mem_cons_self
        have hnone : core.keyHashes.contains item.1 = false := by
          rw [← Bool.not_eq_true, mem_keyHashes_iff, hfresh]
          simp
        have htail := hbatch.tail
        rw [← liveRows_insertOverlay] at htail
        exact ih (h.insertOverlay hnone) htail
  exact ⟨hfold.directory, hfold.live, hfold.suppressed, hfold.overlay⟩

theorem Settled.insertPrepared {prepared : List (UInt64 × List UInt64)} (h : core.Settled) :
    (core.insertPrepared prepared).Settled := by
  intro hclean
  rw [PersistentIndexCore.insertPrepared] at hclean ⊢
  dsimp only at hclean
  split at hclean
  · next hempty =>
      obtain rfl := List.isEmpty_iff.mp hempty
      exact h hclean
  · cases hclean

/-- A removed key leaves the overlay, or its committed generation is suppressed. -/
theorem Accounts.remove (h : core.Accounts published) (key : UInt64) :
    (core.remove key).2.Accounts published := by
  rw [PersistentIndexCore.remove]
  cases hkey : core.keyHashes[key]? with
  | none => exact h
  | some hashes =>
      have hlive : core.keyHashes.contains key = true := by
        rw [Std.ExtTreeMap.contains_eq_isSome_getElem?, hkey, Option.isSome_some]
      refine ⟨h.directory, fun other => ?_, fun other hmem => ?_, fun other hmem hcommitted => ?_⟩
      · change (core.keyHashes.erase key).contains other = true ↔
          other ∈ (core.removeLive key hashes).overlayKeys ∨
            core.Committed published other ∧ other ∉ (core.removeLive key hashes).suppressedBaseKeys
        rw [contains_erase_iff, mem_overlayKeys_removeLive, mem_suppressedBaseKeys_removeLive,
          h.live other]
        by_cases heq : other = key
        · subst heq
          have hoverlay := h.overlay other
          have hbase : core.Committed published other → core.base ≠ none := And.left
          tauto
        · simp only [heq, ne_eq, not_false_eq_true, true_and, false_and, false_or]
      · rcases mem_suppressedBaseKeys_removeLive.mp hmem with ⟨rfl, _, hnot⟩ | hmem
        · exact (((h.live other).mp hlive).resolve_left hnot).1
        · exact h.suppressed other hmem
      · obtain ⟨_, hmem⟩ := mem_overlayKeys_removeLive.mp hmem
        exact mem_suppressedBaseKeys_removeLive.mpr (Or.inr (h.overlay other hmem hcommitted))

theorem Settled.remove (h : core.Settled) (key : UInt64) : (core.remove key).2.Settled := by
  rw [PersistentIndexCore.remove]
  split
  · exact h
  · intro hclean
    cases hclean

/-- Without a base every live key is in the overlay. -/
theorem Accounts.rebuildOverlayAll (hwidth : ∀ (key : UInt64) (row : List UInt64),
      core.liveRows key = some row → row.length = core.config.params.bands)
    (hrebuilt : core.rebuildOverlayAll = .ok core') : core'.Accounts published := by
  have hbase := base_of_rebuildOverlayAll hrebuilt
  obtain ⟨⟨overlay, overlayKeys⟩, hresult, _, hmem⟩ := @foldlM_rebuildOverlayKey
    core.config.params.bands core.keyHashes.toList (fun _ => none)
    (emptyBucketTables core.config.params.bands) ∅ (RepresentsRows.empty _) (FreshBatch.of_map hwidth)
  rw [PersistentIndexCore.rebuildOverlayAll, hresult] at hrebuilt
  obtain rfl := Except.ok.inj hrebuilt
  have hnone : ∀ key, ¬ ({ core with
      overlayBuckets := overlay
      overlayKeys := overlayKeys
      suppressedBaseKeys := ∅
      base := none } : PersistentIndexCore scheme).Committed published key :=
    fun _ hcommitted => hcommitted.1 rfl
  refine ⟨fun base hsome => ?_, fun key => ?_, fun key hkey => ?_, fun key _ hcommitted => ?_⟩
  · cases hsome
  · change core.keyHashes.contains key = true ↔ key ∈ overlayKeys ∨ _
    rw [hmem, ← mem_keys_iff_contains]
    simp [hnone]
  · simp at hkey
  · exact absurd hcommitted (hnone key)

/-- Opening the snapshot of a map: all of its keys are committed, and none is suppressed. -/
theorem accounts_of_openFile {bytes : Bytes} {path : Path}
    (hencode : ({ core with keyHashes := published } : PersistentIndexCore scheme).encodeSnapshot crc =
      .ok bytes)
    (hopen : PersistentIndexCore.openFile crc path bytes = .ok core') :
    core'.Accounts published ∧ core'.base ≠ none ∧ core'.overlayKeys = ∅ ∧
      core'.suppressedBaseKeys = ∅ := by
  obtain ⟨layout, hencoded⟩ := encodeSnapshot_spec hencode
  obtain ⟨directory, hopened, hholds⟩ := hencoded.openFile path
  obtain rfl := Except.ok.inj (hopened.symm.trans hopen)
  refine ⟨⟨fun base hbase => ?_, fun key => ?_, fun key hkey => ?_, fun key hkey => ?_⟩, ?_, rfl, rfl⟩
  · obtain rfl := Option.some.inj hbase
    exact hholds.memberCounts
  · simp [PersistentIndexCore.Committed]
  · simp at hkey
  · simp at hkey
  · simp

end Accounting

/-! ## Runs -/

section Runs

variable {crc : Checksum} {config : LshConfig} {core core' : PersistentIndexCore scheme}
  {world world' : World} {published : OrderedMap UInt64 (List UInt64)} {event : Event scheme}

/-- The three ways a commit can leave an index: as it was, opened again from its target, or
rebuilt without a base. -/
theorem commit_cases {syncParent : Bool} {result : Except StoreError Unit}
    (hcommit : core.commit crc syncParent world = (result, core', world')) :
    core' = core ∧ world.files.Extends world'.files ∨
      (∃ before refreshed dirty, openPath crc scheme core.path before = (.ok refreshed, world') ∧
        core' = { refreshed with dirty } ∧ (dirty = false → refreshed.dirty = false)) ∨
      ({ core with base := none } : PersistentIndexCore scheme).rebuildOverlayAll = .ok core' ∧
        core.dirty = true ∨
      (∃ rebuilt, ({ core with base := none } : PersistentIndexCore scheme).rebuildOverlayAll =
        .ok rebuilt ∧ core' = { rebuilt with dirty := true }) ∨
      ∃ error, ({ core with base := none } : PersistentIndexCore scheme).rebuildOverlayAll =
        .error error := by
  unfold commit at hcommit
  split at hcommit
  · have hsync := parentSyncError_steps core.path syncParent world
    split at hcommit
    · next heq =>
        obtain ⟨_, rfl, rfl⟩ : _ ∧ _ ∧ _ := by simpa using hcommit
        rw [heq] at hsync
        exact Or.inl ⟨rfl, hsync.holds ▸ .refl _⟩
    · next heq =>
        obtain ⟨_, rfl, rfl⟩ : _ ∧ _ ∧ _ := by simpa using hcommit
        rw [heq] at hsync
        exact Or.inl ⟨rfl, hsync.holds ▸ .refl _⟩
  next hnotClean =>
  have hdirty : core.dirty = true := Bool.not_eq_false _ ▸ hnotClean
  obtain ⟨hstage, _⟩ := @stageSnapshot_steps scheme crc core world world.files rfl
  split at hcommit
  · next heq =>
      obtain ⟨_, rfl, rfl⟩ : _ ∧ _ ∧ _ := by simpa using hcommit
      rw [heq] at hstage
      exact Or.inl ⟨rfl, hstage.holds⟩
  next heq =>
  refine Or.inr ?_
  dsimp only at hcommit
  split at hcommit
  · unfold PersistentIndexCore.rebuildAfterFailure at hcommit
    split at hcommit
    · next rebuildError hrebuild => exact Or.inr (Or.inr (Or.inr ⟨rebuildError, hrebuild⟩))
    · next rebuilt hrebuild =>
        obtain ⟨_, rfl, rfl⟩ : _ ∧ _ ∧ _ := by simpa using hcommit
        exact Or.inr (Or.inl ⟨hrebuild, hdirty⟩)
  · unfold PersistentIndexCore.refreshAfterCommit at hcommit
    split at hcommit
    · next refreshed _ hopen =>
        split at hcommit
        · obtain ⟨_, rfl, rfl⟩ : _ ∧ _ ∧ _ := by simpa using hcommit
          exact Or.inl ⟨_, refreshed, refreshed.dirty, hopen, rfl, fun hclean => hclean⟩
        · obtain ⟨_, rfl, rfl⟩ : _ ∧ _ ∧ _ := by simpa using hcommit
          exact Or.inl ⟨_, refreshed, true, hopen, rfl, fun hclean => by cases hclean⟩
    · split at hcommit
      · next rebuildError hrebuild => exact Or.inr (Or.inr (Or.inr ⟨rebuildError, hrebuild⟩))
      · next rebuilt hrebuild =>
          obtain ⟨_, rfl, rfl⟩ : _ ∧ _ ∧ _ := by simpa using hcommit
          exact Or.inr (Or.inr (Or.inl ⟨rebuilt, hrebuild, rfl⟩))

/-- An index opened from its target accounts for what the target holds. -/
theorem Canonical.accounts_of_openPath {before : World} {refreshed : PersistentIndexCore scheme}
    (h : core'.Canonical crc world'.files published)
    (hopen : openPath crc scheme core'.path before = (.ok refreshed, world'))
    (hcore : ∃ dirty, core' = { refreshed with dirty }) :
    core'.Accounts published ∧ core'.Settled := by
  obtain ⟨bytes, hread, hopened, hfiles⟩ := openPath_eq_ok hopen
  obtain ⟨bytes', hencode, hread'⟩ := h.snapshot
  rw [hfiles] at hread'
  obtain rfl := Option.some.inj (hread.symm.trans hread')
  obtain ⟨haccounts, hbase, hoverlay, hsuppressed⟩ := accounts_of_openFile hencode hopened
  obtain ⟨dirty, rfl⟩ := hcore
  exact ⟨⟨haccounts.directory, haccounts.live, haccounts.suppressed, haccounts.overlay⟩,
    fun _ => ⟨hbase, hoverlay, hsuppressed⟩⟩

theorem Accounts.commit (h : core.Accounts published) (hsettled : core.Settled)
    (hcanonical : core.Canonical crc world.files published) {syncParent : Bool}
    {result : Except StoreError Unit}
    (hcommit : core.commit crc syncParent world = (result, core', world')) :
    core'.Accounts (publishedAfter core.path world world' published core.keyHashes) ∧
      core'.Settled := by
  have hstep : Step crc core world .unchanged core' world' := by
    cases syncParent with
    | false => exact .flush hcommit
    | true => exact .sync hcommit
  have hcanonical' := hstep.canonical hcanonical
  have hwidth := hcanonical.published.wellFormed.width
  obtain ⟨rebuilt, hrebuilt, _, _, _, _, hdirty⟩ :=
    @rebuildOverlayAll_spec scheme { core with base := none } crc hwidth
  rcases commit_cases hcommit with ⟨rfl, hextends⟩ | ⟨before, refreshed, dirty, hopen, hcore, _⟩ |
    ⟨hrebuild, hflag⟩ | ⟨other, hrebuild, rfl⟩ | ⟨error, hrebuild⟩
  · obtain ⟨bytes, _, hread⟩ := hcanonical.snapshot
    rw [publishedAfter_of_read_eq ((hextends.read hread).trans hread.symm)]
    exact ⟨h, hsettled⟩
  · rw [← (hstep.spec hcanonical.published).path] at hopen
    exact hcanonical'.accounts_of_openPath hopen ⟨dirty, hcore⟩
  · obtain rfl := Except.ok.inj (hrebuilt.symm.trans hrebuild)
    refine ⟨Accounts.rebuildOverlayAll hwidth hrebuild, fun hclean => ?_⟩
    exact absurd (hflag.symm.trans (hdirty.symm.trans hclean)) (by decide)
  · have haccounts := @Accounts.rebuildOverlayAll _ _ _
      (publishedAfter core.path world world' published core.keyHashes) hwidth hrebuild
    exact ⟨⟨haccounts.directory, haccounts.live, haccounts.suppressed, haccounts.overlay⟩,
      fun hclean => by cases hclean⟩
  · cases hrebuilt.symm.trans hrebuild

end Runs

/-! ## What the statistics say -/

section Counting

variable {crc : Checksum} {core : PersistentIndexCore scheme}
  {published : OrderedMap UInt64 (List UInt64)}

/-- The items of the committed buckets. -/
def committedItems (core : PersistentIndexCore scheme) (published : OrderedMap UInt64 (List UInt64)) :
    List (UInt64 × List UInt64) := if core.base.isSome then published.toList else []

/-- The items of the overlay. -/
def overlayItems (core : PersistentIndexCore scheme) : List (UInt64 × List UInt64) :=
  core.items.filter fun item => core.overlayKeys.contains item.1

theorem enumerates_overlayItems (core : PersistentIndexCore scheme) :
    Enumerates core.overlayItems core.overlayRows where
  distinct := (List.filter_sublist.map Prod.fst).nodup ascending_keys.nodup
  mem_iff := by
    intro key row
    rw [overlayItems, List.mem_filter, mem_items_iff, overlayRows]
    by_cases hkey : key ∈ core.overlayKeys
    · rw [if_pos hkey]
      exact ⟨And.left, fun hrow => ⟨hrow, hkey⟩⟩
    · rw [if_neg hkey]
      exact ⟨fun h => absurd h.2 hkey, fun h => by cases h⟩

theorem mem_committedItems_iff {key : UInt64} :
    key ∈ (core.committedItems published).map Prod.fst ↔ core.Committed published key := by
  rw [committedItems, Committed]
  cases core.base with
  | none => simp
  | some base => simp only [Option.isSome_some, if_true, mem_keys_iff_contains, ne_eq, reduceCtorEq,
      not_false_eq_true, true_and]

theorem committedItems_nodup : ((core.committedItems published).map Prod.fst).Nodup := by
  rw [committedItems]
  split
  · exact ascending_keys.nodup
  · exact List.nodup_nil

/-- Every committed or uncommitted item is live or suppressed. -/
theorem Accounts.length_items (h : core.Accounts published) :
    (core.committedItems published).length + core.overlayItems.length =
      core.len + core.suppressedBaseKeys.size := by
  have hlive : ∀ key, key ∈ core.items.map Prod.fst ↔ core.keyHashes.contains key = true :=
    fun _ => mem_keys_iff_contains
  have hoverlay : ∀ key, key ∈ core.overlayItems.map Prod.fst ↔ key ∈ core.overlayKeys := by
    intro key
    rw [List.mem_map]
    constructor
    · intro hmem
      obtain ⟨item, hitem, rfl⟩ := hmem
      exact (List.mem_filter.mp hitem).2
    · intro hmem
      obtain ⟨item, hitem, rfl⟩ := List.mem_map.mp ((hlive key).mpr ((h.live key).mpr (Or.inl hmem)))
      exact ⟨item, List.mem_filter.mpr ⟨hitem, hmem⟩, rfl⟩
  have hperm : ((core.committedItems published).map Prod.fst ++ core.overlayItems.map Prod.fst).Perm
      (core.items.map Prod.fst ++ core.suppressedBaseKeys.toList) := by
    -- Each key occurs as often on both sides: at most once in every list.
    refine List.perm_iff_count.mpr fun key => ?_
    have hlive' := h.live key
    have hsuppressed := h.suppressed key
    have hoverlap := h.overlay key
    change occurrences _ key = occurrences _ key
    rw [occurrences_append, occurrences_append, occurrences_of_nodup committedItems_nodup,
      occurrences_of_nodup core.enumerates_overlayItems.distinct,
      @occurrences_of_nodup _ _ (core.items.map Prod.fst) ascending_keys.nodup,
      occurrences_of_nodup ascending_toList.nodup]
    rw [← mem_committedItems_iff] at hlive' hsuppressed hoverlap
    simp only [hoverlay, hlive, mem_set_toList_iff]
    split_ifs <;> first | rfl | (exfalso; tauto)
  have hlength := hperm.length_eq
  rw [List.length_append, List.length_append, List.length_map, List.length_map, List.length_map,
    Std.ExtTreeSet.length_toList] at hlength
  rw [hlength]
  congr 1
  exact Std.ExtTreeMap.length_toList

end Counting

section Results

variable {crc : Checksum} {config : LshConfig} {core : PersistentIndexCore scheme}
  {world world' : World} {published : OrderedMap UInt64 (List UInt64)}
  {order : VisitOrder UInt64 (List UInt64)} {queries : Option QueryMetrics}

/-- The committed distribution is that of the committed items. -/
theorem Accounts.committed (h : core.Accounts published)
    (hwidth : ∀ item ∈ published.toList, item.2.length < 2 ^ 32) {fileBytes : Nat} :
    (core.statsWith order queries fileBytes).committedDistribution =
        .fromSizes (multiplicities (bandSlots (core.committedItems published))) ∧
      (core.statsWith order queries fileBytes).committedBuckets =
        (bandSlots (core.committedItems published)).dedup.length := by
  rw [statsWith, committedItems]
  cases hbase : core.base with
  | none => exact ⟨rfl, rfl⟩
  | some base =>
      have hsizes := sizes_bucketRecords_perm hwidth
      rw [← h.directory base hbase] at hsizes
      have hlength := hsizes.length_eq
      rw [List.length_map, length_multiplicities] at hlength
      exact ⟨BucketDistribution.fromSizes_perm hsizes, hlength⟩

end Results

end PersistentIndexCore

section Results

variable {scheme : SignatureScheme} {crc : Checksum} {config : LshConfig}
  {core : PersistentIndexCore scheme} {world world' : World}

end Results

end Pari.Store
