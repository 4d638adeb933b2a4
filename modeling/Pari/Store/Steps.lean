/-
# Steps of an open index

What its user can do with an index and what can happen to it: mutations, commits, closing and
reopening, losing the handle, and changes elsewhere in the file system. To the user every step
is one of four events. The step lemma says that an index follows its events: the live rows
and the published rows are all there is to know about it.
-/

import Pari.Store.Commit

namespace Pari.Store

open Data Pari.Format Pari.Core Pari.Index

variable {scheme : SignatureScheme}

/-- A step as the user sees it. -/
inductive Event (scheme : SignatureScheme)
  | inserted (items : List (UInt64 × MinHash scheme))
  | removed (key : UInt64)
  | unchanged
  | reverted

/-- The live rows after an event, from those before it and the published ones. -/
def Event.rows (config : LshConfig) : Event scheme → Rows → Rows → Rows
  | .inserted items, live, _ => insertRows live (config.rowsOf items)
  | .removed key, live, _ => Function.update live key none
  | .unchanged, live, _ => live
  | .reverted, _, published => published

/-- One step of an open index. Closing succeeds or fails, and a handle can be dropped without
closing it; the index is then opened again. Elsewhere other processes may do anything that
leaves the bytes of the target alone, and the process may be another one. -/
inductive Step (crc : Checksum) : PersistentIndexCore scheme → World → Event scheme →
    PersistentIndexCore scheme → World → Prop
  | insertMany {core core' : PersistentIndexCore scheme} {world : World}
      {items : List (UInt64 × MinHash scheme)} (h : core.insertMany items = (.ok (), core')) :
      Step crc core world (.inserted items) core' world
  | insertManyFailed {core core' : PersistentIndexCore scheme} {world : World}
      {items : List (UInt64 × MinHash scheme)} {error : StoreError}
      (h : core.insertMany items = (.error error, core')) :
      Step crc core world .unchanged core' world
  | remove {core : PersistentIndexCore scheme} {world : World} (key : UInt64) :
      Step crc core world (.removed key) (core.remove key).2 world
  | flush {core core' : PersistentIndexCore scheme} {world world' : World}
      {result : Except StoreError Unit} (h : core.flush crc world = (result, core', world')) :
      Step crc core world .unchanged core' world'
  | sync {core core' : PersistentIndexCore scheme} {world world' : World}
      {result : Except StoreError Unit} (h : core.sync crc world = (result, core', world')) :
      Step crc core world .unchanged core' world'
  | reopen {core core' : PersistentIndexCore scheme} {world world' world'' : World}
      (hclose : core.close crc world = (.ok (), world'))
      (hopen : PersistentIndexCore.openPath crc scheme core.path world' = (.ok core', world'')) :
      Step crc core world .unchanged core' world''
  | reopenFailed {core core' : PersistentIndexCore scheme} {world world' world'' : World}
      {error : StoreError} (hclose : core.close crc world = (.error error, world'))
      (hopen : PersistentIndexCore.openPath crc scheme core.path world' = (.ok core', world'')) :
      Step crc core world .reverted core' world''
  | dropped {core core' : PersistentIndexCore scheme} {world world' : World}
      (hopen : PersistentIndexCore.openPath crc scheme core.path world = (.ok core', world')) :
      Step crc core world .reverted core' world'
  | elsewhere {core : PersistentIndexCore scheme} {world world' : World}
      (h : world'.files.read core.path.location = world.files.read core.path.location) :
      Step crc core world .unchanged core world'

/-! ## What a step does -/

section Steps

variable {crc : Checksum} {core core' : PersistentIndexCore scheme} {world world' : World}
  {keyHashes : OrderedMap UInt64 (List UInt64)} {event : Event scheme}

/-- A mutation leaves the index clean only if it does nothing. -/
structure Mutates (core core' : PersistentIndexCore scheme) : Prop where
  path : core'.path = core.path
  config : core'.config = core.config
  clean : core'.dirty = false → core.dirty = false ∧ core'.keyHashes = core.keyHashes

theorem Mutates.remove (key : UInt64) : Mutates core (core.remove key).2 := by
  rw [PersistentIndexCore.remove]
  split
  · exact ⟨rfl, rfl, fun hclean => ⟨hclean, rfl⟩⟩
  · exact ⟨rfl, rfl, fun hclean => by cases hclean⟩

theorem Mutates.insertPrepared (prepared : List (UInt64 × List UInt64)) :
    Mutates core (core.insertPrepared prepared) := by
  obtain ⟨hconfig, hpath, hdirty⟩ := @PersistentIndexCore.foldl_insertOverlay_fields _ core prepared
  refine ⟨hpath, hconfig, fun hclean => ?_⟩
  rw [PersistentIndexCore.insertPrepared] at hclean ⊢
  dsimp only at hclean
  split at hclean
  · next hempty =>
      obtain rfl := List.isEmpty_iff.mp hempty
      exact ⟨hclean, rfl⟩
  · cases hclean

/-- A mutation publishes nothing. -/
theorem PersistentIndexCore.PublishedAs.mutate {files : FileSystem}
    (h : core.PublishedAs crc files keyHashes) (hwell : core'.WellFormed crc)
    (hmutates : Mutates core core') : core'.PublishedAs crc files keyHashes := by
  refine ⟨hwell, ?_, fun hclean => ?_⟩
  · rw [hmutates.path, hmutates.config]
    exact h.decodes
  · obtain ⟨hclean', hsame⟩ := hmutates.clean hclean
    rw [hsame]
    exact h.clean hclean'

/-- Opening the target again yields what it holds. -/
theorem PersistentIndexCore.PublishedAs.openPath (h : core.PublishedAs crc world.files keyHashes)
    (hopen : PersistentIndexCore.openPath crc scheme core.path world = (.ok core', world')) :
    core'.PublishedAs crc world'.files keyHashes ∧ world'.files = world.files ∧
      core'.path = core.path ∧ core'.config = core.config ∧ core'.keyHashes = keyHashes := by
  obtain ⟨bytes, hread, hopened, hfiles⟩ := PersistentIndexCore.openPath_eq_ok hopen
  obtain ⟨bytes', stored, hread', hstored, hwell, hconfig, hkeys⟩ := h.decodes
  obtain rfl := Option.some.inj (hread.symm.trans hread')
  obtain rfl := Except.ok.inj (hopened.symm.trans hstored)
  obtain ⟨_, _, _, _, _, _, _, hpath, _⟩ := PersistentIndexCore.openFile_eq_ok hopened
  refine ⟨⟨hwell, ?_, fun _ => hkeys.symm⟩, hfiles, hpath, hconfig, hkeys⟩
  rw [hpath, hconfig, hfiles]
  exact h.decodes

/-- What a step does to a published index. -/
structure StepSpec (crc : Checksum) (core : PersistentIndexCore scheme) (world : World)
    (keyHashes : OrderedMap UInt64 (List UInt64)) (event : Event scheme)
    (core' : PersistentIndexCore scheme) (world' : World) : Prop where
  published : core'.PublishedAs crc world'.files
    (publishedAfter core.path world world' keyHashes core.keyHashes)
  path : core'.path = core.path
  config : core'.config = core.config
  liveRows : core'.liveRows = event.rows core.config core.liveRows
    (rowsOfMap (publishedAfter core.path world world' keyHashes core.keyHashes))
  accepts : ∀ items, event = .inserted items → core.AcceptsBatch items

theorem publishedAfter_of_read_eq {α : Type} {path : Path} {published live : α}
    (h : world'.files.read path.location = world.files.read path.location) :
    publishedAfter path world world' published live = published := if_pos h

theorem stepSpec_of_commit (h : core.PublishedAs crc world.files keyHashes) {syncParent : Bool}
    {result : Except StoreError Unit}
    (hcommit : core.commit crc syncParent world = (result, core', world')) :
    StepSpec crc core world keyHashes .unchanged core' world' ∧ SameContents core core' ∧
      (result = .ok () → core'.dirty = false) := by
  obtain ⟨_, _, _, hcommit', hpublished, hsame, hok⟩ := h.commit syncParent
  rw [hcommit] at hcommit'
  obtain ⟨rfl, rfl, rfl⟩ : _ ∧ _ ∧ _ := by simpa using hcommit'
  exact ⟨⟨hpublished, hsame.path, hsame.config, congrArg rowsOfMap hsame.keyHashes,
    fun _ hevent => by cases hevent⟩, hsame, hok⟩

/-- Closing is a sync whose handle is lost. -/
theorem exists_sync_of_close {result : Except StoreError Unit}
    (h : core.close crc world = (result, world')) :
    ∃ closed, core.sync crc world = (result, closed, world') := by
  rw [PersistentIndexCore.close] at h
  obtain ⟨⟨result', closed, world''⟩, hsync⟩ : ∃ outcome, core.sync crc world = outcome := ⟨_, rfl⟩
  rw [hsync] at h
  obtain ⟨rfl, rfl⟩ := Prod.mk.inj h
  exact ⟨closed, hsync⟩

/-- Opening the target after a commit. -/
theorem StepSpec.openPath {closed : PersistentIndexCore scheme} {world'' : World}
    (h : StepSpec crc core world keyHashes event closed world'')
    (hopen : PersistentIndexCore.openPath crc scheme core.path world'' = (.ok core', world')) :
    (core'.PublishedAs crc world'.files
        (publishedAfter core.path world world' keyHashes core.keyHashes) ∧
      core'.path = core.path ∧ core'.config = core.config) ∧
      core'.keyHashes = publishedAfter core.path world world' keyHashes core.keyHashes ∧
      (closed.dirty = false → core'.keyHashes = closed.keyHashes) := by
  rw [← h.path] at hopen
  obtain ⟨hpublished, hfiles, hpath, hconfig, hkeys⟩ := h.published.openPath hopen
  have hsame : publishedAfter core.path world world' keyHashes core.keyHashes =
      publishedAfter core.path world world'' keyHashes core.keyHashes := by
    rw [publishedAfter, publishedAfter, hfiles]
  rw [hsame]
  exact ⟨⟨hpublished, hpath.trans h.path, hconfig.trans h.config⟩, hkeys,
    fun hclean => hkeys.trans (h.published.clean hclean)⟩

/-- Every step follows its event. -/
theorem Step.spec (hstep : Step crc core world event core' world')
    (h : core.PublishedAs crc world.files keyHashes) :
    StepSpec crc core world keyHashes event core' world' := by
  cases hstep with
  | @insertMany _ _ items hinsert =>
      rcases core.insertMany_cases items with ⟨error, herror⟩ | ⟨haccepts, hok⟩
      · rw [hinsert] at herror
        cases herror
      obtain rfl : core' = _ := congrArg Prod.snd (hinsert.symm.trans hok)
      obtain ⟨hwell, hrows, _⟩ := h.wellFormed.insertPrepared haccepts.freshBatch
      have hmutates := @Mutates.insertPrepared _ core (core.config.rowsOf items)
      refine ⟨?_, hmutates.path, hmutates.config, hrows, ?_⟩
      · rw [publishedAfter_of_read_eq rfl]
        exact h.mutate hwell hmutates
      · rintro other hother
        cases hother
        exact haccepts
  | @insertManyFailed _ _ items error hinsert =>
      obtain rfl : core' = core := by
        rcases core.insertMany_cases items with ⟨other, herror⟩ | ⟨_, hok⟩
        · exact congrArg Prod.snd (hinsert.symm.trans herror)
        · rw [hinsert] at hok
          cases hok
      refine ⟨?_, rfl, rfl, rfl, fun _ hevent => by cases hevent⟩
      rw [publishedAfter_of_read_eq rfl]
      exact h
  | remove key =>
      obtain ⟨_, hrows, hwell⟩ := h.wellFormed.remove key
      have hmutates := @Mutates.remove _ core key
      refine ⟨?_, hmutates.path, hmutates.config, hrows, fun _ hevent => by cases hevent⟩
      rw [publishedAfter_of_read_eq rfl]
      exact h.mutate hwell hmutates
  | flush hflush => exact (stepSpec_of_commit h hflush).1
  | sync hsync => exact (stepSpec_of_commit h hsync).1
  | reopen hclose hopen =>
      obtain ⟨closed, hsync⟩ := exists_sync_of_close hclose
      obtain ⟨hspec, hsame, hok⟩ := stepSpec_of_commit h hsync
      obtain ⟨hreopened, _, hkeys⟩ := hspec.openPath hopen
      refine ⟨hreopened.1, hreopened.2.1, hreopened.2.2, ?_, fun _ hevent => by cases hevent⟩
      exact congrArg rowsOfMap ((hkeys (hok rfl)).trans hsame.keyHashes)
  | reopenFailed hclose hopen =>
      obtain ⟨closed, hsync⟩ := exists_sync_of_close hclose
      obtain ⟨hspec, _⟩ := stepSpec_of_commit h hsync
      obtain ⟨hreopened, hkeys, _⟩ := hspec.openPath hopen
      exact ⟨hreopened.1, hreopened.2.1, hreopened.2.2, congrArg rowsOfMap hkeys,
        fun _ hevent => by cases hevent⟩
  | dropped hopen =>
      obtain ⟨hpublished, hfiles, hpath, hconfig, hkeys⟩ := h.openPath hopen
      have hkept : publishedAfter core.path world world' keyHashes core.keyHashes = keyHashes :=
        publishedAfter_of_read_eq (by rw [hfiles])
      refine ⟨?_, hpath, hconfig, ?_, fun _ hevent => by cases hevent⟩
      · rw [hkept]
        exact hpublished
      · rw [hkept]
        exact congrArg rowsOfMap hkeys
  | elsewhere hread =>
      have hkept : publishedAfter core.path world world' keyHashes core.keyHashes = keyHashes :=
        publishedAfter_of_read_eq hread
      refine ⟨?_, rfl, rfl, rfl, fun _ hevent => by cases hevent⟩
      rw [hkept]
      refine ⟨h.wellFormed, ?_, h.clean⟩
      obtain ⟨bytes, stored, hbytes, hstored⟩ := h.decodes
      exact ⟨bytes, stored, hread.trans hbytes, hstored⟩

end Steps

end Pari.Store
