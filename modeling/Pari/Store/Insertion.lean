/-
# Insertion of a batch

Both indexes check a whole batch before they store any of it. An insertion succeeds exactly on
the batches they admit; otherwise the index is the one from before, and after a success a caller
sees the batch beside what was there.
-/

import Pari.Store.Runs

namespace Pari.Store

open Data Pari.Format Pari.Core Pari.Index

variable {scheme : SignatureScheme}

/-- What a caller sees of an index: its live keys, their number, and the answers to queries. -/
structure View (ε : Type) (scheme : SignatureScheme) where
  contains : UInt64 → Bool
  len : Nat
  query : MinHash scheme → Except ε (List UInt64)

/-- The view of an index that stores rows: it knows the keys that have one, and a compatible
query answers with the keys of the rows that share a band. -/
structure View.Shows {ε : Type} (config : LshConfig) (rows : Rows) (view : View ε scheme) : Prop where
  contains : ∀ key, view.contains key = true ↔ rows key ≠ none
  answers : ∀ sketch : MinHash scheme, config.Compatible sketch →
    ∃ keys, view.query sketch = .ok keys ∧ Ascending keys ∧
      ∀ key, key ∈ keys ↔ ∃ row, rows key = some row ∧
        SharesBand row (computeBandHashes config.params sketch.signature)
  rejects : ∀ sketch : MinHash scheme, ¬ config.Compatible sketch →
    ∃ error, view.query sketch = .error error

/-- A later view has exactly a batch more than an earlier one. -/
structure View.Adds {ε : Type} (config : LshConfig) (items : List (UInt64 × MinHash scheme))
    (before after : View ε scheme) : Prop where
  contains : ∀ key, after.contains key = true ↔
    before.contains key = true ∨ key ∈ items.map Prod.fst
  len : after.len = before.len + items.length
  answers : ∀ sketch keys, before.query sketch = .ok keys →
    ∃ keys', after.query sketch = .ok keys' ∧ Ascending keys' ∧
      ∀ key, key ∈ keys' ↔ key ∈ keys ∨ ∃ item ∈ items, item.1 = key ∧
        SharesBand (computeBandHashes config.params item.2.signature)
          (computeBandHashes config.params sketch.signature)
  rejects : ∀ sketch error, before.query sketch = .error error → after.query sketch = .error error

section Views

variable {ε : Type} {config : LshConfig} {rows : Rows} {items : List (UInt64 × MinHash scheme)}
  {before after : View ε scheme}

/-- A key has a row after a batch if it had one or is in the batch. -/
theorem insertRows_ne_none_iff {prepared : List (UInt64 × List UInt64)}
    (hdistinct : (prepared.map Prod.fst).Nodup) {key : UInt64} :
    insertRows rows prepared key ≠ none ↔ rows key ≠ none ∨ key ∈ prepared.map Prod.fst := by
  rw [Option.ne_none_iff_exists', Option.ne_none_iff_exists']
  simp only [insertRows_eq_some_iff hdistinct]
  constructor
  · rintro ⟨row, hmem | ⟨_, hrow⟩⟩
    · exact Or.inr (List.mem_map_of_mem (f := Prod.fst) hmem)
    · exact Or.inl ⟨row, hrow⟩
  · intro h
    by_cases hmem : key ∈ prepared.map Prod.fst
    · obtain ⟨⟨_, row⟩, hitem, rfl⟩ := List.mem_map.mp hmem
      exact ⟨row, Or.inl hitem⟩
    · obtain ⟨row, hrow⟩ := h.resolve_right hmem
      exact ⟨row, Or.inr ⟨hmem, hrow⟩⟩

/-- Rows with a batch more are seen as a view with the batch more. -/
theorem View.Shows.adds (hbefore : before.Shows config rows)
    (hafter : after.Shows config (insertRows rows (config.rowsOf items)))
    (hfresh : ∀ item ∈ items, rows item.1 = none) (hdistinct : (items.map Prod.fst).Nodup)
    (hlen : after.len = before.len + items.length)
    (herrors : ∀ sketch, ¬ config.Compatible sketch → after.query sketch = before.query sketch) :
    View.Adds config items before after where
  contains := by
    intro key
    have hkeys := PersistentIndexCore.fst_rowsOf config items
    rw [hafter.contains, hbefore.contains, insertRows_ne_none_iff (hkeys.symm ▸ hdistinct), hkeys]
  len := hlen
  answers := by
    intro sketch keys hkeys
    have hkeysOf := PersistentIndexCore.fst_rowsOf config items
    by_cases hsketch : config.Compatible sketch
    · obtain ⟨old, hold, _, hmemOld⟩ := hbefore.answers sketch hsketch
      obtain rfl : old = keys := Except.ok.inj (hold.symm.trans hkeys)
      obtain ⟨keys', hnew, hascending, hmemNew⟩ := hafter.answers sketch hsketch
      refine ⟨keys', hnew, hascending, fun key => ?_⟩
      rw [hmemNew, hmemOld]
      simp only [insertRows_eq_some_iff (hkeysOf.symm ▸ hdistinct)]
      constructor
      · rintro ⟨row, hmem | ⟨_, hrow⟩, hshared⟩
        · obtain ⟨item, hitem, heq⟩ := List.mem_map.mp hmem
          cases heq
          exact Or.inr ⟨item, hitem, rfl, hshared⟩
        · exact Or.inl ⟨row, hrow, hshared⟩
      · rintro (⟨row, hrow, hshared⟩ | ⟨item, hitem, rfl, hshared⟩)
        · have hnot : key ∉ (config.rowsOf items).map Prod.fst := by
            rw [hkeysOf]
            intro hmem
            obtain ⟨item, hitem, rfl⟩ := List.mem_map.mp hmem
            rw [hfresh item hitem] at hrow
            cases hrow
          exact ⟨row, Or.inr ⟨hnot, hrow⟩, hshared⟩
        · exact ⟨_, Or.inl (List.mem_map_of_mem (f := fun item : UInt64 × MinHash scheme =>
            (item.1, computeBandHashes config.params item.2.signature)) hitem), hshared⟩
    · obtain ⟨error, herror⟩ := hbefore.rejects sketch hsketch
      rw [hkeys] at herror
      cases herror
  rejects := by
    intro sketch error herror
    by_cases hsketch : config.Compatible sketch
    · obtain ⟨keys, hkeys, _⟩ := hbefore.answers sketch hsketch
      rw [hkeys] at herror
      cases herror
    · rw [herrors sketch hsketch, herror]

end Views

/-! ## The in-memory index -/

section Memory

variable {index : LshIndex scheme} {live : LiveItems scheme} {rows : Rows}
  {items : List (UInt64 × MinHash scheme)}

/-- What a caller sees of an in-memory index. -/
def memoryView (index : LshIndex scheme) : View LshError scheme where
  contains := index.contains
  len := index.len
  query := index.query

/-- The batches an in-memory index admits: new distinct keys, compatible sketches, and room for
as many identifiers beside all those ever allocated. -/
structure MemoryAdmits (index : LshIndex scheme) (items : List (UInt64 × MinHash scheme)) :
    Prop where
  fresh : ∀ item ∈ items, index.contains item.1 = false
  distinct : (items.map Prod.fst).Nodup
  compatible : ∀ item ∈ items, index.config.Compatible item.2
  capacity : index.data.idToKey.length + items.length ≤ 2 ^ 32 - 1

theorem contains_eq_false_iff_rows (h : index.Holds rows) {key : UInt64} :
    index.contains key = false ↔ rows key = none := by
  rw [h.rows_eq_none_iff, LshIndex.contains, Std.ExtTreeMap.contains_eq_isSome_getElem?,
    Option.isSome_eq_false_iff, Option.isNone_iff_eq_none]

theorem memoryAdmits_iff (h : index.Holds rows) :
    MemoryAdmits index items ↔ index.Accepts rows items := by
  constructor
  · intro hadmits
    exact ⟨fun item hitem => (contains_eq_false_iff_rows h).mp (hadmits.fresh item hitem),
      hadmits.distinct, hadmits.compatible, hadmits.capacity⟩
  · intro haccepts
    exact ⟨fun item hitem => (contains_eq_false_iff_rows h).mpr (haccepts.fresh item hitem),
      haccepts.distinct, haccepts.compatible, haccepts.capacity⟩

theorem ensureCompatible_of_not {sketch : MinHash scheme} (h : ¬ index.config.Compatible sketch) :
    ∃ error, index.query sketch = .error error := by
  cases hcase : index.ensureCompatible sketch with
  | error error => exact ⟨error, by rw [LshIndex.query, hcase, error_bind]⟩
  | ok _ => exact absurd (LshIndex.ensureCompatible_eq_ok_iff.mp hcase) h

theorem shows_memoryView (h : index.Holds rows) : (memoryView index).Shows index.config rows where
  contains := by
    intro key
    rw [← Bool.not_eq_false, Ne, ← contains_eq_false_iff_rows h]
    rfl
  answers := fun _ hsketch => h.query hsketch
  rejects := fun _ hsketch => ensureCompatible_of_not hsketch

/-- An index with the same configuration rejects a sketch with the same error. -/
theorem query_congr_of_not {other : LshIndex scheme} (hconfig : other.config = index.config)
    {sketch : MinHash scheme} (h : ¬ index.config.Compatible sketch) :
    other.query sketch = index.query sketch := by
  have hsame : other.ensureCompatible sketch = index.ensureCompatible sketch := by
    rw [LshIndex.ensureCompatible, LshIndex.ensureCompatible, hconfig]
  rw [LshIndex.query, LshIndex.query, hsame]
  cases hcase : index.ensureCompatible sketch with
  | error error => rw [error_bind, error_bind]
  | ok _ => exact absurd (LshIndex.ensureCompatible_eq_ok_iff.mp hcase) h

/-- An accepted batch is seen as added. -/
theorem adds_memoryView (h : index.Holds rows) (hitems : index.Accepts rows items) :
    View.Adds index.config items (memoryView index) (memoryView (index.insertMany items).2) := by
  obtain ⟨hconfig, _, hholds⟩ := h.insertMany_of_accepts hitems
  have hbefore := shows_memoryView h
  have hafter := shows_memoryView hholds
  rw [hconfig] at hafter
  have hkeys := PersistentIndexCore.fst_rowsOf index.config items
  refine hbefore.adds hafter hitems.fresh hitems.distinct ?_ fun sketch hsketch =>
    query_congr_of_not hconfig hsketch
  have hsize : (index.insertMany items).2.len = index.len + (items.map Prod.fst).length := by
    refine size_eq_add_length hitems.distinct ?_ fun key => ?_
    · intro key hkey
      obtain ⟨item, hitem, rfl⟩ := List.mem_map.mp hkey
      exact (contains_eq_false_iff_rows h).mpr (hitems.fresh item hitem)
    · exact (hafter.contains key).trans ((insertRows_ne_none_iff
        (hkeys.symm ▸ hitems.distinct)).trans (or_congr (hbefore.contains key).symm (hkeys ▸ Iff.rfl)))
  rw [List.length_map] at hsize
  exact hsize

end Memory

/-! ## The persistent index -/

section Persistent

variable {crc : Checksum} {core : PersistentIndexCore scheme}
  {items : List (UInt64 × MinHash scheme)}

/-- What a caller sees of a persistent index. -/
def persistentView (crc : Checksum) (core : PersistentIndexCore scheme) :
    View StoreError scheme where
  contains := core.contains
  len := core.len
  query := core.query crc

/-- The batches a persistent index admits: new distinct keys and compatible sketches. -/
structure PersistentAdmits (core : PersistentIndexCore scheme)
    (items : List (UInt64 × MinHash scheme)) : Prop where
  fresh : ∀ item ∈ items, core.contains item.1 = false
  distinct : (items.map Prod.fst).Nodup
  compatible : ∀ item ∈ items, core.config.Compatible item.2

theorem contains_eq_false_iff_liveRows {key : UInt64} :
    core.contains key = false ↔ core.liveRows key = none := by
  rw [← Bool.not_eq_true, PersistentIndexCore.contains, PersistentIndexCore.mem_keyHashes_iff,
    not_not]

theorem persistentAdmits_iff : PersistentAdmits core items ↔ core.AcceptsBatch items := by
  constructor
  · intro hadmits
    exact ⟨fun item hitem => contains_eq_false_iff_liveRows.mp (hadmits.fresh item hitem),
      hadmits.distinct, hadmits.compatible⟩
  · intro haccepts
    exact ⟨fun item hitem => contains_eq_false_iff_liveRows.mpr (haccepts.fresh item hitem),
      haccepts.distinct, haccepts.compatible⟩

theorem bandHashes_of_not {sketch : MinHash scheme} (h : ¬ core.config.Compatible sketch) :
    ∃ error, core.bandHashes sketch = .error error := by
  cases hcase : core.bandHashes sketch with
  | error error => exact ⟨error, rfl⟩
  | ok hashes => exact absurd (PersistentIndexCore.bandHashes_eq_ok_iff.mp hcase).1 h

theorem shows_persistentView (h : core.WellFormed crc) :
    (persistentView crc core).Shows core.config core.liveRows where
  contains := fun _ => PersistentIndexCore.mem_keyHashes_iff
  answers := fun _ hsketch => h.query hsketch
  rejects := by
    intro sketch hsketch
    obtain ⟨error, herror⟩ := bandHashes_of_not hsketch
    refine ⟨error, ?_⟩
    show core.query crc sketch = .error error
    rw [PersistentIndexCore.query, herror, error_bind]

/-- An admitted batch is seen as added. -/
theorem adds_persistentView (h : core.WellFormed crc) (hitems : core.AcceptsBatch items) :
    View.Adds core.config items (persistentView crc core)
      (persistentView crc (core.insertPrepared (core.config.rowsOf items))) := by
  obtain ⟨hwell, hrows, hconfig, _, _⟩ := h.insertPrepared hitems.freshBatch
  have hbefore := shows_persistentView h
  have hafter := shows_persistentView hwell
  rw [hconfig, hrows] at hafter
  have hkeys := PersistentIndexCore.fst_rowsOf core.config items
  refine hbefore.adds hafter hitems.fresh hitems.distinct ?_ fun sketch hsketch => ?_
  · have hsize : (core.insertPrepared (core.config.rowsOf items)).len =
        core.len + (items.map Prod.fst).length := by
      refine size_eq_add_length hitems.distinct ?_ fun key => ?_
      · intro key hkey
        obtain ⟨item, hitem, rfl⟩ := List.mem_map.mp hkey
        exact contains_eq_false_iff_liveRows.mpr (hitems.fresh item hitem)
      · exact (hafter.contains key).trans ((insertRows_ne_none_iff
          (hkeys.symm ▸ hitems.distinct)).trans
            (or_congr (hbefore.contains key).symm (hkeys ▸ Iff.rfl)))
    rw [List.length_map] at hsize
    exact hsize
  · obtain ⟨error, herror⟩ := bandHashes_of_not hsketch
    show PersistentIndexCore.query crc _ sketch = core.query crc sketch
    rw [PersistentIndexCore.query, PersistentIndexCore.query,
      PersistentIndexCore.bandHashes_congr hconfig, herror, error_bind, error_bind]

theorem dirty_insertPrepared (items : List (UInt64 × MinHash scheme)) :
    (core.insertPrepared (core.config.rowsOf items)).dirty = (core.dirty || !items.isEmpty) := by
  rw [PersistentIndexCore.insertPrepared]
  cases items with
  | nil =>
      rw [List.isEmpty_nil, Bool.not_true, Bool.or_false]
      rfl
  | cons item items => simp [LshConfig.rowsOf]

end Persistent

/-! ## Both indexes -/

/-- Whatever a run has made of an index, an insertion succeeds exactly on the batches the index
admits. A failed insertion leaves the index as it was, and a successful one adds exactly the
batch: to the live items, to the keys and answers a caller sees, to the identifiers in use, and
to what a persistent index has yet to publish. -/
theorem insertMany_exact (scheme : SignatureScheme) (items : List (UInt64 × MinHash scheme)) :
    (∀ (index : LshIndex scheme) (live : LiveItems scheme), Reachable index live →
      ((index.insertMany items).1 = .ok () ↔ MemoryAdmits index items) ∧
      (∀ error, (index.insertMany items).1 = .error error → (index.insertMany items).2 = index) ∧
      ((index.insertMany items).1 = .ok () →
        Reachable (index.insertMany items).2 (insertItems live items) ∧
        (index.insertMany items).2.config = index.config ∧
        (index.insertMany items).2.data.idToKey.length =
          index.data.idToKey.length + items.length ∧
        View.Adds index.config items (memoryView index)
          (memoryView (index.insertMany items).2))) ∧
    ∀ (crc : Checksum) (core : PersistentIndexCore scheme) (world : World), Reaches crc core world →
      ((core.insertMany items).1 = .ok () ↔ PersistentAdmits core items) ∧
      (∀ error, (core.insertMany items).1 = .error error → (core.insertMany items).2 = core) ∧
      ((core.insertMany items).1 = .ok () →
        Reaches crc (core.insertMany items).2 world ∧
        (core.insertMany items).2.config = core.config ∧
        (core.insertMany items).2.path = core.path ∧
        (core.insertMany items).2.liveRows =
          insertRows core.liveRows (core.config.rowsOf items) ∧
        (core.insertMany items).2.dirty = (core.dirty || !items.isEmpty) ∧
        View.Adds core.config items (persistentView crc core)
          (persistentView crc (core.insertMany items).2)) := by
  constructor
  · intro index live hrun
    have hholds := hrun.holds
    refine ⟨hholds.insertMany_ok_iff.trans (memoryAdmits_iff hholds).symm,
      fun error => LshIndex.insertMany_of_error, fun hok => ?_⟩
    have haccepts := hholds.insertMany_ok_iff.mp hok
    obtain ⟨hconfig, hlength, _⟩ := hholds.insertMany_of_accepts haccepts
    exact ⟨hrun.insertMany items hok, hconfig, hlength, adds_memoryView hholds haccepts⟩
  · intro crc core world hrun
    obtain ⟨_, hpublished⟩ := hrun.published
    rcases core.insertMany_cases items with ⟨error, herror⟩ | ⟨haccepts, hok⟩
    · rw [herror]
      refine ⟨⟨fun h => (by cases h), fun hadmits => ?_⟩, fun _ _ => rfl, fun h => (by cases h)⟩
      rw [(persistentAdmits_iff.mp hadmits).insertMany] at herror
      cases herror
    · have hreaches := hrun.step (.insertMany hok)
      obtain ⟨_, hrows, hconfig, hpath, _⟩ :=
        hpublished.wellFormed.insertPrepared haccepts.freshBatch
      rw [hok]
      refine ⟨⟨fun _ => persistentAdmits_iff.mpr haccepts, fun _ => rfl⟩, fun _ h => (by cases h),
        fun _ => ⟨hreaches, hconfig, hpath, hrows, dirty_insertPrepared items,
          adds_persistentView hpublished.wellFormed haccepts⟩⟩

/-- Both sample indexes take a new key. -/
theorem insertMany_exact_sample :
    (∃ index : LshIndex .pariAffine32V1, (index.insertMany [(9, sampleSketch)]).1 = .ok () ∧
      (memoryView (index.insertMany [(9, sampleSketch)]).2).contains 9 = true) ∧
    ∃ core : PersistentIndex32, core.keyHashes = sampleCore.keyHashes ∧
      (core.insertMany [(9, sampleSketch)]).1 = .ok () ∧
      (core.insertMany [(9, sampleSketch)]).2.dirty = true := by
  obtain ⟨hmemory, hpersistent⟩ := insertMany_exact .pariAffine32V1 [(9, sampleSketch)]
  have hsketch : ∀ item ∈ [((9 : UInt64), sampleSketch)], sampleConfig.Compatible item.2 := by
    intro item hitem
    obtain rfl := List.mem_singleton.mp hitem
    exact ⟨rfl, rfl⟩
  constructor
  · obtain ⟨hadmits, _, hok⟩ := hmemory _ _ (sampleReachable [(7, sampleSketch)] (by decide))
    have hinsert := hadmits.mpr ⟨by decide, by decide, hsketch, by decide⟩
    exact ⟨_, hinsert, ((hok hinsert).2.2.2.contains 9).mpr (Or.inr (by decide))⟩
  · obtain ⟨bytes, core, world, hopen, hmatch, hconfig, hkeys⟩ := exists_sample_opened
    obtain ⟨hadmits, _, hok⟩ := hpersistent _ core world (.start (.opened hopen hmatch))
    have hfresh : core.contains 9 = false := by
      rw [PersistentIndexCore.contains, hkeys]
      decide
    have hinsert := hadmits.mpr ⟨by simpa using hfresh, by decide, hconfig.symm ▸ hsketch⟩
    have hdirty := (hok hinsert).2.2.2.2.1
    exact ⟨core, hkeys, hinsert, by rw [hdirty]; simp⟩

end Pari.Store
