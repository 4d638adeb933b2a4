/-
# Base, overlay and suppressed keys

The live rows of a persistent index are spread over three places: a live key is either in
the overlay or among the committed keys that are not suppressed. `WellFormed` states this
as one equation between partial functions, every mutation preserves it, and a query over
base and overlay answers from the live rows alone.
-/

import Pari.Index.LiveItems
import Pari.Store.PersistentIndex

namespace Pari.Store

open Data Pari.Format Pari.Core Pari.Index

/-! ## Maps as assignments of rows -/

/-- The rows of a key map. -/
def rowsOfMap (keyHashes : OrderedMap UInt64 (List UInt64)) : Rows := fun key => keyHashes[key]?

theorem rowsOfMap_empty : rowsOfMap ∅ = fun _ => none := by
  funext key
  simp [rowsOfMap]

theorem rowsOfMap_insert (keyHashes : OrderedMap UInt64 (List UInt64)) (key : UInt64)
    (hashes : List UInt64) :
    rowsOfMap (keyHashes.insert key hashes) =
      Function.update (rowsOfMap keyHashes) key (some hashes) := by
  funext other
  by_cases heq : other = key
  · simp [rowsOfMap, heq]
  · rw [Function.update_of_ne heq, rowsOfMap, getElem?_insert, if_neg fun h => heq h.symm, rowsOfMap]

theorem rowsOfMap_erase (keyHashes : OrderedMap UInt64 (List UInt64)) (key : UInt64) :
    rowsOfMap (keyHashes.erase key) = Function.update (rowsOfMap keyHashes) key none := by
  funext other
  by_cases heq : other = key
  · simp [rowsOfMap, heq]
  · rw [Function.update_of_ne heq, rowsOfMap, getElem?_erase, if_neg fun h => heq h.symm, rowsOfMap]

/-- A map is determined by its rows. -/
theorem rowsOfMap_injective : Function.Injective rowsOfMap := by
  intro left right h
  exact Std.ExtTreeMap.ext_getElem? fun key => congrFun h key

theorem FreshBatch.of_map {bands : Nat} {keyHashes : OrderedMap UInt64 (List UInt64)}
    (h : ∀ (key : UInt64) (row : List UInt64), keyHashes[key]? = some row → row.length = bands) :
    FreshBatch bands (fun _ => none) keyHashes.toList where
  fresh := fun _ _ => rfl
  distinct := ascending_keys.nodup
  width := by
    rintro ⟨key, row⟩ hmem
    exact h key row (mem_toList_iff.mp hmem)

/-- What a batch with distinct keys assigns. -/
theorem insertRows_eq_some_iff {rows : Rows} {items : List (UInt64 × List UInt64)}
    (hdistinct : (items.map Prod.fst).Nodup) {key : UInt64} {row : List UInt64} :
    insertRows rows items key = some row ↔
      (key, row) ∈ items ∨ (key ∉ items.map Prod.fst ∧ rows key = some row) := by
  induction items generalizing rows with
  | nil => simp
  | cons item items ih =>
      rw [List.map_cons, List.nodup_cons] at hdistinct
      rw [insertRows_cons, ih hdistinct.2, List.mem_cons, List.map_cons, List.mem_cons, not_or]
      by_cases heq : key = item.1
      · have hnot : (key, row) ∉ items := fun hmem =>
          hdistinct.1 (heq ▸ List.mem_map_of_mem (f := Prod.fst) hmem)
        rw [heq, Function.update_self, Option.some.injEq]
        rw [heq] at hnot
        simp only [hnot, false_or, hdistinct.1, not_false_eq_true, true_and, or_false, not_true,
          false_and]
        constructor
        · rintro rfl
          rfl
        · exact fun h => congrArg Prod.snd h.symm
      · rw [Function.update_of_ne heq]
        have hne : (key, row) ≠ item := fun h => heq (congrArg Prod.fst h)
        simp only [hne, false_or, heq, not_false_eq_true, true_and]

/-- Assigning the entries of a map one by one gives its rows. -/
theorem insertRows_toList (keyHashes : OrderedMap UInt64 (List UInt64)) :
    insertRows (fun _ => none) keyHashes.toList = rowsOfMap keyHashes := by
  funext key
  refine Option.ext fun row => ?_
  rw [insertRows_eq_some_iff ascending_keys.nodup, mem_toList_iff]
  simp [rowsOfMap]

/-! ## Committed buckets -/

/-- Records that file every key exactly under the hashes of its row. -/
def RecordsSelect (records : List BucketRecord) (bands : Nat) (rows : Rows) : Prop :=
  ∀ (band : Nat) (hash key : UInt64), band < bands →
    ((∃ record ∈ records, record.key = ⟨UInt32.ofNat band, hash⟩ ∧ key ∈ record.members) ↔
      ∃ row, rows key = some row ∧ row[band]? = some hash)

/-- The bucket records of items with distinct keys select their rows. -/
theorem recordsSelect_bucketRecords {bands : Nat} {items : List (UInt64 × List UInt64)}
    {rows : Rows} (hword : bands < 2 ^ 32) (hwidth : ∀ item ∈ items, item.2.length = bands)
    (hrows : ∀ (key : UInt64) (row : List UInt64), rows key = some row ↔ (key, row) ∈ items) :
    RecordsSelect (bucketRecords items) bands rows := by
  intro band hash key hband
  have hsmall : ∀ item ∈ items, item.2.length < 2 ^ 32 := fun item hitem => by
    rw [hwidth item hitem]
    exact hword
  have hbandWord : (UInt32.ofNat band).toNat = band := toNat_ofNat32 (by omega)
  constructor
  · rintro ⟨record, hrecord, hkey, hmember⟩
    obtain ⟨row, hmem, hrow⟩ := (mem_members_iff hsmall hrecord).mp hmember
    refine ⟨row, (hrows key row).mpr hmem, ?_⟩
    rw [hkey] at hrow
    simpa [hbandWord] using hrow
  · rintro ⟨row, hrow, hhash⟩
    have hmem := (hrows key row).mp hrow
    obtain ⟨record, hrecord, hkey⟩ := @exists_bucketRecord _ key ⟨UInt32.ofNat band, hash⟩ hsmall row
      hmem (by simpa [hbandWord] using hhash)
    refine ⟨record, hrecord, hkey, (mem_members_iff hsmall hrecord).mpr ⟨row, hmem, ?_⟩⟩
    rw [hkey]
    simpa [hbandWord] using hhash

/-- A base whose buckets file every key under the hashes of its row. -/
def LazyBase.Holds (crc : Checksum) (base : LazyBase) (bands : Nat) (committed : Rows) : Prop :=
  ∃ records, DirectoryHolds crc base.layout base.file base.buckets records ∧
    RecordsSelect records bands committed

/-- The committed rows of a base, or none. -/
def BaseHolds (crc : Checksum) (bands : Nat) : Option LazyBase → Rows → Prop
  | none, committed => ∀ key, committed key = none
  | some base, committed => base.Holds crc bands committed

/-- A query of a directory collects the kept keys whose rows share a band with it. -/
theorem DirectoryHolds.collectMembers_rows {ε : Type} {errors : ErrorWrapping ε} {crc : Checksum}
    {layout : FileLayout} {file : Bytes} {directory : List BucketLocation}
    {records : List BucketRecord} {bands : Nat} {rows : Rows}
    (h : DirectoryHolds crc layout file directory records) (hselect : RecordsSelect records bands rows)
    (hword : bands < 2 ^ 32) {keep : UInt64 → Bool} {hashes : List UInt64}
    (hlength : hashes.length = bands) {output : OrderedSet UInt64} :
    ∃ result, Store.collectMembers errors crc layout file directory keep 0 hashes output =
        .ok result ∧
      ∀ member, member ∈ result ↔ member ∈ output ∨
        (keep member = true ∧ ∃ row, rows member = some row ∧ SharesBand row hashes) := by
  obtain ⟨result, hresult, hmem⟩ := @DirectoryHolds.collectMembers ε errors crc layout file records
    directory keep h 0 hashes output (by omega)
  refine ⟨result, hresult, fun member => ?_⟩
  rw [hmem]
  refine or_congr_right (and_congr_right fun _ => ?_)
  constructor
  · rintro ⟨index, hash, hhash, hrecord⟩
    have hindex : index < bands := hlength ▸ (List.getElem?_eq_some_iff.mp hhash).1
    rw [Nat.zero_add] at hrecord
    obtain ⟨row, hrow, hshared⟩ := (hselect index hash member hindex).mp hrecord
    exact ⟨row, hrow, index, hash, hshared, hhash⟩
  · rintro ⟨row, hrow, band, hash, hshared, hhash⟩
    have hindex : band < bands := hlength ▸ (List.getElem?_eq_some_iff.mp hhash).1
    refine ⟨band, hash, hhash, ?_⟩
    rw [Nat.zero_add]
    exact (hselect band hash member hindex).mpr ⟨row, hrow, hshared⟩

namespace PersistentIndexCore

variable {scheme : SignatureScheme} {core : PersistentIndexCore scheme} {crc : Checksum}
  {key : UInt64} {hashes : List UInt64}

/-- The rows of the live keys. -/
def liveRows (core : PersistentIndexCore scheme) : Rows := rowsOfMap core.keyHashes

/-- The rows of the keys in the overlay. -/
def overlayRows (core : PersistentIndexCore scheme) : Rows := fun key =>
  if key ∈ core.overlayKeys then core.liveRows key else none

/-- The live keys outside the overlay are exactly the committed keys that are not
suppressed, with the same rows. -/
def Splits (core : PersistentIndexCore scheme) (committed : Rows) : Prop :=
  ∀ key, (if key ∈ core.suppressedBaseKeys then none else committed key) =
    if key ∈ core.overlayKeys then none else core.liveRows key

/-- What every reachable state satisfies. -/
structure WellFormed (crc : Checksum) (core : PersistentIndexCore scheme) : Prop where
  width : ∀ (key : UInt64) (row : List UInt64), core.liveRows key = some row →
    row.length = core.config.params.bands
  overlay : RepresentsRows core.config.params.bands core.overlayBuckets core.overlayRows
  committed : ∃ committed, BaseHolds crc core.config.params.bands core.base committed ∧
    core.Splits committed

/-- The number of bands is a 32-bit number. -/
theorem bands_lt (config : LshConfig) : config.params.bands < 2 ^ 32 := by
  obtain ⟨_, _, hword, _, hrows, hused⟩ := config.bounds
  have : config.params.bands ≤ config.params.bands * config.params.rows :=
    Nat.le_mul_of_pos_right _ hrows
  omega

theorem wellFormed_empty (path : Path) (config : LshConfig) :
    (empty scheme path config).WellFormed crc where
  width := by simp [empty, liveRows, rowsOfMap]
  overlay := by
    have hnone : (empty scheme path config).overlayRows = fun _ => none := by
      funext key
      simp [empty, overlayRows]
    rw [hnone]
    exact RepresentsRows.empty _
  committed := by
    refine ⟨fun _ => none, fun _ => rfl, fun key => ?_⟩
    simp [empty, liveRows, rowsOfMap]

/-- An index without an overlay whose base holds its rows. -/
theorem wellFormed_of_committed
    (hwidth : ∀ (key : UInt64) (row : List UInt64), core.liveRows key = some row →
      row.length = core.config.params.bands)
    (hoverlay : core.overlayBuckets = emptyBucketTables core.config.params.bands)
    (hkeys : core.overlayKeys = ∅) (hsuppressed : core.suppressedBaseKeys = ∅)
    (hbase : BaseHolds crc core.config.params.bands core.base core.liveRows) :
    core.WellFormed crc where
  width := hwidth
  overlay := by
    have hnone : core.overlayRows = fun _ => none := by
      funext key
      simp [overlayRows, hkeys]
    rw [hnone, hoverlay]
    exact RepresentsRows.empty _
  committed := by
    refine ⟨core.liveRows, hbase, fun key => ?_⟩
    simp [hkeys, hsuppressed]

/-! ## Mutations -/

section Mutations

@[simp]
theorem config_insertOverlay : (core.insertOverlay key hashes).config = core.config := rfl

theorem liveRows_insertOverlay :
    (core.insertOverlay key hashes).liveRows = Function.update core.liveRows key (some hashes) :=
  rowsOfMap_insert core.keyHashes key hashes

theorem mem_overlayKeys_insertOverlay {other : UInt64} :
    other ∈ (core.insertOverlay key hashes).overlayKeys ↔ other = key ∨ other ∈ core.overlayKeys :=
  mem_insert_iff

/-- Filing a new key in the overlay. -/
theorem WellFormed.insertOverlay (h : core.WellFormed crc) (hfresh : core.liveRows key = none)
    (hwidth : hashes.length = core.config.params.bands) :
    (core.insertOverlay key hashes).WellFormed crc := by
  have hold : core.overlayRows key = none := by rw [overlayRows, hfresh, ite_self]
  have hoverlay : (core.insertOverlay key hashes).overlayRows =
      Function.update core.overlayRows key (some hashes) := by
    funext other
    by_cases heq : other = key
    · rw [overlayRows, liveRows_insertOverlay, if_pos (mem_overlayKeys_insertOverlay.mpr (Or.inl heq)),
        heq, Function.update_self, Function.update_self]
    · rw [overlayRows, liveRows_insertOverlay, Function.update_of_ne heq, Function.update_of_ne heq,
        overlayRows]
      simp only [mem_overlayKeys_insertOverlay, heq, false_or]
  refine ⟨?_, ?_, ?_⟩
  · intro other row hrow
    rw [liveRows_insertOverlay] at hrow
    by_cases heq : other = key
    · rw [heq, Function.update_self] at hrow
      rw [← Option.some.inj hrow]
      exact hwidth
    · rw [Function.update_of_ne heq] at hrow
      exact h.width other row hrow
  · rw [hoverlay]
    exact h.overlay.addRow hwidth hold
  · obtain ⟨committed, hbase, hsplits⟩ := h.committed
    refine ⟨committed, hbase, fun other => ?_⟩
    have hother : (if other ∈ (core.insertOverlay key hashes).suppressedBaseKeys then none
        else committed other) = _ := hsplits other
    rw [hother, liveRows_insertOverlay]
    by_cases heq : other = key
    · rw [if_pos (mem_overlayKeys_insertOverlay.mpr (Or.inl heq)), heq, hfresh, ite_self]
    · rw [Function.update_of_ne heq]
      simp only [mem_overlayKeys_insertOverlay, heq, false_or]

theorem liveRows_removeLive :
    (core.removeLive key hashes).liveRows = Function.update core.liveRows key none :=
  rowsOfMap_erase core.keyHashes key

theorem mem_overlayKeys_removeLive {other : UInt64} :
    other ∈ (core.removeLive key hashes).overlayKeys ↔ other ≠ key ∧ other ∈ core.overlayKeys :=
  mem_erase_iff

theorem mem_suppressedBaseKeys_removeLive {other : UInt64} :
    other ∈ (core.removeLive key hashes).suppressedBaseKeys ↔
      (other = key ∧ core.base ≠ none ∧ key ∉ core.overlayKeys) ∨
        other ∈ core.suppressedBaseKeys := by
  dsimp only [PersistentIndexCore.removeLive]
  by_cases hmem : key ∈ core.overlayKeys
  · have hcontains : core.overlayKeys.contains key = true := hmem
    simp [hcontains, hmem]
  · have hcontains := contains_eq_false_iff.mpr hmem
    cases hbase : core.base with
    | none => simp
    | some base =>
        simp only [Option.isSome_some, hcontains, Bool.not_false, Bool.and_self, if_true,
          mem_insert_iff, ne_eq, reduceCtorEq, not_false_eq_true, hmem, and_true]

/-- Forgetting a live key. -/
theorem WellFormed.removeLive (h : core.WellFormed crc) (hrow : core.liveRows key = some hashes) :
    (core.removeLive key hashes).WellFormed crc := by
  have hoverlay : (core.removeLive key hashes).overlayRows =
      Function.update core.overlayRows key none := by
    funext other
    by_cases heq : other = key
    · rw [overlayRows, if_neg fun hmem => (mem_overlayKeys_removeLive.mp hmem).1 heq, heq,
        Function.update_self]
    · rw [overlayRows, liveRows_removeLive, Function.update_of_ne heq, Function.update_of_ne heq,
        overlayRows]
      simp only [mem_overlayKeys_removeLive, ne_eq, heq, not_false_eq_true, true_and]
  refine ⟨?_, ?_, ?_⟩
  · intro other row hother
    rw [liveRows_removeLive] at hother
    by_cases heq : other = key
    · rw [heq, Function.update_self] at hother
      cases hother
    · rw [Function.update_of_ne heq] at hother
      exact h.width other row hother
  · rw [hoverlay]
    refine h.overlay.removeRow (h.width key hashes hrow) ?_
    by_cases hmem : key ∈ core.overlayKeys
    · exact Or.inr (by rw [overlayRows, if_pos hmem, hrow])
    · exact Or.inl (by rw [overlayRows, if_neg hmem])
  · obtain ⟨committed, hbase, hsplits⟩ := h.committed
    refine ⟨committed, hbase, fun other => ?_⟩
    have hother := hsplits other
    by_cases heq : other = key
    · -- The removed key is live nowhere, so its committed generation must be hidden.
      rw [liveRows_removeLive, heq, Function.update_self, ite_self]
      rw [heq] at hother
      by_cases hmem : key ∈ core.overlayKeys
      · rw [if_pos hmem] at hother
        simp only [mem_suppressedBaseKeys_removeLive, hmem, not_true, and_false, false_or]
        exact hother
      · cases hnone : core.base with
        | none =>
            rw [hnone] at hbase
            rw [hbase key, ite_self]
        | some base =>
            refine if_pos (mem_suppressedBaseKeys_removeLive.mpr (Or.inl ⟨rfl, ?_, hmem⟩))
            rw [hnone]
            simp
    · rw [liveRows_removeLive, Function.update_of_ne heq]
      simp only [mem_suppressedBaseKeys_removeLive, mem_overlayKeys_removeLive, heq, false_and,
        false_or, ne_eq, not_false_eq_true, true_and]
      exact hother

/-- Removal reports whether the key was live, and forgets it. -/
theorem WellFormed.remove (h : core.WellFormed crc) (key : UInt64) :
    (core.remove key).1 = (core.liveRows key).isSome ∧
      (core.remove key).2.liveRows = Function.update core.liveRows key none ∧
      (core.remove key).2.WellFormed crc := by
  rw [PersistentIndexCore.remove]
  cases hkey : core.keyHashes[key]? with
  | none =>
      have hnone : core.liveRows key = none := hkey
      rw [hnone]
      exact ⟨rfl, (Function.update_eq_self_iff.mpr hnone.symm).symm, h⟩
  | some hashes =>
      have hrow : core.liveRows key = some hashes := hkey
      rw [hrow]
      exact ⟨rfl, liveRows_removeLive, h.removeLive hrow⟩

theorem validateBatch_eq_ok_iff {batchKeys : OrderedSet UInt64}
    {prepared : List (UInt64 × List UInt64)} {result : Unit} :
    core.validateBatch batchKeys prepared = .ok result ↔
      (∀ item ∈ prepared, core.liveRows item.1 = none) ∧
      (∀ item ∈ prepared, item.1 ∉ batchKeys) ∧ (prepared.map Prod.fst).Nodup := by
  induction prepared generalizing batchKeys with
  | nil => simp [validateBatch]
  | cons item prepared ih =>
      have hlive : core.keyHashes.contains item.1 = true ↔ core.liveRows item.1 ≠ none := by
        rw [Std.ExtTreeMap.contains_eq_isSome_getElem?, Option.isSome_iff_ne_none]
        rfl
      simp only [validateBatch, bind_eq_ok_iff, rejectIf_eq_ok_iff, exists_const, ih, hlive, not_or,
        not_not, List.forall_mem_cons, List.map_cons, List.nodup_cons, ne_eq,
        Std.ExtTreeSet.contains_iff_mem, Std.ExtTreeSet.mem_insert, compare_eq_iff_eq]
      constructor
      · rintro ⟨⟨hfresh, hbatch⟩, hrest, hnot, hnodup⟩
        refine ⟨⟨hfresh, hrest⟩, ⟨hbatch, fun other hother => (hnot other hother).2⟩, ?_, hnodup⟩
        intro hmem
        obtain ⟨other, hother, heq⟩ := List.mem_map.mp hmem
        exact (hnot other hother).1 heq.symm
      · rintro ⟨⟨hfresh, hrest⟩, ⟨hbatch, hnot⟩, hitem, hnodup⟩
        refine ⟨⟨hfresh, hbatch⟩, hrest, fun other hother => ⟨?_, hnot other hother⟩, hnodup⟩
        intro heq
        exact hitem (List.mem_map.mpr ⟨other, hother, heq.symm⟩)

/-- Inserting a fresh batch into the overlay assigns its rows. -/
theorem WellFormed.insertBatch {prepared : List (UInt64 × List UInt64)} (h : core.WellFormed crc)
    (hbatch : FreshBatch core.config.params.bands core.liveRows prepared) :
    (prepared.foldl (fun core item => core.insertOverlay item.1 item.2) core).WellFormed crc ∧
      (prepared.foldl (fun core item => core.insertOverlay item.1 item.2) core).liveRows =
        insertRows core.liveRows prepared := by
  induction prepared generalizing core with
  | nil => exact ⟨h, rfl⟩
  | cons item prepared ih =>
      have hstep := h.insertOverlay (hbatch.fresh item List.mem_cons_self)
        (hbatch.width item List.mem_cons_self)
      have htail := hbatch.tail
      rw [← liveRows_insertOverlay] at htail
      obtain ⟨hwell, hrows⟩ := ih hstep htail
      rw [List.foldl_cons, insertRows_cons, ← liveRows_insertOverlay]
      exact ⟨hwell, hrows⟩

end Mutations

/-! ## Queries -/

section Queries

theorem mem_keyHashes_iff : core.keyHashes.contains key = true ↔ core.liveRows key ≠ none := by
  rw [Std.ExtTreeMap.contains_eq_isSome_getElem?, Option.isSome_iff_ne_none]
  rfl

theorem mem_filter_live {output : OrderedSet UInt64} :
    key ∈ output.filter (fun other => core.keyHashes.contains other) ↔
      key ∈ output ∧ core.liveRows key ≠ none := by
  rw [Std.ExtTreeSet.mem_filter]
  simp only [Std.ExtTreeSet.get_eq, mem_keyHashes_iff, exists_prop]

/-- The base contributes the live committed keys that share a band and are not suppressed. -/
theorem collectCommitted_spec {committed : Rows}
    (hbase : BaseHolds crc core.config.params.bands core.base committed)
    (hlength : hashes.length = core.config.params.bands) {output : OrderedSet UInt64} :
    ∃ result, core.collectCommitted crc hashes output = .ok result ∧
      ∀ member, member ∈ result ↔ member ∈ output ∨
        ((core.liveRows member ≠ none ∧ member ∉ core.suppressedBaseKeys) ∧
          ∃ row, committed member = some row ∧ SharesBand row hashes) := by
  rw [PersistentIndexCore.collectCommitted]
  cases hcase : core.base with
  | none =>
      rw [hcase] at hbase
      exact ⟨output, rfl, by simp [hbase _]⟩
  | some base =>
      rw [hcase] at hbase
      obtain ⟨records, hdirectory, hselect⟩ := hbase
      obtain ⟨result, hresult, hmem⟩ := @DirectoryHolds.collectMembers_rows _ StoreError.wrapping
        crc _ _ _ _ _ _ hdirectory hselect (bands_lt core.config)
        (fun member => core.keyHashes.contains member && !core.suppressedBaseKeys.contains member)
        hashes hlength output
      refine ⟨result, hresult, fun member => ?_⟩
      rw [hmem, Bool.and_eq_true, mem_keyHashes_iff, Bool.not_eq_true', contains_eq_false_iff]

/-- A query fails only on a committed location. -/
theorem exists_queryHashes
    (hreads : ∀ base, core.base = some base → ∀ location ∈ base.buckets,
      succeeds (readBucketMembers crc base.layout base.file location))
    (hlength : hashes.length = core.config.params.bands) :
    succeeds (core.queryHashes crc hashes) := by
  have hcommitted : succeeds (core.collectCommitted crc hashes ∅) := by
    rw [PersistentIndexCore.collectCommitted]
    cases hbase : core.base with
    | none => exact ⟨∅, rfl⟩
    | some base =>
        have hword := bands_lt core.config
        exact exists_collectMembers (hreads base hbase) (by omega) ∅
  obtain ⟨found, hfound⟩ := hcommitted
  rw [PersistentIndexCore.queryHashes, PersistentIndexCore.collectCandidates, hfound]
  exact ⟨_, rfl⟩

/-- A query collects exactly the live keys whose rows share a band with it. -/
theorem WellFormed.collectCandidates (h : core.WellFormed crc)
    (hlength : hashes.length = core.config.params.bands) :
    ∃ result, core.collectCandidates crc hashes ∅ = .ok result ∧
      ∀ key, key ∈ result ↔ ∃ row, core.liveRows key = some row ∧ SharesBand row hashes := by
  obtain ⟨committed, hbase, hsplits⟩ := h.committed
  obtain ⟨found, hfound, hmem⟩ := @collectCommitted_spec _ core crc hashes committed hbase
    hlength ∅
  refine ⟨(found.insertMany (candidates core.overlayBuckets hashes)).filter
    fun key => core.keyHashes.contains key, ?_, fun key => ?_⟩
  · rw [PersistentIndexCore.collectCandidates, hfound]
    rfl
  rw [mem_filter_live, mem_insertMany, hmem, h.overlay.mem_candidates_iff]
  have hkey := hsplits key
  constructor
  · rintro ⟨(hnone | ⟨⟨_, hsuppressed⟩, row, hrow, hshared⟩) | ⟨row, hrow, hshared⟩, hlive⟩
    · simp at hnone
    · rw [if_neg hsuppressed, hrow] at hkey
      by_cases hmem : key ∈ core.overlayKeys
      · rw [if_pos hmem] at hkey
        cases hkey
      · rw [if_neg hmem] at hkey
        exact ⟨row, hkey.symm, hshared⟩
    · by_cases hmem : key ∈ core.overlayKeys
      · rw [overlayRows, if_pos hmem] at hrow
        exact ⟨row, hrow, hshared⟩
      · rw [overlayRows, if_neg hmem] at hrow
        cases hrow
  · rintro ⟨row, hrow, hshared⟩
    have hlive : core.liveRows key ≠ none := by
      rw [hrow]
      simp
    refine ⟨?_, hlive⟩
    by_cases hmem : key ∈ core.overlayKeys
    · exact Or.inr ⟨row, by rw [overlayRows, if_pos hmem, hrow], hshared⟩
    · rw [if_neg hmem, hrow] at hkey
      by_cases hsuppressed : key ∈ core.suppressedBaseKeys
      · rw [if_pos hsuppressed] at hkey
        cases hkey
      · rw [if_neg hsuppressed] at hkey
        exact Or.inl (Or.inr ⟨⟨hlive, hsuppressed⟩, row, hkey, hshared⟩)

theorem bandHashes_eq_ok_iff {sketch : MinHash scheme} :
    core.bandHashes sketch = .ok hashes ↔
      core.config.Compatible sketch ∧
        hashes = computeBandHashes core.config.params sketch.signature := by
  obtain ⟨_, _, hword, _, _, hused⟩ := core.config.bounds
  simp only [bandHashes, bind_eq_ok_iff, rejectIf_eq_ok_iff, exists_const, not_not, ne_eq,
    okOr_eq_ok_iff, LshParams.usedPermutations, checkedMul_eq_some_iff, pure_eq_ok_iff]
  constructor
  · rintro ⟨hseed, hnumPerm, _, _, rfl⟩
    exact ⟨⟨hseed, hnumPerm⟩, rfl⟩
  · rintro ⟨hsketch, rfl⟩
    exact ⟨hsketch.seed, hsketch.numPerm, _, ⟨by omega, rfl⟩, rfl⟩

/-- Queries with a full row of hashes answer with the ascending list of the live keys that
share a band. -/
theorem WellFormed.queryHashes (h : core.WellFormed crc)
    (hlength : hashes.length = core.config.params.bands) :
    ∃ keys, core.queryHashes crc hashes = .ok keys ∧ Ascending keys ∧
      ∀ key, key ∈ keys ↔ ∃ row, core.liveRows key = some row ∧ SharesBand row hashes := by
  obtain ⟨found, hfound, hmem⟩ := h.collectCandidates hlength
  refine ⟨sortUnstable found.toList, ?_, sortUnstable_ascending ascending_toList.nodup, ?_⟩
  · rw [PersistentIndexCore.queryHashes, hfound]
    rfl
  · intro key
    rw [mem_sortUnstable, Std.ExtTreeSet.mem_toList, hmem]

theorem WellFormed.query (h : core.WellFormed crc) {sketch : MinHash scheme}
    (hsketch : core.config.Compatible sketch) :
    ∃ keys, core.query crc sketch = .ok keys ∧ Ascending keys ∧
      ∀ key, key ∈ keys ↔ ∃ row, core.liveRows key = some row ∧
        SharesBand row (computeBandHashes core.config.params sketch.signature) := by
  have hbands : core.bandHashes sketch = .ok _ := bandHashes_eq_ok_iff.mpr ⟨hsketch, rfl⟩
  obtain ⟨keys, hkeys, hspec⟩ := h.queryHashes hsketch.length_bandHashes
  exact ⟨keys, by rw [PersistentIndexCore.query, hbands, ok_bind, hkeys], hspec⟩

end Queries

section Congruence

variable {other : PersistentIndexCore scheme}

theorem bandHashes_congr (hconfig : other.config = core.config) :
    (other.bandHashes : MinHash scheme → _) = core.bandHashes := by
  funext sketch
  rw [bandHashes, bandHashes, hconfig]

theorem length_of_bandHashes {sketch : MinHash scheme} (h : core.bandHashes sketch = .ok hashes) :
    hashes.length = core.config.params.bands := by
  obtain ⟨hsketch, rfl⟩ := bandHashes_eq_ok_iff.mp h
  exact hsketch.length_bandHashes

theorem WellFormed.queryHashes_congr (h : core.WellFormed crc) (hother : other.WellFormed crc)
    (hconfig : other.config = core.config) (hrows : other.liveRows = core.liveRows)
    (hlength : hashes.length = core.config.params.bands) :
    other.queryHashes crc hashes = core.queryHashes crc hashes := by
  obtain ⟨keys, hkeys, hsorted, hmem⟩ := h.queryHashes hlength
  obtain ⟨keys', hkeys', hsorted', hmem'⟩ := hother.queryHashes (hconfig ▸ hlength)
  have hsame : keys' = keys := hsorted'.ext hsorted fun key => by rw [hmem, hmem', hrows]
  rw [hkeys, hkeys', hsame]

/-- Two well-formed indexes with the same configuration and rows answer every query alike. -/
theorem WellFormed.query_congr (h : core.WellFormed crc) (hother : other.WellFormed crc)
    (hconfig : other.config = core.config) (hrows : other.liveRows = core.liveRows)
    (sketch : MinHash scheme) : other.query crc sketch = core.query crc sketch := by
  rw [PersistentIndexCore.query, PersistentIndexCore.query, bandHashes_congr hconfig]
  cases hhashes : core.bandHashes sketch with
  | error error => rw [error_bind, error_bind]
  | ok hashes => exact h.queryHashes_congr hother hconfig hrows (length_of_bandHashes hhashes)

theorem WellFormed.queryMany_congr (h : core.WellFormed crc) (hother : other.WellFormed crc)
    (hconfig : other.config = core.config) (hrows : other.liveRows = core.liveRows)
    (sketches : List (MinHash scheme)) :
    other.queryMany crc sketches = core.queryMany crc sketches := by
  rw [PersistentIndexCore.queryMany, PersistentIndexCore.queryMany, bandHashes_congr hconfig]
  cases hhashes : sketches.mapM core.bandHashes with
  | error error => rw [error_bind, error_bind]
  | ok hashesByQuery =>
      refine mapM_congr_of_mem fun hashes hmem => ?_
      obtain ⟨sketch, _, hsketch⟩ := exists_left_of_forall₂ (mapM_eq_ok_iff.mp hhashes) hmem
      exact h.queryHashes_congr hother hconfig hrows (length_of_bandHashes hsketch)

end Congruence

/-! ## Insertion of sketches -/

section Insertion

variable {items : List (UInt64 × MinHash scheme)}

theorem prepared_eq_ok_iff {items : List (UInt64 × MinHash scheme)}
    {prepared : List (UInt64 × List UInt64)} :
    (items.mapM fun item => do
        let hashes ← core.bandHashes item.2
        return (item.1, hashes)) = .ok prepared ↔
      (∀ item ∈ items, core.config.Compatible item.2) ∧ prepared = core.config.rowsOf items := by
  rw [mapM_eq_ok_iff]
  simp only [bind_eq_ok_iff, pure_eq_ok_iff, bandHashes_eq_ok_iff]
  constructor
  · intro h
    induction h with
    | nil => exact ⟨by simp, rfl⟩
    | cons hitem _ ih =>
        obtain ⟨hashes, ⟨hcompatible, rfl⟩, rfl⟩ := hitem
        exact ⟨List.forall_mem_cons.mpr ⟨hcompatible, ih.1⟩, by rw [ih.2]; rfl⟩
  · rintro ⟨hcompatible, rfl⟩
    induction items with
    | nil => exact .nil
    | cons item items ih =>
        rw [List.forall_mem_cons] at hcompatible
        exact .cons ⟨_, ⟨hcompatible.1, rfl⟩, rfl⟩ (ih hcompatible.2)

/-- The rows a persistent index stores for a batch it accepts. -/
structure AcceptsBatch (core : PersistentIndexCore scheme)
    (items : List (UInt64 × MinHash scheme)) : Prop where
  fresh : ∀ item ∈ items, core.liveRows item.1 = none
  distinct : (items.map Prod.fst).Nodup
  compatible : ∀ item ∈ items, core.config.Compatible item.2

theorem fst_rowsOf (config : LshConfig) (items : List (UInt64 × MinHash scheme)) :
    (config.rowsOf items).map Prod.fst = items.map Prod.fst := by
  rw [LshConfig.rowsOf, List.map_map]
  rfl

/-- A batch of compatible sketches under new distinct keys is stored in the overlay; any other
batch leaves the index as it is. -/
theorem insertMany_cases (core : PersistentIndexCore scheme)
    (items : List (UInt64 × MinHash scheme)) :
    (∃ error, core.insertMany items = (.error error, core)) ∨
      (core.AcceptsBatch items ∧
        core.insertMany items = (.ok (), core.insertPrepared (core.config.rowsOf items))) := by
  rw [insertMany]
  split
  · next error _ => exact Or.inl ⟨error, rfl⟩
  next prepared hprepared =>
  obtain ⟨hcompatible, rfl⟩ := prepared_eq_ok_iff.mp hprepared
  rw [insertHashesMany]
  split
  · next error _ => exact Or.inl ⟨error, rfl⟩
  next hvalid =>
  obtain ⟨hfresh, _, hdistinct⟩ := validateBatch_eq_ok_iff.mp hvalid
  rw [fst_rowsOf] at hdistinct
  refine Or.inr ⟨⟨fun item hitem => ?_, hdistinct, hcompatible⟩, rfl⟩
  exact hfresh _ (List.mem_map_of_mem (f := fun item : UInt64 × MinHash scheme =>
    (item.1, computeBandHashes core.config.params item.2.signature)) hitem)

theorem AcceptsBatch.insertMany (h : core.AcceptsBatch items) :
    core.insertMany items = (.ok (), core.insertPrepared (core.config.rowsOf items)) := by
  have hfresh : ∀ item ∈ core.config.rowsOf items, core.liveRows item.1 = none := by
    intro item hitem
    obtain ⟨source, hsource, rfl⟩ := List.mem_map.mp hitem
    exact h.fresh source hsource
  have hvalid : core.validateBatch ∅ (core.config.rowsOf items) = .ok () := by
    refine validateBatch_eq_ok_iff.mpr ⟨hfresh, by simp, ?_⟩
    rw [fst_rowsOf]
    exact h.distinct
  rw [PersistentIndexCore.insertMany, prepared_eq_ok_iff.mpr ⟨h.compatible, rfl⟩]
  dsimp only
  rw [insertHashesMany, hvalid]

theorem AcceptsBatch.freshBatch (h : core.AcceptsBatch items) :
    FreshBatch core.config.params.bands core.liveRows (core.config.rowsOf items) where
  fresh := by
    intro item hitem
    obtain ⟨source, hsource, rfl⟩ := List.mem_map.mp hitem
    exact h.fresh source hsource
  distinct := by
    rw [fst_rowsOf]
    exact h.distinct
  width := by
    intro item hitem
    obtain ⟨source, hsource, rfl⟩ := List.mem_map.mp hitem
    exact (h.compatible source hsource).length_bandHashes

theorem foldl_insertOverlay_fields (prepared : List (UInt64 × List UInt64)) :
    (prepared.foldl (fun core item => core.insertOverlay item.1 item.2) core).config =
        core.config ∧
      (prepared.foldl (fun core item => core.insertOverlay item.1 item.2) core).path = core.path ∧
      (prepared.foldl (fun core item => core.insertOverlay item.1 item.2) core).dirty =
        core.dirty := by
  induction prepared generalizing core with
  | nil => exact ⟨rfl, rfl, rfl⟩
  | cons item prepared ih => exact ih

/-- Filing a batch assigns its rows; the index stays clean only if the batch is empty. -/
theorem WellFormed.insertPrepared {prepared : List (UInt64 × List UInt64)}
    (h : core.WellFormed crc) (hbatch : FreshBatch core.config.params.bands core.liveRows prepared) :
    (core.insertPrepared prepared).WellFormed crc ∧
      (core.insertPrepared prepared).liveRows = insertRows core.liveRows prepared ∧
      (core.insertPrepared prepared).config = core.config ∧
      (core.insertPrepared prepared).path = core.path ∧
      ((core.insertPrepared prepared).dirty = false → core.dirty = false ∧ prepared = []) := by
  obtain ⟨hwell, hrows⟩ := h.insertBatch hbatch
  obtain ⟨hconfig, hpath, hdirty⟩ := @foldl_insertOverlay_fields _ core prepared
  refine ⟨⟨hwell.width, hwell.overlay, hwell.committed⟩, hrows, hconfig, hpath, fun hclean => ?_⟩
  rw [PersistentIndexCore.insertPrepared] at hclean
  dsimp only at hclean
  split at hclean
  · next hempty => exact ⟨hdirty ▸ hclean, List.isEmpty_iff.mp hempty⟩
  · cases hclean

end Insertion

/-! ## Rebuilding the overlay -/

section Rebuilding

theorem foldlM_rebuildOverlayKey {bands : Nat} {items : List (UInt64 × List UInt64)} {rows : Rows}
    {overlay : List (Table UInt64 UInt64)} {overlayKeys : OrderedSet UInt64}
    (hoverlay : RepresentsRows bands overlay rows) (hbatch : FreshBatch bands rows items) :
    ∃ result, items.foldlM (rebuildOverlayKey bands) (overlay, overlayKeys) = .ok result ∧
      RepresentsRows bands result.1 (insertRows rows items) ∧
      ∀ key, key ∈ result.2 ↔ key ∈ overlayKeys ∨ key ∈ items.map Prod.fst := by
  induction items generalizing rows overlay overlayKeys with
  | nil => exact ⟨_, rfl, hoverlay, by simp⟩
  | cons item items ih =>
      have hwidth := hbatch.width item List.mem_cons_self
      have hstep := hoverlay.addRow hwidth (hbatch.fresh item List.mem_cons_self)
      obtain ⟨result, hresult, hrows, hmem⟩ :=
        @ih _ _ (overlayKeys.insert item.1) hstep hbatch.tail
      refine ⟨result, ?_, hrows, fun key => ?_⟩
      · rw [List.foldlM_cons, rebuildOverlayKey, rejectIf_of_not (not_not.mpr hwidth)]
        exact hresult
      · rw [hmem, mem_insert_iff, List.map_cons, List.mem_cons]
        rw [or_assoc, or_left_comm]

theorem base_of_rebuildOverlayAll {rebuilt : PersistentIndexCore scheme}
    (h : core.rebuildOverlayAll = .ok rebuilt) : rebuilt.base = none := by
  simp only [rebuildOverlayAll, bind_eq_ok_iff, pure_eq_ok_iff] at h
  obtain ⟨_, _, rfl⟩ := h
  rfl

/-- Rebuilding keeps the live rows and leaves no base behind. -/
theorem rebuildOverlayAll_spec (hwidth : ∀ (key : UInt64) (row : List UInt64),
      core.liveRows key = some row → row.length = core.config.params.bands) :
    ∃ rebuilt, core.rebuildOverlayAll = .ok rebuilt ∧ rebuilt.WellFormed crc ∧
      rebuilt.keyHashes = core.keyHashes ∧ rebuilt.config = core.config ∧
      rebuilt.path = core.path ∧ rebuilt.dirty = core.dirty := by
  obtain ⟨⟨overlay, overlayKeys⟩, hresult, hrows, hmem⟩ := @foldlM_rebuildOverlayKey
    core.config.params.bands core.keyHashes.toList (fun _ => none)
    (emptyBucketTables core.config.params.bands) ∅ (RepresentsRows.empty _) (FreshBatch.of_map hwidth)
  rw [insertRows_toList] at hrows
  refine ⟨{ core with
      overlayBuckets := overlay
      overlayKeys := overlayKeys
      suppressedBaseKeys := ∅
      base := none }, by rw [rebuildOverlayAll, hresult]; rfl, ?_, rfl, rfl, rfl, rfl⟩
  have hlive : ∀ key, key ∈ overlayKeys ↔ core.liveRows key ≠ none := by
    intro key
    rw [hmem, mem_keys_iff, Option.ne_none_iff_exists']
    simp [liveRows, rowsOfMap]
  refine ⟨hwidth, ?_, fun _ => none, fun _ => rfl, ?_⟩
  · convert hrows using 1
    funext key
    by_cases hkey : key ∈ overlayKeys
    · exact if_pos hkey
    · have hnone : core.liveRows key = none := not_not.mp fun hne => hkey ((hlive key).mpr hne)
      exact (if_neg hkey).trans hnone.symm
  · intro key
    by_cases hkey : key ∈ overlayKeys
    · exact (ite_self _).trans (if_pos hkey).symm
    · have hnone : core.liveRows key = none := not_not.mp fun hne => hkey ((hlive key).mpr hne)
      exact (ite_self _).trans ((if_neg hkey).trans hnone).symm

end Rebuilding

end PersistentIndexCore

end Pari.Store
