/-
# What the index holds

The abstract content of an index is a partial function from keys to band-hash rows.
`IndexData.Holds` says that the four stored structures agree with it, insertion and
removal preserve the relation, and a query answers from it: the ascending list of the
keys whose rows share a band with the query.
-/

import Pari.Index.LshIndex

namespace Pari.Index

open Data Pari.Format Pari.Core

/-- The rows of the live keys. -/
abbrev Rows := UInt64 → Option (List UInt64)

/-! ## Slot lists -/

section Slots

variable {β : Type} {slots : List (Option β)} {id : UInt32} {value : β}

/-- Appending to a slot list fills the next identifier. -/
theorem slot_append (h : slots.length < 2 ^ 32) (other : UInt32) :
    (slots ++ [some value])[other.toNat]?.join =
      Function.update (fun id : UInt32 => slots[id.toNat]?.join) (UInt32.ofNat slots.length)
        (some value) other := by
  have hid : (UInt32.ofNat slots.length).toNat = slots.length := toNat_ofNat32 h
  by_cases heq : other = UInt32.ofNat slots.length
  · rw [heq, Function.update_self, hid, List.getElem?_concat_length]
    rfl
  · have hne : other.toNat ≠ slots.length := fun hnat =>
      heq (UInt32.toNat_inj.mp (hnat.trans hid.symm))
    rw [Function.update_of_ne heq]
    rcases Nat.lt_or_gt_of_ne hne with hlt | hgt
    · rw [List.getElem?_append_left hlt]
    · have hlength : (slots ++ [some value]).length ≤ other.toNat := by
        rw [List.length_append, List.length_singleton]
        omega
      rw [List.getElem?_eq_none hlength, List.getElem?_eq_none (by omega)]

/-- Clearing a slot clears its identifier. -/
theorem slot_set (other : UInt32) :
    (slots.set id.toNat none)[other.toNat]?.join =
      Function.update (fun id : UInt32 => slots[id.toNat]?.join) id none other := by
  by_cases heq : other = id
  · rw [heq, Function.update_self, List.getElem?_set_self']
    cases slots[id.toNat]? <;> rfl
  · have hne : id.toNat ≠ other.toNat := fun hnat => heq (UInt32.toNat_inj.mp hnat.symm)
    rw [Function.update_of_ne heq, List.getElem?_set_ne hne]

end Slots

/-! ## The representation -/

/-- The stored structures agree with an assignment of rows to keys. -/
structure IndexData.Holds (data : IndexData) (bands : Nat) (rows : Rows) : Prop where
  tables : RepresentsRows bands data.buckets data.liveRow
  slots : data.bandHashes.length = data.idToKey.length
  capacity : data.idToKey.length ≤ 2 ^ 32 - 1
  keys : ∀ key id, data.keyToId[key]? = some id ↔ data.liveKey id = some key
  live : ∀ id, data.liveKey id = none ↔ data.liveRow id = none
  rows : ∀ key, rows key = (data.keyToId[key]?).bind data.liveRow

namespace IndexData.Holds

variable {data : IndexData} {bands : Nat} {rows : Rows} {key : UInt64} {hashes : List UInt64}

theorem new (bands : Nat) : (IndexData.new bands).Holds bands fun _ => none where
  tables := RepresentsRows.empty bands
  slots := rfl
  capacity := Nat.zero_le _
  keys := by simp [IndexData.new, IndexData.liveKey]
  live := by simp [IndexData.new, IndexData.liveKey, IndexData.liveRow]
  rows := by simp [IndexData.new]

/-- A key is live exactly when the key map knows it. -/
theorem rows_eq_none_iff (h : data.Holds bands rows) :
    rows key = none ↔ data.keyToId[key]? = none := by
  rw [h.rows]
  cases hid : data.keyToId[key]? with
  | none => simp
  | some id =>
      have hlive : data.liveKey id = some key := (h.keys key id).mp hid
      have hrow : data.liveRow id ≠ none := by
        rw [Ne, ← h.live, hlive]
        simp
      simpa using hrow

/-- The row of a live key is the row stored under its identifier. -/
theorem rows_eq_some_iff (h : data.Holds bands rows) :
    rows key = some hashes ↔
      ∃ id, data.liveKey id = some key ∧ data.liveRow id = some hashes := by
  rw [h.rows, Option.bind_eq_some_iff]
  simp only [h.keys]

/-- Two identifiers of one key are equal. -/
theorem liveKey_injective (h : data.Holds bands rows) {left right : UInt32}
    (hleft : data.liveKey left = some key) (hright : data.liveKey right = some key) :
    left = right := by
  rw [← h.keys] at hleft hright
  exact Option.some.inj (hleft.symm.trans hright)

/-- Filing the row of a new key assigns it. -/
theorem insertValidated (h : data.Holds bands rows) (hfresh : rows key = none)
    (hwidth : hashes.length = bands) (hcapacity : data.idToKey.length < 2 ^ 32 - 1) :
    (data.insertValidated key hashes).Holds bands (Function.update rows key (some hashes)) := by
  have hlt : data.idToKey.length < 2 ^ 32 := by omega
  have hkey : (data.insertValidated key hashes).liveKey =
      Function.update data.liveKey (UInt32.ofNat data.idToKey.length) (some key) := by
    funext other
    exact slot_append hlt other
  have hrow : (data.insertValidated key hashes).liveRow =
      Function.update data.liveRow (UInt32.ofNat data.idToKey.length) (some hashes) := by
    funext other
    rw [← h.slots] at hlt ⊢
    exact slot_append hlt other
  have hnext : data.liveKey (UInt32.ofNat data.idToKey.length) = none := by
    rw [IndexData.liveKey, toNat_ofNat32 hlt, List.getElem?_eq_none (le_refl _)]
    rfl
  have hnone := h.rows_eq_none_iff.mp hfresh
  refine ⟨?_, ?_, ?_, ?_, ?_, ?_⟩
  · rw [hrow]
    exact h.tables.addRow hwidth ((h.live _).mp hnext)
  · simp [IndexData.insertValidated, h.slots]
  · simp only [IndexData.insertValidated, List.length_append, List.length_singleton]
    omega
  · intro other id
    rw [hkey]
    show (data.keyToId.insert key _)[other]? = some id ↔ _
    rw [getElem?_insert]
    by_cases hother : key = other
    · subst hother
      rw [if_pos rfl]
      by_cases hid : id = UInt32.ofNat data.idToKey.length
      · simp [hid]
      · rw [Function.update_of_ne hid, ← h.keys, hnone]
        simp [Ne.symm hid]
    · rw [if_neg hother]
      by_cases hid : id = UInt32.ofNat data.idToKey.length
      · rw [hid, Function.update_self, h.keys, hnext]
        simp [hother]
      · rw [Function.update_of_ne hid, h.keys]
  · intro id
    rw [hkey, hrow]
    by_cases heq : id = UInt32.ofNat data.idToKey.length
    · simp [heq]
    · rw [Function.update_of_ne heq, Function.update_of_ne heq, h.live]
  · intro other
    show _ = ((data.keyToId.insert key _)[other]?).bind _
    rw [getElem?_insert, hrow]
    by_cases hother : key = other
    · subst hother
      rw [if_pos rfl, Function.update_self, Option.bind_some, Function.update_self]
    · rw [if_neg hother, Function.update_of_ne (Ne.symm hother), h.rows]
      refine Option.bind_congr fun id hid => ?_
      rw [Function.update_of_ne]
      rintro rfl
      rw [h.keys, hnext] at hid
      cases hid

/-- Removing a key reports whether it was live and forgets its row. -/
theorem remove (h : data.Holds bands rows) (key : UInt64) :
    (data.remove key).1 = (rows key).isSome ∧
      (data.remove key).2.Holds bands (Function.update rows key none) := by
  cases hid : data.keyToId[key]? with
  | none =>
      have hnone : rows key = none := h.rows_eq_none_iff.mpr hid
      have hsame : Function.update rows key none = rows := by
        rw [← hnone, Function.update_eq_self]
      have hremove : data.remove key = (false, data) := by simp [IndexData.remove, hid]
      rw [hremove, hsame, hnone]
      exact ⟨rfl, h⟩
  | some id =>
      have hlive : data.liveKey id = some key := (h.keys key id).mp hid
      have hrowSome : data.liveRow id ≠ none := by
        rw [Ne, ← h.live, hlive]
        simp
      obtain ⟨hashes, hstored⟩ := Option.ne_none_iff_exists'.mp hrowSome
      have hremove : data.remove key = (true, {
          buckets := removeRow data.buckets hashes id
          keyToId := data.keyToId.erase key
          idToKey := data.idToKey.set id.toNat none
          bandHashes := data.bandHashes.set id.toNat none }) := by
        simp [IndexData.remove, hid, hlive, hstored]
      have hrows : rows key = some hashes := h.rows_eq_some_iff.mpr ⟨id, hlive, hstored⟩
      have hkey : (data.remove key).2.liveKey = Function.update data.liveKey id none := by
        rw [hremove]
        funext other
        exact slot_set other
      have hrow : (data.remove key).2.liveRow = Function.update data.liveRow id none := by
        rw [hremove]
        funext other
        exact slot_set other
      refine ⟨by rw [hremove, hrows]; rfl, ?_, ?_, ?_, ?_, ?_, ?_⟩
      · rw [hrow, hremove]
        exact h.tables.removeRow (h.tables.width id hashes hstored) (Or.inr hstored)
      · simp [hremove, h.slots]
      · simp only [hremove, List.length_set]
        exact h.capacity
      · intro other otherId
        rw [hkey, hremove, getElem?_erase]
        by_cases hother : key = other
        · subst hother
          rw [if_pos rfl]
          by_cases heq : otherId = id
          · simp [heq]
          · rw [Function.update_of_ne heq, ← h.keys, hid]
            simp [Ne.symm heq]
        · rw [if_neg hother]
          by_cases heq : otherId = id
          · rw [heq, Function.update_self, h.keys, hlive]
            simp [hother]
          · rw [Function.update_of_ne heq, h.keys]
      · intro otherId
        rw [hkey, hrow]
        by_cases heq : otherId = id
        · simp [heq]
        · rw [Function.update_of_ne heq, Function.update_of_ne heq, h.live]
      · intro other
        rw [hrow, hremove, getElem?_erase]
        by_cases hother : key = other
        · subst hother
          rw [if_pos rfl, Function.update_self, Option.bind_none]
        · rw [if_neg hother, Function.update_of_ne (Ne.symm hother), h.rows]
          refine Option.bind_congr fun otherId hotherId => ?_
          rw [Function.update_of_ne]
          rintro rfl
          rw [h.keys, hlive] at hotherId
          exact hother (Option.some.inj hotherId)

/-- The keys of the candidates of a query, in ascending order: exactly the live keys whose
rows share a band with it. -/
theorem query (h : data.Holds bands rows) (hashes : List UInt64) :
    Ascending (data.keysForCandidates (data.collectCandidateIds hashes ∅)) ∧
      ∀ key, key ∈ data.keysForCandidates (data.collectCandidateIds hashes ∅) ↔
        ∃ row, rows key = some row ∧ SharesBand row hashes := by
  have hids : ∀ id, id ∈ (data.collectCandidateIds hashes ∅).toList ↔
      ∃ row, data.liveRow id = some row ∧ SharesBand row hashes := by
    intro id
    rw [Std.ExtTreeSet.mem_toList, IndexData.collectCandidateIds, mem_insertMany,
      h.tables.mem_candidates_iff]
    simp
  constructor
  · refine sortUnstable_ascending ?_
    refine List.Nodup.filterMap ?_ ascending_toList.nodup
    intro left right key hleft hright
    exact h.liveKey_injective hleft hright
  · intro key
    rw [IndexData.keysForCandidates, mem_sortUnstable, List.mem_filterMap]
    constructor
    · rintro ⟨id, hmem, hlive⟩
      obtain ⟨row, hrow, hshares⟩ := (hids id).mp hmem
      exact ⟨row, h.rows_eq_some_iff.mpr ⟨id, hlive, hrow⟩, hshares⟩
    · rintro ⟨row, hrow, hshares⟩
      obtain ⟨id, hlive, hstored⟩ := h.rows_eq_some_iff.mp hrow
      exact ⟨id, (hids id).mpr ⟨row, hstored, hshares⟩, hlive⟩

end IndexData.Holds

/-! ## Batches -/

/-- Assign the rows of a batch. -/
def insertRows (rows : Rows) (items : List (UInt64 × List UInt64)) : Rows :=
  items.foldl (fun rows item => Function.update rows item.1 (some item.2)) rows

@[simp]
theorem insertRows_nil (rows : Rows) : insertRows rows [] = rows := rfl

@[simp]
theorem insertRows_cons (rows : Rows) (item : UInt64 × List UInt64)
    (items : List (UInt64 × List UInt64)) :
    insertRows rows (item :: items) =
      insertRows (Function.update rows item.1 (some item.2)) items := rfl

/-- A batch that may be inserted: its keys are new and distinct, and its rows are as wide as
the index. -/
structure FreshBatch (bands : Nat) (rows : Rows) (items : List (UInt64 × List UInt64)) : Prop where
  fresh : ∀ item ∈ items, rows item.1 = none
  distinct : (items.map Prod.fst).Nodup
  width : ∀ item ∈ items, item.2.length = bands

theorem FreshBatch.tail {bands : Nat} {rows : Rows} {item : UInt64 × List UInt64}
    {items : List (UInt64 × List UInt64)} (h : FreshBatch bands rows (item :: items)) :
    FreshBatch bands (Function.update rows item.1 (some item.2)) items := by
  have hdistinct := h.distinct
  rw [List.map_cons, List.nodup_cons] at hdistinct
  obtain ⟨hnotMem, hnodup⟩ := hdistinct
  refine ⟨?_, hnodup, fun other hmem => h.width other (List.mem_cons_of_mem item hmem)⟩
  intro other hmem
  have hne : other.1 ≠ item.1 := by
    intro heq
    exact hnotMem (heq ▸ List.mem_map_of_mem hmem)
  rw [Function.update_of_ne hne]
  exact h.fresh other (List.mem_cons_of_mem item hmem)

@[simp]
theorem length_insertValidated (data : IndexData) (key : UInt64) (hashes : List UInt64) :
    (data.insertValidated key hashes).idToKey.length = data.idToKey.length + 1 := by
  simp [IndexData.insertValidated]

theorem length_foldl_insertValidated (data : IndexData) (items : List (UInt64 × List UInt64)) :
    (items.foldl (fun data item => data.insertValidated item.1 item.2) data).idToKey.length =
      data.idToKey.length + items.length := by
  induction items generalizing data with
  | nil => rfl
  | cons item items ih =>
      rw [List.foldl_cons, ih, length_insertValidated, List.length_cons]
      omega

/-- Filing a batch row by row assigns the rows of the batch. -/
theorem IndexData.Holds.insertBatch {data : IndexData} {bands : Nat} {rows : Rows}
    {items : List (UInt64 × List UInt64)} (h : data.Holds bands rows)
    (hbatch : FreshBatch bands rows items)
    (hcapacity : data.idToKey.length + items.length ≤ 2 ^ 32 - 1) :
    (items.foldl (fun data item => data.insertValidated item.1 item.2) data).Holds bands
      (insertRows rows items) := by
  induction items generalizing data rows with
  | nil => exact h
  | cons item items ih =>
      rw [List.length_cons] at hcapacity
      have hstep := h.insertValidated (hbatch.fresh item List.mem_cons_self)
        (hbatch.width item List.mem_cons_self) (by omega)
      refine ih hstep hbatch.tail ?_
      rw [length_insertValidated]
      omega

/-! ## The public operations -/

section Operations

variable {scheme : SignatureScheme}

/-- The rows a batch of sketches stores. -/
def LshConfig.rowsOf (config : LshConfig) (items : List (UInt64 × MinHash scheme)) :
    List (UInt64 × List UInt64) :=
  items.map fun item => (item.1, computeBandHashes config.params item.2.signature)

/-- A sketch built with the seed and the signature length of a configuration. -/
structure LshConfig.Compatible (config : LshConfig) (sketch : MinHash scheme) : Prop where
  seed : sketch.seed = config.seed
  numPerm : sketch.numPerm = config.numPerm

theorem LshIndex.ensureCompatible_eq_ok_iff {index : LshIndex scheme} {sketch : MinHash scheme}
    {result : Unit} :
    index.ensureCompatible sketch = .ok result ↔ index.config.Compatible sketch := by
  simp only [LshIndex.ensureCompatible, bind_eq_ok_iff, rejectIf_eq_ok_iff, not_not, ne_eq,
    exists_const]
  exact ⟨fun h => ⟨h.1, h.2⟩, fun h => ⟨h.seed, h.numPerm⟩⟩

/-- A compatible sketch has one hash for each band. -/
theorem LshConfig.Compatible.length_bandHashes {config : LshConfig} {sketch : MinHash scheme}
    (h : config.Compatible sketch) :
    (computeBandHashes config.params sketch.signature).length = config.params.bands := by
  obtain ⟨_, _, _, _, hrows, hused⟩ := config.bounds
  have hlength : sketch.signature.length = config.numPerm := h.numPerm
  rw [computeBandHashes, List.length_map, length_chunksExact, List.length_take,
    Nat.min_eq_left (by omega), Nat.mul_div_cancel _ hrows]

/-- The validation loop accepts exactly the batches of compatible sketches under distinct
new keys. -/
theorem LshIndex.validateBatch_eq_ok_iff {index : LshIndex scheme} {batchKeys : OrderedSet UInt64}
    {items : List (UInt64 × MinHash scheme)} {result : Unit} :
    index.validateBatch batchKeys items = .ok result ↔
      (∀ item ∈ items, index.data.keyToId[item.1]? = none) ∧
      (∀ item ∈ items, item.1 ∉ batchKeys) ∧ (items.map Prod.fst).Nodup ∧
      ∀ item ∈ items, index.config.Compatible item.2 := by
  induction items generalizing batchKeys with
  | nil => simp [LshIndex.validateBatch]
  | cons item items ih =>
      obtain ⟨key, sketch⟩ := item
      have hkey : index.data.keyToId[key]? = none ↔ ¬ key ∈ index.data.keyToId := by simp
      simp only [LshIndex.validateBatch, bind_eq_ok_iff, rejectIf_eq_ok_iff, exists_const,
        ensureCompatible_eq_ok_iff, ih, List.forall_mem_cons, List.map_cons, List.nodup_cons,
        Std.ExtTreeMap.contains_iff_mem, Std.ExtTreeSet.contains_iff_mem, not_or, hkey,
        Std.ExtTreeSet.mem_insert, compare_eq_iff_eq, List.mem_map, not_exists, not_and]
      constructor
      · rintro ⟨⟨hnew, hunseen⟩, hcompatible, hall, hdisjoint, hnodup, hcompatibles⟩
        exact ⟨⟨hnew, hall⟩, ⟨hunseen, fun item hmem => (hdisjoint item hmem).2⟩,
          ⟨fun item hmem heq => (hdisjoint item hmem).1 heq.symm, hnodup⟩,
          hcompatible, hcompatibles⟩
      · rintro ⟨⟨hnew, hall⟩, ⟨hunseen, hunseens⟩, ⟨hdistinct, hnodup⟩, hcompatible, hcompatibles⟩
        exact ⟨⟨hnew, hunseen⟩, hcompatible, hall,
          fun item hmem => ⟨fun heq => hdistinct item hmem heq.symm, hunseens item hmem⟩, hnodup,
          hcompatibles⟩

/-- The stored structures of an index agree with an assignment of rows. -/
def LshIndex.Holds (index : LshIndex scheme) (rows : Rows) : Prop :=
  index.data.Holds index.config.params.bands rows

/-- The batches an index inserts: new distinct keys, compatible sketches, and room for
their identifiers. -/
structure LshIndex.Accepts (index : LshIndex scheme) (rows : Rows)
    (items : List (UInt64 × MinHash scheme)) : Prop where
  fresh : ∀ item ∈ items, rows item.1 = none
  distinct : (items.map Prod.fst).Nodup
  compatible : ∀ item ∈ items, index.config.Compatible item.2
  capacity : index.data.idToKey.length + items.length ≤ 2 ^ 32 - 1

section Index

variable {index : LshIndex scheme} {rows : Rows}

theorem LshIndex.withParams_holds {threshold : F64} {numPerm : Nat} {seed : UInt64}
    {params : LshParams} (h : LshIndex.withParams scheme threshold numPerm seed params = .ok index) :
    index.Holds (fun _ => none) ∧ index.config.params = params := by
  simp only [LshIndex.withParams, bind_eq_ok_iff, pure_eq_ok_iff] at h
  obtain ⟨config, hconfig, rfl⟩ := h
  obtain ⟨_, _, _, hparams⟩ := LshConfig.new_eq_ok_iff.mp hconfig
  refine ⟨?_, hparams⟩
  rw [← hparams]
  exact IndexData.Holds.new _

/-- An insertion succeeds exactly on the batches the index accepts. -/
theorem LshIndex.Holds.insertMany_ok_iff (h : index.Holds rows)
    {items : List (UInt64 × MinHash scheme)} :
    (index.insertMany items).1 = .ok () ↔ index.Accepts rows items := by
  have hvalidated : (do
      index.validateBatch ∅ items
      index.data.ensureCapacity items.length) = .ok () ↔ index.Accepts rows items := by
    simp only [bind_eq_ok_iff, validateBatch_eq_ok_iff, exists_const, IndexData.ensureCapacity,
      okOr_eq_ok_iff, checkedAdd_eq_some_iff, rejectIf_eq_ok_iff, not_lt,
      ← IndexData.Holds.rows_eq_none_iff h]
    constructor
    · rintro ⟨⟨hfresh, _, hdistinct, hcompatible⟩, _, ⟨_, rfl⟩, hcapacity⟩
      exact ⟨hfresh, hdistinct, hcompatible, hcapacity⟩
    · rintro ⟨hfresh, hdistinct, hcompatible, hcapacity⟩
      exact ⟨⟨hfresh, by simp, hdistinct, hcompatible⟩, _, ⟨by omega, rfl⟩, hcapacity⟩
  rw [← hvalidated, LshIndex.insertMany]
  split
  · next error herror => simp [herror]
  · next hok => simp [hok]

/-- A successful insertion assigns the rows of the batch. -/
theorem LshIndex.Holds.insertMany_of_accepts (h : index.Holds rows)
    {items : List (UInt64 × MinHash scheme)} (hitems : index.Accepts rows items) :
    (index.insertMany items).2.config = index.config ∧
      (index.insertMany items).2.data.idToKey.length =
        index.data.idToKey.length + items.length ∧
      (index.insertMany items).2.Holds (insertRows rows (index.config.rowsOf items)) := by
  have hok := h.insertMany_ok_iff.mpr hitems
  have hbatch : FreshBatch index.config.params.bands rows (index.config.rowsOf items) := by
    refine ⟨?_, ?_, ?_⟩
    · intro item hmem
      obtain ⟨source, hsource, rfl⟩ := List.mem_map.mp hmem
      exact hitems.fresh source hsource
    · simpa [LshConfig.rowsOf, Function.comp_def] using hitems.distinct
    · intro item hmem
      obtain ⟨source, hsource, rfl⟩ := List.mem_map.mp hmem
      exact (hitems.compatible source hsource).length_bandHashes
  have hlength : (index.config.rowsOf items).length = items.length := List.length_map _
  have hcapacity := hitems.capacity
  have hfold := IndexData.Holds.insertBatch h hbatch (by omega)
  have hcount := length_foldl_insertValidated index.data (index.config.rowsOf items)
  rw [LshConfig.rowsOf, List.foldl_map] at hfold hcount
  rw [LshIndex.insertMany] at hok ⊢
  split at hok
  · cases hok
  · exact ⟨rfl, hcount.trans (by rw [List.length_map]), hfold⟩

/-- A failed insertion changes nothing. -/
theorem LshIndex.insertMany_of_error {items : List (UInt64 × MinHash scheme)} {error : LshError}
    (h : (index.insertMany items).1 = .error error) : (index.insertMany items).2 = index := by
  rw [LshIndex.insertMany] at h ⊢
  split at h
  · rfl
  · cases h

theorem LshIndex.Holds.remove (h : index.Holds rows) (key : UInt64) :
    (index.remove key).1 = (rows key).isSome ∧ (index.remove key).2.config = index.config ∧
      (index.remove key).2.Holds (Function.update rows key none) := by
  obtain ⟨hchanged, hdata⟩ := IndexData.Holds.remove h key
  exact ⟨hchanged, rfl, hdata⟩

/-- A compatible query answers with the ascending list of the live keys that share a band. -/
theorem LshIndex.Holds.query (h : index.Holds rows) {sketch : MinHash scheme}
    (hsketch : index.config.Compatible sketch) :
    ∃ keys, index.query sketch = .ok keys ∧ Ascending keys ∧
      ∀ key, key ∈ keys ↔ ∃ row, rows key = some row ∧
        SharesBand row (computeBandHashes index.config.params sketch.signature) := by
  obtain ⟨hsorted, hmem⟩ := IndexData.Holds.query h
    (computeBandHashes index.config.params sketch.signature)
  have hcompatible : index.ensureCompatible sketch = .ok () :=
    ensureCompatible_eq_ok_iff.mpr hsketch
  refine ⟨_, ?_, hsorted, hmem⟩
  rw [LshIndex.query, hcompatible]
  rfl

end Index

end Operations

end Pari.Index
