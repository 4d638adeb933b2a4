/-
# The whole storage contract

Beside the batch operations a backend is initialized once, keeps its descriptor, names the key
for which it refuses a batch, counts what it stores, and gives its namespace up when it is
cleaned. The memory backend keeps this contract, and its bucket sizes are those of its rows.
-/

import Pari.Backend.MemoryIndex
import Pari.Data.Outcome
import Pari.Index.Metrics

namespace Pari.Backend

open Data Data.Method Pari.Format Pari.Core Pari.Index

/-! ## The live items -/

section Items

variable {rows : Rows} {items : List (UInt64 × List UInt64)} {bands : Nat}

theorem enumerates_nil : Enumerates [] (fun _ => none : Rows) where
  distinct := List.nodup_nil
  mem_iff := by simp

theorem enumerates_insertRows (h : Enumerates items rows) {added : List (UInt64 × List UInt64)}
    (hbatch : FreshBatch bands rows added) : Enumerates (items ++ added) (insertRows rows added) := by
  induction added generalizing items rows with
  | nil => rwa [List.append_nil, insertRows_nil]
  | cons item added ih =>
      have hfresh := hbatch.fresh item List.mem_cons_self
      have hnew : item.1 ∉ items.map Prod.fst := by
        intro hmem
        obtain ⟨other, hother, heq⟩ := List.mem_map.mp hmem
        have hrow := (h.mem_iff other.1 other.2).mp hother
        rw [heq, hfresh] at hrow
        cases hrow
      have hstep : Enumerates (items ++ [item]) (Function.update rows item.1 (some item.2)) := by
        constructor
        · rw [List.map_append, List.map_singleton]
          rw [← List.concat_eq_append]
          exact h.distinct.concat hnew
        · intro key row
          rw [List.mem_append, List.mem_singleton, h.mem_iff]
          by_cases heq : key = item.1
          · subst heq
            rw [hfresh, Function.update_self, Option.some.injEq]
            constructor
            · intro hmem
              exact (congrArg Prod.snd (hmem.resolve_left (by simp))).symm
            · intro hrow
              exact Or.inr (Prod.ext rfl hrow.symm)
          · rw [Function.update_of_ne heq]
            refine ⟨fun hmem => hmem.resolve_right ?_, Or.inl⟩
            exact fun hpair => heq (congrArg Prod.fst hpair)
      rw [insertRows_cons, List.append_cons]
      exact ih hstep hbatch.tail

theorem enumerates_deleteRows (h : Enumerates items rows) (keys : List UInt64) :
    Enumerates (items.filter fun item => !keys.contains item.1) (deleteRows rows keys).2 where
  distinct := (List.filter_sublist.map Prod.fst).nodup h.distinct
  mem_iff := by
    intro key row
    rw [List.mem_filter, h.mem_iff, deleteRows_snd]
    by_cases hmem : key ∈ keys
    · simp [hmem]
    · simp [hmem]

/-- What is deleted and what is left are all the items. -/
theorem length_deleteRows (h : Enumerates items rows) (keys : List UInt64) :
    (deleteRows rows keys).1 + (items.filter fun item => !keys.contains item.1).length =
      items.length := by
  have hdeleted : (items.filter fun item => item.1 ∈ keys).length =
      (deleteRows rows keys).1 := by
    have hnodup : ((items.filter fun item => item.1 ∈ keys).map Prod.fst).Nodup :=
      (List.filter_sublist.map Prod.fst).nodup h.distinct
    rw [deleteRows_fst, ← List.length_map Prod.fst, ← List.toFinset_card_of_nodup hnodup]
    congr 1
    ext key
    rw [List.mem_toFinset, List.mem_map, Finset.mem_filter, List.mem_toFinset,
      Option.isSome_iff_exists]
    constructor
    · intro hmem
      obtain ⟨item, hitem, rfl⟩ := hmem
      obtain ⟨hitem, hkey⟩ := List.mem_filter.mp hitem
      exact ⟨of_decide_eq_true hkey, item.2, (h.mem_iff item.1 item.2).mp hitem⟩
    · intro hlive
      obtain ⟨hkey, row, hrow⟩ := hlive
      exact ⟨(key, row), List.mem_filter.mpr
        ⟨(h.mem_iff key row).mpr hrow, decide_eq_true hkey⟩, rfl⟩
  rw [← hdeleted, ← List.countP_eq_length_filter, ← List.countP_eq_length_filter,
    List.length_eq_countP_add_countP fun item : UInt64 × List UInt64 => item.1 ∈ keys]
  simp

end Items

/-! ## The contract -/

/-- The key for which a batch is refused: it is stored, or an earlier record has it. -/
def Clashes (rows : Rows) (items : List StoredItem) (key : UInt64) : Prop :=
  ∃ before item after, items = before ++ item :: after ∧ item.key = key ∧
    (rows key ≠ none ∨ key ∈ before.map StoredItem.key)

/-- What the statistics of a backend say about its items. -/
structure CountsItems (stats : BackendStats) (descriptor : IndexDescriptor)
    (stored : List (UInt64 × List UInt64)) : Prop where
  items : stats.items.toNat = stored.length
  bucketMemberships : stats.bucketMemberships.toNat = stored.length * descriptor.params.bands
  ttlSecondsRemaining : stats.ttlSecondsRemaining.isSome = descriptor.retention.isSome

/-- The contract of a backend with given capabilities, from a fresh namespace on. -/
structure Conforming {β : Type} [StorageBackend β] (offered : BackendCapabilities)
    (Fresh : β → Prop) (Keeps : β → IndexDescriptor → Rows → Prop) : Prop where
  lawful : Lawful Keeps
  fresh_capabilities : ∀ {backend}, Fresh backend →
    StorageBackend.capabilities backend = offered
  capabilities : ∀ {backend descriptor rows}, Keeps backend descriptor rows →
    StorageBackend.capabilities backend = offered
  initialized : ∀ {backend}, Fresh backend → ∀ descriptor : IndexDescriptor,
    (descriptor.retention.isSome = true → offered.supports .ttl = true) →
    Ensures backend (StorageBackend.initializeNamespace descriptor) fun _ backend' =>
      Keeps backend' descriptor fun _ => none
  alreadyExists : ∀ {backend descriptor rows}, Keeps backend descriptor rows → ∀ other, ∃ backend',
    call backend (StorageBackend.initializeNamespace other) = (.error .alreadyExists, backend') ∧
      Keeps backend' descriptor rows
  loadDescriptor : ∀ {backend descriptor rows}, Keeps backend descriptor rows →
    Ensures backend StorageBackend.loadDescriptor fun loaded backend' =>
      loaded = descriptor ∧ Keeps backend' descriptor rows
  notFound : ∀ {backend}, Fresh backend → Fails backend StorageBackend.loadDescriptor .notFound
  duplicateKey : ∀ {backend descriptor rows}, Keeps backend descriptor rows → ∀ items,
    (∀ item ∈ items, item.bandHashes.length = descriptor.params.bands) →
    ¬ FreshBatch descriptor.params.bands rows (rowsOfItems items) →
    ∃ key, Clashes rows items key ∧
      Fails backend (StorageBackend.insertMany items) (.duplicateKey key)
  flush : ∀ {backend descriptor rows}, Keeps backend descriptor rows →
    Ensures backend StorageBackend.flush fun _ backend' => Keeps backend' descriptor rows
  health : ∀ {backend descriptor rows}, Keeps backend descriptor rows →
    Ensures backend StorageBackend.health fun _ backend' => Keeps backend' descriptor rows
  stats : ∀ {backend descriptor rows}, Keeps backend descriptor rows → ∀ {items},
    Enumerates items rows → ∃ result backend',
    call backend StorageBackend.stats = (result, backend') ∧ Keeps backend' descriptor rows ∧
      (∀ stats, result = .ok stats → CountsItems stats descriptor items) ∧
      (items.length * descriptor.params.bands < 2 ^ 64 → ∃ stats, result = .ok stats)
  cleanup : ∀ {backend descriptor rows}, Keeps backend descriptor rows →
    Ensures backend StorageBackend.cleanup fun _ backend' => Fresh backend'

/-! ## The memory backend -/

namespace MemoryBackend

variable {backend : MemoryBackend} {bands : Nat} {rows : Rows} {items : List (UInt64 × List UInt64)}
  {descriptor : IndexDescriptor}

/-- A batch of rows of the right width is refused for a key that clashes. -/
theorem Holds.clashes_of_error (h : backend.Holds bands rows) {seen : OrderedSet UInt64}
    {batch : List StoredItem} {error : BackendError}
    (hwidth : ∀ item ∈ batch, item.bandHashes.length = bands)
    (herror : backend.validateItems bands seen batch = .error error) :
    ∃ key, error = .duplicateKey key ∧ ∃ before item after, batch = before ++ item :: after ∧
      item.key = key ∧ (rows key ≠ none ∨ key ∈ seen ∨ key ∈ before.map StoredItem.key) := by
  induction batch generalizing seen with
  | nil => cases herror
  | cons item batch ih =>
      rw [List.forall_mem_cons] at hwidth
      rw [validateItems, rejectIf_of_not (by simpa using hwidth.1), ok_bind] at herror
      by_cases hclash : backend.records.contains item.key = true ∨ seen.contains item.key = true
      · rw [rejectIf, if_pos hclash, error_bind] at herror
        refine ⟨item.key, (Except.error.inj herror).symm, [], item, batch, rfl, rfl, ?_⟩
        rw [h.contains_eq, Option.isSome_iff_ne_none] at hclash
        exact hclash.imp_right fun hseen => Or.inl (Std.ExtTreeSet.mem_iff_contains.mpr hseen)
      · rw [rejectIf_of_not hclash, ok_bind] at herror
        obtain ⟨key, rfl, before, other, after, rfl, hkey, hreason⟩ := ih hwidth.2 herror
        refine ⟨key, rfl, item :: before, other, after, rfl, hkey, ?_⟩
        rw [mem_insert_iff] at hreason
        rw [List.map_cons, List.mem_cons]
        tauto

/-! ## Statistics -/

theorem countMemberships_eq_ok_iff {buckets : SetTable BucketKey UInt64} {total : Nat} :
    countMemberships buckets = .ok total ↔
      (buckets.toList.map fun entry => entry.2.size).sum = total ∧ total < 2 ^ 64 := by
  have hfold : ∀ (entries : List (BucketKey × OrderedSet UInt64)) (start : Nat), start < 2 ^ 64 →
      (entries.foldlM (fun total entry => do
        let count ← okOr (tryU64 entry.2.size) BackendError.lengthOverflow
        okOr (checkedAdd total count.toNat) .lengthOverflow) start = .ok total ↔
        start + (entries.map fun entry => entry.2.size).sum = total ∧ total < 2 ^ 64) := by
    intro entries
    induction entries with
    | nil =>
        intro start hstart
        simp only [List.foldlM_nil, pure_eq_ok_iff, List.map_nil, List.sum_nil, Nat.add_zero]
        refine ⟨fun heq => ⟨heq, heq ▸ hstart⟩, And.left⟩
    | cons entry entries ih =>
        intro start hstart
        simp only [List.foldlM_cons, bind_eq_ok_iff, okOr_eq_ok_iff, List.map_cons, List.sum_cons]
        constructor
        · intro h
          obtain ⟨next, ⟨count, hcount, hnext⟩, hrest⟩ := h
          obtain ⟨hlt, rfl⟩ := tryU64_eq_some_iff.mp hcount
          obtain ⟨hnextLt, rfl⟩ := checkedAdd_eq_some_iff.mp hnext
          rw [ih _ hnextLt, UInt64.toNat_ofNat_of_lt' hlt] at hrest
          omega
        · intro h
          have hlt : entry.2.size < 2 ^ 64 := by omega
          have hword : (UInt64.ofNat entry.2.size).toNat = entry.2.size :=
            UInt64.toNat_ofNat_of_lt' hlt
          refine ⟨start + entry.2.size, ⟨_, tryU64_of_lt hlt, ?_⟩, ?_⟩
          · rw [hword, checkedAdd_eq_some_iff]
            omega
          · rw [ih _ (by omega)]
            omega
  rw [countMemberships, hfold _ _ (by omega), Nat.zero_add]

theorem countMemberships_of_error {buckets : SetTable BucketKey UInt64} {error : BackendError}
    (h : countMemberships buckets = .error error) : error = .lengthOverflow := by
  have hfold : ∀ (entries : List (BucketKey × OrderedSet UInt64)) (start : Nat),
      entries.foldlM (fun total entry => do
        let count ← okOr (tryU64 entry.2.size) BackendError.lengthOverflow
        okOr (checkedAdd total count.toNat) .lengthOverflow) start = .error error →
      error = .lengthOverflow := by
    intro entries
    induction entries with
    | nil =>
        intro start h
        cases h
    | cons entry entries ih =>
        intro start h
        rw [List.foldlM_cons] at h
        cases hcount : tryU64 entry.2.size with
        | none =>
            rw [hcount] at h
            exact (Except.error.inj h).symm
        | some count =>
            rw [hcount, okOr_some, ok_bind] at h
            cases htotal : checkedAdd start count.toNat with
            | none =>
                rw [htotal] at h
                exact (Except.error.inj h).symm
            | some total =>
                rw [htotal, okOr_some, ok_bind] at h
                exact ih total h
  exact hfold _ 0 h

/-- The pairs of buckets and keys that the rows give. -/
def filedPairs (items : List (UInt64 × List UInt64)) : List (BucketKey × UInt64) :=
  items.flatMap fun item => (rowBuckets item.2).map (·, item.1)

theorem mem_filedPairs_iff (hitems : Enumerates items rows) (pair : BucketKey × UInt64) :
    pair ∈ filedPairs items ↔ Filed rows pair.1 pair.2 := by
  rw [filedPairs, List.mem_flatMap, Filed]
  constructor
  · intro hmem
    obtain ⟨item, hitem, hmem⟩ := hmem
    obtain ⟨bucket, hbucket, rfl⟩ := List.mem_map.mp hmem
    exact ⟨item.2, (hitems.mem_iff item.1 item.2).mp hitem, hbucket⟩
  · intro hfiled
    obtain ⟨row, hrow, hbucket⟩ := hfiled
    exact ⟨(pair.2, row), (hitems.mem_iff pair.2 row).mpr hrow,
      List.mem_map.mpr ⟨pair.1, hbucket, rfl⟩⟩

theorem nodup_filedPairs (hitems : Enumerates items rows)
    (hwidth : ∀ item ∈ items, item.2.length < 2 ^ 32) : (filedPairs items).Nodup := by
  rw [filedPairs, List.nodup_flatMap]
  constructor
  · intro item hitem
    exact (nodup_rowBuckets (hwidth item hitem)).map fun _ _ heq => congrArg Prod.fst heq
  · refine (List.pairwise_map.mp hitems.distinct).imp fun hne => ?_
    refine List.disjoint_left.mpr fun pair hpair hother => ?_
    obtain ⟨_, _, rfl⟩ := List.mem_map.mp hpair
    obtain ⟨_, _, heq⟩ := List.mem_map.mp hother
    exact hne (congrArg Prod.snd heq).symm

/-- The buckets of the pairs are the slots of the rows. -/
theorem map_fst_filedPairs (items : List (UInt64 × List UInt64)) :
    (filedPairs items).map Prod.fst =
      (bandSlots items).map fun slot => { band := UInt32.ofNat slot.2, hash := slot.1 } := by
  rw [filedPairs, bandSlots, List.map_flatMap, List.map_flatMap]
  refine List.flatMap_congr fun item _ => ?_
  rw [List.map_map, rowBuckets, List.map_map]
  rfl

/-- The bucket sizes are the multiplicities of the slots of the rows. -/
theorem Holds.bucketSizes_perm (h : backend.Holds bands rows) (hbands : bands < 2 ^ 32)
    (hitems : Enumerates items rows) :
    (backend.buckets.toList.map fun entry => entry.2.size).Perm
      (multiplicities (bandSlots items)) := by
  have hwidth : ∀ item ∈ items, item.2.length < 2 ^ 32 := by
    intro item hitem
    rwa [h.width item.1 item.2 ((hitems.mem_iff item.1 item.2).mp hitem)]
  have hsizes := h.buckets.sizes_perm (nodup_filedPairs hitems hwidth) (mem_filedPairs_iff hitems)
  rw [map_fst_filedPairs] at hsizes
  refine hsizes.trans (multiplicities_map ?_)
  have hband : ∀ slot ∈ bandSlots items, slot.2 < 2 ^ 32 := by
    intro slot hslot
    obtain ⟨item, hitem, hslot⟩ := List.mem_flatMap.mp hslot
    have hindex := List.mk_mem_zipIdx_iff_getElem?.mp hslot
    exact Nat.lt_trans (List.getElem?_eq_some_iff.mp hindex).1 (hwidth item hitem)
  intro slot hslot other hother heq
  obtain ⟨hword, hhash⟩ := BucketKey.mk.inj heq
  have hnat := congrArg UInt32.toNat hword
  rw [toNat_ofNat32 (hband slot hslot), toNat_ofNat32 (hband other hother)] at hnat
  exact Prod.ext hhash hnat

theorem Holds.sum_bucketSizes (h : backend.Holds bands rows) (hbands : bands < 2 ^ 32)
    (hitems : Enumerates items rows) :
    (backend.buckets.toList.map fun entry => entry.2.size).sum = items.length * bands := by
  rw [(h.bucketSizes_perm hbands hitems).sum_eq, sum_multiplicities]
  exact length_bandSlots fun item hitem =>
    h.width item.1 item.2 ((hitems.mem_iff item.1 item.2).mp hitem)

/-- There are as many records as live items. -/
theorem Holds.size_records (h : backend.Holds bands rows) (hitems : Enumerates items rows) :
    backend.records.size = items.length := by
  have hsize := @size_eq_add_length UInt64 (List UInt64) _ ∅ backend.records
    (items.map Prod.fst) hitems.distinct (fun _ _ => by simp) fun key => by
      rw [Std.ExtTreeMap.contains_empty, h.contains_eq, Option.isSome_iff_exists, List.mem_map]
      constructor
      · intro hlive
        obtain ⟨row, hrow⟩ := hlive
        exact Or.inr ⟨(key, row), (hitems.mem_iff key row).mpr hrow, rfl⟩
      · intro hmem
        obtain ⟨item, hitem, rfl⟩ := hmem.resolve_left (by simp)
        exact ⟨item.2, (hitems.mem_iff item.1 item.2).mp hitem⟩
  rw [hsize, Std.ExtTreeMap.size_empty, List.length_map, Nat.zero_add]

/-- Counting either overflows or counts the items and their memberships. -/
theorem Holds.call_stats (h : backend.Holds descriptor.params.bands rows)
    (hdescriptor : backend.descriptor = some descriptor) (hitems : Enumerates items rows) :
    call backend stats =
      (if items.length < 2 ^ 64 ∧ items.length * descriptor.params.bands < 2 ^ 64 then
        .ok { items := UInt64.ofNat items.length
              bucketMemberships := UInt64.ofNat (items.length * descriptor.params.bands)
              roundTrips := 0, ttlSecondsRemaining := none }
        else .error .lengthOverflow, backend) := by
  have hready : call backend requireDescriptor = (.ok (), backend) := by
    rw [requireDescriptor, call_read_bind, hdescriptor]
    rfl
  have hsum := h.sum_bucketSizes (bands_lt descriptor.toLshConfig) hitems
  rw [stats, call_bind_ok hready, call_read_bind, h.size_records hitems]
  by_cases hlength : items.length < 2 ^ 64
  · rw [tryU64_of_lt hlength, okOr_some, call_lift_ok_bind, call_read_bind]
    by_cases hmemberships : items.length * descriptor.params.bands < 2 ^ 64
    · rw [countMemberships_eq_ok_iff.mpr ⟨hsum, hmemberships⟩, call_lift_ok_bind, call_pure,
        if_pos ⟨hlength, hmemberships⟩]
    · rw [if_neg fun hboth => hmemberships hboth.2]
      cases hcount : countMemberships backend.buckets with
      | error error => rw [countMemberships_of_error hcount, call_lift_error_bind]
      | ok total =>
          obtain ⟨htotal, hlt⟩ := countMemberships_eq_ok_iff.mp hcount
          exact absurd (htotal ▸ hlt) (hsum ▸ hmemberships)
  · rw [if_neg fun hboth => hlength hboth.1, tryU64, if_neg hlength]
    rfl

/-! ## The contract of the memory backend -/

/-- A memory backend serves no descriptor with a retention period. -/
def Serves (backend : MemoryBackend) (descriptor : IndexDescriptor) (rows : Rows) : Prop :=
  backend.Keeps descriptor rows ∧ descriptor.retention = none

theorem serves_of_initialize (hretention : descriptor.retention = none) :
    call new (initializeNamespace descriptor) =
        (.ok (), { new with descriptor := some descriptor }) ∧
      Serves { new with descriptor := some descriptor } descriptor fun _ => none := by
  refine ⟨?_, ⟨rfl, Holds.empty _ _⟩, hretention⟩
  rw [initializeNamespace, call_read_bind, rejectIf_of_not (by decide), call_lift_ok_bind,
    rejectIf_of_not (by simp [hretention]), call_lift_ok_bind]
  rfl

theorem Serves.lawful : Lawful Serves where
  width h := h.1.2.width
  containsMany h keys := by
    obtain ⟨backend', hrun, hkeeps⟩ := MemoryBackend.lawful.containsMany h.1 keys
    exact ⟨backend', hrun, hkeeps, h.2⟩
  insertMany h items hbatch := by
    obtain ⟨backend', hrun, hkeeps⟩ := MemoryBackend.lawful.insertMany h.1 items hbatch
    exact ⟨backend', hrun, hkeeps, h.2⟩
  rejected h items hwidth hbatch := by
    obtain ⟨error, backend', hrun, hkeeps⟩ := MemoryBackend.lawful.rejected h.1 items hwidth hbatch
    exact ⟨error, backend', hrun, hkeeps, h.2⟩
  queryBuckets h buckets := by
    obtain ⟨members, backend', hrun, hmembers, hkeeps⟩ :=
      MemoryBackend.lawful.queryBuckets h.1 buckets
    exact ⟨members, backend', hrun, hmembers, hkeeps, h.2⟩
  deleteMany h keys := by
    obtain ⟨backend', hrun, hkeeps⟩ := MemoryBackend.lawful.deleteMany h.1 keys
    exact ⟨backend', hrun, hkeeps, h.2⟩

theorem conforming : Conforming .memory (fun backend => backend = new) Serves where
  lawful := Serves.lawful
  fresh_capabilities _ := rfl
  capabilities _ := rfl
  initialized := by
    intro backend hfresh descriptor hretention
    subst hfresh
    have hnone : descriptor.retention = none := by
      cases hsome : descriptor.retention with
      | none => rfl
      | some retention =>
          rw [hsome] at hretention
          exact absurd (hretention rfl) (by decide)
    obtain ⟨hrun, hserves⟩ := serves_of_initialize hnone
    exact .intro hrun hserves
  alreadyExists := by
    intro backend descriptor rows h other
    refine ⟨backend, ?_, h⟩
    show call backend (initializeNamespace other) = _
    rw [initializeNamespace, call_read_bind, h.1.1]
    rfl
  loadDescriptor := by
    intro backend descriptor rows h
    have hrun : call backend loadDescriptor = (.ok descriptor, backend) := by
      rw [loadDescriptor, call_read_bind, h.1.1]
      rfl
    exact .intro hrun ⟨rfl, h⟩
  notFound := by
    intro backend hfresh
    subst hfresh
    rfl
  duplicateKey := by
    intro backend descriptor rows h items hwidth hbatch
    cases hvalid : backend.validateItems descriptor.params.bands ∅ items with
    | ok result => exact absurd (h.1.2.validateItems_eq_ok_iff.mp hvalid).1 hbatch
    | error error =>
        obtain ⟨key, rfl, before, item, after, hitems, hkey, hreason⟩ :=
          h.1.2.clashes_of_error hwidth hvalid
        refine ⟨key, ⟨before, item, after, hitems, hkey, ?_⟩, ?_⟩
        · exact hreason.imp_right fun hseen => hseen.resolve_left (by simp)
        · show (call backend (insertMany items)).1 = _
          rw [insertMany_of_error h.1.1 hvalid]
  flush := by
    intro backend descriptor rows h
    have hrun : call backend requireDescriptor = (.ok (), backend) := by
      rw [requireDescriptor, call_read_bind, h.1.1]
      rfl
    exact .intro hrun h
  health h := .pure h
  stats := by
    intro backend descriptor rows h items hitems
    refine ⟨_, backend, h.1.2.call_stats h.1.1 hitems, h, fun stats hstats => ?_, fun hlt => ?_⟩
    · split at hstats
      · next hfits =>
          obtain rfl := Except.ok.inj hstats
          exact ⟨UInt64.toNat_ofNat_of_lt' hfits.1, UInt64.toNat_ofNat_of_lt' hfits.2, by rw [h.2]; rfl⟩
      · cases hstats
    · have hbands := descriptor.toLshConfig.bounds.2.2.2.1
      have hle : items.length ≤ items.length * descriptor.params.bands :=
        Nat.le_mul_of_pos_right _ hbands
      rw [if_pos ⟨hle.trans_lt hlt, hlt⟩]
      exact ⟨_, rfl⟩
  cleanup _ := .update rfl

end MemoryBackend

/-! ## The statistics of an index -/

/-- The distribution that the memory backend attaches to its statistics. -/
def MemoryBackend.bucketDistribution (backend : MemoryBackend) : BucketDistribution :=
  .fromSizes (backend.buckets.toList.map fun entry => entry.2.size)

/-- The in-memory index after a sequence of operations. -/
def referenceAfter (reference : LshIndex32) : List Operation → LshIndex32
  | [] => reference
  | operation :: operations => referenceAfter (operation.runReference reference).2 operations

theorem Mirrors.after {β : Type} [StorageBackend β] {Keeps : β → IndexDescriptor → Rows → Prop}
    {index : BackendIndex32 β} {reference : LshIndex32} {rows : Rows} (lawful : Lawful Keeps)
    (h : Mirrors Keeps index reference rows) {operations : List Operation}
    (hroom : reference.data.idToKey.length + insertions index operations ≤ 2 ^ 32 - 1) :
    ∃ rows', Mirrors Keeps (after index operations) (referenceAfter reference operations) rows' := by
  induction operations generalizing index reference rows with
  | nil => exact ⟨rows, h⟩
  | cons operation operations ih =>
      rw [insertions] at hroom
      obtain ⟨_, hlength, rows', hnext⟩ := h.step lawful operation (by omega)
      exact ih hnext (by omega)

/-- The records of a memory backend list its rows. -/
theorem MemoryBackend.Holds.enumerates {backend : MemoryBackend} {bands : Nat} {rows : Rows}
    (h : backend.Holds bands rows) : Enumerates backend.records.toList rows where
  distinct := ascending_keys.nodup
  mem_iff key row := by rw [mem_toList_iff, h.records]

/-- After every sequence of operations the statistics of an index over the memory backend are
those of an in-memory index after the same sequence, bucket sizes included, and counting never
overflows. -/
theorem memory_stats_as_reference {threshold : F64} {numPerm : Nat} {seed : UInt64}
    {params : LshParams} {retention : Option Duration} {index : BackendIndex32 MemoryBackend}
    {backend : MemoryBackend}
    (hnew : call MemoryBackend.new (createWithParams threshold numPerm seed params retention) =
      (.ok index, backend)) :
    ∃ reference, LshIndex.withParams .pariAffine32V1 threshold numPerm seed params =
        .ok reference ∧
      ∀ operations, insertions index operations < 2 ^ 32 - 1 → ∀ order queries, ∃ stats,
        (call (after index operations) BackendIndex32.stats).1 = .ok stats ∧
        stats.items.toNat = ((referenceAfter reference operations).stats order queries).items ∧
        stats.bucketMemberships =
          ((referenceAfter reference operations).stats order queries).buckets.memberships ∧
        (after index operations).backend.bucketDistribution =
          ((referenceAfter reference operations).stats order queries).buckets ∧
        stats.roundTrips = 0 ∧ stats.ttlSecondsRemaining = none := by
  obtain ⟨hkeeps, hconfig⟩ := createWithParams_of_ok hnew
  have hreference : LshIndex.withParams .pariAffine32V1 threshold numPerm seed params =
      .ok ⟨index.descriptor.toLshConfig, IndexData.new params.bands⟩ := by
    rw [LshIndex.withParams, hconfig]
    rfl
  have hmirrors : Mirrors MemoryBackend.Keeps index
      ⟨index.descriptor.toLshConfig, IndexData.new params.bands⟩ fun _ => none :=
    ⟨hkeeps, (LshIndex.withParams_holds hreference).1, rfl⟩
  refine ⟨_, hreference, fun operations hroom order queries => ?_⟩
  have hidentifiers : (IndexData.new params.bands).idToKey.length +
      insertions index operations ≤ 2 ^ 32 - 1 := by
    rw [IndexData.new, List.length_nil]
    omega
  obtain ⟨rows, hend⟩ := hmirrors.after MemoryBackend.lawful hidentifiers
  generalize referenceAfter _ operations = reference' at hend ⊢
  generalize after index operations = index' at hend ⊢
  obtain ⟨hdescriptor, hholds⟩ := hend.keeps
  have hitems := hholds.enumerates
  have hrun := hholds.call_stats hdescriptor hitems
  have hlist : index'.backend.records.toList.length ≤ 2 ^ 32 - 1 := hend.holds.length_le hitems
  have hbands := bands_lt index'.descriptor.toLshConfig
  have hproduct : index'.backend.records.toList.length * index'.descriptor.params.bands ≤
      (2 ^ 32 - 1) * (2 ^ 32 - 1) := Nat.mul_le_mul hlist (by omega)
  have hbuckets : (reference'.stats order queries).buckets =
      .fromSizes (multiplicities (bandSlots index'.backend.records.toList)) :=
    hend.holds.fromSizes_eq hitems order
  have hwidth : ∀ item ∈ index'.backend.records.toList,
      item.2.length = index'.descriptor.params.bands := fun item hitem =>
    hholds.width item.1 item.2 ((hitems.mem_iff item.1 item.2).mp hitem)
  rw [if_pos ⟨by omega, by omega⟩] at hrun
  have hanswer : (call index' BackendIndex32.stats).1 = .ok
      { items := UInt64.ofNat index'.backend.records.toList.length
        bucketMemberships := UInt64.ofNat
          (index'.backend.records.toList.length * index'.descriptor.params.bands)
        roundTrips := 0, ttlSecondsRemaining := none } := by
    rw [BackendIndex32.stats, call_onBackend]
    exact congrArg (fun result => Except.mapError BackendIndexError.backend result.1) hrun
  refine ⟨_, hanswer, ?_, ?_, ?_, rfl, rfl⟩
  · have hword : index'.backend.records.toList.length < 2 ^ 64 := by omega
    exact (UInt64.toNat_ofNat_of_lt' hword).trans (hend.holds.size_keyToId hitems).symm
  · rw [hbuckets, memberships_fromSizes hwidth, saturate, tryU64_of_lt (by omega),
      Option.getD_some]
  · rw [hbuckets, MemoryBackend.bucketDistribution,
      BucketDistribution.fromSizes_perm (hholds.bucketSizes_perm hbands hitems)]

/-- The statistics of an index over a new memory backend after one insertion. -/
theorem memory_stats_first_insertion :
    ∃ reference, LshIndex.withParams .pariAffine32V1 sampleConfig.threshold 4 1 ⟨2, 2⟩ =
        .ok reference ∧
      (after ⟨{ MemoryBackend.new with descriptor := some sampleDescriptor }, sampleDescriptor⟩
          [.insertMany [(7, sampleSketch)]]).backend.bucketDistribution =
        ((referenceAfter reference [.insertMany [(7, sampleSketch)]]).stats
          (.sorted _ _) none).buckets := by
  obtain ⟨reference, hreference, hstats⟩ := memory_stats_as_reference
    (show call MemoryBackend.new (createWithParams sampleConfig.threshold 4 1 ⟨2, 2⟩ none) =
      (.ok ⟨{ MemoryBackend.new with descriptor := some sampleDescriptor }, sampleDescriptor⟩,
        { MemoryBackend.new with descriptor := some sampleDescriptor }) from rfl)
  have hinsert (answer : Except BackendIndexError Answer) :
      (Operation.insertMany [(7, sampleSketch)]).insertions answer ≤ 1 := by
    cases answer with
    | error error => exact Nat.zero_le 1
    | ok value => exact le_refl 1
  obtain ⟨_, _, _, _, hbuckets, _⟩ := hstats [.insertMany [(7, sampleSketch)]] (by
    rw [insertions, insertions]
    exact (hinsert _).trans_lt (by decide)) (.sorted _ _) none
  exact ⟨reference, hreference, hbuckets⟩

end Pari.Backend
