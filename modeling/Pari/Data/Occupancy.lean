/-
# Bucket sizes

How full the buckets of band tables are. A row takes one slot in every band, and a bucket is as
large as the number of rows that take its slot: the bucket sizes are the multiplicities of the
slots, whatever order the items came in and however the tables list their buckets.
-/

import Pari.Data.BandTables
import Pari.Data.Grouping
import Pari.Data.SetTable
import Pari.Data.Statistics

namespace Data

universe u v

variable {κ : Type u} {ι : Type v}

/-- A list of the items of an assignment, each with its row. -/
structure Enumerates {ρ : Type u} (items : List (ι × ρ)) (rows : ι → Option ρ) : Prop where
  distinct : (items.map Prod.fst).Nodup
  mem_iff : ∀ item row, (item, row) ∈ items ↔ rows item = some row

theorem Enumerates.map {ρ ρ' : Type u} {items : List (ι × ρ)} {rows : ι → Option ρ}
    (h : Enumerates items rows) (convert : ρ → ρ') :
    Enumerates (items.map fun item => (item.1, convert item.2)) fun item =>
      (rows item).map convert where
  distinct := by
    rw [List.map_map]
    exact h.distinct
  mem_iff := by
    intro item row
    rw [List.mem_map, Option.map_eq_some_iff]
    constructor
    · intro hmem
      obtain ⟨pair, hpair, heq⟩ := hmem
      obtain ⟨rfl, rfl⟩ := Prod.mk.inj heq
      exact ⟨pair.2, (h.mem_iff pair.1 pair.2).mp hpair, rfl⟩
    · intro hrow
      obtain ⟨value, hvalue, rfl⟩ := hrow
      exact ⟨(item, value), (h.mem_iff item value).mpr hvalue, rfl⟩

/-- An item has a row when it is listed. -/
theorem Enumerates.isSome_iff {ρ : Type u} {items : List (ι × ρ)} {rows : ι → Option ρ}
    (h : Enumerates items rows) {item : ι} :
    (rows item).isSome = true ↔ item ∈ items.map Prod.fst := by
  rw [Option.isSome_iff_exists, List.mem_map]
  constructor
  · intro hrow
    obtain ⟨row, hrow⟩ := hrow
    exact ⟨(item, row), (h.mem_iff item row).mpr hrow, rfl⟩
  · intro hmem
    obtain ⟨pair, hpair, rfl⟩ := hmem
    exact ⟨pair.2, (h.mem_iff pair.1 pair.2).mp hpair⟩

theorem Enumerates.eq_none {ρ : Type u} {items : List (ι × ρ)} {rows : ι → Option ρ}
    (h : Enumerates items rows) {item : ι} (hitem : item ∉ items.map Prod.fst) :
    rows item = none := by
  rwa [← h.isSome_iff, Bool.not_eq_true, Option.isSome_eq_false_iff, Option.isNone_iff_eq_none] at hitem

/-- A list has one assignment. -/
theorem Enumerates.unique {ρ : Type u} {items : List (ι × ρ)} {rows others : ι → Option ρ}
    (h : Enumerates items rows) (h' : Enumerates items others) : rows = others := by
  funext item
  refine Option.ext fun row => ?_
  exact (h.mem_iff item row).symm.trans (h'.mem_iff item row)

/-- The slots of a list of rows: every hash with its band. -/
def bandSlots (items : List (ι × List κ)) : List (κ × Nat) := items.flatMap fun item => item.2.zipIdx

/-- Only the rows matter. -/
theorem bandSlots_eq_of_rows {κ : Type u} {ι ι' : Type v} {items : List (ι × List κ)}
    {others : List (ι' × List κ)}
    (hrows : others.map Prod.snd = items.map Prod.snd) : bandSlots others = bandSlots items := by
  have hslots : ∀ {ι : Type v} (items : List (ι × List κ)),
      bandSlots items = (items.map Prod.snd).flatMap fun row => row.zipIdx := by
    intro ι items
    rw [bandSlots, List.flatMap_map]
  rw [hslots, hslots, hrows]

variable [LinearOrder κ]

/-- The sizes of the buckets, as the tables list them. -/
def bucketSizes (order : VisitOrder κ (List ι)) (tables : List (Table κ ι)) : List Nat :=
  tables.zipIdx.flatMap fun table => (order.entries table.2 table.1).map fun entry => entry.2.length

section Counting

variable {items : List (ι × List κ)} {bands : Nat}

theorem length_bandSlots (hwidth : ∀ item ∈ items, item.2.length = bands) :
    (bandSlots items).length = items.length * bands := by
  induction items with
  | nil => simp [bandSlots]
  | cons item items ih =>
      rw [List.forall_mem_cons] at hwidth
      have hrest := ih hwidth.2
      rw [bandSlots] at hrest ⊢
      rw [List.flatMap_cons, List.length_append, List.length_zipIdx, hwidth.1, hrest,
        List.length_cons, Nat.succ_mul, Nat.add_comm]

/-- A slot is taken by every row that has its hash in its band. -/
theorem count_bandSlots (hash : κ) (band : Nat) :
    occurrences (bandSlots items) (hash, band) =
      (items.filter fun item => item.2[band]? = some hash).length := by
  induction items with
  | nil => rfl
  | cons item items ih =>
      have hdistinct : item.2.zipIdx.Nodup := by
        refine List.Nodup.of_map Prod.snd ?_
        rw [List.zipIdx_map_snd]
        exact List.nodup_range'
      have hrow : occurrences item.2.zipIdx (hash, band) =
          if item.2[band]? = some hash then 1 else 0 := by
        rw [occurrences_of_nodup hdistinct]
        simp only [List.mk_mem_zipIdx_iff_getElem?]
      rw [bandSlots] at ih ⊢
      rw [List.flatMap_cons, occurrences_append, ih, hrow, List.filter_cons]
      by_cases hhash : item.2[band]? = some hash
      · rw [if_pos hhash, if_pos (decide_eq_true hhash), List.length_cons, Nat.add_comm]
      · rw [if_neg hhash, if_neg (by simpa using hhash), Nat.zero_add]

end Counting

section Tables

variable {bands : Nat} {tables : List (Table κ ι)} {rows : ι → Option (List κ)}
  {items : List (ι × List κ)}

/-- A bucket holds one item for each row that takes its slot. -/
theorem RepresentsRows.length_bucket (h : RepresentsRows bands tables rows)
    (hitems : Enumerates items rows) {band : Nat} {table : Table κ ι}
    (htable : tables[band]? = some table) {hash : κ} {bucket : List ι}
    (hbucket : table[hash]? = some bucket) : bucket.length = occurrences (bandSlots items) (hash, band) := by
  have hrepresents := h.table band table htable
  have hmembers : bucket.Perm
      ((items.filter fun item => item.2[band]? = some hash).map Prod.fst) := by
    refine (List.perm_ext_iff_of_nodup (hrepresents.nodup hash bucket hbucket)
      ((List.filter_sublist.map Prod.fst).nodup hitems.distinct)).mpr fun item => ?_
    have hmem := hrepresents.mem_iff hash item
    rw [hbucket, Option.getD_some, hashIn, Option.bind_eq_some_iff] at hmem
    rw [hmem, List.mem_map]
    constructor
    · intro hrow
      obtain ⟨row, hrow, hhash⟩ := hrow
      exact ⟨(item, row), List.mem_filter.mpr
        ⟨(hitems.mem_iff item row).mpr hrow, decide_eq_true hhash⟩, rfl⟩
    · intro hrow
      obtain ⟨⟨item, row⟩, hpair, rfl⟩ := hrow
      obtain ⟨hpair, hhash⟩ := List.mem_filter.mp hpair
      exact ⟨row, (hitems.mem_iff item row).mp hpair, of_decide_eq_true hhash⟩
  rw [hmembers.length_eq, List.length_map, count_bandSlots]

/-- A slot that some row takes has a bucket. -/
theorem RepresentsRows.exists_bucket (h : RepresentsRows bands tables rows)
    (hitems : Enumerates items rows) {hash : κ} {band : Nat}
    (hslot : 0 < occurrences (bandSlots items) (hash, band)) :
    ∃ table bucket, tables[band]? = some table ∧ table[hash]? = some bucket := by
  rw [count_bandSlots] at hslot
  obtain ⟨item, hitem⟩ := List.exists_mem_of_length_pos hslot
  obtain ⟨hitem, hhash⟩ := List.mem_filter.mp hitem
  have hrow := (hitems.mem_iff item.1 item.2).mp hitem
  have hhash := of_decide_eq_true hhash
  have hband : band < tables.length := by
    rw [h.length, ← h.width item.1 item.2 hrow]
    exact (List.getElem?_eq_some_iff.mp hhash).1
  refine ⟨tables[band], ?_⟩
  have htable := List.getElem?_eq_getElem hband
  have hmem := ((h.table band _ htable).mem_iff hash item.1).mpr (by rw [hashIn, hrow]; exact hhash)
  cases hbucket : tables[band][hash]? with
  | none =>
      rw [hbucket, Option.getD_none] at hmem
      exact absurd hmem List.not_mem_nil
  | some bucket => exact ⟨bucket, htable, rfl⟩

/-- The bucket sizes are the multiplicities of the slots. -/
theorem RepresentsRows.bucketSizes_perm (h : RepresentsRows bands tables rows)
    (hitems : Enumerates items rows) (order : VisitOrder κ (List ι)) :
    (bucketSizes order tables).Perm (multiplicities (bandSlots items)) := by
  let classes := tables.zipIdx.flatMap fun table =>
    (order.entries table.2 table.1).map fun entry => ((entry.1, table.2), entry.2.length)
  have hsizes : bucketSizes order tables = classes.map Prod.snd := by
    rw [bucketSizes, List.map_flatMap]
    refine List.flatMap_congr fun table _ => ?_
    rw [List.map_map]
    exact List.map_congr_left fun _ _ => rfl
  have hmem : ∀ label size, (label, size) ∈ classes ↔ ∃ table bucket,
      tables[label.2]? = some table ∧ table[label.1]? = some bucket ∧ size = bucket.length := by
    intro label size
    rw [List.mem_flatMap]
    constructor
    · intro hclass
      obtain ⟨⟨table, band⟩, htable, hclass⟩ := hclass
      obtain ⟨⟨hash, bucket⟩, hentry, hpair⟩ := List.mem_map.mp hclass
      obtain ⟨rfl, rfl⟩ := Prod.mk.inj hpair
      exact ⟨table, bucket, List.mk_mem_zipIdx_iff_getElem?.mp htable,
        order.mem_entries_iff.mp hentry, rfl⟩
    · intro hclass
      obtain ⟨table, bucket, htable, hbucket, rfl⟩ := hclass
      exact ⟨(table, label.2), List.mk_mem_zipIdx_iff_getElem?.mpr htable,
        List.mem_map.mpr ⟨(label.1, bucket), order.mem_entries_iff.mpr hbucket, rfl⟩⟩
  rw [hsizes]
  refine perm_multiplicities ?_ fun label size => ?_
  · -- Buckets of one table differ in their hash, those of two tables in their band.
    rw [List.map_flatMap, List.nodup_flatMap]
    constructor
    · intro table htable
      rw [List.map_map]
      have hkeys : ((order.entries table.2 table.1).map Prod.fst).Nodup :=
        ((order.perm table.2 table.1).map Prod.fst).nodup_iff.mpr ascending_keys.nodup
      have hlabels := hkeys.map (f := fun hash => (hash, table.2)) fun _ _ heq => congrArg Prod.fst heq
      rw [List.map_map] at hlabels
      exact hlabels
    · have hindices : (tables.zipIdx.map Prod.snd).Nodup := by
        rw [List.zipIdx_map_snd]
        exact List.nodup_range'
      refine (List.pairwise_map.mp hindices).imp fun {table other} hne => ?_
      intro label hlabel hlabel'
      simp only [List.map_map, List.mem_map, Function.comp_apply] at hlabel hlabel'
      obtain ⟨_, _, rfl⟩ := hlabel
      obtain ⟨_, _, heq⟩ := hlabel'
      exact hne (congrArg Prod.snd heq).symm
  · rw [hmem]
    constructor
    · intro hclass
      obtain ⟨table, bucket, htable, hbucket, rfl⟩ := hclass
      exact ⟨List.length_pos_of_ne_nil ((h.table _ table htable).nonempty _ bucket hbucket),
        h.length_bucket hitems htable hbucket⟩
    · intro hsize
      obtain ⟨table, bucket, htable, hbucket⟩ := h.exists_bucket hitems (hsize.2 ▸ hsize.1)
      exact ⟨table, bucket, htable, hbucket,
        hsize.2.trans (h.length_bucket hitems htable hbucket).symm⟩

end Tables

section Groups

variable {β : Type v} {records : List (κ × β)}

theorem length_fibre (key : κ) : (fibre records key).length = occurrences (records.map Prod.fst) key := by
  rw [fibre, List.length_map, occurrences, List.count, List.countP_map, ← List.countP_eq_length_filter]
  exact List.countP_congr fun record _ => by simp

/-- The sizes of the groups are the multiplicities of the keys. -/
theorem IsGrouping.sizes_perm {groups : List (κ × List β)} (h : IsGrouping records groups) :
    (groups.map fun group => group.2.length).Perm (multiplicities (records.map Prod.fst)) := by
  have hclasses := @perm_multiplicities κ _ (records.map Prod.fst)
    (groups.map fun group => (group.1, group.2.length)) (by
      rw [List.map_map]
      exact h.ascending.nodup) fun key size => by
    rw [← length_fibre, List.mem_map]
    constructor
    · intro hmem
      obtain ⟨⟨other, values⟩, hgroup, hpair⟩ := hmem
      obtain ⟨rfl, rfl⟩ := Prod.mk.inj hpair
      obtain ⟨rfl, hne⟩ := (h.mem_iff other values).mp hgroup
      exact ⟨List.length_pos_of_ne_nil hne, rfl⟩
    · intro hsize
      refine ⟨(key, fibre records key), (h.mem_iff key _).mpr ⟨rfl, ?_⟩, Prod.ext rfl hsize.2.symm⟩
      exact List.ne_nil_of_length_pos (hsize.2 ▸ hsize.1)
  rw [List.map_map] at hclasses
  exact hclasses

end Groups

section Sets

variable {ι : Type v} [LinearOrder ι] {table : SetTable κ ι} {related : κ → ι → Prop}
  {pairs : List (κ × ι)}

/-- A key has as many members as there are pairs with it. -/
theorem SetTable.Represents.size_members (h : table.Represents related) (hdistinct : pairs.Nodup)
    (hpairs : ∀ pair, pair ∈ pairs ↔ related pair.1 pair.2) {key : κ} {members : OrderedSet ι}
    (hmembers : table[key]? = some members) :
    members.size = occurrences (pairs.map Prod.fst) key := by
  have hperm : members.toList.Perm ((pairs.filter fun pair => pair.1 = key).map Prod.snd) := by
    refine (List.perm_ext_iff_of_nodup ascending_toList.nodup ?_).mpr fun member => ?_
    · refine (hdistinct.filter _).map_on fun pair hpair other hother heq => ?_
      have hkey := of_decide_eq_true (List.mem_filter.mp hpair).2
      have hkey' := of_decide_eq_true (List.mem_filter.mp hother).2
      exact Prod.ext (hkey.trans hkey'.symm) heq
    · have hmem := h.mem_iff key member
      rw [hmembers, Option.getD_some, ← hpairs (key, member)] at hmem
      rw [mem_set_toList_iff, hmem, List.mem_map]
      constructor
      · intro hpair
        exact ⟨(key, member), List.mem_filter.mpr ⟨hpair, decide_eq_true rfl⟩, rfl⟩
      · intro hpair
        obtain ⟨⟨other, member⟩, hfiltered, rfl⟩ := hpair
        have hmember := List.mem_filter.mp hfiltered
        obtain rfl : other = key := of_decide_eq_true hmember.2
        exact hmember.1
  rw [← Std.ExtTreeSet.length_toList, hperm.length_eq, List.length_map, occurrences, List.count,
    List.countP_map, ← List.countP_eq_length_filter]
  exact List.countP_congr fun pair _ => by simp

/-- The sizes of the sets are the multiplicities of the keys. -/
theorem SetTable.Represents.sizes_perm (h : table.Represents related) (hdistinct : pairs.Nodup)
    (hpairs : ∀ pair, pair ∈ pairs ↔ related pair.1 pair.2) :
    (table.toList.map fun entry => entry.2.size).Perm (multiplicities (pairs.map Prod.fst)) := by
  have hclasses := @perm_multiplicities κ _ (pairs.map Prod.fst)
    (table.toList.map fun entry => (entry.1, entry.2.size)) (by
      rw [List.map_map]
      exact ascending_keys.nodup) fun key size => by
    rw [List.mem_map]
    constructor
    · intro hmem
      obtain ⟨⟨other, members⟩, hentry, hpair⟩ := hmem
      obtain ⟨rfl, rfl⟩ := Prod.mk.inj hpair
      have hmembers := mem_toList_iff.mp hentry
      refine ⟨Nat.pos_of_ne_zero fun hzero => ?_, h.size_members hdistinct hpairs hmembers⟩
      have hempty : members.isEmpty = true := by rw [Std.ExtTreeSet.isEmpty_eq_size_beq_zero, hzero]; rfl
      exact h.nonempty _ _ hmembers (Std.ExtTreeSet.isEmpty_iff.mp hempty)
    · intro hsize
      obtain ⟨pair, hpair, rfl⟩ := List.mem_map.mp (occurrences_pos_iff.mp (hsize.2 ▸ hsize.1))
      have hmem := (h.mem_iff pair.1 pair.2).mpr ((hpairs pair).mp hpair)
      cases hmembers : table[pair.1]? with
      | none =>
          rw [hmembers, Option.getD_none] at hmem
          exact absurd hmem Std.ExtTreeSet.not_mem_empty
      | some members =>
          refine ⟨(pair.1, members), mem_toList_iff.mpr hmembers, Prod.ext rfl ?_⟩
          exact (h.size_members hdistinct hpairs hmembers).trans hsize.2.symm
  rw [List.map_map] at hclasses
  exact hclasses

end Sets

end Data
