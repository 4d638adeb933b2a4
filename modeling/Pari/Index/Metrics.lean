/-
# Statistics of the in-memory index

The distribution of bucket sizes is computed on demand from the buckets as the hash tables list
them. It says how many buckets there are, how many memberships they hold, and the nearest-rank
percentiles of their sizes; it depends on the live items alone.
-/

import Mathlib.Algebra.Order.Field.Rat
import Pari.Data.Occupancy
import Pari.Index.Reachable

namespace Pari.Index

open Data Pari.Format Pari.Core

/-! ## Distributions -/

/-- The summary of stored bucket sizes. -/
structure BucketDistribution where
  buckets : UInt64
  memberships : UInt64
  minimum : UInt64
  p50 : UInt64
  p95 : UInt64
  p99 : UInt64
  maximum : UInt64
  deriving DecidableEq, Repr

namespace BucketDistribution

def default : BucketDistribution := ⟨0, 0, 0, 0, 0, 0, 0⟩

/-- Summarize exact bucket sizes supplied by an index implementation. -/
def fromSizes (sizes : List Nat) : BucketDistribution :=
  let sizes := (sizes.map saturate).filter (0 < ·)
  if sizes.isEmpty then default
  else
    let sizes := sortUnstable sizes
    { buckets := saturate sizes.length
      memberships := sizes.foldl saturatingAdd 0
      minimum := sizes.head?.getD 0
      p50 := nearestRank sizes 50
      p95 := nearestRank sizes 95
      p99 := nearestRank sizes 99
      maximum := sizes.getLast?.getD 0 }

example : fromSizes [1, 2, 3, 4, 100] = ⟨5, 110, 1, 3, 100, 100, 100⟩ := by decide

/-- What a distribution says about the sizes it was made from, none of them zero. -/
structure Summarizes (distribution : BucketDistribution) (sizes : List Nat) : Prop where
  buckets : distribution.buckets = saturate sizes.length
  memberships : distribution.memberships = saturate sizes.sum
  minimum : distribution.minimum ∈ sizes.map saturate
  minimum_le : ∀ size ∈ sizes, distribution.minimum ≤ saturate size
  p50 : IsPercentile (sizes.map saturate) 50 distribution.p50
  p95 : IsPercentile (sizes.map saturate) 95 distribution.p95
  p99 : IsPercentile (sizes.map saturate) 99 distribution.p99
  maximum : distribution.maximum ∈ sizes.map saturate
  le_maximum : ∀ size ∈ sizes, saturate size ≤ distribution.maximum

/-- The order in which the sizes come does not matter. -/
theorem fromSizes_perm {sizes others : List Nat} (h : sizes.Perm others) :
    fromSizes sizes = fromSizes others := by
  have hvalues := (h.map saturate).filter (0 < ·)
  rw [fromSizes, fromSizes, sortUnstable_eq_of_perm hvalues]
  have hempty : ((sizes.map saturate).filter (0 < ·)).isEmpty =
      ((others.map saturate).filter (0 < ·)).isEmpty := by
    rw [Bool.eq_iff_iff, List.isEmpty_iff_length_eq_zero, List.isEmpty_iff_length_eq_zero,
      hvalues.length_eq]
  rw [hempty]

theorem saturate_pos {size : Nat} (h : 0 < size) : 0 < saturate size := by
  rw [UInt64.lt_iff_toNat_lt, toNat_saturate, UInt64.toNat_zero]
  omega

theorem sum_foldl_saturatingAdd (sizes : List Nat) :
    (sortUnstable (sizes.map saturate)).foldl saturatingAdd 0 = saturate sizes.sum := by
  have hsum := foldl_saturatingAdd 0 sizes
  rw [Nat.zero_add] at hsum
  rw [(sortUnstable_perm _).foldl_eq' fun a _ b _ start => saturatingAdd_right_comm start a b]
  exact hsum

theorem fromSizes_summarizes {sizes : List Nat} (hne : sizes ≠ []) (hpos : ∀ size ∈ sizes, 0 < size) :
    (fromSizes sizes).Summarizes sizes := by
  have hkept : (sizes.map saturate).filter (0 < ·) = sizes.map saturate := by
    rw [List.filter_eq_self]
    intro value hvalue
    obtain ⟨size, hsize, rfl⟩ := List.mem_map.mp hvalue
    exact decide_eq_true (saturate_pos (hpos size hsize))
  have hvalues : sizes.map saturate ≠ [] := fun h => hne (List.map_eq_nil_iff.mp h)
  have hfrom : fromSizes sizes =
      { buckets := saturate (sortUnstable (sizes.map saturate)).length
        memberships := (sortUnstable (sizes.map saturate)).foldl saturatingAdd 0
        minimum := (sortUnstable (sizes.map saturate)).head?.getD 0
        p50 := nearestRank (sortUnstable (sizes.map saturate)) 50
        p95 := nearestRank (sortUnstable (sizes.map saturate)) 95
        p99 := nearestRank (sortUnstable (sizes.map saturate)) 99
        maximum := (sortUnstable (sizes.map saturate)).getLast?.getD 0 } := by
    rw [fromSizes, hkept, if_neg (by rwa [List.isEmpty_iff])]
  have hsortedNe : sortUnstable (sizes.map saturate) ≠ [] := fun h =>
    hvalues (List.perm_nil.mp (h ▸ (sortUnstable_perm (sizes.map saturate)).symm))
  have hsorted := sortUnstable_pairwise (sizes.map saturate)
  rw [hfrom]
  constructor
  case buckets => rw [length_sortUnstable, List.length_map]
  case memberships =>
    exact sum_foldl_saturatingAdd sizes
  case minimum =>
    show (sortUnstable (sizes.map saturate)).head?.getD 0 ∈ _
    rw [List.head?_eq_some_head hsortedNe, Option.getD_some]
    exact mem_sortUnstable.mp (List.head_mem hsortedNe)
  case minimum_le =>
    intro size hsize
    show (sortUnstable (sizes.map saturate)).head?.getD 0 ≤ _
    rw [List.head?_eq_some_head hsortedNe, Option.getD_some]
    exact hsorted.rel_head (mem_sortUnstable.mpr (List.mem_map_of_mem hsize))
  case p50 => exact isPercentile_nearestRank hvalues (by omega) (by omega)
  case p95 => exact isPercentile_nearestRank hvalues (by omega) (by omega)
  case p99 => exact isPercentile_nearestRank hvalues (by omega) (by omega)
  case maximum =>
    show (sortUnstable (sizes.map saturate)).getLast?.getD 0 ∈ _
    rw [List.getLast?_eq_some_getLast hsortedNe, Option.getD_some]
    exact mem_sortUnstable.mp (List.getLast_mem hsortedNe)
  case le_maximum =>
    intro size hsize
    show _ ≤ (sortUnstable (sizes.map saturate)).getLast?.getD 0
    rw [List.getLast?_eq_some_getLast hsortedNe, Option.getD_some]
    exact hsorted.rel_getLast (mem_sortUnstable.mpr (List.mem_map_of_mem hsize))

theorem memberships_fromSizes {sizes : List Nat} (hpos : ∀ size ∈ sizes, 0 < size) :
    (fromSizes sizes).memberships = saturate sizes.sum := by
  cases sizes with
  | nil => rfl
  | cons size sizes => exact (fromSizes_summarizes (List.cons_ne_nil size sizes) hpos).memberships

/-- The percentiles lie in order between the smallest and the largest size. -/
theorem Summarizes.ordered {distribution : BucketDistribution} {sizes : List Nat}
    (h : distribution.Summarizes sizes) :
    distribution.minimum ≤ distribution.p50 ∧ distribution.p50 ≤ distribution.p95 ∧
      distribution.p95 ≤ distribution.p99 ∧ distribution.p99 ≤ distribution.maximum := by
  refine ⟨?_, h.p50.le h.p95 (by omega), h.p95.le h.p99 (by omega), ?_⟩
  · obtain ⟨size, hsize, heq⟩ := List.mem_map.mp h.p50.mem
    rw [← heq]
    exact h.minimum_le size hsize
  · obtain ⟨size, hsize, heq⟩ := List.mem_map.mp h.p99.mem
    rw [← heq]
    exact h.le_maximum size hsize

end BucketDistribution

/-! ## Query metrics -/

/-- Query counters and latency observations. -/
structure QueryMetrics where
  operations : UInt64
  queries : UInt64
  candidates : UInt64
  possibleCandidates : UInt64
  totalLatencyNs : UInt64
  maxLatencyNs : UInt64
  deriving DecidableEq, Repr

/-- What is known about one scalar or batch query operation. -/
structure Observation where
  queries : Nat
  candidates : Nat
  possibleCandidates : Nat
  elapsed : Nat
  deriving DecidableEq, Repr

namespace QueryMetrics

def default : QueryMetrics := ⟨0, 0, 0, 0, 0, 0⟩

/-- Record one scalar or batch query operation. -/
def record (metrics : QueryMetrics) (observation : Observation) : QueryMetrics where
  operations := saturatingAdd metrics.operations 1
  queries := saturatingAdd metrics.queries (saturate observation.queries)
  candidates := saturatingAdd metrics.candidates (saturate observation.candidates)
  possibleCandidates :=
    saturatingAdd metrics.possibleCandidates (saturate observation.possibleCandidates)
  totalLatencyNs := saturatingAdd metrics.totalLatencyNs (saturate observation.elapsed)
  maxLatencyNs := max metrics.maxLatencyNs (saturate observation.elapsed)

/-- The totals of a list of observations. -/
def totals (observations : List Observation) : QueryMetrics where
  operations := saturate observations.length
  queries := saturate (observations.map (·.queries)).sum
  candidates := saturate (observations.map (·.candidates)).sum
  possibleCandidates := saturate (observations.map (·.possibleCandidates)).sum
  totalLatencyNs := saturate (observations.map (·.elapsed)).sum
  maxLatencyNs := saturate ((observations.map (·.elapsed)).foldl max 0)

/-- Recording one operation after another counts the totals, up to saturation. -/
theorem record_totals (observations : List Observation) (observation : Observation) :
    (totals observations).record observation = totals (observations ++ [observation]) := by
  have hone : (1 : UInt64) = saturate 1 := by decide
  simp only [record, totals, hone, saturatingAdd_saturate, saturate_max, List.length_append,
    List.map_append, List.sum_append, List.foldl_append, List.map_cons, List.map_nil,
    List.sum_cons, List.sum_nil, List.foldl_cons, List.foldl_nil, List.length_singleton,
    Nat.add_zero]

theorem foldl_record (observations : List Observation) :
    observations.foldl record default = totals observations := by
  induction observations using List.reverseRecOn with
  | nil => rfl
  | append_singleton observations observation ih =>
      rw [List.foldl_append, ih, List.foldl_cons, List.foldl_nil, record_totals]

/-- Exact aggregate candidate rate for the observed queries. -/
def candidateRate (metrics : QueryMetrics) : ℚ :=
  if metrics.possibleCandidates = 0 then 0
  else metrics.candidates.toNat / metrics.possibleCandidates.toNat

/-- The rate is positive when something was found. -/
theorem candidateRate_pos {metrics : QueryMetrics} (hcandidates : 0 < metrics.candidates.toNat)
    (hpossible : metrics.candidates ≤ metrics.possibleCandidates) : 0 < metrics.candidateRate := by
  have hle := UInt64.le_iff_toNat_le.mp hpossible
  have hpositive : 0 < metrics.possibleCandidates.toNat := by omega
  rw [candidateRate, if_neg fun hzero => by simp [hzero] at hpositive]
  exact div_pos (Nat.cast_pos.mpr hcandidates) (Nat.cast_pos.mpr hpositive)

end QueryMetrics

/-! ## Statistics of an index -/

/-- On-demand in-memory index diagnostics. -/
structure LshStats where
  items : Nat
  bands : Nat
  rows : Nat
  buckets : BucketDistribution
  queries : Option QueryMetrics
  deriving DecidableEq, Repr

variable {scheme : SignatureScheme}

def LshIndex.stats (index : LshIndex scheme) (order : VisitOrder UInt64 (List UInt32))
    (queries : Option QueryMetrics) : LshStats where
  items := index.len
  bands := index.config.params.bands
  rows := index.config.params.rows
  buckets := .fromSizes (bucketSizes order index.data.buckets)
  queries := queries

section Items

variable {data : IndexData} {bands : Nat} {rows : Rows} {items : List (UInt64 × List UInt64)}

/-- The rows of the live identifiers are those of the live keys. -/
theorem IndexData.Holds.exists_identifiers (h : data.Holds bands rows)
    (hitems : Enumerates items rows) : ∃ identifiers : List (UInt32 × List UInt64),
      Enumerates identifiers data.liveRow ∧ identifiers.map Prod.snd = items.map Prod.snd := by
  let idOf := fun key : UInt64 => (data.keyToId[key]?).getD 0
  have hid : ∀ item ∈ items, data.keyToId[item.1]? = some (idOf item.1) ∧
      data.liveRow (idOf item.1) = some item.2 := by
    intro item hitem
    have hrow := (hitems.mem_iff item.1 item.2).mp hitem
    rw [h.rows, Option.bind_eq_some_iff] at hrow
    obtain ⟨id, hkey, hrow⟩ := hrow
    have hidOf : idOf item.1 = id := by
      simp only [idOf, hkey, Option.getD_some]
    rw [hidOf]
    exact ⟨hkey, hrow⟩
  refine ⟨items.map fun item => (idOf item.1, item.2), ⟨?_, fun id row => ?_⟩, ?_⟩
  · rw [List.map_map]
    have hkeys : ((items.map Prod.fst).map idOf).Nodup := by
      refine hitems.distinct.map_on fun key hkey other hother heq => ?_
      obtain ⟨item, hitem, rfl⟩ := List.mem_map.mp hkey
      obtain ⟨item', hitem', rfl⟩ := List.mem_map.mp hother
      have hlive := (h.keys _ _).mp (hid item hitem).1
      rw [heq, (h.keys _ _).mp (hid item' hitem').1] at hlive
      exact (Option.some.inj hlive).symm
    rw [List.map_map] at hkeys
    exact hkeys
  · rw [List.mem_map]
    constructor
    · intro hmem
      obtain ⟨item, hitem, hpair⟩ := hmem
      obtain ⟨rfl, rfl⟩ := Prod.mk.inj hpair
      exact (hid item hitem).2
    · intro hrow
      obtain ⟨key, hlive⟩ := Option.ne_none_iff_exists'.mp fun hnone => by
        rw [(h.live id).mp hnone] at hrow
        cases hrow
      have hkey := (h.keys key id).mpr hlive
      have hmem := (hitems.mem_iff key row).mpr (by rw [h.rows, hkey]; exact hrow)
      refine ⟨(key, row), hmem, Prod.ext ?_ rfl⟩
      simp only [idOf, hkey, Option.getD_some]
  · rw [List.map_map]
    exact List.map_congr_left fun _ _ => rfl

/-- There are as many live keys as live items. -/
theorem IndexData.Holds.size_keyToId (h : data.Holds bands rows) (hitems : Enumerates items rows) :
    data.keyToId.size = items.length := by
  have hsize := @size_eq_add_length UInt64 UInt32 _ ∅ data.keyToId (items.map Prod.fst)
    hitems.distinct (fun _ _ => by simp) fun key => by
      rw [Std.ExtTreeMap.contains_empty, Std.ExtTreeMap.contains_eq_isSome_getElem?,
        Option.isSome_iff_ne_none, Ne, ← h.rows_eq_none_iff, List.mem_map]
      constructor
      · intro hlive
        obtain ⟨row, hrow⟩ := Option.ne_none_iff_exists'.mp hlive
        exact Or.inr ⟨(key, row), (hitems.mem_iff key row).mpr hrow, rfl⟩
      · intro hmem
        obtain ⟨item, hitem, rfl⟩ := hmem.resolve_left (by simp)
        rw [(hitems.mem_iff item.1 item.2).mp hitem]
        simp
  rw [hsize, Std.ExtTreeMap.size_empty, List.length_map, Nat.zero_add]

/-- The buckets of an index summarize the slots of its live rows. -/
theorem IndexData.Holds.fromSizes_eq (h : data.Holds bands rows) (hitems : Enumerates items rows)
    (order : VisitOrder UInt64 (List UInt32)) :
    BucketDistribution.fromSizes (bucketSizes order data.buckets) =
      .fromSizes (multiplicities (bandSlots items)) := by
  obtain ⟨identifiers, hidentifiers, hrows⟩ := h.exists_identifiers hitems
  rw [BucketDistribution.fromSizes_perm (h.tables.bucketSizes_perm hidentifiers order),
    bandSlots_eq_of_rows hrows]

theorem IndexData.Holds.length_le (h : data.Holds bands rows) (hitems : Enumerates items rows) :
    items.length ≤ 2 ^ 32 - 1 := by
  obtain ⟨identifiers, hidentifiers, hrows⟩ := h.exists_identifiers hitems
  have hlength := congrArg List.length hrows
  rw [List.length_map, List.length_map] at hlength
  have hpositions : ((identifiers.map Prod.fst).map UInt32.toNat).Nodup :=
    hidentifiers.distinct.map fun _ _ => UInt32.toNat_inj.mp
  have hbelow : (identifiers.map Prod.fst).map UInt32.toNat ⊆ List.range data.idToKey.length := by
    intro position hposition
    obtain ⟨id, hid, rfl⟩ := List.mem_map.mp hposition
    obtain ⟨item, hitem, rfl⟩ := List.mem_map.mp hid
    have hrow := (hidentifiers.mem_iff item.1 item.2).mp hitem
    rw [IndexData.liveRow, Option.join_eq_some_iff, List.getElem?_eq_some_iff] at hrow
    rw [List.mem_range, ← h.slots]
    exact hrow.1
  have hle := (List.subperm_of_subset hpositions hbelow).length_le
  rw [List.length_map, List.length_map, List.length_range] at hle
  exact hlength ▸ hle.trans h.capacity

end Items

/-- Rows of equal width have as many memberships as rows times bands. -/
theorem memberships_fromSizes {bands : Nat} {items : List (UInt64 × List UInt64)}
    (hwidth : ∀ item ∈ items, item.2.length = bands) :
    (BucketDistribution.fromSizes (multiplicities (bandSlots items))).memberships =
      saturate (items.length * bands) := by
  rw [BucketDistribution.memberships_fromSizes (fun _ => pos_of_mem_multiplicities),
    sum_multiplicities, length_bandSlots hwidth]

theorem summarizes_bandSlots {bands : Nat} {items : List (UInt64 × List UInt64)} (hne : items ≠ [])
    (hbands : 0 < bands) (hwidth : ∀ item ∈ items, item.2.length = bands) :
    (BucketDistribution.fromSizes (multiplicities (bandSlots items))).Summarizes
      (multiplicities (bandSlots items)) := by
  refine BucketDistribution.fromSizes_summarizes (fun h => ?_) fun _ => pos_of_mem_multiplicities
  have hsum := @sum_multiplicities _ _ (bandSlots items)
  have hpos := Nat.mul_pos (List.length_pos_of_ne_nil hne) hbands
  rw [h, List.sum_nil, length_bandSlots hwidth] at hsum
  omega

/-- The statistics of a reachable index are those of its live items: its buckets are the distinct
slots, each as large as the number of items that take it, and every item is a member of one
bucket for each band. The order in which the tables list their buckets does not matter. -/
theorem Reachable.stats_exact {index : LshIndex scheme} {live : LiveItems scheme}
    (h : Reachable index live) {items : List (UInt64 × MinHash scheme)}
    (hitems : Enumerates items live) (order : VisitOrder UInt64 (List UInt32))
    (queries : Option QueryMetrics) :
    (index.stats order queries).items = items.length ∧
      (index.stats order queries).buckets.memberships.toNat =
        items.length * index.config.params.bands ∧
      (index.stats order queries).buckets =
        .fromSizes (multiplicities (bandSlots (index.config.rowsOf items))) ∧
      (items ≠ [] → (index.stats order queries).buckets.Summarizes
        (multiplicities (bandSlots (index.config.rowsOf items)))) := by
  have hholds : index.data.Holds index.config.params.bands (rowsOfLive index.config live) := h.holds
  have hrows : Enumerates (index.config.rowsOf items) (rowsOfLive index.config live) :=
    hitems.map fun sketch => computeBandHashes index.config.params sketch.signature
  have hlength : (index.config.rowsOf items).length = items.length := List.length_map _
  have hwidth : ∀ item ∈ index.config.rowsOf items, item.2.length = index.config.params.bands := by
    intro item hitem
    have hrow := (hrows.mem_iff item.1 item.2).mp hitem
    obtain ⟨id, _, hid⟩ := hholds.rows_eq_some_iff.mp hrow
    exact hholds.tables.width id item.2 hid
  have hbuckets : (index.stats order queries).buckets =
      .fromSizes (multiplicities (bandSlots (index.config.rowsOf items))) :=
    hholds.fromSizes_eq hrows order
  refine ⟨(hholds.size_keyToId hrows).trans hlength, ?_, hbuckets, fun hne => ?_⟩
  · have hle := hholds.length_le hrows
    obtain ⟨_, _, hword, _, hpositive, hused⟩ := index.config.bounds
    have hbands : index.config.params.bands ≤ index.config.params.bands * index.config.params.rows :=
      Nat.le_mul_of_pos_right _ hpositive
    have hproduct : items.length * index.config.params.bands ≤ (2 ^ 32 - 1) * (2 ^ 32 - 1) :=
      Nat.mul_le_mul (hlength ▸ hle) (by omega)
    rw [hbuckets, memberships_fromSizes hwidth, toNat_saturate, hlength]
    omega
  · rw [hbuckets]
    refine summarizes_bandSlots (fun hnil => hne ?_) index.config.bounds.2.2.2.1 hwidth
    exact List.map_eq_nil_iff.mp hnil

/-- Two equal sketches fill two buckets with two members each. -/
theorem stats_exact_two_items :
    ((LshIndex.insertMany ⟨sampleConfig, IndexData.new 2⟩
        [(7, sampleSketch), (8, sampleSketch)]).2.stats (.sorted _ _) none).buckets.memberships.toNat =
      2 * 2 := by
  have hrun := sampleReachable [(7, sampleSketch), (8, sampleSketch)] (by decide)
  have hitems : Enumerates [(7, sampleSketch), (8, sampleSketch)]
      (insertItems (fun _ => none) [(7, sampleSketch), (8, sampleSketch)]) := by
    refine ⟨by decide, fun key sketch => ?_⟩
    simp only [insertItems, List.foldl_cons, List.foldl_nil, List.mem_cons, Prod.mk.injEq,
      List.not_mem_nil, or_false, Function.update_apply]
    split
    · next heq => simp [heq, eq_comm]
    · split
      · next heq => simp [heq, eq_comm]
      · next hne hne' => simp [hne, hne']
  exact (hrun.stats_exact hitems (.sorted _ _) none).2.1

end Pari.Index
