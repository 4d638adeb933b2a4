/-
# Counters and percentiles

A counter of sixty-four bits that stops at its maximum holds the number it counted, or the
maximum. The percentile of a list by the nearest rank is the least value such that the given
share of the list is no larger; it does not depend on the order of the list. The
multiplicities of a list are how often each of its elements occurs.
-/

import Mathlib.Algebra.BigOperators.Group.List.Basic
import Mathlib.Algebra.BigOperators.Group.List.Lemmas
import Pari.Data.Ascending
import Pari.Data.Result

namespace Data

universe u

/-! ## Saturation -/

/-- `u64::try_from(count).unwrap_or(u64::MAX)` -/
def saturate (count : Nat) : UInt64 := (tryU64 count).getD 0xFFFFFFFFFFFFFFFF

/-- `u64::saturating_add` -/
def saturatingAdd (left right : UInt64) : UInt64 := saturate (left.toNat + right.toNat)

theorem toNat_saturate (count : Nat) : (saturate count).toNat = min count (2 ^ 64 - 1) := by
  rw [saturate, tryU64]
  split
  · next hlt =>
      rw [Option.getD_some, UInt64.toNat_ofNat_of_lt' hlt]
      omega
  · next hge =>
      rw [Option.getD_none]
      have hmax : (0xFFFFFFFFFFFFFFFF : UInt64).toNat = 2 ^ 64 - 1 := by decide
      omega

theorem saturate_toNat (count : UInt64) : saturate count.toNat = count := by
  have hlt := count.toNat_lt
  refine UInt64.toNat_inj.mp ?_
  rw [toNat_saturate]
  omega

theorem saturate_mono {left right : Nat} (h : left ≤ right) : saturate left ≤ saturate right := by
  rw [UInt64.le_iff_toNat_le, toNat_saturate, toNat_saturate]
  omega

theorem saturate_max (left right : Nat) :
    max (saturate left) (saturate right) = saturate (max left right) := by
  rcases Nat.le_total left right with hle | hle
  · rw [max_eq_right hle, max_eq_right (saturate_mono hle)]
  · rw [max_eq_left hle, max_eq_left (saturate_mono hle)]

/-- Counting further is counting the sum. -/
theorem saturatingAdd_saturate (left right : Nat) :
    saturatingAdd (saturate left) (saturate right) = saturate (left + right) := by
  refine UInt64.toNat_inj.mp ?_
  rw [saturatingAdd, toNat_saturate, toNat_saturate, toNat_saturate, toNat_saturate]
  omega

theorem saturatingAdd_right_comm (start left right : UInt64) :
    saturatingAdd (saturatingAdd start left) right =
      saturatingAdd (saturatingAdd start right) left := by
  refine UInt64.toNat_inj.mp ?_
  simp only [saturatingAdd, toNat_saturate]
  omega

theorem foldl_saturatingAdd (start : Nat) (counts : List Nat) :
    (counts.map saturate).foldl saturatingAdd (saturate start) = saturate (start + counts.sum) := by
  induction counts generalizing start with
  | nil => rfl
  | cons count counts ih =>
      rw [List.map_cons, List.foldl_cons, saturatingAdd_saturate, ih, List.sum_cons, Nat.add_assoc]

theorem foldl_saturatingAdd_lengths {α : Type*} (lists : List (List α)) :
    lists.foldl (fun count list => saturatingAdd count (saturate list.length)) 0 =
      saturate (lists.map List.length).sum := by
  have hfold := foldl_saturatingAdd 0 (lists.map List.length)
  rw [Nat.zero_add, List.map_map, List.foldl_map] at hfold
  exact hfold

theorem sum_lengths_le {α : Type*} {lists : List (List α)} {count : Nat}
    (h : ∀ list ∈ lists, list.length ≤ count) : (lists.map List.length).sum ≤ count * lists.length := by
  induction lists with
  | nil => exact Nat.zero_le _
  | cons list lists ih =>
      rw [List.forall_mem_cons] at h
      rw [List.map_cons, List.sum_cons, List.length_cons, Nat.mul_succ, Nat.add_comm]
      exact Nat.add_le_add (ih h.2) h.1

/-! ## Percentiles -/

/-- `div_ceil` -/
def divCeil (dividend divisor : Nat) : Nat := (dividend + (divisor - 1)) / divisor

/-- The rank of a percentile, with the product split so that it stays small. -/
def percentileRank (count percentile : Nat) : Nat :=
  (count / 100) * percentile + divCeil ((count % 100) * percentile) 100

/-- Splitting the product changes nothing. -/
theorem percentileRank_eq (count percentile : Nat) :
    percentileRank count percentile = divCeil (count * percentile) 100 := by
  have hsplit : count * percentile =
      100 * (count / 100 * percentile) + count % 100 * percentile := by
    conv_lhs => rw [← Nat.div_add_mod count 100]
    rw [Nat.add_mul, Nat.mul_assoc]
  rw [percentileRank, divCeil, divCeil, hsplit]
  omega

/-- The rank is the least whose share of the list reaches the percentile. -/
theorem percentileRank_bounds {count percentile : Nat} (hcount : 0 < count)
    (hpositive : 0 < percentile) (hpercentile : percentile ≤ 100) :
    0 < percentileRank count percentile ∧ percentileRank count percentile ≤ count ∧
      percentile * count ≤ 100 * percentileRank count percentile ∧
      100 * (percentileRank count percentile - 1) < percentile * count := by
  have hle : count * percentile ≤ count * 100 := Nat.mul_le_mul_left count hpercentile
  have hpos : 0 < count * percentile := Nat.mul_pos hcount hpositive
  rw [percentileRank_eq, divCeil, Nat.mul_comm percentile count]
  omega

section Percentiles

variable {α : Type u} [LinearOrder α]

/-- The percentile of a list by the nearest rank. -/
structure IsPercentile (values : List α) (percentile : Nat) (value : α) : Prop where
  mem : value ∈ values
  reaches : percentile * values.length ≤ 100 * (values.filter (· ≤ value)).length
  least : 100 * (values.filter (· < value)).length < percentile * values.length

theorem IsPercentile.perm {values others : List α} {percentile : Nat} {value : α}
    (h : IsPercentile values percentile value) (hperm : values.Perm others) :
    IsPercentile others percentile value where
  mem := hperm.mem_iff.mp h.mem
  reaches := by
    rw [← hperm.length_eq, ← (hperm.filter _).length_eq]
    exact h.reaches
  least := by
    rw [← hperm.length_eq, ← (hperm.filter _).length_eq]
    exact h.least

/-- A larger percentile is a larger value. -/
theorem IsPercentile.le {values : List α} {lower upper : Nat} {value other : α}
    (h : IsPercentile values lower value) (h' : IsPercentile values upper other)
    (hle : lower ≤ upper) : value ≤ other := by
  by_contra hlt
  have hsub : (values.filter (· ≤ other)).Sublist (values.filter (· < value)) := by
    refine List.monotone_filter_right values fun candidate hcandidate => ?_
    simp only [decide_eq_true_eq] at hcandidate ⊢
    exact lt_of_le_of_lt hcandidate (not_le.mp hlt)
  have hcount := hsub.length_le
  have hreaches := h'.reaches
  have hleast := h.least
  have hproduct := Nat.mul_le_mul_right values.length hle
  omega

theorem IsPercentile.unique {values : List α} {percentile : Nat} {value other : α}
    (h : IsPercentile values percentile value) (h' : IsPercentile values percentile other) :
    value = other :=
  le_antisymm (h.le h' le_rfl) (h'.le h le_rfl)

/-- The value at the rank of a percentile in a sorted list. -/
def nearestRank (sorted : List UInt64) (percentile : Nat) : UInt64 :=
  sorted[percentileRank sorted.length percentile - 1]?.getD 0

/-- In a sorted list the value at a position has those before it below, and no others. -/
theorem length_filter_of_sorted {sorted : List α} (hsorted : sorted.Pairwise (· ≤ ·))
    {position : Nat} {value : α} (hvalue : sorted[position]? = some value) :
    position < (sorted.filter (· ≤ value)).length ∧
      (sorted.filter (· < value)).length ≤ position := by
  obtain ⟨hlt, hat⟩ := List.getElem?_eq_some_iff.mp hvalue
  rw [List.pairwise_iff_getElem] at hsorted
  have hsplit := List.take_append_drop position sorted
  constructor
  · have hbelow : (sorted.take (position + 1)).filter (· ≤ value) = sorted.take (position + 1) := by
      rw [List.filter_eq_self]
      intro other hother
      obtain ⟨index, hindex, rfl⟩ := List.getElem_of_mem hother
      rw [List.length_take] at hindex
      rw [List.getElem_take, decide_eq_true_eq, ← hat]
      rcases Nat.lt_or_ge index position with hless | hge
      · exact hsorted index position (by omega) hlt hless
      · obtain rfl : index = position := by omega
        exact le_rfl
    have hcount := ((List.take_sublist (position + 1) sorted).filter (· ≤ value)).length_le
    rw [hbelow, List.length_take] at hcount
    omega
  · have hnone : (sorted.drop position).filter (· < value) = [] := by
      rw [List.filter_eq_nil_iff]
      intro other hother
      obtain ⟨index, hindex, rfl⟩ := List.getElem_of_mem hother
      rw [List.length_drop] at hindex
      rw [List.getElem_drop, decide_eq_true_eq, not_lt, ← hat]
      rcases Nat.eq_zero_or_pos index with rfl | hpos
      · exact le_rfl
      · exact hsorted position (position + index) hlt (by omega) (by omega)
    rw [← hsplit, List.filter_append, List.length_append, hnone, List.length_nil, Nat.add_zero]
    exact (List.length_filter_le _ _).trans (List.length_take_le _ _)

end Percentiles

/-- The nearest rank in the sorted list is the percentile of the list. -/
theorem isPercentile_nearestRank {values : List UInt64} (hvalues : values ≠ []) {percentile : Nat}
    (hpositive : 0 < percentile) (hpercentile : percentile ≤ 100) :
    IsPercentile values percentile (nearestRank (sortUnstable values) percentile) := by
  obtain ⟨hrank, hbound, hreaches, hleast⟩ :=
    percentileRank_bounds (List.length_pos_of_ne_nil hvalues) hpositive hpercentile
  have hlength := @length_sortUnstable _ _ values
  obtain ⟨value, hvalue⟩ : ∃ value,
      (sortUnstable values)[percentileRank values.length percentile - 1]? = some value :=
    ⟨_, List.getElem?_eq_getElem (by omega)⟩
  have hfound : nearestRank (sortUnstable values) percentile = value := by
    rw [nearestRank, hlength, hvalue, Option.getD_some]
  obtain ⟨habove, hbelow⟩ := length_filter_of_sorted (sortUnstable_pairwise values) hvalue
  rw [hfound]
  refine IsPercentile.perm ⟨List.mem_of_getElem? hvalue, ?_, ?_⟩ (sortUnstable_perm values)
  · rw [hlength]
    omega
  · rw [hlength]
    omega

/-! ## Multiplicities -/

section Multiplicities

variable {α : Type u} [DecidableEq α] {list : List α}

def occurrences (list : List α) (value : α) : Nat := list.count value

theorem occurrences_pos_iff {value : α} : 0 < occurrences list value ↔ value ∈ list :=
  List.count_pos_iff

theorem occurrences_append (more : List α) (value : α) :
    occurrences (list ++ more) value = occurrences list value + occurrences more value :=
  List.count_append

theorem occurrences_of_nodup (hdistinct : list.Nodup) (value : α) :
    occurrences list value = if value ∈ list then 1 else 0 := by
  split
  · next hmem => exact List.count_eq_one_of_mem hdistinct hmem
  · next hmem => exact List.count_eq_zero_of_not_mem hmem

/-- How often each element of a list occurs. -/
def multiplicities (list : List α) : List Nat := list.dedup.map (occurrences list)

theorem length_multiplicities : (multiplicities list).length = list.dedup.length :=
  List.length_map _

theorem sum_multiplicities : (multiplicities list).sum = list.length :=
  List.sum_map_count_dedup_eq_length list

theorem pos_of_mem_multiplicities {size : Nat} (h : size ∈ multiplicities list) : 0 < size := by
  obtain ⟨value, hvalue, rfl⟩ := List.mem_map.mp h
  exact occurrences_pos_iff.mpr (List.mem_dedup.mp hvalue)

/-- The sizes of labelled classes are multiplicities when each class has the size of its label
and every label that occurs has a class. -/
theorem perm_multiplicities {classes : List (α × Nat)} (hdistinct : (classes.map Prod.fst).Nodup)
    (hsizes : ∀ label size, (label, size) ∈ classes ↔ 0 < size ∧ size = occurrences list label) :
    (classes.map Prod.snd).Perm (multiplicities list) := by
  have hclasses : classes.Perm (list.dedup.map fun label => (label, occurrences list label)) := by
    refine (List.perm_ext_iff_of_nodup hdistinct.of_map
      ((List.nodup_dedup list).map fun _ _ h => congrArg Prod.fst h)).mpr fun pair => ?_
    rw [hsizes pair.1 pair.2, List.mem_map]
    constructor
    · intro h
      refine ⟨pair.1, List.mem_dedup.mpr (occurrences_pos_iff.mp (h.2 ▸ h.1)), ?_⟩
      exact Prod.ext rfl h.2.symm
    · intro h
      obtain ⟨label, hlabel, rfl⟩ := h
      exact ⟨occurrences_pos_iff.mpr (List.mem_dedup.mp hlabel), rfl⟩
  refine (hclasses.map Prod.snd).trans ?_
  rw [List.map_map]
  exact List.Perm.refl _

/-- Renaming the elements keeps the multiplicities. -/
theorem multiplicities_map {β : Type u} {_ : DecidableEq β} {rename : α → β}
    (hinjective : ∀ a ∈ list, ∀ b ∈ list, rename a = rename b → a = b) :
    (multiplicities (list.map rename)).Perm (multiplicities list) := by
  have hcount : ∀ value ∈ list,
      occurrences (list.map rename) (rename value) = occurrences list value := by
    intro value hvalue
    rw [occurrences, occurrences, List.count, List.countP_map, List.count]
    refine List.countP_congr fun other hother => ?_
    simp only [Function.comp_apply, beq_iff_eq]
    exact ⟨fun h => hinjective other hother value hvalue h, congrArg rename⟩
  have hclasses := @perm_multiplicities β _ (list.map rename)
    (list.dedup.map fun value => (rename value, occurrences list value)) (by
      rw [List.map_map]
      exact (List.nodup_dedup list).map_on fun a ha b hb h =>
        hinjective a (List.mem_dedup.mp ha) b (List.mem_dedup.mp hb) h) (by
      intro label size
      rw [List.mem_map]
      constructor
      · intro h
        obtain ⟨value, hvalue, hpair⟩ := h
        obtain ⟨rfl, rfl⟩ := Prod.mk.inj hpair
        have hmem := List.mem_dedup.mp hvalue
        exact ⟨occurrences_pos_iff.mpr hmem, (hcount value hmem).symm⟩
      · intro h
        obtain ⟨value, hvalue, rfl⟩ := List.mem_map.mp (occurrences_pos_iff.mp (h.2 ▸ h.1))
        exact ⟨value, List.mem_dedup.mpr hvalue, Prod.ext rfl (h.2.trans (hcount value hvalue)).symm⟩)
  rw [List.map_map] at hclasses
  exact hclasses.symm

end Multiplicities

end Data
