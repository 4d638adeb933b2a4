/-
# Words in order and ascending lists

Machine words are linearly ordered by the comparisons the core library gives
them. An ascending duplicate-free list is determined by its elements, and so is
the result of sorting: nothing that is collected in an unspecified order and then
sorted depends on that order.
-/

import Mathlib.Data.List.Sort
import Mathlib.Data.UInt
import Mathlib.Order.Compare

namespace Data

instance instLinearOrderWord32 : LinearOrder UInt32 where
  le_refl := UInt32.le_refl
  le_trans := fun _ _ _ => UInt32.le_trans
  lt_iff_le_not_ge := fun a b => by
    rw [UInt32.lt_iff_toNat_lt, UInt32.le_iff_toNat_le, UInt32.le_iff_toNat_le]
    omega
  le_antisymm := fun _ _ => UInt32.le_antisymm
  le_total := UInt32.le_total
  toDecidableLE := inferInstance
  toDecidableEq := inferInstance
  toDecidableLT := inferInstance
  compare_eq_compareOfLessAndEq := fun _ _ => rfl

instance instLinearOrderWord64 : LinearOrder UInt64 where
  le_refl := UInt64.le_refl
  le_trans := fun _ _ _ => UInt64.le_trans
  lt_iff_le_not_ge := fun a b => by
    rw [UInt64.lt_iff_toNat_lt, UInt64.le_iff_toNat_le, UInt64.le_iff_toNat_le]
    omega
  le_antisymm := fun _ _ => UInt64.le_antisymm
  le_total := UInt64.le_total
  toDecidableLE := inferInstance
  toDecidableEq := inferInstance
  toDecidableLT := inferInstance
  compare_eq_compareOfLessAndEq := fun _ _ => rfl

universe u

variable {α : Type u} [LinearOrder α]

/-- Strictly increasing from the first element to the last. -/
def Ascending (list : List α) : Prop := list.Pairwise (· < ·)

namespace Ascending

theorem nodup {list : List α} (h : Ascending list) : list.Nodup :=
  List.Pairwise.imp (fun hlt => ne_of_lt hlt) h

/-- Two ascending lists with the same elements are equal. -/
theorem ext {left right : List α} (hleft : Ascending left) (hright : Ascending right)
    (h : ∀ a, a ∈ left ↔ a ∈ right) : left = right :=
  List.Pairwise.eq_of_mem_iff hleft hright h

theorem filter {list : List α} (h : Ascending list) (keep : α → Bool) :
    Ascending (list.filter keep) :=
  List.Pairwise.filter keep h

end Ascending

/-- `sort_unstable`: on a linear order every sorting procedure returns this list. -/
def sortUnstable (list : List α) : List α := list.insertionSort (· ≤ ·)

theorem sortUnstable_perm (list : List α) : (sortUnstable list).Perm list :=
  List.perm_insertionSort _ list

@[simp]
theorem mem_sortUnstable {list : List α} {a : α} : a ∈ sortUnstable list ↔ a ∈ list :=
  (sortUnstable_perm list).mem_iff

@[simp]
theorem length_sortUnstable (list : List α) : (sortUnstable list).length = list.length :=
  (sortUnstable_perm list).length_eq

theorem sortUnstable_pairwise (list : List α) : (sortUnstable list).Pairwise (· ≤ ·) :=
  List.pairwise_insertionSort _ list

/-- The only sorted rearrangement of a list is its sort. -/
theorem eq_sortUnstable {list sorted : List α} (hsorted : sorted.Pairwise (· ≤ ·))
    (hperm : sorted.Perm list) : sorted = sortUnstable list :=
  List.Perm.eq_of_pairwise (fun _ _ _ _ => le_antisymm) hsorted (sortUnstable_pairwise list)
    (hperm.trans (sortUnstable_perm list).symm)

/-- Sorting forgets the order in which the elements were collected. -/
theorem sortUnstable_eq_of_perm {left right : List α} (h : left.Perm right) :
    sortUnstable left = sortUnstable right :=
  eq_sortUnstable (sortUnstable_pairwise left) ((sortUnstable_perm left).trans h)

theorem sortUnstable_ascending {list : List α} (h : list.Nodup) :
    Ascending (sortUnstable list) := by
  have hnodup : (sortUnstable list).Nodup := (sortUnstable_perm list).nodup_iff.mpr h
  exact (sortUnstable_pairwise list).imp₂ (fun _ _ hle hne => lt_of_le_of_ne hle hne) hnodup

theorem sortUnstable_eq_self {list : List α} (h : list.Pairwise (· ≤ ·)) :
    sortUnstable list = list :=
  (eq_sortUnstable h (List.Perm.refl list)).symm

end Data
