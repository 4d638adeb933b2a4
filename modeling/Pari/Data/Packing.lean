/-
# Greedy packing

Items with a size are packed in order into groups with a fixed overhead: an item joins
the current group unless that would take a nonempty group past the target. Packing loses
and reorders nothing, no group is empty, a group is past the target only when it is a
single item, and the number of groups is bounded by the total size.
-/

import Mathlib.Algebra.BigOperators.Group.List.Basic
import Mathlib.Algebra.GroupWithZero.Nat

namespace Data

universe u

variable {α : Type u} (size : α → Nat) (overhead target : Nat)

/-- Pack the remaining items behind a current group with an estimated size. -/
def packFrom : List α → Nat → List α → List (List α)
  | current, _, [] => if current.isEmpty then [] else [current]
  | current, estimated, item :: items =>
      if current ≠ [] ∧ target < estimated + size item then
        current :: packFrom [item] (overhead + size item) items
      else packFrom (current ++ [item]) (estimated + size item) items

def pack (items : List α) : List (List α) := packFrom size overhead target [] overhead items

/-- The size of the items of a group. -/
def totalSize (items : List α) : Nat := (items.map size).sum

variable {size overhead target}

@[simp]
theorem totalSize_nil : totalSize size ([] : List α) = 0 := rfl

@[simp]
theorem totalSize_cons (item : α) (items : List α) :
    totalSize size (item :: items) = size item + totalSize size items := rfl

@[simp]
theorem totalSize_append (left right : List α) :
    totalSize size (left ++ right) = totalSize size left + totalSize size right := by
  rw [totalSize, List.map_append, List.sum_append, totalSize, totalSize]

theorem size_le_totalSize {item : α} {items : List α} (h : item ∈ items) :
    size item ≤ totalSize size items := by
  obtain ⟨before, after, rfl⟩ := List.append_of_mem h
  rw [totalSize_append, totalSize_cons]
  omega

/-- Packing is a partition of the items in order. -/
theorem flatten_packFrom (current : List α) (estimated : Nat) (items : List α) :
    (packFrom size overhead target current estimated items).flatten = current ++ items := by
  induction items generalizing current estimated with
  | nil =>
      rw [packFrom]
      cases current <;> simp
  | cons item items ih =>
      rw [packFrom]
      split
      · rw [List.flatten_cons, ih]
        rfl
      · rw [ih, List.append_assoc]
        rfl

@[simp]
theorem flatten_pack (items : List α) : (pack size overhead target items).flatten = items :=
  flatten_packFrom [] overhead items

/-- A group of a packing is nonempty, and past the target only when it is one item. -/
theorem mem_packFrom {current : List α} {estimated : Nat} {items group : List α}
    (hestimated : estimated = overhead + totalSize size current)
    (hcurrent : overhead + totalSize size current ≤ target ∨ current.length ≤ 1)
    (h : group ∈ packFrom size overhead target current estimated items) :
    group ≠ [] ∧ (overhead + totalSize size group ≤ target ∨ group.length = 1) := by
  have hlast : ∀ {group : List α}, group ≠ [] →
      overhead + totalSize size group ≤ target ∨ group.length ≤ 1 →
      overhead + totalSize size group ≤ target ∨ group.length = 1 := by
    intro group hne hsmall
    have hpos := List.length_pos_of_ne_nil hne
    omega
  induction items generalizing current estimated with
  | nil =>
      rw [packFrom] at h
      cases current with
      | nil => simp at h
      | cons first rest =>
          obtain rfl : group = first :: rest := by simpa using h
          exact ⟨by simp, hlast (by simp) hcurrent⟩
  | cons item items ih =>
      rw [packFrom] at h
      split at h
      · next hfull =>
          rcases List.mem_cons.mp h with rfl | hrest
          · exact ⟨hfull.1, hlast hfull.1 hcurrent⟩
          · exact ih (by simp) (Or.inr (by simp)) hrest
      · next hroom =>
          refine ih (by simp [hestimated, Nat.add_assoc]) ?_ h
          rw [not_and_or, not_not] at hroom
          rcases hroom with rfl | hfits
          · exact Or.inr (by simp)
          · refine Or.inl ?_
            rw [totalSize_append, totalSize_cons, totalSize_nil]
            omega

theorem mem_pack {items group : List α} (h : group ∈ pack size overhead target items) :
    group ≠ [] ∧ (overhead + totalSize size group ≤ target ∨ group.length = 1) :=
  mem_packFrom (by simp) (Or.inr (by simp)) h

/-- Two consecutive groups exceed the target together, so there are few groups. -/
theorem length_packFrom_le {current : List α} {estimated : Nat} {items : List α}
    (hestimated : estimated = overhead + totalSize size current) (htarget : overhead ≤ target) :
    ((packFrom size overhead target current estimated items).length - 1) * (target - overhead) ≤
      totalSize size current + 2 * totalSize size items := by
  induction items generalizing current estimated with
  | nil =>
      rw [packFrom]
      cases current <;> simp
  | cons item items ih =>
      rw [packFrom, totalSize_cons]
      split
      · next hfull =>
          have hrest := @ih [item] (overhead + size item) (by simp)
          rw [totalSize_cons, totalSize_nil] at hrest
          rw [List.length_cons, Nat.add_sub_cancel]
          generalize (packFrom size overhead target [item] (overhead + size item) items).length =
            count at hrest ⊢
          have hone : count * (target - overhead) ≤
              (count - 1) * (target - overhead) + (target - overhead) := by
            cases count with
            | zero => simp
            | succ count => exact Nat.le_of_eq (Nat.succ_mul _ _)
          omega
      · have hrest := @ih (current ++ [item]) (estimated + size item)
          (by simp [hestimated, Nat.add_assoc])
        rw [totalSize_append, totalSize_cons, totalSize_nil] at hrest
        omega

@[simp]
theorem pack_nil : pack size overhead target ([] : List α) = [] := rfl

theorem length_pack_le {items : List α} (htarget : overhead ≤ target) :
    ((pack size overhead target items).length - 1) * (target - overhead) ≤
      2 * totalSize size items := by
  have h := @length_packFrom_le _ size overhead target [] overhead items (by simp) htarget
  rwa [totalSize_nil, Nat.zero_add] at h

theorem pack_ne_nil {items : List α} (h : items ≠ []) : pack size overhead target items ≠ [] := by
  intro hnil
  have hflatten := @flatten_pack _ size overhead target items
  rw [hnil, List.flatten_nil] at hflatten
  exact h hflatten.symm

/-- Nonempty groups are no more than their items. -/
theorem length_le_length_flatten {groups : List (List α)} (h : ∀ group ∈ groups, group ≠ []) :
    groups.length ≤ groups.flatten.length := by
  induction groups with
  | nil => exact Nat.le_refl _
  | cons group groups ih =>
      rw [List.forall_mem_cons] at h
      have hpos := List.length_pos_of_ne_nil h.1
      have hrest := ih h.2
      rw [List.length_cons, List.flatten_cons, List.length_append]
      omega

theorem length_pack_le_length (items : List α) :
    (pack size overhead target items).length ≤ items.length := by
  have hgroups := @length_le_length_flatten _ (pack size overhead target items)
    fun group hgroup => (mem_pack hgroup).1
  rwa [flatten_pack] at hgroups

end Data
