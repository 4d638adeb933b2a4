/-
# Maps and sets

Ordered and hashed collections are modelled by one extensional map and one
extensional set, whose entries can be listed in key order. A hash table lists its
entries in no particular order: a `VisitOrder` is any way of listing the entries of
every table, and what is proved for all visit orders holds whatever a hasher does.
-/

import Mathlib.Data.List.Perm.Basic
import Mathlib.Order.Compare
import Pari.Data.Ascending
import Std.Data.ExtTreeMap
import Std.Data.ExtTreeSet

namespace Data

universe u v

/-- The comparison of a linear order is transitive. -/
instance (priority := high) instTransCmpCompare {κ : Type u} [LinearOrder κ] :
    Std.TransCmp (compare : κ → κ → Ordering) := inferInstance

/-- A map from keys to values, with its entries in key order. -/
abbrev OrderedMap (κ : Type u) (β : Type v) [Ord κ] : Type (max u v) := Std.ExtTreeMap κ β compare

/-- A set, with its elements in order. -/
abbrev OrderedSet (α : Type u) [Ord α] : Type u := Std.ExtTreeSet α compare

section Maps

variable {κ : Type u} {β : Type v} [LinearOrder κ] {map : OrderedMap κ β} {key other : κ}

theorem getElem?_insert {value : β} :
    (map.insert key value)[other]? = if key = other then some value else map[other]? := by
  simp [Std.ExtTreeMap.getElem?_insert]

theorem getElem?_erase :
    (map.erase key)[other]? = if key = other then none else map[other]? := by
  simp [Std.ExtTreeMap.getElem?_erase]

theorem getElem?_alter {change : Option β → Option β} :
    (map.alter key change)[other]? = if key = other then change map[key]? else map[other]? := by
  simp [Std.ExtTreeMap.getElem?_alter]

theorem mem_toList_iff {value : β} : (key, value) ∈ map.toList ↔ map[key]? = some value :=
  Std.ExtTreeMap.mem_toList_iff_getElem?_eq_some

/-- The keys of a map, in order. -/
theorem ascending_keys : Ascending (map.toList.map Prod.fst) := by
  rw [Ascending, List.pairwise_map]
  exact Std.ExtTreeMap.ordered_keys_toList.imp fun h => compare_lt_iff_lt.mp h

theorem mem_keys_iff : key ∈ map.toList.map Prod.fst ↔ ∃ value, map[key]? = some value := by
  constructor
  · intro h
    obtain ⟨⟨_, value⟩, hmem, rfl⟩ := List.mem_map.mp h
    exact ⟨value, mem_toList_iff.mp hmem⟩
  · rintro ⟨value, hvalue⟩
    exact List.mem_map.mpr ⟨(key, value), mem_toList_iff.mpr hvalue, rfl⟩

theorem toList_nodup : map.toList.Nodup := ascending_keys.nodup.of_map

theorem mem_keys_iff_contains : key ∈ map.toList.map Prod.fst ↔ map.contains key = true := by
  rw [mem_keys_iff, Std.ExtTreeMap.contains_eq_isSome_getElem?, Option.isSome_iff_exists]

/-- A map with some new distinct keys more than another is larger by their number. -/
theorem size_eq_add_length {larger : OrderedMap κ β} {added : List κ} (hdistinct : added.Nodup)
    (hfresh : ∀ key ∈ added, map.contains key = false)
    (hkeys : ∀ key, larger.contains key = true ↔ map.contains key = true ∨ key ∈ added) :
    larger.size = map.size + added.length := by
  have hdisjoint : (map.toList.map Prod.fst).Disjoint added := by
    intro key hmem hadded
    rw [mem_keys_iff_contains, hfresh key hadded] at hmem
    cases hmem
  have hperm : (larger.toList.map Prod.fst).Perm (map.toList.map Prod.fst ++ added) := by
    apply (List.perm_ext_iff_of_nodup ascending_keys.nodup
      (ascending_keys.nodup.append hdistinct hdisjoint)).mpr
    intro key
    rw [List.mem_append, mem_keys_iff_contains, mem_keys_iff_contains, hkeys]
  have hlength := hperm.length_eq
  rw [List.length_append, List.length_map, List.length_map, Std.ExtTreeMap.length_toList,
    Std.ExtTreeMap.length_toList] at hlength
  exact hlength

end Maps

section Sets

variable {α : Type u} [LinearOrder α] {set : OrderedSet α} {a b : α}

@[simp]
theorem mem_insertMany {list : List α} : a ∈ set.insertMany list ↔ a ∈ set ∨ a ∈ list := by
  simp [Std.ExtTreeSet.mem_insertMany_list]

theorem contains_eq_false_iff : set.contains a = false ↔ a ∉ set := by
  rw [← Bool.not_eq_true, Std.ExtTreeSet.contains_iff_mem]

theorem mem_insert_iff : a ∈ set.insert b ↔ a = b ∨ a ∈ set := by
  rw [Std.ExtTreeSet.mem_insert, compare_eq_iff_eq, eq_comm]

theorem mem_erase_iff : a ∈ set.erase b ↔ a ≠ b ∧ a ∈ set := by
  rw [Std.ExtTreeSet.mem_erase, Ne, compare_eq_iff_eq, ne_comm]

theorem mem_set_toList_iff : a ∈ set.toList ↔ a ∈ set := Std.ExtTreeSet.mem_toList

theorem ascending_toList : Ascending set.toList :=
  Std.ExtTreeSet.ordered_toList.imp fun h => compare_lt_iff_lt.mp h

end Sets

/-! ## Tables without an order -/

/-- A way of listing the entries of hash tables. Two tables may list equal entries in
different orders, so the listing depends on which table it is. -/
structure VisitOrder (κ : Type u) (β : Type v) [LinearOrder κ] where
  entries : Nat → OrderedMap κ β → List (κ × β)
  perm : ∀ table map, (entries table map).Perm map.toList

namespace VisitOrder

variable {κ : Type u} {β : Type v} [LinearOrder κ] (order : VisitOrder κ β)

/-- The order of the keys is one of them. -/
def sorted (κ : Type u) (β : Type v) [LinearOrder κ] : VisitOrder κ β where
  entries _ map := map.toList
  perm _ _ := List.Perm.refl _

theorem mem_entries_iff {table : Nat} {map : OrderedMap κ β} {key : κ} {value : β} :
    (key, value) ∈ order.entries table map ↔ map[key]? = some value := by
  rw [(order.perm table map).mem_iff, mem_toList_iff]

end VisitOrder

end Data
