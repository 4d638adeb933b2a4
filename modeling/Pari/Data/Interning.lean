/-
# Interning

Values that may repeat are requested once each: an interner hands out the position of a
value in the list of distinct values seen so far. Positions stay valid as the list grows, so
an answer given for each distinct value in order answers every request by its position.
-/

import Pari.Data.Collections

namespace Data

universe u

/-- What a position names does not change as the list grows. -/
theorem getElem?_of_prefixed {α : Type u} {before after : List α} (h : before <+: after) {position : Nat}
    {value : α} (hposition : before[position]? = some value) : after[position]? = some value := by
  obtain ⟨rest, rfl⟩ := h
  have hlt : position < before.length := (List.getElem?_eq_some_iff.mp hposition).1
  rwa [List.getElem?_append_left hlt]

variable {α : Type u} [LinearOrder α]

/-- The distinct values seen so far, each with its position. -/
structure Interner (α : Type u) [LinearOrder α] where
  positions : OrderedMap α Nat
  values : List α
  indexed : ∀ (value : α) (position : Nat),
    positions[value]? = some position ↔ values[position]? = some value

namespace Interner

def empty : Interner α where
  positions := ∅
  values := []
  indexed := by simp

/-- Values not interned yet are not listed. -/
theorem notMem_of_none {interner : Interner α} {value : α}
    (h : interner.positions[value]? = none) : value ∉ interner.values := by
  intro hmem
  obtain ⟨position, hposition⟩ := List.mem_iff_getElem?.mp hmem
  rw [← interner.indexed, h] at hposition
  cases hposition

/-- The position of a value, which is new at the end of the list if it was not seen before. -/
def intern (interner : Interner α) (value : α) : Nat × Interner α :=
  match h : interner.positions[value]? with
  | some position => (position, interner)
  | none => (interner.values.length, {
      positions := interner.positions.insert value interner.values.length
      values := interner.values ++ [value]
      indexed := by
        intro other position
        rw [getElem?_insert]
        by_cases heq : value = other
        · subst heq
          rw [if_pos rfl, Option.some.injEq]
          constructor
          · rintro rfl
            exact List.getElem?_concat_length
          · intro hposition
            have hlt : position < (interner.values ++ [value]).length :=
              (List.getElem?_eq_some_iff.mp hposition).1
            rw [List.length_append, List.length_singleton] at hlt
            by_contra hne
            rw [List.getElem?_append_left (by omega)] at hposition
            exact notMem_of_none h (List.mem_of_getElem? hposition)
        · rw [if_neg heq, interner.indexed]
          rcases Nat.lt_or_ge position interner.values.length with hlt | hge
          · rw [List.getElem?_append_left hlt]
          · rw [List.getElem?_eq_none hge, List.getElem?_append_right hge]
            cases hoffset : position - interner.values.length with
            | zero => simpa using heq
            | succ offset => simp })

/-- Intern a list of values, in order. -/
def internAll (interner : Interner α) : List α → List Nat × Interner α
  | [] => ([], interner)
  | value :: values =>
      let (position, interner) := interner.intern value
      let (positions, interner) := interner.internAll values
      (position :: positions, interner)

variable {interner : Interner α}

theorem values_intern (value : α) : interner.values <+: (interner.intern value).2.values := by
  rw [intern]
  split
  · exact List.prefix_refl _
  · exact List.prefix_append _ _

theorem getElem?_intern (value : α) :
    (interner.intern value).2.values[(interner.intern value).1]? = some value := by
  rw [intern]
  split
  · next position hposition => exact (interner.indexed _ _).mp hposition
  · exact List.getElem?_concat_length

theorem values_internAll (values : List α) :
    interner.values <+: (interner.internAll values).2.values := by
  induction values generalizing interner with
  | nil => exact List.prefix_refl _
  | cons value values ih => exact (values_intern value).trans ih

/-- The positions handed out name the values, in order. -/
theorem forall₂_internAll (values : List α) :
    List.Forall₂ (fun position value =>
      (interner.internAll values).2.values[position]? = some value)
      (interner.internAll values).1 values := by
  induction values generalizing interner with
  | nil => exact .nil
  | cons value values ih =>
      exact .cons (getElem?_of_prefixed (values_internAll values) (getElem?_intern value)) ih

end Interner

end Data
