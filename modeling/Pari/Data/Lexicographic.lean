/-
# Lexicographic ranges

Lists of one length with a common prefix are a range in the lexicographic order: from the
prefix filled up with the least element to the prefix filled up with the greatest.
-/

import Mathlib.Data.List.Lex
import Mathlib.Order.Lattice

namespace Data

universe u

variable {α : Type u} [LinearOrder α]

theorem cons_le_cons {x y : α} {left right : List α} :
    x :: left ≤ y :: right ↔ x < y ∨ x = y ∧ left ≤ right := by
  rw [le_iff_lt_or_eq, le_iff_lt_or_eq, List.cons_lt_cons_iff, List.cons.injEq, or_assoc,
    ← and_or_left]

/-- Beyond prefixes of one length the rest decides. -/
theorem append_le_append_iff {first second left right : List α}
    (h : first.length = second.length) :
    first ++ left ≤ second ++ right ↔ first < second ∨ first = second ∧ left ≤ right := by
  induction first generalizing second with
  | nil =>
      cases second with
      | nil => simp
      | cons => simp at h
  | cons x first ih =>
      cases second with
      | nil => simp at h
      | cons y second =>
          simp only [List.cons_append, cons_le_cons, List.cons_lt_cons_iff,
            ih (Nat.succ.inj h), List.cons.injEq, and_or_left, or_assoc, and_assoc]

theorem le_of_forall₂ {left right : List α} (h : List.Forall₂ (· ≤ ·) left right) :
    left ≤ right := by
  induction h with
  | nil => exact le_refl _
  | cons hle _ ih => exact cons_le_cons.mpr ((lt_or_eq_of_le hle).imp_right fun heq => ⟨heq, ih⟩)

theorem replicate_le {least : α} (h : ∀ a, least ≤ a) (list : List α) :
    List.replicate list.length least ≤ list := by
  refine le_of_forall₂ ?_
  induction list with
  | nil => exact .nil
  | cons a list ih => exact .cons (h a) ih

theorem le_replicate {greatest : α} (h : ∀ a, a ≤ greatest) (list : List α) :
    list ≤ List.replicate list.length greatest := by
  refine le_of_forall₂ ?_
  induction list with
  | nil => exact .nil
  | cons a list ih => exact .cons (h a) ih

/-- The range of a prefix. -/
theorem range_iff_prefixed {least greatest : α} (hleast : ∀ a, least ≤ a)
    (hgreatest : ∀ a, a ≤ greatest) {first second rest : List α}
    (h : first.length = second.length) :
    first ++ List.replicate rest.length least ≤ second ++ rest ∧
        second ++ rest ≤ first ++ List.replicate rest.length greatest ↔
      second = first := by
  rw [append_le_append_iff h, append_le_append_iff h.symm]
  constructor
  · rintro ⟨hlower | ⟨rfl, _⟩, hupper⟩
    · rcases hupper with hupper | ⟨rfl, _⟩
      · exact absurd hlower (lt_asymm hupper)
      · rfl
    · rfl
  · rintro rfl
    exact ⟨Or.inr ⟨rfl, replicate_le hleast rest⟩, Or.inr ⟨rfl, le_replicate hgreatest rest⟩⟩

end Data
