/-
# Forests of parent pointers

A function on the nodes below a bound is a forest when some height rises along every
pointer that is not a self loop. Following pointers then reaches a root in fewer steps
than there are nodes. Pointing a node at its own root changes no root; pointing one
root at another merges exactly their two trees.
-/

import Mathlib.Data.Fintype.Card
import Mathlib.Logic.Function.Iterate

namespace Data

/-- Parent pointers on the nodes below `n` without a cycle other than self loops. -/
structure Forest (n : Nat) (parent : Nat → Nat) : Prop where
  bounded : ∀ i, i < n → parent i < n
  rises : ∃ height : Nat → Nat, ∀ i, i < n → parent i ≠ i → height i < height (parent i)

/-- The node reached after `n` pointers. -/
def rootOf (n : Nat) (parent : Nat → Nat) (i : Nat) : Nat := parent^[n] i

namespace Forest

variable {n : Nat} {parent : Nat → Nat} {i : Nat}

theorem iterate_lt (h : Forest n parent) (hi : i < n) (k : Nat) : parent^[k] i < n := by
  induction k with
  | zero => exact hi
  | succ k ih =>
      rw [Function.iterate_succ_apply']
      exact h.bounded _ ih

/-- A node that points at itself is reached and kept. -/
theorem iterate_of_fixed (hfixed : parent i = i) (k : Nat) : parent^[k] i = i :=
  Function.iterate_fixed hfixed k

/-- Following pointers from any node reaches a root in fewer steps than there are nodes. -/
theorem exists_fixed (h : Forest n parent) (hi : i < n) :
    ∃ k, k < n ∧ parent (parent^[k] i) = parent^[k] i := by
  by_contra hnone
  push Not at hnone
  obtain ⟨height, hheight⟩ := h.rises
  -- Without a root among the first `n` nodes their heights strictly rise, so with the
  -- starting node they would be more distinct nodes than there are.
  have hmono : StrictMono fun k : Fin (n + 1) => height (parent^[k] i) := by
    refine Fin.strictMono_iff_lt_succ.mpr fun k => ?_
    rw [Fin.val_castSucc, Fin.val_succ, Function.iterate_succ_apply']
    exact hheight _ (h.iterate_lt hi k) (hnone k k.isLt)
  have hinjective : Function.Injective fun k : Fin (n + 1) =>
      (⟨parent^[k] i, h.iterate_lt hi k⟩ : Fin n) := by
    intro left right heq
    exact hmono.injective (congrArg height (congrArg Fin.val heq))
  have hcard := Fintype.card_le_of_injective _ hinjective
  rw [Fintype.card_fin, Fintype.card_fin] at hcard
  omega

/-- A root reached within the bound is the root. -/
theorem rootOf_eq_of_fixed {k : Nat} (hk : k ≤ n) (hfixed : parent (parent^[k] i) = parent^[k] i) :
    rootOf n parent i = parent^[k] i := by
  rw [rootOf, ← Nat.sub_add_cancel hk, Function.iterate_add_apply, iterate_of_fixed hfixed]

theorem parent_rootOf (h : Forest n parent) (hi : i < n) :
    parent (rootOf n parent i) = rootOf n parent i := by
  obtain ⟨k, hk, hfixed⟩ := h.exists_fixed hi
  rw [rootOf_eq_of_fixed hk.le hfixed, hfixed]

theorem rootOf_lt (h : Forest n parent) (hi : i < n) : rootOf n parent i < n :=
  h.iterate_lt hi n

theorem rootOf_of_fixed (hfixed : parent i = i) : rootOf n parent i = i :=
  iterate_of_fixed hfixed n

theorem rootOf_parent (h : Forest n parent) (hi : i < n) :
    rootOf n parent (parent i) = rootOf n parent i := by
  rw [rootOf, ← Function.iterate_succ_apply, Function.iterate_succ_apply']
  exact h.parent_rootOf hi

theorem rootOf_rootOf (h : Forest n parent) (hi : i < n) :
    rootOf n parent (rootOf n parent i) = rootOf n parent i :=
  rootOf_of_fixed (h.parent_rootOf hi)

/-- Induction from the roots of a forest outwards. -/
theorem induct (h : Forest n parent) {motive : Nat → Prop}
    (root : ∀ i, i < n → parent i = i → motive i)
    (step : ∀ i, i < n → parent i ≠ i → motive (parent i) → motive i) :
    ∀ i, i < n → motive i := by
  intro i hi
  obtain ⟨k, hk, hfixed⟩ := h.exists_fixed hi
  clear hk
  induction k generalizing i with
  | zero => exact root i hi hfixed
  | succ k ih =>
      by_cases hself : parent i = i
      · exact root i hi hself
      · exact step i hi hself (ih (parent i) (h.bounded i hi) hfixed)

/-- Heights rise from every node to its root. -/
theorem height_lt_root (h : Forest n parent) {height : Nat → Nat}
    (hheight : ∀ i, i < n → parent i ≠ i → height i < height (parent i)) :
    ∀ i, i < n → rootOf n parent i ≠ i → height i < height (rootOf n parent i) := by
  refine h.induct (fun i _ hfixed hne => absurd (rootOf_of_fixed hfixed) hne) ?_
  intro i hi hne ih hroot
  rw [h.rootOf_parent hi] at ih
  have hstep := hheight i hi hne
  by_cases heq : rootOf n parent i = parent i
  · rwa [heq]
  · exact hstep.trans (ih heq)

/-- A path never returns to a node it left. -/
theorem iterate_ne (h : Forest n parent) (hi : i < n) (hne : parent i ≠ i) (k : Nat) :
    parent^[k] (parent i) ≠ i := by
  obtain ⟨height, hheight⟩ := h.rises
  have hle : height (parent i) ≤ height (parent^[k] (parent i)) := by
    induction k with
    | zero => exact le_refl _
    | succ k ih =>
        rw [Function.iterate_succ_apply']
        by_cases hfixed : parent (parent^[k] (parent i)) = parent^[k] (parent i)
        · rwa [hfixed]
        · exact ih.trans (hheight _ (h.iterate_lt (h.bounded i hi) k) hfixed).le
  have hlt := hheight i hi hne
  intro heq
  rw [heq] at hle
  omega

/-! ## Changing one pointer -/

/-- Pointing a node at its root keeps the forest. -/
theorem compress (h : Forest n parent) (hi : i < n) :
    Forest n (Function.update parent i (rootOf n parent i)) := by
  obtain ⟨height, hheight⟩ := h.rises
  refine ⟨?_, height, ?_⟩
  · intro j hj
    by_cases heq : j = i
    · rw [heq, Function.update_self]
      exact h.rootOf_lt hi
    · rw [Function.update_of_ne heq]
      exact h.bounded j hj
  · intro j hj hne
    by_cases heq : j = i
    · subst heq
      rw [Function.update_self] at hne ⊢
      exact h.height_lt_root hheight j hj hne
    · rw [Function.update_of_ne heq] at hne ⊢
      exact hheight j hj hne

/-- Pointing a node at its root changes no root. -/
theorem rootOf_compress (h : Forest n parent) (hi : i < n) :
    ∀ j, j < n →
      rootOf n (Function.update parent i (rootOf n parent i)) j = rootOf n parent j := by
  have hnew := h.compress hi
  refine hnew.induct ?_ ?_
  · intro j hj hfixed
    rw [rootOf_of_fixed hfixed]
    by_cases heq : j = i
    · subst heq
      rw [Function.update_self] at hfixed
      exact hfixed.symm
    · rw [Function.update_of_ne heq] at hfixed
      exact (rootOf_of_fixed hfixed).symm
  · intro j hj _ ih
    rw [← hnew.rootOf_parent hj, ih]
    by_cases heq : j = i
    · rw [heq, Function.update_self, h.rootOf_rootOf hi]
    · rw [Function.update_of_ne heq, h.rootOf_parent hj]

/-- A new node that points at itself extends the forest and changes no root. -/
theorem extend (h : Forest n parent) {extended : Nat → Nat}
    (hold : ∀ i, i < n → extended i = parent i) (hnew : extended n = n) :
    Forest (n + 1) extended ∧
      ∀ i, i < n → rootOf (n + 1) extended i = rootOf n parent i := by
  obtain ⟨height, hheight⟩ := h.rises
  have hcases : ∀ i, i < n + 1 → i < n ∨ i = n := fun i hi => by omega
  constructor
  · refine ⟨fun i hi => ?_, height, fun i hi hne => ?_⟩
    · rcases hcases i hi with hlt | rfl
      · rw [hold i hlt]
        exact (h.bounded i hlt).trans (Nat.lt_succ_self n)
      · rw [hnew]
        exact Nat.lt_succ_self _
    · rcases hcases i hi with hlt | rfl
      · rw [hold i hlt] at hne ⊢
        exact hheight i hlt hne
      · exact absurd hnew hne
  · intro i hi
    have hpath : ∀ k, extended^[k] i = parent^[k] i := by
      intro k
      induction k with
      | zero => rfl
      | succ k ih =>
          rw [Function.iterate_succ_apply', ih, hold _ (h.iterate_lt hi k),
            Function.iterate_succ_apply']
    obtain ⟨k, hk, hfixed⟩ := h.exists_fixed hi
    have hend : extended (extended^[k] i) = extended^[k] i := by
      rw [hpath, hold _ (h.iterate_lt hi k), hfixed]
    rw [rootOf_eq_of_fixed (hk.le.trans (Nat.le_succ n)) hend, hpath,
      rootOf_eq_of_fixed hk.le hfixed]

/-- Changing the pointer of a node does not change the path that starts behind it. -/
theorem iterate_update (h : Forest n parent) (hi : i < n) (hne : parent i ≠ i) (target k : Nat) :
    (Function.update parent i target)^[k] (parent i) = parent^[k] (parent i) := by
  induction k with
  | zero => rfl
  | succ k ih =>
      rw [Function.iterate_succ_apply', ih, Function.update_of_ne (h.iterate_ne hi hne k),
        Function.iterate_succ_apply']

section Link

variable {upper lower : Nat} (h : Forest n parent) (hupper : upper < n) (hlower : lower < n)
  (hupperRoot : parent upper = upper) (hlowerRoot : parent lower = lower) (hne : upper ≠ lower)

include h hupper hupperRoot hne in
/-- Pointing one root at another keeps the forest. -/
theorem link : Forest n (Function.update parent lower upper) := by
  obtain ⟨height, hheight⟩ := h.rises
  refine ⟨?_, Function.update height upper (max (height upper) (height lower + 1)), ?_⟩
  · intro j hj
    by_cases heq : j = lower
    · rw [heq, Function.update_self]
      exact hupper
    · rw [Function.update_of_ne heq]
      exact h.bounded j hj
  · intro j hj hmoved
    by_cases heq : j = lower
    · rw [heq, Function.update_self, Function.update_self, Function.update_of_ne hne.symm]
      omega
    · rw [Function.update_of_ne heq] at hmoved ⊢
      have hother : j ≠ upper := by
        rintro rfl
        exact hmoved hupperRoot
      have hrise := hheight j hj hmoved
      rw [Function.update_of_ne hother]
      by_cases htop : parent j = upper
      · rw [htop, Function.update_self]
        rw [htop] at hrise
        omega
      · rwa [Function.update_of_ne htop]

include h hupper hlower hupperRoot hlowerRoot hne in
/-- Pointing one root at another moves exactly the tree of the first to the second. -/
theorem rootOf_link : ∀ j, j < n → rootOf n (Function.update parent lower upper) j =
    if rootOf n parent j = lower then upper else rootOf n parent j := by
  have hnew := h.link hupper hupperRoot hne
  refine hnew.induct ?_ ?_
  · intro j hj hfixed
    have hother : j ≠ lower := by
      rintro rfl
      rw [Function.update_self] at hfixed
      exact hne hfixed
    rw [rootOf_of_fixed hfixed]
    rw [Function.update_of_ne hother] at hfixed
    rw [rootOf_of_fixed hfixed, if_neg hother]
  · intro j hj _ ih
    rw [← hnew.rootOf_parent hj, ih]
    by_cases heq : j = lower
    · rw [heq, Function.update_self, rootOf_of_fixed hupperRoot, rootOf_of_fixed hlowerRoot,
        if_neg hne, if_pos rfl]
    · rw [Function.update_of_ne heq, h.rootOf_parent hj]

end Link

end Forest

end Data
