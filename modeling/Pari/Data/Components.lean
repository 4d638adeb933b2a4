/-
# Connected components as sorted lists

Two elements are joined when a chain of edges connects them. Adding one edge joins
exactly the two classes of its ends, which is what merging two trees of a forest does.

A list of components is determined by the vertices, the relation that joins them and a
minimum size: it is ascending, and its elements are the ascending lists of the classes
that are large enough. Collecting vertices under a representative of their class and
sorting produces it, in whatever order the representatives are visited.
-/

import Mathlib.Data.List.Lex
import Mathlib.Logic.Relation
import Pari.Data.BandTables

namespace Data

open Relation

universe u v

/-! ## Joining -/

section Joining

variable {α : Type u} {β : Type v} {edge other : α → α → Prop} {a b x y : α}

/-- If every edge of one graph joins its ends in another, so does every chain. -/
theorem eqvGen_of_edges (h : ∀ a b, edge a b → EqvGen other a b) (hab : EqvGen edge a b) :
    EqvGen other a b := by
  induction hab with
  | rel a b hedge => exact h a b hedge
  | refl a => exact .refl a
  | symm a b _ ih => exact ih.symm
  | trans a b c _ _ hab hbc => exact hab.trans _ _ _ hbc

/-- Adding an edge joins exactly the classes of its ends. -/
theorem eqvGen_insert_iff :
    EqvGen (fun a b => edge a b ∨ a = x ∧ b = y) a b ↔
      EqvGen edge a b ∨ (EqvGen edge a x ∧ EqvGen edge y b) ∨
        (EqvGen edge a y ∧ EqvGen edge x b) := by
  constructor
  · intro h
    induction h with
    | rel a b hedge =>
        rcases hedge with hold | ⟨rfl, rfl⟩
        · exact Or.inl (.rel a b hold)
        · exact Or.inr (Or.inl ⟨.refl a, .refl b⟩)
    | refl a => exact Or.inl (.refl a)
    | symm a b _ ih =>
        rcases ih with hab | ⟨hax, hyb⟩ | ⟨hay, hxb⟩
        · exact Or.inl hab.symm
        · exact Or.inr (Or.inr ⟨hyb.symm, hax.symm⟩)
        · exact Or.inr (Or.inl ⟨hxb.symm, hay.symm⟩)
    | trans a b c _ _ hab hbc =>
        rcases hab with hab | ⟨hax, hyb⟩ | ⟨hay, hxb⟩
        · rcases hbc with hbc | ⟨hbx, hyc⟩ | ⟨hby, hxc⟩
          · exact Or.inl (hab.trans _ _ _ hbc)
          · exact Or.inr (Or.inl ⟨hab.trans _ _ _ hbx, hyc⟩)
          · exact Or.inr (Or.inr ⟨hab.trans _ _ _ hby, hxc⟩)
        · rcases hbc with hbc | ⟨hbx, hyc⟩ | ⟨hby, hxc⟩
          · exact Or.inr (Or.inl ⟨hax, hyb.trans _ _ _ hbc⟩)
          · exact Or.inr (Or.inl ⟨hax, hyc⟩)
          · exact Or.inl (hax.trans _ _ _ hxc)
        · rcases hbc with hbc | ⟨hbx, hyc⟩ | ⟨hby, hxc⟩
          · exact Or.inr (Or.inr ⟨hay, hxb.trans _ _ _ hbc⟩)
          · exact Or.inl (hay.trans _ _ _ hyc)
          · exact Or.inr (Or.inr ⟨hay, hxc⟩)
  · have hmono : ∀ {a b}, EqvGen edge a b → EqvGen (fun a b => edge a b ∨ a = x ∧ b = y) a b :=
      fun h => eqvGen_of_edges (fun a b hedge => .rel a b (Or.inl hedge)) h
    have hnew : EqvGen (fun a b => edge a b ∨ a = x ∧ b = y) x y := .rel x y (Or.inr ⟨rfl, rfl⟩)
    rintro (hab | ⟨hax, hyb⟩ | ⟨hay, hxb⟩)
    · exact hmono hab
    · exact (hmono hax).trans _ _ _ (hnew.trans _ _ _ (hmono hyb))
    · exact (hmono hay).trans _ _ _ (hnew.symm.trans _ _ _ (hmono hxb))

/-- Adding an edge between joined elements joins nothing new. -/
theorem eqvGen_insert_of_joined (h : EqvGen edge x y) :
    EqvGen (fun a b => edge a b ∨ a = x ∧ b = y) a b ↔ EqvGen edge a b := by
  rw [eqvGen_insert_iff]
  constructor
  · rintro (hab | ⟨hax, hyb⟩ | ⟨hay, hxb⟩)
    · exact hab
    · exact hax.trans _ _ _ (h.trans _ _ _ hyb)
    · exact hay.trans _ _ _ (h.symm.trans _ _ _ hxb)
  · exact Or.inl

/-- A chain between different elements starts and ends at ends of edges. -/
theorem eqvGen_cases (h : EqvGen edge a b) :
    a = b ∨ (∃ c, edge a c ∨ edge c a) ∧ ∃ c, edge b c ∨ edge c b := by
  induction h with
  | rel a b hedge => exact Or.inr ⟨⟨b, Or.inl hedge⟩, a, Or.inr hedge⟩
  | refl a => exact Or.inl rfl
  | symm a b _ ih =>
      rcases ih with heq | ⟨ha, hb⟩
      · exact Or.inl heq.symm
      · exact Or.inr ⟨hb, ha⟩
  | trans a b c _ _ hab hbc =>
      rcases hab with rfl | ⟨ha, hb⟩
      · exact hbc
      · rcases hbc with rfl | ⟨_, hc⟩
        · exact Or.inr ⟨ha, hb⟩
        · exact Or.inr ⟨ha, hc⟩

/-- Joining is the same seen from nodes or from their labels, when no two nodes share a
label, edges connect labelled nodes whose labels are joined, and edges of labels connect
labels of joined nodes. -/
theorem eqvGen_label_iff {label : α → Option β} {labelEdge : β → β → Prop}
    (hinjective : ∀ {i j b}, label i = some b → label j = some b → i = j)
    (hedge : ∀ i j, edge i j →
      ∃ b c, label i = some b ∧ label j = some c ∧ EqvGen labelEdge b c)
    (hlabel : ∀ b c, labelEdge b c →
      ∃ i j, label i = some b ∧ label j = some c ∧ EqvGen edge i j)
    {i j : α} {b c : β} (hi : label i = some b) (hj : label j = some c) :
    EqvGen edge i j ↔ EqvGen labelEdge b c := by
  constructor
  · intro h
    have key : i = j ∨ ∃ b c, label i = some b ∧ label j = some c ∧ EqvGen labelEdge b c := by
      clear hi hj
      induction h with
      | rel i j hij =>
          obtain ⟨b, c, hb, hc, hbc⟩ := hedge i j hij
          exact Or.inr ⟨b, c, hb, hc, hbc⟩
      | refl i => exact Or.inl rfl
      | symm i j _ ih =>
          rcases ih with heq | ⟨b, c, hb, hc, hbc⟩
          · exact Or.inl heq.symm
          · exact Or.inr ⟨c, b, hc, hb, hbc.symm⟩
      | trans i j k _ _ hij hjk =>
          rcases hij with rfl | ⟨b, c, hb, hc, hbc⟩
          · exact hjk
          · rcases hjk with rfl | ⟨c', d, hc', hd, hcd⟩
            · exact Or.inr ⟨b, c, hb, hc, hbc⟩
            · rw [hc] at hc'
              rw [← Option.some.inj hc'] at hcd
              exact Or.inr ⟨b, d, hb, hd, hbc.trans _ _ _ hcd⟩
    rcases key with rfl | ⟨b', c', hb', hc', hbc⟩
    · rw [hi] at hj
      rw [Option.some.inj hj]
      exact .refl c
    · rw [hi] at hb'
      rw [hj] at hc'
      rwa [Option.some.inj hb', Option.some.inj hc']
  · intro h
    induction h generalizing i j with
    | rel b c hbc =>
        obtain ⟨i', j', hi', hj', hij⟩ := hlabel b c hbc
        rwa [hinjective hi hi', hinjective hj hj']
    | refl b =>
        rw [hinjective hi hj]
        exact .refl j
    | symm b c _ ih => exact (ih hj hi).symm
    | trans b c d hbc _ ihbc ihcd =>
        rcases eqvGen_cases hbc with rfl | ⟨_, e, hce⟩
        · exact ihcd hi hj
        · have hc : ∃ k, label k = some c := by
            rcases hce with hce | hec
            · obtain ⟨k, _, hk, _⟩ := hlabel c e hce
              exact ⟨k, hk⟩
            · obtain ⟨_, k, _, hk, _⟩ := hlabel e c hec
              exact ⟨k, hk⟩
          obtain ⟨k, hk⟩ := hc
          exact (ihbc hi hk).trans _ _ _ (ihcd hk hj)

end Joining

/-! ## Lists of components -/

section Components

variable {α : Type u} [LinearOrder α]

/-- The ascending list of one class of vertices. -/
def IsClass (vertex : α → Prop) (joined : α → α → Prop) (members : List α) : Prop :=
  Ascending members ∧ ∃ a, vertex a ∧ ∀ b, b ∈ members ↔ vertex b ∧ joined a b

/-- The ascending list of all classes with a minimum size. -/
def IsComponents (vertex : α → Prop) (joined : α → α → Prop) (minimum : Nat)
    (components : List (List α)) : Prop :=
  Ascending components ∧
    ∀ members, members ∈ components ↔ IsClass vertex joined members ∧ minimum ≤ members.length

/-- The components are determined by the graph. -/
theorem IsComponents.unique {vertex : α → Prop} {joined : α → α → Prop} {minimum : Nat}
    {left right : List (List α)} (hleft : IsComponents vertex joined minimum left)
    (hright : IsComponents vertex joined minimum right) : left = right :=
  hleft.1.ext hright.1 fun members => (hleft.2 members).trans (hright.2 members).symm

/-- Components only depend on how vertices are joined. -/
theorem IsClass.congr {vertex : α → Prop} {joined joined' : α → α → Prop} {members : List α}
    (h : ∀ a b, vertex a → vertex b → (joined a b ↔ joined' a b))
    (hclass : IsClass vertex joined members) : IsClass vertex joined' members := by
  obtain ⟨hsorted, a, ha, hmem⟩ := hclass
  refine ⟨hsorted, a, ha, fun b => ?_⟩
  rw [hmem]
  exact and_congr_right fun hb => h a b ha hb

theorem IsComponents.congr {vertex : α → Prop} {joined joined' : α → α → Prop} {minimum : Nat}
    {components : List (List α)} (h : ∀ a b, vertex a → vertex b → (joined a b ↔ joined' a b))
    (hcomponents : IsComponents vertex joined minimum components) :
    IsComponents vertex joined' minimum components := by
  refine ⟨hcomponents.1, fun members => ?_⟩
  rw [hcomponents.2]
  exact and_congr_left' ⟨IsClass.congr h, IsClass.congr fun a b ha hb => (h a b ha hb).symm⟩

variable {κ : Type v} [LinearOrder κ]

/-- `into_values().filter_map(..).collect()` and the two sorts. -/
def collectClasses (order : VisitOrder κ (List α)) (table : Nat) (byRoot : Table κ α)
    (minimum : Nat) : List (List α) :=
  sortUnstable ((order.entries table byRoot).filterMap fun entry =>
    if entry.2.length < minimum then none else some (sortUnstable entry.2))

/-- Collecting the vertices of each root gives the components, in any visiting order. -/
theorem Table.Represents.isComponents {byRoot : Table κ α} {rootOf : α → Option κ}
    (h : Table.Represents byRoot rootOf) (order : VisitOrder κ (List α)) (table minimum : Nat) :
    IsComponents (fun a => rootOf a ≠ none) (fun a b => rootOf a = rootOf b) minimum
      (collectClasses order table byRoot minimum) := by
  have hmem : ∀ members, members ∈ ((order.entries table byRoot).filterMap fun entry =>
      if entry.2.length < minimum then none else some (sortUnstable entry.2)) ↔
      IsClass (fun a => rootOf a ≠ none) (fun a b => rootOf a = rootOf b) members ∧
        minimum ≤ members.length := by
    intro members
    rw [List.mem_filterMap]
    constructor
    · rintro ⟨⟨root, bucket⟩, hentry, hsome⟩
      rw [order.mem_entries_iff] at hentry
      simp only at hsome
      split at hsome
      · cases hsome
      · next hlarge =>
          obtain rfl := Option.some.inj hsome
          have hbucket : ∀ a, a ∈ bucket ↔ rootOf a = some root := by
            intro a
            rw [← h.mem_iff, hentry, Option.getD_some]
          obtain ⟨first, hfirst⟩ := List.exists_mem_of_ne_nil bucket (h.nonempty root bucket hentry)
          have hroot := (hbucket first).mp hfirst
          refine ⟨⟨sortUnstable_ascending (h.nodup root bucket hentry), first, ?_, ?_⟩, ?_⟩
          · simp [hroot]
          · intro a
            dsimp only
            rw [mem_sortUnstable, hbucket, hroot]
            constructor
            · intro ha
              exact ⟨by simp [ha], ha.symm⟩
            · rintro ⟨_, ha⟩
              exact ha.symm
          · rw [length_sortUnstable]
            omega
    · rintro ⟨⟨hsorted, a, ha, hclass⟩, hlarge⟩
      obtain ⟨root, hroot⟩ := Option.ne_none_iff_exists'.mp ha
      have hbucket : byRoot[root]? = some (byRoot[root]?.getD []) := by
        cases hentry : byRoot[root]? with
        | none =>
            have := (h.mem_iff root a).mpr hroot
            simp [hentry] at this
        | some bucket => rfl
      have hsort : members = sortUnstable (byRoot[root]?.getD []) := by
        refine hsorted.ext (sortUnstable_ascending (h.nodup root _ hbucket)) fun b => ?_
        rw [hclass, mem_sortUnstable, h.mem_iff]
        dsimp only
        rw [hroot]
        constructor
        · rintro ⟨_, hb⟩
          exact hb.symm
        · intro hb
          exact ⟨by simp [hb], hb.symm⟩
      refine ⟨(root, byRoot[root]?.getD []), order.mem_entries_iff.mpr hbucket, ?_⟩
      have hlength : ¬ (byRoot[root]?.getD []).length < minimum := by
        rw [hsort, length_sortUnstable] at hlarge
        omega
      rw [if_neg hlength, ← hsort]
  constructor
  · refine sortUnstable_ascending ?_
    have hentries : (order.entries table byRoot).Nodup :=
      (order.perm table byRoot).nodup_iff.mpr toList_nodup
    refine List.pairwise_filterMap.mpr (hentries.imp_of_mem ?_)
    rintro ⟨root, bucket⟩ ⟨root', bucket'⟩ hleft hright hne members hmembers members' hmembers' rfl
    rw [order.mem_entries_iff] at hleft hright
    simp only [Option.ite_none_left_eq_some, Option.some.injEq] at hmembers hmembers'
    -- Two visited roots with one class would share the root of any of its members.
    obtain ⟨first, hfirst⟩ := List.exists_mem_of_ne_nil bucket (h.nonempty root bucket hleft)
    have hother : first ∈ bucket' := by
      rw [← mem_sortUnstable, hmembers'.2, ← hmembers.2, mem_sortUnstable]
      exact hfirst
    have hroot : rootOf first = some root := by
      rw [← h.mem_iff, hleft]
      exact hfirst
    have hroot' : rootOf first = some root' := by
      rw [← h.mem_iff, hright]
      exact hother
    rw [hroot] at hroot'
    obtain rfl := Option.some.inj hroot'
    rw [hleft] at hright
    exact hne (Prod.ext rfl (Option.some.inj hright))
  · intro members
    rw [collectClasses, mem_sortUnstable, hmem]

end Components

end Data
