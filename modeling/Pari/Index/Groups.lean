/-
# Groups as connected components

A list of groups is determined by the live keys, the pairs that count as edges and the
minimum size. Whatever union-find the loops over the buckets leave behind, it tracks the
accepted pairs of identifiers that share a bucket, and collecting the live keys of each
root then gives exactly the connected components of those pairs.
-/

import Pari.Index.Grouping
import Pari.Index.Reachable

namespace Pari.Index

open Data Relation

/-! ## Lists of groups -/

/-- The ascending list of the classes of a minimum size, each with its smallest member. -/
structure IsGroups (vertex : UInt64 → Prop) (joined : UInt64 → UInt64 → Prop) (minSize : Nat)
    (groups : List DuplicateGroup) : Prop where
  ascending : Ascending (groups.map DuplicateGroup.representative)
  sorted : ∀ group ∈ groups, Ascending group.members
  representative : ∀ group ∈ groups, group.representative ∈ group.members ∧
    ∀ member ∈ group.members, group.representative ≤ member
  classes : ∀ members, (∃ group ∈ groups, group.members = members) ↔
    IsClass vertex joined members ∧ max minSize 1 ≤ members.length

section Groups

variable {vertex : UInt64 → Prop} {joined : UInt64 → UInt64 → Prop} {minSize : Nat}

theorem DuplicateGroup.lt_of_representative_lt {left right : DuplicateGroup}
    (h : left.representative < right.representative) : left < right :=
  Prod.Lex.toLex_lt_toLex.mpr (Or.inl h)

/-- The groups are determined by the graph and the minimum size. -/
theorem IsGroups.unique {left right : List DuplicateGroup}
    (hleft : IsGroups vertex joined minSize left)
    (hright : IsGroups vertex joined minSize right) : left = right := by
  have hascending : ∀ groups, IsGroups vertex joined minSize groups → Ascending groups :=
    fun groups h => (List.pairwise_map.mp h.ascending).imp DuplicateGroup.lt_of_representative_lt
  -- The members of a group determine its representative.
  have hsubset : ∀ left right, IsGroups vertex joined minSize left →
      IsGroups vertex joined minSize right → ∀ group ∈ left, group ∈ right := by
    intro left right hleft hright group hgroup
    obtain ⟨other, hother, hmembers⟩ :=
      (hright.classes group.members).mpr ((hleft.classes _).mp ⟨group, hgroup, rfl⟩)
    obtain ⟨hin, hleast⟩ := hleft.representative group hgroup
    obtain ⟨hin', hleast'⟩ := hright.representative other hother
    rw [hmembers] at hin' hleast'
    have hsame : other = group :=
      DuplicateGroup.ext (le_antisymm (hleast' _ hin) (hleast _ hin')) hmembers
    rwa [hsame] at hother
  exact (hascending left hleft).ext (hascending right hright) fun group =>
    ⟨hsubset left right hleft hright group, hsubset right left hright hleft group⟩

/-- Naming each component by its first member gives the groups. -/
theorem isGroups_of_isComponents (hjoined : Equivalence joined) {components : List (List UInt64)}
    (h : IsComponents vertex joined (max minSize 1) components) :
    ∃ groups, (components.mapM fun members => members.head?.map fun representative =>
      DuplicateGroup.mk representative members) = some groups ∧
      IsGroups vertex joined minSize (sortUnstable groups) := by
  have hnonempty : ∀ members ∈ components, members ≠ [] := by
    intro members hmem hnil
    have := ((h.2 members).mp hmem).2
    rw [hnil, List.length_nil] at this
    omega
  have hmap : ∀ list : List (List UInt64), (∀ members ∈ list, members ≠ []) →
      (list.mapM fun members => members.head?.map fun representative =>
        DuplicateGroup.mk representative members) =
      some (list.map fun members => ⟨members.headD 0, members⟩) := by
    intro list hlist
    induction list with
    | nil => rfl
    | cons members list ih =>
        rw [List.forall_mem_cons] at hlist
        obtain ⟨first, rest, rfl⟩ := List.exists_cons_of_ne_nil hlist.1
        simp [ih hlist.2]
  refine ⟨_, hmap components hnonempty, ?_⟩
  have hmem : ∀ group, group ∈ sortUnstable (components.map fun members =>
      DuplicateGroup.mk (members.headD 0) members) ↔
      group.members ∈ components ∧ group.representative = group.members.headD 0 := by
    intro group
    rw [mem_sortUnstable, List.mem_map]
    constructor
    · rintro ⟨members, hmembers, rfl⟩
      exact ⟨hmembers, rfl⟩
    · rintro ⟨hmembers, hhead⟩
      exact ⟨group.members, hmembers, DuplicateGroup.ext hhead.symm rfl⟩
  have hsorted : ∀ members ∈ components, Ascending members :=
    fun members hmembers => ((h.2 members).mp hmembers).1.1
  have hleast : ∀ members ∈ components, members.headD 0 ∈ members ∧
      ∀ member ∈ members, members.headD 0 ≤ member := by
    intro members hmembers
    obtain ⟨first, rest, rfl⟩ := List.exists_cons_of_ne_nil (hnonempty members hmembers)
    refine ⟨List.mem_cons_self, ?_⟩
    rw [List.forall_mem_cons]
    exact ⟨le_refl _, fun member hmember =>
      ((List.pairwise_cons.mp (hsorted _ hmembers)).1 member hmember).le⟩
  -- Two components with one first member are one class.
  have hdistinct : ∀ left ∈ components, ∀ right ∈ components,
      left.headD 0 = right.headD 0 → left = right := by
    intro left hleft right hright hhead
    obtain ⟨⟨hleftSorted, a, _, hleftMem⟩, _⟩ := (h.2 left).mp hleft
    obtain ⟨⟨hrightSorted, b, _, hrightMem⟩, _⟩ := (h.2 right).mp hright
    have ha := ((hleftMem _).mp (hleast left hleft).1).2
    have hb := ((hrightMem _).mp (hleast right hright).1).2
    rw [← hhead] at hb
    have hab : joined a b := hjoined.trans ha (hjoined.symm hb)
    refine hleftSorted.ext hrightSorted fun c => ?_
    rw [hleftMem, hrightMem]
    exact and_congr_right fun _ =>
      ⟨hjoined.trans (hjoined.symm hab), hjoined.trans hab⟩
  refine ⟨?_, ?_, ?_, ?_⟩
  · have hnodup : (components.map fun members =>
        DuplicateGroup.mk (members.headD 0) members).Nodup := by
      refine List.Nodup.map ?_ h.1.nodup
      exact fun left right heq => congrArg DuplicateGroup.members heq
    refine List.pairwise_map.mpr ((sortUnstable_ascending hnodup).imp_of_mem ?_)
    intro left right hleft hright hlt
    rw [hmem] at hleft hright
    rcases Prod.Lex.toLex_lt_toLex.mp hlt with hrepresentative | ⟨heq, hmembers⟩
    · exact hrepresentative
    · have hsame : left.members = right.members := hdistinct _ hleft.1 _ hright.1
        (hleft.2.symm.trans (Eq.trans heq hright.2))
      rw [hsame] at hmembers
      exact absurd hmembers (lt_irrefl _)
  · intro group hgroup
    exact hsorted _ ((hmem group).mp hgroup).1
  · intro group hgroup
    rw [((hmem group).mp hgroup).2]
    exact hleast _ ((hmem group).mp hgroup).1
  · intro members
    rw [← h.2]
    constructor
    · rintro ⟨group, hgroup, rfl⟩
      exact ((hmem group).mp hgroup).1
    · intro hmembers
      exact ⟨⟨members.headD 0, members⟩, (hmem _).mpr ⟨hmembers, rfl⟩, rfl⟩

end Groups

/-! ## Collecting the members of each root -/

section Collecting

variable {unionFind : UnionFind} {n : Nat} {edge : Nat → Nat → Prop}

/-- Filing members under their roots extends the table by exactly those members. -/
theorem collectByRoot_spec (h : unionFind.Tracks n edge) {members : List (Nat × UInt64)}
    {byRoot : Table Nat UInt64} {rootOf : UInt64 → Option Nat}
    (htable : Table.Represents byRoot rootOf) (hrange : ∀ member ∈ members, member.1 < n)
    (hdistinct : (members.map Prod.snd).Nodup)
    (hfresh : ∀ member ∈ members, rootOf member.2 = none) :
    ∃ result rootOf', collectByRoot members unionFind byRoot = some result ∧
      Table.Represents result rootOf' ∧
      (∀ member ∈ members, rootOf' member.2 = some (unionFind.root member.1)) ∧
      ∀ key, (∀ id, (id, key) ∉ members) → rootOf' key = rootOf key := by
  induction members generalizing unionFind byRoot rootOf with
  | nil => exact ⟨byRoot, rootOf, rfl, htable, by simp, fun _ _ => rfl⟩
  | cons member members ih =>
      obtain ⟨id, key⟩ := member
      rw [List.forall_mem_cons] at hrange hfresh
      rw [List.map_cons, List.nodup_cons] at hdistinct
      obtain ⟨next, hfind, hnext, hroots⟩ := h.find hrange.1
      have hne : ∀ member ∈ members, member.2 ≠ key := fun member hmem heq =>
        hdistinct.1 (List.mem_map.mpr ⟨member, hmem, heq⟩)
      have hpushed : Table.Represents (pushAt byRoot (unionFind.root id) key) _ :=
        htable.pushAt hfresh.1
      obtain ⟨result, rootOf', hcollect, hresult, hmembers, hothers⟩ :=
        ih hnext hpushed hrange.2 hdistinct.2 <| by
          intro member hmem
          rw [Function.update_of_ne (hne member hmem)]
          exact hfresh.2 member hmem
      refine ⟨result, rootOf', ?_, hresult, ?_, ?_⟩
      · have hlen : ¬ unionFind.len ≤ id := by
          rw [h.len]
          exact not_le.mpr hrange.1
        rw [collectByRoot, if_neg hlen, hfind]
        exact hcollect
      · rw [List.forall_mem_cons]
        constructor
        · rw [hothers key fun otherId hmem => hne _ hmem rfl, Function.update_self]
        · intro member hmem
          rw [hmembers member hmem, hroots _ (hrange.2 member hmem)]
      · intro other hother
        rw [hothers other fun otherId hmem => hother otherId (List.mem_cons_of_mem _ hmem)]
        refine Function.update_of_ne ?_ _ _
        rintro rfl
        exact hother id List.mem_cons_self

/-- Collecting labelled nodes gives the components of the labels. -/
theorem collectDefaultGroups_spec (h : unionFind.Tracks n edge) {members : List (Nat × UInt64)}
    {label : Nat → Option UInt64} {labelEdge : UInt64 → UInt64 → Prop}
    (hmembers : ∀ id key, (id, key) ∈ members ↔ label id = some key)
    (hnodup : members.Nodup) (hrange : ∀ id key, label id = some key → id < n)
    (hinjective : ∀ {i j key}, label i = some key → label j = some key → i = j)
    (hedge : ∀ i j, edge i j →
      ∃ a b, label i = some a ∧ label j = some b ∧ EqvGen labelEdge a b)
    (hlabel : ∀ a b, labelEdge a b →
      ∃ i j, label i = some a ∧ label j = some b ∧ EqvGen edge i j)
    (order : VisitOrder Nat (List UInt64)) (minSize : Nat) :
    ∃ groups, collectDefaultGroups order unionFind members minSize = some groups ∧
      IsGroups (fun key => ∃ id, label id = some key) (EqvGen labelEdge) minSize groups := by
  have hdistinct : (members.map Prod.snd).Nodup := by
    refine List.Nodup.map_on ?_ hnodup
    rintro ⟨i, a⟩ hi ⟨j, b⟩ hj hab
    rw [hmembers] at hi hj
    obtain rfl : a = b := hab
    rw [hinjective hi hj]
  obtain ⟨byRoot, rootOf, hcollect, htable, hroots, hothers⟩ :=
    collectByRoot_spec h Table.Represents.empty
      (fun member hmem => hrange _ _ ((hmembers _ _).mp hmem)) hdistinct (fun _ _ => rfl)
  have hroot : ∀ {id key}, label id = some key → rootOf key = some (unionFind.root id) :=
    fun hid => hroots _ ((hmembers _ _).mpr hid)
  have hvertex : ∀ key, rootOf key ≠ none ↔ ∃ id, label id = some key := by
    intro key
    constructor
    · intro hkey
      by_contra hnone
      exact hkey (hothers key fun id hmem => hnone ⟨id, (hmembers id key).mp hmem⟩)
    · rintro ⟨id, hid⟩
      rw [hroot hid]
      simp
  have hcomponents : IsComponents (fun key => ∃ id, label id = some key) (EqvGen labelEdge)
      (max minSize 1) (collectClasses order 0 byRoot (max minSize 1)) := by
    have hclasses := htable.isComponents order 0 (max minSize 1)
    simp only [hvertex] at hclasses
    refine hclasses.congr ?_
    rintro a b ⟨i, hi⟩ ⟨j, hj⟩
    rw [← eqvGen_label_iff hinjective hedge hlabel hi hj,
      ← h.joined i j (hrange i a hi) (hrange j b hj), hroot hi, hroot hj, Option.some.injEq]
  obtain ⟨groups, hgroups, hresult⟩ :=
    isGroups_of_isComponents (EqvGen.is_equivalence labelEdge) hcomponents
  refine ⟨sortUnstable groups, ?_, hresult⟩
  simp [collectDefaultGroups, collectComponents, hcollect, hgroups]

end Collecting

end Pari.Index
