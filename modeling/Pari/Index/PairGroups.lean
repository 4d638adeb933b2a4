/-
# Groups of a stream of pairs

Grouping a stream gives the components of the graph whose vertices are the keys the stream
mentions; neither the order of the pairs nor the order of their ends nor repetitions matter. A
caller may choose the representatives, which are rejected unless they are members.
-/

import Pari.Index.CandidatePairs

namespace Pari.Index

open Data Relation

/-! ## Selected representatives -/

/-- Errors returned when duplicate groups are selected. -/
inductive GroupError
  | representativeNotMember (representative : UInt64)
  deriving DecidableEq, Repr

/-- A component with the representative the caller selects. The binary search for it finds
every member, since the members are sorted. -/
def selectRepresentative (representative : List UInt64 → UInt64) (members : List UInt64) :
    Except GroupError DuplicateGroup :=
  let selected := representative members
  if selected ∈ members then .ok { representative := selected, members }
  else .error (.representativeNotMember selected)

def collectSelectedGroups (order : VisitOrder Nat (List UInt64)) (unionFind : UnionFind)
    (members : List (Nat × UInt64)) (minSize : Nat) (representative : List UInt64 → UInt64) :
    Option (Except GroupError (List DuplicateGroup)) := do
  let components ← collectComponents order unionFind members minSize
  return (components.mapM (selectRepresentative representative)).map sortUnstable

/-- Group a stream of key pairs and choose a representative from each component. -/
def groupPairsWithRepresentative (order : VisitOrder Nat (List UInt64))
    (pairs : List (UInt64 × UInt64)) (minSize : Nat) (representative : List UInt64 → UInt64) :
    Option (Except GroupError (List DuplicateGroup)) := do
  let stream ← unionStream pairs
  collectSelectedGroups order stream.unionFind
    (stream.keys.zipIdx.map fun slot => (slot.2, slot.1)) minSize representative

/-! ## The groups of a stream -/

/-- Two streams with the same edges, whichever end comes first. -/
def SameEdges (pairs others : List (UInt64 × UInt64)) : Prop :=
  ∀ a b, ((a, b) ∈ pairs ∨ (b, a) ∈ pairs) ↔ ((a, b) ∈ others ∨ (b, a) ∈ others)

section Streams

variable {pairs others : List (UInt64 × UInt64)} {minSize : Nat}

theorem SameEdges.mentioned (h : SameEdges pairs others) {key : UInt64}
    (hkey : Mentioned pairs key) : Mentioned others key := by
  obtain ⟨⟨a, b⟩, hab, hend⟩ := hkey
  rcases (h a b).mp (Or.inl hab) with hsame | hswapped
  · exact ⟨(a, b), hsame, hend⟩
  · exact ⟨(b, a), hswapped, hend.symm⟩

theorem SameEdges.symm (h : SameEdges pairs others) : SameEdges others pairs :=
  fun a b => (h a b).symm

theorem SameEdges.joined (h : SameEdges pairs others) {a b : UInt64} (hab : (a, b) ∈ pairs) :
    EqvGen (fun a b => (a, b) ∈ others) a b := by
  rcases (h a b).mp (Or.inl hab) with hsame | hswapped
  · exact .rel _ _ hsame
  · exact .symm _ _ (.rel _ _ hswapped)

/-- Streams with the same edges have the same groups. -/
theorem IsGroups.of_sameEdges (h : SameEdges pairs others) {groups : List DuplicateGroup}
    (hgroups : IsGroups (Mentioned pairs) (EqvGen fun a b => (a, b) ∈ pairs) minSize groups) :
    IsGroups (Mentioned others) (EqvGen fun a b => (a, b) ∈ others) minSize groups := by
  have hvertex : Mentioned pairs = Mentioned others :=
    funext fun key => propext ⟨h.mentioned, h.symm.mentioned⟩
  have hjoined : (EqvGen fun a b => (a, b) ∈ pairs) = EqvGen fun a b => (a, b) ∈ others := by
    funext a b
    exact propext ⟨eqvGen_of_edges fun _ _ hab => h.joined hab,
      eqvGen_of_edges fun _ _ hab => h.symm.joined hab⟩
  rwa [hvertex, hjoined] at hgroups

/-- The groups list the collected components, each with its first member. -/
theorem exists_components {order : VisitOrder Nat (List UInt64)} {unionFind : UnionFind}
    {members : List (Nat × UInt64)} {groups : List DuplicateGroup}
    (h : collectDefaultGroups order unionFind members minSize = some groups) :
    ∃ components, collectComponents order unionFind members minSize = some components ∧
      components.Perm (groups.map DuplicateGroup.members) := by
  simp only [collectDefaultGroups, Option.bind_eq_bind, Option.bind_eq_some_iff] at h
  obtain ⟨components, hcomponents, named, hnamed, hsorted⟩ := h
  obtain rfl := Option.some.inj hsorted
  refine ⟨components, hcomponents, ?_⟩
  have hmembers : named.map DuplicateGroup.members = components := by
    clear hcomponents hsorted
    induction components generalizing named with
    | nil =>
        obtain rfl := Option.some.inj hnamed
        rfl
    | cons component components ih =>
        simp only [List.mapM_cons, Option.bind_eq_bind, Option.bind_eq_some_iff,
          Option.map_eq_some_iff] at hnamed
        obtain ⟨_, ⟨first, _, rfl⟩, rest, hrest, heq⟩ := hnamed
        obtain rfl := Option.some.inj heq
        rw [List.map_cons, ih rest hrest]
  rw [← hmembers]
  exact ((sortUnstable_perm named).map _).symm

/-- Selecting succeeds exactly when every selected key is a member. -/
theorem mapM_selectRepresentative {representative : List UInt64 → UInt64}
    {components : List (List UInt64)} {selected : List DuplicateGroup} :
    components.mapM (selectRepresentative representative) = .ok selected ↔
      (∀ members ∈ components, representative members ∈ members) ∧
      components.map (fun members => ⟨representative members, members⟩) = selected := by
  have haccepted : (∀ members ∈ components, representative members ∈ members) →
      components.mapM (selectRepresentative representative) =
        .ok (components.map fun members => ⟨representative members, members⟩) :=
    fun hmembers => mapM_eq_ok_map fun members hmem => if_pos (hmembers members hmem)
  constructor
  · intro h
    have hmembers : ∀ members ∈ components, representative members ∈ members := by
      intro members hmem
      obtain ⟨group, _, hgroup⟩ := exists_right_of_forall₂ (mapM_eq_ok_iff.mp h) hmem
      rw [selectRepresentative] at hgroup
      split at hgroup
      · assumption
      · cases hgroup
    rw [haccepted hmembers] at h
    exact ⟨hmembers, Except.ok.inj h⟩
  · rintro ⟨hmembers, rfl⟩
    exact haccepted hmembers

/-- What a selector makes of the groups. -/
def selectGroups (representative : List UInt64 → UInt64) (groups : List DuplicateGroup) :
    List DuplicateGroup :=
  sortUnstable (groups.map fun group => ⟨representative group.members, group.members⟩)

/-- Grouping with a selector gives the same components, or fails for a selected key that is no
member. -/
theorem groupPairsWithRepresentative_spec {order : VisitOrder Nat (List UInt64)}
    {groups : List DuplicateGroup} (h : groupPairs order pairs minSize = some groups)
    (representative : List UInt64 → UInt64) :
    ∃ result, groupPairsWithRepresentative order pairs minSize representative = some result ∧
      ∀ selected, result = .ok selected ↔
        (∀ group ∈ groups, representative group.members ∈ group.members) ∧
        selectGroups representative groups = selected := by
  simp only [groupPairs, Option.bind_eq_bind, Option.bind_eq_some_iff] at h
  obtain ⟨stream, hstream, hgroups⟩ := h
  obtain ⟨components, hcomponents, hperm⟩ := exists_components hgroups
  refine ⟨(components.mapM (selectRepresentative representative)).map sortUnstable,
    by simp [groupPairsWithRepresentative, collectSelectedGroups, hstream, hcomponents], ?_⟩
  have hmembers : (∀ members ∈ components, representative members ∈ members) ↔
      ∀ group ∈ groups, representative group.members ∈ group.members := by
    constructor
    · exact fun hall group hgroup =>
        hall _ (hperm.mem_iff.mpr (List.mem_map_of_mem hgroup))
    · intro hall members hmem
      obtain ⟨group, hgroup, rfl⟩ := List.mem_map.mp (hperm.mem_iff.mp hmem)
      exact hall group hgroup
  have hsorted : sortUnstable (components.map fun members =>
      (⟨representative members, members⟩ : DuplicateGroup)) = selectGroups representative groups := by
    refine sortUnstable_eq_of_perm ((hperm.map _).trans ?_)
    rw [List.map_map]
    rfl
  intro selected
  cases hselected : components.mapM (selectRepresentative representative) with
  | error error =>
      constructor
      · intro hok
        cases hok
      · intro hall
        rw [mapM_selectRepresentative.mpr ⟨hmembers.mpr hall.1, rfl⟩] at hselected
        cases hselected
  | ok named =>
      obtain ⟨hall, rfl⟩ := mapM_selectRepresentative.mp hselected
      rw [Except.map, Except.ok.injEq, hsorted]
      exact ⟨fun heq => ⟨hmembers.mp hall, heq⟩, And.right⟩

/-- Grouping a stream returns the connected components of the minimum size, at least one, of
the graph of its pairs on the keys it mentions, in every order of the hash table. The groups
do not depend on the order, the direction and the repetitions of the pairs; selected
representatives are accepted exactly when they are members, and leave the components as they
are. -/
theorem groupPairs_exact (pairs : List (UInt64 × UInt64)) (minSize : Nat) :
    ∃ groups, IsGroups (Mentioned pairs) (EqvGen fun a b => (a, b) ∈ pairs) minSize groups ∧
      (∀ order, groupPairs order pairs minSize = some groups) ∧
      (∀ order others, SameEdges pairs others → groupPairs order others minSize = some groups) ∧
      ∀ order representative, ∃ result,
        groupPairsWithRepresentative order pairs minSize representative = some result ∧
        ((∀ group ∈ groups, representative group.members ∈ group.members) →
          result = .ok (selectGroups representative groups)) ∧
        ((∃ error, result = .error error) ↔
          ∃ group ∈ groups, representative group.members ∉ group.members) := by
  obtain ⟨groups, _, hresult⟩ := groupPairs_spec (VisitOrder.sorted _ _) pairs minSize
  have hsame : ∀ order others, SameEdges pairs others →
      groupPairs order others minSize = some groups := by
    intro order others hedges
    obtain ⟨found, hfound, hothers⟩ := groupPairs_spec order others minSize
    rw [hfound, hothers.unique (hresult.of_sameEdges hedges)]
  have hgroups : ∀ order, groupPairs order pairs minSize = some groups :=
    fun order => hsame order pairs fun _ _ => Iff.rfl
  refine ⟨groups, hresult, hgroups, hsame, fun order representative => ?_⟩
  obtain ⟨result, hrun, hselected⟩ :=
    groupPairsWithRepresentative_spec (hgroups order) representative
  refine ⟨result, hrun, fun hall => (hselected _).mpr ⟨hall, rfl⟩, ?_⟩
  constructor
  · rintro ⟨error, rfl⟩
    by_contra hall
    push Not at hall
    cases (hselected _).mpr ⟨hall, rfl⟩
  · rintro ⟨group, hgroup, hnot⟩
    cases result with
    | error error => exact ⟨error, rfl⟩
    | ok selected => exact absurd (((hselected selected).mp rfl).1 group hgroup) hnot

end Streams

end Pari.Index
