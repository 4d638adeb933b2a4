/-
# Tables of sets

A table that keeps, under every key, a set of members, and drops a key with its last member.
It represents a relation between keys and members; joining a member adds a pair to the
relation and leaving removes one. The number of memberships is the number of related pairs.
-/

import Pari.Data.Collections

namespace Data

universe u v

variable {κ : Type u} [LinearOrder κ] {ι : Type v} [LinearOrder ι]

/-- Sets of members under keys. -/
abbrev SetTable (κ : Type u) [Ord κ] (ι : Type v) [Ord ι] := OrderedMap κ (OrderedSet ι)

/-- `table.entry(key).or_default().insert(member)`. -/
def SetTable.join (table : SetTable κ ι) (key : κ) (member : ι) : SetTable κ ι :=
  table.alter key fun members => some ((members.getD ∅).insert member)

/-- `get_mut(key)`, `remove(member)`, and `remove(key)` when nothing is left. -/
def SetTable.leave (table : SetTable κ ι) (key : κ) (member : ι) : SetTable κ ι :=
  match table[key]? with
  | none => table
  | some members =>
      if (members.erase member).isEmpty then table.erase key
      else table.insert key (members.erase member)

/-- The members under a key, in order. -/
def SetTable.members (table : SetTable κ ι) (key : κ) : List ι :=
  (table[key]?).elim [] fun members => members.toList

/-- The members under a key are those related to it, and no key is kept without members. -/
structure SetTable.Represents (table : SetTable κ ι) (related : κ → ι → Prop) : Prop where
  mem_iff : ∀ (key : κ) (member : ι), member ∈ table[key]?.getD ∅ ↔ related key member
  nonempty : ∀ (key : κ) (members : OrderedSet ι), table[key]? = some members → members ≠ ∅

namespace SetTable.Represents

variable {table : SetTable κ ι} {related : κ → ι → Prop} {key : κ} {member : ι}

theorem empty : SetTable.Represents (∅ : SetTable κ ι) fun _ _ => False where
  mem_iff := by simp
  nonempty := by simp

theorem congr {other : κ → ι → Prop} (h : table.Represents related)
    (heq : ∀ key member, related key member ↔ other key member) : table.Represents other where
  mem_iff key member := (h.mem_iff key member).trans (heq key member)
  nonempty := h.nonempty

/-- The listed members are the related ones. -/
theorem mem_members_iff (h : table.Represents related) :
    member ∈ table.members key ↔ related key member := by
  rw [← h.mem_iff, members]
  cases table[key]? <;> simp

theorem ascending_members (table : SetTable κ ι) (key : κ) : Ascending (table.members key) := by
  rw [members]
  cases table[key]? with
  | none => exact List.Pairwise.nil
  | some members => exact ascending_toList

theorem join (h : table.Represents related) :
    (table.join key member).Represents fun other candidate =>
      related other candidate ∨ other = key ∧ candidate = member where
  mem_iff := by
    intro other candidate
    rw [SetTable.join, getElem?_alter]
    by_cases heq : key = other
    · subst heq
      rw [if_pos rfl, Option.getD_some, mem_insert_iff, h.mem_iff]
      simp [or_comm]
    · rw [if_neg heq, h.mem_iff]
      simp [Ne.symm heq]
  nonempty := by
    intro other members hmembers
    rw [SetTable.join, getElem?_alter] at hmembers
    split at hmembers
    · rintro rfl
      have hmem : member ∈ (table[key]?.getD ∅).insert member := mem_insert_iff.mpr (Or.inl rfl)
      rw [Option.some.inj hmembers] at hmem
      exact absurd hmem (by simp)
    · exact h.nonempty other members hmembers

/-- What a table holds after a member has left. -/
theorem mem_leave_iff (h : table.Represents related) {other : κ} {candidate : ι} :
    candidate ∈ (table.leave key member)[other]?.getD ∅ ↔
      related other candidate ∧ ¬(other = key ∧ candidate = member) := by
  have hentry : ∀ members, table[key]? = some members →
      (candidate ∈ members ↔ related key candidate) := by
    intro members hmembers
    rw [← h.mem_iff, hmembers, Option.getD_some]
  unfold SetTable.leave
  split
  · next hnone =>
      rw [h.mem_iff]
      refine ⟨fun hrelated => ⟨hrelated, ?_⟩, And.left⟩
      rintro ⟨rfl, rfl⟩
      rw [← h.mem_iff, hnone] at hrelated
      simp at hrelated
  · next members hmembers =>
      split
      · next hlast =>
          rw [getElem?_erase]
          by_cases heq : key = other
          · subst heq
            rw [if_pos rfl, Option.getD_none]
            have hgone : candidate ∉ members.erase member := by
              rw [Std.ExtTreeSet.isEmpty_iff.mp hlast]
              simp
            rw [mem_erase_iff, hentry members hmembers, not_and] at hgone
            simp only [Std.ExtTreeSet.not_mem_empty, true_and, false_iff, not_and, not_not]
            exact fun hrelated => by_contra fun hne => hgone hne hrelated
          · rw [if_neg heq, h.mem_iff]
            simp [Ne.symm heq]
      · rw [getElem?_insert]
        by_cases heq : key = other
        · subst heq
          rw [if_pos rfl, Option.getD_some, mem_erase_iff, hentry members hmembers]
          simp [and_comm]
        · rw [if_neg heq, h.mem_iff]
          simp [Ne.symm heq]

theorem leave (h : table.Represents related) :
    (table.leave key member).Represents fun other candidate =>
      related other candidate ∧ ¬(other = key ∧ candidate = member) where
  mem_iff _ _ := h.mem_leave_iff
  nonempty := by
    intro other members hmembers
    unfold SetTable.leave at hmembers
    split at hmembers
    · exact h.nonempty other members hmembers
    · next old hold =>
        split at hmembers
        · rw [getElem?_erase] at hmembers
          split at hmembers
          · cases hmembers
          · exact h.nonempty other members hmembers
        · next hkept =>
            rw [getElem?_insert] at hmembers
            split at hmembers
            · rw [← Option.some.inj hmembers]
              exact fun hempty => hkept (Std.ExtTreeSet.isEmpty_iff.mpr hempty)
            · exact h.nonempty other members hmembers

/-- Joining under several keys. -/
theorem joinAll (h : table.Represents related) (keys : List κ) :
    SetTable.Represents (keys.foldl (fun table key => SetTable.join table key member) table)
      fun other candidate => related other candidate ∨ other ∈ keys ∧ candidate = member := by
  induction keys generalizing table related with
  | nil => exact h.congr (by simp)
  | cons key keys ih =>
      refine (ih h.join).congr fun other candidate => ?_
      rw [List.mem_cons]
      constructor
      · rintro ((hold | ⟨rfl, rfl⟩) | ⟨hmem, rfl⟩)
        · exact Or.inl hold
        · exact Or.inr ⟨Or.inl rfl, rfl⟩
        · exact Or.inr ⟨Or.inr hmem, rfl⟩
      · rintro (hold | ⟨rfl | hmem, rfl⟩)
        · exact Or.inl (Or.inl hold)
        · exact Or.inl (Or.inr ⟨rfl, rfl⟩)
        · exact Or.inr ⟨hmem, rfl⟩

/-- Leaving from under several keys. -/
theorem leaveAll (h : table.Represents related) (keys : List κ) :
    SetTable.Represents (keys.foldl (fun table key => SetTable.leave table key member) table)
      fun other candidate => related other candidate ∧ ¬(other ∈ keys ∧ candidate = member) := by
  induction keys generalizing table related with
  | nil => exact h.congr (by simp)
  | cons key keys ih =>
      refine (ih h.leave).congr fun other candidate => ?_
      rw [List.mem_cons]
      constructor
      · rintro ⟨⟨hold, hfirst⟩, hrest⟩
        refine ⟨hold, ?_⟩
        rintro ⟨heq | hmem, hsame⟩
        · exact hfirst ⟨heq, hsame⟩
        · exact hrest ⟨hmem, hsame⟩
      · rintro ⟨hold, hnot⟩
        exact ⟨⟨hold, fun heq => hnot ⟨Or.inl heq.1, heq.2⟩⟩,
          fun hmem => hnot ⟨Or.inr hmem.1, hmem.2⟩⟩

end SetTable.Represents

/-! ## Counting memberships -/

/-- The pairs of a table, in order. -/
def SetTable.pairs (table : SetTable κ ι) : List (κ × ι) :=
  table.toList.flatMap fun entry => entry.2.toList.map (entry.1, ·)

theorem SetTable.length_pairs (table : SetTable κ ι) :
    table.pairs.length = (table.toList.map fun entry => entry.2.size).sum := by
  simp [SetTable.pairs, List.length_flatMap]

theorem SetTable.nodup_pairs (table : SetTable κ ι) : table.pairs.Nodup := by
  rw [SetTable.pairs, List.nodup_flatMap]
  constructor
  · intro entry _
    exact ascending_toList.nodup.map fun _ _ heq => congrArg Prod.snd heq
  · have hkeys : table.toList.Pairwise fun left right => left.1 < right.1 :=
      List.pairwise_map.mp ascending_keys
    refine hkeys.imp fun hlt => ?_
    refine List.disjoint_left.mpr ?_
    intro pair hleft hright
    obtain ⟨_, _, rfl⟩ := List.mem_map.mp hleft
    obtain ⟨_, _, heq⟩ := List.mem_map.mp hright
    exact absurd (congrArg Prod.fst heq) (ne_of_gt hlt)

theorem SetTable.Represents.mem_pairs_iff {table : SetTable κ ι} {related : κ → ι → Prop}
    (h : table.Represents related) {pair : κ × ι} :
    pair ∈ table.pairs ↔ related pair.1 pair.2 := by
  rw [← h.mem_iff, SetTable.pairs, List.mem_flatMap]
  constructor
  · rintro ⟨⟨key, members⟩, hentry, hmem⟩
    obtain ⟨member, hmember, rfl⟩ := List.mem_map.mp hmem
    rw [mem_toList_iff] at hentry
    rw [hentry, Option.getD_some]
    exact Std.ExtTreeSet.mem_toList.mp hmember
  · intro hmem
    cases hentry : table[pair.1]? with
    | none =>
        rw [hentry] at hmem
        simp at hmem
    | some members =>
        rw [hentry, Option.getD_some] at hmem
        exact ⟨(pair.1, members), mem_toList_iff.mpr hentry,
          List.mem_map.mpr ⟨pair.2, Std.ExtTreeSet.mem_toList.mpr hmem, rfl⟩⟩

end Data
