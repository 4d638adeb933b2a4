/-
# Merging sorted runs

A merge keeps the front record of every run in a priority queue. It takes the least entry out,
and puts the next record of the same run in its place. Merging sorted runs sorts all their
records, so the result does not depend on how the records were cut into runs.
-/

import Mathlib.Data.Prod.Lex
import Pari.Data.Ascending

namespace Data

universe u

/-! ## The queue -/

/-- The front record of a run, and the number of the run. -/
@[ext]
structure HeapEntry (α : Type u) where
  record : α
  run : Nat
  deriving DecidableEq, Repr

section Queue

variable {α : Type u} [LinearOrder α]

/-- Entries are ordered by record; the run breaks ties. -/
instance : LinearOrder (HeapEntry α) :=
  LinearOrder.lift' (fun entry => toLex (entry.record, entry.run)) fun left right h => by
    have hpair : (left.record, left.run) = (right.record, right.run) := toLex.injective h
    exact HeapEntry.ext (congrArg Prod.fst hpair) (congrArg Prod.snd hpair)

theorem HeapEntry.record_le {left right : HeapEntry α} (h : left ≤ right) :
    left.record ≤ right.record := by
  rcases Prod.Lex.le_iff.mp h with hlt | ⟨heq, _⟩
  · exact le_of_lt hlt
  · exact le_of_eq heq

/-- A binary heap, as what it returns: the entries in the order they are popped. -/
structure MinHeap (α : Type u) [LinearOrder α] where
  entries : List (HeapEntry α)
  ordered : entries.Pairwise (· ≤ ·)

namespace MinHeap

def empty : MinHeap α where
  entries := []
  ordered := List.Pairwise.nil

def push (heap : MinHeap α) (entry : HeapEntry α) : MinHeap α where
  entries := heap.entries.orderedInsert (· ≤ ·) entry
  ordered := heap.ordered.orderedInsert entry _

def pop (heap : MinHeap α) : Option (HeapEntry α × MinHeap α) :=
  match heap with
  | ⟨[], _⟩ => none
  | ⟨entry :: entries, h⟩ => some (entry, ⟨entries, h.of_cons⟩)

theorem push_perm (heap : MinHeap α) (entry : HeapEntry α) :
    (heap.push entry).entries.Perm (entry :: heap.entries) :=
  List.perm_orderedInsert _ _ _

theorem mem_push_iff {heap : MinHeap α} {entry other : HeapEntry α} :
    other ∈ (heap.push entry).entries ↔ other = entry ∨ other ∈ heap.entries := by
  rw [(heap.push_perm entry).mem_iff, List.mem_cons]

theorem pop_eq_none_iff {heap : MinHeap α} : heap.pop = none ↔ heap.entries = [] := by
  rcases heap with ⟨_ | ⟨entry, entries⟩, h⟩
  · exact ⟨fun _ => rfl, fun _ => rfl⟩
  · exact ⟨nofun, nofun⟩

theorem pop_eq_some_iff {heap rest : MinHeap α} {entry : HeapEntry α} :
    heap.pop = some (entry, rest) ↔ heap.entries = entry :: rest.entries := by
  rcases rest with ⟨rest, hrest⟩
  rcases heap with ⟨_ | ⟨first, entries⟩, h⟩
  · exact ⟨nofun, nofun⟩
  · simp [pop]

end MinHeap

end Queue

/-! ## The merge -/

section Merging

variable {α : Type u}

/-- What is left of a run. -/
def restOf (rests : List (List α)) (run : Nat) : List α := rests[run]?.getD []

theorem perm_of_restOf {rests : List (List α)} {run : Nat} {next : α} {rest : List α}
    (h : restOf rests run = next :: rest) :
    rests.flatten.Perm (next :: (rests.set run rest).flatten) := by
  induction rests generalizing run with
  | nil => cases h
  | cons first rests ih =>
      cases run with
      | zero =>
          obtain rfl : first = next :: rest := h
          exact List.Perm.refl _
      | succ run =>
          have hperm := ih h
          rw [List.set_cons_succ, List.flatten_cons, List.flatten_cons]
          exact (hperm.append_left first).trans List.perm_middle

theorem restOf_set {rests : List (List α)} {run other : Nat} {rest : List α}
    (h : restOf rests run ≠ []) :
    restOf (rests.set run rest) other = if other = run then rest else restOf rests other := by
  have hlt : run < rests.length := by
    by_contra hge
    rw [restOf, List.getElem?_eq_none (not_lt.mp hge)] at h
    exact h rfl
  rw [restOf, List.getElem?_set]
  by_cases heq : run = other
  · simp [heq.symm, hlt]
  · rw [if_neg heq, if_neg (Ne.symm heq)]
    rfl

variable [LinearOrder α]

/-- The merge loop: the queue of the fronts, and what follows the front of every run. -/
def mergeFronts (heap : MinHeap α) (rests : List (List α)) : List α :=
  match hpop : heap.pop with
  | none => []
  | some (entry, heap') =>
      match hrest : restOf rests entry.run with
      | [] => entry.record :: mergeFronts heap' rests
      | next :: rest =>
          entry.record ::
            mergeFronts (heap'.push ⟨next, entry.run⟩) (rests.set entry.run rest)
termination_by heap.entries.length + rests.flatten.length
decreasing_by
  · rw [MinHeap.pop_eq_some_iff.mp hpop, List.length_cons]
    omega
  · have hrests := (perm_of_restOf hrest).length_eq
    have hpush := (heap'.push_perm ⟨next, entry.run⟩).length_eq
    rw [List.length_cons] at hrests hpush
    rw [MinHeap.pop_eq_some_iff.mp hpop, List.length_cons]
    omega

/-- Push the front of every run that has one, numbering the runs from `index` on. -/
def pushFronts (heap : MinHeap α) : Nat → List (List α) → MinHeap α
  | _, [] => heap
  | index, [] :: runs => pushFronts heap (index + 1) runs
  | index, (record :: _) :: runs => pushFronts (heap.push ⟨record, index⟩) (index + 1) runs

/-- The merge of some runs. -/
def mergeRuns (runs : List (List α)) : List α :=
  mergeFronts (pushFronts .empty 0 runs) (runs.map List.tail)

/-- Every run is sorted behind a front that is in the queue. -/
def FrontsQueued (heap : MinHeap α) (rests : List (List α)) : Prop :=
  ∀ run, restOf rests run ≠ [] →
    ∃ entry ∈ heap.entries, entry.run = run ∧ (entry.record :: restOf rests run).Pairwise (· ≤ ·)

/-- The records of the queue and of the runs. -/
def pending (heap : MinHeap α) (rests : List (List α)) : List α :=
  heap.entries.map HeapEntry.record ++ rests.flatten

/-- If nothing is queued, nothing is left. -/
theorem FrontsQueued.flatten_eq_nil {heap : MinHeap α} {rests : List (List α)}
    (h : FrontsQueued heap rests) (hempty : heap.entries = []) : rests.flatten = [] := by
  rw [List.flatten_eq_nil_iff]
  intro rest hmem
  obtain ⟨run, hrun⟩ := List.mem_iff_getElem?.mp hmem
  have hrest : restOf rests run = rest := by rw [restOf, hrun, Option.getD_some]
  by_contra hne
  obtain ⟨entry, hentry, _⟩ := h run (hrest ▸ hne)
  rw [hempty] at hentry
  cases hentry

/-- The front of the queue is the least record of all. -/
theorem FrontsQueued.le_pending {heap heap' : MinHeap α} {rests : List (List α)}
    {entry : HeapEntry α} (h : FrontsQueued heap rests) (hpop : heap.pop = some (entry, heap')) :
    ∀ record ∈ pending heap rests, entry.record ≤ record := by
  have hentries := MinHeap.pop_eq_some_iff.mp hpop
  have hleast : ∀ other ∈ heap.entries, entry.record ≤ other.record := by
    intro other hother
    have hordered := heap.ordered
    rw [hentries] at hother hordered
    rcases List.mem_cons.mp hother with rfl | hother
    · exact le_refl _
    · exact HeapEntry.record_le (List.rel_of_pairwise_cons hordered hother)
  intro record hrecord
  rcases List.mem_append.mp hrecord with hqueued | hleft
  · obtain ⟨other, hother, rfl⟩ := List.mem_map.mp hqueued
    exact hleast other hother
  · obtain ⟨rest, hrest, hmem⟩ := List.mem_flatten.mp hleft
    obtain ⟨run, hrun⟩ := List.mem_iff_getElem?.mp hrest
    have hrestOf : restOf rests run = rest := by rw [restOf, hrun, Option.getD_some]
    obtain ⟨front, hfront, _, hsorted⟩ := h run (hrestOf ▸ List.ne_nil_of_mem hmem)
    rw [hrestOf] at hsorted
    exact (hleast front hfront).trans (List.rel_of_pairwise_cons hsorted hmem)

/-- Popping a front whose run is used up. -/
theorem FrontsQueued.of_empty {heap heap' : MinHeap α} {rests : List (List α)}
    {entry : HeapEntry α} (h : FrontsQueued heap rests) (hpop : heap.pop = some (entry, heap'))
    (hrest : restOf rests entry.run = []) : FrontsQueued heap' rests := by
  intro run hne
  obtain ⟨front, hfront, hrun, hsorted⟩ := h run hne
  rw [MinHeap.pop_eq_some_iff.mp hpop] at hfront
  rcases List.mem_cons.mp hfront with rfl | hfront
  · rw [← hrun] at hne
    exact absurd hrest hne
  · exact ⟨front, hfront, hrun, hsorted⟩

/-- Popping a front and pushing the next record of its run. -/
theorem FrontsQueued.of_next {heap heap' : MinHeap α} {rests : List (List α)}
    {entry : HeapEntry α} {next : α} {rest : List α} (h : FrontsQueued heap rests)
    (hpop : heap.pop = some (entry, heap')) (hrest : restOf rests entry.run = next :: rest) :
    FrontsQueued (heap'.push ⟨next, entry.run⟩) (rests.set entry.run rest) := by
  have hne : restOf rests entry.run ≠ [] := by
    rw [hrest]
    exact List.cons_ne_nil _ _
  intro run hrun
  rw [restOf_set hne] at hrun ⊢
  by_cases heq : run = entry.run
  · rw [if_pos heq] at hrun ⊢
    obtain ⟨_, _, _, hsorted⟩ := h entry.run hne
    rw [hrest] at hsorted
    exact ⟨_, MinHeap.mem_push_iff.mpr (Or.inl rfl), heq.symm, hsorted.of_cons⟩
  · rw [if_neg heq] at hrun ⊢
    obtain ⟨front, hfront, hfrontRun, hsorted⟩ := h run hrun
    rw [MinHeap.pop_eq_some_iff.mp hpop] at hfront
    rcases List.mem_cons.mp hfront with rfl | hfront
    · exact absurd hfrontRun.symm heq
    · exact ⟨front, MinHeap.mem_push_iff.mpr (Or.inr hfront), hfrontRun, hsorted⟩

theorem mergeFronts_of_none {heap : MinHeap α} {rests : List (List α)} (hpop : heap.pop = none) :
    mergeFronts heap rests = [] := by
  rw [mergeFronts]
  split
  · rfl
  · next hsome => cases hpop.symm.trans hsome

theorem mergeFronts_of_last {heap heap' : MinHeap α} {rests : List (List α)}
    {entry : HeapEntry α} (hpop : heap.pop = some (entry, heap'))
    (hrest : restOf rests entry.run = []) :
    mergeFronts heap rests = entry.record :: mergeFronts heap' rests := by
  rw [mergeFronts]
  split
  · next hnone => cases hpop.symm.trans hnone
  · next hsome =>
      cases hpop.symm.trans hsome
      split
      · rfl
      · next hnext => cases hrest.symm.trans hnext

theorem mergeFronts_of_next {heap heap' : MinHeap α} {rests : List (List α)}
    {entry : HeapEntry α} {next : α} {rest : List α} (hpop : heap.pop = some (entry, heap'))
    (hrest : restOf rests entry.run = next :: rest) :
    mergeFronts heap rests =
      entry.record :: mergeFronts (heap'.push ⟨next, entry.run⟩) (rests.set entry.run rest) := by
  rw [mergeFronts]
  split
  · next hnone => cases hpop.symm.trans hnone
  · next hsome =>
      cases hpop.symm.trans hsome
      split
      · next hnil => cases hrest.symm.trans hnil
      · next hnext =>
          cases hrest.symm.trans hnext
          rfl

/-- The records before a pop are the one popped and those after it. -/
theorem pending_of_pop {heap heap' : MinHeap α} {rests : List (List α)} {entry : HeapEntry α}
    (hpop : heap.pop = some (entry, heap')) :
    pending heap rests = entry.record :: pending heap' rests := by
  rw [pending, MinHeap.pop_eq_some_iff.mp hpop]
  rfl

theorem pending_of_next {heap : MinHeap α} {rests : List (List α)} {run : Nat} {next : α}
    {rest : List α} (hrest : restOf rests run = next :: rest) :
    (pending (heap.push ⟨next, run⟩) (rests.set run rest)).Perm (pending heap rests) := by
  have hpush := (heap.push_perm ⟨next, run⟩).map HeapEntry.record
  calc (pending (heap.push ⟨next, run⟩) (rests.set run rest)).Perm
        (next :: heap.entries.map HeapEntry.record ++ (rests.set run rest).flatten) :=
          hpush.append_right _
    _ |>.Perm (heap.entries.map HeapEntry.record ++ (next :: (rests.set run rest).flatten)) :=
          List.perm_middle.symm
    _ |>.Perm (pending heap rests) := (perm_of_restOf hrest).symm.append_left _

/-- The merge loop returns what is pending, in order. -/
theorem mergeFronts_spec {heap : MinHeap α} {rests : List (List α)} (h : FrontsQueued heap rests) :
    (mergeFronts heap rests).Perm (pending heap rests) ∧
      (mergeFronts heap rests).Pairwise (· ≤ ·) := by
  -- A popped front is in front of whatever the rest of the loop returns.
  have hcons : ∀ {heap heap' : MinHeap α} {rests : List (List α)} {entry : HeapEntry α}
      {tail : List α}, FrontsQueued heap rests → heap.pop = some (entry, heap') →
      tail.Perm (pending heap' rests) → tail.Pairwise (· ≤ ·) →
      (entry.record :: tail).Perm (pending heap rests) ∧
        (entry.record :: tail).Pairwise (· ≤ ·) := by
    intro heap heap' rests entry tail hqueued hpop hperm hsorted
    have hpending := @pending_of_pop _ _ _ _ rests _ hpop
    refine ⟨hpending ▸ hperm.cons _, List.pairwise_cons.mpr ⟨fun record hrecord => ?_, hsorted⟩⟩
    apply hqueued.le_pending hpop
    rw [hpending]
    exact List.mem_cons_of_mem _ (hperm.mem_iff.mp hrecord)
  induction heap, rests using mergeFronts.induct with
  | case1 heap rests hpop =>
      have hempty := MinHeap.pop_eq_none_iff.mp hpop
      rw [mergeFronts_of_none hpop, pending, hempty, h.flatten_eq_nil hempty]
      exact ⟨List.Perm.refl _, List.Pairwise.nil⟩
  | case2 heap rests entry heap' hpop hrest ih =>
      obtain ⟨hperm, hsorted⟩ := ih (h.of_empty hpop hrest)
      rw [mergeFronts_of_last hpop hrest]
      exact hcons h hpop hperm hsorted
  | case3 heap rests entry heap' hpop next rest hrest ih =>
      obtain ⟨hperm, hsorted⟩ := ih (h.of_next hpop hrest)
      rw [mergeFronts_of_next hpop hrest]
      exact hcons h hpop (hperm.trans (pending_of_next hrest)) hsorted

theorem mem_pushFronts_of_mem {heap : MinHeap α} {index : Nat} {runs : List (List α)}
    {entry : HeapEntry α} (h : entry ∈ heap.entries) :
    entry ∈ (pushFronts heap index runs).entries := by
  induction runs generalizing heap index with
  | nil => exact h
  | cons run runs ih =>
      cases run with
      | nil => exact ih h
      | cons record rest => exact ih (MinHeap.mem_push_iff.mpr (Or.inr h))

/-- The front of a run is queued under the number of the run. -/
theorem front_mem_pushFronts {heap : MinHeap α} {index offset : Nat} {runs : List (List α)}
    {record : α} {rest : List α} (h : runs[offset]? = some (record :: rest)) :
    ⟨record, index + offset⟩ ∈ (pushFronts heap index runs).entries := by
  induction runs generalizing heap index offset with
  | nil => cases h
  | cons run runs ih =>
      cases offset with
      | zero =>
          obtain rfl : run = record :: rest := Option.some.inj h
          show _ ∈ (pushFronts (heap.push ⟨record, index⟩) (index + 1) runs).entries
          exact mem_pushFronts_of_mem (MinHeap.mem_push_iff.mpr (Or.inl rfl))
      | succ offset =>
          have hnext : index + (offset + 1) = index + 1 + offset := by omega
          rw [hnext]
          cases run with
          | nil => exact ih h
          | cons first others => exact ih h

theorem pushFronts_perm {heap : MinHeap α} {index : Nat} {runs : List (List α)} :
    (pending (pushFronts heap index runs) (runs.map List.tail)).Perm
      (heap.entries.map HeapEntry.record ++ runs.flatten) := by
  induction runs generalizing heap index with
  | nil => exact List.Perm.refl _
  | cons run runs ih =>
      cases run with
      | nil => exact ih
      | cons record rest =>
          have hrest := @ih (heap.push ⟨record, index⟩) (index + 1)
          have hpush := (heap.push_perm ⟨record, index⟩).map HeapEntry.record
          rw [pending] at hrest
          calc (pending (pushFronts (heap.push ⟨record, index⟩) (index + 1) runs)
                (rest :: runs.map List.tail)).Perm
                (rest ++ ((pushFronts (heap.push ⟨record, index⟩) (index + 1) runs).entries.map
                  HeapEntry.record ++ (runs.map List.tail).flatten)) := by
                rw [pending, List.flatten_cons]
                exact List.perm_append_comm_assoc _ _ _
            _ |>.Perm (rest ++ ((heap.push ⟨record, index⟩).entries.map HeapEntry.record ++
                  runs.flatten)) := hrest.append_left rest
            _ |>.Perm (rest ++ (record :: heap.entries.map HeapEntry.record ++ runs.flatten)) :=
                (hpush.append_right _).append_left rest
            _ |>.Perm (heap.entries.map HeapEntry.record ++ (record :: rest ++ runs.flatten)) := by
                grind

/-- Merging sorted runs sorts their records. -/
theorem mergeRuns_eq_sortUnstable {runs : List (List α)}
    (h : ∀ run ∈ runs, run.Pairwise (· ≤ ·)) : mergeRuns runs = sortUnstable runs.flatten := by
  have hqueued : FrontsQueued (pushFronts .empty 0 runs) (runs.map List.tail) := by
    intro run hne
    rw [restOf, List.getElem?_map] at hne ⊢
    cases hrun : runs[run]? with
    | none =>
        rw [hrun] at hne
        exact absurd rfl hne
    | some whole =>
        rw [hrun] at hne
        cases whole with
        | nil => exact absurd rfl hne
        | cons record rest =>
            refine ⟨⟨record, run⟩, ?_, rfl, h _ (List.mem_of_getElem? hrun)⟩
            have hfront := @front_mem_pushFronts _ _ .empty 0 run runs record rest hrun
            rwa [Nat.zero_add] at hfront
  obtain ⟨hperm, hsorted⟩ := mergeFronts_spec hqueued
  exact eq_sortUnstable hsorted (hperm.trans pushFronts_perm)

end Merging

end Data
