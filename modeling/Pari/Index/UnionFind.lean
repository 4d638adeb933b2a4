/-
# Union-find

Parent pointers and ranks in two lists. The loops of `find` carry as fuel the number
of nodes; running out of it, or an index outside the lists, is `none`. For nodes in
range neither happens, because the pointers form a forest.
-/

import Mathlib.Logic.Relation
import Pari.Data.Components
import Pari.Data.Forest

namespace Pari.Index

open Data Relation

structure UnionFind where
  parent : List Nat
  rank : List UInt8

namespace UnionFind

def withLen (length : Nat) : UnionFind where
  parent := List.range length
  rank := List.replicate length 0

def len (unionFind : UnionFind) : Nat := unionFind.parent.length

def push (unionFind : UnionFind) : UnionFind where
  parent := unionFind.parent ++ [unionFind.parent.length]
  rank := unionFind.rank ++ [0]

/-- The loop that follows parent pointers to a root. -/
def rootLoop (parent : List Nat) : Nat → Nat → Option Nat
  | 0, _ => none
  | fuel + 1, root =>
      match parent[root]? with
      | none => none
      | some next => if next = root then some root else rootLoop parent fuel next

/-- The loop that points every node of the path at the root. -/
def compressLoop (root : Nat) : Nat → Nat → List Nat → Option (List Nat)
  | 0, _, _ => none
  | fuel + 1, current, parent =>
      match parent[current]? with
      | none => none
      | some next =>
          if next = current then some parent
          else compressLoop root fuel next (parent.set current root)

def find (unionFind : UnionFind) (node : Nat) : Option (Nat × UnionFind) := do
  let root ← rootLoop unionFind.parent unionFind.len node
  let parent ← compressLoop root unionFind.len node unionFind.parent
  return (root, { unionFind with parent })

def connected (unionFind : UnionFind) (left right : Nat) : Option (Bool × UnionFind) := do
  let (leftRoot, unionFind) ← unionFind.find left
  let (rightRoot, unionFind) ← unionFind.find right
  return (leftRoot == rightRoot, unionFind)

/-- `rank.saturating_add(1)`. -/
def saturatingSucc (rank : UInt8) : UInt8 := if rank = 255 then 255 else rank + 1

/-- Point the root of smaller rank at the other, and raise the rank of the upper root of a
tie. -/
def link (unionFind : UnionFind) (leftRoot rightRoot : Nat) (leftRank rightRank : UInt8) :
    UnionFind :=
  if leftRank < rightRank then
    { unionFind with parent := unionFind.parent.set leftRoot rightRoot }
  else {
    parent := unionFind.parent.set rightRoot leftRoot
    rank := if leftRank = rightRank then unionFind.rank.set leftRoot (saturatingSucc leftRank)
      else unionFind.rank }

def union (unionFind : UnionFind) (left right : Nat) : Option UnionFind := do
  let (leftRoot, unionFind) ← unionFind.find left
  let (rightRoot, unionFind) ← unionFind.find right
  if leftRoot = rightRoot then return unionFind
  let leftRank ← unionFind.rank[leftRoot]?
  let rightRank ← unionFind.rank[rightRoot]?
  return unionFind.link leftRoot rightRoot leftRank rightRank

/-! ## The forest of a union-find -/

/-- The parent pointers as a function. -/
def parentOf (unionFind : UnionFind) (node : Nat) : Nat := unionFind.parent[node]?.getD node

/-- The root of a node. -/
def root (unionFind : UnionFind) (node : Nat) : Nat :=
  rootOf unionFind.len unionFind.parentOf node

/-- The pointers form a forest on the nodes, and every node has a rank. -/
structure WellFormed (unionFind : UnionFind) : Prop where
  forest : Forest unionFind.len unionFind.parentOf
  rank : unionFind.rank.length = unionFind.len

variable {unionFind : UnionFind} {node : Nat}

theorem getElem?_parent (h : node < unionFind.len) :
    unionFind.parent[node]? = some (unionFind.parentOf node) := by
  rw [parentOf, List.getElem?_eq_getElem h, Option.getD_some]

/-- Point one node at another. -/
def setParent (unionFind : UnionFind) (node target : Nat) : UnionFind :=
  { unionFind with parent := unionFind.parent.set node target }

@[simp]
theorem len_setParent (unionFind : UnionFind) (node target : Nat) :
    (unionFind.setParent node target).len = unionFind.len :=
  List.length_set

theorem parentOf_setParent {target : Nat} (h : node < unionFind.len) :
    (unionFind.setParent node target).parentOf =
      Function.update unionFind.parentOf node target := by
  funext other
  by_cases heq : other = node
  · rw [heq, Function.update_self, parentOf, setParent, List.getElem?_set_self h, Option.getD_some]
  · rw [Function.update_of_ne heq, parentOf, setParent, List.getElem?_set_ne (Ne.symm heq),
      parentOf]

/-- Pointing a node at its root keeps the forest and every root. -/
theorem setParent_root (h : unionFind.WellFormed) (hnode : node < unionFind.len) :
    (unionFind.setParent node (unionFind.root node)).WellFormed ∧
      ∀ other, other < unionFind.len →
        (unionFind.setParent node (unionFind.root node)).root other = unionFind.root other := by
  have hparent := @parentOf_setParent unionFind node (unionFind.root node) hnode
  refine ⟨⟨?_, ?_⟩, fun other hother => ?_⟩
  · rw [hparent, len_setParent]
    exact h.forest.compress hnode
  · rw [len_setParent]
    exact h.rank
  · rw [root, hparent, len_setParent]
    exact h.forest.rootOf_compress hnode other hother

/-- Pointing one root at another keeps the forest and merges exactly their trees. -/
theorem setParent_link (h : unionFind.WellFormed) {upper lower : Nat}
    (hupper : upper < unionFind.len) (hlower : lower < unionFind.len)
    (hupperRoot : unionFind.parentOf upper = upper)
    (hlowerRoot : unionFind.parentOf lower = lower) (hne : upper ≠ lower) :
    (unionFind.setParent lower upper).WellFormed ∧
      ∀ other, other < unionFind.len → (unionFind.setParent lower upper).root other =
        if unionFind.root other = lower then upper else unionFind.root other := by
  have hparent := @parentOf_setParent unionFind lower upper hlower
  refine ⟨⟨?_, ?_⟩, fun other hother => ?_⟩
  · rw [hparent, len_setParent]
    exact h.forest.link hupper hupperRoot hne
  · rw [len_setParent]
    exact h.rank
  · rw [root, hparent, len_setParent]
    exact h.forest.rootOf_link hupper hlower hupperRoot hlowerRoot hne other hother

/-- The root loop finds the root. -/
theorem rootLoop_eq_some (h : unionFind.WellFormed) {fuel k : Nat} (hnode : node < unionFind.len)
    (hk : k < fuel) (hlen : fuel ≤ unionFind.len)
    (hfixed : unionFind.parentOf (unionFind.parentOf^[k] node) = unionFind.parentOf^[k] node) :
    rootLoop unionFind.parent fuel node = some (unionFind.root node) := by
  induction fuel generalizing node k with
  | zero => omega
  | succ fuel ih =>
      rw [rootLoop, getElem?_parent hnode]
      dsimp only
      split
      · next hself => rw [root, Forest.rootOf_of_fixed hself]
      · next hne =>
          cases k with
          | zero => exact absurd hfixed hne
          | succ k =>
              rw [ih (h.forest.bounded node hnode) (Nat.lt_of_succ_lt_succ hk) (by omega) hfixed,
                root, root, h.forest.rootOf_parent hnode]

/-- The compression loop keeps the forest and every root. -/
theorem compressLoop_eq_some (h : unionFind.WellFormed) {fuel k : Nat}
    (hnode : node < unionFind.len) (hk : k < fuel)
    (hfixed : unionFind.parentOf (unionFind.parentOf^[k] node) = unionFind.parentOf^[k] node) :
    ∃ parent, compressLoop (unionFind.root node) fuel node unionFind.parent = some parent ∧
      WellFormed { unionFind with parent } ∧ parent.length = unionFind.len ∧
      ∀ other, other < unionFind.len →
        root { unionFind with parent } other = unionFind.root other := by
  induction fuel generalizing node k unionFind with
  | zero => omega
  | succ fuel ih =>
      rw [compressLoop, getElem?_parent hnode]
      dsimp only
      split
      · exact ⟨unionFind.parent, rfl, h, rfl, fun _ _ => rfl⟩
      · next hne =>
          cases k with
          | zero => exact absurd hfixed hne
          | succ k =>
              have hnext := h.forest.bounded node hnode
              obtain ⟨hwellFormed, hroots⟩ := setParent_root h hnode
              -- The path behind the node is the one it was, so it ends after `k` more steps.
              have hpath : (unionFind.setParent node (unionFind.root node)).parentOf^[k]
                  (unionFind.parentOf node) = unionFind.parentOf^[k] (unionFind.parentOf node) := by
                rw [parentOf_setParent hnode, h.forest.iterate_update hnode hne]
              have hend : (unionFind.setParent node (unionFind.root node)).parentOf
                  ((unionFind.setParent node (unionFind.root node)).parentOf^[k]
                    (unionFind.parentOf node)) =
                  (unionFind.setParent node (unionFind.root node)).parentOf^[k]
                    (unionFind.parentOf node) := by
                rw [hpath, parentOf_setParent hnode,
                  Function.update_of_ne (h.forest.iterate_ne hnode hne k)]
                exact hfixed
              obtain ⟨parent, hloop, hresult, hlength, hsame⟩ := ih hwellFormed
                (by rwa [len_setParent]) (Nat.lt_of_succ_lt_succ hk) hend
              rw [hroots _ hnext, root, h.forest.rootOf_parent hnode] at hloop
              refine ⟨parent, hloop, hresult, by rwa [len_setParent] at hlength, ?_⟩
              intro other hother
              exact (hsame other (by rwa [len_setParent])).trans (hroots other hother)

/-- `find` of a node in range returns its root and keeps every root. -/
theorem find_eq_some (h : unionFind.WellFormed) (hnode : node < unionFind.len) :
    ∃ result, unionFind.find node = some (unionFind.root node, result) ∧ result.WellFormed ∧
      result.len = unionFind.len ∧
      ∀ other, other < unionFind.len → result.root other = unionFind.root other := by
  obtain ⟨k, hk, hfixed⟩ := h.forest.exists_fixed hnode
  obtain ⟨parent, hcompress, hresult, hlength, hroots⟩ :=
    compressLoop_eq_some h hnode hk hfixed
  refine ⟨{ unionFind with parent }, ?_, hresult, hlength, hroots⟩
  rw [find, rootLoop_eq_some h hnode hk (le_refl _) hfixed]
  simp [hcompress]

/-! ## What a union-find tracks -/

/-- Two of the first `n` nodes have one root exactly when a chain of edges joins them. -/
structure Tracks (unionFind : UnionFind) (n : Nat) (edge : Nat → Nat → Prop) : Prop where
  wellFormed : unionFind.WellFormed
  len : unionFind.len = n
  joined : ∀ i j, i < n → j < n → (unionFind.root i = unionFind.root j ↔ EqvGen edge i j)

variable {n : Nat} {edge : Nat → Nat → Prop}

theorem Tracks.find (h : unionFind.Tracks n edge) (hnode : node < n) :
    ∃ result, unionFind.find node = some (unionFind.root node, result) ∧ result.Tracks n edge ∧
      ∀ other, other < n → result.root other = unionFind.root other := by
  obtain ⟨result, hfind, hresult, hlen, hroots⟩ :=
    find_eq_some h.wellFormed (hnode.trans_eq h.len.symm)
  rw [h.len] at hlen hroots
  refine ⟨result, hfind, ⟨hresult, hlen, ?_⟩, hroots⟩
  intro i j hi hj
  rw [hroots i hi, hroots j hj, h.joined i j hi hj]

theorem Tracks.connected (h : unionFind.Tracks n edge) {left right : Nat} (hleft : left < n)
    (hright : right < n) :
    ∃ answer result, unionFind.connected left right = some (answer, result) ∧
      (answer = true ↔ EqvGen edge left right) ∧ result.Tracks n edge := by
  obtain ⟨first, hfindLeft, hfirst, hrootsFirst⟩ := h.find hleft
  obtain ⟨second, hfindRight, hsecond, _⟩ := hfirst.find hright
  refine ⟨unionFind.root left == first.root right, second, ?_, ?_, hsecond⟩
  · simp [UnionFind.connected, hfindLeft, hfindRight]
  · rw [beq_iff_eq, hrootsFirst right hright, h.joined left right hleft hright]

/-- Linking two roots merges exactly their trees, whichever has the larger rank. -/
theorem link_spec (h : unionFind.WellFormed) {leftRoot rightRoot : Nat}
    (hleft : leftRoot < unionFind.len) (hright : rightRoot < unionFind.len)
    (hleftRoot : unionFind.parentOf leftRoot = leftRoot)
    (hrightRoot : unionFind.parentOf rightRoot = rightRoot) (hne : leftRoot ≠ rightRoot)
    (leftRank rightRank : UInt8) :
    (unionFind.link leftRoot rightRoot leftRank rightRank).WellFormed ∧
      (unionFind.link leftRoot rightRoot leftRank rightRank).len = unionFind.len ∧
      ∃ upper lower, (upper = leftRoot ∧ lower = rightRoot ∨ upper = rightRoot ∧ lower = leftRoot) ∧
        ∀ other, other < unionFind.len →
          (unionFind.link leftRoot rightRoot leftRank rightRank).root other =
            if unionFind.root other = lower then upper else unionFind.root other := by
  unfold link
  split
  · obtain ⟨hwellFormed, hroots⟩ :=
      setParent_link h hright hleft hrightRoot hleftRoot (Ne.symm hne)
    exact ⟨hwellFormed, List.length_set, rightRoot, leftRoot, Or.inr ⟨rfl, rfl⟩, hroots⟩
  · obtain ⟨hwellFormed, hroots⟩ := setParent_link h hleft hright hleftRoot hrightRoot hne
    refine ⟨⟨hwellFormed.forest, ?_⟩, List.length_set, leftRoot, rightRoot, Or.inl ⟨rfl, rfl⟩,
      hroots⟩
    have hrank := hwellFormed.rank
    split
    · rw [List.length_set]
      exact hrank
    · exact hrank

/-- Merging the trees of two nodes adds the edge between them. -/
theorem Tracks.of_merged (h : unionFind.Tracks n edge) {result : UnionFind} {left right : Nat}
    (hleft : left < n) (hright : right < n) (hresult : result.WellFormed)
    (hlen : result.len = unionFind.len) {upper lower : Nat}
    (hends : upper = unionFind.root left ∧ lower = unionFind.root right ∨
      upper = unionFind.root right ∧ lower = unionFind.root left)
    (hroots : ∀ other, other < unionFind.len → result.root other =
      if unionFind.root other = lower then upper else unionFind.root other) :
    result.Tracks n fun a b => edge a b ∨ a = left ∧ b = right := by
  refine ⟨hresult, hlen.trans h.len, ?_⟩
  intro i j hi hj
  rw [eqvGen_insert_iff, ← h.joined i j hi hj, ← h.joined i left hi hleft,
    ← h.joined right j hright hj, ← h.joined i right hi hright, ← h.joined left j hleft hj,
    hroots i (hi.trans_eq h.len.symm), hroots j (hj.trans_eq h.len.symm)]
  rcases hends with ⟨rfl, rfl⟩ | ⟨rfl, rfl⟩
  · grind
  · grind

/-- `union` of two nodes in range adds the edge between them. -/
theorem Tracks.union (h : unionFind.Tracks n edge) {left right : Nat} (hleft : left < n)
    (hright : right < n) :
    ∃ result, unionFind.union left right = some result ∧
      result.Tracks n fun a b => edge a b ∨ a = left ∧ b = right := by
  obtain ⟨first, hfindLeft, hfirst, hrootsFirst⟩ := h.find hleft
  obtain ⟨second, hfindRight, hsecond, hrootsSecond⟩ := hfirst.find hright
  have hroots : ∀ other, other < n → second.root other = unionFind.root other := by
    intro other hother
    rw [hrootsSecond other hother, hrootsFirst other hother]
  have hrightRoot : first.root right = unionFind.root right := hrootsFirst right hright
  have hrange : ∀ other, other < n → second.root other < second.len := by
    intro other hother
    exact hsecond.wellFormed.forest.rootOf_lt (hother.trans_eq hsecond.len.symm)
  have hfixed : ∀ other, other < n → second.parentOf (second.root other) = second.root other := by
    intro other hother
    exact hsecond.wellFormed.forest.parent_rootOf (hother.trans_eq hsecond.len.symm)
  by_cases hsame : unionFind.root left = unionFind.root right
  · refine ⟨second, ?_, hsecond.wellFormed, hsecond.len, ?_⟩
    · simp [UnionFind.union, hfindLeft, hfindRight, hrightRoot, hsame]
    · intro i j hi hj
      rw [eqvGen_insert_of_joined ((h.joined left right hleft hright).mp hsame)]
      exact hsecond.joined i j hi hj
  · have hleftRange := hrange left hleft
    have hrightRange := hrange right hright
    rw [hroots left hleft] at hleftRange
    rw [hroots right hright] at hrightRange
    have hrankLeft : unionFind.root left < second.rank.length := by
      rwa [hsecond.wellFormed.rank]
    have hrankRight : unionFind.root right < second.rank.length := by
      rwa [hsecond.wellFormed.rank]
    have hfixedLeft := hfixed left hleft
    have hfixedRight := hfixed right hright
    rw [hroots left hleft] at hfixedLeft
    rw [hroots right hright] at hfixedRight
    obtain ⟨hwellFormed, hlen, upper, lower, hends, hlinked⟩ := link_spec hsecond.wellFormed
      hleftRange hrightRange hfixedLeft hfixedRight hsame
      second.rank[unionFind.root left] second.rank[unionFind.root right]
    refine ⟨_, ?_, hsecond.of_merged hleft hright hwellFormed hlen ?_ hlinked⟩
    · simp [UnionFind.union, hfindLeft, hfindRight, hrightRoot, hsame, hrankLeft, hrankRight]
    · rw [hroots left hleft, hroots right hright]
      exact hends

/-- Every node of a new union-find is alone. -/
theorem tracks_withLen (n : Nat) : (withLen n).Tracks n fun _ _ => False := by
  have hparent : ∀ node, (withLen n).parentOf node = node := by
    intro node
    rw [parentOf, withLen]
    by_cases hlt : node < n
    · rw [List.getElem?_range hlt, Option.getD_some]
    · rw [List.getElem?_eq_none (by simpa using hlt), Option.getD_none]
  have hlen : (withLen n).len = n := List.length_range
  refine ⟨⟨⟨?_, fun _ => 0, ?_⟩, ?_⟩, hlen, ?_⟩
  · intro i hi
    rwa [hparent]
  · intro i _ hne
    exact absurd (hparent i) hne
  · rw [hlen, withLen, List.length_replicate]
  · intro i j hi hj
    rw [root, root, Forest.rootOf_of_fixed (hparent i), Forest.rootOf_of_fixed (hparent j)]
    constructor
    · rintro rfl
      exact .refl i
    · intro h
      rcases eqvGen_cases h with heq | ⟨⟨_, hedge⟩, _⟩
      · exact heq
      · exact absurd hedge (by simp)

/-- Pushing a node leaves the others as they are, and makes it a root. -/
theorem push_spec (h : unionFind.WellFormed) :
    unionFind.push.WellFormed ∧ unionFind.push.len = unionFind.len + 1 ∧
      (∀ node, node < unionFind.len → unionFind.push.parentOf node = unionFind.parentOf node ∧
        unionFind.push.root node = unionFind.root node) ∧
      unionFind.push.parentOf unionFind.len = unionFind.len := by
  have hlen : unionFind.push.len = unionFind.len + 1 := List.length_append
  have hold : ∀ node, node < unionFind.len →
      unionFind.push.parentOf node = unionFind.parentOf node := fun node hnode =>
    congrArg (·.getD node) (List.getElem?_append_left hnode)
  have hnew : unionFind.push.parentOf unionFind.len = unionFind.len :=
    congrArg (·.getD unionFind.len) List.getElem?_concat_length
  obtain ⟨hextended, hroots⟩ := h.forest.extend hold hnew
  refine ⟨⟨?_, ?_⟩, hlen, fun node hnode => ⟨hold node hnode, ?_⟩, hnew⟩
  · rwa [hlen]
  · rw [hlen, ← h.rank]
    exact List.length_append
  · rw [root, hlen, hroots node hnode, root]

/-- Pushing a node adds it alone, provided no edge mentions it. -/
theorem Tracks.push (h : unionFind.Tracks n edge) (hedge : ∀ i j, edge i j → i < n ∧ j < n) :
    unionFind.push.Tracks (n + 1) edge := by
  obtain ⟨hpushed, hlen, hold, hnew⟩ := push_spec h.wellFormed
  have hforest := h.wellFormed.forest
  rw [h.len] at hforest hlen hold hnew
  have hrootOld : ∀ node, node < n → unionFind.push.root node = unionFind.root node :=
    fun node hnode => (hold node hnode).2
  have hrootNew : unionFind.push.root n = n := Forest.rootOf_of_fixed hnew
  have hrootLt : ∀ node, node < n → unionFind.root node < n := by
    intro node hnode
    rw [root, h.len]
    exact hforest.rootOf_lt hnode
  refine ⟨hpushed, hlen, ?_⟩
  · intro i j hi hj
    -- The new node is alone on both sides: it is its own root, and no edge mentions it.
    have halone : ∀ node, node < n → ¬ EqvGen edge node n := by
      intro node hnode hjoined
      rcases eqvGen_cases hjoined with heq | ⟨_, other, hother⟩
      · omega
      · rcases hother with hother | hother
        · exact absurd (hedge _ _ hother).1 (lt_irrefl n)
        · exact absurd (hedge _ _ hother).2 (lt_irrefl n)
    rcases Nat.lt_succ_iff_lt_or_eq.mp hi with hi | rfl
    · rcases Nat.lt_succ_iff_lt_or_eq.mp hj with hj | rfl
      · rw [hrootOld i hi, hrootOld j hj, h.joined i j hi hj]
      · rw [hrootOld i hi, hrootNew]
        exact iff_of_false (hrootLt i hi).ne (halone i hi)
    · rcases Nat.lt_succ_iff_lt_or_eq.mp hj with hj | rfl
      · rw [hrootOld j hj, hrootNew]
        exact iff_of_false (hrootLt j hj).ne' fun hjoined => halone j hj hjoined.symm
      · exact iff_of_true rfl (.refl _)

/-- Only what the edges join matters. -/
theorem Tracks.congr (h : unionFind.Tracks n edge) {edge' : Nat → Nat → Prop}
    (hedge : ∀ i j, EqvGen edge i j ↔ EqvGen edge' i j) : unionFind.Tracks n edge' :=
  ⟨h.wellFormed, h.len, fun i j hi hj => (h.joined i j hi hj).trans (hedge i j)⟩

/-- A loop whose steps each add some edges adds the edges of all its items. -/
theorem Tracks.foldlM {ι : Type} {step : UnionFind → ι → Option UnionFind}
    {edges : ι → Nat → Nat → Prop} {items : List ι}
    (hstep : ∀ item ∈ items, ∀ (unionFind : UnionFind) (edge : Nat → Nat → Prop),
      unionFind.Tracks n edge → ∃ result, step unionFind item = some result ∧
        result.Tracks n fun a b => edge a b ∨ edges item a b)
    (h : unionFind.Tracks n edge) :
    ∃ result, items.foldlM step unionFind = some result ∧
      result.Tracks n fun a b => edge a b ∨ ∃ item ∈ items, edges item a b := by
  induction items generalizing unionFind edge with
  | nil => exact ⟨unionFind, rfl, h.congr (by simp)⟩
  | cons item items ih =>
      obtain ⟨next, hnext, htracks⟩ := hstep item List.mem_cons_self unionFind edge h
      obtain ⟨result, hresult, hall⟩ :=
        ih (fun other hother => hstep other (List.mem_cons_of_mem item hother)) htracks
      refine ⟨result, ?_, hall.congr (by simp [or_assoc])⟩
      rw [List.foldlM_cons, hnext]
      exact hresult

end UnionFind

end Pari.Index
