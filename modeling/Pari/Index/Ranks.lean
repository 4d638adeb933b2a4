/-
# Ranks in a union-find

The rank of a node rises along every pointer that is not a self loop, and a tree whose root has
rank `r` has at least `2 ^ r` nodes. Compression points nodes higher in their own tree, so it keeps
both; a link makes the root of no smaller rank the upper one. Ranks are therefore far below what a
byte can hold, and no run of calls ever saturates one.
-/

import Mathlib.Data.Finset.Card
import Mathlib.Data.Nat.Log
import Pari.Index.UnionFind

namespace Pari.Index

open Data Relation

namespace UnionFind

def rankOf (unionFind : UnionFind) (node : Nat) : Nat := (unionFind.rank[node]?.getD 0).toNat

/-- The nodes below a root. -/
def tree (unionFind : UnionFind) (root : Nat) : Finset Nat :=
  (Finset.range unionFind.len).filter fun node => unionFind.root node = root

/-- Ranks rise towards the roots, and bound the sizes of the trees from below. -/
structure Ranked (unionFind : UnionFind) : Prop where
  wellFormed : unionFind.WellFormed
  rises : ∀ node, node < unionFind.len → unionFind.parentOf node ≠ node →
    unionFind.rankOf node < unionFind.rankOf (unionFind.parentOf node)
  size : ∀ node, node < unionFind.len → unionFind.parentOf node = node →
    2 ^ unionFind.rankOf node ≤ (unionFind.tree node).card

variable {unionFind result : UnionFind} {node : Nat}

theorem mem_tree_iff {root : Nat} :
    node ∈ unionFind.tree root ↔ node < unionFind.len ∧ unionFind.root node = root := by
  rw [tree, Finset.mem_filter, Finset.mem_range]

/-- A node is its own root exactly if it points at itself. -/
theorem root_eq_self_iff (h : unionFind.WellFormed) (hnode : node < unionFind.len) :
    unionFind.root node = node ↔ unionFind.parentOf node = node := by
  constructor
  · intro hroot
    have hfixed := h.forest.parent_rootOf hnode
    rw [root] at hroot
    rwa [hroot] at hfixed
  · exact Forest.rootOf_of_fixed

/-- No rank is larger than that of the root. -/
theorem Ranked.rankOf_le_root (h : unionFind.Ranked) (hnode : node < unionFind.len) :
    unionFind.rankOf node ≤ unionFind.rankOf (unionFind.root node) := by
  by_cases hself : unionFind.root node = node
  · rw [hself]
  · exact (h.wellFormed.forest.height_lt_root h.rises node hnode hself).le

/-- Ranks are at most the logarithm of the number of nodes. -/
theorem Ranked.rankOf_lt (h : unionFind.Ranked) {bits : Nat} (hlen : unionFind.len < 2 ^ bits)
    (hnode : node < unionFind.len) : unionFind.rankOf node < bits := by
  have hroot := h.wellFormed.forest.rootOf_lt hnode
  have hsize := h.size _ hroot (h.wellFormed.forest.parent_rootOf hnode)
  have hcard : (unionFind.tree (unionFind.root node)).card ≤ unionFind.len := by
    have hfilter := Finset.card_filter_le (Finset.range unionFind.len)
      fun other => unionFind.root other = unionFind.root node
    rwa [Finset.card_range] at hfilter
  have hpow : 2 ^ unionFind.rankOf (unionFind.root node) < 2 ^ bits :=
    lt_of_le_of_lt (hsize.trans hcard) hlen
  exact lt_of_le_of_lt (h.rankOf_le_root hnode) ((Nat.pow_lt_pow_iff_right (by decide)).mp hpow)

/-! ## Compression -/

/-- The compression loop changes no pointer but to the root. -/
theorem compressLoop_pointers {root fuel current : Nat} {parent compressed : List Nat}
    (h : compressLoop root fuel current parent = some compressed) (i : Nat) :
    compressed[i]? = parent[i]? ∨ compressed[i]? = some root := by
  induction fuel generalizing current parent with
  | zero => cases h
  | succ fuel ih =>
      rw [compressLoop] at h
      cases hnext : parent[current]? with
      | none =>
          rw [hnext] at h
          cases h
      | some next =>
          rw [hnext] at h
          dsimp only at h
          by_cases hself : next = current
          · rw [if_pos hself, Option.some_inj] at h
            exact Or.inl (congrArg (·[i]?) h.symm)
          · rw [if_neg hself] at h
            rcases ih h with hsame | hroot
            · have hlt : current < parent.length := (List.getElem?_eq_some_iff.mp hnext).1
              by_cases heq : current = i
              · subst heq
                rw [List.getElem?_set_self hlt] at hsame
                exact Or.inr hsame
              · rw [List.getElem?_set_ne heq] at hsame
                exact Or.inl hsame
            · exact Or.inr hroot

/-- `find` keeps the ranks, and changes no pointer but to the root it returns. -/
theorem rank_of_find {root : Nat} (h : unionFind.find node = some (root, result)) :
    result.rank = unionFind.rank ∧
      ∀ i : Nat, result.parent[i]? = unionFind.parent[i]? ∨ result.parent[i]? = some root := by
  simp only [find, Option.bind_eq_bind, Option.bind_eq_some_iff, Option.pure_def,
    Option.some_inj, Prod.mk.injEq] at h
  obtain ⟨_, _, parent, hcompress, rfl, rfl⟩ := h
  exact ⟨rfl, compressLoop_pointers hcompress⟩

/-- Pointing nodes at their roots keeps the ranks in order. -/
theorem Ranked.of_compressed (h : unionFind.Ranked) (hresult : result.WellFormed)
    (hlen : result.len = unionFind.len) (hrank : result.rank = unionFind.rank)
    (hroots : ∀ other, other < unionFind.len → result.root other = unionFind.root other)
    (hpointers : ∀ other, other < unionFind.len → result.parentOf other = unionFind.parentOf other ∨
      result.parentOf other = unionFind.root other) : result.Ranked where
  wellFormed := hresult
  rises := by
    intro other hother hne
    rw [hlen] at hother
    have hsame : ∀ node, result.rankOf node = unionFind.rankOf node := fun node => by
      rw [rankOf, rankOf, hrank]
    rw [hsame, hsame]
    rcases hpointers other hother with heq | heq
    · rw [heq] at hne ⊢
      exact h.rises other hother hne
    · rw [heq] at hne ⊢
      exact h.wellFormed.forest.height_lt_root h.rises other hother hne
  size := by
    intro other hother hself
    have hrootSelf := (root_eq_self_iff hresult hother).mpr hself
    rw [hlen] at hother
    rw [hroots other hother, root_eq_self_iff h.wellFormed hother] at hrootSelf
    have htree : result.tree other = unionFind.tree other := by
      ext node
      rw [mem_tree_iff, mem_tree_iff, hlen]
      exact and_congr_right fun hnode => by rw [hroots node hnode]
    rw [htree, rankOf, hrank]
    exact h.size other hother hrootSelf

/-- `find` returns the root, keeps every root, and keeps the ranks in order. -/
theorem Ranked.find (h : unionFind.Ranked) (hnode : node < unionFind.len) :
    ∃ result, unionFind.find node = some (unionFind.root node, result) ∧ result.Ranked ∧
      result.len = unionFind.len ∧ result.rank = unionFind.rank ∧
      ∀ other, other < unionFind.len → result.root other = unionFind.root other := by
  obtain ⟨result, hfind, hresult, hlen, hroots⟩ := find_eq_some h.wellFormed hnode
  obtain ⟨hrank, hpointers⟩ := rank_of_find hfind
  refine ⟨result, hfind, h.of_compressed hresult hlen hrank hroots ?_, hlen, hrank, hroots⟩
  intro other hother
  rcases hpointers other with hsame | hmoved
  · exact Or.inl (congrArg (·.getD other) hsame)
  · -- A node that was moved was below the root it points at now.
    have hparent : result.parentOf other = unionFind.root node := by
      rw [parentOf, hmoved, Option.getD_some]
    have hroot := hresult.forest.rootOf_parent (hother.trans_eq hlen.symm)
    rw [hparent] at hroot
    have hbelow : result.root other = result.root (unionFind.root node) := hroot.symm
    have hkept := hroots (unionFind.root node) (h.wellFormed.forest.rootOf_lt hnode)
    have hidempotent : unionFind.root (unionFind.root node) = unionFind.root node :=
      h.wellFormed.forest.rootOf_rootOf hnode
    refine Or.inr ?_
    rw [hparent, ← hroots other hother, hbelow, hkept, hidempotent]

/-! ## New nodes and links -/

/-- A new node is alone, with rank zero. -/
theorem Ranked.push (h : unionFind.Ranked) : unionFind.push.Ranked := by
  obtain ⟨hpushed, hlen, hold, hnew⟩ := push_spec h.wellFormed
  have hrankOld : ∀ other, other < unionFind.len →
      unionFind.push.rankOf other = unionFind.rankOf other := by
    intro other hother
    have hlt : other < unionFind.rank.length := hother.trans_eq h.wellFormed.rank.symm
    exact congrArg (fun rank => (rank.getD 0).toNat) (List.getElem?_append_left hlt)
  have hrankNew : unionFind.push.rankOf unionFind.len = 0 := by
    have hlast : unionFind.push.rank[unionFind.len]? = some 0 := by
      rw [← h.wellFormed.rank]
      exact List.getElem?_concat_length
    rw [rankOf, hlast]
    rfl
  refine ⟨hpushed, ?_, ?_⟩
  · intro other hother hne
    rcases Nat.lt_succ_iff_lt_or_eq.mp (hother.trans_eq hlen) with hlt | rfl
    · rw [(hold other hlt).1] at hne ⊢
      rw [hrankOld other hlt, hrankOld _ (h.wellFormed.forest.bounded other hlt)]
      exact h.rises other hlt hne
    · exact absurd hnew hne
  · intro other hother hself
    rcases Nat.lt_succ_iff_lt_or_eq.mp (hother.trans_eq hlen) with hlt | rfl
    · rw [(hold other hlt).1] at hself
      rw [hrankOld other hlt]
      refine (h.size other hlt hself).trans (Finset.card_le_card fun node hnode => ?_)
      rw [mem_tree_iff] at hnode ⊢
      rw [hlen, (hold node hnode.1).2]
      exact ⟨hnode.1.trans (Nat.lt_succ_self _), hnode.2⟩
    · rw [hrankNew, pow_zero, Nat.one_le_iff_ne_zero, Finset.card_ne_zero]
      exact ⟨_, mem_tree_iff.mpr ⟨hother, (root_eq_self_iff hpushed hother).mpr hself⟩⟩

section Links

variable {upper lower rank : Nat}

/-- Pointing a root at another keeps the ranks in order, if the rank the upper one gets is above
that of the lower one and no larger than the merged tree allows. -/
theorem Ranked.of_link (h : unionFind.Ranked) (hupper : upper < unionFind.len)
    (hlower : lower < unionFind.len) (hupperRoot : unionFind.parentOf upper = upper)
    (hlowerRoot : unionFind.parentOf lower = lower) (hne : upper ≠ lower)
    (hresult : result.WellFormed) (hlen : result.len = unionFind.len)
    (hparent : result.parentOf = Function.update unionFind.parentOf lower upper)
    (hroots : ∀ other, other < unionFind.len → result.root other =
      if unionFind.root other = lower then upper else unionFind.root other)
    (hrank : result.rankOf = Function.update unionFind.rankOf upper rank)
    (hkeeps : unionFind.rankOf upper ≤ rank) (habove : unionFind.rankOf lower < rank)
    (hallows : 2 ^ rank ≤ 2 ^ unionFind.rankOf upper + 2 ^ unionFind.rankOf lower) :
    result.Ranked := by
  have hlowerKept : result.rankOf lower = unionFind.rankOf lower := by
    rw [hrank, Function.update_of_ne hne.symm]
  have hgrows : ∀ other, unionFind.rankOf other ≤ result.rankOf other := by
    intro other
    by_cases heq : other = upper
    · rw [heq, hrank, Function.update_self]
      exact hkeeps
    · rw [hrank, Function.update_of_ne heq]
  refine ⟨hresult, ?_, ?_⟩
  · intro other hother hmoved
    rw [hlen] at hother
    by_cases heq : other = lower
    · rw [heq, hlowerKept, hparent, Function.update_self, hrank, Function.update_self]
      exact habove
    · rw [hparent, Function.update_of_ne heq] at hmoved ⊢
      have hnotUpper : other ≠ upper := by
        rintro rfl
        exact hmoved hupperRoot
      have hrise := h.rises other hother hmoved
      rw [hrank, Function.update_of_ne hnotUpper, ← hrank]
      exact hrise.trans_le (hgrows _)
  · intro other hother hself
    rw [hlen] at hother
    have hnotLower : other ≠ lower := by
      rintro rfl
      rw [hparent, Function.update_self] at hself
      exact hne hself
    rw [hparent, Function.update_of_ne hnotLower] at hself
    by_cases heq : other = upper
    · -- The merged tree is the union of the two.
      have hmerged : result.tree upper = unionFind.tree upper ∪ unionFind.tree lower := by
        ext node
        rw [Finset.mem_union, mem_tree_iff, mem_tree_iff, mem_tree_iff, hlen, ← and_or_left]
        refine and_congr_right fun hnode => ?_
        rw [hroots node hnode]
        split
        · next hbelow => simp [hbelow]
        · next hbeside => simp [hbeside]
      have hdisjoint : Disjoint (unionFind.tree upper) (unionFind.tree lower) := by
        rw [Finset.disjoint_left]
        intro node hnode hother
        exact hne ((mem_tree_iff.mp hnode).2.symm.trans (mem_tree_iff.mp hother).2)
      rw [heq, hmerged, Finset.card_union_of_disjoint hdisjoint, hrank, Function.update_self]
      exact hallows.trans
        (Nat.add_le_add (h.size upper hupper hupperRoot) (h.size lower hlower hlowerRoot))
    · have hsame : result.tree other = unionFind.tree other := by
        ext node
        rw [mem_tree_iff, mem_tree_iff, hlen]
        refine and_congr_right fun hnode => ?_
        rw [hroots node hnode]
        split
        · next hbelow =>
            rw [hbelow]
            exact iff_of_false (Ne.symm heq) (Ne.symm hnotLower)
        · exact Iff.rfl
      rw [hsame, hrank, Function.update_of_ne heq]
      exact h.size other hother hself

theorem rankOf_eq (hnode : node < unionFind.rank.length) :
    unionFind.rankOf node = (unionFind.rank[node]).toNat := by
  rw [rankOf, List.getElem?_eq_getElem hnode, Option.getD_some]

/-- A rank below the largest byte is not saturated. -/
theorem toNat_saturatingSucc {rank : UInt8} (h : rank.toNat < 255) :
    (saturatingSucc rank).toNat = rank.toNat + 1 := by
  have hne : rank ≠ 255 := by
    rintro rfl
    exact absurd h (by decide)
  have hone : UInt8.toNat 1 = 1 := rfl
  rw [saturatingSucc, if_neg hne, UInt8.toNat_add, hone]
  exact Nat.mod_eq_of_lt (by omega)

/-- Setting a rank updates the function of the ranks. -/
theorem rankOf_set {rank : UInt8} {parent : List Nat} (hnode : node < unionFind.rank.length) :
    rankOf { parent, rank := unionFind.rank.set node rank } =
      Function.update unionFind.rankOf node rank.toNat := by
  funext other
  by_cases heq : other = node
  · rw [heq, Function.update_self, rankOf, List.getElem?_set_self hnode, Option.getD_some]
  · rw [Function.update_of_ne heq, rankOf, List.getElem?_set_ne (Ne.symm heq), rankOf]

/-- Linking two roots by rank keeps the ranks in order. -/
theorem Ranked.link (h : unionFind.Ranked) {leftRoot rightRoot : Nat}
    (hbits : unionFind.len < 2 ^ 64) (hleft : leftRoot < unionFind.len)
    (hright : rightRoot < unionFind.len) (hleftRoot : unionFind.parentOf leftRoot = leftRoot)
    (hrightRoot : unionFind.parentOf rightRoot = rightRoot) (hne : leftRoot ≠ rightRoot)
    {leftRank rightRank : UInt8} (hleftRank : leftRank.toNat = unionFind.rankOf leftRoot)
    (hrightRank : rightRank.toNat = unionFind.rankOf rightRoot) :
    (unionFind.link leftRoot rightRoot leftRank rightRank).Ranked := by
  have hwellFormed := (link_spec h.wellFormed hleft hright hleftRoot hrightRoot hne leftRank
    rightRank).1
  have hlimit := h.rankOf_lt hbits hleft
  unfold UnionFind.link at hwellFormed ⊢
  split at hwellFormed
  · next hlt =>
      rw [if_pos hlt]
      have hlower : unionFind.rankOf leftRoot < unionFind.rankOf rightRoot := by
        rw [← hleftRank, ← hrightRank]
        exact UInt8.lt_iff_toNat_lt.mp hlt
      exact h.of_link hright hleft hrightRoot hleftRoot hne.symm hwellFormed List.length_set
        (parentOf_setParent hleft)
        (setParent_link h.wellFormed hright hleft hrightRoot hleftRoot hne.symm).2
        (Function.update_eq_self rightRoot unionFind.rankOf).symm le_rfl hlower
        (Nat.le_add_right _ _)
  · next hle =>
      rw [if_neg hle]
      have hupper : unionFind.rankOf rightRoot ≤ unionFind.rankOf leftRoot := by
        rw [← hleftRank, ← hrightRank]
        exact UInt8.le_iff_toNat_le.mp (UInt8.not_lt.mp hle)
      have hroots := (setParent_link h.wellFormed hleft hright hleftRoot hrightRoot hne).2
      have hparent := @parentOf_setParent unionFind rightRoot leftRoot hright
      by_cases htie : leftRank = rightRank
      · rw [if_pos htie] at hwellFormed ⊢
        have hequal : unionFind.rankOf rightRoot = unionFind.rankOf leftRoot := by
          rw [← hleftRank, ← hrightRank, htie]
        have hraised : (saturatingSucc leftRank).toNat = unionFind.rankOf leftRoot + 1 := by
          rw [toNat_saturatingSucc (by omega), hleftRank]
        refine h.of_link hleft hright hleftRoot hrightRoot hne hwellFormed List.length_set hparent
          hroots (rankOf_set (by rwa [h.wellFormed.rank])) ?_ ?_ ?_
        · omega
        · omega
        · rw [hraised, hequal, pow_succ]
          omega
      · rw [if_neg htie] at hwellFormed ⊢
        have hstrict : unionFind.rankOf rightRoot < unionFind.rankOf leftRoot := by
          refine lt_of_le_of_ne hupper fun hequal => htie ?_
          exact UInt8.toNat_inj.mp (by rw [hleftRank, hrightRank, hequal])
        exact h.of_link hleft hright hleftRoot hrightRoot hne hwellFormed List.length_set hparent
          hroots (Function.update_eq_self leftRoot unionFind.rankOf).symm le_rfl hstrict
          (Nat.le_add_right _ _)

end Links

/-- `union` keeps the ranks in order. -/
theorem Ranked.union (h : unionFind.Ranked) (hbits : unionFind.len < 2 ^ 64) {left right : Nat}
    (hleft : left < unionFind.len) (hright : right < unionFind.len)
    (hcall : unionFind.union left right = some result) :
    result.Ranked ∧ result.len = unionFind.len := by
  obtain ⟨first, hfindLeft, hfirst, hlenFirst, _, hrootsFirst⟩ := h.find hleft
  obtain ⟨second, hfindRight, hsecond, hlenSecond, _, hrootsSecond⟩ :=
    hfirst.find (hright.trans_eq hlenFirst.symm)
  have hlen : second.len = unionFind.len := hlenSecond.trans hlenFirst
  have hroots : ∀ other, other < unionFind.len → second.root other = unionFind.root other := by
    intro other hother
    rw [hrootsSecond other (hother.trans_eq hlenFirst.symm), hrootsFirst other hother]
  have hfixed : ∀ other, other < unionFind.len → unionFind.root other < second.len ∧
      second.parentOf (unionFind.root other) = unionFind.root other := by
    intro other hother
    rw [← hroots other hother]
    have hnode := hother.trans_eq hlen.symm
    exact ⟨hsecond.wellFormed.forest.rootOf_lt hnode, hsecond.wellFormed.forest.parent_rootOf hnode⟩
  obtain ⟨hleftRange, hleftFixed⟩ := hfixed left hleft
  obtain ⟨hrightRange, hrightFixed⟩ := hfixed right hright
  have hleftRank : unionFind.root left < second.rank.length := by
    rwa [hsecond.wellFormed.rank]
  have hrightRank : unionFind.root right < second.rank.length := by
    rwa [hsecond.wellFormed.rank]
  by_cases hsame : unionFind.root left = unionFind.root right
  · simp [UnionFind.union, hfindLeft, hfindRight, hrootsFirst right hright, hsame] at hcall
    rw [← hcall]
    exact ⟨hsecond, hlen⟩
  · simp [UnionFind.union, hfindLeft, hfindRight, hrootsFirst right hright, hsame, hleftRank,
      hrightRank] at hcall
    rw [← hcall]
    refine ⟨hsecond.link (by rwa [hlen]) hleftRange hrightRange hleftFixed hrightFixed hsame
      (rankOf_eq hleftRank).symm (rankOf_eq hrightRank).symm, ?_⟩
    exact (link_spec hsecond.wellFormed hleftRange hrightRange hleftFixed hrightFixed hsame _ _).2.1
      |>.trans hlen

/-! ## Runs -/

/-- The states that calls with nodes in range reach, each with the unions performed so far. A
vector has less than `2 ^ 64` elements. -/
inductive Reached : UnionFind → List (Nat × Nat) → Prop
  | withLen {length : Nat} (hlength : length < 2 ^ 64) : Reached (withLen length) []
  | push {unionFind : UnionFind} {unions : List (Nat × Nat)} (hrun : Reached unionFind unions)
      (hroom : unionFind.len + 1 < 2 ^ 64) : Reached unionFind.push unions
  | union {unionFind next : UnionFind} {unions : List (Nat × Nat)} {left right : Nat}
      (hrun : Reached unionFind unions) (hleft : left < unionFind.len)
      (hright : right < unionFind.len) (hcall : unionFind.union left right = some next) :
      Reached next ((left, right) :: unions)
  | find {unionFind next : UnionFind} {unions : List (Nat × Nat)} {node root : Nat}
      (hrun : Reached unionFind unions) (hnode : node < unionFind.len)
      (hcall : unionFind.find node = some (root, next)) : Reached next unions
  | connected {unionFind next : UnionFind} {unions : List (Nat × Nat)} {left right : Nat}
      {answer : Bool} (hrun : Reached unionFind unions) (hleft : left < unionFind.len)
      (hright : right < unionFind.len)
      (hcall : unionFind.connected left right = some (answer, next)) : Reached next unions

/-- The edge between the nodes of every union performed. -/
def joinedBy (unions : List (Nat × Nat)) (left right : Nat) : Prop := (left, right) ∈ unions

/-- What every call keeps. -/
structure Sound (unionFind : UnionFind) (unions : List (Nat × Nat)) : Prop where
  ranked : unionFind.Ranked
  tracks : unionFind.Tracks unionFind.len (joinedBy unions)
  bits : unionFind.len < 2 ^ 64
  inRange : ∀ left right, joinedBy unions left right →
    left < unionFind.len ∧ right < unionFind.len

theorem ranked_withLen (length : Nat) : (withLen length).Ranked := by
  have htracks := tracks_withLen length
  have hzero : ∀ node, (withLen length).rankOf node = 0 := by
    intro node
    have hrank : (List.replicate length (0 : UInt8))[node]?.getD 0 = 0 := by
      by_cases hlt : node < length
      · rw [List.getElem?_replicate_of_lt hlt, Option.getD_some]
      · rw [List.getElem?_eq_none (by simpa using hlt), Option.getD_none]
    exact congrArg UInt8.toNat hrank
  have hself : ∀ node, (withLen length).parentOf node = node := by
    intro node
    have hparent : (List.range length)[node]?.getD node = node := by
      by_cases hlt : node < length
      · rw [List.getElem?_range hlt, Option.getD_some]
      · rw [List.getElem?_eq_none (by simpa using hlt), Option.getD_none]
    exact hparent
  refine ⟨htracks.wellFormed, fun node _ hne => absurd (hself node) hne, fun node hnode _ => ?_⟩
  rw [hzero, pow_zero, Nat.one_le_iff_ne_zero, Finset.card_ne_zero]
  exact ⟨node, mem_tree_iff.mpr ⟨hnode, (root_eq_self_iff htracks.wellFormed hnode).mpr (hself node)⟩⟩

/-- Finding keeps what a state is sound for. -/
theorem Sound.find {unions : List (Nat × Nat)} (h : unionFind.Sound unions)
    (hnode : node < unionFind.len) :
    ∃ result, unionFind.find node = some (unionFind.root node, result) ∧ result.Sound unions ∧
      result.len = unionFind.len ∧ result.rank = unionFind.rank ∧
      ∀ other, other < unionFind.len → result.root other = unionFind.root other := by
  obtain ⟨result, hfind, hranked, hlen, hrank, hroots⟩ := h.ranked.find hnode
  obtain ⟨other, hother, htracks, _⟩ := h.tracks.find hnode
  rw [hfind] at hother
  obtain rfl : result = other := by simpa using hother
  rw [← hlen] at htracks
  refine ⟨result, hfind, ⟨hranked, htracks, by rw [hlen]; exact h.bits, ?_⟩, hlen, hrank, hroots⟩
  rw [hlen]
  exact h.inRange

/-- Every reached state is sound. -/
theorem Reached.sound {unions : List (Nat × Nat)} (h : Reached unionFind unions) :
    unionFind.Sound unions := by
  induction h with
  | @withLen length hlength =>
      have htracks := tracks_withLen length
      refine ⟨ranked_withLen length, ?_, htracks.len.trans_lt hlength, nofun⟩
      have hedges : (fun _ _ : Nat => False) = joinedBy [] := by
        funext left right
        simp [joinedBy]
      rw [htracks.len, ← hedges]
      exact htracks
  | @push unionFind unions hrun hroom ih =>
      have hlen := (push_spec ih.ranked.wellFormed).2.1
      refine ⟨ih.ranked.push, ?_, hlen.trans_lt hroom, fun left right hedge => ?_⟩
      · rw [hlen]
        exact ih.tracks.push ih.inRange
      · obtain ⟨hleft, hright⟩ := ih.inRange left right hedge
        omega
  | @union unionFind next unions left right hrun hleft hright hcall ih =>
      obtain ⟨hranked, hlen⟩ := ih.ranked.union ih.bits hleft hright hcall
      obtain ⟨other, hother, htracks⟩ := ih.tracks.union hleft hright
      obtain rfl : next = other := Option.some.inj (hcall.symm.trans hother)
      refine ⟨hranked, ?_, hlen.trans_lt ih.bits, fun first second hedge => ?_⟩
      · have hedges : (fun first second => joinedBy unions first second ∨
            first = left ∧ second = right) = joinedBy ((left, right) :: unions) := by
          funext first second
          simp [joinedBy, or_comm]
        rw [hlen, ← hedges]
        exact htracks
      · rw [hlen]
        rcases List.mem_cons.mp hedge with heq | hold
        · obtain ⟨rfl, rfl⟩ := Prod.mk.inj heq
          exact ⟨hleft, hright⟩
        · exact ih.inRange first second hold
  | @find unionFind next unions node root hrun hnode hcall ih =>
      obtain ⟨result, hfind, hsound, _⟩ := ih.find hnode
      rw [hcall] at hfind
      obtain ⟨_, rfl⟩ : root = _ ∧ next = result := by simpa using hfind
      exact hsound
  | @connected unionFind next unions left right answer hrun hleft hright hcall ih =>
      obtain ⟨first, hfindLeft, hfirst, hlen, _⟩ := ih.find hleft
      obtain ⟨second, hfindRight, hsecond, _⟩ := hfirst.find (hright.trans_eq hlen.symm)
      simp [UnionFind.connected, hfindLeft, hfindRight] at hcall
      rw [← hcall.2]
      exact hsecond

/-- In every reached state all calls with nodes in range return. Ranks rise along the pointers, a
root of rank `r` has `2 ^ r` nodes below it, and no rank saturates. `find` returns the
representative of its node, which is that of exactly the nodes joined to it by the unions
performed, and changes no representative. -/
theorem reached_spec {unionFind : UnionFind} {unions : List (Nat × Nat)}
    (h : Reached unionFind unions) :
    Forest unionFind.len unionFind.parentOf ∧
      (∀ node, node < unionFind.len → unionFind.parentOf node ≠ node →
        unionFind.rankOf node < unionFind.rankOf (unionFind.parentOf node)) ∧
      (∀ node, node < unionFind.len → unionFind.parentOf node = node →
        2 ^ unionFind.rankOf node ≤ (unionFind.tree node).card) ∧
      (∀ node, node < unionFind.len → unionFind.rankOf node < 64) ∧
      (∀ node, node < unionFind.len → ∃ next,
        unionFind.find node = some (unionFind.root node, next) ∧
          ∀ other, other < unionFind.len → next.root other = unionFind.root other) ∧
      (∀ left right, left < unionFind.len → right < unionFind.len →
        (∃ next, unionFind.union left right = some next) ∧
        (∃ answer next, unionFind.connected left right = some (answer, next) ∧
          (answer = true ↔ EqvGen (joinedBy unions) left right)) ∧
        (unionFind.root left = unionFind.root right ↔ EqvGen (joinedBy unions) left right)) := by
  have hsound := h.sound
  refine ⟨hsound.ranked.wellFormed.forest, hsound.ranked.rises, hsound.ranked.size, ?_, ?_, ?_⟩
  · exact fun node => hsound.ranked.rankOf_lt hsound.bits
  · intro node hnode
    obtain ⟨next, hfind, _, _, _, hroots⟩ := hsound.find hnode
    exact ⟨next, hfind, hroots⟩
  · intro left right hleft hright
    obtain ⟨next, hunion, _⟩ := hsound.tracks.union hleft hright
    obtain ⟨answer, result, hconnected, hanswer, _⟩ := hsound.tracks.connected hleft hright
    exact ⟨⟨next, hunion⟩, ⟨answer, result, hconnected, hanswer⟩,
      hsound.tracks.joined left right hleft hright⟩

/-- Two of three nodes joined. -/
theorem reached_spec_three_nodes :
    ∃ unionFind, Reached unionFind [(0, 2)] ∧
      (unionFind.root 0 = unionFind.root 2 ↔ EqvGen (joinedBy [(0, 2)]) 0 2) := by
  have hrun : Reached ⟨[0, 1, 0], [1, 0, 0]⟩ [(0, 2)] :=
    .union (@Reached.withLen 3 (by decide)) (by decide) (by decide) rfl
  exact ⟨_, hrun, ((reached_spec hrun).2.2.2.2.2 0 2 (by decide) (by decide)).2.2⟩

end UnionFind

end Pari.Index
