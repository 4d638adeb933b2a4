/-
# Unique candidate pairs

The iterator remembers the pairs of identifiers it has visited, in order. A pair of keys comes
from one pair of identifiers only, so no pair of keys is yielded twice, whichever bands its
members meet in.
-/

import Pari.Index.CandidatePairs

namespace Pari.Index

open Data Pari.Format Pari.Core

namespace CandidatePairs

variable {data : IndexData} {pairs : CandidatePairs}

/-- The ordered keys of two live identifiers, in order, that are not among the seen pairs. -/
def Unseen (data : IndexData) (seen : Finset (UInt32 × UInt32)) (pair : UInt64 × UInt64) : Prop :=
  ∃ left right leftKey rightKey, left ≤ right ∧ (left, right) ∉ seen ∧
    data.liveKey left = some leftKey ∧ data.liveKey right = some rightKey ∧
    pair = orderedPair leftKey rightKey

theorem Unseen.mono {seen more : Finset (UInt32 × UInt32)} {pair : UInt64 × UInt64}
    (h : Unseen data more pair) (hsub : seen ⊆ more) : Unseen data seen pair := by
  obtain ⟨left, right, leftKey, rightKey, hle, hunseen, hkeys⟩ := h
  exact ⟨left, right, leftKey, rightKey, hle, fun hmem => hunseen (hsub hmem), hkeys⟩

/-- A turn that forgets no pair it has seen, and has seen the pair it finds. -/
def Remembers (data : IndexData) (seen : Finset (UInt32 × UInt32)) : Turn → Prop
  | .exhausted => True
  | .goOn next => seen ⊆ next.seen
  | .found pair next => ∃ left right leftKey rightKey, left ≤ right ∧ (left, right) ∉ seen ∧
      next.seen = insert (left, right) seen ∧ data.liveKey left = some leftKey ∧
      data.liveKey right = some rightKey ∧ pair = orderedPair leftKey rightKey

theorem remembers_turn (data : IndexData) (pairs : CandidatePairs) :
    Remembers data pairs.seen (pairs.turn data) := by
  unfold turn
  split
  · trivial
  · split
    · exact Finset.Subset.refl _
    · split
      · exact Finset.Subset.refl _
      · split
        · next left right _ _ =>
            dsimp only
            split
            · exact Finset.Subset.refl _
            · next hfresh =>
                rw [not_or] at hfresh
                split
                · next leftKey rightKey hleft hright =>
                    have hle : (orderedPair left right).1 ≤ (orderedPair left right).2 := by
                      rw [orderedPair_eq]
                      exact min_le_max
                    exact ⟨(orderedPair left right).1, (orderedPair left right).2, leftKey,
                      rightKey, hle, hfresh.2, rfl, hleft, hright, rfl⟩
                · exact Finset.subset_insert _ _
        · trivial

/-- Two pairs of identifiers in order with the same pair of keys are one. -/
theorem orderedPair_inj
    (hkeys : ∀ {left right : UInt32} {key : UInt64}, data.liveKey left = some key →
      data.liveKey right = some key → left = right)
    {left right left' right' : UInt32} {leftKey rightKey leftKey' rightKey' : UInt64}
    (hle : left ≤ right) (hle' : left' ≤ right') (hleft : data.liveKey left = some leftKey)
    (hright : data.liveKey right = some rightKey) (hleft' : data.liveKey left' = some leftKey')
    (hright' : data.liveKey right' = some rightKey')
    (h : orderedPair leftKey rightKey = orderedPair leftKey' rightKey') :
    left = left' ∧ right = right' := by
  have hcases : leftKey = leftKey' ∧ rightKey = rightKey' ∨
      leftKey = rightKey' ∧ rightKey = leftKey' := by
    rcases orderedPair_cases leftKey rightKey with hpair | hpair <;>
      rcases orderedPair_cases leftKey' rightKey' with hpair' | hpair' <;>
      · rw [hpair, hpair', Prod.mk.injEq] at h
        tauto
  rcases hcases with ⟨rfl, rfl⟩ | ⟨rfl, rfl⟩
  · exact ⟨hkeys hleft hleft', hkeys hright hright'⟩
  · obtain rfl := hkeys hleft hright'
    obtain rfl := hkeys hright hleft'
    obtain rfl := le_antisymm hle hle'
    exact ⟨rfl, rfl⟩

/-- The iterator yields pairs it had not seen, each once. -/
theorem collect_unique
    (hkeys : ∀ {left right : UInt32} {key : UInt64}, data.liveKey left = some key →
      data.liveKey right = some key → left = right)
    {fuel : Nat} {pairs : CandidatePairs} {result : List (UInt64 × UInt64)}
    (h : pairs.collect data fuel = some result) :
    result.Nodup ∧ ∀ pair ∈ result, Unseen data pairs.seen pair := by
  induction fuel generalizing pairs result with
  | zero => cases h
  | succ fuel ih =>
      have hturn := remembers_turn data pairs
      rw [collect] at h
      cases hcase : pairs.turn data with
      | exhausted =>
          simp only [hcase] at h
          obtain rfl := Option.some.inj h
          exact ⟨List.nodup_nil, by simp⟩
      | goOn next =>
          simp only [hcase] at h
          rw [hcase] at hturn
          obtain ⟨hnodup, hunseen⟩ := ih h
          exact ⟨hnodup, fun pair hmem => (hunseen pair hmem).mono hturn⟩
      | found pair next =>
          simp only [hcase] at h
          rw [hcase] at hturn
          obtain ⟨rest, hrest, rfl⟩ := Option.map_eq_some_iff.mp h
          obtain ⟨left, right, leftKey, rightKey, hle, hfresh, hseen, hleft, hright, rfl⟩ := hturn
          obtain ⟨hnodup, hunseen⟩ := ih hrest
          rw [hseen] at hunseen
          refine ⟨List.nodup_cons.mpr ⟨fun hmem => ?_, hnodup⟩, List.forall_mem_cons.mpr
            ⟨⟨left, right, leftKey, rightKey, hle, hfresh, hleft, hright, rfl⟩,
              fun other hmem => (hunseen other hmem).mono (Finset.subset_insert _ _)⟩⟩
          -- The same keys again would come from the same identifiers, which are seen by now.
          obtain ⟨left', right', leftKey', rightKey', hle', hunseen', hleft', hright', hsame⟩ :=
            hunseen _ hmem
          obtain ⟨rfl, rfl⟩ :=
            orderedPair_inj hkeys hle hle' hleft hright hleft' hright' hsame
          exact hunseen' (Finset.mem_insert_self _ _)

end CandidatePairs

/-! ## The pairs of a reachable index -/

section Reachable

variable {scheme : SignatureScheme} {index : LshIndex scheme} {live : LiveItems scheme}

/-- Exhausting the pair iterator of a reachable index yields every pair of distinct live keys
that share a band bucket once, the smaller key first, and nothing else. A pair is yielded
exactly when its larger key answers the query of the stored sketch of its smaller key. -/
theorem Reachable.candidatePairs_exact (h : Reachable index live)
    (order : VisitOrder UInt64 (List UInt32)) :
    ∃ pairs, candidatePairs index.data order = some pairs ∧ pairs.Nodup ∧
      (∀ a b, (a, b) ∈ pairs ↔ a < b ∧ index.data.SharesBucket a b) ∧
      (∀ a b, index.data.SharesBucket a b ↔ SharesLiveBand index.config live a b) ∧
      ∀ a b sketch, a < b → live a = some sketch →
        ∃ keys, index.query sketch = .ok keys ∧ ((a, b) ∈ pairs ↔ b ∈ keys) := by
  have hholds : index.data.Holds index.config.params.bands (rowsOfLive index.config live) :=
    h.holds
  obtain ⟨pairs, hpairs, hsound, hcomplete⟩ := hholds.candidatePairs order
  obtain ⟨hnodup, hunseen⟩ := CandidatePairs.collect_unique hholds.liveKey_injective hpairs
  have hmem : ∀ a b, (a, b) ∈ pairs ↔ a < b ∧ index.data.SharesBucket a b := by
    intro a b
    constructor
    · intro hab
      obtain ⟨hne, hshares, _⟩ := hsound (a, b) hab
      obtain ⟨_, _, leftKey, rightKey, _, _, _, _, hpair⟩ := hunseen (a, b) hab
      rw [orderedPair_eq, Prod.mk.injEq] at hpair
      refine ⟨lt_of_le_of_ne ?_ hne, hshares⟩
      rw [hpair.1, hpair.2]
      exact min_le_max
    · rintro ⟨hlt, hshares⟩
      have hab := hcomplete a b ⟨ne_of_lt hlt, hshares, rfl⟩
      rwa [orderedPair_eq, min_eq_left hlt.le, max_eq_right hlt.le] at hab
  refine ⟨pairs, hpairs, hnodup, hmem, fun a b => h.sharesBucket_iff, ?_⟩
  intro a b sketch hlt hlive
  obtain ⟨keys, hquery, _, hkeys, _⟩ := h.query_exact.1 sketch (h.compatible hlive)
  refine ⟨keys, hquery, ?_⟩
  rw [hmem, hkeys, h.sharesBucket_iff]
  constructor
  · rintro ⟨_, item, other, hitem, hother, hshares⟩
    rw [hlive] at hitem
    obtain rfl := Option.some.inj hitem
    exact ⟨other, hother, hshares.symm⟩
  · rintro ⟨other, hother, hshares⟩
    exact ⟨hlt, sketch, other, hlive, hother, hshares.symm⟩

/-- Two items with one sketch are the only pair of their index. -/
theorem candidatePairs_exact_two_items :
    ∃ pairs, candidatePairs (LshIndex.insertMany ⟨sampleConfig, IndexData.new 2⟩
        [(7, sampleSketch), (9, sampleSketch)]).2.data sortedOrders.buckets = some pairs ∧
      pairs.Nodup := by
  have hrun := sampleReachable [(7, sampleSketch), (9, sampleSketch)] (by decide)
  obtain ⟨pairs, hpairs, hnodup, _⟩ := hrun.candidatePairs_exact sortedOrders.buckets
  exact ⟨pairs, hpairs, hnodup⟩

end Reachable

end Pari.Index
