/-
# Streaming candidate pairs

The pair iterator visits every pair of positions of every bucket once, which its turn
counter bounds, and yields the keys of every live pair of identifiers. A stream of key
pairs is grouped by numbering the keys as they come; its union-find tracks the pairs of
the stream. The groups of the streamed candidates are therefore the groups of the index.
-/

import Pari.Index.DuplicateGroups

namespace Pari.Index

open Data Relation Pari.Format Pari.Core

/-! ## The iterator -/

namespace CandidatePairs

variable {data : IndexData} {pairs : CandidatePairs} {ids : List UInt32} {left right : UInt32}

/-- A pair of positions the iterator has still to visit holds these identifiers. -/
def Ahead (pairs : CandidatePairs) (left right : UInt32) : Prop :=
  ∃ (bucket i j : Nat) (ids : List UInt32), pairs.buckets[bucket]? = some ids ∧
    ids[i]? = some left ∧ ids[j]? = some right ∧ i < j ∧
    (pairs.bucketIndex < bucket ∨ bucket = pairs.bucketIndex ∧
      (pairs.leftIndex < i ∨ i = pairs.leftIndex ∧ pairs.rightIndex ≤ j))

/-- A pair the iterator has still to yield. -/
structure Pending (data : IndexData) (pairs : CandidatePairs) (left right : UInt32) : Prop where
  ahead : pairs.Ahead left right
  ne : left ≠ right
  unseen : orderedPair left right ∉ pairs.seen
  live : data.liveKey left ≠ none ∧ data.liveKey right ≠ none

/-- A pair of keys that two different members of a bucket have. -/
def Yields (data : IndexData) (buckets : List (List UInt32)) (pair : UInt64 × UInt64) : Prop :=
  ∃ ids ∈ buckets, ∃ left ∈ ids, ∃ right ∈ ids, left ≠ right ∧ ∃ leftKey rightKey,
    data.liveKey left = some leftKey ∧ data.liveKey right = some rightKey ∧
    pair = orderedPair leftKey rightKey

/-- A bound on the turns the iterator still takes. -/
def turnsLeft (pairs : CandidatePairs) : Nat :=
  match pairs.buckets[pairs.bucketIndex]? with
  | none => 1
  | some ids =>
      (ids.length - pairs.leftIndex) * (ids.length + 1) + (ids.length - pairs.rightIndex) + 1 +
        ((pairs.buckets.drop (pairs.bucketIndex + 1)).map fun ids => bucketTurns ids.length).sum + 1

/-- At the start of a bucket the turns of this and all later buckets suffice. -/
theorem turnsLeft_start_le (buckets : List (List UInt32)) (bucketIndex : Nat)
    (seen : Finset (UInt32 × UInt32)) :
    turnsLeft { buckets, bucketIndex, leftIndex := 0, rightIndex := 1, seen } ≤
      ((buckets.drop bucketIndex).map fun ids => bucketTurns ids.length).sum + 1 := by
  unfold turnsLeft
  split
  · omega
  · next ids hids =>
      obtain ⟨hlt, hget⟩ := List.getElem?_eq_some_iff.mp hids
      have hfirst : (ids.length - 0) * (ids.length + 1) + (ids.length - 1) + 1 ≤
          bucketTurns ids.length := by
        rw [bucketTurns, Nat.sub_zero, Nat.succ_mul]
        omega
      rw [List.drop_eq_getElem_cons hlt, List.map_cons, List.sum_cons, hget]
      dsimp only
      omega

/-- Past the last left position the iterator moves to the next bucket. -/
theorem nextBucket_spec (hids : pairs.buckets[pairs.bucketIndex]? = some ids)
    (hend : ids.length ≤ pairs.leftIndex + 1) :
    turnsLeft { pairs with bucketIndex := pairs.bucketIndex + 1, leftIndex := 0, rightIndex := 1 }
        < pairs.turnsLeft ∧
      (pairs.Ahead left right → Ahead { pairs with
        bucketIndex := pairs.bucketIndex + 1, leftIndex := 0, rightIndex := 1 } left right) := by
  constructor
  · have hstart := turnsLeft_start_le pairs.buckets (pairs.bucketIndex + 1) pairs.seen
    rw [turnsLeft.eq_1 pairs, hids]
    dsimp only
    omega
  · rintro ⟨bucket, i, j, bucketIds, hbucket, hi, hj, hij, hafter⟩
    refine ⟨bucket, i, j, bucketIds, hbucket, hi, hj, hij, ?_⟩
    dsimp only
    have hjlt := (List.getElem?_eq_some_iff.mp hj).1
    have hnext : pairs.bucketIndex < bucket := by
      rcases hafter with hlater | ⟨rfl, hposition⟩
      · exact hlater
      · rw [hids] at hbucket
        obtain rfl := Option.some.inj hbucket
        omega
    omega

/-- Past the last right position the iterator moves to the next left position. -/
theorem nextLeft_spec (hids : pairs.buckets[pairs.bucketIndex]? = some ids)
    (hinside : ¬ ids.length ≤ pairs.leftIndex + 1) (hend : ids.length ≤ pairs.rightIndex) :
    turnsLeft { pairs with leftIndex := pairs.leftIndex + 1, rightIndex := pairs.leftIndex + 2 }
        < pairs.turnsLeft ∧
      (pairs.Ahead left right → Ahead { pairs with
        leftIndex := pairs.leftIndex + 1, rightIndex := pairs.leftIndex + 2 } left right) := by
  constructor
  · rw [turnsLeft, turnsLeft, hids]
    have hrow : (ids.length - pairs.leftIndex) * (ids.length + 1) =
        (ids.length - (pairs.leftIndex + 1)) * (ids.length + 1) + (ids.length + 1) := by
      rw [← Nat.succ_mul]
      congr 1
      omega
    dsimp only
    omega
  · rintro ⟨bucket, i, j, bucketIds, hbucket, hi, hj, hij, hafter⟩
    refine ⟨bucket, i, j, bucketIds, hbucket, hi, hj, hij, ?_⟩
    dsimp only
    have hjlt := (List.getElem?_eq_some_iff.mp hj).1
    rcases hafter with hlater | ⟨rfl, hposition⟩
    · exact Or.inl hlater
    · rw [hids] at hbucket
      obtain rfl := Option.some.inj hbucket
      omega

/-- Otherwise the iterator visits one pair of positions. -/
theorem nextRight_spec (hids : pairs.buckets[pairs.bucketIndex]? = some ids)
    (hinside : ¬ ids.length ≤ pairs.rightIndex) {first second : UInt32}
    (hfirst : ids[pairs.leftIndex]? = some first) (hsecond : ids[pairs.rightIndex]? = some second)
    (seen : Finset (UInt32 × UInt32)) :
    turnsLeft { pairs with rightIndex := pairs.rightIndex + 1, seen } < pairs.turnsLeft ∧
      (pairs.Ahead left right → left = first ∧ right = second ∨
        Ahead { pairs with rightIndex := pairs.rightIndex + 1, seen } left right) := by
  constructor
  · rw [turnsLeft, turnsLeft, hids]
    dsimp only
    omega
  · rintro ⟨bucket, i, j, bucketIds, hbucket, hi, hj, hij, hafter⟩
    rcases hafter with hlater | ⟨rfl, hposition⟩
    · exact Or.inr ⟨bucket, i, j, bucketIds, hbucket, hi, hj, hij, Or.inl hlater⟩
    · rw [hids] at hbucket
      obtain rfl := Option.some.inj hbucket
      by_cases hhere : i = pairs.leftIndex ∧ j = pairs.rightIndex
      · obtain ⟨rfl, rfl⟩ := hhere
        rw [hfirst] at hi
        rw [hsecond] at hj
        exact Or.inl ⟨(Option.some.inj hi).symm, (Option.some.inj hj).symm⟩
      · refine Or.inr ⟨pairs.bucketIndex, i, j, ids, hids, hi, hj, hij, Or.inr ⟨rfl, ?_⟩⟩
        dsimp only
        omega

theorem orderedPair_cases {α : Type} [LinearOrder α] (left right : α) :
    orderedPair left right = (left, right) ∨ orderedPair left right = (right, left) := by
  rw [orderedPair]
  split
  · exact Or.inl rfl
  · exact Or.inr rfl

/-- What one turn does to the pairs that are still to be yielded. -/
theorem turn_spec (data : IndexData) (pairs : CandidatePairs) :
    match pairs.turn data with
    | .exhausted => ∀ left right, ¬ Pending data pairs left right
    | .goOn next => next.turnsLeft < pairs.turnsLeft ∧ next.buckets = pairs.buckets ∧
        ∀ left right, Pending data pairs left right → Pending data next left right
    | .found pair next => next.turnsLeft < pairs.turnsLeft ∧ next.buckets = pairs.buckets ∧
        Yields data pairs.buckets pair ∧
        ∀ left right, Pending data pairs left right → Pending data next left right ∨
          ∀ leftKey rightKey, data.liveKey left = some leftKey →
            data.liveKey right = some rightKey → orderedPair leftKey rightKey = pair := by
  cases hids : pairs.buckets[pairs.bucketIndex]? with
  | none =>
      simp only [turn, hids]
      rintro left right ⟨⟨bucket, i, j, ids, hbucket, _, _, _, hafter⟩, _, _, _⟩
      have hlt := (List.getElem?_eq_some_iff.mp hbucket).1
      rw [List.getElem?_eq_none_iff] at hids
      omega
  | some ids =>
      simp only [turn, hids]
      by_cases hbucketEnd : ids.length ≤ pairs.leftIndex + 1
      · simp only [if_pos hbucketEnd]
        refine ⟨(@nextBucket_spec pairs ids 0 0 hids hbucketEnd).1, trivial, ?_⟩
        intro left right h
        exact ⟨(nextBucket_spec hids hbucketEnd).2 h.ahead, h.ne, h.unseen, h.live⟩
      simp only [if_neg hbucketEnd]
      by_cases hrowEnd : ids.length ≤ pairs.rightIndex
      · simp only [if_pos hrowEnd]
        refine ⟨(@nextLeft_spec pairs ids 0 0 hids hbucketEnd hrowEnd).1, trivial, ?_⟩
        intro left right h
        exact ⟨(nextLeft_spec hids hbucketEnd hrowEnd).2 h.ahead, h.ne, h.unseen, h.live⟩
      simp only [if_neg hrowEnd]
      have hleftLt : pairs.leftIndex < ids.length := by omega
      have hrightLt : pairs.rightIndex < ids.length := by omega
      have hfirst := List.getElem?_eq_getElem hleftLt
      have hsecond := List.getElem?_eq_getElem hrightLt
      generalize ids[pairs.leftIndex] = first at hfirst
      generalize ids[pairs.rightIndex] = second at hsecond
      have hspec := fun (left right : UInt32) (seen : Finset (UInt32 × UInt32)) =>
        @nextRight_spec pairs ids left right hids hrowEnd first second hfirst hsecond seen
      simp only [hfirst, hsecond]
      by_cases hskip : first = second ∨ orderedPair first second ∈ pairs.seen
      · simp only [if_pos hskip]
        refine ⟨(hspec 0 0 _).1, trivial, fun left right h => ?_⟩
        rcases (hspec left right pairs.seen).2 h.ahead with ⟨rfl, rfl⟩ | hahead
        · rcases hskip with heq | hseen
          · exact absurd heq h.ne
          · exact absurd hseen h.unseen
        · exact ⟨hahead, h.ne, h.unseen, h.live⟩
      · simp only [if_neg hskip]
        rw [not_or] at hskip
        -- A pending pair is the visited one or stays pending.
        have hpending : ∀ left right, Pending data pairs left right →
            orderedPair left right = orderedPair first second ∨
              Pending data { pairs with
                rightIndex := pairs.rightIndex + 1
                seen := insert (orderedPair first second) pairs.seen } left right := by
          intro left right h
          by_cases hsame : orderedPair left right = orderedPair first second
          · exact Or.inl hsame
          · refine Or.inr ⟨?_, h.ne, ?_, h.live⟩
            · rcases (hspec left right _).2 h.ahead with ⟨rfl, rfl⟩ | hahead
              · exact absurd rfl hsame
              · exact hahead
            · simp [hsame, h.unseen]
        -- The keys of a pair in order are the keys of its members in some order.
        have hkeys : ∀ left right, orderedPair left right = orderedPair first second →
            (left = (orderedPair first second).1 ∧ right = (orderedPair first second).2) ∨
            (left = (orderedPair first second).2 ∧ right = (orderedPair first second).1) := by
          intro left right hsame
          rw [← hsame]
          rcases orderedPair_cases left right with hpair | hpair
          · exact Or.inl (by simp [hpair])
          · exact Or.inr (by simp [hpair])
        split
        · next heq =>
            split at heq
            · cases heq
            · cases heq
        · next next heq =>
            split at heq
            · cases heq
            · next hdead =>
                obtain rfl := Turn.goOn.inj heq
                refine ⟨(hspec 0 0 _).1, rfl, fun left right h => ?_⟩
                rcases hpending left right h with hsame | hstill
                · obtain ⟨leftKey, hleftKey⟩ := Option.ne_none_iff_exists'.mp h.live.1
                  obtain ⟨rightKey, hrightKey⟩ := Option.ne_none_iff_exists'.mp h.live.2
                  rcases hkeys left right hsame with ⟨rfl, rfl⟩ | ⟨rfl, rfl⟩
                  · exact absurd hrightKey (hdead _ _ hleftKey)
                  · exact absurd hleftKey (hdead _ _ hrightKey)
                · exact hstill
        · next pair next heq =>
            split at heq
            · next firstKey secondKey hfirstKey hsecondKey =>
                obtain ⟨rfl, rfl⟩ := Turn.found.inj heq
                refine ⟨(hspec 0 0 _).1, rfl, ?_, fun left right h => ?_⟩
                · have hmemFirst := List.mem_of_getElem? hfirst
                  have hmemSecond := List.mem_of_getElem? hsecond
                  rcases orderedPair_cases first second with hpair | hpair
                  · rw [hpair] at hfirstKey hsecondKey
                    exact ⟨ids, List.mem_of_getElem? hids, first, hmemFirst, second, hmemSecond,
                      hskip.1, _, _, hfirstKey, hsecondKey, rfl⟩
                  · rw [hpair] at hfirstKey hsecondKey
                    exact ⟨ids, List.mem_of_getElem? hids, second, hmemSecond, first, hmemFirst,
                      Ne.symm hskip.1, _, _, hfirstKey, hsecondKey, rfl⟩
                · rcases hpending left right h with hsame | hstill
                  · refine Or.inr fun leftKey rightKey hleftKey hrightKey => ?_
                    rcases hkeys left right hsame with ⟨rfl, rfl⟩ | ⟨rfl, rfl⟩
                    · rw [hleftKey] at hfirstKey
                      rw [hrightKey] at hsecondKey
                      rw [Option.some.inj hfirstKey, Option.some.inj hsecondKey]
                    · rw [hleftKey] at hsecondKey
                      rw [hrightKey] at hfirstKey
                      rw [Option.some.inj hfirstKey, Option.some.inj hsecondKey, orderedPair_comm]
                  · exact Or.inl hstill
            · cases heq

/-- Enough turns exhaust the iterator; it yields pairs of its buckets, and every pending one. -/
theorem collect_spec (data : IndexData) {fuel : Nat} {pairs : CandidatePairs}
    (hfuel : pairs.turnsLeft ≤ fuel) :
    ∃ result, pairs.collect data fuel = some result ∧
      (∀ pair ∈ result, Yields data pairs.buckets pair) ∧
      ∀ left right leftKey rightKey, Pending data pairs left right →
        data.liveKey left = some leftKey → data.liveKey right = some rightKey →
        orderedPair leftKey rightKey ∈ result := by
  induction fuel generalizing pairs with
  | zero =>
      have hpos : 0 < pairs.turnsLeft := by
        unfold turnsLeft
        split <;> omega
      omega
  | succ fuel ih =>
      have hturn := turn_spec data pairs
      rw [collect]
      cases hcase : pairs.turn data with
      | exhausted =>
          simp only [hcase] at hturn
          exact ⟨[], rfl, by simp, fun left right _ _ h => absurd h (hturn left right)⟩
      | goOn next =>
          simp only [hcase] at hturn
          obtain ⟨hless, hbuckets, hpending⟩ := hturn
          obtain ⟨result, hresult, hsound, hcomplete⟩ := @ih next (by omega)
          rw [hbuckets] at hsound
          exact ⟨result, hresult, hsound, fun left right leftKey rightKey h =>
            hcomplete left right leftKey rightKey (hpending left right h)⟩
      | found pair next =>
          simp only [hcase] at hturn
          obtain ⟨hless, hbuckets, hyields, hpending⟩ := hturn
          obtain ⟨result, hresult, hsound, hcomplete⟩ := @ih next (by omega)
          rw [hbuckets] at hsound
          refine ⟨pair :: result, by simp [hresult], List.forall_mem_cons.mpr ⟨hyields, hsound⟩, ?_⟩
          intro left right leftKey rightKey h hleft hright
          rcases hpending left right h with hstill | hfound
          · exact List.mem_cons_of_mem pair
              (hcomplete left right leftKey rightKey hstill hleft hright)
          · rw [hfound leftKey rightKey hleft hright]
            exact List.mem_cons_self

end CandidatePairs

/-! ## The candidate pairs of an index -/

section Candidates

variable {data : IndexData} {bands : Nat} {rows : Rows}

/-- The ordered buckets are the buckets with two members or more. -/
theorem mem_orderedBuckets_iff {order : VisitOrder UInt64 (List UInt32)} {ids : List UInt32} :
    ids ∈ orderedBuckets data order ↔
      (∃ table ∈ data.buckets, ∃ hash : UInt64, table[hash]? = some ids) ∧ 2 ≤ ids.length := by
  simp only [orderedBuckets, List.mem_map, List.mem_insertionSort, List.mem_flatMap,
    List.mem_filterMap, Prod.exists, Option.ite_none_right_eq_some, Option.some.injEq,
    Prod.mk.injEq]
  constructor
  · rintro ⟨_, _, _, ⟨table, index, hmem, hash, bucket, hentry, hlength, rfl, rfl, rfl⟩, rfl⟩
    exact ⟨⟨table, List.fst_mem_of_mem_zipIdx hmem, hash, order.mem_entries_iff.mp hentry⟩,
      hlength⟩
  · rintro ⟨⟨table, htable, hash, hids⟩, hlength⟩
    obtain ⟨index, hindex⟩ := List.mem_iff_getElem?.mp htable
    exact ⟨index, hash, ids, ⟨table, index, List.mk_mem_zipIdx_iff_getElem?.mpr hindex, hash, ids,
      order.mem_entries_iff.mpr hids, hlength, rfl, rfl, rfl⟩, rfl⟩

/-- Two different members of a bucket are ahead of a new iterator in one order. -/
theorem ahead_new_or {order : VisitOrder UInt64 (List UInt32)} {ids : List UInt32}
    (hids : ids ∈ orderedBuckets data order) {left right : UInt32} (hleft : left ∈ ids)
    (hright : right ∈ ids) (hne : left ≠ right) :
    (CandidatePairs.new data order).Ahead left right ∨
      (CandidatePairs.new data order).Ahead right left := by
  obtain ⟨bucket, hbucket⟩ := List.mem_iff_getElem?.mp hids
  obtain ⟨i, hi⟩ := List.mem_iff_getElem?.mp hleft
  obtain ⟨j, hj⟩ := List.mem_iff_getElem?.mp hright
  rcases Nat.lt_trichotomy i j with hij | rfl | hji
  · refine Or.inl ⟨bucket, i, j, ids, hbucket, hi, hj, hij, ?_⟩
    simp only [CandidatePairs.new]
    omega
  · rw [hi] at hj
    exact absurd (Option.some.inj hj) hne
  · refine Or.inr ⟨bucket, j, i, ids, hbucket, hj, hi, hji, ?_⟩
    simp only [CandidatePairs.new]
    omega

/-- The iterator ends, and yields exactly the candidate pairs, each in order. -/
theorem IndexData.Holds.candidatePairs (h : data.Holds bands rows)
    (order : VisitOrder UInt64 (List UInt32)) :
    ∃ pairs, candidatePairs data order = some pairs ∧
      (∀ pair ∈ pairs, data.Joins (fun _ _ => true) pair.1 pair.2) ∧
      ∀ left right, data.Joins (fun _ _ => true) left right → orderedPair left right ∈ pairs := by
  obtain ⟨pairs, hpairs, hsound, hcomplete⟩ := CandidatePairs.collect_spec data
    (CandidatePairs.turnsLeft_start_le (orderedBuckets data order) 0 ∅)
  refine ⟨pairs, hpairs, ?_, ?_⟩
  · intro pair hpair
    obtain ⟨ids, hids, left, hleft, right, hright, hne, leftKey, rightKey, hleftKey, hrightKey,
      rfl⟩ := hsound pair hpair
    obtain ⟨⟨table, htable, hash, hbucket⟩, _⟩ := mem_orderedBuckets_iff.mp hids
    have hkeys : leftKey ≠ rightKey := by
      rintro rfl
      exact hne (h.liveKey_injective hleftKey hrightKey)
    rcases CandidatePairs.orderedPair_cases leftKey rightKey with hpair | hpair
    · rw [hpair]
      exact ⟨hkeys, ⟨table, htable, hash, ids, hbucket, left, hleft, right, hright, hleftKey,
        hrightKey⟩, rfl⟩
    · rw [hpair]
      exact ⟨hkeys.symm, ⟨table, htable, hash, ids, hbucket, right, hright, left, hleft,
        hrightKey, hleftKey⟩, rfl⟩
  · rintro leftKey rightKey ⟨hkeys, ⟨table, htable, hash, ids, hids, left, hleft, right, hright,
      hleftKey, hrightKey⟩, _⟩
    have hne : left ≠ right := by
      rintro rfl
      rw [hleftKey] at hrightKey
      exact hkeys (Option.some.inj hrightKey)
    have hlength : 2 ≤ ids.length := by
      have hsubset : [left, right] ⊆ ids := by simp [hleft, hright]
      have hnodup : [left, right].Nodup := by simp [hne]
      exact (hnodup.subperm hsubset).length_le
    have hmem : ids ∈ orderedBuckets data order :=
      mem_orderedBuckets_iff.mpr ⟨⟨table, htable, hash, hids⟩, hlength⟩
    have hleftLive : data.liveKey left ≠ none := by simp [hleftKey]
    have hrightLive : data.liveKey right ≠ none := by simp [hrightKey]
    rcases ahead_new_or hmem hleft hright hne with hahead | hahead
    · exact hcomplete left right leftKey rightKey
        ⟨hahead, hne, Finset.notMem_empty _, hleftLive, hrightLive⟩ hleftKey hrightKey
    · rw [orderedPair_comm]
      exact hcomplete right left rightKey leftKey
        ⟨hahead, hne.symm, Finset.notMem_empty _, hrightLive, hleftLive⟩ hrightKey hleftKey

end Candidates

/-! ## Grouping a stream of pairs -/

/-- The nodes of the two keys of an edge. -/
def KeyStream.nodeEdge (keys : List UInt64) (edge : UInt64 → UInt64 → Prop) (i j : Nat) : Prop :=
  ∃ a b, edge a b ∧ keys[i]? = some a ∧ keys[j]? = some b

/-- The stream has numbered exactly the keys of the edges, and tracks the edges. -/
structure KeyStream.Holds (stream : KeyStream) (edge : UInt64 → UInt64 → Prop) : Prop where
  ids : ∀ (key : UInt64) (id : Nat), stream.ids[key]? = some id ↔ stream.keys[id]? = some key
  numbered : ∀ a b, edge a b → a ∈ stream.keys ∧ b ∈ stream.keys
  tracks : stream.unionFind.Tracks stream.keys.length (nodeEdge stream.keys edge)

namespace KeyStream.Holds

variable {stream : KeyStream} {edge : UInt64 → UInt64 → Prop} {key : UInt64}

theorem injective (h : stream.Holds edge) {i j : Nat} (hi : stream.keys[i]? = some key)
    (hj : stream.keys[j]? = some key) : i = j := by
  rw [← h.ids] at hi hj
  exact Option.some.inj (hi.symm.trans hj)

/-- Interning returns the node of the key, in a stream that has numbered it. -/
theorem internKey (h : stream.Holds edge) (key : UInt64) :
    (internKey key stream).2.Holds edge ∧
      (internKey key stream).2.keys[(internKey key stream).1]? = some key ∧
      ∀ (i : Nat) (other : UInt64), stream.keys[i]? = some other →
        (internKey key stream).2.keys[i]? = some other := by
  unfold Index.internKey
  cases hid : stream.ids[key]? with
  | some id => exact ⟨h, (h.ids key id).mp hid, fun _ _ hi => hi⟩
  | none =>
      have hold : ∀ (i : Nat) (other : UInt64), stream.keys[i]? = some other →
          (stream.keys ++ [key])[i]? = some other := by
        intro i other hi
        rw [List.getElem?_append_left (List.getElem?_eq_some_iff.mp hi).1, hi]
      refine ⟨⟨?_, ?_, ?_⟩, List.getElem?_concat_length, hold⟩
      · intro other id
        dsimp only
        rw [getElem?_insert]
        by_cases hother : key = other
        · subst hother
          rw [if_pos rfl]
          constructor
          · intro heq
            rw [← Option.some.inj heq, List.getElem?_concat_length]
          · intro hkey
            rcases Nat.lt_trichotomy id stream.keys.length with hlt | rfl | hgt
            · rw [List.getElem?_append_left hlt, ← h.ids, hid] at hkey
              cases hkey
            · rfl
            · rw [List.getElem?_eq_none (by simp; omega)] at hkey
              cases hkey
        · rw [if_neg hother, h.ids]
          refine ⟨hold id other, fun hkey => ?_⟩
          rcases Nat.lt_trichotomy id stream.keys.length with hlt | rfl | hgt
          · rwa [List.getElem?_append_left hlt] at hkey
          · rw [List.getElem?_concat_length] at hkey
            exact absurd (Option.some.inj hkey) hother
          · rw [List.getElem?_eq_none (by simp; omega)] at hkey
            cases hkey
      · intro a b hab
        obtain ⟨ha, hb⟩ := h.numbered a b hab
        exact ⟨List.mem_append_left _ ha, List.mem_append_left _ hb⟩
      · have hbound : ∀ i j, nodeEdge stream.keys edge i j →
            i < stream.keys.length ∧ j < stream.keys.length := by
          intro i j hnode
          obtain ⟨a, b, _, hi, hj⟩ := hnode
          exact ⟨(List.getElem?_eq_some_iff.mp hi).1, (List.getElem?_eq_some_iff.mp hj).1⟩
        have hpush := h.tracks.push hbound
        dsimp only
        rw [List.length_append, List.length_singleton]
        refine hpush.congr fun i j => ?_
        -- No edge mentions the new key, so its node has no edge.
        have hsame : nodeEdge stream.keys edge = nodeEdge (stream.keys ++ [key]) edge := by
          funext i j
          refine propext ⟨?_, ?_⟩
          · rintro ⟨a, b, hab, hi, hj⟩
            exact ⟨a, b, hab, hold i a hi, hold j b hj⟩
          · rintro ⟨a, b, hab, hi, hj⟩
            have hback : ∀ (i : Nat) (other : UInt64), other ∈ stream.keys →
                (stream.keys ++ [key])[i]? = some other → stream.keys[i]? = some other := by
              intro i other hmem hi
              rcases Nat.lt_trichotomy i stream.keys.length with hlt | rfl | hgt
              · rwa [List.getElem?_append_left hlt] at hi
              · rw [List.getElem?_concat_length] at hi
                obtain rfl := Option.some.inj hi
                obtain ⟨id, hkey⟩ := List.mem_iff_getElem?.mp hmem
                rw [← h.ids, hid] at hkey
                cases hkey
              · rw [List.getElem?_eq_none (by simp; omega)] at hi
                cases hi
            exact ⟨a, b, hab, hback i a (h.numbered a b hab).1 hi,
              hback j b (h.numbered a b hab).2 hj⟩
        rw [hsame]

/-- Adding a pair numbers its keys and adds its edge. -/
theorem unionKeys (h : stream.Holds edge) (pair : UInt64 × UInt64) :
    ∃ result, unionKeys stream pair = some result ∧
      result.Holds fun a b => edge a b ∨ a = pair.1 ∧ b = pair.2 := by
  obtain ⟨hfirst, hleft, _⟩ := h.internKey pair.1
  obtain ⟨hsecond, hright, hkept⟩ := hfirst.internKey pair.2
  have hleft' := hkept _ _ hleft
  obtain ⟨unionFind, hunion, htracks⟩ := hsecond.tracks.union
    (List.getElem?_eq_some_iff.mp hleft').1 (List.getElem?_eq_some_iff.mp hright).1
  refine ⟨{ (Index.internKey pair.2 (Index.internKey pair.1 stream).2).2 with unionFind },
    by simp [Index.unionKeys, hunion], hsecond.ids, ?_, ?_⟩
  · rintro a b (hab | ⟨rfl, rfl⟩)
    · exact hsecond.numbered a b hab
    · exact ⟨List.mem_of_getElem? hleft', List.mem_of_getElem? hright⟩
  · refine htracks.congr fun i j => ⟨eqvGen_of_edges ?_, eqvGen_of_edges ?_⟩
    · rintro a b (⟨x, y, hxy, hx, hy⟩ | ⟨rfl, rfl⟩)
      · exact .rel _ _ ⟨x, y, Or.inl hxy, hx, hy⟩
      · exact .rel _ _ ⟨pair.1, pair.2, Or.inr ⟨rfl, rfl⟩, hleft', hright⟩
    · rintro a b ⟨x, y, hxy | ⟨rfl, rfl⟩, hx, hy⟩
      · exact .rel _ _ (Or.inl ⟨x, y, hxy, hx, hy⟩)
      · exact .rel _ _ (Or.inr ⟨hsecond.injective hx hleft', hsecond.injective hy hright⟩)

/-- Adding a list of pairs adds their edges. -/
theorem foldlM (h : stream.Holds edge) (pairs : List (UInt64 × UInt64)) :
    ∃ result, pairs.foldlM Index.unionKeys stream = some result ∧
      result.Holds fun a b => edge a b ∨ (a, b) ∈ pairs := by
  induction pairs generalizing stream edge with
  | nil => exact ⟨stream, rfl, by simpa using h⟩
  | cons pair pairs ih =>
      obtain ⟨next, hnext, hholds⟩ := h.unionKeys pair
      obtain ⟨result, hresult, hall⟩ := ih hholds
      refine ⟨result, by simp [hnext, hresult], ?_⟩
      simpa [or_assoc, Prod.ext_iff] using hall

end KeyStream.Holds

theorem unionStream_spec (pairs : List (UInt64 × UInt64)) :
    ∃ stream, unionStream pairs = some stream ∧ stream.Holds fun a b => (a, b) ∈ pairs := by
  have hempty : KeyStream.Holds { ids := ∅, keys := [], unionFind := { parent := [], rank := [] } }
      fun _ _ => False := by
    refine ⟨by simp, by simp, ?_⟩
    refine (UnionFind.tracks_withLen 0).congr ?_
    intro i j
    exact ⟨eqvGen_of_edges fun _ _ h => h.elim, eqvGen_of_edges fun _ _ ⟨_, _, h, _⟩ => h.elim⟩
  obtain ⟨stream, hstream, hholds⟩ := hempty.foldlM pairs
  exact ⟨stream, hstream, by simpa using hholds⟩

/-- A key at either end of a pair of the stream. -/
def Mentioned (pairs : List (UInt64 × UInt64)) (key : UInt64) : Prop :=
  ∃ pair ∈ pairs, key = pair.1 ∨ key = pair.2

/-- Interning adds no key but its own. -/
theorem mem_keys_internKey {stream : KeyStream} {key other : UInt64}
    (h : other ∈ (internKey key stream).2.keys) : other ∈ stream.keys ∨ other = key := by
  unfold internKey at h
  split at h
  · exact Or.inl h
  · rwa [List.mem_append, List.mem_singleton] at h

theorem mem_keys_unionKeys {stream result : KeyStream} {pair : UInt64 × UInt64} {key : UInt64}
    (hunion : unionKeys stream pair = some result) (h : key ∈ result.keys) :
    key ∈ stream.keys ∨ key = pair.1 ∨ key = pair.2 := by
  have hkeys : result.keys = (internKey pair.2 (internKey pair.1 stream).2).2.keys := by
    simp only [unionKeys, Option.bind_eq_bind, Option.bind_eq_some_iff] at hunion
    obtain ⟨unionFind, _, heq⟩ := hunion
    obtain rfl := Option.some.inj heq
    rfl
  rw [hkeys] at h
  rcases mem_keys_internKey h with hfirst | hsecond
  · rcases mem_keys_internKey hfirst with hold | hleft
    · exact Or.inl hold
    · exact Or.inr (Or.inl hleft)
  · exact Or.inr (Or.inr hsecond)

/-- A stream numbers only keys that it mentions. -/
theorem mentioned_of_mem_keys {pairs : List (UInt64 × UInt64)} {stream result : KeyStream}
    (hfold : pairs.foldlM unionKeys stream = some result) {key : UInt64} (h : key ∈ result.keys) :
    key ∈ stream.keys ∨ Mentioned pairs key := by
  induction pairs generalizing stream with
  | nil =>
      rw [List.foldlM_nil] at hfold
      rw [Option.some.inj hfold]
      exact Or.inl h
  | cons pair pairs ih =>
      rw [List.foldlM_cons] at hfold
      obtain ⟨middle, hunion, hrest⟩ := Option.bind_eq_some_iff.mp hfold
      rcases ih hrest with hmiddle | ⟨later, hlater, hend⟩
      · rcases mem_keys_unionKeys hunion hmiddle with hold | hend
        · exact Or.inl hold
        · exact Or.inr ⟨pair, List.mem_cons_self, hend⟩
      · exact Or.inr ⟨later, List.mem_cons_of_mem pair hlater, hend⟩

/-- Grouping a stream gives the components of the keys it mentions. -/
theorem groupPairs_spec (order : VisitOrder Nat (List UInt64)) (pairs : List (UInt64 × UInt64))
    (minSize : Nat) :
    ∃ groups, groupPairs order pairs minSize = some groups ∧
      IsGroups (Mentioned pairs) (EqvGen fun a b => (a, b) ∈ pairs) minSize groups := by
  obtain ⟨stream, hstream, hholds⟩ := unionStream_spec pairs
  have hmembers : ∀ (id : Nat) (key : UInt64),
      (id, key) ∈ (stream.keys.zipIdx.map fun slot => (slot.2, slot.1)) ↔
        stream.keys[id]? = some key := by
    intro id key
    simp only [List.mem_map, Prod.exists, List.mk_mem_zipIdx_iff_getElem?, Prod.mk.injEq]
    constructor
    · rintro ⟨_, _, hkey, rfl, rfl⟩
      exact hkey
    · intro hkey
      exact ⟨key, id, hkey, rfl, rfl⟩
  have hnodup : (stream.keys.zipIdx.map fun slot => (slot.2, slot.1)).Nodup := by
    refine List.Nodup.of_map Prod.fst ?_
    have hids : (stream.keys.zipIdx.map Prod.snd).Nodup := by
      rw [List.zipIdx_map_snd]
      exact List.nodup_range'
    simpa [Function.comp_def] using hids
  have hsound : ∀ i j, KeyStream.nodeEdge stream.keys (fun a b => (a, b) ∈ pairs) i j →
      ∃ a b, stream.keys[i]? = some a ∧ stream.keys[j]? = some b ∧
        EqvGen (fun a b => (a, b) ∈ pairs) a b :=
    fun i j ⟨a, b, hab, hi, hj⟩ => ⟨a, b, hi, hj, .rel _ _ hab⟩
  have hcomplete : ∀ a b, (a, b) ∈ pairs → ∃ i j : Nat, stream.keys[i]? = some a ∧
      stream.keys[j]? = some b ∧
        EqvGen (KeyStream.nodeEdge stream.keys fun a b => (a, b) ∈ pairs) i j := by
    intro a b hab
    obtain ⟨i, hi⟩ := List.mem_iff_getElem?.mp (hholds.numbered a b hab).1
    obtain ⟨j, hj⟩ := List.mem_iff_getElem?.mp (hholds.numbered a b hab).2
    exact ⟨i, j, hi, hj, .rel _ _ ⟨a, b, hab, hi, hj⟩⟩
  obtain ⟨groups, hgroups, hresult⟩ := collectDefaultGroups_spec hholds.tracks hmembers hnodup
    (fun id key hkey => (List.getElem?_eq_some_iff.mp hkey).1) hholds.injective hsound hcomplete
    order minSize
  have hvertex : (fun key => ∃ id : Nat, stream.keys[id]? = some key) = Mentioned pairs := by
    funext key
    refine propext ⟨?_, ?_⟩
    · rintro ⟨id, hid⟩
      rcases mentioned_of_mem_keys hstream (List.mem_of_getElem? hid) with hnone | hmentioned
      · cases hnone
      · exact hmentioned
    · rintro ⟨⟨a, b⟩, hab, hend | hend⟩
      · rw [hend]
        exact List.mem_iff_getElem?.mp (hholds.numbered a b hab).1
      · rw [hend]
        exact List.mem_iff_getElem?.mp (hholds.numbered a b hab).2
  rw [hvertex] at hresult
  exact ⟨groups, by simp [groupPairs, hstream, hgroups], hresult⟩

/-! ## The three ways agree -/

/-- A class of two or more is a class over any vertices that include the joined ones. -/
theorem isClass_of_isClass {vertex other : UInt64 → Prop} {joined : UInt64 → UInt64 → Prop}
    (hvertex : ∀ a b, joined a b → a ≠ b → vertex a ∧ vertex b)
    (hother : ∀ a b, joined a b → a ≠ b → other a ∧ other b) {members : List UInt64}
    (hlength : 2 ≤ members.length) (h : IsClass vertex joined members) :
    IsClass other joined members := by
  obtain ⟨hsorted, a, ha, hmem⟩ := h
  obtain ⟨b, hb, hne⟩ : ∃ b ∈ members, b ≠ a := by
    by_contra hall
    push Not at hall
    have hsubset : members ⊆ [a] := fun b hb => List.mem_singleton.mpr (hall b hb)
    have := (hsorted.nodup.subperm hsubset).length_le
    simp only [List.length_singleton] at this
    omega
  have haOther : other a := (hother a b ((hmem b).mp hb).2 hne.symm).1
  refine ⟨hsorted, a, haOther, fun c => ?_⟩
  rw [hmem]
  by_cases hca : c = a
  · rw [hca]
    exact and_congr_left' (iff_of_true ha haOther)
  · constructor
    · rintro ⟨_, hjoined⟩
      exact ⟨(hother a c hjoined (Ne.symm hca)).2, hjoined⟩
    · rintro ⟨_, hjoined⟩
      exact ⟨(hvertex a c hjoined (Ne.symm hca)).2, hjoined⟩

theorem isGroups_of_isGroups {vertex other : UInt64 → Prop} {joined : UInt64 → UInt64 → Prop}
    {minSize : Nat} (hminSize : 2 ≤ minSize)
    (hvertex : ∀ a b, joined a b → a ≠ b → vertex a ∧ vertex b)
    (hother : ∀ a b, joined a b → a ≠ b → other a ∧ other b) {groups : List DuplicateGroup}
    (h : IsGroups vertex joined minSize groups) : IsGroups other joined minSize groups := by
  refine ⟨h.ascending, h.sorted, h.representative, fun members => ?_⟩
  rw [h.classes]
  refine and_congr_left fun hlength => ?_
  exact ⟨isClass_of_isClass hvertex hother (by omega),
    isClass_of_isClass hother hvertex (by omega)⟩

theorem ends_of_eqvGen {vertex : UInt64 → Prop} {edge : UInt64 → UInt64 → Prop}
    (hedge : ∀ a b, edge a b → vertex a ∧ vertex b) (a b : UInt64) (h : EqvGen edge a b)
    (hne : a ≠ b) : vertex a ∧ vertex b := by
  rcases eqvGen_cases h with heq | ⟨⟨c, hc⟩, d, hd⟩
  · exact absurd heq hne
  · exact ⟨hc.elim (fun h => (hedge a c h).1) fun h => (hedge c a h).2,
      hd.elim (fun h => (hedge b d h).1) fun h => (hedge d b h).2⟩

/-- Streaming the candidate pairs of an index gives its groups. -/
theorem IndexData.Holds.groupPairs {data : IndexData} {bands : Nat} {rows : Rows}
    (h : data.Holds bands rows) {pairs : List (UInt64 × UInt64)}
    (hsound : ∀ pair ∈ pairs, data.Joins (fun _ _ => true) pair.1 pair.2)
    (hcomplete : ∀ left right, data.Joins (fun _ _ => true) left right →
      orderedPair left right ∈ pairs) (order : VisitOrder Nat (List UInt64)) :
    ∃ groups, groupPairs order pairs 2 = some groups ∧
      IsGroups (fun key => rows key ≠ none) (EqvGen (data.Joins fun _ _ => true)) 2 groups := by
  obtain ⟨groups, hgroups, hresult⟩ := groupPairs_spec order pairs 2
  have hvertex : ∀ a b, (a, b) ∈ pairs → Mentioned pairs a ∧ Mentioned pairs b :=
    fun a b hab => ⟨⟨(a, b), hab, Or.inl rfl⟩, ⟨(a, b), hab, Or.inr rfl⟩⟩
  have hjoined : (EqvGen fun a b => (a, b) ∈ pairs) = EqvGen (data.Joins fun _ _ => true) := by
    funext a b
    refine propext ⟨eqvGen_of_edges ?_, eqvGen_of_edges ?_⟩
    · exact fun a b hab => .rel _ _ (hsound (a, b) hab)
    · intro a b hab
      have hmem := hcomplete a b hab
      rcases CandidatePairs.orderedPair_cases a b with hpair | hpair
      · rw [hpair] at hmem
        exact .rel _ _ hmem
      · rw [hpair] at hmem
        exact .symm _ _ (.rel _ _ hmem)
  refine ⟨groups, hgroups, ?_⟩
  have hends := ends_of_eqvGen hvertex
  rw [hjoined] at hresult hends
  refine isGroups_of_isGroups (le_refl 2) hends (ends_of_eqvGen ?_) hresult
  rintro a b ⟨_, hshares, _⟩
  obtain ⟨leftRow, rightRow, hleft, hright, _⟩ := h.sharesBucket_iff.mp hshares
  simp [hleft, hright]

section Agreement

variable {scheme : SignatureScheme} {index : LshIndex scheme} {live : LiveItems scheme}

/-- On every reachable index and for all orders of the hash tables of the three calls, direct
grouping, verified grouping that accepts everything, and grouping the streamed candidate pairs
return the same groups. -/
theorem Reachable.groups_agree (h : Reachable index live) (orders verifiedOrders : HashOrders)
    (pairsOrder : VisitOrder UInt64 (List UInt32)) (streamOrder : VisitOrder Nat (List UInt64)) :
    ∃ groups pairs, duplicateGroups index.data orders = some groups ∧
      duplicateGroupsWith index.data verifiedOrders 2 (fun _ _ => true) = some groups ∧
      candidatePairs index.data pairsOrder = some pairs ∧
      groupPairs streamOrder pairs 2 = some groups := by
  have hholds : index.data.Holds index.config.params.bands (rowsOfLive index.config live) :=
    h.holds
  obtain ⟨groups, hgroups, hdirect⟩ := hholds.duplicateGroups orders
  obtain ⟨verified, hverified, hwith⟩ := hholds.duplicateGroupsWith verifiedOrders 2 fun _ _ => true
  obtain ⟨pairs, hpairs, hsound, hcomplete⟩ := hholds.candidatePairs pairsOrder
  obtain ⟨streamed, hstreamed, hstream⟩ := hholds.groupPairs hsound hcomplete streamOrder
  refine ⟨groups, pairs, hgroups, ?_, hpairs, ?_⟩
  · rw [hdirect.unique hwith, hverified]
  · rw [hdirect.unique hstream, hstreamed]

/-- The three ways agree on an index of two items with one sketch. -/
theorem groups_agree_two_items :
    ∃ groups pairs, duplicateGroups (LshIndex.insertMany ⟨sampleConfig, IndexData.new 2⟩
        [(7, sampleSketch), (9, sampleSketch)]).2.data sortedOrders = some groups ∧
      candidatePairs (LshIndex.insertMany ⟨sampleConfig, IndexData.new 2⟩
        [(7, sampleSketch), (9, sampleSketch)]).2.data sortedOrders.buckets = some pairs ∧
      groupPairs sortedOrders.roots pairs 2 = some groups := by
  have hrun := sampleReachable [(7, sampleSketch), (9, sampleSketch)] (by decide)
  obtain ⟨groups, pairs, hgroups, _, hpairs, hstreamed⟩ :=
    hrun.groups_agree sortedOrders sortedOrders sortedOrders.buckets sortedOrders.roots
  exact ⟨groups, pairs, hgroups, hpairs, hstreamed⟩

end Agreement

end Pari.Index
