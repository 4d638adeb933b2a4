/-
# Duplicate groups of an index

An edge between identifiers is an accepted pair of live identifiers that share a bucket.
The pair loops and the anchor loop leave a union-find that tracks these edges, whatever
the order of the buckets, and the groups are the connected components of the accepted
candidate pairs of keys.
-/

import Pari.Index.Groups

namespace Pari.Index

open Data Relation Pari.Format Pari.Core

/-! ## Edges of a bucket -/

section Edges

variable {data : IndexData} {verify : UInt64 → UInt64 → Bool} {unionFind : UnionFind} {n : Nat}
  {edge : Nat → Nat → Prop}

theorem orderedPair_comm {α : Type} [LinearOrder α] (left right : α) :
    orderedPair left right = orderedPair right left := by
  rcases lt_trichotomy left right with h | rfl | h
  · simp [orderedPair, h.le, h.not_ge]
  · rfl
  · simp [orderedPair, h.le, h.not_ge]

/-- Both identifiers are live and the verifier accepts their keys. -/
def IndexData.Accepts (data : IndexData) (verify : UInt64 → UInt64 → Bool)
    (left right : UInt32) : Prop :=
  ∃ leftKey rightKey, data.liveKey left = some leftKey ∧ data.liveKey right = some rightKey ∧
    verify (orderedPair leftKey rightKey).1 (orderedPair leftKey rightKey).2 = true

theorem IndexData.Accepts.symm {left right : UInt32} (h : data.Accepts verify left right) :
    data.Accepts verify right left := by
  obtain ⟨leftKey, rightKey, hleft, hright, hverify⟩ := h
  refine ⟨rightKey, leftKey, hright, hleft, ?_⟩
  rwa [orderedPair_comm]

/-- The nodes of two accepted members of a bucket. -/
def bucketEdge (data : IndexData) (verify : UInt64 → UInt64 → Bool) (ids : List UInt32)
    (i j : Nat) : Prop :=
  ∃ left ∈ ids, ∃ right ∈ ids, left ≠ right ∧ data.Accepts verify left right ∧
    left.toNat = i ∧ right.toNat = j

/-- The node of a live identifier is in range. -/
theorem toNat_lt_of_liveKey {id : UInt32} {key : UInt64} (h : data.liveKey id = some key) :
    id.toNat < data.idToKey.length := by
  by_contra hge
  rw [IndexData.liveKey, List.getElem?_eq_none (not_lt.mp hge)] at h
  cases h

/-- Union of an accepted pair adds its edge; any other pair adds nothing. -/
theorem unionVerified_spec (h : unionFind.Tracks n edge) {pair : UInt32 × UInt32}
    (hleft : pair.1.toNat < n) (hright : pair.2.toNat < n) :
    ∃ result, unionVerified data verify unionFind pair = some result ∧
      result.Tracks n fun a b => edge a b ∨
        data.Accepts verify pair.1 pair.2 ∧ pair.1.toNat = a ∧ pair.2.toNat = b := by
  by_cases haccepts : data.Accepts verify pair.1 pair.2
  · obtain ⟨leftKey, rightKey, hleftKey, hrightKey, hverify⟩ := id haccepts
    obtain ⟨result, hunion, htracks⟩ := h.union hleft hright
    refine ⟨result, ?_, htracks.congr ?_⟩
    · simp [unionVerified, hleftKey, hrightKey, hverify, hunion]
    · intro i j
      simp [haccepts, eq_comm]
  · refine ⟨unionFind, ?_, h.congr (by simp [haccepts])⟩
    unfold unionVerified
    split
    · next leftKey rightKey hleftKey hrightKey =>
        refine if_neg fun hverify => haccepts ⟨leftKey, rightKey, hleftKey, hrightKey, hverify⟩
    · rfl

/-- Skipping a connected pair leaves out no edge that joins anything new. -/
theorem unionPair_spec (h : unionFind.Tracks n edge) {pair : UInt32 × UInt32}
    (hleft : pair.1.toNat < n) (hright : pair.2.toNat < n) :
    ∃ result, unionPair data verify unionFind pair = some result ∧
      result.Tracks n fun a b => edge a b ∨
        data.Accepts verify pair.1 pair.2 ∧ pair.1.toNat = a ∧ pair.2.toNat = b := by
  obtain ⟨answer, next, hconnected, hanswer, htracks⟩ := h.connected hleft hright
  cases answer with
  | true =>
      have hjoined := hanswer.mp rfl
      refine ⟨next, by simp [unionPair, hconnected], htracks.congr fun i j => ?_⟩
      by_cases haccepts : data.Accepts verify pair.1 pair.2
      · rw [← eqvGen_insert_of_joined hjoined]
        simp [haccepts, eq_comm]
      · simp [haccepts]
  | false =>
      obtain ⟨result, hverified, hresult⟩ := unionVerified_spec htracks hleft hright
      exact ⟨result, by simp [unionPair, hconnected, hverified], hresult⟩

theorem mem_of_mem_bucketPairs {ids : List UInt32} {pair : UInt32 × UInt32}
    (h : pair ∈ bucketPairs ids) : pair.1 ∈ ids ∧ pair.2 ∈ ids := by
  induction ids with
  | nil => cases h
  | cons id ids ih =>
      rw [bucketPairs, List.mem_append, List.mem_map] at h
      rcases h with ⟨other, hother, rfl⟩ | htail
      · exact ⟨List.mem_cons_self, List.mem_cons_of_mem id hother⟩
      · exact ⟨List.mem_cons_of_mem id (ih htail).1, List.mem_cons_of_mem id (ih htail).2⟩

theorem ne_of_mem_bucketPairs {ids : List UInt32} (hnodup : ids.Nodup) {pair : UInt32 × UInt32}
    (h : pair ∈ bucketPairs ids) : pair.1 ≠ pair.2 := by
  induction ids with
  | nil => cases h
  | cons id ids ih =>
      rw [List.nodup_cons] at hnodup
      rw [bucketPairs, List.mem_append, List.mem_map] at h
      rcases h with ⟨other, hother, rfl⟩ | htail
      · intro (heq : id = other)
        exact hnodup.1 (heq ▸ hother)
      · exact ih hnodup.2 htail

/-- Every two different members of a bucket are paired in one order. -/
theorem mem_bucketPairs_or {ids : List UInt32} {left right : UInt32} (hleft : left ∈ ids)
    (hright : right ∈ ids) (hne : left ≠ right) :
    (left, right) ∈ bucketPairs ids ∨ (right, left) ∈ bucketPairs ids := by
  induction ids with
  | nil => cases hleft
  | cons id ids ih =>
      simp only [bucketPairs, List.mem_append, List.mem_map, Prod.mk.injEq]
      rcases List.mem_cons.mp hleft with rfl | hleftTail
      · rcases List.mem_cons.mp hright with rfl | hrightTail
        · exact absurd rfl hne
        · exact Or.inl (Or.inl ⟨right, hrightTail, rfl, rfl⟩)
      · rcases List.mem_cons.mp hright with rfl | hrightTail
        · exact Or.inr (Or.inl ⟨left, hleftTail, rfl, rfl⟩)
        · exact (ih hleftTail hrightTail).imp Or.inr Or.inr

/-- A loop over the pairs of a bucket adds the edges of the bucket. -/
theorem unionPairs_spec {step : UnionFind → UInt32 × UInt32 → Option UnionFind}
    {ids : List UInt32} (hnodup : ids.Nodup) (hrange : ∀ id ∈ ids, id.toNat < n)
    (hstep : ∀ (unionFind : UnionFind) (edge : Nat → Nat → Prop) (pair : UInt32 × UInt32),
      unionFind.Tracks n edge → pair.1.toNat < n → pair.2.toNat < n →
      ∃ result, step unionFind pair = some result ∧ result.Tracks n fun a b => edge a b ∨
        data.Accepts verify pair.1 pair.2 ∧ pair.1.toNat = a ∧ pair.2.toNat = b)
    (h : unionFind.Tracks n edge) :
    ∃ result, (bucketPairs ids).foldlM step unionFind = some result ∧
      result.Tracks n fun a b => edge a b ∨ bucketEdge data verify ids a b := by
  have hpairs : ∀ pair ∈ bucketPairs ids, ∀ (unionFind : UnionFind) (edge : Nat → Nat → Prop),
      unionFind.Tracks n edge → ∃ result, step unionFind pair = some result ∧
        result.Tracks n fun a b => edge a b ∨
          data.Accepts verify pair.1 pair.2 ∧ pair.1.toNat = a ∧ pair.2.toNat = b := by
    intro pair hpair unionFind edge htracks
    obtain ⟨hleft, hright⟩ := mem_of_mem_bucketPairs hpair
    exact hstep unionFind edge pair htracks (hrange _ hleft) (hrange _ hright)
  obtain ⟨result, hfold, htracks⟩ := h.foldlM hpairs
  refine ⟨result, hfold, htracks.congr fun i j => ⟨eqvGen_of_edges ?_, eqvGen_of_edges ?_⟩⟩
  · rintro a b (hold | ⟨pair, hpair, haccepts, rfl, rfl⟩)
    · exact .rel _ _ (Or.inl hold)
    · obtain ⟨hleft, hright⟩ := mem_of_mem_bucketPairs hpair
      exact .rel _ _ (Or.inr
        ⟨_, hleft, _, hright, ne_of_mem_bucketPairs hnodup hpair, haccepts, rfl, rfl⟩)
  · rintro a b (hold | ⟨left, hleft, right, hright, hne, haccepts, rfl, rfl⟩)
    · exact .rel _ _ (Or.inl hold)
    · rcases mem_bucketPairs_or hleft hright hne with hpair | hpair
      · exact .rel _ _ (Or.inr ⟨_, hpair, haccepts, rfl, rfl⟩)
      · exact .symm _ _ (.rel _ _ (Or.inr ⟨_, hpair, haccepts.symm, rfl, rfl⟩))

/-- The loop behind an anchor joins every live identifier to it. -/
theorem unionAnchored_anchor_spec (h : unionFind.Tracks n edge) {ids : List UInt32} {anchor : Nat}
    (hanchor : anchor < n) (hlive : ∀ id ∈ ids, data.liveKey id ≠ none)
    (hrange : ∀ id ∈ ids, id.toNat < n) :
    ∃ result, unionAnchored data (some anchor) unionFind ids = some result ∧
      result.Tracks n fun a b => edge a b ∨ ∃ id ∈ ids, a = anchor ∧ b = id.toNat := by
  induction ids generalizing unionFind edge with
  | nil => exact ⟨unionFind, rfl, h.congr (by simp)⟩
  | cons id ids ih =>
      rw [List.forall_mem_cons] at hlive hrange
      obtain ⟨key, hkey⟩ := Option.ne_none_iff_exists'.mp hlive.1
      obtain ⟨next, hunion, htracks⟩ := h.union hanchor hrange.1
      obtain ⟨result, hresult, hall⟩ := ih htracks hlive.2 hrange.2
      refine ⟨result, ?_, hall.congr (by simp [or_assoc])⟩
      simp [unionAnchored, hkey, hunion, hresult]

/-- The anchor loop over a bucket of live identifiers joins what all its pairs join. -/
theorem unionAnchored_spec (h : unionFind.Tracks n edge) {ids : List UInt32}
    (hnodup : ids.Nodup) (hlive : ∀ id ∈ ids, data.liveKey id ≠ none)
    (hrange : ∀ id ∈ ids, id.toNat < n) :
    ∃ result, unionAnchored data none unionFind ids = some result ∧
      result.Tracks n fun a b => edge a b ∨ bucketEdge data (fun _ _ => true) ids a b := by
  have haccepts : ∀ left ∈ ids, ∀ right ∈ ids,
      data.Accepts (fun _ _ => true) left right := by
    intro left hleft right hright
    obtain ⟨leftKey, hleftKey⟩ := Option.ne_none_iff_exists'.mp (hlive left hleft)
    obtain ⟨rightKey, hrightKey⟩ := Option.ne_none_iff_exists'.mp (hlive right hright)
    exact ⟨leftKey, rightKey, hleftKey, hrightKey, rfl⟩
  cases ids with
  | nil => exact ⟨unionFind, rfl, h.congr (by simp [bucketEdge])⟩
  | cons first rest =>
      rw [List.nodup_cons] at hnodup
      obtain ⟨result, hresult, htracks⟩ := unionAnchored_anchor_spec h
        (hrange first List.mem_cons_self) (List.forall_mem_cons.mp hlive).2
        (List.forall_mem_cons.mp hrange).2
      obtain ⟨key, hkey⟩ := Option.ne_none_iff_exists'.mp (hlive first List.mem_cons_self)
      refine ⟨result, by simp [unionAnchored, hkey, hresult], htracks.congr fun i j =>
        ⟨eqvGen_of_edges ?_, eqvGen_of_edges ?_⟩⟩
      · rintro a b (hold | ⟨id, hid, rfl, rfl⟩)
        · exact .rel _ _ (Or.inl hold)
        · have hmem := List.mem_cons_of_mem first hid
          refine .rel _ _ (Or.inr ⟨first, List.mem_cons_self, id, hmem, ?_,
            haccepts first List.mem_cons_self id hmem, rfl, rfl⟩)
          rintro rfl
          exact hnodup.1 hid
      · -- Every member is joined to the anchor, so any two members are joined through it.
        have hanchored : ∀ id ∈ first :: rest, EqvGen (fun a b => edge a b ∨
            ∃ id ∈ rest, a = first.toNat ∧ b = id.toNat) first.toNat id.toNat := by
          intro id hid
          rcases List.mem_cons.mp hid with rfl | hid
          · exact .refl _
          · exact .rel _ _ (Or.inr ⟨id, hid, rfl, rfl⟩)
        rintro a b (hold | ⟨left, hleft, right, hright, _, _, rfl, rfl⟩)
        · exact .rel _ _ (Or.inl hold)
        · exact (hanchored left hleft).symm.trans _ _ _ (hanchored right hright)

end Edges

/-! ## The buckets of an index -/

section Buckets

variable {data : IndexData} {bands : Nat} {rows : Rows}

/-- The visited buckets are the buckets of the tables. -/
theorem mem_visitedBuckets_iff {order : VisitOrder UInt64 (List UInt32)} {ids : List UInt32} :
    ids ∈ visitedBuckets data order ↔
      ∃ table ∈ data.buckets, ∃ hash : UInt64, table[hash]? = some ids := by
  simp only [visitedBuckets, List.mem_flatMap, List.mem_map, Prod.exists]
  constructor
  · rintro ⟨table, index, hmem, hash, bucket, hentry, rfl⟩
    exact ⟨table, List.fst_mem_of_mem_zipIdx hmem, hash, order.mem_entries_iff.mp hentry⟩
  · rintro ⟨table, htable, hash, hids⟩
    obtain ⟨index, hindex⟩ := List.mem_iff_getElem?.mp htable
    exact ⟨table, index, List.mk_mem_zipIdx_iff_getElem?.mpr hindex, hash, ids,
      order.mem_entries_iff.mpr hids, rfl⟩

/-- What the members of a bucket satisfy: each once, each live, each with a row that has the
hash of the bucket in its band. -/
theorem IndexData.Holds.bucket (h : data.Holds bands rows) {table : Table UInt64 UInt32}
    (htable : table ∈ data.buckets) {hash : UInt64} {ids : List UInt32}
    (hids : table[hash]? = some ids) :
    ids.Nodup ∧ ∃ band : Nat, ∀ id, id ∈ ids ↔
      ∃ (key : UInt64) (row : List UInt64),
        data.liveKey id = some key ∧ rows key = some row ∧ row[band]? = some hash := by
  obtain ⟨band, hband⟩ := List.mem_iff_getElem?.mp htable
  have hrepresents := h.tables.table band table hband
  refine ⟨hrepresents.nodup hash ids hids, band, fun id => ?_⟩
  have hmem := hrepresents.mem_iff hash id
  rw [hids, Option.getD_some, hashIn, Option.bind_eq_some_iff] at hmem
  rw [hmem]
  constructor
  · rintro ⟨row, hrow, hhash⟩
    have hlive : data.liveKey id ≠ none := by
      rw [Ne, h.live, hrow]
      simp
    obtain ⟨key, hkey⟩ := Option.ne_none_iff_exists'.mp hlive
    exact ⟨key, row, hkey, h.rows_eq_some_iff.mpr ⟨id, hkey, hrow⟩, hhash⟩
  · rintro ⟨key, row, hkey, hrow, hhash⟩
    obtain ⟨other, hother, hstored⟩ := h.rows_eq_some_iff.mp hrow
    rw [h.liveKey_injective hkey hother]
    exact ⟨row, hstored, hhash⟩

/-- Two keys have internal identifiers in one bucket of one table. -/
def IndexData.SharesBucket (data : IndexData) (left right : UInt64) : Prop :=
  ∃ table ∈ data.buckets, ∃ (hash : UInt64) (ids : List UInt32), table[hash]? = some ids ∧
    ∃ leftId ∈ ids, ∃ rightId ∈ ids,
      data.liveKey leftId = some left ∧ data.liveKey rightId = some right

/-- Keys share a bucket exactly when their rows share a band. -/
theorem IndexData.Holds.sharesBucket_iff (h : data.Holds bands rows) {left right : UInt64} :
    data.SharesBucket left right ↔ ∃ leftRow rightRow,
      rows left = some leftRow ∧ rows right = some rightRow ∧ SharesBand leftRow rightRow := by
  constructor
  · rintro ⟨table, htable, hash, ids, hids, leftId, hleftId, rightId, hrightId, hleft, hright⟩
    obtain ⟨_, band, hmem⟩ := h.bucket htable hids
    obtain ⟨leftKey, leftRow, hleftKey, hleftRow, hleftHash⟩ := (hmem leftId).mp hleftId
    obtain ⟨rightKey, rightRow, hrightKey, hrightRow, hrightHash⟩ := (hmem rightId).mp hrightId
    rw [hleft] at hleftKey
    rw [hright] at hrightKey
    obtain rfl := Option.some.inj hleftKey
    obtain rfl := Option.some.inj hrightKey
    exact ⟨leftRow, rightRow, hleftRow, hrightRow, band, hash, hleftHash, hrightHash⟩
  · rintro ⟨leftRow, rightRow, hleftRow, hrightRow, band, hash, hleftHash, hrightHash⟩
    obtain ⟨leftId, hleft, hleftStored⟩ := h.rows_eq_some_iff.mp hleftRow
    obtain ⟨rightId, hright, hrightStored⟩ := h.rows_eq_some_iff.mp hrightRow
    have hlt : band < data.buckets.length := by
      rw [h.tables.length, ← h.tables.width leftId leftRow hleftStored]
      exact (List.getElem?_eq_some_iff.mp hleftHash).1
    have hband : data.buckets[band]? = some data.buckets[band] := List.getElem?_eq_getElem hlt
    have hrepresents := h.tables.table band _ hband
    have hleftMem : leftId ∈ (data.buckets[band])[hash]?.getD [] := by
      rw [hrepresents.mem_iff, hashIn, hleftStored, Option.bind_some, hleftHash]
    have hrightMem : rightId ∈ (data.buckets[band])[hash]?.getD [] := by
      rw [hrepresents.mem_iff, hashIn, hrightStored, Option.bind_some, hrightHash]
    refine ⟨_, List.getElem_mem hlt, hash, (data.buckets[band])[hash]?.getD [], ?_,
      leftId, hleftMem, rightId, hrightMem, hleft, hright⟩
    cases hids : (data.buckets[band])[hash]? with
    | none => simp [hids] at hleftMem
    | some ids => rfl

/-- An accepted candidate pair of different keys. -/
def IndexData.Joins (data : IndexData) (verify : UInt64 → UInt64 → Bool) (left right : UInt64) :
    Prop :=
  left ≠ right ∧ data.SharesBucket left right ∧ verify (min left right) (max left right) = true

theorem orderedPair_eq {α : Type} [LinearOrder α] (left right : α) :
    orderedPair left right = (min left right, max left right) := by
  rw [orderedPair]
  split
  · next h => rw [min_eq_left h, max_eq_right h]
  · next h => rw [min_eq_right (le_of_not_ge h), max_eq_left (le_of_not_ge h)]

/-- The live slots, as labels of union-find nodes. -/
theorem mem_liveMembers_iff (h : data.Holds bands rows) {node : Nat} {key : UInt64} :
    (node, key) ∈ liveMembers data ↔ ∃ id, data.liveKey id = some key ∧ id.toNat = node := by
  have hslot : (node, key) ∈ liveMembers data ↔ data.idToKey[node]? = some (some key) := by
    simp only [liveMembers, List.mem_filterMap, Option.map_eq_some_iff, Prod.mk.injEq, Prod.exists,
      List.mk_mem_zipIdx_iff_getElem?]
    constructor
    · rintro ⟨_, _, hslot, _, rfl, rfl, rfl⟩
      exact hslot
    · intro hslot
      exact ⟨some key, node, hslot, key, rfl, rfl, rfl⟩
  rw [hslot]
  constructor
  · intro hkey
    have hlt : node < 2 ^ 32 := by
      have := (List.getElem?_eq_some_iff.mp hkey).1
      have := h.capacity
      omega
    refine ⟨UInt32.ofNat node, ?_, toNat_ofNat32 hlt⟩
    rw [IndexData.liveKey, toNat_ofNat32 hlt, hkey]
    rfl
  · rintro ⟨id, hid, rfl⟩
    exact Option.join_eq_some_iff.mp hid

/-- The edges of the buckets connect identifiers of accepted candidate pairs. -/
theorem IndexData.Holds.edge_sound (h : data.Holds bands rows) {verify : UInt64 → UInt64 → Bool}
    {order : VisitOrder UInt64 (List UInt32)} (i j : Nat)
    (hij : False ∨ ∃ ids ∈ visitedBuckets data order, bucketEdge data verify ids i j) :
    ∃ a b, data.idToKey[i]?.join = some a ∧ data.idToKey[j]?.join = some b ∧
      EqvGen (data.Joins verify) a b := by
  rcases hij with hfalse | ⟨ids, hids, left, hleft, right, hright, hne, haccepts, rfl, rfl⟩
  · exact hfalse.elim
  · obtain ⟨leftKey, rightKey, hleftKey, hrightKey, hverify⟩ := haccepts
    obtain ⟨table, htable, hash, hbucket⟩ := mem_visitedBuckets_iff.mp hids
    refine ⟨leftKey, rightKey, hleftKey, hrightKey, .rel _ _ ⟨?_, ?_, ?_⟩⟩
    · rintro rfl
      exact hne (h.liveKey_injective hleftKey hrightKey)
    · exact ⟨table, htable, hash, ids, hbucket, left, hleft, right, hright, hleftKey, hrightKey⟩
    · rwa [orderedPair_eq] at hverify

/-- Every accepted candidate pair is an edge of a visited bucket. -/
theorem IndexData.edge_complete {verify : UInt64 → UInt64 → Bool}
    {order : VisitOrder UInt64 (List UInt32)} (a b : UInt64) (hab : data.Joins verify a b) :
    ∃ i j, data.idToKey[i]?.join = some a ∧ data.idToKey[j]?.join = some b ∧
      EqvGen (fun i j => False ∨ ∃ ids ∈ visitedBuckets data order,
        bucketEdge data verify ids i j) i j := by
  obtain ⟨hne, hshares, hverify⟩ := hab
  obtain ⟨table, htable, hash, ids, hids, left, hleft, right, hright, hleftKey, hrightKey⟩ :=
    hshares
  refine ⟨left.toNat, right.toNat, hleftKey, hrightKey, .rel _ _ (Or.inr ⟨ids,
    mem_visitedBuckets_iff.mpr ⟨table, htable, hash, hids⟩, left, hleft, right, hright, ?_,
    ⟨a, b, hleftKey, hrightKey, ?_⟩, rfl, rfl⟩)⟩
  · rintro rfl
    rw [hleftKey] at hrightKey
    exact hne (Option.some.inj hrightKey)
  · rwa [orderedPair_eq]

/-- A union-find that tracks the accepted pairs of all buckets yields the components of the
accepted candidate pairs. -/
theorem IndexData.Holds.collect (h : data.Holds bands rows) {verify : UInt64 → UInt64 → Bool}
    {order : VisitOrder UInt64 (List UInt32)} {unionFind : UnionFind}
    (htracks : unionFind.Tracks data.idToKey.length fun i j =>
      False ∨ ∃ ids ∈ visitedBuckets data order, bucketEdge data verify ids i j)
    (roots : VisitOrder Nat (List UInt64)) (minSize : Nat) :
    ∃ groups, collectDefaultGroups roots unionFind (liveMembers data) minSize = some groups ∧
      IsGroups (fun key => rows key ≠ none) (EqvGen (data.Joins verify)) minSize groups := by
  have hmembers : ∀ (node : Nat) (key : UInt64), (node, key) ∈ liveMembers data ↔
      data.idToKey[node]?.join = some key := by
    intro node key
    rw [mem_liveMembers_iff h]
    constructor
    · rintro ⟨id, hid, rfl⟩
      exact hid
    · intro hnode
      have hlt : node < 2 ^ 32 := by
        have := (List.getElem?_eq_some_iff.mp (Option.join_eq_some_iff.mp hnode)).1
        have := h.capacity
        omega
      refine ⟨UInt32.ofNat node, ?_, toNat_ofNat32 hlt⟩
      rwa [IndexData.liveKey, toNat_ofNat32 hlt]
  have hinjective : ∀ {i j : Nat} {key : UInt64}, data.idToKey[i]?.join = some key →
      data.idToKey[j]?.join = some key → i = j := by
    intro i j key hi hj
    obtain ⟨left, hleft, rfl⟩ := (mem_liveMembers_iff h).mp ((hmembers i key).mpr hi)
    obtain ⟨right, hright, rfl⟩ := (mem_liveMembers_iff h).mp ((hmembers j key).mpr hj)
    rw [h.liveKey_injective hleft hright]
  have hnodup : (liveMembers data).Nodup := by
    have hslots : (data.idToKey.zipIdx.map Prod.snd).Nodup := by
      rw [List.zipIdx_map_snd]
      exact List.nodup_range'
    refine List.Nodup.filterMap ?_ hslots.of_map
    rintro ⟨slot, i⟩ ⟨slot', j⟩ ⟨node, key⟩ hi hj
    simp only [Option.mem_def, Option.map_eq_some_iff, Prod.mk.injEq] at hi hj
    obtain ⟨_, rfl, rfl, rfl⟩ := hi
    obtain ⟨_, rfl, rfl, rfl⟩ := hj
    rfl
  have hrange : ∀ (node : Nat) (key : UInt64), data.idToKey[node]?.join = some key →
      node < data.idToKey.length :=
    fun node key hnode => (List.getElem?_eq_some_iff.mp (Option.join_eq_some_iff.mp hnode)).1
  obtain ⟨groups, hgroups, hresult⟩ := collectDefaultGroups_spec htracks hmembers hnodup hrange
    hinjective h.edge_sound IndexData.edge_complete roots minSize
  refine ⟨groups, hgroups, ?_⟩
  have hvertex : ∀ key, (∃ node : Nat, data.idToKey[node]?.join = some key) ↔ rows key ≠ none := by
    intro key
    rw [Option.ne_none_iff_exists']
    constructor
    · rintro ⟨node, hnode⟩
      obtain ⟨id, hid, _⟩ := (mem_liveMembers_iff h).mp ((hmembers node key).mpr hnode)
      have hrow : data.liveRow id ≠ none := by
        rw [Ne, ← h.live, hid]
        simp
      obtain ⟨row, hrow⟩ := Option.ne_none_iff_exists'.mp hrow
      exact ⟨row, h.rows_eq_some_iff.mpr ⟨id, hid, hrow⟩⟩
    · rintro ⟨row, hrow⟩
      obtain ⟨id, hid, _⟩ := h.rows_eq_some_iff.mp hrow
      exact ⟨id.toNat, hid⟩
  simpa only [hvertex] using hresult

/-- A loop over the visited buckets tracks the edges of all buckets. -/
theorem IndexData.Holds.visit (h : data.Holds bands rows) {verify : UInt64 → UInt64 → Bool}
    (order : VisitOrder UInt64 (List UInt32))
    {step : UnionFind → List UInt32 → Option UnionFind}
    (hstep : ∀ (ids : List UInt32), ids.Nodup → (∀ id ∈ ids, data.liveKey id ≠ none) →
      (∀ id ∈ ids, id.toNat < data.idToKey.length) →
      ∀ (unionFind : UnionFind) (edge : Nat → Nat → Prop),
        unionFind.Tracks data.idToKey.length edge →
        ∃ result, step unionFind ids = some result ∧
          result.Tracks data.idToKey.length fun a b =>
            edge a b ∨ bucketEdge data verify ids a b) :
    ∃ result, (visitedBuckets data order).foldlM step
        (UnionFind.withLen data.idToKey.length) = some result ∧
      result.Tracks data.idToKey.length fun i j =>
        False ∨ ∃ ids ∈ visitedBuckets data order, bucketEdge data verify ids i j := by
  refine (UnionFind.tracks_withLen data.idToKey.length).foldlM ?_
  intro ids hids
  obtain ⟨table, htable, hash, hbucket⟩ := mem_visitedBuckets_iff.mp hids
  obtain ⟨hnodup, band, hmem⟩ := h.bucket htable hbucket
  refine hstep ids hnodup ?_ ?_
  · intro id hid
    obtain ⟨key, _, hkey, _⟩ := (hmem id).mp hid
    simp [hkey]
  · intro id hid
    obtain ⟨key, _, hkey, _⟩ := (hmem id).mp hid
    exact toNat_lt_of_liveKey hkey

/-- The same grouping with every pair of a bucket verified, connected or not. -/
def duplicateGroupsUnpruned (data : IndexData) (orders : HashOrders) (minSize : Nat)
    (verify : UInt64 → UInt64 → Bool) : Option (List DuplicateGroup) := do
  let unionFind ← (visitedBuckets data orders.buckets).foldlM
    (fun unionFind ids => (bucketPairs ids).foldlM (unionVerified data verify) unionFind)
    (UnionFind.withLen data.idToKey.length)
  collectDefaultGroups orders.roots unionFind (liveMembers data) minSize

theorem IndexData.Holds.duplicateGroupsWith (h : data.Holds bands rows) (orders : HashOrders)
    (minSize : Nat) (verify : UInt64 → UInt64 → Bool) :
    ∃ groups, duplicateGroupsWith data orders minSize verify = some groups ∧
      IsGroups (fun key => rows key ≠ none) (EqvGen (data.Joins verify)) minSize groups := by
  obtain ⟨unionFind, hunion, htracks⟩ := h.visit orders.buckets
    fun ids hnodup _ hrange unionFind edge htracks =>
      @unionPairs_spec data verify unionFind _ edge (unionPair data verify) ids hnodup hrange
        (fun _ _ _ htracks hleft hright => unionPair_spec htracks hleft hright) htracks
  obtain ⟨groups, hgroups, hresult⟩ := h.collect htracks orders.roots minSize
  exact ⟨groups, by simp [Index.duplicateGroupsWith, unionIndexBuckets, hunion, hgroups], hresult⟩

theorem IndexData.Holds.duplicateGroupsUnpruned (h : data.Holds bands rows) (orders : HashOrders)
    (minSize : Nat) (verify : UInt64 → UInt64 → Bool) :
    ∃ groups, duplicateGroupsUnpruned data orders minSize verify = some groups ∧
      IsGroups (fun key => rows key ≠ none) (EqvGen (data.Joins verify)) minSize groups := by
  obtain ⟨unionFind, hunion, htracks⟩ := h.visit orders.buckets
    fun ids hnodup _ hrange unionFind edge htracks =>
      @unionPairs_spec data verify unionFind _ edge (unionVerified data verify) ids hnodup hrange
        (fun _ _ _ htracks hleft hright => unionVerified_spec htracks hleft hright) htracks
  obtain ⟨groups, hgroups, hresult⟩ := h.collect htracks orders.roots minSize
  exact ⟨groups, by simp [Index.duplicateGroupsUnpruned, hunion, hgroups], hresult⟩

theorem IndexData.Holds.duplicateGroups (h : data.Holds bands rows) (orders : HashOrders) :
    ∃ groups, duplicateGroups data orders = some groups ∧
      IsGroups (fun key => rows key ≠ none) (EqvGen (data.Joins fun _ _ => true)) 2 groups := by
  obtain ⟨unionFind, hunion, htracks⟩ := h.visit orders.buckets
    fun ids hnodup hlive hrange unionFind edge htracks =>
      unionAnchored_spec htracks hnodup hlive hrange
  obtain ⟨groups, hgroups, hresult⟩ := h.collect htracks orders.roots 2
  exact ⟨groups, by simp [Index.duplicateGroups, unionIndexBucketsUnverified, hunion, hgroups],
    hresult⟩

end Buckets

/-! ## Groups of a reachable index -/

variable {scheme : SignatureScheme} {index : LshIndex scheme} {live : LiveItems scheme}

/-- The rows of two live items share a band. -/
def SharesLiveBand (config : LshConfig) (live : LiveItems scheme) (left right : UInt64) : Prop :=
  ∃ leftItem rightItem, live left = some leftItem ∧ live right = some rightItem ∧
    SharesBand (computeBandHashes config.params leftItem.signature)
      (computeBandHashes config.params rightItem.signature)

theorem Reachable.sharesBucket_iff (h : Reachable index live) {left right : UInt64} :
    index.data.SharesBucket left right ↔ SharesLiveBand index.config live left right := by
  rw [IndexData.Holds.sharesBucket_iff h.holds]
  simp only [rowsOfLive, Option.map_eq_some_iff, SharesLiveBand]
  constructor
  · rintro ⟨_, _, ⟨leftItem, hleft, rfl⟩, ⟨rightItem, hright, rfl⟩, hshares⟩
    exact ⟨leftItem, rightItem, hleft, hright, hshares⟩
  · rintro ⟨leftItem, rightItem, hleft, hright, hshares⟩
    exact ⟨_, _, ⟨leftItem, hleft, rfl⟩, ⟨rightItem, hright, rfl⟩, hshares⟩

theorem rowsOfLive_ne_none_iff {config : LshConfig} {key : UInt64} :
    rowsOfLive config live key ≠ none ↔ live key ≠ none := by
  simp [rowsOfLive]

/-- Verified grouping of a reachable index gives the connected components, of the minimum
size, of the accepted pairs of distinct live keys that share a bucket, for every predicate and
every order of the hash tables. Verifying connected pairs as well gives the same groups. -/
theorem Reachable.duplicateGroupsWith_exact (h : Reachable index live) (orders : HashOrders)
    (minSize : Nat) (verify : UInt64 → UInt64 → Bool) :
    (∀ left right, index.data.SharesBucket left right ↔
      SharesLiveBand index.config live left right) ∧
    ∃ groups, duplicateGroupsWith index.data orders minSize verify = some groups ∧
      IsGroups (fun key => live key ≠ none)
        (EqvGen fun left right => left ≠ right ∧ index.data.SharesBucket left right ∧
          verify (min left right) (max left right) = true) minSize groups ∧
      duplicateGroupsUnpruned index.data orders minSize verify = some groups := by
  refine ⟨fun left right => h.sharesBucket_iff, ?_⟩
  obtain ⟨groups, hgroups, hresult⟩ :=
    IndexData.Holds.duplicateGroupsWith h.holds orders minSize verify
  obtain ⟨others, hothers, hunpruned⟩ :=
    IndexData.Holds.duplicateGroupsUnpruned h.holds orders minSize verify
  rw [← hresult.unique hunpruned] at hothers
  simp only [rowsOfLive_ne_none_iff] at hresult
  exact ⟨groups, hgroups, hresult, hothers⟩

def sortedOrders : HashOrders where
  buckets := VisitOrder.sorted _ _
  roots := VisitOrder.sorted _ _

/-- Two items with one sketch are grouped in their first index. -/
theorem duplicateGroupsWith_exact_two_items :
    ∃ groups, duplicateGroupsWith (LshIndex.insertMany ⟨sampleConfig, IndexData.new 2⟩
        [(7, sampleSketch), (9, sampleSketch)]).2.data sortedOrders 1 (fun _ _ => true) =
      some groups ∧ IsGroups (fun key => insertItems (fun _ => none)
        [(7, sampleSketch), (9, sampleSketch)] key ≠ none)
        (EqvGen fun left right => left ≠ right ∧ (LshIndex.insertMany
          ⟨sampleConfig, IndexData.new 2⟩
          [(7, sampleSketch), (9, sampleSketch)]).2.data.SharesBucket left right ∧ true = true)
        1 groups := by
  have hrun := sampleReachable [(7, sampleSketch), (9, sampleSketch)] (by decide)
  obtain ⟨groups, hgroups, hresult, _⟩ :=
    (hrun.duplicateGroupsWith_exact sortedOrders 1 fun _ _ => true).2
  exact ⟨groups, hgroups, hresult⟩

end Pari.Index
