/-
# Grouping candidates

The three ways from an index to duplicate groups: unioning every bucket with its first
live member, unioning verified pairs of every bucket, and streaming unique candidate
pairs into a second union-find that numbers keys as they come. Hash tables are visited
in orders that are parameters. A result of `none` is a panic or a loop that does not
end.
-/

import Pari.Index.LiveItems
import Pari.Index.UnionFind
import Mathlib.Data.Finset.Insert
import Mathlib.Data.Prod.Lex

namespace Pari.Index

open Data

/-- One deterministic connected component of duplicate candidates. -/
@[ext]
structure DuplicateGroup where
  representative : UInt64
  members : List UInt64
  deriving DecidableEq, Repr

/-- Groups are compared by representative, then by members. -/
instance : LinearOrder DuplicateGroup :=
  LinearOrder.lift' (fun group => toLex (group.representative, group.members))
    fun left right h => by
      have hpair : (left.representative, left.members) = (right.representative, right.members) :=
        toLex.injective h
      exact DuplicateGroup.ext (congrArg Prod.fst hpair) (congrArg Prod.snd hpair)

/-- The orders in which the hash tables of one call are visited. -/
structure HashOrders where
  buckets : VisitOrder UInt64 (List UInt32)
  roots : VisitOrder Nat (List UInt64)

def orderedPair {α : Type} [LinearOrder α] (left right : α) : α × α :=
  if left ≤ right then (left, right) else (right, left)

/-! ## Collecting the groups -/

/-- The loop that files every member under its root. -/
def collectByRoot : List (Nat × UInt64) → UnionFind → Table Nat UInt64 → Option (Table Nat UInt64)
  | [], _, byRoot => some byRoot
  | (id, key) :: members, unionFind, byRoot =>
      if unionFind.len ≤ id then collectByRoot members unionFind byRoot
      else do
        let (root, unionFind) ← unionFind.find id
        collectByRoot members unionFind (pushAt byRoot root key)

def collectComponents (order : VisitOrder Nat (List UInt64)) (unionFind : UnionFind)
    (members : List (Nat × UInt64)) (minSize : Nat) : Option (List (List UInt64)) := do
  let byRoot ← collectByRoot members unionFind ∅
  return collectClasses order 0 byRoot (max minSize 1)

def collectDefaultGroups (order : VisitOrder Nat (List UInt64)) (unionFind : UnionFind)
    (members : List (Nat × UInt64)) (minSize : Nat) : Option (List DuplicateGroup) := do
  let components ← collectComponents order unionFind members minSize
  let groups ← components.mapM fun members =>
    members.head?.map fun representative => { representative, members }
  return sortUnstable groups

/-! ## Unioning the buckets of an index -/

/-- `index.buckets` and the values of each table, as a loop visits them. -/
def visitedBuckets (data : IndexData) (order : VisitOrder UInt64 (List UInt32)) :
    List (List UInt32) :=
  data.buckets.zipIdx.flatMap fun table => (order.entries table.2 table.1).map Prod.snd

/-- The pairs of a bucket at positions `left_index < right_index`, in loop order. -/
def bucketPairs : List UInt32 → List (UInt32 × UInt32)
  | [] => []
  | id :: ids => ids.map (fun other => (id, other)) ++ bucketPairs ids

/-- Union an accepted pair. -/
def unionVerified (data : IndexData) (verify : UInt64 → UInt64 → Bool) (unionFind : UnionFind)
    (pair : UInt32 × UInt32) : Option UnionFind :=
  match data.liveKey pair.1, data.liveKey pair.2 with
  | some leftKey, some rightKey =>
      let keys := orderedPair leftKey rightKey
      if verify keys.1 keys.2 then unionFind.union pair.1.toNat pair.2.toNat
      else some unionFind
  | _, _ => some unionFind

/-- The body of the pair loop: a pair that is already connected is not verified. -/
def unionPair (data : IndexData) (verify : UInt64 → UInt64 → Bool) (unionFind : UnionFind)
    (pair : UInt32 × UInt32) : Option UnionFind := do
  let (connected, unionFind) ← unionFind.connected pair.1.toNat pair.2.toNat
  if connected then return unionFind
  unionVerified data verify unionFind pair

def unionIndexBuckets (data : IndexData) (order : VisitOrder UInt64 (List UInt32))
    (unionFind : UnionFind) (verify : UInt64 → UInt64 → Bool) : Option UnionFind :=
  (visitedBuckets data order).foldlM
    (fun unionFind ids => (bucketPairs ids).foldlM (unionPair data verify) unionFind) unionFind

/-- The loop over a bucket with its first live member as anchor. -/
def unionAnchored (data : IndexData) :
    Option Nat → UnionFind → List UInt32 → Option UnionFind
  | _, unionFind, [] => some unionFind
  | anchor, unionFind, id :: ids =>
      match data.liveKey id, anchor with
      | none, _ => unionAnchored data anchor unionFind ids
      | some _, none => unionAnchored data (some id.toNat) unionFind ids
      | some _, some anchorNode => do
          let unionFind ← unionFind.union anchorNode id.toNat
          unionAnchored data anchor unionFind ids

def unionIndexBucketsUnverified (data : IndexData) (order : VisitOrder UInt64 (List UInt32))
    (unionFind : UnionFind) : Option UnionFind :=
  (visitedBuckets data order).foldlM (unionAnchored data none) unionFind

/-- `id_to_key.iter().enumerate().filter_map(..)`: the live slots. -/
def liveMembers (data : IndexData) : List (Nat × UInt64) :=
  data.idToKey.zipIdx.filterMap fun slot => slot.1.map fun key => (slot.2, key)

/-- Group all LSH-connected candidates, returning components of size two or larger. -/
def duplicateGroups (data : IndexData) (orders : HashOrders) : Option (List DuplicateGroup) := do
  let unionFind ← unionIndexBucketsUnverified data orders.buckets
    (UnionFind.withLen data.idToKey.length)
  collectDefaultGroups orders.roots unionFind (liveMembers data) 2

/-- Group LSH candidates after application-level pair verification. -/
def duplicateGroupsWith (data : IndexData) (orders : HashOrders) (minSize : Nat)
    (verify : UInt64 → UInt64 → Bool) : Option (List DuplicateGroup) := do
  let unionFind ← unionIndexBuckets data orders.buckets
    (UnionFind.withLen data.idToKey.length) verify
  collectDefaultGroups orders.roots unionFind (liveMembers data) minSize

/-! ## Streaming candidate pairs -/

/-- The state of the candidate pair iterator. -/
structure CandidatePairs where
  buckets : List (List UInt32)
  bucketIndex : Nat
  leftIndex : Nat
  rightIndex : Nat
  seen : Finset (UInt32 × UInt32)

/-- Buckets with at least two members, in `(band, hash)` order. -/
def orderedBuckets (data : IndexData) (order : VisitOrder UInt64 (List UInt32)) :
    List (List UInt32) :=
  let ordered := data.buckets.zipIdx.flatMap fun table =>
    (order.entries table.2 table.1).filterMap fun entry =>
      if 2 ≤ entry.2.length then some (table.2, entry.1, entry.2) else none
  (ordered.insertionSort fun left right =>
    toLex (left.1, left.2.1) ≤ toLex (right.1, right.2.1)).map fun bucket => bucket.2.2

def CandidatePairs.new (data : IndexData) (order : VisitOrder UInt64 (List UInt32)) :
    CandidatePairs where
  buckets := orderedBuckets data order
  bucketIndex := 0
  leftIndex := 0
  rightIndex := 1
  seen := ∅

/-- What one turn of the loop in `next` does. -/
inductive Turn
  | exhausted
  | goOn (pairs : CandidatePairs)
  | found (pair : UInt64 × UInt64) (pairs : CandidatePairs)

/-- One turn of the loop in `next`. -/
def CandidatePairs.turn (data : IndexData) (pairs : CandidatePairs) : Turn :=
  match pairs.buckets[pairs.bucketIndex]? with
  | none => .exhausted
  | some ids =>
      if ids.length ≤ pairs.leftIndex + 1 then
        .goOn { pairs with bucketIndex := pairs.bucketIndex + 1, leftIndex := 0, rightIndex := 1 }
      else if ids.length ≤ pairs.rightIndex then
        .goOn { pairs with leftIndex := pairs.leftIndex + 1, rightIndex := pairs.leftIndex + 2 }
      else
        match ids[pairs.leftIndex]?, ids[pairs.rightIndex]? with
        | some left, some right =>
            let advanced := { pairs with rightIndex := pairs.rightIndex + 1 }
            let idPair := orderedPair left right
            if left = right ∨ idPair ∈ pairs.seen then .goOn advanced
            else
              let advanced := { advanced with seen := insert idPair pairs.seen }
              match data.liveKey idPair.1, data.liveKey idPair.2 with
              | some leftKey, some rightKey => .found (orderedPair leftKey rightKey) advanced
              | _, _ => .goOn advanced
        | _, _ => .exhausted

/-- The pairs the iterator yields within a number of turns, if it is then exhausted. -/
def CandidatePairs.collect (data : IndexData) :
    Nat → CandidatePairs → Option (List (UInt64 × UInt64))
  | 0, _ => none
  | fuel + 1, pairs =>
      match pairs.turn data with
      | .exhausted => some []
      | .goOn next => collect data fuel next
      | .found pair next => (collect data fuel next).map (pair :: ·)

/-- A number of turns in which a bucket of this length is passed. -/
def bucketTurns (length : Nat) : Nat := (length + 1) * (length + 1) + 1

/-- Everything `candidate_pairs` yields. -/
def candidatePairs (data : IndexData) (order : VisitOrder UInt64 (List UInt32)) :
    Option (List (UInt64 × UInt64)) :=
  let pairs := CandidatePairs.new data order
  pairs.collect data ((pairs.buckets.map fun ids => bucketTurns ids.length).sum + 1)

/-- The key numbering of a stream and its union-find. -/
structure KeyStream where
  ids : OrderedMap UInt64 Nat
  keys : List UInt64
  unionFind : UnionFind

def internKey (key : UInt64) (stream : KeyStream) : Nat × KeyStream :=
  match stream.ids[key]? with
  | some id => (id, stream)
  | none => (stream.keys.length, {
      ids := stream.ids.insert key stream.keys.length
      keys := stream.keys ++ [key]
      unionFind := stream.unionFind.push })

/-- Intern both keys of a pair and union their nodes. -/
def unionKeys (stream : KeyStream) (pair : UInt64 × UInt64) : Option KeyStream := do
  let (leftId, stream) := internKey pair.1 stream
  let (rightId, stream) := internKey pair.2 stream
  let unionFind ← stream.unionFind.union leftId rightId
  return { stream with unionFind }

def unionStream (pairs : List (UInt64 × UInt64)) : Option KeyStream :=
  pairs.foldlM unionKeys { ids := ∅, keys := [], unionFind := { parent := [], rank := [] } }

/-- Group a stream of key pairs into deterministic connected components. -/
def groupPairs (order : VisitOrder Nat (List UInt64)) (pairs : List (UInt64 × UInt64))
    (minSize : Nat) : Option (List DuplicateGroup) := do
  let stream ← unionStream pairs
  collectDefaultGroups order stream.unionFind (stream.keys.zipIdx.map fun slot => (slot.2, slot.1))
    minSize

end Pari.Index
