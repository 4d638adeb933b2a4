/-
# What a sketch absorbs

The sketch as its type has it: beside the seed and the values it keeps the multipliers and
offsets it was built with. Updates, merges, resets and reconstructions keep these the function
of the seed and the length that a new sketch draws, and every value is the minimum, over the
hashes absorbed so far, of its permuted hash. The values are therefore a function of a set, and
merging is its union.
-/

import Mathlib.Data.Finset.Lattice.Fold
import Pari.Core.Sketching
import Pari.Data.BandTables

namespace Pari.Core

open Data Pari.Format

/-! ## Words -/

instance (scheme : SignatureScheme) : LinearOrder (Word scheme) :=
  match scheme with
  | .pariAffine32V1 => inferInstanceAs (LinearOrder UInt32)
  | .pariAffine64V1 => inferInstanceAs (LinearOrder UInt64)

theorem Word.le_max (scheme : SignatureScheme) (word : Word scheme) : word ≤ Word.max scheme := by
  cases scheme with
  | pariAffine32V1 =>
      have hlt := UInt32.toNat_lt word
      show UInt32.toNat word ≤ 2 ^ 32 - 1
      omega
  | pariAffine64V1 =>
      have hlt := UInt64.toNat_lt word
      show UInt64.toNat word ≤ 2 ^ 64 - 1
      omega

/-- `u32::MAX` and `u64::MAX`. -/
instance (scheme : SignatureScheme) : OrderTop (Word scheme) where
  top := Word.max scheme
  le_top := Word.le_max scheme

/-- `next_u32` takes the low half of a draw. -/
def Word.ofDraw : (scheme : SignatureScheme) → UInt64 → Word scheme
  | .pariAffine32V1 => fun draw => UInt64.toUInt32 draw
  | .pariAffine64V1 => fun draw => draw

/-- `next_u32() | 1` and `next_u64() | 1`. -/
def Word.oddOfDraw : (scheme : SignatureScheme) → UInt64 → Word scheme
  | .pariAffine32V1 => fun draw => UInt64.toUInt32 draw ||| 1
  | .pariAffine64V1 => fun draw => (draw ||| 1 : UInt64)

/-- `fmix32` and `fmix64`. -/
def Word.fmix : (scheme : SignatureScheme) → Word scheme → Word scheme
  | .pariAffine32V1 => fmix32
  | .pariAffine64V1 => fmix64

/-- `multiplier.wrapping_mul(mixed).wrapping_add(*offset)` -/
def Word.permuted : (scheme : SignatureScheme) → Word scheme × Word scheme → Word scheme →
    Word scheme
  | .pariAffine32V1 => fun (permutation : UInt32 × UInt32) (mixed : UInt32) =>
      (permutation.1 * mixed + permutation.2 : UInt32)
  | .pariAffine64V1 => fun (permutation : UInt64 × UInt64) (mixed : UInt64) =>
      (permutation.1 * mixed + permutation.2 : UInt64)

/-! ## The stored sketch -/

/-- The fields of `MinHash32` and `MinHash64`. -/
@[ext]
structure StoredSketch (scheme : SignatureScheme) where
  seed : UInt64
  hashvalues : List (Word scheme)
  multipliers : List (Word scheme)
  offsets : List (Word scheme)

def validateNumPerm (numPerm : Nat) : Except MinHashError Unit :=
  rejectIf (numPerm = 0 ∨ 2 ^ 32 ≤ numPerm) (.invalidPermutationCount numPerm)

/-- The multipliers and the offsets of a new sketch. -/
def multipliersOf (scheme : SignatureScheme) (seed : UInt64) (numPerm : Nat) : List (Word scheme) :=
  (draws numPerm seed).1.map (Word.oddOfDraw scheme)

def offsetsOf (scheme : SignatureScheme) (seed : UInt64) (numPerm : Nat) : List (Word scheme) :=
  (draws numPerm (draws numPerm seed).2).1.map (Word.ofDraw scheme)

namespace StoredSketch

variable {scheme : SignatureScheme}

def numPerm (sketch : StoredSketch scheme) : Nat := sketch.hashvalues.length

def new (scheme : SignatureScheme) (numPerm : Nat) (seed : UInt64) :
    Except MinHashError (StoredSketch scheme) := do
  validateNumPerm numPerm
  return {
    seed
    hashvalues := List.replicate numPerm (Word.max scheme)
    multipliers := multipliersOf scheme seed numPerm
    offsets := offsetsOf scheme seed numPerm }

def fromSignature (signature : List (Word scheme)) (seed : UInt64) :
    Except MinHashError (StoredSketch scheme) := do
  let sketch ← new scheme signature.length seed
  return { sketch with hashvalues := signature }

def updateHashed (sketch : StoredSketch scheme) (hash : Word scheme) : StoredSketch scheme :=
  let mixed := Word.fmix scheme hash
  { sketch with
    hashvalues := zipUpdate (fun current permutation =>
      let permuted := Word.permuted scheme permutation mixed
      if permuted < current then permuted else current)
      sketch.hashvalues (sketch.multipliers.zip sketch.offsets) }

/-- Add one byte string. -/
def update (sha1 : Bytes → Bytes) (sketch : StoredSketch scheme) (value : Bytes) :
    StoredSketch scheme :=
  sketch.updateHashed (sha1Hash sha1 scheme value)

def updateMany (sha1 : Bytes → Bytes) (sketch : StoredSketch scheme) (values : List Bytes) :
    StoredSketch scheme :=
  values.foldl (update sha1) sketch

def ensureCompatible (sketch other : StoredSketch scheme) : Except MinHashError Unit := do
  rejectIf (sketch.seed ≠ other.seed) (.incompatibleSeed sketch.seed other.seed)
  rejectIf (sketch.hashvalues.length ≠ other.hashvalues.length)
    (.incompatiblePermutationCount sketch.hashvalues.length other.hashvalues.length)

/-- The sketch merged with another one, which stays as it is when the two do not fit. -/
def merge (sketch other : StoredSketch scheme) : Except MinHashError (StoredSketch scheme) := do
  sketch.ensureCompatible other
  return { sketch with hashvalues := zipUpdate min sketch.hashvalues other.hashvalues }

def clear (sketch : StoredSketch scheme) : StoredSketch scheme :=
  { sketch with hashvalues := List.replicate sketch.hashvalues.length (Word.max scheme) }

end StoredSketch

/-! ## Absorbed hashes -/

variable {scheme : SignatureScheme} {sha1 : Bytes → Bytes}

/-- The sketches a caller can make, each with the hashes it absorbed since it was new or was
cleared. -/
inductive Absorbs (sha1 : Bytes → Bytes) : StoredSketch scheme → Finset (Word scheme) → Prop
  | new {numPerm : Nat} {seed : UInt64} {sketch : StoredSketch scheme}
      (hnew : StoredSketch.new scheme numPerm seed = .ok sketch) : Absorbs sha1 sketch ∅
  | update {sketch : StoredSketch scheme} {absorbed : Finset (Word scheme)}
      (hrun : Absorbs sha1 sketch absorbed) (value : Bytes) :
      Absorbs sha1 (sketch.update sha1 value) (insert (sha1Hash sha1 scheme value) absorbed)
  | updateMany {sketch : StoredSketch scheme} {absorbed : Finset (Word scheme)}
      (hrun : Absorbs sha1 sketch absorbed) (values : List Bytes) :
      Absorbs sha1 (sketch.updateMany sha1 values)
        ((values.map (sha1Hash sha1 scheme)).toFinset ∪ absorbed)
  | clear {sketch : StoredSketch scheme} {absorbed : Finset (Word scheme)}
      (hrun : Absorbs sha1 sketch absorbed) : Absorbs sha1 sketch.clear ∅
  | merge {sketch other merged : StoredSketch scheme} {absorbed others : Finset (Word scheme)}
      (hrun : Absorbs sha1 sketch absorbed) (hother : Absorbs sha1 other others)
      (hmerge : sketch.merge other = .ok merged) : Absorbs sha1 merged (absorbed ∪ others)
  | fromSignature {sketch rebuilt : StoredSketch scheme} {absorbed : Finset (Word scheme)}
      (hrun : Absorbs sha1 sketch absorbed)
      (hrebuilt : StoredSketch.fromSignature sketch.hashvalues sketch.seed = .ok rebuilt) :
      Absorbs sha1 rebuilt absorbed

/-- The permutations of a seed and a length. -/
def permutationsOf (scheme : SignatureScheme) (seed : UInt64) (numPerm : Nat) :
    List (Word scheme × Word scheme) :=
  (multipliersOf scheme seed numPerm).zip (offsetsOf scheme seed numPerm)

/-- The least permuted hash of a set, the largest word for none. -/
def leastPermuted (absorbed : Finset (Word scheme)) (permutation : Word scheme × Word scheme) :
    Word scheme :=
  absorbed.inf fun hash => Word.permuted scheme permutation (Word.fmix scheme hash)

/-- The sketch of a set of hashes. -/
def sketchOf (scheme : SignatureScheme) (seed : UInt64) (numPerm : Nat)
    (absorbed : Finset (Word scheme)) : StoredSketch scheme where
  seed
  hashvalues := (permutationsOf scheme seed numPerm).map (leastPermuted absorbed)
  multipliers := multipliersOf scheme seed numPerm
  offsets := offsetsOf scheme seed numPerm

section Sets

variable {seed : UInt64} {numPerm : Nat} {absorbed others : Finset (Word scheme)}

@[simp]
theorem length_permutationsOf : (permutationsOf scheme seed numPerm).length = numPerm := by
  simp [permutationsOf, multipliersOf, offsetsOf]

@[simp]
theorem length_hashvalues_sketchOf :
    (sketchOf scheme seed numPerm absorbed).hashvalues.length = numPerm := by
  simp [sketchOf]

/-- One update for every position. -/
theorem zipUpdate_map {α β γ : Type*} (update : β → γ → β) (items : List α) (left : α → β)
    (right : α → γ) :
    zipUpdate update (items.map left) (items.map right) =
      items.map fun item => update (left item) (right item) := by
  induction items with
  | nil => rfl
  | cons item items ih => rw [List.map_cons, List.map_cons, zipUpdate, ih, List.map_cons]

theorem map_leastPermuted_empty (permutations : List (Word scheme × Word scheme)) :
    permutations.map (leastPermuted ∅) = List.replicate permutations.length (Word.max scheme) := by
  rw [List.eq_replicate_iff]
  refine ⟨List.length_map _, fun word hmem => ?_⟩
  obtain ⟨permutation, _, rfl⟩ := List.mem_map.mp hmem
  exact Finset.inf_empty

theorem new_eq_ok_iff {sketch : StoredSketch scheme} :
    StoredSketch.new scheme numPerm seed = .ok sketch ↔
      ValidNumPerm numPerm ∧ sketchOf scheme seed numPerm ∅ = sketch := by
  have hempty : sketchOf scheme seed numPerm ∅ = {
      seed
      hashvalues := List.replicate numPerm (Word.max scheme)
      multipliers := multipliersOf scheme seed numPerm
      offsets := offsetsOf scheme seed numPerm } := by
    rw [sketchOf, map_leastPermuted_empty, length_permutationsOf]
  rw [hempty]
  simp only [StoredSketch.new, validateNumPerm, bind_eq_ok_iff, rejectIf_eq_ok_iff, exists_const,
    pure_eq_ok_iff, not_or, not_le, ValidNumPerm, Nat.pos_iff_ne_zero]

theorem updateHashed_sketchOf (hash : Word scheme) :
    (sketchOf scheme seed numPerm absorbed).updateHashed hash =
      sketchOf scheme seed numPerm (insert hash absorbed) := by
  have hvalues : zipUpdate (fun current permutation =>
      let permuted := Word.permuted scheme permutation (Word.fmix scheme hash)
      if permuted < current then permuted else current)
      ((permutationsOf scheme seed numPerm).map (leastPermuted absorbed))
      (permutationsOf scheme seed numPerm) =
      (permutationsOf scheme seed numPerm).map (leastPermuted (insert hash absorbed)) := by
    conv_lhs => rw [← List.map_id (permutationsOf scheme seed numPerm), List.map_map, zipUpdate_map]
    refine List.map_congr_left fun permutation _ => ?_
    rw [leastPermuted, Finset.inf_insert]
    dsimp only [id]
    split
    · next hlt => exact (min_eq_left hlt.le).symm
    · next hle => exact (min_eq_right (not_lt.mp hle)).symm
  exact StoredSketch.ext rfl hvalues rfl rfl

theorem update_sketchOf (value : Bytes) :
    (sketchOf scheme seed numPerm absorbed).update sha1 value =
      sketchOf scheme seed numPerm (insert (sha1Hash sha1 scheme value) absorbed) :=
  updateHashed_sketchOf _

theorem updateMany_sketchOf (values : List Bytes) :
    (sketchOf scheme seed numPerm absorbed).updateMany sha1 values =
      sketchOf scheme seed numPerm ((values.map (sha1Hash sha1 scheme)).toFinset ∪ absorbed) := by
  induction values generalizing absorbed with
  | nil => simp [StoredSketch.updateMany]
  | cons value values ih =>
      rw [StoredSketch.updateMany, List.foldl_cons, update_sketchOf, ← StoredSketch.updateMany, ih,
        List.map_cons, List.toFinset_cons, Finset.insert_union, Finset.union_insert]

theorem merge_sketchOf :
    (sketchOf scheme seed numPerm absorbed).merge (sketchOf scheme seed numPerm others) =
      .ok (sketchOf scheme seed numPerm (absorbed ∪ others)) := by
  have hvalues : zipUpdate min
      ((permutationsOf scheme seed numPerm).map (leastPermuted absorbed))
      ((permutationsOf scheme seed numPerm).map (leastPermuted others)) =
      (permutationsOf scheme seed numPerm).map (leastPermuted (absorbed ∪ others)) := by
    rw [zipUpdate_map]
    exact List.map_congr_left fun permutation _ => Finset.inf_union.symm
  rw [StoredSketch.merge, StoredSketch.ensureCompatible, rejectIf_of_not (by simp [sketchOf]),
    ok_bind, rejectIf_of_not (by simp), ok_bind]
  exact congrArg Except.ok (StoredSketch.ext rfl hvalues rfl rfl)

theorem clear_sketchOf :
    (sketchOf scheme seed numPerm absorbed).clear = sketchOf scheme seed numPerm ∅ := by
  refine StoredSketch.ext rfl ?_ rfl rfl
  show List.replicate _ _ = List.map _ _
  rw [map_leastPermuted_empty, length_permutationsOf, length_hashvalues_sketchOf]

theorem fromSignature_sketchOf (hvalid : ValidNumPerm numPerm) :
    StoredSketch.fromSignature (sketchOf scheme seed numPerm absorbed).hashvalues seed =
      .ok (sketchOf scheme seed numPerm absorbed) := by
  rw [StoredSketch.fromSignature, length_hashvalues_sketchOf,
    new_eq_ok_iff.mpr ⟨hvalid, rfl⟩, ok_bind]
  rfl

end Sets

/-- Every sketch is the sketch of the hashes it absorbed. -/
theorem Absorbs.eq_sketchOf {sketch : StoredSketch scheme} {absorbed : Finset (Word scheme)}
    (h : Absorbs sha1 sketch absorbed) :
    ∃ seed numPerm, ValidNumPerm numPerm ∧ sketch = sketchOf scheme seed numPerm absorbed := by
  induction h with
  | @new numPerm seed sketch hnew =>
      obtain ⟨hvalid, rfl⟩ := new_eq_ok_iff.mp hnew
      exact ⟨seed, numPerm, hvalid, rfl⟩
  | update hrun value ih =>
      obtain ⟨seed, numPerm, hvalid, rfl⟩ := ih
      exact ⟨seed, numPerm, hvalid, update_sketchOf value⟩
  | updateMany hrun values ih =>
      obtain ⟨seed, numPerm, hvalid, rfl⟩ := ih
      exact ⟨seed, numPerm, hvalid, updateMany_sketchOf values⟩
  | clear hrun ih =>
      obtain ⟨seed, numPerm, hvalid, rfl⟩ := ih
      exact ⟨seed, numPerm, hvalid, clear_sketchOf⟩
  | merge hrun hother hmerge ih ih' =>
      obtain ⟨seed, numPerm, hvalid, rfl⟩ := ih
      obtain ⟨seed', numPerm', _, rfl⟩ := ih'
      -- Sketches that merge have one seed and one length.
      have hfits := hmerge
      simp only [StoredSketch.merge, StoredSketch.ensureCompatible, bind_eq_ok_iff,
        rejectIf_eq_ok_iff, exists_const, not_not, ne_eq, length_hashvalues_sketchOf] at hfits
      obtain ⟨⟨hseed, rfl⟩, _⟩ := hfits
      obtain rfl : seed = seed' := hseed
      rw [merge_sketchOf] at hmerge
      exact ⟨seed, numPerm, hvalid, (Except.ok.inj hmerge).symm⟩
  | @fromSignature sketch rebuilt absorbed hrun hrebuilt ih =>
      obtain ⟨seed, numPerm, hvalid, rfl⟩ := ih
      have hsame := @fromSignature_sketchOf scheme seed numPerm absorbed hvalid
      exact ⟨seed, numPerm, hvalid, Except.ok.inj (hrebuilt.symm.trans hsame)⟩

theorem Absorbs.valid {sketch : StoredSketch scheme} {absorbed : Finset (Word scheme)}
    (h : Absorbs sha1 sketch absorbed) : ValidNumPerm sketch.numPerm := by
  obtain ⟨seed, numPerm, hvalid, rfl⟩ := h.eq_sketchOf
  rwa [StoredSketch.numPerm, length_hashvalues_sketchOf]

/-- A sketch of the same seed and length is the sketch of its own hashes. -/
theorem Absorbs.eq_of_fits {other : StoredSketch scheme} {others absorbed : Finset (Word scheme)}
    {seed : UInt64} {numPerm : Nat} (h : Absorbs sha1 other others)
    (hseed : other.seed = (sketchOf scheme seed numPerm absorbed).seed)
    (hlength : other.numPerm = (sketchOf scheme seed numPerm absorbed).numPerm) :
    other = sketchOf scheme seed numPerm others := by
  obtain ⟨seed', numPerm', _, rfl⟩ := h.eq_sketchOf
  rw [StoredSketch.numPerm, StoredSketch.numPerm, length_hashvalues_sketchOf,
    length_hashvalues_sketchOf] at hlength
  obtain rfl : seed' = seed := hseed
  rw [hlength]

/-! ## The finished sketch -/

/-- The sketch without the arrays that its seed and length determine. -/
def StoredSketch.finished (sketch : StoredSketch scheme) (h : ValidNumPerm sketch.numPerm) :
    MinHash scheme where
  seed := sketch.seed
  signature := sketch.hashvalues
  valid := h

theorem zipUpdate_eq_zipWith {α β : Type*} (update : α → β → α) {values : List α} {partners : List β}
    (h : partners.length = values.length) :
    zipUpdate update values partners =
      List.zipWith (fun partner value => update value partner) partners values := by
  induction values generalizing partners with
  | nil =>
      rw [List.length_eq_zero_iff.mp h]
      rfl
  | cons value values ih =>
      cases partners with
      | nil => cases h
      | cons partner partners =>
          rw [zipUpdate, ih (Nat.succ.inj h), List.zipWith_cons_cons]

attribute [ext] MinHash

/-- A new stored sketch is a new sketch. -/
theorem finished_new {seed : UInt64} {numPerm : Nat} {sketch : StoredSketch scheme}
    (hnew : StoredSketch.new scheme numPerm seed = .ok sketch) (h : ValidNumPerm sketch.numPerm) :
    MinHash.new scheme numPerm seed = .ok (sketch.finished h) := by
  obtain ⟨hvalid, rfl⟩ := new_eq_ok_iff.mp hnew
  rw [MinHash.new, dif_pos hvalid]
  refine congrArg Except.ok (MinHash.ext rfl ?_)
  show List.replicate numPerm (Word.max scheme) = List.map _ _
  rw [map_leastPermuted_empty, length_permutationsOf]

/-- Updating the stored sketch updates the finished one. -/
theorem finished_update {sketch : StoredSketch scheme} {absorbed : Finset (Word scheme)}
    (h : Absorbs sha1 sketch absorbed) (value : Bytes) :
    (sketch.update sha1 value).finished (h.update value).valid =
      (sketch.finished h.valid).update sha1 value := by
  obtain ⟨seed, numPerm, hvalid, rfl⟩ := h.eq_sketchOf
  have hpermutations : (permutationsOf scheme seed numPerm) =
      (permutations seed numPerm).map fun draw =>
        (Word.oddOfDraw scheme draw.1, Word.ofDraw scheme draw.2) := by
    rw [permutationsOf, multipliersOf, offsetsOf, permutations, List.zip_map]
    rfl
  have hlower : ∀ (draw : UInt64 × UInt64) (hash current : Word scheme),
      Word.lower scheme draw hash current =
        if Word.permuted scheme (Word.oddOfDraw scheme draw.1, Word.ofDraw scheme draw.2)
            (Word.fmix scheme hash) < current then
          Word.permuted scheme (Word.oddOfDraw scheme draw.1, Word.ofDraw scheme draw.2)
            (Word.fmix scheme hash)
        else current := by
    cases scheme <;> exact fun _ _ _ => rfl
  have hvalues : zipUpdate (fun current permutation =>
      let permuted := Word.permuted scheme permutation
        (Word.fmix scheme (sha1Hash sha1 scheme value))
      if permuted < current then permuted else current)
      (sketchOf scheme seed numPerm absorbed).hashvalues (permutationsOf scheme seed numPerm) =
      List.zipWith (fun permutation current =>
        Word.lower scheme permutation (sha1Hash sha1 scheme value) current)
        (permutations seed numPerm) (sketchOf scheme seed numPerm absorbed).hashvalues := by
    rw [zipUpdate_eq_zipWith _ (by simp), hpermutations, List.zipWith_map_left]
    simp only [hlower]
  have hlength : (sketchOf scheme seed numPerm absorbed).hashvalues.length = numPerm :=
    length_hashvalues_sketchOf
  refine MinHash.ext rfl (hvalues.trans ?_)
  show _ = List.zipWith _ (permutations seed
    (sketchOf scheme seed numPerm absorbed).hashvalues.length) _
  rw [hlength]
  rfl

/-- What a sketch has absorbed determines it: every value is the least permuted hash of the set.
Updates commute and are idempotent; merging sketches of one seed and length is the union, which
is commutative, associative and idempotent; and a sketch rebuilt from its signature is the
sketch itself. -/
theorem Absorbs.determined {sketch : StoredSketch scheme} {absorbed : Finset (Word scheme)}
    (h : Absorbs sha1 sketch absorbed) :
    sketch.hashvalues = (permutationsOf scheme sketch.seed sketch.numPerm).map (fun permutation =>
      absorbed.inf fun hash => Word.permuted scheme permutation (Word.fmix scheme hash)) ∧
    (∀ other, Absorbs sha1 other absorbed → other.seed = sketch.seed →
      other.numPerm = sketch.numPerm → other = sketch) ∧
    (∀ value second, (sketch.update sha1 value).update sha1 second =
      (sketch.update sha1 second).update sha1 value) ∧
    (∀ value, (sketch.update sha1 value).update sha1 value = sketch.update sha1 value) ∧
    (∀ other others, Absorbs sha1 other others → other.seed = sketch.seed →
      other.numPerm = sketch.numPerm → ∃ merged, sketch.merge other = .ok merged ∧
        other.merge sketch = .ok merged ∧ Absorbs sha1 merged (absorbed ∪ others) ∧
        ∀ third thirds, Absorbs sha1 third thirds → third.seed = sketch.seed →
          third.numPerm = sketch.numPerm →
            merged.merge third = (do let rest ← other.merge third; sketch.merge rest)) ∧
    sketch.merge sketch = .ok sketch ∧
    StoredSketch.fromSignature sketch.hashvalues sketch.seed = .ok sketch := by
  obtain ⟨seed, numPerm, hvalid, rfl⟩ := h.eq_sketchOf
  refine ⟨?_, ?_, ?_, ?_, ?_, ?_, fromSignature_sketchOf hvalid⟩
  · rw [StoredSketch.numPerm, length_hashvalues_sketchOf]
    rfl
  · intro other hother hseed hlength
    exact hother.eq_of_fits hseed hlength
  · intro value second
    rw [update_sketchOf, update_sketchOf, update_sketchOf, update_sketchOf, Finset.insert_comm]
  · intro value
    rw [update_sketchOf, update_sketchOf, Finset.insert_idem]
  · intro other others hother hseed hlength
    obtain rfl := hother.eq_of_fits hseed hlength
    refine ⟨_, merge_sketchOf, ?_, h.merge hother merge_sketchOf, ?_⟩
    · rw [merge_sketchOf, Finset.union_comm]
    · intro third thirds hthird hseed' hlength'
      obtain rfl := hthird.eq_of_fits hseed' hlength'
      rw [merge_sketchOf, merge_sketchOf, ok_bind, merge_sketchOf, Finset.union_assoc]
  · rw [merge_sketchOf, Finset.union_self]

/-- A sketch of two permutations after one update. -/
theorem determined_first_update :
    ∃ sketch, StoredSketch.new .pariAffine32V1 2 1 = .ok sketch ∧
      (sketch.update id [7, 7, 7, 7]).hashvalues =
        (permutationsOf .pariAffine32V1 1 2).map fun permutation =>
          Word.permuted .pariAffine32V1 permutation (Word.fmix .pariAffine32V1
            (sha1Hash id .pariAffine32V1 [7, 7, 7, 7])) := by
  have hnew := (@new_eq_ok_iff .pariAffine32V1 1 2 _).mpr ⟨⟨by decide, by decide⟩, rfl⟩
  refine ⟨_, hnew, ?_⟩
  have hrun : Absorbs id _ (insert (sha1Hash id .pariAffine32V1 [7, 7, 7, 7]) ∅) :=
    (Absorbs.new hnew).update [7, 7, 7, 7]
  rw [hrun.determined.1]
  simp only [Finset.inf_insert, Finset.inf_empty, inf_top_eq]
  rfl

end Pari.Core
