/-
# Kept and dropped records

The groups that the engine returns are the connected components of the accepted candidate pairs,
so they are disjoint, and every group keeps one position. What remains is a partition of the
positions, in which every component keeps exactly its representative.
-/

import Pari.Python.Result
import Mathlib.Data.List.Pairwise

namespace Pari.Python

open Data Relation Pari.Format Pari.Core Pari.Index Pari.Store

variable {T : Type}

/-! ## From groups to a partition -/

namespace Classified

variable {records : List T} {joined : Nat → Nat → Prop} {groups : List (DuplicateGroup T)}

end Classified

/-! ## Converted groups -/

section Converting

variable [DecidableEq T] {records : List T} {joined : Nat → Nat → Prop}

end Converting

/-! ## The groups of the engine -/

section Classifying

variable {records : List T} {keyJoined : UInt64 → UInt64 → Prop} {joined : Nat → Nat → Prop}
  {raw : List Index.DuplicateGroup} {groups : List (DuplicateGroup T)}

end Classifying

/-! ## The components of the records -/

/-- Two records are an accepted candidate pair: the sketches of their features share a band, and
`exact`, if it is there, accepts them in the order of their positions. -/
structure Joined (sha1 : Bytes → Bytes) (config : LshConfig) (exact : Option (T → T → Bool))
    (entries : List (Entry T)) (left right : Nat) : Prop where
  ne : left ≠ right
  candidates : ∃ leftEntry rightEntry, entries[left]? = some leftEntry ∧
    entries[right]? = some rightEntry ∧
    SharesBand (computeBandHashes config.params (sketchRow sha1 config leftEntry.features).signature)
      (computeBandHashes config.params (sketchRow sha1 config rightEntry.features).signature)
  accepted : ∀ accepts, exact = some accepts → ∃ lower upper,
    entries[min left right]? = some lower ∧ entries[max left right]? = some upper ∧
      accepts lower.record upper.record = true

section Joining

variable {sha1 : Bytes → Bytes} {state : DedupeState} {entries : List (Entry T)}
  {exact : Option (T → T → Bool)}

theorem Joined.range {config : LshConfig} {i j : Nat} (h : Joined sha1 config exact entries i j) :
    i < entries.length ∧ j < entries.length := by
  obtain ⟨_, _, hleft, hright, _⟩ := h.candidates
  exact ⟨(List.getElem?_eq_some_iff.mp hleft).1, (List.getElem?_eq_some_iff.mp hright).1⟩

end Joining

/-! ## The result -/

section Results

variable [DecidableEq T] {crc : Checksum} {sha1 : Bytes → Bytes} {dedupe : Dedupe T}
  {state : DedupeState} {callbacks : Callbacks T}

end Results

/-! ## One object twice -/

end Pari.Python
