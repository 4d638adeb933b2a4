/-
# Searching an index

`pari search` opens the index as the type its metadata names and answers the queries line by
line. Of an index that `pari index` has published, the answers depend on the records alone: a
query is answered with the ascending keys of the records that share a band with it, whatever the
batch size and whichever of the calls of either command failed on the way. Progress events and
the two renderings of a result are left out.
-/

import Pari.Cli.BatchSize
import Pari.Data.Staging

namespace Pari.Cli

open Data Pari.Format Pari.Core Pari.Index Pari.Store

/-! ## Queries -/

structure QueryRecord where
  id : Option String
  values : Option (List String)
  signature : Option (List UInt64)
  scheme : Option String
  seed : Option UInt64
  deriving DecidableEq, Repr

/-- What the sketch makers read of a query; they read no key. -/
def QueryRecord.described (query : QueryRecord) : Record where
  key := 0
  values := query.values
  signature := query.signature
  scheme := query.scheme
  seed := query.seed

/-- A line of the input, decoded as any kind of record. -/
inductive JsonLine (ρ : Type)
  | blank
  | json (record : Except String ρ)
  | unreadable (error : IoError)

/-- Where reading the lines ends before the last: a line that cannot be read, one that is no such
record, or one on which the operation fails. -/
inductive LineError (ε : Type)
  | io (error : IoError)
  | invalidJson (line : Nat) (error : String)
  | failed (line : Nat) (error : ε)
  deriving DecidableEq, Repr

/-- `for_json_lines`, with an operation that changes nothing when it fails. -/
def forEachLine {ρ σ ε : Type} (operation : ρ → σ → Except ε σ) :
    Nat → List (JsonLine ρ) → σ → Except (LineError ε) Unit × σ
  | _, [], state => (.ok (), state)
  | _, .unreadable error :: _, state => (.error (.io error), state)
  | lines, .blank :: rest, state => forEachLine operation (lines + 1) rest state
  | lines, .json (.error error) :: _, state => (.error (.invalidJson (lines + 1) error), state)
  | lines, .json (.ok record) :: rest, state =>
      match operation record state with
      | .error error => (.error (.failed (lines + 1) error), state)
      | .ok state => forEachLine operation (lines + 1) rest state

section Searching

variable (crc : Checksum) (sha1 : Bytes → Bytes) {scheme : SignatureScheme}

end Searching

/-! ## What a query is answered with -/

section Answers

variable {scheme : SignatureScheme} {config : LshConfig}

theorem length_signatureWords {signature : List UInt64} {words : List (Word scheme)}
    (h : signatureWords scheme signature = .ok words) : words.length = signature.length := by
  have hlength := (mapM_eq_ok_iff.mp h).length_eq
  rw [List.length_zipIdx] at hlength
  exact hlength.symm

/-- A sketch that is made under a configuration matches it. -/
theorem compatible_of_makeSketch {sha1 : Bytes → Bytes} {record : Record} {sketch : MinHash scheme}
    (h : makeSketch sha1 scheme record config.numPerm config.seed = .ok sketch) :
    config.Compatible sketch := by
  unfold makeSketch at h
  split at h
  · next values _ _ =>
      simp only [bind_eq_ok_iff, mapError_eq_ok_iff, pure_eq_ok_iff] at h
      obtain ⟨_, _, _, _, start, hstart, rfl⟩ := h
      have hfields := MinHash.updateMany_fields sha1 start
        (values.map fun value => value.toUTF8.toList)
      rw [MinHash.updateMany, List.foldl_map] at hfields
      rw [MinHash.new] at hstart
      split at hstart
      · obtain rfl := Except.ok.inj hstart
        exact ⟨hfields.1, hfields.2.trans List.length_replicate⟩
      · cases hstart
  · next signature _ _ =>
      simp only [bind_eq_ok_iff, mapError_eq_ok_iff, rejectIf_eq_ok_iff, exists_const, ne_eq,
        not_not] at h
      obtain ⟨_, _, _, hlength, _, _, words, hwords, hsketch⟩ := h
      rw [MinHash.fromSignature] at hsketch
      split at hsketch
      · obtain rfl := Except.ok.inj hsketch
        exact ⟨rfl, (length_signatureWords hwords).trans hlength⟩
      · cases hsketch
  · cases h
  · cases h

end Answers

/-! ## Searching what has been indexed -/

section Indexed

variable {crc : Checksum} {sha1 : Bytes → Bytes} {tune : F64 → Nat → Except LshError LshParams}
  {scheme : SignatureScheme} {config : LshConfig} {items : List (UInt64 × MinHash scheme)}

section Reading

variable {args : SearchArgs} {bytes : Bytes} {store : PersistentIndexCore scheme}
  {world world' : World}

end Reading

end Indexed

end Pari.Cli
