/-
# MinHash sketches and band hashes

The two sketch types differ in the width of a signature value, and the two index types
built over them in nothing else. One definition, indexed by the signature scheme,
stands for both. A sketch keeps its seed and its signature; the permutations it was
built with are a function of the seed and the signature length, and nothing that reads
a finished sketch uses them.
-/

import Pari.Format.Container

namespace Pari.Core

open Data Pari.Format

/-- A signature value of a scheme: `u32` or `u64`. -/
def Word : SignatureScheme → Type
  | .pariAffine32V1 => UInt32
  | .pariAffine64V1 => UInt64

/-- `u64::from(value)`, or the value itself. -/
def Word.toU64 : (scheme : SignatureScheme) → Word scheme → UInt64
  | .pariAffine32V1 => fun value => UInt32.toUInt64 value
  | .pariAffine64V1 => fun value => value

/-- A sketch of a scheme. -/
structure MinHash (scheme : SignatureScheme) where
  seed : UInt64
  signature : List (Word scheme)
  valid : 0 < signature.length ∧ signature.length < 2 ^ 32

abbrev MinHash32 := MinHash .pariAffine32V1
abbrev MinHash64 := MinHash .pariAffine64V1

/-- The signature length. -/
def MinHash.numPerm {scheme : SignatureScheme} (sketch : MinHash scheme) : Nat :=
  sketch.signature.length

/-! ## Band hashes -/

def fnvOffsetBasis : UInt64 := 0xCBF29CE484222325
def fnvPrime : UInt64 := 0x00000100000001B3

def avalanche64 (value : UInt64) : UInt64 :=
  let value := value ^^^ (value >>> 33)
  let value := value * 0xFF51AFD7ED558CCD
  let value := value ^^^ (value >>> 33)
  let value := value * 0xC4CEB9FE1A85EC53
  value ^^^ (value >>> 33)

/-- The hash of the values of one band, widened to 64 bits. -/
def hashBandWords (values : List UInt64) : UInt64 :=
  let hash := values.foldl (fun hash value => (hash ^^^ value) * fnvPrime) fnvOffsetBasis
  avalanche64 (hash ^^^ UInt64.ofNat values.length)

/-- `hash_band32` and `hash_band64`. -/
def hashBand (scheme : SignatureScheme) (values : List (Word scheme)) : UInt64 :=
  hashBandWords (values.map (Word.toU64 scheme))

end Pari.Core
