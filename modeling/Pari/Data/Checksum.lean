/-
# Checksums

A 32-bit checksum as its users see it: a one-shot function and an incremental
hasher. Nothing is assumed of the function. That feeding a hasher piece by piece
gives the one-shot checksum of the concatenation is a property of an
implementation, stated here once and asked for only where a stream is hashed.
-/

import Pari.Data.Bytes

namespace Data

/-- A checksum implementation: the one-shot function and the incremental hasher. -/
structure Checksum where
  Hasher : Type
  new : Hasher
  update : Hasher → Bytes → Hasher
  finalize : Hasher → UInt32
  hash : Bytes → UInt32

namespace Checksum

/-- Hash a sequence of pieces with one hasher. -/
def hashPieces (crc : Checksum) (pieces : List Bytes) : UInt32 :=
  crc.finalize (pieces.foldl crc.update crc.new)

/-- Incremental hashing agrees with one-shot hashing of the concatenation. -/
def Incremental (crc : Checksum) : Prop :=
  ∀ pieces : List Bytes, crc.hashPieces pieces = crc.hash pieces.flatten

theorem Incremental.hashPieces_eq {crc : Checksum} (h : crc.Incremental) {pieces : List Bytes}
    {bytes : Bytes} (hflat : pieces.flatten = bytes) : crc.hashPieces pieces = crc.hash bytes := by
  rw [h pieces, hflat]

/-! ## The reflected CRC-32 -/

/-- One bit of the reflected polynomial division. -/
def crcBit (state : UInt32) : UInt32 :=
  if state &&& 1 = 1 then (state >>> 1) ^^^ 0xEDB88320 else state >>> 1

/-- One byte of the reflected polynomial division. -/
def crcByte (state : UInt32) (byte : UInt8) : UInt32 :=
  crcBit (crcBit (crcBit (crcBit (crcBit (crcBit (crcBit (crcBit
    (state ^^^ byte.toUInt32))))))))

/-- The remainder after a whole byte string. -/
def crcBytes (state : UInt32) (bytes : Bytes) : UInt32 := bytes.foldl crcByte state

theorem foldl_crcBytes (pieces : List Bytes) (state : UInt32) :
    pieces.foldl crcBytes state = crcBytes state pieces.flatten := by
  induction pieces generalizing state with
  | nil => rfl
  | cons piece pieces ih =>
      rw [List.foldl_cons, ih, List.flatten_cons, crcBytes, crcBytes, crcBytes,
        List.foldl_append]

/-- CRC-32 with the reflected polynomial `0xEDB88320`, all-ones start and final
complement; the hasher is the running remainder. -/
def crc32 : Checksum where
  Hasher := UInt32
  new := 0xFFFFFFFF
  update := crcBytes
  finalize state := state ^^^ 0xFFFFFFFF
  hash bytes := crcBytes 0xFFFFFFFF bytes ^^^ 0xFFFFFFFF

theorem crc32_incremental : crc32.Incremental := fun pieces =>
  congrArg (· ^^^ 0xFFFFFFFF) (foldl_crcBytes pieces 0xFFFFFFFF)

-- The standard check value of the algorithm, over the digits 1 to 9.
example : crc32.hash [49, 50, 51, 52, 53, 54, 55, 56, 57] = 0xCBF43926 := by decide +kernel

end Checksum

end Data
