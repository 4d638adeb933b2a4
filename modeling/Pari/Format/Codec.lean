/-
# Key codecs

A codec turns keys of one type into bytes and back. Keys and their encodings correspond exactly:
what a codec encodes it decodes to the same key, and nothing else decodes to that key. The codecs
of variable length bound the size of a key before they read it.
-/

import Pari.Format.Container

namespace Pari.Format

open Data

/-! ## The codecs -/

/-- Errors produced by safe key codecs. -/
inductive CodecError
  | payloadTooLarge (actual max : Nat)
  | invalidLength (expected actual : Nat)
  | invalidUtf8
  | invalidJson (message : String)
  deriving DecidableEq, Repr

/-- `KeyCodec`: encode and decode one supported key type. -/
structure KeyCodec (κ : Type) where
  id : CodecId
  encode : κ → Except CodecError Bytes
  decode : Bytes → Except CodecError κ

def exactArray (length : Nat) (bytes : Bytes) : Except CodecError Bytes := do
  rejectIf (bytes.length ≠ length) (.invalidLength length bytes.length)
  return bytes

/-- Codec for unsigned 64-bit integer keys. -/
def u64Codec : KeyCodec UInt64 where
  id := .u64
  encode value := return u64Bytes value
  decode bytes := do
    let raw ← exactArray 8 bytes
    return u64OfBytes raw

section Exactness

variable {κ : Type} {bytes : Bytes}

/-- A codec that writes every key in one way and every two keys differently, and that takes the
keys of an allowed length. -/
structure KeyCodec.Represents (codec : KeyCodec κ) (write : κ → Bytes) (Allowed : Nat → Prop) :
    Prop where
  injective : Function.Injective write
  encode_iff : ∀ value bytes,
    codec.encode value = .ok bytes ↔ bytes = write value ∧ Allowed bytes.length
  decode_iff : ∀ value bytes,
    codec.decode bytes = .ok value ↔ bytes = write value ∧ Allowed bytes.length

theorem exactArray_eq_ok_iff {length : Nat} {result : Bytes} :
    exactArray length bytes = .ok result ↔ result = bytes ∧ bytes.length = length := by
  simp only [exactArray, bind_eq_ok_iff, rejectIf_eq_ok_iff, ne_eq, not_not, exists_const,
    pure_eq_ok_iff]
  exact ⟨fun h => ⟨h.2.symm, h.1⟩, fun h => ⟨h.2, h.1.symm⟩⟩

theorem represents_u64Codec : u64Codec.Represents u64Bytes (· = 8) where
  injective left right h := by
    rw [← u64OfBytes_u64Bytes left, h, u64OfBytes_u64Bytes]
  encode_iff value bytes := by
    simp only [u64Codec, pure_eq_ok_iff]
    constructor
    · rintro rfl
      exact ⟨rfl, length_u64Bytes value⟩
    · exact fun h => h.1.symm
  decode_iff value bytes := by
    simp only [u64Codec, bind_eq_ok_iff, exactArray_eq_ok_iff, pure_eq_ok_iff]
    constructor
    · rintro ⟨raw, ⟨rfl, hlength⟩, rfl⟩
      exact ⟨(u64Bytes_u64OfBytes hlength).symm, hlength⟩
    · rintro ⟨rfl, hlength⟩
      exact ⟨_, ⟨rfl, hlength⟩, u64OfBytes_u64Bytes value⟩

/-- Reading an array of fixed length fails exactly when the length is another. -/
theorem exactArray_bind_eq_error_iff {length : Nat} {read : Bytes → κ} {error : CodecError} :
    (do let raw ← exactArray length bytes; return read raw) = .error error ↔
      bytes.length ≠ length ∧ error = .invalidLength length bytes.length := by
  by_cases hlength : bytes.length = length
  · have hraw : exactArray length bytes = .ok bytes := exactArray_eq_ok_iff.mpr ⟨rfl, hlength⟩
    rw [hraw]
    constructor
    · intro h
      cases h
    · exact fun h => absurd hlength h.1
  · have hraw : exactArray length bytes = .error (.invalidLength length bytes.length) := by
      rw [exactArray, rejectIf, if_pos hlength]
      rfl
    rw [hraw]
    exact ⟨fun h => ⟨hlength, (Except.error.inj h).symm⟩, fun h => congrArg Except.error h.2.symm⟩

end Exactness

end Pari.Format
