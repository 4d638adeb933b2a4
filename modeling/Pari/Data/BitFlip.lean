/-
# Flipped bits

Two byte strings that differ in exactly one bit, where such a bit can lie in a concatenation,
and checksums that tell the two apart. CRC-32 is one of them: a byte step is injective both
in the remainder and in the byte.
-/

import Pari.Data.Checksum

namespace Data

/-- Two byte strings that differ in exactly one bit. -/
def OneBit (left right : Bytes) : Prop :=
  ∃ (before : Bytes) (byte : UInt8) (bit : Nat) (after : Bytes), bit < 8 ∧
    left = before ++ byte :: after ∧ right = before ++ (byte ^^^ UInt8.ofNat (2 ^ bit)) :: after

/-- Flip one bit of one byte. -/
def flipBit (bytes : Bytes) (position bit : Nat) : Bytes :=
  bytes.modify position (· ^^^ UInt8.ofNat (2 ^ bit))

/-- A checksum that differs on inputs that differ in exactly one bit. -/
def Checksum.DetectsFlips (crc : Checksum) : Prop :=
  ∀ left right : Bytes, OneBit left right → crc.hash left ≠ crc.hash right

theorem oneBit_flipBit {bytes : Bytes} {position bit : Nat} (hposition : position < bytes.length)
    (hbit : bit < 8) : OneBit bytes (flipBit bytes position bit) := by
  refine ⟨bytes.take position, bytes[position], bit, bytes.drop (position + 1), hbit, ?_, ?_⟩
  · rw [List.getElem_cons_drop, List.take_append_drop]
  · rw [flipBit, List.modify_eq_take_cons_drop hposition]

section Splitting

variable {left right first second : Bytes}

theorem OneBit.length_eq (h : OneBit left right) : right.length = left.length := by
  obtain ⟨before, byte, bit, after, _, rfl, rfl⟩ := h
  simp

theorem xor_two_pow_ne (byte : UInt8) {bit : Nat} (hbit : bit < 8) :
    byte ^^^ UInt8.ofNat (2 ^ bit) ≠ byte := by
  intro heq
  have hzero : UInt8.ofNat (2 ^ bit) = 0 := by
    have hxor := congrArg (byte ^^^ ·) heq
    simpa [← UInt8.xor_assoc] using hxor
  have hpowers : ∀ bit < 8, UInt8.ofNat (2 ^ bit) ≠ 0 := by decide
  exact hpowers bit hbit hzero

theorem OneBit.ne (h : OneBit left right) : left ≠ right := by
  obtain ⟨before, byte, bit, after, hbit, rfl, rfl⟩ := h
  intro heq
  have hbyte := (List.cons.inj (List.append_cancel_left heq)).1
  exact xor_two_pow_ne byte hbit hbyte.symm

/-- A flipped bit of a concatenation lies in one of the parts. -/
theorem OneBit.of_append (h : OneBit (first ++ second) right) :
    (∃ other, OneBit first other ∧ right = other ++ second) ∨
      ∃ other, OneBit second other ∧ right = first ++ other := by
  obtain ⟨before, byte, bit, after, hbit, heq, rfl⟩ := h
  rcases List.append_eq_append_iff.mp heq with ⟨rest, hbefore, hsecond⟩ | ⟨rest, hfirst, htail⟩
  · refine Or.inr ⟨rest ++ (byte ^^^ UInt8.ofNat (2 ^ bit)) :: after,
      ⟨rest, byte, bit, after, hbit, hsecond, rfl⟩, ?_⟩
    rw [hbefore, List.append_assoc]
  · cases rest with
    | nil =>
        rw [List.append_nil] at hfirst
        rw [List.nil_append] at htail
        refine Or.inr ⟨(byte ^^^ UInt8.ofNat (2 ^ bit)) :: after,
          ⟨[], byte, bit, after, hbit, htail.symm, rfl⟩, by rw [hfirst]⟩
    | cons head rest =>
        rw [List.cons_append, List.cons.injEq] at htail
        obtain ⟨rfl, rfl⟩ := htail
        refine Or.inl ⟨before ++ (byte ^^^ UInt8.ofNat (2 ^ bit)) :: rest,
          ⟨before, byte, bit, rest, hbit, hfirst, rfl⟩, ?_⟩
        rw [List.append_assoc, List.cons_append]

/-- Where both sides split at the same place, the flipped bit lies in one pair of parts and
the other parts agree. -/
theorem OneBit.append_cases {first' second' : Bytes} (hlength : first'.length = first.length)
    (h : OneBit (first ++ second) (first' ++ second')) :
    (OneBit first first' ∧ second' = second) ∨ (first' = first ∧ OneBit second second') := by
  rcases h.of_append with ⟨other, hother, heq⟩ | ⟨other, hother, heq⟩
  · obtain ⟨rfl, rfl⟩ := List.append_inj heq (hlength.trans hother.length_eq.symm)
    exact Or.inl ⟨hother, rfl⟩
  · obtain ⟨rfl, rfl⟩ := List.append_inj heq hlength
    exact Or.inr ⟨rfl, hother⟩

end Splitting

/-! ## At most one flipped bit -/

/-- Equal byte strings, or two that differ in exactly one bit. -/
def AtMostOneBit (left right : Bytes) : Prop := right = left ∨ OneBit left right

section AtMost

variable {crc : Checksum} {left right first second : Bytes}

theorem AtMostOneBit.length_eq (h : AtMostOneBit left right) : right.length = left.length := by
  rcases h with rfl | h
  · rfl
  · exact h.length_eq

theorem AtMostOneBit.append_cases {first' second' : Bytes} (hlength : first'.length = first.length)
    (h : AtMostOneBit (first ++ second) (first' ++ second')) :
    (AtMostOneBit first first' ∧ second' = second) ∨ (first' = first ∧ AtMostOneBit second second') := by
  rcases h with heq | h
  · obtain ⟨rfl, rfl⟩ := List.append_inj heq hlength
    exact Or.inl ⟨Or.inl rfl, rfl⟩
  · rcases h.append_cases hlength with ⟨hfirst, hsecond⟩ | ⟨hfirst, hsecond⟩
    · exact Or.inl ⟨Or.inr hfirst, hsecond⟩
    · exact Or.inr ⟨hfirst, Or.inr hsecond⟩

/-- What lies behind a common length differs in at most one bit, on either side of it. -/
theorem AtMostOneBit.of_append {first' second' : Bytes} (hlength : first'.length = first.length)
    (h : AtMostOneBit (first ++ second) (first' ++ second')) :
    AtMostOneBit first first' ∧ AtMostOneBit second second' := by
  rcases h.append_cases hlength with ⟨hfirst, hsecond⟩ | ⟨hfirst, hsecond⟩
  · exact ⟨hfirst, Or.inl hsecond⟩
  · exact ⟨Or.inl hfirst, hsecond⟩

/-- A byte string with the checksum of the original one is the original one. -/
theorem Checksum.DetectsFlips.eq_of_hash (hcrc : crc.DetectsFlips) (h : AtMostOneBit left right)
    (hhash : crc.hash right = crc.hash left) : right = left := by
  rcases h with heq | h
  · exact heq
  · exact absurd hhash.symm (hcrc left right h)

/-- Fields stored in front of their own checksum survive a flipped bit unchanged, or the
damage shows. -/
theorem Checksum.DetectsFlips.eq_of_checksummed (hcrc : crc.DetectsFlips) {rest rest' : Bytes}
    (hlength : right.length = left.length)
    (h : AtMostOneBit (left ++ (u32Bytes (crc.hash left) ++ rest))
      (right ++ (u32Bytes (crc.hash right) ++ rest'))) : right = left := by
  rcases h.append_cases hlength with ⟨hfields, htail⟩ | ⟨hfields, _⟩
  · have hstored := (List.append_inj htail (by simp)).1
    have hhash := congrArg u32OfBytes hstored
    rw [u32OfBytes_u32Bytes, u32OfBytes_u32Bytes] at hhash
    exact hcrc.eq_of_hash hfields hhash
  · exact hfields

end AtMost

/-! ## CRC-32 -/

namespace Checksum

/-- The low bit of a word. -/
theorem and_one_eq_one_iff (state : UInt32) :
    state &&& 1 = 1 ↔ state.toBitVec.getLsbD 0 = true := by
  have hbits : (state &&& 1).toBitVec =
      BitVec.setWidth 32 (BitVec.ofBool (state.toBitVec.getLsbD 0)) := by
    rw [UInt32.toBitVec_and]
    exact BitVec.and_one_eq_setWidth_ofBool_getLsbD
  rw [← UInt32.toBitVec_inj, hbits]
  cases state.toBitVec.getLsbD 0 <;> decide

/-- The bits of a step: the top one is the low bit of the remainder, which says whether the
polynomial was added. -/
theorem crcBit_toBitVec (state : UInt32) :
    (crcBit state).toBitVec = state.toBitVec >>> 1 ^^^
      (if state.toBitVec.getLsbD 0 then 0xEDB88320#32 else 0#32) := by
  unfold crcBit
  by_cases hlow : state.toBitVec.getLsbD 0 = true
  · rw [if_pos ((and_one_eq_one_iff state).mpr hlow), if_pos hlow]
    rfl
  · rw [if_neg (mt (and_one_eq_one_iff state).mp hlow), if_neg hlow, BitVec.xor_zero]
    rfl

theorem crcBit_injective : Function.Injective crcBit := by
  intro left right h
  have hbits := congrArg UInt32.toBitVec h
  rw [crcBit_toBitVec, crcBit_toBitVec] at hbits
  have htop := congrArg (BitVec.getLsbD · 31) hbits
  have hlow : left.toBitVec.getLsbD 0 = right.toBitVec.getLsbD 0 := by
    revert htop
    cases left.toBitVec.getLsbD 0 <;> cases right.toBitVec.getLsbD 0 <;> simp
  rw [hlow, BitVec.xor_left_inj] at hbits
  rw [← UInt32.toBitVec_inj]
  refine BitVec.eq_of_getLsbD_eq fun i hi => ?_
  cases i with
  | zero => exact hlow
  | succ i =>
      have hshift := congrArg (BitVec.getLsbD · i) hbits
      simpa [BitVec.getLsbD_ushiftRight, Nat.add_comm] using hshift

/-- Eight injective bit steps after adding a byte in. -/
theorem crcByte_eq_iff {left right : UInt32} {byte byte' : UInt8} :
    crcByte left byte = crcByte right byte' ↔
      left ^^^ byte.toUInt32 = right ^^^ byte'.toUInt32 := by
  simp only [crcByte, crcBit_injective.eq_iff]

theorem crcByte_ne_of_state {left right : UInt32} (byte : UInt8) (h : left ≠ right) :
    crcByte left byte ≠ crcByte right byte := by
  rw [Ne, crcByte_eq_iff, UInt32.xor_left_inj]
  exact h

theorem crcByte_ne_of_byte (state : UInt32) {byte byte' : UInt8} (h : byte ≠ byte') :
    crcByte state byte ≠ crcByte state byte' := by
  rw [Ne, crcByte_eq_iff, UInt32.xor_right_inj]
  intro heq
  apply h
  have := congrArg UInt32.toUInt8 heq
  simpa using this

/-- Different remainders stay different over equal bytes. -/
theorem crcBytes_ne (bytes : Bytes) {left right : UInt32} (h : left ≠ right) :
    crcBytes left bytes ≠ crcBytes right bytes := by
  induction bytes generalizing left right with
  | nil => exact h
  | cons byte bytes ih => exact ih (crcByte_ne_of_state byte h)

theorem crcBytes_append (state : UInt32) (first second : Bytes) :
    crcBytes state (first ++ second) = crcBytes (crcBytes state first) second := by
  rw [crcBytes, crcBytes, crcBytes, List.foldl_append]

theorem crc32_detectsFlips : crc32.DetectsFlips := by
  rintro left right ⟨before, byte, bit, after, hbit, rfl, rfl⟩ heq
  have hstate : crcBytes 0xFFFFFFFF (before ++ byte :: after) =
      crcBytes 0xFFFFFFFF (before ++ (byte ^^^ UInt8.ofNat (2 ^ bit)) :: after) :=
    (UInt32.xor_left_inj 0xFFFFFFFF).mp heq
  rw [crcBytes_append, crcBytes_append] at hstate
  exact crcBytes_ne after (crcByte_ne_of_byte _ (xor_two_pow_ne byte hbit).symm) hstate

end Checksum

end Data
