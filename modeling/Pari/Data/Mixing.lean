/-
# Bijective mixing of words

The steps hash finalizers are made of: xoring a word with its own shift, and multiplying by an
odd constant modulo a power of two. Each is injective on words of any width, hence a permutation
of the finitely many words, and so is every affine map with an odd multiplier.
-/

import Mathlib.Algebra.Order.Ring.Nat
import Mathlib.Data.Fintype.EquivFin
import Mathlib.Data.Nat.ModEq
import Mathlib.Data.Nat.Prime.Basic
import Mathlib.Data.BitVec

namespace Data

variable {width : Nat}

/-- `word ^= word >> shift` -/
def xorShift (shift : Nat) (word : BitVec width) : BitVec width := word ^^^ (word >>> shift)

/-- A word that a positive shift leaves alone is zero. -/
theorem eq_zero_of_shift_eq {shift : Nat} {word : BitVec width} (hshift : 0 < shift)
    (h : word >>> shift = word) : word = BitVec.zero width := by
  have hdiv : word.toNat / 2 ^ shift = word.toNat := by
    rw [← Nat.shiftRight_eq_div_pow, ← BitVec.toNat_ushiftRight, h]
  have hpow : 1 < 2 ^ shift := Nat.one_lt_two_pow hshift.ne'
  apply BitVec.eq_of_toNat_eq
  by_contra hne
  have hlt := Nat.div_lt_self (Nat.pos_of_ne_zero hne) hpow
  omega

theorem xorShift_injective {shift : Nat} (hshift : 0 < shift) :
    Function.Injective (@xorShift width shift) := by
  intro left right h
  rw [xorShift, xorShift] at h
  -- The difference of the two words is its own shift.
  have hdifference : (left ^^^ right) >>> shift = left ^^^ right := by
    rw [BitVec.ushiftRight_xor_distrib]
    calc left >>> shift ^^^ right >>> shift
        = left ^^^ (left ^^^ left >>> shift) ^^^ right >>> shift := by
          rw [← BitVec.xor_assoc, BitVec.xor_self, BitVec.zero_xor]
      _ = left ^^^ right := by
          rw [h, BitVec.xor_assoc, BitVec.xor_assoc, BitVec.xor_self, BitVec.xor_zero]
  exact BitVec.xor_eq_zero_iff.mp (eq_zero_of_shift_eq hshift hdifference)

theorem mul_injective_of_odd {factor : BitVec width} (hodd : Odd factor.toNat) :
    Function.Injective (factor * ·) := by
  intro left right h
  have hmod : factor.toNat * left.toNat ≡ factor.toNat * right.toNat [MOD 2 ^ width] := by
    have htoNat := congrArg BitVec.toNat h
    rwa [BitVec.toNat_mul, BitVec.toNat_mul] at htoNat
  have hcoprime : (2 ^ width).gcd factor.toNat = 1 :=
    (Nat.Coprime.pow_left width (Nat.coprime_two_left.mpr hodd))
  have heq := Nat.ModEq.cancel_left_of_coprime hcoprime hmod
  apply BitVec.eq_of_toNat_eq
  rwa [Nat.ModEq, Nat.mod_eq_of_lt left.isLt, Nat.mod_eq_of_lt right.isLt] at heq

/-- Multiplying by an odd word and adding another. -/
theorem affine_injective_of_odd {factor offset : BitVec width} (hodd : Odd factor.toNat) :
    Function.Injective fun word => factor * word + offset := by
  intro left right h
  apply mul_injective_of_odd hodd
  exact BitVec.add_right_inj offset |>.mp (by simpa only [BitVec.add_comm offset] using h)

/-- The shape of a finalizer: three shifts with two multiplications between them. -/
def finalizer (first second third : Nat) (factor factor' : BitVec width) (word : BitVec width) :
    BitVec width :=
  xorShift third (factor' * xorShift second (factor * xorShift first word))

theorem finalizer_injective {first second third : Nat} {factor factor' : BitVec width}
    (hfirst : 0 < first) (hsecond : 0 < second) (hthird : 0 < third) (hodd : Odd factor.toNat)
    (hodd' : Odd factor'.toNat) : Function.Injective (finalizer first second third factor factor') := by
  intro left right h
  apply xorShift_injective hfirst
  apply mul_injective_of_odd hodd
  apply xorShift_injective hsecond
  apply mul_injective_of_odd hodd'
  apply xorShift_injective hthird
  exact h

/-- Setting the lowest bit makes a word odd. -/
theorem odd_or_one (value : Nat) : Odd (value ||| 1) := by
  rw [Nat.odd_iff]
  simp

end Data
