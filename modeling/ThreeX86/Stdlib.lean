import ThreeX86.Machine.Memory

/-!
The arithmetic macros of `stdlib.h`.
-/

namespace ThreeX86

open Machine

def roundUp (a b : Word) : Word := (a + (b - 1#32)) &&& ~~~(b - 1#32)

def roundDown (a b : Word) : Word := a &&& ~~~(b - 1#32)

theorem toNat_and_not_mask (x b : Word) (k : Nat) (power : b.toNat = 2^k) :
    (x &&& ~~~(b - 1#32)).toNat = x.toNat / 2^k * 2^k := by
  have bound := b.isLt
  have mask : (b - 1#32).toNat = 2^k - 1 := by
    have positive := Nat.two_pow_pos k
    rw [BitVec.toNat_sub, BitVec.toNat_ofNat, power]
    omega
  apply Nat.eq_of_testBit_eq
  intro i
  rw [Nat.testBit_mul_two_pow, BitVec.testBit_toNat, BitVec.getLsbD_and, BitVec.getLsbD_not,
    ← BitVec.testBit_toNat (b - 1#32), mask, Nat.testBit_two_pow_sub_one, ← BitVec.testBit_toNat x]
  by_cases low : i < k
  · have notHigh : ¬ i ≥ k := by omega
    simp [low, notHigh]
  · have high : k ≤ i := by omega
    simp only [low, decide_false, Bool.not_false, Bool.and_true, high, decide_true, Bool.true_and,
      Nat.testBit_div_two_pow, Nat.sub_add_cancel high]
    by_cases inside : i < 32
    · simp [inside]
    · have out : x.toNat.testBit i = false := by
        rw [BitVec.testBit_toNat]
        exact BitVec.getLsbD_of_ge x i (by omega)
      simp [out]

theorem toNat_roundUp (a b : Word) (power : b.toNat.isPowerOfTwo) (room : a.toNat + (b.toNat - 1) < 2^32) :
    (roundUp a b).toNat = (a.toNat + (b.toNat - 1)) / b.toNat * b.toNat := by
  obtain ⟨k, hk⟩ := power
  have positive := Nat.two_pow_pos k
  have bound := b.isLt
  have sum : (a + (b - 1#32)).toNat = a.toNat + (b.toNat - 1) := by
    rw [BitVec.toNat_add, BitVec.toNat_sub, BitVec.toNat_ofNat]
    omega
  rw [roundUp, toNat_and_not_mask _ b k hk, sum, hk]

theorem toNat_roundDown (a b : Word) (power : b.toNat.isPowerOfTwo) :
    (roundDown a b).toNat = a.toNat / b.toNat * b.toNat := by
  obtain ⟨k, hk⟩ := power
  rw [roundDown, toNat_and_not_mask _ b k hk, hk]

theorem roundUp_bounds (a b : Word) (power : b.toNat.isPowerOfTwo) (room : a.toNat + (b.toNat - 1) < 2^32) :
    a.toNat ≤ (roundUp a b).toNat ∧ (roundUp a b).toNat < a.toNat + b.toNat ∧ b.toNat ∣ (roundUp a b).toNat := by
  have positive := Nat.pos_of_isPowerOfTwo power
  rw [toNat_roundUp a b power room]
  have split := Nat.div_add_mod (a.toNat + (b.toNat - 1)) b.toNat
  have small := Nat.mod_lt (a.toNat + (b.toNat - 1)) positive
  rw [Nat.mul_comm] at split
  exact ⟨by omega, by omega, Nat.dvd_mul_left _ _⟩

end ThreeX86
