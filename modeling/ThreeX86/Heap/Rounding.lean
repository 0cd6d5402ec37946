import ThreeX86.Heap.Miniheap

namespace ThreeX86.Heap

open Machine

/-! Clearing the bits below a power of two, and the sizes the allocator computes with it. -/

theorem power_test (alignment : Word) :
    alignment &&& (alignment - 1#32) = 0#32 ↔ alignment = 0#32 ∨ alignment.toNat.isPowerOfTwo := by
  have bound := alignment.isLt
  by_cases zero : alignment = 0#32
  · subst zero
    simp
  · have nonzero : alignment.toNat ≠ 0 := fun h => zero (BitVec.eq_of_toNat_eq (by simpa using h))
    have less : (alignment - 1#32).toNat = alignment.toNat - 1 := by
      rw [BitVec.toNat_sub, BitVec.toNat_ofNat]
      omega
    rw [← BitVec.toNat_inj, BitVec.toNat_and, less]
    simp only [zero, false_or]
    exact Nat.and_sub_one_eq_zero_iff_isPowerOfTwo nonzero

/-- What alignment adds to a request in the worst case. -/
def slack (alignment : Nat) : Nat := if 0 < alignment then max alignment 16 else 0

/-- The chunk length a request needs: header, at least a free chunk, whole words, alignment slack. -/
def need (size alignment : Nat) : Nat := max ((size + 8 + 3) / 4 * 4) 12 + slack alignment

/-- The request's size computations stay below `2^32`. -/
def NonWrapping (size alignment : Word) : Prop := size.toNat + 8 + 3 + slack alignment.toNat < 2^32

instance (size alignment : Word) : Decidable (NonWrapping size alignment) :=
  inferInstanceAs (Decidable (_ < _))

theorem toNat_baseSize (size : Word) (room : size.toNat + 11 < 2^32) :
    (baseSize size).toNat = max ((size.toNat + 8 + 3) / 4 * 4) 12 := by
  have four : sizeofPointer.toNat.isPowerOfTwo := ⟨2, rfl⟩
  have header : (size + sizeofAllocStructBegin).toNat = size.toNat + 8 := by
    rw [sizeofAllocStructBegin, BitVec.toNat_add, BitVec.toNat_ofNat]
    omega
  have clamp : (if size + sizeofAllocStructBegin < sizeofFreeHeapChunk then sizeofFreeHeapChunk
      else size + sizeofAllocStructBegin).toNat = max (size.toNat + 8) 12 := by
    simp only [BitVec.lt_def, header, sizeofFreeHeapChunk, BitVec.toNat_ofNat]
    split
    · rw [BitVec.toNat_ofNat]; omega
    · rw [header]; omega
  have word : sizeofPointer.toNat = 4 := rfl
  rw [baseSize, toNat_roundUp _ _ four (by rw [clamp, word]; omega), clamp, word]
  omega

theorem toNat_clampAlignment (alignment : Word) (h : 0 < alignment.toNat) :
    (clampAlignment alignment).toNat = max alignment.toNat 16 := by
  simp only [clampAlignment, gt_iff_lt, BitVec.lt_def, BitVec.toNat_ofNat, Nat.zero_mod, h, ite_true]
  split
  · rw [BitVec.toNat_ofNat]; omega
  · omega

theorem sixteen_dvd {a : Nat} (power : a.isPowerOfTwo) (large : 16 ≤ a) : 16 ∣ a := by
  obtain ⟨k, rfl⟩ := power
  have order : 4 ≤ k := by
    by_contra small
    have less : 2^k < 2^4 := Nat.pow_lt_pow_right (by decide) (by omega)
    omega
  exact Nat.pow_dvd_pow 2 order

theorem slack_aligned (alignment : Nat) (h : alignment = 0 ∨ alignment.isPowerOfTwo) : slack alignment % 16 = 0 := by
  simp only [slack]
  split
  · rcases h with h | power
    · omega
    · rcases Nat.le_total alignment 16 with small | large
      · rw [Nat.max_eq_right small]
      · rw [Nat.max_eq_left large]
        have multiple := sixteen_dvd power large
        omega
  · rfl

theorem toNat_chunkSize (size alignment : Word) (room : NonWrapping size alignment)
    (h : alignment = 0#32 ∨ alignment.toNat.isPowerOfTwo) :
    (chunkSize size alignment).toNat = need size.toNat alignment.toNat := by
  have multiple : slack alignment.toNat % 16 = 0 := by
    apply slack_aligned
    rcases h with rfl | power
    · exact .inl rfl
    · exact .inr power
  simp only [NonWrapping] at room
  simp only [chunkSize, need, gt_iff_lt, BitVec.lt_def, BitVec.toNat_ofNat, Nat.zero_mod]
  split
  · rename_i positive
    have clamp : (clampAlignment alignment).toNat = slack alignment.toNat := by
      simp only [toNat_clampAlignment alignment positive, slack, positive, ite_true]
    rw [BitVec.toNat_add, toNat_baseSize size (by omega), clamp]
    omega
  · rename_i zero
    have none : slack alignment.toNat = 0 := if_neg zero
    rw [toNat_baseSize size (by omega), none]
    rfl

theorem isPowerOfTwo_clampAlignment (alignment : Word) (power : alignment.toNat.isPowerOfTwo) :
    (clampAlignment alignment).toNat.isPowerOfTwo := by
  rw [toNat_clampAlignment alignment (Nat.pos_of_isPowerOfTwo power)]
  rcases Nat.le_total alignment.toNat 16 with small | large
  · rw [Nat.max_eq_right small]; exact ⟨4, rfl⟩
  · rw [Nat.max_eq_left large]; exact power

theorem need_aligned (size alignment : Nat) (h : alignment = 0 ∨ alignment.isPowerOfTwo) :
    need size alignment % 4 = 0 := by
  have aligned := slack_aligned alignment h
  rw [need]
  omega

theorem twelve_le_need (size alignment : Nat) : 12 ≤ need size alignment := by
  simp only [need]
  omega

end ThreeX86.Heap
