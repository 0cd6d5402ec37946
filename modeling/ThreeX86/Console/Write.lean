import ThreeX86.Console.Keyboard

/-!
What `console_write` takes from its buffer, and what it reads of it.
-/

namespace ThreeX86.Console

open Machine

def buffer (str : Nat → Byte) (len : Nat) : List Byte := (List.range len).map str

/-- The characters up to the first NUL. -/
def upToNul (text : List Byte) : List Byte := text.takeWhile fun c => c ≠ 0#8

/-- A carriage return goes before each newline if asked for. -/
def expand (crlf : Bool) (text : List Byte) : List Byte :=
  text.flatMap fun c => if crlf ∧ c = 0x0a#8 then [0x0d#8, c] else [c]

/-- The loop looks at each character twice, and at the one it stops at once. -/
def readsOf (i n : Nat) : List Nat := ((List.range n).flatMap fun j => [i + j, i + j]) ++ [i + n]

section

variable {σ : Type} (putchar : σ → Byte → σ) (crlf : Bool) (str : Nat → Byte)

theorem buffer_succ (len : Nat) : buffer str (len + 1) = str 0 :: buffer (fun i => str (i + 1)) len := by
  unfold buffer
  rw [List.range_succ_eq_map, List.map_cons, List.map_map]
  rfl

theorem readsOf_succ (i n : Nat) : readsOf i (n + 1) = i :: i :: readsOf (i + 1) n := by
  unfold readsOf
  have shift : (fun j => [i + (j + 1), i + (j + 1)]) = fun j => [i + 1 + j, i + 1 + j] := by
    funext j
    rw [Nat.add_right_comm i 1 j, Nat.add_assoc]
  rw [List.range_succ_eq_map, List.flatMap_cons, List.flatMap_map, Nat.add_right_comm i 1 n, ← Nat.add_assoc]
  exact congrArg (fun rest => i :: i :: (rest ++ [i + n + 1])) (congrArg (List.range n).flatMap shift)

/-- The whole loop: the characters up to the first NUL go out, `n` of them, and index `i + n` is read. -/
theorem consoleWriteLoop_eq (console : σ) (reads : List Nat) (i left : Nat) :
    consoleWriteLoop putchar crlf str console reads i left =
      ⟨i + (upToNul (buffer (fun j => str (i + j)) left)).length,
        reads ++ readsOf i (upToNul (buffer (fun j => str (i + j)) left)).length,
        (expand crlf (upToNul (buffer (fun j => str (i + j)) left))).foldl putchar console⟩ := by
  induction left generalizing console reads i with
  | zero => rfl
  | succ left ih =>
    have shift : (fun j => str (i + (j + 1))) = fun j => str (i + 1 + j) := by
      funext j
      rw [Nat.add_right_comm i 1 j, Nat.add_assoc]
    rw [buffer_succ, consoleWriteLoop, shift]
    dsimp only [Nat.add_zero]
    by_cases nul : str i = 0#8
    · have none : upToNul (str i :: buffer (fun j => str (i + 1 + j)) left) = [] := by simp [upToNul, nul]
      rw [if_pos nul, none]
      rfl
    · have more : upToNul (str i :: buffer (fun j => str (i + 1 + j)) left) =
          str i :: upToNul (buffer (fun j => str (i + 1 + j)) left) := by simp [upToNul, nul]
      rw [if_neg nul, ih, more, List.length_cons, readsOf_succ, Nat.add_assoc, Nat.add_comm 1]
      unfold expand
      rw [List.flatMap_cons, List.foldl_append]
      congr 1
      · simp
      · split
        · rfl
        · rfl

/-- The index of the first NUL in the buffer, or its length. -/
def firstNul (len : Nat) : Nat := (buffer str len).findIdx fun c => c = 0#8

/-- What a caller expects: no byte is read behind the buffer, and the characters in front of its first
    NUL, or all of them, are counted and passed on. -/
structure WritesBuffer (console : σ) (len : Word) : Prop where
  inside : ∀ i ∈ (consoleWrite putchar crlf str console len).2.reads, i < len.toNat
  returned : (consoleWrite putchar crlf str console len).1 = firstNul str len.toNat
  passed : (consoleWrite putchar crlf str console len).2.console =
    (expand crlf (upToNul (buffer str len.toNat))).foldl putchar console

theorem upToNul_length (len : Nat) : (upToNul (buffer str len)).length = firstNul str len := by
  have index : (buffer str len).findIdx (fun c => !decide (c ≠ 0#8)) = firstNul str len := by
    unfold firstNul
    congr 1
    funext c
    simp
  have most : firstNul str len ≤ (buffer str len).length := List.findIdx_le_length
  unfold upToNul
  rw [List.takeWhile_eq_take_findIdx_not, index, List.length_take, Nat.min_eq_left most]

theorem firstNul_lt_iff (len bound : Nat) :
    firstNul str len < len ∧ firstNul str len < bound ↔ ∃ i < len, i < bound ∧ str i = 0#8 := by
  have length : (buffer str len).length = len := by rw [buffer, List.length_map, List.length_range]
  have at_ (i : Nat) (h : i < (buffer str len).length) : (buffer str len)[i] = str i := by simp [buffer]
  constructor
  · intro both
    have inside : (buffer str len).findIdx (fun c => c = 0#8) < (buffer str len).length := by
      rw [length]
      exact both.1
    have found := List.findIdx_getElem (w := inside)
    exact ⟨firstNul str len, both.1, both.2, by simpa [at_, firstNul] using found⟩
  · intro some
    obtain ⟨i, small, low, nul⟩ := some
    have first : firstNul str len ≤ i := by
      by_contra later
      have other := List.not_of_lt_findIdx (Nat.lt_of_not_le later)
      rw [at_] at other
      simp [nul] at other
    omega

theorem firstNul_le (len : Nat) : firstNul str len ≤ len := by
  have most : firstNul str len ≤ (buffer str len).length := List.findIdx_le_length
  rwa [buffer, List.length_map, List.length_range] at most

theorem mem_readsOf {i n k : Nat} : k ∈ readsOf i n ↔ i ≤ k ∧ k ≤ i + n := by
  unfold readsOf
  simp only [List.mem_append, List.mem_flatMap, List.mem_range, List.mem_cons, List.not_mem_nil, or_false, or_self]
  constructor
  · intro either
    rcases either with ⟨j, small, rfl⟩ | rfl
    · omega
    · omega
  · intro range
    by_cases last : k = i + n
    · exact .inr last
    · exact .inl ⟨k - i, by omega, by omega⟩

theorem consoleWrite_eq (console : σ) (len : Word) : consoleWrite putchar crlf str console len =
    ((BitVec.ofNat 32 (firstNul str len.toNat)).toInt, ⟨firstNul str len.toNat, readsOf 0 (firstNul str len.toNat),
      (expand crlf (upToNul (buffer str len.toNat))).foldl putchar console⟩) := by
  have loop := consoleWriteLoop_eq putchar crlf str console [] 0 len.toNat
  simp only [Nat.zero_add, List.nil_append] at loop
  rw [upToNul_length] at loop
  unfold consoleWrite
  rw [loop]

theorem toInt_ofNat_iff {n : Nat} (word : n < 2^32) : (BitVec.ofNat 32 n).toInt = n ↔ n < 2^31 := by
  rw [BitVec.toInt_eq_toNat_cond, BitVec.toNat_ofNat, Nat.mod_eq_of_lt word]
  split
  · omega
  · omega

/-- The byte behind the buffer is left alone, and the count right, exactly when the buffer has a NUL
    and an `int` has room for its index. -/
theorem console_write_iff (console : σ) (len : Word) :
    WritesBuffer putchar crlf str console len ↔ ∃ i < len.toNat, i < 2^31 ∧ str i = 0#8 := by
  have word := len.isLt
  have most := firstNul_le str len.toNat
  rw [← firstNul_lt_iff]
  constructor
  · intro law
    have inside := law.inside
    have returned := law.returned
    rw [consoleWrite_eq] at inside returned
    refine ⟨inside _ (mem_readsOf.mpr (by omega)), (toInt_ofNat_iff (by omega)).mp returned⟩
  · intro both
    constructor
    case inside =>
      rw [consoleWrite_eq]
      intro i member
      have range := mem_readsOf.mp member
      omega
    case returned =>
      rw [consoleWrite_eq]
      exact (toInt_ofNat_iff (by omega)).mpr both.2
    case passed => rw [consoleWrite_eq]

end

/-- `console_input('a')` looks at the byte behind the character. -/
theorem not_writesBuffer_input :
    ¬ WritesBuffer (fun out c => out ++ [c]) true (fun i => if i = 0 then 0x61#8 else 0#8) [] 1#32 := by
  intro law
  exact absurd (law.inside 1 (by decide)) (by decide)

end ThreeX86.Console
