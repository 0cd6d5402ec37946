import Mathlib.Data.Nat.Digits.Lemmas

/-!
Positional numerals over any base and any digit symbols.
-/

namespace Numerals

variable {δ : Type} {base : Nat} {digit : Nat → δ} {n k : Nat}

/-- The numeral of `n`, most significant digit first and without leading zeros. -/
def numeral (base : Nat) (digit : Nat → δ) (n : Nat) : List δ :=
  if n = 0 then [digit 0] else ((Nat.digits base n).reverse).map digit

theorem numeral_small (small : n < base) : numeral base digit n = [digit n] := by
  unfold numeral
  split
  · next zero => rw [zero]
  · next nonzero => rw [Nat.digits_of_lt base n nonzero small, List.reverse_singleton, List.map_singleton]

theorem numeral_step (large : 1 < base) (many : base ≤ n) :
    numeral base digit n = numeral base digit (n / base) ++ [digit (n % base)] := by
  have positive : 0 < n := by omega
  have quotient : n / base ≠ 0 := by
    have whole := Nat.div_pos many (by omega)
    omega
  unfold numeral
  rw [if_neg (Nat.pos_iff_ne_zero.mp positive), if_neg quotient, Nat.digits_def' large positive, List.reverse_cons,
    List.map_append, List.map_singleton]

theorem numeral_ne_nil (base : Nat) (digit : Nat → δ) (n : Nat) : numeral base digit n ≠ [] := by
  unfold numeral
  split
  · simp
  · next nonzero => simpa using Nat.digits_ne_nil_iff_ne_zero.mpr nonzero

theorem numeral_length_le (large : 1 < base) (positive : 0 < k) (small : n < base ^ k) :
    (numeral base digit n).length ≤ k := by
  unfold numeral
  split
  · exact positive
  · rw [List.length_map, List.length_reverse]
    exact (Nat.digits_length_le_iff large n).mpr small

theorem mem_numeral (large : 1 < base) {d : δ} (member : d ∈ numeral base digit n) : ∃ i < base, digit i = d := by
  unfold numeral at member
  split at member
  · exact ⟨0, by omega, (List.mem_singleton.mp member).symm⟩
  · obtain ⟨i, inside, rfl⟩ := List.mem_map.mp member
    exact ⟨i, Nat.digits_lt_base large (List.mem_reverse.mp inside), rfl⟩

theorem numeral_map (digit : Nat → δ) (n : Nat) : numeral base digit n = (numeral base id n).map digit := by
  unfold numeral
  split
  · rfl
  · rw [List.map_id]

/-- No leading zero, apart from the numeral of 0. -/
def Canonical (digits : List Nat) : Prop := digits ≠ [] ∧ (digits.head? = some 0 → digits = [0])

theorem numeral_canonical (base n : Nat) : Canonical (numeral base id n) := by
  refine ⟨numeral_ne_nil base id n, ?_⟩
  unfold numeral
  split
  · intro _
    rfl
  · next nonzero =>
    intro leading
    rw [List.map_id, List.head?_reverse, List.getLast?_eq_some_getLast (Nat.digits_ne_nil_iff_ne_zero.mpr nonzero)] at leading
    exact absurd (Option.some.inj leading) (Nat.getLast_digit_ne_zero base nonzero)

def value (base : Nat) (digits : List Nat) : Nat := digits.foldl (fun acc d => base * acc + d) 0

theorem value_append_single (digits : List Nat) (d : Nat) :
    value base (digits ++ [d]) = base * value base digits + d := by simp [value]

theorem value_cons_zero (digits : List Nat) : value base (0 :: digits) = value base digits := by
  simp [value]

theorem value_zeros (k : Nat) (digits : List Nat) : value base (List.replicate k 0 ++ digits) = value base digits := by
  induction k with
  | zero => rfl
  | succ k ih => rw [List.replicate_succ, List.cons_append, value_cons_zero, ih]

theorem value_numeral (large : 1 < base) (read : δ → Nat) (reads : ∀ d < base, read (digit d) = d) (n : Nat) :
    value base ((numeral base digit n).map read) = n := by
  induction n using Nat.strong_induction_on with
  | h n ih =>
    by_cases small : n < base
    · rw [numeral_small small, List.map_singleton, reads n small]
      simp [value]
    · have many : base ≤ n := Nat.le_of_not_lt small
      have less : n / base < n := Nat.div_lt_self (by omega) large
      have rest := Nat.mod_lt n (show base > 0 by omega)
      rw [numeral_step large many, List.map_append, List.map_singleton, value_append_single, ih _ less, reads _ rest]
      exact Nat.div_add_mod n base

end Numerals
