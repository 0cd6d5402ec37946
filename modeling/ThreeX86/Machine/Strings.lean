import ThreeX86.Machine.Memory

/-!
Strings in memory: the bytes from an address up, and the walk to a terminating byte.
-/

namespace Machine

namespace Memory

def BytesAt (m : Memory) (p : Word) : List Byte → Prop
  | [] => True
  | b :: l => m p = b ∧ BytesAt m (p + 1#32) l

def loadBytes (m : Memory) (p : Word) : Nat → List Byte
  | 0 => []
  | n + 1 => m p :: loadBytes m (p + 1#32) n

section

variable {m : Memory} {p : Word} {l l' : List Byte} {b : Byte}

@[simp] theorem bytesAt_nil : BytesAt m p [] := trivial

@[simp] theorem bytesAt_cons : BytesAt m p (b :: l) ↔ m p = b ∧ BytesAt m (p + 1#32) l := Iff.rfl

theorem add_length_cons (p : Word) (n : Nat) : p + 1#32 + BitVec.ofNat 32 n = p + BitVec.ofNat 32 (n + 1) := by
  rw [BitVec.add_assoc, Nat.add_comm n 1, BitVec.ofNat_add]

theorem bytesAt_append : BytesAt m p (l ++ l') ↔ BytesAt m p l ∧ BytesAt m (p + BitVec.ofNat 32 l.length) l' := by
  induction l generalizing p with
  | nil => simp
  | cons b l ih => rw [List.cons_append, bytesAt_cons, bytesAt_cons, ih, add_length_cons, List.length_cons, and_assoc]

theorem BytesAt.get (at_ : BytesAt m p l) {i : Nat} (inside : i < l.length) : m (p + BitVec.ofNat 32 i) = l[i] := by
  induction l generalizing p i with
  | nil => simp at inside
  | cons b l ih =>
    cases i with
    | zero => simpa using at_.1
    | succ i =>
      rw [← add_length_cons]
      exact ih at_.2 (by simpa using inside)

theorem bytesAt_of_get (get : ∀ i (inside : i < l.length), m (p + BitVec.ofNat 32 i) = l[i]) : BytesAt m p l := by
  induction l generalizing p with
  | nil => trivial
  | cons b l ih =>
    have first : m (p + BitVec.ofNat 32 0) = b := get 0 (by simp)
    rw [BitVec.add_zero] at first
    refine ⟨first, ih fun i inside => ?_⟩
    rw [add_length_cons]
    exact get (i + 1) (by simpa using inside)

theorem BytesAt.loadBytes (at_ : BytesAt m p l) : m.loadBytes p l.length = l := by
  induction l generalizing p with
  | nil => rfl
  | cons b l ih => rw [List.length_cons, Memory.loadBytes, at_.1, ih at_.2]

theorem length_loadBytes (m : Memory) (p : Word) (n : Nat) : (m.loadBytes p n).length = n := by
  induction n generalizing p with
  | zero => rfl
  | succ n ih => rw [Memory.loadBytes, List.length_cons, ih]

theorem mem_loadBytes {n : Nat} (member : b ∈ m.loadBytes p n) : ∃ i < n, m (p + BitVec.ofNat 32 i) = b := by
  induction n generalizing p with
  | zero => cases member
  | succ n ih =>
    rcases List.mem_cons.mp member with rfl | later
    · exact ⟨0, Nat.succ_pos n, by rw [BitVec.add_zero]⟩
    · obtain ⟨i, small, here⟩ := ih later
      rw [add_length_cons] at here
      exact ⟨i + 1, Nat.succ_lt_succ small, here⟩

/-- A byte stored in front of a string that does not go round the address space. -/
theorem BytesAt.store8_before (at_ : BytesAt m p l) (short : l.length < 2^32) (v : Byte) :
    BytesAt (m.store8 (p - 1#32) v) (p - 1#32) (v :: l) := by
  refine ⟨store8_same m _ v, bytesAt_of_get fun i inside => ?_⟩
  rw [BitVec.sub_add_cancel, store8_outside, at_.get inside]
  intro same
  have values := congrArg (offset (p - 1#32)) same
  have ahead : p + BitVec.ofNat 32 i = p - 1#32 + BitVec.ofNat 32 (i + 1) := by
    rw [← add_length_cons, BitVec.sub_add_cancel]
  rw [ahead, offset_add _ (by omega), offset, BitVec.sub_self] at values
  simp at values

/-- A string ends before the address space does if its terminating byte is nowhere else in it. -/
theorem BytesAt.length_lt {c : Byte} (at_ : BytesAt m p (l ++ [c])) (other : ∀ b ∈ l, b ≠ c) : l.length < 2^32 := by
  by_contra long
  have early : l.length - 2^32 < l.length := by omega
  have same : BitVec.ofNat 32 (l.length - 2^32) = BitVec.ofNat 32 l.length := by
    apply BitVec.eq_of_toNat_eq
    rw [BitVec.toNat_ofNat, BitVec.toNat_ofNat]
    exact (Nat.mod_eq_sub_mod (Nat.le_of_not_lt long)).symm
  have last : m (p + BitVec.ofNat 32 l.length) = c := by
    have here := at_.get (i := l.length) (by simp)
    simpa using here
  have first : m (p + BitVec.ofNat 32 (l.length - 2^32)) = l[l.length - 2^32] := (bytesAt_append.mp at_).1.get early
  rw [same, last] at first
  exact other _ (List.getElem_mem early) first.symm

theorem BytesAt.changed {S : Nat → Prop} {m' : Memory} (at_ : BytesAt m p l) (changes : Changes S m m')
    (off : ∀ i < l.length, ¬ S (p + BitVec.ofNat 32 i).toNat) : BytesAt m' p l := by
  apply bytesAt_of_get
  intro i inside
  rw [changes _ (off i inside), at_.get inside]

end

end Memory

end Machine
