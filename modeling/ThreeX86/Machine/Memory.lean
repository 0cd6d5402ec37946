import Mathlib.Algebra.Group.Int.Defs
import Mathlib.Algebra.Group.Nat.Defs
import Mathlib.Data.Nat.Basic
import Mathlib.Tactic.Common

/-!
Byte-addressed memory of a 32-bit little-endian machine: word accesses, the string
moves and the frame lemmas that say which bytes an access can change.
-/

namespace Machine

abbrev Byte := BitVec 8
abbrev Word := BitVec 32
abbrev Memory := Word → Byte

theorem toNat_ofNat_word {n : Nat} (bound : n < 2^32) : (BitVec.ofNat 32 n).toNat = n := by
  rw [BitVec.toNat_ofNat, Nat.mod_eq_of_lt bound]

theorem ofNat_toNat_word (a : Word) : BitVec.ofNat 32 a.toNat = a := by simp

/-- Distance from `a` up to `x`, going round the address space. -/
abbrev offset (a x : Word) : Nat := (x - a).toNat

theorem offset_add (a : Word) {i : Nat} (bound : i < 2^32) : offset a (a + BitVec.ofNat 32 i) = i := by
  have ha := a.isLt
  simp only [offset, BitVec.toNat_sub, BitVec.toNat_add, BitVec.toNat_ofNat]
  omega

theorem add_offset (a x : Word) : a + BitVec.ofNat 32 (offset a x) = x := by
  apply BitVec.eq_of_toNat_eq
  have ha := a.isLt
  have hx := x.isLt
  simp only [offset, BitVec.toNat_sub, BitVec.toNat_add, BitVec.toNat_ofNat]
  omega

theorem offset_of_le {a x : Word} (h : a.toNat ≤ x.toNat) : offset a x = x.toNat - a.toNat := by
  have ha := a.isLt
  have hx := x.isLt
  simp only [offset, BitVec.toNat_sub]
  omega

theorem offset_of_lt {a x : Word} (h : x.toNat < a.toNat) :
    offset a x = 2^32 - (a.toNat - x.toNat) := by
  have ha := a.isLt
  have hx := x.isLt
  simp only [offset, BitVec.toNat_sub]
  omega

theorem le_offset {a x : Word} {n : Nat} (room : a.toNat + n ≤ 2^32)
    (h : x.toNat < a.toNat ∨ a.toNat + n ≤ x.toNat) : n ≤ offset a x := by
  rcases h with h | h
  · rw [offset_of_lt h]; omega
  · rw [offset_of_le (by omega)]; omega

namespace Memory

def store8 (m : Memory) (a : Word) (v : Byte) : Memory :=
  fun x => if x = a then v else m x

/-- The bytes `f 0 .. f (n-1)` stored from address `a` up. -/
def storeBytes (m : Memory) (a : Word) (n : Nat) (f : Nat → Byte) : Memory :=
  fun x => if offset a x < n then f (offset a x) else m x

def load16 (m : Memory) (a : Word) : BitVec 16 := m (a + 1#32) ++ m a

def store16 (m : Memory) (a : Word) (v : BitVec 16) : Memory :=
  m.storeBytes a 2 fun i => v.extractLsb' (8 * i) 8

def load32 (m : Memory) (a : Word) : Word := m (a + 3#32) ++ m (a + 2#32) ++ m (a + 1#32) ++ m a

def store32 (m : Memory) (a : Word) (v : Word) : Memory :=
  m.storeBytes a 4 fun i => v.extractLsb' (8 * i) 8

theorem storeBytes_outside (m : Memory) (a x : Word) (n : Nat) (f : Nat → Byte)
    (h : n ≤ offset a x) : m.storeBytes a n f x = m x := by
  simp only [storeBytes, Nat.not_lt.mpr h, ite_false]

theorem storeBytes_inside (m : Memory) (a : Word) (n i : Nat) (f : Nat → Byte)
    (h : i < n) (bound : n ≤ 2^32) : m.storeBytes a n f (a + BitVec.ofNat 32 i) = f i := by
  simp only [storeBytes, offset_add a (Nat.lt_of_lt_of_le h bound), h, ite_true]

theorem store8_outside (m : Memory) {a x : Word} (v : Byte) (h : x ≠ a) : m.store8 a v x = m x := by
  simp only [store8, h, ite_false]

@[simp] theorem store8_same (m : Memory) (a : Word) (v : Byte) : m.store8 a v a = v := by
  simp only [store8, ite_true]

theorem store16_outside (m : Memory) (a x : Word) (v : BitVec 16) (h : 2 ≤ offset a x) :
    m.store16 a v x = m x := storeBytes_outside m a x 2 _ h

theorem store32_outside (m : Memory) (a x : Word) (v : Word) (h : 4 ≤ offset a x) :
    m.store32 a v x = m x := storeBytes_outside m a x 4 _ h

theorem load32_congr {m m' : Memory} {a : Word}
    (h : ∀ i < 4, m' (a + BitVec.ofNat 32 i) = m (a + BitVec.ofNat 32 i)) :
    m'.load32 a = m.load32 a := by
  have h0 := h 0 (by decide)
  have h1 := h 1 (by decide)
  have h2 := h 2 (by decide)
  have h3 := h 3 (by decide)
  simp only [BitVec.add_zero] at h0 h1 h2 h3
  simp only [load32, h0, h1, h2, h3]

theorem load16_congr {m m' : Memory} {a : Word}
    (h : ∀ i < 2, m' (a + BitVec.ofNat 32 i) = m (a + BitVec.ofNat 32 i)) :
    m'.load16 a = m.load16 a := by
  have h0 := h 0 (by decide)
  have h1 := h 1 (by decide)
  simp only [BitVec.add_zero] at h0 h1
  simp only [load16, h0, h1]

theorem append_extract_word (v : Word) :
    v.extractLsb' 24 8 ++ v.extractLsb' 16 8 ++ v.extractLsb' 8 8 ++ v.extractLsb' 0 8 = v := by
  ext i bound
  simp only [BitVec.getElem_append, BitVec.getElem_extractLsb']
  split
  · rw [Nat.zero_add]
    exact BitVec.getLsbD_eq_getElem bound
  · split
    · rw [show 8 + (i - 8) = i by omega]
      exact BitVec.getLsbD_eq_getElem bound
    · split
      · rw [show 16 + (i - 8 - 8) = i by omega]
        exact BitVec.getLsbD_eq_getElem bound
      · rw [show 24 + (i - 8 - 8 - 8) = i by omega]
        exact BitVec.getLsbD_eq_getElem bound

theorem append_extract_half (v : BitVec 16) : v.extractLsb' 8 8 ++ v.extractLsb' 0 8 = v := by
  ext i bound
  simp only [BitVec.getElem_append, BitVec.getElem_extractLsb']
  split
  · rw [Nat.zero_add]
    exact BitVec.getLsbD_eq_getElem bound
  · rw [show 8 + (i - 8) = i by omega]
    exact BitVec.getLsbD_eq_getElem bound

@[simp] theorem load32_store32 (m : Memory) (a v : Word) : (m.store32 a v).load32 a = v := by
  have byte (i : Nat) (hi : i < 4) :
      m.store32 a v (a + BitVec.ofNat 32 i) = v.extractLsb' (8 * i) 8 :=
    storeBytes_inside m a 4 i _ hi (by decide)
  have h0 := byte 0 (by decide)
  have h1 := byte 1 (by decide)
  have h2 := byte 2 (by decide)
  have h3 := byte 3 (by decide)
  simp only [BitVec.add_zero] at h0 h1 h2 h3
  simp only [load32, h0, h1, h2, h3]
  exact append_extract_word v

@[simp] theorem load16_store16 (m : Memory) (a : Word) (v : BitVec 16) :
    (m.store16 a v).load16 a = v := by
  have byte (i : Nat) (hi : i < 2) :
      m.store16 a v (a + BitVec.ofNat 32 i) = v.extractLsb' (8 * i) 8 :=
    storeBytes_inside m a 2 i _ hi (by decide)
  have h0 := byte 0 (by decide)
  have h1 := byte 1 (by decide)
  simp only [BitVec.add_zero] at h0 h1
  simp only [load16, h0, h1]
  exact append_extract_half v

/-! ### Block moves -/

/-- `rep movsb` with the direction flag clear: bytes move one at a time, upwards. -/
def moveBytes (m : Memory) (dest src : Word) : Nat → Memory
  | 0 => m
  | n + 1 => moveBytes (m.store8 dest (m src)) (dest + 1#32) (src + 1#32) n

/-- `rep stosb` with the direction flag clear. -/
def fillBytes (m : Memory) (dest : Word) (v : Byte) : Nat → Memory
  | 0 => m
  | n + 1 => fillBytes (m.store8 dest v) (dest + 1#32) v n

theorem add_one_ofNat (a : Word) (i : Nat) :
    a + 1#32 + BitVec.ofNat 32 i = a + BitVec.ofNat 32 (i + 1) := by
  apply BitVec.eq_of_toNat_eq
  simp only [BitVec.toNat_add, BitVec.toNat_ofNat]
  omega

theorem offset_pos_step {a x : Word} {n : Nat} (h : n + 1 ≤ offset a x) :
    x ≠ a ∧ n ≤ offset (a + 1#32) x := by
  have ha := a.isLt
  have hx := x.isLt
  refine ⟨?_, ?_⟩
  · rintro rfl
    simp [offset] at h
  · simp only [offset, BitVec.toNat_sub, BitVec.toNat_add, BitVec.toNat_ofNat] at h ⊢
    omega

theorem offset_add_one (a x : Word) : offset (a + 1#32) (x + 1#32) = offset a x := by
  have ha := a.isLt
  have hx := x.isLt
  simp only [offset, BitVec.toNat_sub, BitVec.toNat_add, BitVec.toNat_ofNat]
  omega

theorem moveBytes_outside (m : Memory) (dest src x : Word) (n : Nat) (h : n ≤ offset dest x) :
    m.moveBytes dest src n x = m x := by
  induction n generalizing m dest src with
  | zero => rfl
  | succ n ih =>
    have step := offset_pos_step h
    rw [moveBytes, ih _ _ _ step.2, store8_outside m _ step.1]

theorem offset_succ_self (a : Word) : offset (a + 1#32) a = 2^32 - 1 := by
  have ha := a.isLt
  simp only [offset, BitVec.toNat_sub, BitVec.toNat_add, BitVec.toNat_ofNat]
  omega

/-- The upward move copies byte `i` faithfully while `i` is below the distance from source to
    destination: further up, the source has already been overwritten. -/
theorem moveBytes_inside (m : Memory) (dest src : Word) (n i : Nat) (h : i < n) (bound : n ≤ 2^32)
    (clear : i < offset src dest ∨ dest = src) :
    m.moveBytes dest src n (dest + BitVec.ofNat 32 i) = m (src + BitVec.ofNat 32 i) := by
  induction n generalizing m dest src i with
  | zero => omega
  | succ n ih =>
    rw [moveBytes]
    cases i with
    | zero =>
      simp only [BitVec.add_zero]
      rw [moveBytes_outside _ _ _ _ _ (by rw [offset_succ_self]; omega), store8_same]
    | succ i =>
      rw [← add_one_ofNat dest i, ← add_one_ofNat src i, ih _ _ _ i (by omega) (by omega) ?_]
      · -- either the source byte is still intact, or it is the byte just stored over itself
        by_cases overlap : src + 1#32 + BitVec.ofNat 32 i = dest
        · rcases clear with clear | clear
          · rw [← overlap, add_one_ofNat, offset_add src (by omega)] at clear
            omega
          · rw [overlap, store8_same, clear]
        · rw [store8_outside m _ overlap]
      · rcases clear with clear | clear
        · left; rw [offset_add_one]; omega
        · right; rw [clear]

theorem fillBytes_outside (m : Memory) (dest x : Word) (v : Byte) (n : Nat) (h : n ≤ offset dest x) :
    m.fillBytes dest v n x = m x := by
  induction n generalizing m dest with
  | zero => rfl
  | succ n ih =>
    have step := offset_pos_step h
    rw [fillBytes, ih _ _ step.2, store8_outside m _ step.1]

theorem fillBytes_inside (m : Memory) (dest : Word) (v : Byte) (n i : Nat) (h : i < n) (bound : n ≤ 2^32) :
    m.fillBytes dest v n (dest + BitVec.ofNat 32 i) = v := by
  induction n generalizing m dest i with
  | zero => omega
  | succ n ih =>
    rw [fillBytes]
    cases i with
    | zero =>
      simp only [BitVec.add_zero]
      rw [fillBytes_outside _ _ _ _ _ (by rw [offset_succ_self]; omega), store8_same]
    | succ i => rw [← add_one_ofNat dest i, ih _ _ i (by omega) (by omega)]

/-- From the distance between source and destination on, the upward move repeats what it has stored. -/
theorem moveBytes_repeats (m : Memory) (dest src : Word) (n i : Nat) (h : i < n) (bound : n ≤ 2^32)
    (apart : 0 < offset src dest) (reached : offset src dest ≤ i) :
    m.moveBytes dest src n (dest + BitVec.ofNat 32 i) =
      m.moveBytes dest src n (dest + BitVec.ofNat 32 (i - offset src dest)) := by
  induction n generalizing m dest src i with
  | zero => omega
  | succ n ih =>
    cases i with
    | zero => omega
    | succ i =>
      have step := offset_add_one src dest
      rw [moveBytes, ← add_one_ofNat dest i]
      by_cases last : offset src dest ≤ i
      · have next := ih (m.store8 dest (m src)) (dest + 1#32) (src + 1#32) i (by omega) (by omega) (by omega) (by omega)
        rw [step, add_one_ofNat dest (i - _), ← Nat.sub_add_comm last] at next
        exact next
      · have here : i + 1 - offset src dest = 0 := by omega
        have distance : i + 1 = offset src dest := by omega
        rw [moveBytes_inside _ _ _ _ _ (by omega) (by omega) (Or.inl (by omega)), here, add_one_ofNat, distance,
          add_offset, store8_same]
        have first : dest + BitVec.ofNat 32 0 = dest := BitVec.add_zero dest
        rw [first, moveBytes_outside _ _ _ _ _ (by rw [offset_succ_self]; omega), store8_same]

/-- The copy is that of the source bytes up to the destination, and of no others. -/
theorem moveBytes_agree {m m' : Memory} {dest src : Word} {n : Nat} (bound : n ≤ 2^32) (apart : 0 < offset src dest)
    (agree : ∀ i < n, i < offset src dest → m (src + BitVec.ofNat 32 i) = m' (src + BitVec.ofNat 32 i)) (i : Nat)
    (h : i < n) : m.moveBytes dest src n (dest + BitVec.ofNat 32 i) = m'.moveBytes dest src n (dest + BitVec.ofNat 32 i) := by
  induction i using Nat.strong_induction_on with
  | h i ih =>
    by_cases clear : i < offset src dest
    · rw [moveBytes_inside m dest src n i h bound (Or.inl clear), moveBytes_inside m' dest src n i h bound (Or.inl clear)]
      exact agree i h clear
    · rw [moveBytes_repeats m dest src n i h bound apart (by omega), moveBytes_repeats m' dest src n i h bound apart (by omega)]
      exact ih (i - offset src dest) (by omega) (by omega)

/-- `rep movsd` with the direction flag clear. -/
def moveWords (m : Memory) (dest src : Word) : Nat → Memory
  | 0 => m
  | n + 1 => moveWords (m.store32 dest (m.load32 src)) (dest + 4#32) (src + 4#32) n

/-! ### Frames -/

/-- The two memories agree outside the addresses `S`. -/
def Changes (S : Nat → Prop) (m m' : Memory) : Prop := ∀ x : Word, ¬ S x.toNat → m' x = m x

theorem Changes.refl (S : Nat → Prop) (m : Memory) : Changes S m m := fun _ _ => rfl

theorem Changes.trans {S : Nat → Prop} {m m' m'' : Memory} (first : Changes S m m')
    (second : Changes S m' m'') : Changes S m m'' := fun x outside =>
  (second x outside).trans (first x outside)

theorem Changes.mono {S T : Nat → Prop} {m m' : Memory} (changes : Changes S m m')
    (sub : ∀ x, S x → T x) : Changes T m m' := fun x outside => changes x fun h => outside (sub _ h)

theorem changes_store32 (m : Memory) (a v : Word) (room : a.toNat + 4 ≤ 2^32) :
    Changes (fun x => a.toNat ≤ x ∧ x < a.toNat + 4) m (m.store32 a v) := by
  intro x outside
  apply store32_outside
  apply le_offset room
  omega

theorem changes_moveBytes (m : Memory) (dest src : Word) (n : Nat) (room : dest.toNat + n ≤ 2^32) :
    Changes (fun x => dest.toNat ≤ x ∧ x < dest.toNat + n) m (m.moveBytes dest src n) := by
  intro x outside
  apply moveBytes_outside
  apply le_offset room
  omega

theorem changes_fillBytes (m : Memory) (dest : Word) (v : Byte) (n : Nat) (room : dest.toNat + n ≤ 2^32) :
    Changes (fun x => dest.toNat ≤ x ∧ x < dest.toNat + n) m (m.fillBytes dest v n) := by
  intro x outside
  apply fillBytes_outside
  apply le_offset room
  omega

theorem Changes.load32 {S : Nat → Prop} {m m' : Memory} (changes : Changes S m m') {a : Word}
    (room : a.toNat + 4 ≤ 2^32) (outside : ∀ i < 4, ¬ S (a.toNat + i)) : m'.load32 a = m.load32 a := by
  apply load32_congr
  intro i bound
  apply changes
  have address : (a + BitVec.ofNat 32 i).toNat = a.toNat + i := by
    simp only [BitVec.toNat_add, BitVec.toNat_ofNat]
    omega
  rw [address]
  exact outside i bound

theorem changes_store16 (m : Memory) (a : Word) (v : BitVec 16) (room : a.toNat + 2 ≤ 2^32) :
    Changes (fun x => a.toNat ≤ x ∧ x < a.toNat + 2) m (m.store16 a v) := by
  intro x outside
  apply store16_outside
  apply le_offset room
  omega

theorem Changes.load16 {S : Nat → Prop} {m m' : Memory} (changes : Changes S m m') {a : Word}
    (room : a.toNat + 2 ≤ 2^32) (outside : ∀ i < 2, ¬ S (a.toNat + i)) : m'.load16 a = m.load16 a := by
  apply load16_congr
  intro i bound
  apply changes
  have address : (a + BitVec.ofNat 32 i).toNat = a.toNat + i := by
    simp only [BitVec.toNat_add, BitVec.toNat_ofNat]
    omega
  rw [address]
  exact outside i bound

/-- Below the distance from source to destination a move copies half words whole. -/
theorem load16_moveBytes (m : Memory) (dest src : Word) {n i : Nat} (h : i + 1 < n) (bound : n ≤ 2^32)
    (clear : i + 1 < offset src dest) :
    (m.moveBytes dest src n).load16 (dest + BitVec.ofNat 32 i) = m.load16 (src + BitVec.ofNat 32 i) := by
  have next (a : Word) : a + BitVec.ofNat 32 i + 1#32 = a + BitVec.ofNat 32 (i + 1) := by
    apply BitVec.eq_of_toNat_eq
    simp only [BitVec.toNat_add, BitVec.toNat_ofNat]
    omega
  unfold load16
  rw [next, next, moveBytes_inside m dest src n i (by omega) bound (Or.inl (by omega)),
    moveBytes_inside m dest src n (i + 1) h bound (Or.inl clear)]

theorem load32_store32_apart (m : Memory) {a b : Word} (v : Word) (roomA : a.toNat + 4 ≤ 2^32)
    (roomB : b.toNat + 4 ≤ 2^32) (apart : a.toNat + 4 ≤ b.toNat ∨ b.toNat + 4 ≤ a.toNat) :
    (m.store32 a v).load32 b = m.load32 b :=
  (changes_store32 m a v roomA).load32 roomB fun i bound => by omega

theorem changes_store8 (m : Memory) (a : Word) (v : Byte) : Changes (fun x => x = a.toNat) m (m.store8 a v) := by
  intro x outside
  apply store8_outside
  intro same
  exact outside (congrArg BitVec.toNat same)

theorem changes_moveWords (m : Memory) (dest src : Word) (n : Nat) (room : dest.toNat + 4 * n ≤ 2^32) :
    Changes (fun x => dest.toNat ≤ x ∧ x < dest.toNat + 4 * n) m (m.moveWords dest src n) := by
  induction n generalizing m dest src with
  | zero => exact Changes.refl _ m
  | succ n ih =>
    have first := (changes_store32 m dest (m.load32 src) (by omega)).mono
      (T := fun x => dest.toNat ≤ x ∧ x < dest.toNat + 4 * (n + 1)) fun x inside => by omega
    cases n with
    | zero => exact first
    | succ n =>
      have next : (dest + 4#32).toNat = dest.toNat + 4 := by
        rw [BitVec.toNat_add, BitVec.toNat_ofNat]
        omega
      have rest := ih (m.store32 dest (m.load32 src)) (dest + 4#32) (src + 4#32) (by omega)
      rw [next] at rest
      exact first.trans (rest.mono fun x inside => by omega)

theorem store32_load32 (m : Memory) (dest src : Word) {i : Nat} (h : i < 4) :
    m.store32 dest (m.load32 src) (dest + BitVec.ofNat 32 i) = m (src + BitVec.ofNat 32 i) := by
  have stored := storeBytes_inside m dest 4 i (fun i => (m.load32 src).extractLsb' (8 * i) 8) h (by decide)
  unfold store32
  rw [stored]
  unfold load32
  apply BitVec.eq_of_getElem_eq
  intro j bound
  rw [BitVec.getElem_extractLsb']
  simp only [BitVec.getLsbD_append]
  match i, h with
  | 0, _ => simp [bound]
  | 1, _ =>
    rw [show 8 * 1 + j = j + 8 by omega]
    simp [bound, show j + 8 - 8 = j by omega]
  | 2, _ =>
    simp [bound, show ¬ 8 * 2 + j < 8 by omega,
      show ¬ 8 * 2 + j - 8 < 8 by omega, show 8 * 2 + j - 8 - 8 = j by omega]
  | 3, _ =>
    simp [bound, show ¬ 8 * 3 + j < 8 by omega,
      show ¬ 8 * 3 + j - 8 < 8 by omega, show ¬ 8 * 3 + j - 8 - 8 < 8 by omega,
      show 8 * 3 + j - 8 - 8 - 8 = j by omega]

theorem moveWords_inside (m : Memory) (dest src : Word) (n i : Nat) (h : i < 4 * n)
    (roomDest : dest.toNat + 4 * n ≤ 2^32) (roomSrc : src.toNat + 4 * n ≤ 2^32)
    (apart : src.toNat + 4 * n ≤ dest.toNat ∨ dest.toNat + 4 * n ≤ src.toNat) :
    m.moveWords dest src n (dest + BitVec.ofNat 32 i) = m (src + BitVec.ofNat 32 i) := by
  induction n generalizing m dest src i with
  | zero => omega
  | succ n ih =>
    rw [moveWords]
    have address (a : Word) (k : Nat) (room : a.toNat + k < 2^32) : (a + BitVec.ofNat 32 k).toNat = a.toNat + k := by
      rw [BitVec.toNat_add, BitVec.toNat_ofNat]
      omega
    by_cases first : i < 4
    · rw [← store32_load32 m dest src first]
      by_cases last : n = 0
      · subst last
        rfl
      · have next := address dest 4 (by omega)
        have rest := changes_moveWords (m.store32 dest (m.load32 src)) (dest + 4#32) (src + 4#32) n (by omega)
        apply rest
        rw [address dest i (by omega)]
        omega
    · have nextDest := address dest 4 (by omega)
      have nextSrc := address src 4 (by omega)
      have shift (a : Word) : a + 4#32 + BitVec.ofNat 32 (i - 4) = a + BitVec.ofNat 32 i := by
        rw [BitVec.add_assoc]
        congr 1
        rw [show (4#32 : Word) = BitVec.ofNat 32 4 from rfl, ← BitVec.ofNat_add]
        congr 1
        omega
      have moved := ih (m.store32 dest (m.load32 src)) (dest + 4#32) (src + 4#32) (i - 4) (by omega) (by omega)
        (by omega) (by omega)
      rw [shift, shift] at moved
      rw [moved]
      apply changes_store32 m dest (m.load32 src) (by omega)
      rw [address src i (by omega)]
      omega

/-! ### Other bytes in part of a memory -/

/-- `m` with the bytes of `v` on the addresses `S`. -/
def overlay (S : Nat → Prop) [DecidablePred S] (v m : Memory) : Memory := fun x => if S x.toNat then v x else m x

section

variable {S : Nat → Prop} [DecidablePred S] {v m : Memory}

theorem changes_overlay (v m : Memory) : Changes S m (overlay S v m) := by
  intro x outside
  exact if_neg outside

theorem overlay_changes (changes : Changes S m v) : overlay S v m = v := by
  funext x
  unfold overlay
  split
  · rfl
  · next outside => exact (changes x outside).symm

theorem overlay_load32 {a : Word} (room : a.toNat + 4 ≤ 2^32) (off : ∀ i < 4, ¬ S (a.toNat + i)) :
    (overlay S v m).load32 a = m.load32 a := (changes_overlay v m).load32 room off

theorem overlay_store32 {a : Word} (w : Word) (room : a.toNat + 4 ≤ 2^32) (off : ∀ i < 4, ¬ S (a.toNat + i)) :
    (overlay S v m).store32 a w = overlay S v (m.store32 a w) := by
  funext x
  by_cases inside : S x.toNat
  · have apart : x.toNat < a.toNat ∨ a.toNat + 4 ≤ x.toNat := by
      by_contra among
      have clash := off (x.toNat - a.toNat) (by omega)
      rw [show a.toNat + (x.toNat - a.toNat) = x.toNat by omega] at clash
      exact clash inside
    rw [store32_outside _ _ _ _ (le_offset room apart)]
    unfold overlay
    rw [if_pos inside, if_pos inside]
  · have same (k : Memory) : overlay S v k x = k x := if_neg inside
    rw [same]
    unfold store32 storeBytes
    rw [same]

end

end Memory
end Machine
