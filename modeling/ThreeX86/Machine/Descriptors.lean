import ThreeX86.Machine.Memory

/-!
The descriptor tables of a 32-bit x86: what the processor reads out of the eight bytes of a descriptor.
-/

namespace Machine

open Memory

/-- What `lgdt` and `lidt` load. -/
structure TablePointer where
  len : BitVec 16
  ptr : Word
deriving DecidableEq, Repr

/-- The processor reads descriptor `i` only where the table's limit covers all of it. -/
def TablePointer.Covers (t : TablePointer) (i : Nat) : Prop := 8 * i + 7 ≤ t.len.toNat

def TablePointer.entry (t : TablePointer) (i : Nat) : Word := t.ptr + BitVec.ofNat 32 (8 * i)

/-- A gate of the interrupt table; `type` includes the S bit. -/
structure Gate where
  target : Word
  selector : BitVec 16
  type : BitVec 5
  dpl : BitVec 2
  present : Bool
deriving DecidableEq, Repr

def loadGate (m : Memory) (a : Word) : Gate where
  target := m.load16 (a + 6#32) ++ m.load16 a
  selector := m.load16 (a + 2#32)
  type := (m (a + 5#32)).extractLsb' 0 5
  dpl := (m (a + 5#32)).extractLsb' 5 2
  present := (m (a + 5#32)).getLsbD 7

/-- A segment; `limit` counts what the G bit says, bytes or pages. -/
structure Segment where
  base : Word
  limit : BitVec 20
  pages : Bool
  type : BitVec 5
  dpl : BitVec 2
  present : Bool
deriving DecidableEq, Repr

def loadSegment (m : Memory) (a : Word) : Segment where
  base := m (a + 7#32) ++ m (a + 4#32) ++ m.load16 (a + 2#32)
  limit := (m (a + 6#32)).extractLsb' 0 4 ++ m.load16 a
  pages := (m (a + 6#32)).getLsbD 7
  type := (m (a + 5#32)).extractLsb' 0 5
  dpl := (m (a + 5#32)).extractLsb' 5 2
  present := (m (a + 5#32)).getLsbD 7

/-- The last offset inside the segment. -/
def Segment.last (s : Segment) : Nat := if s.pages then s.limit.toNat * 4096 + 4095 else s.limit.toNat

/-! ### Eight bytes, and what the fields depend on -/

section

variable {m m' : Memory} {a : Word}

theorem mask_half (i : Nat) : (0xffff#32 : Word).getLsbD i = decide (i < 16) := by
  by_cases small : i < 32
  · revert i
    decide
  · rw [BitVec.getLsbD_of_ge _ _ (by omega), decide_eq_false (by omega)]

/-- An address cut in two. -/
theorem append_halves (v : Word) : (v >>> 16 &&& 0xffff#32).setWidth 16 ++ (v &&& 0xffff#32).setWidth 16 = v := by
  apply BitVec.eq_of_getLsbD_eq
  intro i below
  rw [BitVec.getLsbD_append]
  by_cases low : i < 16
  · simp only [low, ite_true, BitVec.getLsbD_setWidth, BitVec.getLsbD_and, mask_half, decide_true, Bool.and_true, Bool.true_and]
  · have high : i - 16 < 16 := by omega
    simp only [low, ite_false, BitVec.getLsbD_setWidth, BitVec.getLsbD_and, BitVec.getLsbD_ushiftRight, mask_half, high,
      decide_true, Bool.and_true, Bool.true_and]
    congr 1
    omega

/-- Two fields of one record: the distance is that of their places in it. -/
theorem offset_fields (a c d : Word) : offset (a + c) (a + d) = (d - c).toNat := by
  rw [offset]
  congr 1
  rw [BitVec.sub_eq_iff_eq_add, BitVec.add_comm (d - c), BitVec.add_assoc, BitVec.add_comm c, BitVec.sub_add_cancel]

theorem store16_field (m : Memory) (a : Word) {c d : Word} (v : BitVec 16) (off : 2 ≤ (d - c).toNat) :
    m.store16 (a + c) v (a + d) = m (a + d) := store16_outside m _ _ v (by rwa [offset_fields])

theorem store8_field (m : Memory) (a : Word) {c d : Word} (v : Byte) (off : d ≠ c) :
    m.store8 (a + c) v (a + d) = m (a + d) := store8_outside m v fun same => off (by simpa using same)

/-- A half word is kept where both of its bytes are. -/
theorem half_of_bytes {c : Word} (low : m' (a + c) = m (a + c)) (high : m' (a + (c + 1#32)) = m (a + (c + 1#32))) :
    m'.load16 (a + c) = m.load16 (a + c) := by
  rw [load16, load16, low, BitVec.add_assoc, high]

theorem field_kept (same : ∀ i < 8, m' (a + BitVec.ofNat 32 i) = m (a + BitVec.ofNat 32 i)) {c : Word} (small : c.toNat < 8) :
    m' (a + c) = m (a + c) := by
  have kept := same c.toNat small
  rwa [ofNat_toNat_word] at kept

theorem half_kept (same : ∀ i < 8, m' (a + BitVec.ofNat 32 i) = m (a + BitVec.ofNat 32 i)) {c : Word} (small : c.toNat < 7) :
    m'.load16 (a + c) = m.load16 (a + c) := by
  apply load16_congr
  intro i below
  have kept := same (c.toNat + i) (by omega)
  rwa [BitVec.ofNat_add, ofNat_toNat_word, ← BitVec.add_assoc] at kept

theorem loadGate_congr (same : ∀ i < 8, m' (a + BitVec.ofNat 32 i) = m (a + BitVec.ofNat 32 i)) : loadGate m' a = loadGate m a := by
  have first := half_kept same (c := 0#32) (by decide)
  rw [BitVec.add_zero] at first
  simp only [loadGate, first, half_kept same (c := 6#32) (by decide), half_kept same (c := 2#32) (by decide),
    field_kept same (c := 5#32) (by decide)]

theorem loadSegment_congr (same : ∀ i < 8, m' (a + BitVec.ofNat 32 i) = m (a + BitVec.ofNat 32 i)) :
    loadSegment m' a = loadSegment m a := by
  have first := half_kept same (c := 0#32) (by decide)
  rw [BitVec.add_zero] at first
  simp only [loadSegment, first, half_kept same (c := 2#32) (by decide), field_kept same (c := 4#32) (by decide),
    field_kept same (c := 5#32) (by decide), field_kept same (c := 6#32) (by decide), field_kept same (c := 7#32) (by decide)]

theorem Memory.Changes.entry {S : Nat → Prop} (changes : Changes S m m') (room : a.toNat + 8 ≤ 2^32)
    (outside : ∀ i < 8, ¬ S (a.toNat + i)) : ∀ i < 8, m' (a + BitVec.ofNat 32 i) = m (a + BitVec.ofNat 32 i) := by
  intro i below
  apply changes
  rw [BitVec.toNat_add, BitVec.toNat_ofNat, Nat.mod_eq_of_lt (by omega), Nat.mod_eq_of_lt (by omega)]
  exact outside i below

end

end Machine
