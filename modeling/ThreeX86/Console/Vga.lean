import ThreeX86.Stdlib

/-!
The text console of `hw/vga.c`. The screen is the 4000 bytes of memory from `0xb8000` up; the
addresses of all bytes stored are kept, in order.
-/

namespace ThreeX86.Console

open Machine Machine.Memory

structure Vga where
  col : Word
  line : Word
  mem : Memory
  stored : List Word
  ports : List (BitVec 16 × Byte)

def vga : Word := 0xb8000#32
def screenWidth : Word := 80#32
def screenHeight : Word := 25#32

def blank : BitVec 16 := 0x720#16

def cellAddr (i : Word) : Word := vga + 2#32 * i

namespace Vga

def outp (s : Vga) (port : BitVec 16) (v : Byte) : Vga := { s with ports := s.ports ++ [(port, v)] }

def storeCell (s : Vga) (i : Word) (v : BitVec 16) : Vga :=
  { s with mem := s.mem.store16 (cellAddr i) v, stored := s.stored ++ [cellAddr i, cellAddr i + 1#32] }

def memcpy (s : Vga) (dest src : Word) (count : Nat) : Vga :=
  { s with
    mem := s.mem.moveBytes dest src count
    stored := s.stored ++ (List.range count).map fun i => dest + BitVec.ofNat 32 i }

/-- The loops that blank `count` cells from `vga[i]` up. -/
def clearCells (s : Vga) (i : Word) : Nat → Vga
  | 0 => s
  | count + 1 => clearCells (s.storeCell i blank) (i + 1#32) count

def cell (s : Vga) (i : Nat) : BitVec 16 := s.mem.load16 (cellAddr (BitVec.ofNat 32 i))

/-- Every byte stored so far belongs to one of the 2000 cells of the screen. -/
def OnScreen (s : Vga) : Prop := ∀ a ∈ s.stored, offset vga a < 4000

end Vga

open Vga

/-- The static variables at boot. -/
def vgaBoot (mem : Memory) : Vga := ⟨0#32, 0#32, mem, [], []⟩

def vgaConsoleInit (s : Vga) (clear : Bool) : Vga :=
  let s := s.outp 0x3d4#16 0x0a#8
  let s := s.outp 0x3d5#16 0x20#8
  if clear then s.clearCells 0#32 2000 else s

def vgaConsoleScrup (s : Vga) : Vga :=
  let s := s.memcpy vga (cellAddr screenWidth) ((25 - 1) * 80 * 2)
  s.clearCells ((screenHeight - 1#32) * screenWidth) 80

/-- `isprint` of `ctype.c` -/
def isprint (c : Int) : Bool := c ≥ 0x20 ∧ c < 0x7f

def glyph (c : Byte) : BitVec 16 := 0xf00#16 ||| (c &&& 0x7f#8).zeroExtend 16

/-- The `switch` of `vga_console_putchar`; `char` is signed. -/
def putcharSwitch (s : Vga) (c : Byte) : Vga :=
  if c = 0x0a#8 then { s with line := s.line + 1#32 }
  else if c = 0x0d#8 then { s with col := 0#32 }
  else if c = 0x09#8 then { s with col := roundUp (s.col + 1#32) 4#32 }
  else if isprint c.toInt then
    let s := s.storeCell (s.line * screenWidth + s.col) (glyph c)
    { s with col := s.col + 1#32 }
  else s

def putcharWrap (s : Vga) : Vga :=
  if s.col ≥ screenWidth then { s with col := 0#32, line := s.line + 1#32 } else s

def putcharScroll (s : Vga) : Vga :=
  if s.line = screenHeight then
    let s := vgaConsoleScrup s
    { s with line := s.line - 1#32 }
  else s

def vgaConsolePutchar (s : Vga) (c : Byte) : Vga := putcharScroll (putcharWrap (putcharSwitch s c))

/-! ### Cells -/

theorem toNat_cellAddr {i : Word} (h : i.toNat < 2000) : (cellAddr i).toNat = 0xb8000 + 2 * i.toNat := by
  unfold cellAddr vga
  rw [BitVec.toNat_add, BitVec.toNat_mul]
  simp only [BitVec.toNat_ofNat]
  omega

theorem offset_cellAddr {i : Word} (h : i.toNat < 2000) :
    offset vga (cellAddr i) < 4000 ∧ offset vga (cellAddr i + 1#32) < 4000 := by
  have address := toNat_cellAddr h
  unfold offset vga
  constructor
  · rw [BitVec.toNat_sub, address]
    simp only [BitVec.toNat_ofNat]
    omega
  · rw [BitVec.toNat_sub, BitVec.toNat_add, address]
    simp only [BitVec.toNat_ofNat]
    omega

namespace Vga

variable (s : Vga)

theorem cell_storeCell {i : Nat} {j : Word} (v : BitVec 16) (hi : i < 2000) (hj : j.toNat < 2000) :
    (s.storeCell j v).cell i = if i = j.toNat then v else s.cell i := by
  have index : (BitVec.ofNat 32 i).toNat = i := toNat_ofNat_word (by omega)
  unfold cell storeCell
  split
  · rename_i same
    have word : BitVec.ofNat 32 i = j := BitVec.eq_of_toNat_eq (index.trans same)
    rw [word, load16_store16]
  · rename_i differ
    have here := toNat_cellAddr (i := BitVec.ofNat 32 i) (by omega)
    have there := toNat_cellAddr hj
    apply (changes_store16 s.mem (cellAddr j) v (by omega)).load16 (by omega)
    intro k small
    omega

theorem OnScreen.storeCell {s : Vga} (on : s.OnScreen) {i : Word} (v : BitVec 16) (h : i.toNat < 2000) :
    (s.storeCell i v).OnScreen := by
  intro a member
  rcases List.mem_append.mp member with member | member
  · exact on a member
  · have bounds := offset_cellAddr h
    simp only [List.mem_cons, List.not_mem_nil, or_false] at member
    rcases member with rfl | rfl
    · exact bounds.1
    · exact bounds.2

theorem memcpy_col (dest src : Word) (count : Nat) : (s.memcpy dest src count).col = s.col := rfl

theorem memcpy_line (dest src : Word) (count : Nat) : (s.memcpy dest src count).line = s.line := rfl

theorem cell_memcpy (dest src : Word) (count i : Nat) :
    (s.memcpy dest src count).cell i = (s.mem.moveBytes dest src count).load16 (cellAddr (BitVec.ofNat 32 i)) := rfl

theorem OnScreen.memcpy {s : Vga} (on : s.OnScreen) (src : Word) (count : Nat) (h : count ≤ 4000) :
    (s.memcpy vga src count).OnScreen := by
  intro a member
  rcases List.mem_append.mp member with member | member
  · exact on a member
  · obtain ⟨i, range, rfl⟩ := List.mem_map.mp member
    have bound := List.mem_range.mp range
    rw [offset_add vga (by omega)]
    omega

theorem clearCells_spec {s : Vga} (i : Word) (count : Nat) (room : i.toNat + count ≤ 2000) (on : s.OnScreen) :
    (s.clearCells i count).OnScreen ∧ (s.clearCells i count).col = s.col ∧ (s.clearCells i count).line = s.line ∧
    ∀ j < 2000, (s.clearCells i count).cell j = if i.toNat ≤ j ∧ j < i.toNat + count then blank else s.cell j := by
  induction count generalizing s i with
  | zero =>
    refine ⟨on, rfl, rfl, ?_⟩
    intro j bound
    rw [if_neg (by omega)]
    rfl
  | succ count ih =>
    have next : (i + 1#32).toNat = i.toNat + 1 := by
      rw [BitVec.toNat_add, BitVec.toNat_ofNat]
      omega
    obtain ⟨on', col, line, cells⟩ := ih (s := s.storeCell i blank) (i + 1#32) (by omega)
      (on.storeCell blank (by omega))
    refine ⟨on', col, line, ?_⟩
    intro j bound
    have stored := cells j bound
    rw [cell_storeCell s blank bound (by omega), next] at stored
    rw [clearCells, stored]
    by_cases first : j = i.toNat
    · rw [if_neg (by omega), if_pos first, if_pos (by omega)]
    · rw [if_neg first]
      simp only [show (i.toNat + 1 ≤ j ∧ j < i.toNat + 1 + count) ↔ i.toNat ≤ j ∧ j < i.toNat + (count + 1) by omega]

theorem vgaConsoleInit_true (s : Vga) :
    vgaConsoleInit s true = ((s.outp 0x3d4#16 0x0a#8).outp 0x3d5#16 0x20#8).clearCells 0#32 2000 := by
  unfold vgaConsoleInit
  rw [if_pos rfl]

theorem vgaConsoleInit_spec (mem : Memory) :
    (vgaConsoleInit (vgaBoot mem) true).OnScreen ∧ (vgaConsoleInit (vgaBoot mem) true).col = 0#32 ∧
    (vgaConsoleInit (vgaBoot mem) true).line = 0#32 ∧
    ∀ j < 2000, (vgaConsoleInit (vgaBoot mem) true).cell j = blank := by
  have on : (((vgaBoot mem).outp 0x3d4#16 0x0a#8).outp 0x3d5#16 0x20#8).OnScreen :=
    fun a member => absurd member (List.not_mem_nil)
  obtain ⟨on', col, line, cells⟩ := clearCells_spec (s := ((vgaBoot mem).outp 0x3d4#16 0x0a#8).outp 0x3d5#16 0x20#8) 0#32 2000 (by decide) on
  rw [vgaConsoleInit_true]
  refine ⟨on', col, line, ?_⟩
  intro j bound
  have zero : (0#32).toNat = 0 := rfl
  rw [cells j bound, zero, if_pos (by omega)]

theorem vgaConsoleScrup_spec {s : Vga} (on : s.OnScreen) :
    (vgaConsoleScrup s).OnScreen ∧ (vgaConsoleScrup s).col = s.col ∧ (vgaConsoleScrup s).line = s.line ∧
    ∀ j < 2000, (vgaConsoleScrup s).cell j = if j < 1920 then s.cell (j + 80) else blank := by
  have first : ((screenHeight - 1#32) * screenWidth).toNat = 1920 := by decide
  have count : (25 - 1) * 80 * 2 = 3840 := rfl
  have source : (cellAddr screenWidth).toNat = 0xb8000 + 160 := by decide
  obtain ⟨on', col, line, cells⟩ := clearCells_spec ((screenHeight - 1#32) * screenWidth) 80 (by omega)
    (on.memcpy (cellAddr screenWidth) 3840 (by decide))
  rw [memcpy_col] at col
  rw [memcpy_line] at line
  unfold vgaConsoleScrup
  rw [count]
  refine ⟨on', col, line, ?_⟩
  intro j bound
  rw [cells j bound, first]
  by_cases low : j < 1920
  · rw [if_neg (by omega), if_pos low]
    have dest : cellAddr (BitVec.ofNat 32 j) = vga + BitVec.ofNat 32 (2 * j) := by
      unfold cellAddr
      apply BitVec.eq_of_toNat_eq
      simp only [BitVec.toNat_add, BitVec.toNat_mul, BitVec.toNat_ofNat]
      omega
    have src : cellAddr (BitVec.ofNat 32 (j + 80)) = cellAddr screenWidth + BitVec.ofNat 32 (2 * j) := by
      unfold cellAddr screenWidth
      apply BitVec.eq_of_toNat_eq
      simp only [BitVec.toNat_add, BitVec.toNat_mul, BitVec.toNat_ofNat]
      omega
    rw [cell_memcpy, cell, dest, src]
    exact load16_moveBytes s.mem vga (cellAddr screenWidth) (by omega) (by decide) (by
      have distance : offset (cellAddr screenWidth) vga = 2^32 - 160 := by decide
      omega)
  · rw [if_pos (by omega), if_neg low]

end Vga

end ThreeX86.Console
