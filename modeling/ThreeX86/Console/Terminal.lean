import ThreeX86.Console.Vga

/-!
A terminal that never forgets a line, and the screen as the window on its last 25 rows.
-/

namespace ThreeX86.Console

open Machine Vga

structure Terminal where
  cell : Nat → Nat → BitVec 16
  row : Nat
  col : Nat

namespace Terminal

def initial : Terminal := ⟨fun _ _ => 0x720#16, 0, 0⟩

/-- A printable byte is bright white on black and moves the cursor on. -/
def print (t : Terminal) (c : Byte) : Terminal :=
  { t with
    cell := fun row col => if row = t.row ∧ col = t.col then 0xf00#16 ||| c.zeroExtend 16 else t.cell row col
    col := t.col + 1 }

def key (t : Terminal) (c : Byte) : Terminal :=
  if c = 0x0a#8 then { t with row := t.row + 1 }
  else if c = 0x0d#8 then { t with col := 0 }
  else if c = 0x09#8 then { t with col := (t.col / 4 + 1) * 4 }
  else if 0x20 ≤ c.toNat ∧ c.toNat ≤ 0x7e then t.print c
  else t

def wrap (t : Terminal) : Terminal := if t.col = 80 then { t with row := t.row + 1, col := 0 } else t

def put (t : Terminal) (c : Byte) : Terminal := (t.key c).wrap

def top (t : Terminal) : Nat := t.row - 24

end Terminal

/-- The screen shows the 25 rows from `top` on; nothing was ever printed below them. -/
structure Window (top : Nat) (s : Vga) (t : Terminal) : Prop where
  col : s.col.toNat = t.col
  line : top + s.line.toNat = t.row
  cells : ∀ l < 25, ∀ c < 80, s.cell (l * 80 + c) = t.cell (top + l) c
  below : ∀ row col, top + 25 ≤ row → t.cell row col = blank
  onScreen : s.OnScreen

theorem isprint_iff (c : Byte) : isprint c.toInt = true ↔ 0x20 ≤ c.toNat ∧ c.toNat ≤ 0x7e := by
  have bound := c.isLt
  unfold isprint
  rw [BitVec.toInt_eq_toNat_cond]
  simp only [decide_eq_true_eq]
  split <;> omega

theorem glyph_of_printable {c : Byte} (h : c.toNat ≤ 0x7e) : glyph c = 0xf00#16 ||| c.zeroExtend 16 := by
  have low : c &&& 0x7f#8 = c := by
    apply BitVec.eq_of_toNat_eq
    rw [BitVec.toNat_and]
    have mask : (0x7f#8).toNat = 2^7 - 1 := rfl
    rw [mask, Nat.and_two_pow_sub_one_eq_mod, Nat.mod_eq_of_lt (by omega)]
  unfold glyph
  rw [low]

section

variable {top : Nat} {s : Vga} {t : Terminal}

theorem Window.print (w : Window top s t) (col : t.col < 80) (row : t.row < top + 25) {c : Byte}
    (printable : c.toNat ≤ 0x7e) :
    Window top { s.storeCell (s.line * screenWidth + s.col) (glyph c) with col := s.col + 1#32 } (t.print c) := by
  have column := w.col
  have line := w.line
  have width : screenWidth.toNat = 80 := rfl
  have index : (s.line * screenWidth + s.col).toNat = s.line.toNat * 80 + t.col := by
    rw [BitVec.toNat_add, BitVec.toNat_mul, width, column]
    omega
  constructor
  case col =>
    show (s.col + 1#32).toNat = t.col + 1
    rw [BitVec.toNat_add, BitVec.toNat_ofNat]
    omega
  case line => exact line
  case cells =>
    intro l hl c' hc'
    show (s.storeCell _ _).cell _ = if _ then _ else _
    rw [cell_storeCell s _ (by omega) (by omega), index, glyph_of_printable printable, w.cells l hl c' hc']
    simp only [show l * 80 + c' = s.line.toNat * 80 + t.col ↔ top + l = t.row ∧ c' = t.col by omega]
  case below =>
    intro row' col' under
    show (if _ then _ else _) = blank
    rw [if_neg (by omega), w.below row' col' under]
  case onScreen => exact w.onScreen.storeCell (glyph c) (by omega)

/-- The `switch` and the reference keys move the cursor alike, up to column 80. -/
theorem Window.putcharSwitch (w : Window top s t) (col : t.col < 80) (row : t.row < top + 25) (c : Byte) :
    Window top (putcharSwitch s c) (t.key c) ∧ (t.key c).col ≤ 80 ∧
    t.row ≤ (t.key c).row ∧ (t.key c).row ≤ t.row + 1 ∧ ((t.key c).col = 80 → (t.key c).row = t.row) := by
  have column := w.col
  have line := w.line
  unfold Console.putcharSwitch Terminal.key
  split
  · refine ⟨⟨w.col, ?_, w.cells, w.below, w.onScreen⟩, by show t.col ≤ 80; omega, by show t.row ≤ t.row + 1; omega,
      Nat.le_refl _, fun (full : t.col = 80) => by omega⟩
    show top + (s.line + 1#32).toNat = t.row + 1
    rw [BitVec.toNat_add, BitVec.toNat_ofNat]
    omega
  · split
    · exact ⟨⟨rfl, w.line, w.cells, w.below, w.onScreen⟩, Nat.zero_le 80, Nat.le_refl _, Nat.le_succ _, fun _ => rfl⟩
    · split
      · refine ⟨⟨?_, w.line, w.cells, w.below, w.onScreen⟩, ?_, Nat.le_refl _, Nat.le_succ _, fun _ => rfl⟩
        · have next : (s.col + 1#32).toNat = t.col + 1 := by
            rw [BitVec.toNat_add, BitVec.toNat_ofNat]
            omega
          have four : (4#32).toNat = 4 := rfl
          show (roundUp (s.col + 1#32) 4#32).toNat = (t.col / 4 + 1) * 4
          rw [toNat_roundUp _ _ ⟨2, rfl⟩ (by rw [next, four]; omega), next, four]
          omega
        · show (t.col / 4 + 1) * 4 ≤ 80
          omega
      · by_cases printable : 0x20 ≤ c.toNat ∧ c.toNat ≤ 0x7e
        · rw [if_pos ((isprint_iff c).mpr printable), if_pos printable]
          exact ⟨w.print col row printable.2, by show t.col + 1 ≤ 80; omega, Nat.le_refl _, Nat.le_succ _, fun _ => rfl⟩
        · rw [if_neg (fun h => printable ((isprint_iff c).mp h)), if_neg printable]
          exact ⟨w, Nat.le_of_lt col, Nat.le_refl _, Nat.le_succ _, fun _ => rfl⟩

theorem Window.putcharWrap (w : Window top s t) (col : t.col ≤ 80) (row : t.row ≤ top + 25) :
    Window top (putcharWrap s) t.wrap := by
  have column := w.col
  have line := w.line
  have full : s.col ≥ screenWidth ↔ t.col = 80 := by
    rw [ge_iff_le, BitVec.le_def, column, show screenWidth.toNat = 80 from rfl]
    omega
  unfold Console.putcharWrap Terminal.wrap
  simp only [full]
  split
  · refine ⟨rfl, ?_, w.cells, w.below, w.onScreen⟩
    show top + (s.line + 1#32).toNat = t.row + 1
    rw [BitVec.toNat_add, BitVec.toNat_ofNat]
    omega
  · exact w

theorem Window.scroll (w : Window top s t) (row : t.row = top + 25) : Window (top + 1) (putcharScroll s) t := by
  have line := w.line
  have height : s.line = screenHeight := by
    apply BitVec.eq_of_toNat_eq
    rw [show screenHeight.toNat = 25 from rfl]
    omega
  obtain ⟨onScreen, col, lineKept, cells⟩ := vgaConsoleScrup_spec w.onScreen
  unfold putcharScroll
  rw [if_pos height]
  generalize vgaConsoleScrup s = scrolled at onScreen col lineKept cells ⊢
  constructor
  case col => exact (congrArg BitVec.toNat col).trans w.col
  case line =>
    show top + 1 + (scrolled.line - 1#32).toNat = t.row
    rw [lineKept, height, row]
    rfl
  case cells =>
    intro l hl c hc
    show scrolled.cell (l * 80 + c) = _
    rw [cells _ (by omega)]
    split
    · have moved := w.cells (l + 1) (by omega) c hc
      rwa [show l * 80 + c + 80 = (l + 1) * 80 + c by omega, show top + 1 + l = top + (l + 1) by omega]
    · rw [w.below _ _ (by omega)]
  case below => exact fun row' col' under => w.below row' col' (by omega)
  case onScreen => exact onScreen

theorem Window.putcharScroll_of_lt (w : Window top s t) (row : t.row < top + 25) : putcharScroll s = s := by
  have line := w.line
  unfold putcharScroll
  rw [if_neg]
  intro height
  rw [height, show screenHeight.toNat = 25 from rfl] at line
  omega

end

/-- The state of the driver between calls, seen against the terminal. -/
structure Shows (s : Vga) (t : Terminal) : Prop extends Window t.top s t where
  width : t.col < 80

theorem Shows.line_lt {s : Vga} {t : Terminal} (shows : Shows s t) : s.line.toNat < 25 := by
  have line := shows.line
  unfold Terminal.top at line
  omega

theorem Shows.init (mem : Memory) : Shows (vgaConsoleInit (vgaBoot mem) true) Terminal.initial := by
  obtain ⟨onScreen, col, line, cells⟩ := vgaConsoleInit_spec mem
  constructor
  case toWindow =>
    constructor
    case col => rw [col]; rfl
    case line => rw [line]; rfl
    case cells => exact fun l hl c hc => cells _ (by omega)
    case below => exact fun row col under => rfl
    case onScreen => exact onScreen
  case width => decide

theorem Shows.putchar {s : Vga} {t : Terminal} (shows : Shows s t) (c : Byte) :
    Shows (vgaConsolePutchar s c) (t.put c) := by
  have line := shows.line
  have lineBound := shows.line_lt
  obtain ⟨typed, col, low, high, same⟩ := shows.toWindow.putcharSwitch shows.width (by omega) c
  have wrapped := typed.putcharWrap col (by omega)
  have cursor : (t.put c).col < 80 ∧ t.row ≤ (t.put c).row ∧ (t.put c).row ≤ t.row + 1 := by
    unfold Terminal.put Terminal.wrap
    split
    · rename_i full
      have row := same full
      exact ⟨Nat.zero_lt_succ 79, by show t.row ≤ (t.key c).row + 1; omega, by show (t.key c).row + 1 ≤ t.row + 1; omega⟩
    · exact ⟨by omega, low, high⟩
  refine ⟨?_, cursor.1⟩
  unfold vgaConsolePutchar
  unfold Terminal.top at line ⊢
  unfold Terminal.top at wrapped
  by_cases bottom : (t.put c).row = t.row - 24 + 25
  · have scrolled := wrapped.scroll bottom
    rwa [show t.row - 24 + 1 = (t.put c).row - 24 by omega] at scrolled
  · rw [wrapped.putcharScroll_of_lt (show (t.put c).row < _ by omega)]
    rwa [show t.row - 24 = (t.put c).row - 24 by omega] at wrapped

/-- The screen refines the terminal, whatever is printed. -/
theorem console_refines_terminal (mem : Memory) (bytes : List Byte) :
    let s := bytes.foldl vgaConsolePutchar (vgaConsoleInit (vgaBoot mem) true)
    let t := bytes.foldl Terminal.put Terminal.initial
    s.col.toNat < 80 ∧ s.line.toNat < 25 ∧ s.OnScreen ∧
    (∀ l < 25, ∀ c < 80, s.cell (l * 80 + c) = t.cell (max 0 (t.row - 24) + l) c) ∧
    s.line.toNat = t.row - max 0 (t.row - 24) ∧ s.col.toNat = t.col := by
  have run (bytes : List Byte) : ∀ s t, Shows s t → Shows (bytes.foldl vgaConsolePutchar s) (bytes.foldl Terminal.put t) := by
    induction bytes with
    | nil => exact fun s t shows => shows
    | cons c rest ih => exact fun s t shows => ih _ _ (shows.putchar c)
  have shows := run bytes _ _ (Shows.init mem)
  have line := shows.line
  have col := shows.col
  have width := shows.width
  have cells := shows.cells
  unfold Terminal.top at line cells
  refine ⟨by omega, shows.line_lt, shows.onScreen, ?_, by omega, col⟩
  intro l hl c hc
  rw [Nat.zero_max, cells l hl c hc]

end ThreeX86.Console
