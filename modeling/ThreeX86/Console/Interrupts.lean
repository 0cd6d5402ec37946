import ThreeX86.Machine.Run
import ThreeX86.Console.Keyboard
import ThreeX86.Console.Terminal

/-!
A task printing with interrupts enabled: `vga_console_putchar` one statement at a time, and keyboard
interrupts between any two of them.
-/

namespace ThreeX86.Console

open Machine Vga Transition

/-- The statement that `vga_console_putchar` is about to execute. -/
inductive Pc where
  | idle
  | switch (c : Byte)
  | lineFeed
  | carriageReturn
  | tab
  | ifPrint (c : Byte)
  | print (c : Byte)
  | advance
  | ifWrap
  | wrapCol
  | wrapLine
  | ifScroll
  | scrollLines
  | scrollClear (i : Nat)
  | scrollBack
deriving DecidableEq

/-- One statement. In `vga_console_scrup` the copy is one statement and each blank cell another. -/
def statement (v : Vga) : Pc → Vga × Pc
  | .idle => (v, .idle)
  | .switch c =>
    (v, if c = 0x0a#8 then .lineFeed else if c = 0x0d#8 then .carriageReturn else if c = 0x09#8 then .tab
      else .ifPrint c)
  | .lineFeed => ({ v with line := v.line + 1#32 }, .ifWrap)
  | .carriageReturn => ({ v with col := 0#32 }, .ifWrap)
  | .tab => ({ v with col := roundUp (v.col + 1#32) 4#32 }, .ifWrap)
  | .ifPrint c => (v, if isprint c.toInt then .print c else .ifWrap)
  | .print c => (v.storeCell (v.line * screenWidth + v.col) (glyph c), .advance)
  | .advance => ({ v with col := v.col + 1#32 }, .ifWrap)
  | .ifWrap => (v, if v.col ≥ screenWidth then .wrapCol else .ifScroll)
  | .wrapCol => ({ v with col := 0#32 }, .wrapLine)
  | .wrapLine => ({ v with line := v.line + 1#32 }, .ifScroll)
  | .ifScroll => (v, if v.line = screenHeight then .scrollLines else .idle)
  | .scrollLines => (v.memcpy vga (cellAddr screenWidth) ((25 - 1) * 80 * 2), .scrollClear 0)
  | .scrollClear i =>
    (v.storeCell ((screenHeight - 1#32) * screenWidth + BitVec.ofNat 32 i) blank,
      if i + 1 < 80 then .scrollClear (i + 1) else .scrollBack)
  | .scrollBack => ({ v with line := v.line - 1#32 }, .idle)

/-- The machine: the task has `pending` bytes of its `console_write` still to print. -/
structure Printing where
  vga : Vga
  pc : Pc
  pending : List Byte
  keyboard : Keyboard

inductive Event where
  | write (str : Nat → Byte) (len : Word) (crlf : Bool)
  | call
  | statement
  | interrupt (status data : Byte) (behind : Nat → Byte)

/-- What `console_write` passes to `vga_console_putchar`. -/
def putcharCalls (str : Nat → Byte) (len : Word) (crlf : Bool) : List Byte :=
  (consoleWrite (fun calls c => calls ++ [c]) crlf str [] len).2.console

namespace Printing

def Allowed (s : Printing) : Event → Prop
  | .write _ _ _ => s.pc = .idle ∧ s.pending = []
  | .call => s.pc = .idle ∧ s.pending ≠ []
  | .statement => s.pc ≠ .idle
  | .interrupt _ _ _ => True

def apply (s : Printing) : Event → Printing
  | .write str len crlf => { s with pending := putcharCalls str len crlf }
  | .call =>
    match s.pending with
    | [] => s
    | c :: rest => { s with pc := .switch c, pending := rest }
  | .statement => { s with vga := (Console.statement s.vga s.pc).1, pc := (Console.statement s.vga s.pc).2 }
  | .interrupt status data behind =>
    let (keyboard, vga) := keyboardIrq (consoleInput vgaConsolePutchar behind) s.keyboard s.vga status data
    { s with keyboard := keyboard, vga := vga }

def Step (s : Printing) (e : Event) (s' : Printing) : Prop := s.Allowed e ∧ s' = s.apply e

def Start (s : Printing) : Prop :=
  s.pc = .idle ∧ s.pending = [] ∧ s.vga.col.toNat < 80 ∧ s.vga.line.toNat < 25 ∧ s.vga.stored = []

/-- No cell beyond the screen was stored, and between calls the cursor is on the screen. -/
def Safe (s : Printing) : Prop :=
  s.vga.OnScreen ∧ (s.pc = .idle → s.vga.col.toNat < 80 ∧ s.vga.line.toNat < 25)

end Printing

/-! ### Statements in a row -/

def statements : Nat → Vga × Pc → Vga × Pc
  | 0, s => s
  | n + 1, s => statements n (statement s.1 s.2)

theorem statements_add (m n : Nat) (s : Vga × Pc) : statements (m + n) s = statements n (statements m s) := by
  induction m generalizing s with
  | zero => rw [Nat.zero_add]; rfl
  | succ m ih =>
    rw [Nat.add_right_comm]
    exact ih _

theorem statements_scrollClear (v : Vga) {i count : Nat} (h : i + count = 80) (some : 0 < count) :
    statements count (v, .scrollClear i) =
      (v.clearCells ((screenHeight - 1#32) * screenWidth + BitVec.ofNat 32 i) count, .scrollBack) := by
  induction count generalizing v i with
  | zero => omega
  | succ count ih =>
    have next : (screenHeight - 1#32) * screenWidth + BitVec.ofNat 32 i + 1#32 =
        (screenHeight - 1#32) * screenWidth + BitVec.ofNat 32 (i + 1) := by
      rw [BitVec.add_assoc]
      congr 1
      exact (BitVec.ofNat_add i 1).symm
    rw [statements, statement, clearCells, next]
    by_cases last : count = 0
    · subst last
      rw [if_neg (by omega)]
      rfl
    · rw [if_pos (by omega)]
      exact ih _ (by omega) (by omega)

theorem statements_switch (v : Vga) (c : Byte) :
    ∃ n, statements n (v, .switch c) = (putcharSwitch v c, .ifWrap) := by
  unfold putcharSwitch
  by_cases newline : c = 0x0a#8
  · refine ⟨2, ?_⟩
    simp only [statements, statement, if_pos newline]
  · by_cases carriage : c = 0x0d#8
    · refine ⟨2, ?_⟩
      simp only [statements, statement, if_neg newline, if_pos carriage]
    · by_cases tab : c = 0x09#8
      · refine ⟨2, ?_⟩
        simp only [statements, statement, if_neg newline, if_neg carriage, if_pos tab]
      · by_cases printable : isprint c.toInt = true
        · refine ⟨4, ?_⟩
          simp only [statements, statement, if_neg newline, if_neg carriage, if_neg tab, if_pos printable]
        · refine ⟨2, ?_⟩
          simp only [statements, statement, if_neg newline, if_neg carriage, if_neg tab, if_neg printable]

theorem statements_wrap (v : Vga) : ∃ n, statements n (v, .ifWrap) = (putcharWrap v, .ifScroll) := by
  unfold putcharWrap
  by_cases full : v.col ≥ screenWidth
  · refine ⟨3, ?_⟩
    simp only [statements, statement, if_pos full]
  · refine ⟨1, ?_⟩
    simp only [statements, statement, if_neg full]

theorem statements_scroll (v : Vga) : ∃ n, statements n (v, .ifScroll) = (putcharScroll v, .idle) := by
  unfold putcharScroll
  by_cases bottom : v.line = screenHeight
  · refine ⟨2 + (80 + 1), ?_⟩
    rw [statements_add, statements_add]
    have copied : statements 2 (v, .ifScroll) =
        (v.memcpy vga (cellAddr screenWidth) ((25 - 1) * 80 * 2), .scrollClear 0) := by
      simp only [statements, statement, if_pos bottom]
    rw [copied, statements_scrollClear _ (by decide) (by decide), BitVec.add_zero, if_pos bottom]
    rfl
  · refine ⟨1, ?_⟩
    simp only [statements, statement, if_neg bottom]

/-- Undisturbed, the statements do what `vga_console_putchar` does. -/
theorem statements_putchar (v : Vga) (c : Byte) :
    ∃ n, statements n (v, .switch c) = (vgaConsolePutchar v c, .idle) := by
  obtain ⟨first, switched⟩ := statements_switch v c
  obtain ⟨second, wrapped⟩ := statements_wrap (putcharSwitch v c)
  obtain ⟨third, scrolled⟩ := statements_scroll (putcharWrap (putcharSwitch v c))
  refine ⟨first + second + third, ?_⟩
  rw [statements_add, statements_add, switched, wrapped, scrolled]
  rfl

end ThreeX86.Console
