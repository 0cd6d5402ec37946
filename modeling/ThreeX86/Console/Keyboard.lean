import ThreeX86.Console.Vga

/-!
Input and output of the console: `console.c`, and the scancode decoder of `hw/keyboard.c`.
-/

namespace ThreeX86.Console

open Machine

/-! ### `console.c` -/

structure Written (σ : Type) where
  count : Nat
  /-- The indices of `str` that were read, in order. -/
  reads : List Nat
  console : σ

section

variable {σ : Type} (putchar : σ → Byte → σ) (crlf : Bool) (str : Nat → Byte)

/-- The loop of `console_write` from index `i`, with `len - i` given last. The byte is read for the
    loop condition before `i < len` is tested, and once more in the body. -/
def consoleWriteLoop (console : σ) (reads : List Nat) (i : Nat) : Nat → Written σ
  | 0 => ⟨i, reads ++ [i], console⟩
  | left + 1 =>
    let reads := reads ++ [i]
    if str i = 0#8 then ⟨i, reads, console⟩
    else
      let reads := reads ++ [i]
      let c := str i
      let console := if crlf ∧ c = 0x0a#8 then putchar console 0x0d#8 else console
      let console := putchar console c
      consoleWriteLoop console reads (i + 1) left

/-- `console_write`; the `size_t` count is returned as an `int`. -/
def consoleWrite (console : σ) (len : Word) : Int × Written σ :=
  let written := consoleWriteLoop putchar crlf str console [] 0 len.toNat
  ((BitVec.ofNat 32 written.count).toInt, written)

end

/-- `console_input`: a buffer of one character; `behind` is what lies after it in memory. -/
def consoleInput {σ : Type} (putchar : σ → Byte → σ) (behind : Nat → Byte) (console : σ) (c : Byte) : σ :=
  (consoleWrite putchar true (fun i => if i = 0 then c else behind i) console 1#32).2.console

/-! ### `hw/keyboard.c` -/

def scancodeLshift : Byte := 0x2a#8
def scancodeRshift : Byte := 0x36#8
def i8042StrObf : Byte := 0x01#8

def key (c : Char) : Int := c.toNat

def keyCodeSingleLower : List Int :=
  [-1, -1, key '1', key '2', key '3', key '4', key '5', key '6',
    key '7', key '8', key '9', key '0', key '-', key '=', 8, 9,
    key 'q', key 'w', key 'e', key 'r', key 't', key 'y', key 'u', key 'i',
    key 'o', key 'p', key '[', key ']', 10, -1, key 'a', key 's',
    key 'd', key 'f', key 'g', key 'h', key 'j', key 'k', key 'l', key ';',
    39, 96, -1, 92, key 'z', key 'x', key 'c', key 'v',
    key 'b', key 'n', key 'm', key ',', key '.', key '/', -1, key '*',
    -1, key ' ', -1, -1, -1, -1, -1, -1] ++ List.replicate 64 (-1)

def keyCodeMultiLower : List Int := List.replicate 128 (-1)

def keyCodeSingleUpper : List Int :=
  [-1, -1, key '!', key '@', key '#', key '$', key '%', key '^',
    key '&', key '*', key '(', key ')', key '_', key '+', 8, 9,
    key 'Q', key 'W', key 'E', key 'R', key 'T', key 'Y', key 'U', key 'I',
    key 'O', key 'P', key '{', key '}', 10, -1, key 'A', key 'S',
    key 'D', key 'F', key 'G', key 'H', key 'J', key 'K', key 'L', key ':',
    34, key '~', -1, key '|', key 'Z', key 'X', key 'C', key 'V',
    key 'B', key 'N', key 'M', key '<', key '>', key '?', -1, key '*',
    -1, key ' ', -1, -1, -1, -1, -1, -1] ++ List.replicate 64 (-1)

def keyCodeMultiUpper : List Int := List.replicate 128 (-1)

/-- The static variables of `process_scode`. -/
structure Keyboard where
  keyLshift : Bool
  keyRshift : Bool
  lastCode : Int

namespace Keyboard

def shiftKeys (k : Keyboard) (scode keyUpBit : Byte) : Keyboard :=
  let k := if scode = scancodeLshift then { k with keyLshift := keyUpBit = 0#8 } else k
  if scode = scancodeRshift then { k with keyRshift := keyUpBit = 0#8 } else k

/-- The table that is read. -/
def keyTable (k : Keyboard) (multi : Bool) : List Int :=
  if k.keyLshift || k.keyRshift then
    if multi then keyCodeMultiUpper else keyCodeSingleUpper
  else
    if multi then keyCodeMultiLower else keyCodeSingleLower

def keyCode (k : Keyboard) (multi : Bool) (index : Nat) : Int := (k.keyTable multi).getD index (-1)

end Keyboard

/-- What a call of `process_scode` leaves. -/
structure Decoded (σ : Type) where
  keyboard : Keyboard
  /-- The index at which the table was read. -/
  index : Nat
  console : σ

section

variable {σ : Type} (input : σ → Byte → σ)

def processScode (k : Keyboard) (console : σ) (scode : Byte) : Decoded σ :=
  let multi : Bool := k.lastCode = 0xe0
  let keyUpBit := scode &&& 0x80#8
  let scode := scode &&& 0x7f#8
  let k := k.shiftKeys scode keyUpBit
  let index := scode.toNat
  let keyCode := k.keyCode multi index
  let console := if keyCode ≠ -1 ∧ keyUpBit = 0#8 then input console (BitVec.ofInt 8 keyCode) else console
  ⟨{ k with lastCode := scode.toNat }, index, console⟩

/-- `keyboard_irq`: the status register, then the data register if the output buffer is full. -/
def keyboardIrq (k : Keyboard) (console : σ) (status data : Byte) : Keyboard × σ :=
  if status &&& i8042StrObf ≠ 0#8 then
    let decoded := processScode input k console data
    (decoded.keyboard, decoded.console)
  else (k, console)

end

/-- The character that a scancode makes, if any. -/
def Keyboard.char (k : Keyboard) (scode : Byte) : Option Byte :=
  let key := (k.shiftKeys (scode &&& 0x7f#8) (scode &&& 0x80#8)).keyCode (k.lastCode = 0xe0) (scode &&& 0x7f#8).toNat
  if key ≠ -1 ∧ scode &&& 0x80#8 = 0#8 then some (BitVec.ofInt 8 key) else none

/-- A scancode has its character passed to `console_input`, at most one. -/
theorem processScode_console {σ : Type} (input : σ → Byte → σ) (k : Keyboard) (console : σ) (scode : Byte) :
    (processScode input k console scode).console = (k.char scode).elim console (input console) := by
  unfold processScode Keyboard.char
  simp only
  split
  · rfl
  · rfl

theorem keyboardIrq_full {σ : Type} (input : σ → Byte → σ) (k : Keyboard) (console : σ) (data : Byte) {status : Byte}
    (full : status &&& i8042StrObf ≠ 0#8) :
    (keyboardIrq input k console status data).2 = (k.char data).elim console (input console) := by
  unfold keyboardIrq
  rw [if_pos full]
  exact processScode_console input k console data

/-- A carriage return goes before a newline; a NUL is not printed. -/
theorem consoleInput_eq {σ : Type} (putchar : σ → Byte → σ) (behind : Nat → Byte) (console : σ) (c : Byte) :
    consoleInput putchar behind console c =
      if c = 0#8 then console
      else if c = 0x0a#8 then putchar (putchar console 0x0d#8) c
      else putchar console c := by
  unfold consoleInput consoleWrite
  rw [show (1#32).toNat = 1 from rfl]
  simp only [consoleWriteLoop, ite_true, true_and]
  split
  · rfl
  · split
    · rfl
    · rfl

end ThreeX86.Console
