import ThreeX86.Hw.Pic
import ThreeX86.Machine.Run
import ThreeX86.Printf.Vprintf
import ThreeX86.X86.Tables

/-!
Interrupts from the line a device raises to the handler in `pic_irq`, and back.
-/

namespace ThreeX86.Hw

open Machine Console X86 Transition

def irqPit : Word := 0#32
def irqKeyboard : Word := 1#32

/-- What the interrupt handlers work on: the controllers, `timer_ticks`, the keyboard's decoder and the console. -/
structure Drivers (σ : Type) where
  pics : Pics
  timerTicks : Word
  keyboard : Keyboard
  console : σ

/-- The format of `pic_irq` for the lines without a driver. -/
def unhandledText : List Byte := "unhandled PIC interrupt\n".toList.map fun c => BitVec.ofNat 8 c.toNat

/-! ### From the vector to `pic_irq` -/

/-- The routine of the table that starts at `target`: they are 16 bytes apart. -/
def veneerAt (isrTable target : Word) : Option (Fin numInt) :=
  let i := (target - isrTable).toNat / 16
  if bound : i < numInt then if (target - isrTable).toNat % 16 = 0 then some ⟨i, bound⟩ else none else none

section

variable (t : Tables) (upper : BitVec 16 → BitVec 16) (handler returnAddress : Word)

/-- The processor takes vector `v` to its gate, the gate to a veneer, and that to `x86_exception_handler`: the number that
    `pic_irq` gets, and the memory it finds. -/
def dispatch (idtr : TablePointer) (c : Processor) (v : Byte) : Option (Word × Memory) :=
  let gate := loadGate c.mem (idtr.entry v.toNat)
  if 8 * v.toNat + 7 ≤ idtr.len.toNat ∧ gate.present ∧ gate.type = 0b01110#5 ∧ gate.selector = codeSelector then do
    let i ← veneerAt t.isrTable gate.target
    let entered := interruptEntry upper gate.target handler returnAddress i 0#32 c
    let number ← x86ExceptionHandler (loadIframe entered.mem entered.ecx)
    return (number, entered.mem)
  else none

/-- The gates are those of `x86_init`. -/
def GatesSet (idtr : TablePointer) (m : Memory) : Prop :=
  ∀ i < numInt, idtr.Covers i ∧ loadGate m (idtr.entry i) = ⟨t.isrTable + BitVec.ofNat 32 (16 * i), codeSelector, 0b01110#5, 0#2, true⟩

end

section

variable {σ : Type} (putchar : σ → Byte → σ) (behind : Nat → Byte)

/-! ### The handlers -/

def pitIrq (d : Drivers σ) : Drivers σ := { d with timerTicks := d.timerTicks + 1#32 }

def currentTime (d : Drivers σ) : Word := d.timerTicks * 10#32

/-- `status` and `data` are what the registers of the keyboard controller read; `m` is the memory, with the format at `fmt`. -/
def picIrq (m : Memory) (fmt ap : Word) (d : Drivers σ) (vector : Word) (status data : Byte) : Option (Drivers σ) :=
  let d := { d with pics := picSendEoi d.pics (vector.setWidth 8) }
  if vector = irqPit then some (pitIrq d)
  else if vector = irqKeyboard then
    let (keyboard, console) := keyboardIrq (consoleInput putchar behind) d.keyboard d.console status data
    some { d with keyboard := keyboard, console := console }
  else do
    let (_, screen) ← Printf.vprintf putchar behind m d.console fmt ap
    return { d with console := screen.console }

end

/-! ### Devices, drivers and interrupts in any order -/

inductive IrqEvent where
  | raise (n : Fin 16)
  | setMask (n : Fin 16) (set : Bool)
  | sendEoi (n : Fin 16)
  | interrupt (c : Processor) (status data : Byte)

/-- What the events run on. -/
structure Machinery (σ : Type) where
  tables : Tables
  idtr : TablePointer
  upper : BitVec 16 → BitVec 16
  handler : Word
  returnAddress : Word
  putchar : σ → Byte → σ
  behind : Nat → Byte
  /-- Where the format of `pic_irq` is, and where its arguments would be. -/
  fmt : Word
  ap : Word

/-- The format is there, and the 18 words that an interrupt of `c` pushes do not reach it. -/
def Machinery.FormatAt {σ : Type} (k : Machinery σ) (c : Processor) : Prop :=
  Memory.BytesAt c.mem k.fmt (unhandledText ++ [0#8]) ∧
    ∀ i ≤ unhandledText.length, 72 ≤ offset (c.esp - 72#32) (k.fmt + BitVec.ofNat 32 i)

namespace Drivers

variable {σ : Type} (k : Machinery σ)

/-- No device is on line 2. The processor is interrupted only when the controllers' output is up, and finds the gates that
    `x86_init` has set and the kernel's text. -/
def Allowed (d : Drivers σ) : IrqEvent → Prop
  | .raise n => n.val ≠ 2
  | .setMask _ _ => True
  | .sendEoi _ => True
  | .interrupt c _ _ => d.pics.wired.request.isSome = true ∧ GatesSet k.tables k.idtr c.mem ∧ k.FormatAt c

def step (d : Drivers σ) : IrqEvent → Option (Drivers σ)
  | .raise n => some { d with pics := d.pics.raise n }
  | .setMask n set => some { d with pics := picSetMask d.pics (BitVec.ofNat 8 n) set }
  | .sendEoi n => some { d with pics := picSendEoi d.pics (BitVec.ofNat 8 n) }
  | .interrupt c status data => do
    let (v, pics) ← d.pics.acknowledge
    let (n, m) ← dispatch k.tables k.upper k.handler k.returnAddress k.idtr c v
    picIrq k.putchar k.behind m k.fmt k.ap { d with pics := pics } n status data

def Step (d : Drivers σ) (e : IrqEvent) (d' : Drivers σ) : Prop := d.Allowed k e ∧ d.step k e = some d'

/-- `pic_init` with nothing in service, and the static variables as they are loaded. -/
def Start (d : Drivers σ) : Prop :=
  ∃ p : Pics, p.master.Idle ∧ p.slave.Idle ∧ d.pics = picInit p ∧ d.timerTicks = 0#32 ∧ d.keyboard = ⟨false, false, 0⟩

end Drivers

/-! ### What the lines do -/

/-- Sixteen lines with their handlers. -/
structure Board (σ : Type) where
  lines : Lines
  ticks : Nat
  keyboard : Keyboard
  console : σ

namespace Board

variable {σ : Type} (k : Machinery σ)

def handle (b : Board σ) (n : Fin 16) (status data : Byte) : Board σ :=
  let b := { b with lines := b.lines.serve n }
  if n.val = 0 then { b with ticks := b.ticks + 1 }
  else if n.val = 1 then
    let (keyboard, console) := keyboardIrq (consoleInput k.putchar k.behind) b.keyboard b.console status data
    { b with keyboard := keyboard, console := console }
  else { b with console := (expand true unhandledText).foldl k.putchar b.console }

/-- An interrupt serves the deliverable line of highest priority. -/
inductive Step : Board σ → IrqEvent → Board σ → Prop
  | raise (b : Board σ) (n : Fin 16) : Step b (.raise n) { b with lines := b.lines.raise n }
  | setMask (b : Board σ) (n : Fin 16) (set : Bool) : Step b (.setMask n set) { b with lines := b.lines.setMask n set }
  | sendEoi (b : Board σ) (n : Fin 16) : Step b (.sendEoi n) b
  | interrupt (b : Board σ) (n : Fin 16) (next : b.lines.Next n) (c : Processor) (status data : Byte) :
      Step b (.interrupt c status data) (b.handle k n status data)

/-- All lines masked and none pending, as `pic_init` leaves them. -/
def start (console : σ) : Board σ := ⟨⟨fun _ => false, fun _ => true⟩, 0, ⟨false, false, 0⟩, console⟩

end Board

/-- The drivers with the two controllers are a board. -/
structure Drivers.Refines {σ : Type} (d : Drivers σ) (b : Board σ) : Prop where
  programmed : Programmed d.pics
  lines : d.pics.lines = b.lines
  ticks : d.timerTicks = BitVec.ofNat 32 b.ticks
  keyboard : d.keyboard = b.keyboard
  console : d.console = b.console

/-- `x86_init` sets the gates that an interrupt needs. -/
theorem gatesSet_x86Init {t : Tables} (placed : t.Placed) (s : System) : GatesSet t (x86Init t s).idtr (x86Init t s).mem := by
  intro i bound
  refine ⟨?_, x86Init_gate placed s bound⟩
  have count : numInt = 48 := rfl
  rw [x86Init_eq, TablePointer.Covers, BitVec.toNat_ofNat]
  omega

section

variable {σ : Type} {k : Machinery σ} {d d' : Drivers σ} {b : Board σ} {c : Processor} {n : Fin 16}

/-! ### One interrupt -/

theorem veneerAt_entry (isrTable : Word) {i : Nat} (bound : i < numInt) :
    veneerAt isrTable (isrTable + BitVec.ofNat 32 (16 * i)) = some ⟨i, bound⟩ := by
  have count : numInt = 48 := rfl
  have distance : (isrTable + BitVec.ofNat 32 (16 * i) - isrTable).toNat = 16 * i := by
    rw [BitVec.add_comm, BitVec.add_sub_cancel, BitVec.toNat_ofNat]
    omega
  have index : 16 * i / 16 = i := Nat.mul_div_cancel_left i (by decide)
  have aligned : 16 * i % 16 = 0 := Nat.mul_mod_right 16 i
  simp only [veneerAt, distance, index, aligned, bound, dite_true, ite_true]

/-- With the gates set, line `n` gets to `pic_irq` as `n`, and the format is still there. -/
theorem dispatch_line (gates : GatesSet k.tables k.idtr c.mem) (format : k.FormatAt c) (n : Fin 16) :
    ∃ m, dispatch k.tables k.upper k.handler k.returnAddress k.idtr c (0x20#8 + BitVec.ofNat 8 n) = some (BitVec.ofNat 32 n, m) ∧
      Memory.BytesAt m k.fmt (unhandledText ++ [0#8]) := by
  have value : (0x20#8 + BitVec.ofNat 8 n : Byte).toNat = 0x20 + n := by
    rw [BitVec.toNat_add, BitVec.toNat_ofNat, BitVec.toNat_ofNat]
    omega
  have count : numInt = 48 := rfl
  have bound : 0x20 + n.val < numInt := by omega
  obtain ⟨covers, gate⟩ := gates (0x20 + n) bound
  obtain ⟨there, off⟩ := format
  let entered := interruptEntry k.upper (k.tables.isrTable + BitVec.ofNat 32 (16 * (0x20 + n))) k.handler k.returnAddress
    ⟨0x20 + n, bound⟩ 0#32 c
  have number : x86ExceptionHandler (loadIframe entered.mem entered.ecx) = _ := x86ExceptionHandler_interruptEntry _ _ _ _ _ _ _
  have pushes : Processor.Pushes 18 c entered := interruptEntry_pushes _ _ _ _ _ _ _
  rw [if_pos (Nat.le_add_right _ _), Nat.add_sub_cancel_left] at number
  rw [TablePointer.Covers] at covers
  refine ⟨entered.mem, ?_, Memory.bytesAt_of_get fun i inside => ?_⟩
  · simp only [dispatch, value, gate, covers, and_self, ite_true, veneerAt_entry _ bound, Option.bind_eq_bind, Option.bind_some]
    show (x86ExceptionHandler (loadIframe entered.mem entered.ecx)).bind _ = _
    rw [number]
    rfl
  · rw [List.length_append, List.length_singleton] at inside
    exact (pushes.mem _ (off i (Nat.le_of_lt_succ inside))).trans (there.get _)

/-- `printf` puts the text out whole. -/
theorem unhandled_shown (putchar : σ → Byte → σ) (behind : Nat → Byte) {m : Memory} {fmt : Word} (ap : Word) (console : σ)
    (format : Memory.BytesAt m fmt (unhandledText ++ [0#8])) :
    ∃ value screen, Printf.vprintf putchar behind m console fmt ap = some (value, screen) ∧
      screen.console = (expand true unhandledText).foldl putchar console := by
  have plain : ∀ b ∈ unhandledText, b ≠ 0#8 ∧ b ≠ Printf.char '%' := by decide
  have free : 0#8 ∉ unhandledText := fun member => (plain _ member).1 rfl
  have full : Printf.printed m fmt ap = some unhandledText := Printf.printed_plain format plain (by decide)
  obtain ⟨screen, shown, -, console'⟩ := Printf.vprintf_spec putchar behind console full (by decide) free
  exact ⟨_, screen, shown, console'⟩

theorem irq_eq_iff (n : Fin 16) {i : Nat} (bound : i < 16) : BitVec.ofNat 32 n = BitVec.ofNat 32 i ↔ n.val = i := by
  rw [BitVec.toNat_inj.symm, BitVec.toNat_ofNat, BitVec.toNat_ofNat]
  omega

theorem picIrq_refines (refines : d.Refines b) {v : Byte} {p' : Pics} (acknowledged : Acknowledged d.pics v p' n) {m : Memory}
    (format : Memory.BytesAt m k.fmt (unhandledText ++ [0#8])) (status data : Byte) :
    ∃ d', picIrq k.putchar k.behind m k.fmt k.ap { d with pics := p' } (BitVec.ofNat 32 n) status data = some d' ∧
      d'.Refines (b.handle k n status data) := by
  obtain ⟨-, lines, ticks, keyboard, console⟩ := refines
  obtain ⟨-, -, programmed, served⟩ := acknowledged
  rw [lines] at served
  have number : (BitVec.ofNat 32 n).setWidth 8 = BitVec.ofNat 8 n := BitVec.setWidth_ofNat_of_le (by decide) _
  have timer : BitVec.ofNat 32 n = irqPit ↔ n.val = 0 := irq_eq_iff n (by decide)
  have keys : BitVec.ofNat 32 n = irqKeyboard ↔ n.val = 1 := irq_eq_iff n (by decide)
  unfold picIrq Board.handle
  simp only [number, timer, keys, keyboard, console]
  split
  case isTrue => exact ⟨_, rfl, programmed, served, by rw [pitIrq, ticks, BitVec.ofNat_add], rfl, rfl⟩
  case isFalse =>
    split
    case isTrue => exact ⟨_, rfl, programmed, served, ticks, rfl, rfl⟩
    case isFalse =>
      obtain ⟨value, screen, shown, text⟩ := unhandled_shown k.putchar k.behind k.ap b.console format
      rw [shown]
      exact ⟨_, rfl, programmed, served, ticks, rfl, text⟩

/-- An interrupt finds its way to the handler of the first deliverable line, and leaves the other lines as they were. -/
theorem interrupt_refines (refines : d.Refines b) (up : d.pics.wired.request.isSome = true)
    (gates : GatesSet k.tables k.idtr c.mem) (format : k.FormatAt c) (status data : Byte) :
    ∃ d' n, d.step k (.interrupt c status data) = some d' ∧ b.lines.Next n ∧ d'.Refines (b.handle k n status data) := by
  rcases acknowledge_spec refines.programmed with ⟨none, -⟩ | ⟨v, p', n, acknowledge, acknowledged⟩
  · rw [none] at up
    cases up
  · obtain ⟨m, number, there⟩ := dispatch_line gates format n
    rw [← acknowledged.vector] at number
    obtain ⟨d', handled, after⟩ := picIrq_refines refines acknowledged there status data
    refine ⟨d', n, ?_, ?_, after⟩
    · simp only [Drivers.step, acknowledge, number, Option.bind_eq_bind, Option.bind_some]
      exact handled
    · have next := acknowledged.next
      rwa [refines.lines] at next

/-- Each event is one of the board's, and an allowed event always goes through. -/
theorem step_refines (refines : d.Refines b) {e : IrqEvent} (allowed : d.Allowed k e) :
    ∃ d' b', d.step k e = some d' ∧ Board.Step k b e b' ∧ d'.Refines b' := by
  cases e with
  | raise n =>
    obtain ⟨programmed, lines⟩ := raise_spec refines.programmed (Fin.ne_of_val_ne allowed)
    rw [refines.lines] at lines
    exact ⟨_, _, rfl, .raise b n, programmed, lines, refines.ticks, refines.keyboard, refines.console⟩
  | setMask n set =>
    obtain ⟨programmed, lines⟩ := picSetMask_spec refines.programmed n set
    rw [refines.lines] at lines
    exact ⟨_, _, rfl, .setMask b n set, programmed, lines, refines.ticks, refines.keyboard, refines.console⟩
  | sendEoi n =>
    refine ⟨_, _, rfl, .sendEoi b n, ?_⟩
    rw [picSendEoi_idle refines.programmed]
    exact refines
  | interrupt c status data =>
    obtain ⟨up, gates, format⟩ := allowed
    obtain ⟨d', n, ran, next, after⟩ := interrupt_refines refines up gates format status data
    exact ⟨d', _, ran, .interrupt b n next c status data, after⟩

theorem start_refines (start : d.Start) : d.Refines (Board.start d.console) := by
  obtain ⟨p, idle, idle', pics, ticks, keyboard⟩ := start
  obtain ⟨programmed, initial⟩ := picInit_programmed ⟨idle, idle'⟩
  rw [← pics] at programmed initial
  refine ⟨programmed, ?_, ticks, keyboard, rfl⟩
  ext n
  · exact (initial n).1
  · exact (initial n).2

/-- In any order of devices raising lines, drivers setting masks and interrupts, the kernel with its two controllers is sixteen
    lines with a handler each: an interrupt is for the deliverable line of highest priority, that line's handler runs, the line is no
    longer pending, no other line is blocked or lost, and `current_time` is ten times the timer interrupts. -/
theorem irqs_refine (start : d.Start) {events : List IrqEvent} (run : Run (Drivers.Step k) d events d') :
    (∃ b, Run (Board.Step k) (Board.start d.console) events b ∧ d'.Refines b ∧ currentTime d' = BitVec.ofNat 32 (10 * b.ticks) ∧
      (d'.pics.wired.request.isSome = true ↔ ∃ n, b.lines.Deliverable n)) ∧
    ∀ e, d'.Allowed k e → ∃ d'', d'.step k e = some d'' := by
  have one (d : Drivers σ) (b : Board σ) (e : IrqEvent) (d' : Drivers σ) (refines : d.Refines b) (next : Drivers.Step k d e d') :
      ∃ b', Board.Step k b e b' ∧ d'.Refines b' := by
    obtain ⟨allowed, ran⟩ := next
    obtain ⟨d'', b', step, spec, after⟩ := step_refines refines allowed
    rw [step] at ran
    cases ran
    exact ⟨b', spec, after⟩
  obtain ⟨b, spec, refines⟩ := run.simulate Drivers.Refines one (start_refines start)
  refine ⟨⟨b, spec, refines, ?_, ?_⟩, fun e allowed => ?_⟩
  · rw [currentTime, refines.ticks, Nat.mul_comm, BitVec.ofNat_mul]
  · rw [← refines.lines]
    exact output_iff refines.programmed
  · obtain ⟨d'', -, step, -⟩ := step_refines refines allowed
    exact ⟨d'', step⟩

/-- A machine that has been through `x86_init` with the kernel's text at `0x7000`, and writes its console to a list. -/
def exampleMachinery : Machinery (List Byte) where
  tables := exampleTables
  idtr := (x86Init exampleTables exampleSystem).idtr
  upper _ := 0#16
  handler := 0x5000#32
  returnAddress := 0x3400#32
  putchar log c := log ++ [c]
  behind _ := 0#8
  fmt := 0x7000#32
  ap := 0#32

def textSystem : System :=
  { exampleSystem with mem := fun x => if 0x7000 ≤ x.toNat then unhandledText.getD (x.toNat - 0x7000) 0#8 else exampleSystem.mem x }

def atText : Processor := { interrupted with mem := (x86Init exampleTables textSystem).mem }

theorem atText_format : exampleMachinery.FormatAt atText := by
  have there : Memory.BytesAt textSystem.mem 0x7000#32 (unhandledText ++ [0#8]) := by
    apply Memory.bytesAt_of_get
    decide
  refine ⟨there.changed (x86Init_changes exampleTables_placed textSystem) ?_, by decide⟩
  unfold Tables.Foot
  decide

def resetController : I8259 := ⟨fun _ => false, fun _ => false, 0#8, 0#8, 0#8, 0#8, 0#8, .operational⟩

def exampleDrivers : Drivers (List Byte) := ⟨picInit ⟨resetController, resetController⟩, 0#32, ⟨false, false, 0⟩, []⟩

/-- The timer's line, unmasked and raised, and its interrupt. -/
theorem irqs_refine_timer : ∃ d b, Run (Drivers.Step exampleMachinery) exampleDrivers
      [.setMask 0 false, .raise 0, .interrupt atText 0#8 0#8] d ∧
    currentTime d = BitVec.ofNat 32 (10 * b.ticks) ∧ Drivers.Refines d b := by
  let first := { exampleDrivers with pics := picSetMask exampleDrivers.pics 0#8 false }
  let second := { first with pics := first.pics.raise 0 }
  have start : exampleDrivers.Start := ⟨⟨resetController, resetController⟩, fun _ => rfl, fun _ => rfl, rfl, rfl, rfl⟩
  have unmasked : Drivers.Step exampleMachinery exampleDrivers (.setMask 0 false) first := ⟨trivial, rfl⟩
  have pending : Drivers.Step exampleMachinery first (.raise 0) second := ⟨show (0 : Fin 16).val ≠ 2 by decide, rfl⟩
  have raised := ((Run.nil exampleDrivers).snoc unmasked).snoc pending
  have gates : GatesSet exampleMachinery.tables exampleMachinery.idtr atText.mem :=
    gatesSet_x86Init exampleTables_placed textSystem
  have allowed : second.Allowed exampleMachinery (.interrupt atText 0#8 0#8) := ⟨by decide, gates, atText_format⟩
  obtain ⟨d, ran⟩ := (irqs_refine start raised).2 _ allowed
  have run := raised.snoc ⟨allowed, ran⟩
  obtain ⟨⟨b, -, refines, time, -⟩, -⟩ := irqs_refine start run
  exact ⟨d, b, run, time, refines⟩

end

end ThreeX86.Hw
