import ThreeX86.Machine.Processor

/-!
Interrupts of the kernel: the veneers and the common entry and exit in `exceptions.S`.
-/

namespace ThreeX86.X86

open Machine Processor

def codeSelector : BitVec 16 := 0x8#16
def dataSelector : Word := 0x10#32
def numInt : Nat := 0x30

/-- `struct x86_iframe`, less the stack of the interrupted code: that is pushed only where the privilege level changes. -/
structure Iframe where
  di : Word
  si : Word
  bp : Word
  sp : Word
  bx : Word
  dx : Word
  cx : Word
  ax : Word
  ds : Word
  es : Word
  fs : Word
  gs : Word
  vector : Word
  errCode : Word
  ip : Word
  cs : Word
  flags : Word

/-- The fields lie one after the other, with no padding. -/
def loadIframe (m : Memory) (iframe : Word) : Iframe where
  di := m.load32 iframe
  si := m.load32 (iframe + 4#32)
  bp := m.load32 (iframe + 8#32)
  sp := m.load32 (iframe + 12#32)
  bx := m.load32 (iframe + 16#32)
  dx := m.load32 (iframe + 20#32)
  cx := m.load32 (iframe + 24#32)
  ax := m.load32 (iframe + 28#32)
  ds := m.load32 (iframe + 32#32)
  es := m.load32 (iframe + 36#32)
  fs := m.load32 (iframe + 40#32)
  gs := m.load32 (iframe + 44#32)
  vector := m.load32 (iframe + 48#32)
  errCode := m.load32 (iframe + 52#32)
  ip := m.load32 (iframe + 56#32)
  cs := m.load32 (iframe + 60#32)
  flags := m.load32 (iframe + 64#32)

def sizeofIframe : Nat := 68

/-- The routine of the table for interrupt `i`, up to its jump to `x86_interrupt_common`. -/
def isrTable (i : Fin numInt) (c : Processor) : Processor :=
  let c := if i.val = 8 ∨ (10 ≤ i.val ∧ i.val ≤ 14) ∨ i.val = 17 then c else c.push 0#32
  c.push (BitVec.ofNat 32 i)

section

variable (upper : BitVec 16 → BitVec 16)

/-- `x86_interrupt_common` up to the first instruction of the C function. -/
def x86InterruptCommon (handler returnAddress : Word) (c : Processor) : Processor :=
  let c := c.pushSegment upper c.gs
  let c := c.pushSegment upper c.fs
  let c := c.pushSegment upper c.es
  let c := c.pushSegment upper c.ds
  let c := c.pusha
  let c := { c with eax := dataSelector }
  let c := { c with gs := lo16 c.eax, fs := lo16 c.eax, es := lo16 c.eax, ds := lo16 c.eax }
  let c := { c with ecx := c.esp }
  c.call handler returnAddress

/-- `x86_interrupt_common` behind the call. -/
def x86InterruptReturn (c : Processor) : Processor :=
  let c := c.popa
  let (ds, c) := c.pop
  let (es, c) := c.pop
  let (fs, c) := c.pop
  let (gs, c) := c.pop
  let c := { c with ds := lo16 ds, es := lo16 es, fs := lo16 fs, gs := lo16 gs }
  (c.addEsp 8#32).iret

/-- From the interrupted instruction to the first one of `x86_exception_handler`. -/
def interruptEntry (target handler returnAddress : Word) (i : Fin numInt) (errorCode : Word) (c : Processor) : Processor :=
  x86InterruptCommon upper handler returnAddress (isrTable i (interrupt upper codeSelector target i errorCode c))

end

/-- The number that `pic_irq` gets, or none if the kernel stops in `exception_die`. -/
def x86ExceptionHandler (iframe : Iframe) : Option Word :=
  if 0x20#32 ≤ iframe.vector ∧ iframe.vector ≤ 0x2f#32 then some (iframe.vector - 0x20#32) else none

/-- The frame holds what was interrupted; `pusha` fills `sp`. -/
structure Iframe.Of (frame : Iframe) (r : Registers) (vector : Nat) (errorCode : Word) : Prop where
  di : frame.di = r.edi
  si : frame.si = r.esi
  bp : frame.bp = r.ebp
  bx : frame.bx = r.ebx
  dx : frame.dx = r.edx
  cx : frame.cx = r.ecx
  ax : frame.ax = r.eax
  ds : lo16 frame.ds = r.ds
  es : lo16 frame.es = r.es
  fs : lo16 frame.fs = r.fs
  gs : lo16 frame.gs = r.gs
  number : frame.vector = BitVec.ofNat 32 vector
  errCode : frame.errCode = if pushesErrorCode vector then errorCode else 0#32
  ip : frame.ip = r.eip
  cs : lo16 frame.cs = r.cs
  flags : frame.flags = r.eflags

/-- The words of the frame, as they lie on the stack. -/
def Iframe.words (frame : Iframe) : List Word :=
  [frame.di, frame.si, frame.bp, frame.sp, frame.bx, frame.dx, frame.cx, frame.ax, frame.ds, frame.es, frame.fs, frame.gs,
    frame.vector, frame.errCode, frame.ip, frame.cs, frame.flags]

theorem loadIframe_of_stacked {m : Memory} {sp : Word} {frame : Iframe} (stacked : Stacked m sp frame.words) :
    loadIframe m sp = frame := by
  simp only [Iframe.words, Stacked, BitVec.add_assoc, BitVec.reduceAdd] at stacked
  simp only [loadIframe, stacked]

/-- The two stack shapes are one: what the processor does not push, the veneer does. -/
theorem isrTable_interrupt (upper : BitVec 16 → BitVec 16) (target : Word) (i : Fin numInt) (errorCode : Word) (c : Processor) :
    let entered := isrTable i (interrupt upper codeSelector target i errorCode c)
    (∃ cs, lo16 cs = c.cs ∧
      entered.Holds [BitVec.ofNat 32 i, if pushesErrorCode i then errorCode else 0#32, c.eip, cs, c.eflags]) ∧
    entered.toRegisters = { c.toRegisters with
      esp := c.esp - 20#32, eip := target, cs := codeSelector, eflags := c.eflags &&& ~~~ 0x34300#32 } := by
  have same : pushesErrorCode i = decide (i.val = 8 ∨ (10 ≤ i.val ∧ i.val ≤ 14) ∨ i.val = 17) := by
    revert i
    decide
  have start : c.Holds [] := trivial
  have flags := start.push (by simp) c.eflags
  have cs := flags.push (by simp) ((c.push c.eflags).segmentWord upper c.cs)
  have ip := cs.push (by simp) c.eip
  have segment := lo16_segmentWord upper (c.push c.eflags) c.cs
  unfold isrTable interrupt
  rw [same]
  dsimp only
  by_cases pushes : i.val = 8 ∨ (10 ≤ i.val ∧ i.val ≤ 14) ∨ i.val = 17
  · have code := ip.push (by simp) errorCode
    rw [decide_eq_true pushes, if_pos rfl, if_pos rfl, if_pos pushes]
    constructor
    · exact ⟨_, segment, (code.gate _ _ _).push (by simp) (BitVec.ofNat 32 i)⟩
    · simp only [toRegisters_push, toRegisters_pushSegment, BitVec.sub_sub]
      rfl
  · rw [decide_eq_false pushes, if_neg Bool.false_ne_true, if_neg Bool.false_ne_true, if_neg pushes]
    constructor
    · exact ⟨_, segment, ((ip.gate _ _ _).push (by simp) 0#32).push (by simp) (BitVec.ofNat 32 i)⟩
    · simp only [toRegisters_push, toRegisters_pushSegment, BitVec.sub_sub]
      rfl

/-- The common entry puts a frame behind the return address, and its address into `ecx`. -/
theorem x86InterruptCommon_frame (upper : BitVec 16 → BitVec 16) (handler returnAddress : Word) {c : Processor}
    {vector errCode ip cs flags : Word} (holds : c.Holds [vector, errCode, ip, cs, flags]) :
    let entered := x86InterruptCommon upper handler returnAddress c
    ∃ ds es fs gs : Word, lo16 ds = c.ds ∧ lo16 es = c.es ∧ lo16 fs = c.fs ∧ lo16 gs = c.gs ∧
      Stacked entered.mem entered.ecx (Iframe.words ⟨c.edi, c.esi, c.ebp, c.esp - 16#32, c.ebx, c.edx, c.ecx, c.eax,
        ds, es, fs, gs, vector, errCode, ip, cs, flags⟩) ∧
      entered.ecx = c.esp - 48#32 ∧ entered.esp = entered.ecx - 4#32 ∧ entered.ss = c.ss := by
  obtain ⟨gs, isGs, pushed⟩ := holds.pushSegment (by simp) upper c.gs
  obtain ⟨fs, isFs, pushed⟩ := pushed.pushSegment (by simp) upper c.fs
  obtain ⟨es, isEs, pushed⟩ := pushed.pushSegment (by simp) upper c.es
  obtain ⟨ds, isDs, pushed⟩ := pushed.pushSegment (by simp) upper c.ds
  have all := pushed.pusha (by simp)
  simp only [toRegisters_pushSegment, BitVec.sub_sub] at all
  have frame := all.call (by simp) handler returnAddress
  refine ⟨ds, es, fs, gs, isDs, isEs, isFs, isGs, frame, ?_⟩
  unfold x86InterruptCommon Processor.call
  simp only [toRegisters_push, toRegisters_pusha, toRegisters_pushSegment, BitVec.sub_sub, BitVec.reduceAdd, and_self]

theorem x86InterruptReturn_registers {c : Processor} {frame : Iframe} (holds : c.Holds frame.words) :
    (x86InterruptReturn c).toRegisters =
      { eax := frame.ax, ecx := frame.cx, edx := frame.dx, ebx := frame.bx, esp := c.esp + 68#32, ebp := frame.bp,
        esi := frame.si, edi := frame.di, eip := frame.ip, eflags := frame.flags, cs := lo16 frame.cs, ds := lo16 frame.ds,
        es := lo16 frame.es, fs := lo16 frame.fs, gs := lo16 frame.gs, ss := c.ss } := by
  obtain ⟨popped, rest⟩ := Holds.popa holds
  simp only [Stacked, BitVec.add_assoc, BitVec.reduceAdd] at rest
  unfold x86InterruptReturn addEsp iret pop
  rw [popped]
  simp only [BitVec.add_assoc, BitVec.reduceAdd, rest]

theorem interruptEntry_frame (upper : BitVec 16 → BitVec 16) (target handler returnAddress : Word) (i : Fin numInt)
    (errorCode : Word) (c : Processor) :
    let entered := interruptEntry upper target handler returnAddress i errorCode c
    ∃ frame : Iframe, frame.Of c.toRegisters i errorCode ∧ Stacked entered.mem entered.ecx frame.words ∧
      entered.ecx + 68#32 = c.esp ∧ entered.esp + 4#32 = entered.ecx ∧ entered.ss = c.ss := by
  obtain ⟨⟨cs, isCs, pushed⟩, registers⟩ := isrTable_interrupt upper target i errorCode c
  unfold interruptEntry
  generalize isrTable i (interrupt upper codeSelector target i errorCode c) = dispatched at pushed registers
  obtain ⟨ds, es, fs, gs, isDs, isEs, isFs, isGs, stacked, ecx, esp, ss⟩ :=
    x86InterruptCommon_frame upper handler returnAddress pushed
  simp only [registers] at isDs isEs isFs isGs stacked ecx ss
  refine ⟨_, ?_, stacked, ?_, ?_, ss⟩
  · exact ⟨rfl, rfl, rfl, rfl, rfl, rfl, rfl, isDs, isEs, isFs, isGs, rfl, rfl, rfl, isCs, rfl⟩
  · rw [ecx, BitVec.sub_sub]
    exact BitVec.sub_add_cancel _ _
  · rw [esp, BitVec.sub_add_cancel]

/-- The entry pushes 18 words: the frame and the return address. -/
theorem interruptEntry_pushes (upper : BitVec 16 → BitVec 16) (target handler returnAddress : Word) (i : Fin numInt)
    (errorCode : Word) (c : Processor) : Pushes 18 c (interruptEntry upper target handler returnAddress i errorCode c) := by
  have same : pushesErrorCode i = decide (i.val = 8 ∨ (10 ≤ i.val ∧ i.val ≤ 14) ∨ i.val = 17) := by
    revert i
    decide
  have gate := (((Pushes.refl c).push (by decide) c.eflags).pushSegment (by decide) upper c.cs).push (by decide) c.eip
  have five : Pushes 5 c (isrTable i (interrupt upper codeSelector target i errorCode c)) := by
    unfold isrTable interrupt
    rw [same]
    dsimp only
    by_cases pushes : i.val = 8 ∨ (10 ≤ i.val ∧ i.val ≤ 14) ∨ i.val = 17
    · rw [decide_eq_true pushes, if_pos rfl, if_pos pushes]
      have code := gate.push (by decide) errorCode
      refine Pushes.push ?_ (by decide) _
      exact code.registers rfl rfl
    · rw [decide_eq_false pushes, if_neg Bool.false_ne_true, if_neg pushes]
      refine Pushes.push (Pushes.push ?_ (by decide) _) (by decide) _
      exact gate.registers rfl rfl
  unfold interruptEntry
  generalize isrTable i (interrupt upper codeSelector target i errorCode c) = dispatched at five
  let gs := dispatched.pushSegment upper dispatched.gs
  let fs := gs.pushSegment upper gs.fs
  let es := fs.pushSegment upper fs.es
  let ds := es.pushSegment upper es.ds
  have segments : Pushes 9 c ds :=
    (((five.pushSegment (by decide) upper _).pushSegment (by decide) upper _).pushSegment (by decide) upper _).pushSegment
      (by decide) upper _
  have all : Pushes 17 c ds.pusha := segments.pusha (by decide)
  unfold x86InterruptCommon
  refine Pushes.call ?_ (by decide) handler returnAddress
  exact all.registers rfl rfl

theorem x86ExceptionHandler_interruptEntry (upper : BitVec 16 → BitVec 16) (target handler returnAddress : Word) (i : Fin numInt)
    (errorCode : Word) (c : Processor) :
    let entered := interruptEntry upper target handler returnAddress i errorCode c
    x86ExceptionHandler (loadIframe entered.mem entered.ecx) =
      if 0x20 ≤ i.val then some (BitVec.ofNat 32 (i - 0x20)) else none := by
  obtain ⟨frame, of, stacked, -⟩ := interruptEntry_frame upper target handler returnAddress i errorCode c
  intro entered
  rw [loadIframe_of_stacked stacked]
  unfold x86ExceptionHandler
  rw [of.number]
  clear of stacked entered
  revert i
  decide

/-- An interrupt: the handler gets a frame of the interrupted registers, and if it leaves that as it is, the
    interrupted code goes on with all its registers. -/
theorem interrupt_transparent (upper : BitVec 16 → BitVec 16) (target handler returnAddress : Word) (i : Fin numInt)
    (errorCode : Word) (c : Processor) :
    let entered := interruptEntry upper target handler returnAddress i errorCode c
    (loadIframe entered.mem entered.ecx).Of c.toRegisters i errorCode ∧
    ∀ returned, entered.Returns returned →
      (∀ k < sizeofIframe, returned.mem (entered.ecx + BitVec.ofNat 32 k) = entered.mem (entered.ecx + BitVec.ofNat 32 k)) →
      (x86InterruptReturn returned).toRegisters = c.toRegisters := by
  obtain ⟨frame, of, stacked, ecx, esp, ss⟩ := interruptEntry_frame upper target handler returnAddress i errorCode c
  intro entered
  rw [loadIframe_of_stacked stacked]
  refine ⟨of, ?_⟩
  intro returned returns kept
  have top : returned.esp = entered.ecx := by rw [returns.esp, esp]
  have holds : returned.Holds frame.words := by
    unfold Processor.Holds
    rw [top]
    exact stacked.congr kept
  rw [x86InterruptReturn_registers holds, top, ecx, returns.ss, ss, of.di, of.si, of.bp, of.bx, of.dx, of.cx, of.ax,
    of.ds, of.es, of.fs, of.gs, of.ip, of.cs, of.flags]

/-- Kernel code with little stack left: the frame goes round to the end of memory. -/
def interrupted : Processor where
  eax := 1#32
  ecx := 2#32
  edx := 3#32
  ebx := 4#32
  esp := 40#32
  ebp := 5#32
  esi := 6#32
  edi := 7#32
  eip := 0x1000#32
  eflags := 0x202#32
  cs := 8#16
  ds := 0x10#16
  es := 0x10#16
  fs := 0x10#16
  gs := 0x10#16
  ss := 0x10#16
  mem _ := 0#8

theorem interrupt_transparent_timer :
    let entered := interruptEntry (fun _ => 0#16) 0x2000#32 0x3000#32 0x2400#32 ⟨0x20, by decide⟩ 0#32 interrupted
    (x86InterruptReturn { entered with eip := entered.mem.load32 entered.esp, esp := entered.esp + 4#32, eax := 0#32 }).toRegisters =
      interrupted.toRegisters := by
  intro entered
  apply (interrupt_transparent (fun _ => 0#16) 0x2000#32 0x3000#32 0x2400#32 ⟨0x20, by decide⟩ 0#32 interrupted).2
  · exact ⟨rfl, rfl, rfl, rfl, rfl, rfl, rfl, rfl, rfl, rfl, rfl, rfl⟩
  · intro k small
    rfl

end ThreeX86.X86
