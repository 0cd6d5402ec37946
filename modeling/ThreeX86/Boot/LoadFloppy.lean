import ThreeX86.Machine.Cpu

/-!
The disk loader of `bootblock.S`. The code runs with all segment bases 0 and 4 GB limits; the BIOS
services are parameters, and each call of the disk service may depend on the earlier ones.
-/

namespace ThreeX86.Boot

open Machine Machine.Memory

/-- The registers at a call of int 13h. -/
structure Request where
  function : Byte
  count : Byte
  cylinder : Byte
  sector : Byte
  head : Byte
  drive : Byte
  buffer : BitVec 16
deriving DecidableEq, Repr

def Request.of (c : Cpu) : Request where
  function := hi8 c.eax
  count := lo8 c.eax
  cylinder := hi8 c.ecx
  sector := lo8 c.ecx
  head := hi8 c.edx
  drive := lo8 c.edx
  buffer := lo16 c.ebx

structure Bios where
  int10 : Cpu → Cpu
  int13 : List Request → Cpu → Cpu

/-- Addresses in the boot block: data, and what the calls return to. -/
structure Labels where
  loadmsg : BitVec 16
  errormsg : BitVec 16
  dot : BitVec 16
  retrycnt : BitVec 16
  loadmsgPrinted : BitVec 16
  errormsgPrinted : BitVec 16
  dotPrinted : BitVec 16
  loaded : BitVec 16

structure State where
  cpu : Cpu
  requests : List Request

inductive Exit where
  | ret (s : State)
  /-- The error message is out; a key reboots. -/
  | reboot (s : State)

def lodsb (c : Cpu) : Cpu :=
  { c with
    eax := setLo8 c.eax (c.mem ((lo16 c.esi).zeroExtend 32))
    esi := setLo16 c.esi (lo16 c.esi + 1#16) }

section

variable (bios : Bios) (labels : Labels)

/-- The loop at `_n`. -/
def printLoop : Nat → Cpu → Option Cpu
  | 0, _ => none
  | fuel + 1, c =>
    let c := lodsb c
    if lo8 c.eax = 0#8 then some c
    else
      let c := { c with eax := setHi8 c.eax 0x0e#8, ebx := setLo16 c.ebx 7#16 }
      printLoop fuel (bios.int10 c)

def print (returnAddress : BitVec 16) (fuel : Nat) (c : Cpu) : Option Cpu :=
  let c := c.push16 returnAddress
  let c := c.pusha16
  (printLoop bios fuel c).map fun c => c.popa16.ret16

def int13 (s : State) : State := ⟨bios.int13 s.requests s.cpu, s.requests ++ [Request.of s.cpu]⟩

/-- `ax` is the number of sectors left on the track. -/
def restOfTrack (c : Cpu) : Cpu :=
  let c := { c with eax := setLo8 c.eax 0x13#8 }
  let c := { c with eax := setLo8 c.eax (lo8 c.eax - lo8 c.ebx) }
  { c with eax := setHi8 c.eax 0#8 }

/-- Up to `shorten`: not more than `cx` sectors. -/
def sectorCount (c : Cpu) : Cpu :=
  let c := restOfTrack c
  let c := c.sub16Flags (lo16 c.eax) (lo16 c.ecx)
  if c.less then c else { c with eax := setLo16 c.eax (lo16 c.ecx) }

/-- From `tryagain` to the disk service. -/
def readSectors (s : State) : State :=
  let c := sectorCount s.cpu
  let c := { c with ecx := setLo16 c.ecx (lo16 c.ebx) }
  let c := { c with ebx := setLo16 c.ebx 0x8000#16 }
  let c := { c with eax := setHi8 c.eax 2#8 }
  int13 bios { s with cpu := c }

/-- The copy from the track buffer to `edi`. -/
def copyTrack (c : Cpu) : Cpu :=
  let c := { c with esi := 0x8000#32 }
  let c := { c with ecx := 0#32 }
  let c := { c with ecx := setLo8 c.ecx (lo8 c.eax) }
  let c := { c with ecx := setLo16 c.ecx (lo16 c.ecx <<< 7) }
  { c with
    mem := c.mem.moveWords c.edi c.esi c.ecx.toNat
    edi := c.edi + 4#32 * c.ecx
    esi := c.esi + 4#32 * c.ecx
    ecx := 0#32 }

def restorePosition (c : Cpu) : Cpu :=
  let (cx, c) := c.pop16
  let c := { c with ecx := setLo16 c.ecx cx }
  let (bx, c) := c.pop16
  { c with ebx := setLo16 c.ebx bx }

/-- The step to the next track, up to the `jg`, and whether that is taken. -/
def nextTrack (c : Cpu) : Bool × Cpu :=
  let c := { c with edx := setHi8 c.edx (hi8 c.edx ^^^ 1#8) }
  let c := if hi8 c.edx ≠ 0#8 then c else { c with ebx := setHi8 c.ebx (hi8 c.ebx + 1#8) }
  let c := { c with ebx := setLo8 c.ebx 1#8 }
  let c := { c with eax := setHi8 c.eax 0#8 }
  let left := lo16 c.ecx - lo16 c.eax
  let c := c.sub16Flags (lo16 c.ecx) (lo16 c.eax)
  let c := { c with ecx := setLo16 c.ecx left }
  (c.greater, c)

/-- From `okok` to the `jg`. -/
def okok (fuel : Nat) (c : Cpu) : Option (Bool × Cpu) :=
  let c := { c with mem := c.mem.store8 (labels.retrycnt.zeroExtend 32) 3#8 }
  let c := { c with esi := setLo16 c.esi labels.dot }
  (print bios labels.dotPrinted fuel c).map fun c => nextTrack (restorePosition (copyTrack c))

def savePosition (c : Cpu) : Cpu := (c.push16 (lo16 c.ebx)).push16 (lo16 c.ecx)

def fail (fuel : Nat) (s : State) : Option Exit :=
  (print bios labels.errormsgPrinted fuel { s.cpu with esi := setLo16 s.cpu.esi labels.errormsg }).map fun c =>
    .reboot { s with cpu := c }

def tryagain : Nat → State → Option Exit
  | 0, _ => none
  | fuel + 1, s =>
    let s := readSectors bios s
    if s.cpu.cf then
      let retrycnt := s.cpu.mem (labels.retrycnt.zeroExtend 32) - 1#8
      let s := { s with cpu := { s.cpu with mem := s.cpu.mem.store8 (labels.retrycnt.zeroExtend 32) retrycnt } }
      if retrycnt = 0#8 then fail bios labels fuel s
      else
        let s := int13 bios { s with cpu := { s.cpu with eax := setHi8 s.cpu.eax 0#8 } }
        tryagain fuel s
    else
      match okok bios labels fuel s.cpu with
      | none => none
      | some (more, c) =>
        if more then tryagain fuel { s with cpu := savePosition c } else some (.ret { s with cpu := c.ret16 })

def loadFloppy (fuel : Nat) (s : State) : Option Exit := tryagain bios labels fuel { s with cpu := savePosition s.cpu }

/-- Where the boot block is, and its patched word `sectors`. -/
def bootBase : Nat := 0x7c00
def sectors : Word := 0x7c02#32

/-- The code behind "read in the rest of the disk", to the return of `load_floppy`. -/
def loadRest (fuel : Nat) (c : Cpu) : Option Exit := do
  let c := { c with edi := 0x100000#32 }
  let c := { c with ebx := setLo16 c.ebx 3#16 }
  let c := { c with ecx := setLo16 c.ecx (c.mem.load16 sectors) }
  let c := { c with edx := setLo16 c.edx 0#16 }
  let c := { c with esi := setLo16 c.esi labels.loadmsg }
  let c ← print bios labels.loadmsgPrinted fuel c
  loadFloppy bios labels fuel ⟨c.push16 labels.loaded, []⟩

end

/-! ### What the code relies on -/

/-- Low memory and what lies behind the track buffer belong to the BIOS. -/
def Scratch (sp : Nat) (x : Nat) : Prop := x < sp ∨ (0xa400 ≤ x ∧ x < 0x100000)

/-- All registers but `eax` and the flags. -/
structure SameRegs (c c' : Cpu) : Prop where
  ebx : c'.ebx = c.ebx
  ecx : c'.ecx = c.ecx
  edx : c'.edx = c.edx
  esi : c'.esi = c.esi
  edi : c'.edi = c.edi
  ebp : c'.ebp = c.ebp
  esp : c'.esp = c.esp

/-- The teletype service writes to the screen and keeps the registers. -/
def Teletype (int10 : Cpu → Cpu) : Prop :=
  ∀ c, hi8 c.eax = 0x0e#8 → SameRegs c (int10 c) ∧ Changes (Scratch c.sp.toNat) c.mem (int10 c).mem

/-! ### Messages -/

/-- A message of `length` characters in the boot block. -/
structure Message (m : Memory) (start : BitVec 16) (length : Nat) : Prop where
  low : 0x7c00 ≤ start.toNat
  high : start.toNat + length < 0x8000
  text : ∀ i < length, m (BitVec.ofNat 32 (start.toNat + i)) ≠ 0#8
  nul : m (BitVec.ofNat 32 (start.toNat + length)) = 0#8

theorem Message.kept {m m' : Memory} {start : BitVec 16} {length : Nat} {S : Nat → Prop}
    (message : Message m start length) (changes : Changes S m m')
    (outside : ∀ x, start.toNat ≤ x → x ≤ start.toNat + length → ¬ S x) : Message m' start length := by
  have high := message.high
  have byte (i : Nat) (h : i ≤ length) :
      m' (BitVec.ofNat 32 (start.toNat + i)) = m (BitVec.ofNat 32 (start.toNat + i)) := by
    apply changes
    rw [toNat_ofNat_word (by omega)]
    exact outside _ (by omega) (by omega)
  constructor
  case low => exact message.low
  case high => exact high
  case text =>
    intro i h
    rw [byte i (by omega)]
    exact message.text i h
  case nul =>
    rw [byte length (Nat.le_refl length)]
    exact message.nul

/-- What the loop of `print` leaves: only `ax`, `bx` and `si` differ. -/
structure Printed (c c' : Cpu) : Prop where
  ebx : ∀ v, setLo16 c'.ebx v = setLo16 c.ebx v
  esi : ∀ v, setLo16 c'.esi v = setLo16 c.esi v
  ecx : c'.ecx = c.ecx
  edx : c'.edx = c.edx
  edi : c'.edi = c.edi
  ebp : c'.ebp = c.ebp
  esp : c'.esp = c.esp
  mem : Changes (Scratch c.sp.toNat) c.mem c'.mem

theorem printLoop_spec {bios : Bios} (teletype : Teletype bios.int10) {length fuel : Nat} {c : Cpu}
    (message : Message c.mem (lo16 c.esi) length) (stack : c.sp.toNat ≤ 0x7c00) (enough : length < fuel) :
    ∃ c', printLoop bios fuel c = some c' ∧ Printed c c' := by
  induction length generalizing fuel c with
  | zero =>
    obtain ⟨fuel, rfl⟩ : ∃ f, fuel = f + 1 := ⟨fuel - 1, by omega⟩
    have nul := message.nul
    rw [Nat.add_zero] at nul
    have al : lo8 (lodsb c).eax = 0#8 := by
      unfold lodsb
      rw [lo8_setLo8]
      rw [← nul]
      congr 1
      apply BitVec.eq_of_toNat_eq
      rw [BitVec.zeroExtend, BitVec.toNat_setWidth, BitVec.toNat_ofNat]
    refine ⟨lodsb c, ?_, ?_⟩
    · rw [printLoop]
      exact if_pos al
    · exact ⟨fun v => rfl, fun v => setLo16_setLo16 _ _ v, rfl, rfl, rfl, rfl, rfl, Changes.refl _ _⟩
  | succ length ih =>
    obtain ⟨fuel, rfl⟩ : ∃ f, fuel = f + 1 := ⟨fuel - 1, by omega⟩
    have high := message.high
    have low := message.low
    have first := message.text 0 (by omega)
    rw [Nat.add_zero] at first
    have al : lo8 (lodsb c).eax ≠ 0#8 := by
      unfold lodsb
      rw [lo8_setLo8]
      intro nul
      apply first
      rw [← nul]
      congr 1
      apply BitVec.eq_of_toNat_eq
      rw [BitVec.zeroExtend, BitVec.toNat_setWidth, BitVec.toNat_ofNat]
    let called := { lodsb c with eax := setHi8 (lodsb c).eax 0x0e#8, ebx := setLo16 (lodsb c).ebx 7#16 }
    obtain ⟨same, changes⟩ := teletype called (hi8_setHi8 _ _)
    have next : (lo16 (bios.int10 called).esi).toNat = (lo16 c.esi).toNat + 1 := by
      rw [same.esi]
      show (lo16 (setLo16 c.esi (lo16 c.esi + 1#16))).toNat = _
      rw [lo16_setLo16, BitVec.toNat_add, BitVec.toNat_ofNat]
      omega
    have rest : Message c.mem (lo16 (bios.int10 called).esi) length := by
      constructor
      case low => omega
      case high => omega
      case text =>
        intro i h
        rw [next, Nat.add_assoc, Nat.add_comm 1]
        exact message.text (i + 1) (by omega)
      case nul =>
        rw [next, Nat.add_assoc, Nat.add_comm 1]
        exact message.nul
    have sp : (bios.int10 called).sp = c.sp := by
      rw [Cpu.sp, same.esp]
      rfl
    have kept : Message (bios.int10 called).mem (lo16 (bios.int10 called).esi) length := by
      apply rest.kept changes
      intro x lower upper scratch
      have top : called.sp = c.sp := rfl
      rw [top] at scratch
      unfold Scratch at scratch
      omega
    obtain ⟨c', run, printed⟩ := ih kept (by rw [sp]; exact stack) (show length < fuel by omega)
    refine ⟨c', ?_, ?_⟩
    · rw [printLoop]
      exact (if_neg al).trans run
    · constructor
      case ebx =>
        intro v
        rw [printed.ebx v, same.ebx]
        exact setLo16_setLo16 c.ebx 7#16 v
      case esi =>
        intro v
        rw [printed.esi v, same.esi]
        exact setLo16_setLo16 c.esi _ v
      case ecx => exact printed.ecx.trans same.ecx
      case edx => exact printed.edx.trans same.edx
      case edi => exact printed.edi.trans same.edi
      case ebp => exact printed.ebp.trans same.ebp
      case esp => exact printed.esp.trans same.esp
      case mem =>
        have after := printed.mem
        rw [sp] at after
        exact changes.trans after

/-- `print` gives back all registers but the upper half of `eax`, and only uses the stack below `sp`. -/
structure Unprinted (c c' : Cpu) : Prop where
  ax : lo16 c'.eax = lo16 c.eax
  regs : SameRegs c c'
  mem : Changes (Scratch c.sp.toNat) c.mem c'.mem

theorem print_spec {bios : Bios} (teletype : Teletype bios.int10) (returnAddress : BitVec 16) {length fuel : Nat}
    {c : Cpu} (message : Message c.mem (lo16 c.esi) length) (stack : c.sp.toNat ≤ 0x7c00) (room : 18 ≤ c.sp.toNat)
    (enough : length < fuel) : ∃ c', print bios returnAddress fuel c = some c' ∧ Unprinted c c' := by
  have high := message.high
  have low := message.low
  -- the call and `pusha` push nine words
  obtain ⟨saved, shape, pushed⟩ := Cpu.push16_pusha16 c returnAddress room
  have top : saved.sp.toNat + 18 = c.sp.toNat := pushed.sp
  have regs := pushed.regs
  have pushes : Changes (Scratch c.sp.toNat) c.mem saved.mem :=
    pushed.mem.mono fun x inside => Or.inl inside.2
  have there : Message saved.mem (lo16 saved.esi) length := by
    rw [show saved.esi = c.esi by rw [regs]]
    apply message.kept pushes
    intro x lower upper scratch
    unfold Scratch at scratch
    omega
  obtain ⟨back, run, printed⟩ := printLoop_spec teletype there (by omega) enough
  have backSp : back.sp = saved.sp := by rw [Cpu.sp, printed.esp]; rfl
  have word (k : Nat) (h : k < 9) : back.stackWord k = saved.stackWord k := by
    apply Cpu.stackWord_kept printed.mem printed.esp k (by omega)
    intro x lower upper scratch
    unfold Scratch at scratch
    omega
  have popped := Cpu.popa16_eq back (by rw [backSp]; omega)
  rw [word 0 (by decide), word 1 (by decide), word 2 (by decide), word 4 (by decide), word 5 (by decide),
    word 6 (by decide), word 7 (by decide), pushed.word 0 (by simp), pushed.word 1 (by simp),
    pushed.word 2 (by simp), pushed.word 4 (by simp), pushed.word 5 (by simp), pushed.word 6 (by simp),
    pushed.word 7 (by simp)] at popped
  refine ⟨back.popa16.ret16, ?_, ?_⟩
  · unfold print
    simp only
    rw [shape, run]
    rfl
  · have esp : back.popa16.ret16.esp = c.esp := by
      rw [popped]
      show setLo16 (setLo16 back.esp (back.sp + 16#16)) (lo16 (setLo16 back.esp (back.sp + 16#16)) + 2#16) = c.esp
      rw [lo16_setLo16, setLo16_setLo16, printed.esp, pushed.high, backSp]
      have whole : saved.sp + 16#16 + 2#16 = c.sp := by
        apply BitVec.eq_of_toNat_eq
        have bound := c.sp.isLt
        rw [BitVec.toNat_add, BitVec.toNat_add, BitVec.toNat_ofNat, BitVec.toNat_ofNat]
        omega
      rw [whole]
      exact setLo16_lo16 c.esp
    rw [regs] at printed
    constructor
    case ax =>
      rw [popped]
      exact lo16_setLo16 _ _
    case regs =>
      refine ⟨?_, ?_, ?_, ?_, ?_, ?_, esp⟩
      · rw [popped]
        exact (printed.ebx _).trans (setLo16_lo16 c.ebx)
      · rw [popped]
        show setLo16 back.ecx (lo16 c.ecx) = c.ecx
        rw [printed.ecx]
        exact setLo16_lo16 c.ecx
      · rw [popped]
        show setLo16 back.edx (lo16 c.edx) = c.edx
        rw [printed.edx]
        exact setLo16_lo16 c.edx
      · rw [popped]
        exact (printed.esi _).trans (setLo16_lo16 c.esi)
      · rw [popped]
        show setLo16 back.edi (lo16 c.edi) = c.edi
        rw [printed.edi]
        exact setLo16_lo16 c.edi
      · rw [popped]
        show setLo16 back.ebp (lo16 c.ebp) = c.ebp
        rw [printed.ebp]
        exact setLo16_lo16 c.ebp
    case mem =>
      rw [popped]
      have after : Changes (Scratch c.sp.toNat) saved.mem back.mem := by
        apply printed.mem.mono
        intro x scratch
        unfold Scratch at scratch ⊢
        have lower : saved.sp.toNat ≤ c.sp.toNat := by omega
        have same : ({ c with esp := saved.esp, mem := saved.mem } : Cpu).sp = saved.sp := rfl
        rw [same] at scratch
        omega
      exact pushes.trans after

end ThreeX86.Boot
