import ThreeX86.Boot.MemoryMap
import ThreeX86.Boot.Probe
import ThreeX86.Boot.Sectors
import ThreeX86.Machine.Descriptors

/-!
The boot block from the load of its second sector to the jump into the kernel, with the data it is assembled with.
-/

namespace ThreeX86.Boot

open Machine Machine.Memory

/-! ### The data section -/

def ascii (text : String) : List Byte := text.toList.map fun c => BitVec.ofNat 8 c.toNat

/-- `loadmsg`, `errormsg`, `okmsg` and `dot`. -/
def messages : List Byte :=
  ascii "Loading\x00" ++ ascii "\n\rError reading disk.\n\r\x00" ++ ascii "OK\n\r\x00" ++ ascii ".\x00"

/-- Descriptors 1 and 2. -/
def segmentBytes : List Byte :=
  [0xff#8, 0xff#8, 0x00#8, 0x00#8, 0x00#8, 0x9a#8, 0x8f#8, 0x00#8,
   0xff#8, 0xff#8, 0x00#8, 0x00#8, 0x00#8, 0x92#8, 0x8f#8, 0x00#8]

/-- The operand of `lgdt`, which is the first descriptor as well, and two segments. -/
def gdtBytes (gdt : BitVec 16) : List Byte :=
  [0xff#8, 0xff#8, gdt.extractLsb' 0 8, gdt.extractLsb' 8 8, 0x00#8, 0x00#8, 0x00#8, 0x00#8] ++ segmentBytes

/-- `retrycnt`, `in_vesa`, `vesa_info`, `ext_mem_info` and `ext_mem_count`. -/
def bootVariables : List Byte := 3#8 :: List.replicate 10 0#8

/-- Where the data section is, and what the calls return to. -/
structure BlockLabels where
  data : BitVec 16
  firstLoaded : BitVec 16
  loadmsgPrinted : BitVec 16
  errormsgPrinted : BitVec 16
  dotPrinted : BitVec 16
  loaded : BitVec 16
  motorDisabled : BitVec 16
  okmsgPrinted : BitVec 16
  mapCollected : BitVec 16
  probeReturn : Word
  inf : Word

namespace BlockLabels

variable (l : BlockLabels)

def datum (k : Nat) : BitVec 16 := l.data + BitVec.ofNat 16 k

def place (k : Nat) : Word := (l.datum k).zeroExtend 32

def okmsg : BitVec 16 := l.datum 32
def gdt : Word := l.place 39
def inVesa : Word := l.place 64
def vesaInfo : Word := l.place 65
def extMemInfo : Word := l.place 69
def extMemCount : Word := l.place 73

def toLabels : Labels where
  loadmsg := l.datum 0
  errormsg := l.datum 8
  dot := l.datum 37
  retrycnt := l.datum 63
  loadmsgPrinted := l.loadmsgPrinted
  errormsgPrinted := l.errormsgPrinted
  dotPrinted := l.dotPrinted
  loaded := l.loaded

def toMapLabels : MapLabels := ⟨l.datum 69, l.datum 73⟩

def dataSection : List Byte := messages ++ gdtBytes (l.datum 39) ++ bootVariables

/-- The boot block as the assembler makes it: behind the first instruction and the word that `makeflop` patches, and in front of
    the magic number, is the data section. -/
structure Assembled (boot : List Byte) : Prop where
  size : boot.length = 1024
  low : 0x7c04 ≤ l.data.toNat
  high : l.data.toNat + 74 ≤ 0x7dfe
  bytes : ∀ i < 74, boot.getD (l.data.toNat - 0x7c00 + i) 0#8 = l.dataSection.getD i 0#8

end BlockLabels

/-! ### The code -/

/-- The port that the motor is behind is not part of the memory. -/
def disableFloppyMotor (c : Cpu) : Cpu :=
  let c := { c with eax := setLo8 c.eax 0#8 }
  let c := { c with edx := setLo16 c.edx 0x3f2#16 }
  c.ret16

/-- `lgdt` in 16-bit code loads 24 bits of the address. -/
def lgdt16 (m : Memory) (a : Word) : TablePointer := ⟨m.load16 a, m.load32 (a + 2#32) &&& 0xffffff#32⟩

section

variable (l : BlockLabels)

/-- From the return of `find_mem_size_real` to the stack of the 32-bit code. All segments are flat. -/
def enterProtected (cr0 : Word) (c : Cpu) : Cpu × TablePointer :=
  let c := { c with eax := setLo16 c.eax 0#16 }
  let c := { c with mem := c.mem.store8 l.inVesa (lo8 c.eax) }
  let c := { c with eax := setLo8 c.eax 0xcf#8 }
  let c := { c with mem := c.mem.store8 (l.gdt + 14#32) (lo8 c.eax) }
  let c := { c with mem := c.mem.store8 (l.gdt + 22#32) (lo8 c.eax) }
  let gdtr := lgdt16 c.mem l.gdt
  let c := { c with eax := cr0 }
  let c := { c with eax := setLo8 c.eax (lo8 c.eax ||| 1#8) }
  let c := { c with eax := setLo16 c.eax 0x10#16 }
  let c := { c with ebp := 0x10000#32 }
  ({ c with esp := c.ebp }, gdtr)

/-- The arguments of the kernel: nothing here but the `jnz` reads the flags. -/
def pushArguments (fitted : Nat → Prop) [DecidablePred fitted] (fuel : Nat) (c : Cpu) : Option Cpu :=
  let c := c.push32 (c.mem.load32 l.vesaInfo)
  let c := { c with eax := 0#32 }
  let c := { c with eax := setLo8 c.eax (c.mem l.inVesa) }
  let c := c.push32 c.eax
  let c := { c with eax := setLo8 c.eax (c.mem l.extMemCount) }
  let c := c.push32 c.eax
  let c := { c with edx := c.mem.load32 l.extMemInfo }
  let c := c.push32 c.edx
  if lo8 c.eax ≠ 0#8 then some (c.push32 0#32)
  else do
    let c ← findMemSizeProbe fitted fuel (c.push32 l.probeReturn)
    if c.eip = l.probeReturn then some (c.push32 c.eax) else none

def kernelBase : Word := 0x100000#32

/-- The boot block, from the load of its second sector to the call of the kernel, and the descriptor table it leaves behind. -/
def bootBlock (bios : Bios) (answers : List MapAnswer) (cr0 : Word) (fitted : Nat → Prop) [DecidablePred fitted] (fuel : Nat)
    (c : Cpu) : Option (Cpu × TablePointer) := do
  let first ← (← loadFirst bios l.toLabels l.firstLoaded fuel c).returned l.firstLoaded
  let rest ← (← loadRest (bios.after first.requests) l.toLabels fuel first.cpu).returned l.loaded
  let c ← returned l.motorDisabled (disableFloppyMotor (rest.cpu.push16 l.motorDisabled))
  let c := { c with esi := setLo16 c.esi l.okmsg }
  let c ← print bios l.okmsgPrinted fuel c
  let collected ← findMemSizeReal l.toMapLabels answers (c.push16 l.mapCollected)
  let c ← returned l.mapCollected collected.cpu
  let entered := enterProtected l cr0 c
  let c ← pushArguments l fitted fuel entered.1
  let c := { c with ebx := kernelBase }
  return (c.call c.ebx l.inf, entered.2)

end

/-! ### The data section in memory -/

namespace BlockLabels.Assembled

variable {l : BlockLabels} {boot payload rest : List Byte} {m : Memory} {k n : Nat}

theorem toNat_datum (assembled : l.Assembled boot) (inside : k ≤ 74) : (l.datum k).toNat = l.data.toNat + k := by
  have high := assembled.high
  rw [datum, BitVec.toNat_add, BitVec.toNat_ofNat]
  omega

theorem toNat_place (assembled : l.Assembled boot) (inside : k ≤ 74) : (l.place k).toNat = l.data.toNat + k := by
  have bound := (l.datum k).isLt
  rw [place, BitVec.zeroExtend, BitVec.toNat_setWidth, assembled.toNat_datum inside]
  rw [assembled.toNat_datum inside] at bound
  omega

theorem place_add (assembled : l.Assembled boot) {i : Nat} (inside : k + i ≤ 74) :
    l.place k + BitVec.ofNat 32 i = l.place (k + i) := by
  have high := assembled.high
  apply BitVec.eq_of_toNat_eq
  rw [BitVec.toNat_add, BitVec.toNat_ofNat, assembled.toNat_place inside, assembled.toNat_place (by omega)]
  omega

theorem messages_length : messages.length = 39 := by decide

theorem dataSection_message (l : BlockLabels) (inside : k < 39) : l.dataSection.getD k 0#8 = messages.getD k 0#8 := by
  have length := messages_length
  rw [List.getD_eq_getElem?_getD, List.getD_eq_getElem?_getD, dataSection, List.append_assoc,
    List.getElem?_append_left (by omega)]

theorem dataSection_gdt (l : BlockLabels) (inside : k < 24) :
    l.dataSection.getD (39 + k) 0#8 = (gdtBytes (l.datum 39)).getD k 0#8 := by
  have length := messages_length
  have size : (gdtBytes (l.datum 39)).length = 24 := rfl
  rw [List.getD_eq_getElem?_getD, List.getD_eq_getElem?_getD, dataSection, List.append_assoc,
    List.getElem?_append_right (by omega), List.getElem?_append_left (by omega), length, Nat.add_sub_cancel_left]

theorem dataSection_variable (l : BlockLabels) (k : Nat) : l.dataSection.getD (63 + k) 0#8 = bootVariables.getD k 0#8 := by
  have length := messages_length
  have size : (gdtBytes (l.datum 39)).length = 24 := rfl
  rw [List.getD_eq_getElem?_getD, List.getD_eq_getElem?_getD, dataSection,
    List.getElem?_append_right (by rw [List.length_append]; omega)]
  congr 2
  rw [List.length_append]
  omega

theorem text (assembled : l.Assembled boot) (inside : k + n < 39) (chars : ∀ i < n, messages.getD (k + i) 0#8 ≠ 0#8)
    (nul : messages.getD (k + n) 0#8 = 0#8) : Text boot (l.datum k) n := by
  have low := assembled.low
  have high := assembled.high
  have place := assembled.toNat_datum (k := k) (by omega)
  have byte (i : Nat) (within : i ≤ n) : boot.getD ((l.datum k).toNat - 0x7c00 + i) 0#8 = messages.getD (k + i) 0#8 := by
    have distance : l.data.toNat + k - 0x7c00 + i = l.data.toNat - 0x7c00 + (k + i) := by omega
    rw [← dataSection_message l (by omega), ← assembled.bytes (k + i) (by omega), place, distance]
  constructor
  case low => omega
  case high => omega
  case text =>
    intro i within
    rw [byte i (by omega)]
    exact chars i within
  case nul =>
    rw [byte n (Nat.le_refl n)]
    exact nul

theorem okmsg_text (assembled : l.Assembled boot) : Text boot l.okmsg 4 := assembled.text (by decide) (by decide) (by decide)

theorem bootData (assembled : l.Assembled boot) : BootData boot l.toLabels 7 1 := by
  have low := assembled.low
  have high := assembled.high
  have loadmsg := assembled.toNat_datum (k := 0) (by decide)
  have dot := assembled.toNat_datum (k := 37) (by decide)
  have retrycnt := assembled.toNat_datum (k := 63) (by decide)
  constructor
  case size => exact assembled.size
  case loadmsg => exact assembled.text (by decide) (by decide) (by decide)
  case dot => exact assembled.text (by decide) (by decide) (by decide)
  all_goals simp only [toLabels, loadmsg, dot, retrycnt]
  all_goals omega

/-- The data section is loaded with the boot block. -/
theorem loaded (assembled : l.Assembled boot) (booted : Booted l.toLabels (patchSize boot n ++ payload ++ rest) m) (inside : k < 74)
    (other : k ≠ 63) : m (l.place k) = l.dataSection.getD k 0#8 := by
  have low := assembled.low
  have high := assembled.high
  have retrycnt := assembled.toNat_datum (k := 63) (by decide)
  have byte := booted (l.data.toNat - 0x7c00 + k) (by omega) (by
    show _ ≠ (l.datum 63).toNat
    unfold bootBase
    omega)
  rw [getD_image assembled.size n (by omega) (by omega), assembled.bytes k inside] at byte
  have place : l.place k = BitVec.ofNat 32 (bootBase + (l.data.toNat - 0x7c00 + k)) := by
    apply BitVec.eq_of_toNat_eq
    rw [assembled.toNat_place (by omega), toNat_ofNat_word (by unfold bootBase; omega)]
    unfold bootBase
    omega
  rw [place]
  exact byte

end BlockLabels.Assembled

end ThreeX86.Boot
