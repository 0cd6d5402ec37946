import ThreeX86.Boot.LoadFloppy

/-!
One pass of `load_floppy` reads the rest of a track; the passes read the disk in order.
-/

namespace ThreeX86.Boot

open Machine Machine.Memory

/-! ### A floppy with 2 heads and 18 sectors per track -/

def Request.lba (r : Request) : Nat := (r.cylinder.toNat * 2 + r.head.toNat) * 18 + r.sector.toNat - 1

def Request.sectors (r : Request) : List Nat := List.range' r.lba r.count.toNat

/-- A read of at least one sector that stays on its track. -/
structure Request.WithinTrack (r : Request) : Prop where
  function : r.function = 2#8
  drive : r.drive = 0#8
  cylinder : r.cylinder.toNat < 80
  head : r.head.toNat < 2
  first : 1 ≤ r.sector.toNat
  some : 1 ≤ r.count.toNat
  last : r.sector.toNat + r.count.toNat ≤ 19

def Buffer (r : Request) (x : Nat) : Prop := r.buffer.toNat ≤ x ∧ x < r.buffer.toNat + 512 * r.count.toNat

/-- A read that the disk service has carried out; `al` is the number of sectors read. -/
structure Served (c c' : Cpu) : Prop where
  success : c'.cf = false
  count : lo8 c'.eax = lo8 c.eax
  regs : SameRegs c c'
  mem : Changes (fun x => Scratch c.sp.toNat x ∨ Buffer (Request.of c) x) c.mem c'.mem

/-- The sectors are in the buffer. -/
structure Delivered (disk : Nat → Byte) (c c' : Cpu) : Prop extends Served c c' where
  data : ∀ i < 512 * (Request.of c).count.toNat,
    c'.mem (BitVec.ofNat 32 ((Request.of c).buffer.toNat + i)) = disk (512 * (Request.of c).lba + i)

/-- Every read within a track succeeds. -/
def ReadsDisk (int13 : List Request → Cpu → Cpu) (disk : Nat → Byte) : Prop :=
  ∀ history c, (Request.of c).WithinTrack → (Request.of c).buffer.toNat + 512 * (Request.of c).count.toNat ≤ 0x10000 →
    Delivered disk c (int13 history c)

/-- A disk service without failures. -/
def diskService (disk : Nat → Byte) (_ : List Request) (c : Cpu) : Cpu :=
  { c with
    cf := false
    mem := c.mem.storeBytes ((Request.of c).buffer.zeroExtend 32) (512 * (Request.of c).count.toNat) fun i =>
      disk (512 * (Request.of c).lba + i) }

theorem diskService_mem (disk : Nat → Byte) (history : List Request) (c : Cpu) :
    (diskService disk history c).mem = c.mem.storeBytes ((Request.of c).buffer.zeroExtend 32)
      (512 * (Request.of c).count.toNat) fun i => disk (512 * (Request.of c).lba + i) := rfl

theorem buffer_address (c : Cpu) : ((Request.of c).buffer.zeroExtend 32).toNat = (Request.of c).buffer.toNat := by
  have bound := (Request.of c).buffer.isLt
  rw [BitVec.zeroExtend, BitVec.toNat_setWidth]
  omega

theorem diskService_served (disk : Nat → Byte) (history : List Request) (c : Cpu) :
    Served c (diskService disk history c) := by
  have buffer := buffer_address c
  have bound := (Request.of c).buffer.isLt
  have count := (Request.of c).count.isLt
  constructor
  case success => rfl
  case count => rfl
  case regs => exact ⟨rfl, rfl, rfl, rfl, rfl, rfl, rfl⟩
  case mem =>
    intro x outside
    rw [diskService_mem]
    apply storeBytes_outside
    apply le_offset (by omega)
    rw [buffer]
    unfold Buffer at outside
    omega

theorem diskService_readsDisk (disk : Nat → Byte) : ReadsDisk (diskService disk) disk := by
  intro history c within room
  refine ⟨diskService_served disk history c, ?_⟩
  intro i inside
  have address : BitVec.ofNat 32 ((Request.of c).buffer.toNat + i) =
      (Request.of c).buffer.zeroExtend 32 + BitVec.ofNat 32 i := by
    rw [BitVec.ofNat_add, ← buffer_address, ofNat_toNat_word]
  rw [address, diskService_mem]
  exact storeBytes_inside _ _ _ _ _ inside (by omega)

/-! ### The request -/

def share (sector left : Nat) : Nat := min (19 - sector) left

section

variable {bios : Bios} {labels : Labels}

theorem restOfTrack_eax {c : Cpu} (sector : (lo8 c.ebx).toNat ≤ 18) :
    (lo8 (restOfTrack c).eax).toNat = 19 - (lo8 c.ebx).toNat ∧
    (lo16 (restOfTrack c).eax).toNat = 19 - (lo8 c.ebx).toNat := by
  have low : lo8 (restOfTrack c).eax = 0x13#8 - lo8 c.ebx := by simp only [restOfTrack, lo8_setHi8, lo8_setLo8]
  have high : hi8 (restOfTrack c).eax = 0#8 := by simp only [restOfTrack, hi8_setHi8]
  have al : (lo8 (restOfTrack c).eax).toNat = 19 - (lo8 c.ebx).toNat := by
    rw [low, BitVec.toNat_sub, BitVec.toNat_ofNat]
    omega
  refine ⟨al, ?_⟩
  rw [toNat_lo16, al, high, BitVec.toNat_ofNat]
  omega

theorem sectorCount_spec {c : Cpu} {left : Nat} (sector : (lo8 c.ebx).toNat ≤ 18) (cx : (lo16 c.ecx).toNat = left)
    (bound : left < 2^15) :
    (lo8 (sectorCount c).eax).toNat = share (lo8 c.ebx).toNat left ∧ SameRegs c (sectorCount c) ∧
    (sectorCount c).mem = c.mem := by
  obtain ⟨al, ax⟩ := restOfTrack_eax sector
  have same : SameRegs c (restOfTrack c) := ⟨rfl, rfl, rfl, rfl, rfl, rfl, rfl⟩
  have mem : (restOfTrack c).mem = c.mem := rfl
  have count : (restOfTrack c).ecx = c.ecx := rfl
  unfold sectorCount
  generalize restOfTrack c = rest at al ax same mem count ⊢
  have less := Cpu.less_of_small rest (a := lo16 rest.eax) (b := lo16 rest.ecx) (by omega) (by rw [count]; omega)
  rw [count, cx, ax] at less
  simp only [count]
  unfold share
  by_cases short : (rest.sub16Flags (lo16 rest.eax) (lo16 c.ecx)).less = true
  · have order := less.mp short
    rw [if_pos short]
    refine ⟨?_, ⟨same.ebx, same.ecx, same.edx, same.esi, same.edi, same.ebp, same.esp⟩, mem⟩
    show (lo8 rest.eax).toNat = _
    omega
  · have order : ¬ 19 - (lo8 c.ebx).toNat < left := fun h => short (less.mpr h)
    rw [if_neg short]
    refine ⟨?_, ⟨same.ebx, same.ecx, same.edx, same.esi, same.edi, same.ebp, same.esp⟩, mem⟩
    show (lo8 (setLo16 rest.eax (lo16 rest.ecx))).toNat = _
    rw [toNat_lo8_setLo16, count, cx]
    omega

structure Asking (c c' : Cpu) (left : Nat) : Prop where
  count : (lo8 c'.eax).toNat = share (lo8 c.ebx).toNat left
  function : hi8 c'.eax = 2#8
  place : c'.ecx = setLo16 c.ecx (lo16 c.ebx)
  buffer : c'.ebx = setLo16 c.ebx 0x8000#16
  edx : c'.edx = c.edx
  edi : c'.edi = c.edi
  esp : c'.esp = c.esp
  mem : c'.mem = c.mem

theorem readSectors_spec (bios : Bios) (s : State) {left : Nat} (sector : (lo8 s.cpu.ebx).toNat ≤ 18)
    (cx : (lo16 s.cpu.ecx).toNat = left) (bound : left < 2^15) :
    ∃ c, readSectors bios s = int13 bios ⟨c, s.requests⟩ ∧ Asking s.cpu c left := by
  obtain ⟨count, same, mem⟩ := sectorCount_spec sector cx bound
  unfold readSectors
  generalize sectorCount s.cpu = c at count same mem ⊢
  refine ⟨_, rfl, ?_⟩
  constructor
  case count => exact (congrArg BitVec.toNat (lo8_setHi8 c.eax 2#8)).trans count
  case function => exact hi8_setHi8 c.eax 2#8
  case place =>
    show setLo16 c.ecx (lo16 c.ebx) = _
    rw [same.ecx, same.ebx]
  case buffer =>
    show setLo16 c.ebx 0x8000#16 = _
    rw [same.ebx]
  case edx => exact same.edx
  case edi => exact same.edi
  case esp => exact same.esp
  case mem => exact mem

/-! ### The copy and the step to the next track -/

structure Copied (c c' : Cpu) (count : Nat) : Prop where
  mem : c'.mem = c.mem.moveWords c.edi 0x8000#32 (128 * count)
  edi : c'.edi = c.edi + BitVec.ofNat 32 (512 * count)
  eax : c'.eax = c.eax
  ebx : c'.ebx = c.ebx
  edx : c'.edx = c.edx
  esp : c'.esp = c.esp

theorem copyTrack_spec {c : Cpu} {count : Nat} (al : (lo8 c.eax).toNat = count) (small : count ≤ 18) :
    Copied c (copyTrack c) count := by
  let ecx := setLo16 (setLo8 0#32 (lo8 c.eax)) (lo16 (setLo8 0#32 (lo8 c.eax)) <<< 7)
  have words : ecx.toNat = 128 * count := by
    have cx : (lo16 (setLo8 0#32 (lo8 c.eax))).toNat = count := by
      rw [toNat_lo16, lo8_setLo8, hi8_setLo8, al, show hi8 0#32 = 0#8 from rfl, BitVec.toNat_ofNat]
      omega
    show (setLo16 (setLo8 0#32 (lo8 c.eax)) (lo16 (setLo8 0#32 (lo8 c.eax)) <<< 7)).toNat = _
    rw [toNat_setLo16, toNat_setLo8, al, BitVec.toNat_shiftLeft, cx, Nat.shiftLeft_eq, BitVec.toNat_ofNat]
    omega
  constructor
  case mem =>
    show c.mem.moveWords c.edi 0x8000#32 ecx.toNat = _
    rw [words]
  case edi =>
    show c.edi + 4#32 * ecx = _
    congr 1
    apply BitVec.eq_of_toNat_eq
    rw [BitVec.toNat_mul, words, BitVec.toNat_ofNat, BitVec.toNat_ofNat]
    omega
  case eax => rfl
  case ebx => rfl
  case edx => rfl
  case esp => rfl

theorem restorePosition_eq (c : Cpu) (room : c.sp.toNat + 4 < 2^16) :
    restorePosition c = { c with
      ecx := setLo16 c.ecx (c.stackWord 0), ebx := setLo16 c.ebx (c.stackWord 1), esp := setLo16 c.esp (c.sp + 4#16) } := by
  unfold Cpu.sp at room
  have word0 := Cpu.stack_address c 0 (by omega)
  have word1 := Cpu.stack_address c 1 (by omega)
  simp only [Nat.reduceMul, BitVec.add_zero] at word0 word1
  simp only [restorePosition, Cpu.pop16, Cpu.stackWord, Cpu.sp, lo16_setLo16, setLo16_setLo16, BitVec.add_assoc,
    BitVec.reduceAdd, Nat.reduceMul, word0, word1]

/-- The position a pass goes on from. -/
structure Stepped (c c' : Cpu) (left count : Nat) : Prop where
  cx : (lo16 c'.ecx).toNat = left - count
  bl : lo8 c'.ebx = 1#8
  bh : hi8 c'.ebx = if hi8 c'.edx ≠ 0#8 then hi8 c.ebx else hi8 c.ebx + 1#8
  dl : lo8 c'.edx = lo8 c.edx
  dh : hi8 c'.edx = hi8 c.edx ^^^ 1#8
  edi : c'.edi = c.edi
  esp : c'.esp = c.esp
  mem : c'.mem = c.mem

theorem nextTrack_spec {c : Cpu} {left count : Nat} (al : (lo8 c.eax).toNat = count)
    (cx : (lo16 c.ecx).toNat = left) (enough : count ≤ left) (bound : left < 2^15) :
    (nextTrack c).1 = decide (count < left) ∧ Stepped c (nextTrack c).2 left count := by
  have ax : (lo16 (setHi8 c.eax 0#8)).toNat = count := by
    rw [toNat_lo16, hi8_setHi8, lo8_setHi8, al, BitVec.toNat_ofNat]
    omega
  have difference : (lo16 c.ecx - lo16 (setHi8 c.eax 0#8)).toNat = left - count := by
    rw [BitVec.toNat_sub, cx, ax]
    omega
  have head : hi8 (setHi8 c.edx (hi8 c.edx ^^^ 1#8)) = hi8 c.edx ^^^ 1#8 := hi8_setHi8 _ _
  have greater (c' : Cpu) (ecx : Word) :
      ({ c'.sub16Flags (lo16 c.ecx) (lo16 (setHi8 c.eax 0#8)) with ecx := ecx } : Cpu).greater =
        decide (count < left) := by
    have more := Cpu.greater_of_small c' (a := lo16 c.ecx) (b := lo16 (setHi8 c.eax 0#8)) (by omega) (by omega)
    rw [cx, ax] at more
    show (c'.sub16Flags (lo16 c.ecx) (lo16 (setHi8 c.eax 0#8))).greater = decide (count < left)
    by_cases less : count < left
    · rw [more.mpr less, decide_eq_true less]
    · rw [decide_eq_false less]
      exact Bool.eq_false_iff.mpr fun h => less (more.mp h)
  unfold nextTrack
  simp only [head]
  by_cases second : hi8 c.edx ^^^ 1#8 ≠ 0#8
  · rw [if_pos second]
    refine ⟨greater _ _, ?_⟩
    constructor
    case cx => exact (congrArg BitVec.toNat (lo16_setLo16 _ _)).trans difference
    case bl => exact lo8_setLo8 c.ebx 1#8
    case bh =>
      show hi8 (setLo8 c.ebx 1#8) = if hi8 (setHi8 c.edx (hi8 c.edx ^^^ 1#8)) ≠ 0#8 then _ else _
      rw [head, if_pos second, hi8_setLo8]
    case dl => exact lo8_setHi8 c.edx _
    case dh => exact head
    case edi => rfl
    case esp => rfl
    case mem => rfl
  · rw [if_neg second]
    refine ⟨greater _ _, ?_⟩
    constructor
    case cx => exact (congrArg BitVec.toNat (lo16_setLo16 _ _)).trans difference
    case bl => exact lo8_setLo8 _ 1#8
    case bh =>
      show hi8 (setLo8 (setHi8 c.ebx (hi8 c.ebx + 1#8)) 1#8) =
        if hi8 (setHi8 c.edx (hi8 c.edx ^^^ 1#8)) ≠ 0#8 then _ else _
      rw [head, if_neg second, hi8_setLo8, hi8_setHi8]
    case dl => exact lo8_setHi8 c.edx _
    case dh => exact head
    case edi => rfl
    case esp => rfl
    case mem => rfl

/-! ### One pass -/

/-- What `load_floppy` needs for loading `n` sectors to `dest`: room on the stack, and a destination off the
    stack, the track buffer and the message. -/
structure Setting (labels : Labels) (top : Word) (length n dest : Nat) : Prop where
  low : 22 ≤ (lo16 top).toNat
  high : (lo16 top).toNat + 2 ≤ 0x7c00
  count : n < 2^15
  bound : dest + 512 * n < 2^32
  stack : (lo16 top).toNat + 2 ≤ dest
  buffer : dest + 512 * n ≤ 0x8000 ∨ 0xa400 ≤ dest
  dot : dest + 512 * n ≤ labels.dot.toNat ∨ labels.dot.toNat + length < dest
  retrycntLow : 0x7c00 ≤ labels.retrycnt.toNat
  retrycntHigh : labels.retrycnt.toNat < 0x8000
  retrycntDot : labels.retrycnt.toNat < labels.dot.toNat ∨ labels.dot.toNat + length < labels.retrycnt.toNat

/-- The processor at `load_floppy` with `k` of the `n` sectors loaded. -/
structure Loading (labels : Labels) (top : Word) (ra : BitVec 16) (length n dest k : Nat) (c : Cpu) : Prop where
  esp : c.esp = top
  cx : (lo16 c.ecx).toNat = n - k
  edi : c.edi.toNat = dest + 512 * k
  sector : 1 ≤ (lo8 c.ebx).toNat ∧ (lo8 c.ebx).toNat ≤ 18
  returnAddress : c.stackWord 0 = ra
  dot : Message c.mem labels.dot length

def requestAt (c : Cpu) (count : Nat) : Request where
  function := 2#8
  count := BitVec.ofNat 8 count
  cylinder := hi8 c.ebx
  sector := lo8 c.ebx
  head := hi8 c.edx
  drive := lo8 c.edx
  buffer := 0x8000#16

def PassScratch (labels : Labels) (sp edi count : Nat) (x : Nat) : Prop :=
  Scratch sp x ∨ (0x8000 ≤ x ∧ x < 0xa400) ∨ x = labels.retrycnt.toNat ∨ (edi ≤ x ∧ x < edi + 512 * count)

/-- A pass that read `count` sectors, from the position in `c` to that in `c'`. -/
structure Passed (labels : Labels) (c served c' : Cpu) (count : Nat) : Prop where
  data : ∀ i < 512 * count, c'.mem (c.edi + BitVec.ofNat 32 i) = served.mem (BitVec.ofNat 32 (0x8000 + i))
  bl : lo8 c'.ebx = 1#8
  bh : hi8 c'.ebx = if hi8 c'.edx ≠ 0#8 then hi8 c.ebx else hi8 c.ebx + 1#8
  dl : lo8 c'.edx = lo8 c.edx
  dh : hi8 c'.edx = hi8 c.edx ^^^ 1#8
  mem : Changes (PassScratch labels c.sp.toNat c.edi.toNat count) c.mem c'.mem

variable {top : Word} {ra : BitVec 16} {length n dest k : Nat} {c : Cpu} {h : List Request}

theorem Loading.asked (bios : Bios) (setting : Setting labels top length n dest)
    (loading : Loading labels top ra length n dest k c) (more : k < n) :
    let count := share (lo8 c.ebx).toNat (n - k)
    ∃ asked, readSectors bios ⟨savePosition c, h⟩ = int13 bios ⟨asked, h⟩ ∧ Request.of asked = requestAt c count ∧
      1 ≤ count ∧ count ≤ 18 ∧ k + count ≤ n ∧ (lo8 asked.eax).toNat = count ∧
      asked.edx = c.edx ∧ asked.edi = c.edi ∧ Cpu.Pushed c { c with esp := asked.esp, mem := asked.mem }
        [lo16 c.ecx, lo16 c.ebx] := by
  intro count
  have low := setting.low
  have bound := setting.count
  obtain ⟨first, last⟩ := loading.sector
  have sp : c.sp.toNat = (lo16 top).toNat := by rw [Cpu.sp, loading.esp]
  have pushed : Cpu.Pushed c (savePosition c) [lo16 c.ecx, lo16 c.ebx] :=
    Cpu.pushed_foldl c [lo16 c.ebx, lo16 c.ecx] (by show 2 * 2 ≤ c.sp.toNat; omega)
  have regs := pushed.regs
  generalize savePosition c = saved at pushed regs ⊢
  have ebx : saved.ebx = c.ebx := by rw [regs]
  have ecx : saved.ecx = c.ecx := by rw [regs]
  have edx : saved.edx = c.edx := by rw [regs]
  have edi : saved.edi = c.edi := by rw [regs]
  obtain ⟨asked, call, asking⟩ := readSectors_spec bios ⟨saved, h⟩ (by rw [ebx]; exact last)
    (show (lo16 saved.ecx).toNat = n - k by rw [ecx]; exact loading.cx) (by omega)
  have al : (lo8 asked.eax).toNat = count := by rw [asking.count, ebx]
  have amount : 1 ≤ count ∧ count ≤ 18 ∧ k + count ≤ n := by
    show 1 ≤ share _ _ ∧ share _ _ ≤ 18 ∧ k + share _ _ ≤ n
    unfold share
    omega
  refine ⟨asked, call, ?_, amount.1, amount.2.1, amount.2.2, al, ?_, ?_, ?_⟩
  · have small : (lo8 asked.eax) = BitVec.ofNat 8 count := by
      apply BitVec.eq_of_toNat_eq
      rw [al, BitVec.toNat_ofNat]
      omega
    have cx : lo16 asked.ecx = lo16 c.ebx := by rw [asking.place, lo16_setLo16, ebx]
    obtain ⟨cl, ch⟩ := halves_eq cx
    have buffer : lo16 asked.ebx = 0x8000#16 := by rw [asking.buffer, lo16_setLo16]
    simp only [Request.of, requestAt, asking.function, small, ch, cl, asking.edx, edx, buffer]
  · rw [asking.edx, edx]
  · rw [asking.edi, edi]
  · rw [asking.esp, asking.mem, ← regs]
    exact pushed

theorem served_copied {asked served : Cpu} {count : Nat} {fuel : Nat} (teletype : Teletype bios.int10)
    (al : (lo8 asked.eax).toNat = count) (small : count ≤ 18) (room : 18 ≤ asked.sp.toNat) (stack : asked.sp.toNat ≤ 0x7c00)
    (buffer : Request.of asked = requestAt c count) (end_ : asked.edi.toNat + 512 * count < 2^32)
    (off : asked.edi.toNat + 512 * count ≤ 0x8000 ∨ 0xa400 ≤ asked.edi.toNat)
    (retrycntHigh : labels.retrycnt.toNat < 0x8000)
    (retrycntDot : labels.retrycnt.toNat < labels.dot.toNat ∨ labels.dot.toNat + length < labels.retrycnt.toNat)
    (dot : Message asked.mem labels.dot length) (done : Served asked served) (enough : length < fuel) :
    ∃ copied, okok bios labels fuel served = some (nextTrack (restorePosition copied)) ∧
      (lo8 copied.eax).toNat = count ∧ copied.edx = asked.edx ∧ copied.esp = asked.esp ∧
      copied.edi = asked.edi + BitVec.ofNat 32 (512 * count) ∧
      (∀ i < 512 * count, copied.mem (asked.edi + BitVec.ofNat 32 i) = served.mem (BitVec.ofNat 32 (0x8000 + i))) ∧
      Changes (PassScratch labels asked.sp.toNat asked.edi.toNat count) asked.mem copied.mem := by
  have dotLow := dot.low
  have dotHigh := dot.high
  have retrycnt : (labels.retrycnt.zeroExtend 32).toNat = labels.retrycnt.toNat := by
    have bound := labels.retrycnt.isLt
    rw [BitVec.zeroExtend, BitVec.toNat_setWidth]
    omega
  -- what the service leaves
  have first : Changes (PassScratch labels asked.sp.toNat asked.edi.toNat count) asked.mem served.mem := by
    apply done.mem.mono
    intro x changed
    unfold Buffer at changed
    rw [buffer] at changed
    have base : (requestAt c count).buffer.toNat = 0x8000 := rfl
    have sectors : (requestAt c count).count.toNat = count := by
      show (BitVec.ofNat 8 count).toNat = count
      rw [BitVec.toNat_ofNat]
      omega
    rcases changed with scratch | inside
    · exact Or.inl scratch
    · exact Or.inr (Or.inl (by omega))
  -- the counter is reloaded
  let marked : Cpu := { served with mem := served.mem.store8 (labels.retrycnt.zeroExtend 32) 3#8
                                    esi := setLo16 served.esi labels.dot }
  have second : Changes (PassScratch labels asked.sp.toNat asked.edi.toNat count) served.mem marked.mem := by
    apply (changes_store8 served.mem (labels.retrycnt.zeroExtend 32) 3#8).mono
    intro x same
    unfold PassScratch
    omega
  have markedSp : marked.sp = asked.sp := by
    show lo16 served.esp = lo16 asked.esp
    rw [done.regs.esp]
  have message : Message marked.mem (lo16 marked.esi) length := by
    show Message marked.mem (lo16 (setLo16 served.esi labels.dot)) length
    rw [lo16_setLo16]
    have kept := dot.kept done.mem (by
      intro x lower upper changed
      unfold Scratch Buffer at changed
      rw [buffer] at changed
      have base : (requestAt c count).buffer.toNat = 0x8000 := rfl
      omega)
    apply kept.kept (changes_store8 served.mem (labels.retrycnt.zeroExtend 32) 3#8)
    intro x lower upper same
    omega
  obtain ⟨printed, run, unprinted⟩ := print_spec teletype labels.dotPrinted message (by rw [markedSp]; exact stack)
    (by rw [markedSp]; exact room) enough
  have third : Changes (PassScratch labels asked.sp.toNat asked.edi.toNat count) marked.mem printed.mem := by
    apply unprinted.mem.mono
    intro x changed
    rw [markedSp] at changed
    exact Or.inl changed
  have printedAl : (lo8 printed.eax).toNat = count := by
    have same : (lo8 marked.eax).toNat = count := (congrArg BitVec.toNat done.count).trans al
    rw [(halves_eq unprinted.ax).1, same]
  have edi : printed.edi = asked.edi := unprinted.regs.edi.trans done.regs.edi
  have copy := copyTrack_spec printedAl small
  have fourth : Changes (PassScratch labels asked.sp.toNat asked.edi.toNat count) printed.mem (copyTrack printed).mem := by
    rw [copy.mem, edi]
    apply (changes_moveWords printed.mem asked.edi 0x8000#32 (128 * count) (by omega)).mono
    intro x inside
    unfold PassScratch
    omega
  refine ⟨copyTrack printed, ?_, ?_, ?_, ?_, ?_, ?_, ((first.trans second).trans third).trans fourth⟩
  · unfold okok
    simp only
    rw [run]
    rfl
  · rw [copy.eax]
    exact printedAl
  · exact copy.edx.trans (unprinted.regs.edx.trans done.regs.edx)
  · exact copy.esp.trans (unprinted.regs.esp.trans done.regs.esp)
  · rw [copy.edi, edi]
  · intro i h
    have source : (0x8000#32).toNat = 0x8000 := rfl
    rw [copy.mem, edi, moveWords_inside printed.mem asked.edi 0x8000#32 (128 * count) i (by omega) (by omega) (by omega)
      (by omega)]
    -- the buffer is not touched between the service and the copy
    have address : 0x8000#32 + BitVec.ofNat 32 i = BitVec.ofNat 32 (0x8000 + i) := by
      rw [BitVec.ofNat_add]
    rw [address]
    have place : (BitVec.ofNat 32 (0x8000 + i)).toNat = 0x8000 + i := toNat_ofNat_word (by omega)
    have before : printed.mem (BitVec.ofNat 32 (0x8000 + i)) = marked.mem (BitVec.ofNat 32 (0x8000 + i)) := by
      apply unprinted.mem
      rw [place, markedSp]
      unfold Scratch
      omega
    rw [before]
    apply changes_store8 served.mem (labels.retrycnt.zeroExtend 32) 3#8
    rw [place, retrycnt]
    omega

theorem restorePosition_pushed {asked copied : Cpu}
    (pushed : Cpu.Pushed c { c with esp := asked.esp, mem := asked.mem } [lo16 c.ecx, lo16 c.ebx])
    (room : asked.sp.toNat + 4 < 2^16) (esp : copied.esp = asked.esp)
    (kept : ∀ i < 2, copied.stackWord i = asked.stackWord i) :
    restorePosition copied =
      { copied with ecx := setLo16 copied.ecx (lo16 c.ecx), ebx := setLo16 copied.ebx (lo16 c.ebx), esp := c.esp } := by
  have sp : copied.sp = asked.sp := by rw [Cpu.sp, esp]; rfl
  have cx : copied.stackWord 0 = lo16 c.ecx := (kept 0 (by decide)).trans (pushed.word 0 (by simp))
  have bx : copied.stackWord 1 = lo16 c.ebx := (kept 1 (by decide)).trans (pushed.word 1 (by simp))
  have back : setLo16 copied.esp (copied.sp + 4#16) = c.esp := by
    have above : asked.sp.toNat + 4 = c.sp.toNat := pushed.sp
    have whole : copied.sp + 4#16 = c.sp := by
      apply BitVec.eq_of_toNat_eq
      rw [sp, BitVec.toNat_add, BitVec.toNat_ofNat]
      omega
    rw [esp, whole, show setLo16 asked.esp c.sp = setLo16 c.esp c.sp from pushed.high _]
    exact setLo16_lo16 c.esp
  rw [restorePosition_eq copied (by rw [sp]; exact room), cx, bx, back]

/-- What holds at `load_floppy` again, after a pass that changed memory only where it may. -/
theorem Loading.advance (setting : Setting labels top length n dest) (loading : Loading labels top ra length n dest k c)
    {c' : Cpu} {count : Nat} (fits : k + count ≤ n) (esp : c'.esp = c.esp) (cx : (lo16 c'.ecx).toNat = n - k - count)
    (edi : c'.edi = c.edi + BitVec.ofNat 32 (512 * count)) (bl : lo8 c'.ebx = 1#8)
    (changes : Changes (PassScratch labels c.sp.toNat c.edi.toNat count) c.mem c'.mem) :
    Loading labels top ra length n dest (k + count) c' := by
  have high := setting.high
  have bound := setting.bound
  have stack := setting.stack
  have dotDest := setting.dot
  have retrycntLow := setting.retrycntLow
  have retrycntDot := setting.retrycntDot
  have dotLow := loading.dot.low
  have dotHigh := loading.dot.high
  have before := loading.edi
  have sp : c.sp.toNat = (lo16 top).toNat := by rw [Cpu.sp, loading.esp]
  constructor
  case esp => exact esp.trans loading.esp
  case cx =>
    rw [cx]
    omega
  case edi =>
    rw [edi, BitVec.toNat_add, BitVec.toNat_ofNat]
    omega
  case sector =>
    rw [bl]
    decide
  case returnAddress =>
    have kept := Cpu.stackWord_kept changes esp 0 (by omega) (by
      intro x lower upper changed
      unfold PassScratch Scratch at changed
      omega)
    exact kept.trans loading.returnAddress
  case dot =>
    apply loading.dot.kept changes
    intro x lower upper changed
    unfold PassScratch Scratch at changed
    omega

theorem Loading.pass {fuel : Nat} (teletype : Teletype bios.int10) (setting : Setting labels top length n dest)
    (loading : Loading labels top ra length n dest k c) (more : k < n)
    (served : ∀ asked, Request.of asked = requestAt c (share (lo8 c.ebx).toNat (n - k)) →
      Served asked (bios.int13 h asked)) (enough : length < fuel) :
    let count := share (lo8 c.ebx).toNat (n - k)
    ∃ asked c', readSectors bios ⟨savePosition c, h⟩ = int13 bios ⟨asked, h⟩ ∧ Request.of asked = requestAt c count ∧
      1 ≤ count ∧ count ≤ 18 ∧ k + count ≤ n ∧
      okok bios labels fuel (bios.int13 h asked) = some (decide (k + count < n), c') ∧
      Loading labels top ra length n dest (k + count) c' ∧ Passed labels c (bios.int13 h asked) c' count := by
  intro count
  have low := setting.low
  have high := setting.high
  have bound := setting.bound
  have stack := setting.stack
  have buffer := setting.buffer
  have retrycntLow := setting.retrycntLow
  have dotLow := loading.dot.low
  have edi := loading.edi
  have sp : c.sp.toNat = (lo16 top).toNat := by rw [Cpu.sp, loading.esp]
  obtain ⟨asked, call, request, some, small, fits, al, edx, askedEdi, pushed⟩ := loading.asked bios setting more
  have askedSp : asked.sp.toNat + 4 = c.sp.toNat := pushed.sp
  have pushes : Changes (fun x => asked.sp.toNat ≤ x ∧ x < c.sp.toNat) c.mem asked.mem := pushed.mem
  have message : Message asked.mem labels.dot length := by
    apply loading.dot.kept pushes
    intro x lower upper inside
    omega
  obtain ⟨copied, run, copiedAl, copiedEdx, copiedEsp, copiedEdi, data, changes⟩ := served_copied teletype al small
    (by omega) (by omega) request (by rw [askedEdi]; omega) (by rw [askedEdi]; omega) setting.retrycntHigh
    setting.retrycntDot message (served asked request) enough
  rw [askedEdi] at data changes copiedEdi
  have restored := restorePosition_pushed pushed (by omega) copiedEsp fun i two => by
    apply Cpu.stackWord_kept changes copiedEsp i (by omega)
    intro x lower upper changed
    unfold PassScratch Scratch at changed
    omega
  have back : (restorePosition copied).esp = c.esp := by rw [restored]
  have cx : (lo16 (restorePosition copied).ecx).toNat = n - k := by
    rw [restored]
    exact (congrArg BitVec.toNat (lo16_setLo16 _ _)).trans loading.cx
  have bh : hi8 (restorePosition copied).ebx = hi8 c.ebx := by
    rw [restored]
    exact (halves_eq (lo16_setLo16 _ _)).2
  have restoredMem : (restorePosition copied).mem = copied.mem := by rw [restored]
  have restoredEdx : (restorePosition copied).edx = c.edx := by
    rw [restored]
    exact copiedEdx.trans edx
  have restoredEdi : (restorePosition copied).edi = c.edi + BitVec.ofNat 32 (512 * count) := by
    rw [restored]
    exact copiedEdi
  have restoredEax : (lo8 (restorePosition copied).eax).toNat = count := by
    rw [restored]
    exact copiedAl
  generalize restorePosition copied = saved at run back bh cx restoredMem restoredEdx restoredEdi restoredEax
  have countBound := setting.count
  obtain ⟨taken, stepped⟩ := nextTrack_spec restoredEax cx (by omega) (by omega)
  have all : Changes (PassScratch labels c.sp.toNat c.edi.toNat count) c.mem (nextTrack saved).2.mem := by
    rw [stepped.mem, restoredMem]
    apply (pushes.mono fun x inside => Or.inl (Or.inl inside.2)).trans
    apply changes.mono
    rintro x (scratch | other)
    · left
      unfold Scratch at scratch
      show x < c.sp.toNat ∨ _
      omega
    · exact Or.inr other
  refine ⟨asked, (nextTrack saved).2, call, request, some, small, fits, ?_, ?_, ?_⟩
  · rw [run]
    congr 1
    apply Prod.ext
    · rw [taken]
      congr 1
      apply propext
      omega
    · rfl
  · exact loading.advance setting fits (stepped.esp.trans back) stepped.cx (stepped.edi.trans restoredEdi) stepped.bl all
  · constructor
    case data =>
      intro i inside
      rw [stepped.mem, restoredMem]
      exact data i inside
    case bl => exact stepped.bl
    case bh => rw [stepped.bh, bh]
    case dl => rw [stepped.dl, restoredEdx]
    case dh => rw [stepped.dh, restoredEdx]
    case mem => exact all

end

end ThreeX86.Boot
