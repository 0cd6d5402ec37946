import ThreeX86.Boot.Handover
import ThreeX86.Tasks.BootStack

/-!
From a disk with the image of `makeflop` to `_start_c`: what the kernel's first C function finds in memory and gets as arguments.
-/

namespace ThreeX86.Boot

open Machine Machine.Memory Tasks

/-! ### `_start` -/

section

variable {g : BootLayout} {c : Cpu}

/-- The words that `_start` pushes. -/
def InTop (g : BootLayout) (x : Nat) : Prop := g.idleStack.toNat + 488 ≤ x ∧ x < g.idleStack.toNat + 512

/-- `_start` clears the bss and pushes its arguments and a return address on the idle stack. -/
theorem start_changes (room : g.idleStack.toNat + 512 ≤ 2^32) (c : Cpu) :
    Changes (InTop g) (c.mem.fillBytes g.bssStart 0#8 (g.bssEnd - g.bssStart).toNat) (g.start c).mem := by
  have slot {m : Memory} {v : Word} (k : Nat) (low : 488 ≤ k) (high : k + 4 ≤ 512) :
      Changes (InTop g) m (m.store32 (g.idleStack + BitVec.ofNat 32 k) v) := by
    have address : (g.idleStack + BitVec.ofNat 32 k).toNat = g.idleStack.toNat + k := toNat_add_word (by omega)
    apply (changes_store32 m _ v (by omega)).mono
    intro x inside
    unfold InTop
    omega
  unfold BootLayout.start sizeofIdleStack
  simp only [Cpu.call, Cpu.push32, BitVec.sub_eq_add_neg, BitVec.add_assoc, BitVec.reduceNeg, BitVec.reduceAdd,
    show lo8 0#32 = 0#8 from rfl]
  exact (slot 508 (by decide) (by decide)).trans ((slot 504 (by decide) (by decide)).trans ((slot 500 (by decide) (by decide)).trans
    ((slot 496 (by decide) (by decide)).trans ((slot 492 (by decide) (by decide)).trans (slot 488 (by decide) (by decide))))))

end

/-! ### From the disk to `_start_c` -/

/-- The linker puts the bss behind all that is in the kernel's file, and the idle stack in it. -/
structure Linked (g : BootLayout) (payload : List Byte) : Prop where
  separate : g.Separate
  image : 0x100000 + payload.length ≤ g.bssStart.toNat
  order : g.bssStart.toNat ≤ g.bssEnd.toNat
  idleStack : g.bssStart.toNat ≤ g.idleStack.toNat
  idleStackEnd : g.idleStack.toNat + 512 ≤ g.bssEnd.toNat

/-- The services that the boot block calls, on a disk with this image. -/
structure Firmware (bios : Bios) (image : List Byte) (answers : List MapAnswer) : Prop where
  teletype : Teletype bios.int10
  reads : ReadsDisk bios.int13 fun i => image.getD i 0#8
  finished : Finished answers
  sizes : ∀ answer ∈ answers, answer.bytes.length ≤ 32
  fits : Fits answers

/-- The memory is fitted up to `size`, which is enough for the sectors of the kernel and for its bss. -/
structure RamFitted (g : BootLayout) (payload : List Byte) (size : Nat) (m : Memory) : Prop where
  kernel : 0x100000 + 512 * sectorsOf payload ≤ size
  bss : g.bssEnd.toNat ≤ size
  bound : size + 12 < 2^32
  floats : Floats (· < size) m (probedPages size)

/-- What `_start_c` finds: its arguments, the memory map, the kernel with its bss cleared, and flat segments. -/
structure Started (g : BootLayout) (payload : List Byte) (answers : List MapAnswer) (size : Nat) (c : Cpu) (gdtr : TablePointer) :
    Prop where
  eip : c.eip = g.startC
  mem : c.mem.load32 (c.esp + 4#32) = if entries answers = [] then BitVec.ofNat 32 (probedSize size) else 0#32
  extMemBlock : c.mem.load32 (c.esp + 8#32) = 0x7000#32
  extMemCount : c.mem.load32 (c.esp + 12#32) = BitVec.ofNat 32 (entries answers).length
  inVesa : c.mem.load32 (c.esp + 16#32) = 0#32
  vesaPtr : c.mem.load32 (c.esp + 20#32) = 0#32
  entries : ∀ i entry, (entries answers)[i]? = some entry → BytesAt c.mem (entryAddress i) entry.bytes
  kernel : ∀ i < payload.length, c.mem (BitVec.ofNat 32 (0x100000 + i)) = payload.getD i 0#8
  bss : ∀ x : Word, g.bssStart.toNat ≤ x.toNat → x.toNat < g.bssEnd.toNat → ¬ InTop g x.toNat → c.mem x = 0#8
  code : loadSegment c.mem (gdtr.entry 1) = ⟨0#32, 0xfffff#20, true, 0b11010#5, 0#2, true⟩
  data : loadSegment c.mem (gdtr.entry 2) = ⟨0#32, 0xfffff#20, true, 0b10010#5, 0#2, true⟩
  wide : (c.mem (gdtr.entry 1 + 6#32)).getLsbD 6 = true ∧ (c.mem (gdtr.entry 2 + 6#32)).getLsbD 6 = true

section

variable {host : Host} {boot payload : List Byte} {l : BlockLabels} {g : BootLayout} {answers : List MapAnswer} {size n : Nat}
  {c c' : Cpu} {m : Memory} {fuel : Nat}

theorem probed_present (size : Nat) :
    ∀ j < probedPages size, ∀ i < 4, (probed j + BitVec.ofNat 32 i).toNat < size := by
  intro j inside i small
  unfold probedPages at inside
  rw [probed, BitVec.toNat_add, BitVec.toNat_ofNat, BitVec.toNat_ofNat]
  omega

theorem probedSize_eq (enough : 0x100000 ≤ size) : 0x100000 + 0x1000 * probedPages size = probedSize size := by
  unfold probedPages probedSize
  omega

/-- The call and `_start` leave what lies below the kernel's bss as it is, the boot block's stack apart. -/
theorem start_quiet (linked : Linked g payload) (called : Called answers n c c') (target returnAddress : Word) :
    Changes (fun x => BootStack x ∨ (0x100000 + payload.length ≤ x ∧ x < g.bssEnd.toNat)) c.mem
      (g.start (c'.call target returnAddress)).mem := by
  have image := linked.image
  have order := linked.order
  have idleStack := linked.idleStack
  have idleStackEnd := linked.idleStackEnd
  have bssEnd := g.bssEnd.isLt
  have length : (g.bssEnd - g.bssStart).toNat = g.bssEnd.toNat - g.bssStart.toNat := by
    rw [BitVec.toNat_sub]
    omega
  have pushes : Changes BootStack c'.mem (c'.call target returnAddress).mem := by
    show Changes BootStack c'.mem (c'.mem.store32 (c'.esp - 4#32) returnAddress)
    rw [called.esp]
    exact changes_bootStack _ _ _ (by decide) (by decide)
  have cleared := changes_fillBytes (c'.call target returnAddress).mem g.bssStart 0#8 (g.bssEnd - g.bssStart).toNat (by omega)
  have started := start_changes linked.separate.idleStack (c'.call target returnAddress)
  refine ((called.changes.trans pushes).mono fun x inside => .inl inside).trans
    ((cleared.mono fun x inside => .inr (by omega)).trans (started.mono fun x inside => .inr ?_))
  unfold InTop at inside
  omega

/-- The kernel's first instructions, on the arguments that the boot block has pushed. -/
theorem start_spec (linked : Linked g payload) (assembled : l.Assembled boot) (finished : Finished answers) (fits : Fits answers)
    (ram : 0x100000 ≤ size) (entered : Entered l answers c.mem) (called : Called answers (probedPages size) c c')
    (kernel : ∀ i < payload.length, c.mem (BitVec.ofNat 32 (0x100000 + i)) = payload.getD i 0#8) (target returnAddress : Word) :
    Started g payload answers size (g.start (c'.call target returnAddress)) ⟨0xffff#16, l.gdt⟩ := by
  have separate := linked.separate
  have image := linked.image
  have order := linked.order
  have idleStack := linked.idleStack
  have idleRoom := separate.idleStack
  have bssEnd := g.bssEnd.isLt
  have length : (g.bssEnd - g.bssStart).toNat = g.bssEnd.toNat - g.bssStart.toNat := by
    rw [BitVec.toNat_sub]
    omega
  have esp : (c'.call target returnAddress).esp = 0xffe8#32 := by
    show c'.esp - 4#32 = _
    rw [called.esp]
    rfl
  have top : (0xffe8#32 : Word).toNat = 0xffe8 := rfl
  have cleared := changes_fillBytes (c'.call target returnAddress).mem g.bssStart 0#8 (g.bssEnd - g.bssStart).toNat (by omega)
  have started := start_changes idleRoom (c'.call target returnAddress)
  have argument (k : Nat) (low : 4 ≤ k) (high : k + 4 ≤ 24) :
      ((c'.call target returnAddress).mem.fillBytes g.bssStart 0#8 (g.bssEnd - g.bssStart).toNat).load32
        ((c'.call target returnAddress).esp + BitVec.ofNat 32 k) = c'.mem.load32 (0xffe8#32 + BitVec.ofNat 32 k) := by
    have place : (0xffe8#32 + BitVec.ofNat 32 k).toNat = 0xffe8 + k := toNat_add_word (by omega)
    rw [esp, cleared.load32 (by omega) fun i small inside => by omega]
    show (c'.mem.store32 (c'.esp - 4#32) returnAddress).load32 _ = _
    rw [called.esp]
    exact load32_store32_apart c'.mem returnAddress (by decide) (by omega) (by left; show 0xffe8 + 4 ≤ _; omega)
  obtain ⟨-, mem, extMemBlock, extMemCount, inVesa, vesaPtr⟩ := BootLayout.start_arguments (c := c'.call target returnAddress)
    separate rfl (by rw [esp]; decide) (by rw [esp, top]; omega)
  have quiet := start_quiet linked called target returnAddress
  have entered' := entered.kept assembled finished fits quiet fun x low high inside => by unfold BootStack at inside; omega
  constructor
  case eip => rfl
  case mem =>
    rw [mem, argument 4 (by decide) (by decide), ← probedSize_eq ram]
    exact called.mem
  case extMemBlock => rw [extMemBlock, argument 8 (by decide) (by decide)]; exact called.extMemBlock
  case extMemCount => rw [extMemCount, argument 12 (by decide) (by decide)]; exact called.extMemCount
  case inVesa => rw [inVesa, argument 16 (by decide) (by decide)]; exact called.inVesa
  case vesaPtr => rw [vesaPtr, argument 20 (by decide) (by decide)]; exact called.vesaPtr
  case entries => exact entered'.entries
  case kernel =>
    intro i inside
    have place : (BitVec.ofNat 32 (0x100000 + i)).toNat = 0x100000 + i := toNat_ofNat_word (by omega)
    rw [← kernel i inside]
    exact quiet _ (by unfold BootStack; omega)
  case bss =>
    intro x low high off
    rw [started x off]
    have byte := fillBytes_inside (c'.call target returnAddress).mem g.bssStart 0#8 (g.bssEnd - g.bssStart).toNat
      (offset g.bssStart x) (by rw [offset_of_le low]; omega) (by omega)
    rwa [add_offset] at byte
  case code => exact entered'.code
  case data => exact entered'.data
  case wide =>
    have wide := entered'.wide
    have code : (⟨0xffff#16, l.gdt⟩ : TablePointer).entry 1 + 6#32 = l.gdt + 14#32 := by
      rw [TablePointer.entry, BitVec.add_assoc]
      rfl
    have data : (⟨0xffff#16, l.gdt⟩ : TablePointer).entry 2 + 6#32 = l.gdt + 22#32 := by
      rw [TablePointer.entry, BitVec.add_assoc]
      rfl
    rw [code, data]
    exact wide

/-- On a machine whose firmware reads the floppy and has room for its memory map, the image that `makeflop` writes ends up with
    `_start_c` running on the whole kernel and on what the boot block has found out about the memory, and nothing is changed
    where no memory is fitted. -/
theorem boot_starts {bios : Bios} (succeeds : Succeeds host boot payload) (assembled : l.Assembled boot) (linked : Linked g payload)
    (options : Options) (vesa : options.enableVesa = false) (padding : options.padding < 2^31) (some : 0 < payload.length)
    (sectors : payload.length ≤ 2878 * 512) (firmware : Firmware bios (makeflop host options).2.image answers)
    (ram : RamFitted g payload size c.mem) (stack : c.sp = 0x7c00#16)
    (sector : BootSector l.toLabels (makeflop host options).2.image c.mem) (cr0 : Word) :
    ∃ enough, ∀ fuel ≥ enough, ∃ c' gdtr, bootBlock l bios answers cr0 (· < size) fuel c = Option.some (c', gdtr) ∧
      c'.eip = kernelBase ∧ Started g payload answers size (g.start c') gdtr ∧
      Changes (fun x => x < size) c.mem (g.start c').mem := by
  have image := (makeflop_image succeeds assembled.size (by omega) options vesa (by omega)).2
  have room := ram.kernel
  have bound := ram.bound
  have bss := ram.bss
  have few := firmware.fits.2
  refine ⟨sectorsOf payload + probedPages size + 9, ?_⟩
  intro fuel enough
  obtain ⟨first, rest, ranFirst, eipFirst, ranRest, loads⟩ := loads_spec assembled image (blocks_eq sectors) (by omega) (by omega)
    firmware.teletype firmware.reads stack sector (show (payload.length + 511) / 512 + 8 < fuel by unfold sectorsOf at enough; omega)
  have sp : rest.cpu.sp = 0x7c00#16 := by rw [Cpu.sp, loads.esp]; exact stack
  have booted := loads.booted
  rw [image] at booted
  obtain ⟨shown, s, disabled, prints, collects, back, collected, changes⟩ := collects_spec assembled booted sp firmware.teletype
    firmware.finished firmware.sizes firmware.fits (show 4 < fuel by omega)
  obtain ⟨esp, table, entered, switched⟩ := enterProtected_spec assembled collected firmware.finished firmware.fits cr0
  have low : Changes (fun x => x < 0x100000) rest.cpu.mem (enterProtected l cr0 s.cpu).1.mem :=
    changes.trans (switched.mono fun x inside => by omega)
  have before : Changes (fun x => x < 0x100000 + 512 * ((payload.length + 511) / 512)) c.mem (enterProtected l cr0 s.cpu).1.mem :=
    loads.mem.trans (low.mono fun x inside => by omega)
  have floats : Floats (· < size) (enterProtected l cr0 s.cpu).1.mem (probedPages size) := by
    apply ram.floats.kept (by unfold probedPages; omega) before
    intro x _ absent inside
    unfold sectorsOf at room
    omega
  obtain ⟨c', pushes, called⟩ := pushArguments_spec assembled entered few esp (by unfold probedPages; omega) (probed_present size)
    floats (show probedPages size < fuel by omega)
  have kernel : ∀ i < payload.length, (enterProtected l cr0 s.cpu).1.mem (BitVec.ofNat 32 (0x100000 + i)) = payload.getD i 0#8 := by
    intro i inside
    have place : (BitVec.ofNat 32 (0x100000 + i)).toNat = 0x100000 + i := toNat_ofNat_word (by omega)
    have patched : (patchSize boot payload.length).length = 1024 := by rw [patchSize_length, assembled.size]
    rw [low _ (by omega), loads.kernel i (by omega), image, List.append_assoc, List.getD_eq_getElem?_getD,
      List.getD_eq_getElem?_getD, List.getElem?_append_right (by omega), patched, Nat.add_sub_cancel_left,
      List.getElem?_append_left inside]
  refine ⟨{ c' with ebx := kernelBase }.call kernelBase l.inf, ⟨0xffff#16, l.gdt⟩, ?_, rfl, ?_⟩
  · unfold bootBlock
    simp only [ranFirst, Exit.returned, eipFirst, ranRest, loads.eip, disabled, prints, collects, back, table, pushes,
      Option.bind_eq_bind, Option.bind_some, if_true]
    rfl
  · have called' : Called answers (probedPages size) (enterProtected l cr0 s.cpu).1 { c' with ebx := kernelBase } := by
      constructor
      case esp => exact called.esp
      case mem => exact called.mem
      case extMemBlock => exact called.extMemBlock
      case extMemCount => exact called.extMemCount
      case inVesa => exact called.inVesa
      case vesaPtr => exact called.vesaPtr
      case changes => exact called.changes
    refine ⟨start_spec linked assembled firmware.finished firmware.fits (by omega) entered called' kernel kernelBase l.inf, ?_⟩
    refine (before.mono fun x inside => ?_).trans ((start_quiet linked called' kernelBase l.inf).mono fun x inside => ?_)
    · unfold sectorsOf at room
      omega
    · unfold BootStack at inside
      omega

end

/-! A boot block of nothing but its data section, a kernel of one byte, and 2 MB of memory that the firmware does not describe. -/

def bareLabels : BlockLabels where
  data := 0x7d00#16
  firstLoaded := 0x7c10#16
  loadmsgPrinted := 0x7c12#16
  errormsgPrinted := 0x7c14#16
  dotPrinted := 0x7c16#16
  loaded := 0x7c18#16
  motorDisabled := 0x7c1a#16
  okmsgPrinted := 0x7c1c#16
  mapCollected := 0x7c1e#16
  probeReturn := 0x7c20#32
  inf := 0x7c22#32

def bareBoot : List Byte := (List.range 1024).map fun i => bareLabels.dataSection.getD (i - 0x100) 0#8

theorem bareBoot_assembled : bareLabels.Assembled bareBoot := by
  constructor
  case size => rw [bareBoot, List.length_map, List.length_range]
  case low => decide
  case high => decide
  case bytes =>
    intro i inside
    have place : bareLabels.data.toNat - 0x7c00 = 0x100 := by decide
    rw [place, bareBoot, List.getD_eq_getElem?_getD, List.getElem?_map, List.getElem?_range (by omega),
      Option.map_some, Option.getD_some, Nat.add_sub_cancel_left]

def bareHost : Host := hostOf bareBoot [[7#8]]

theorem bareHost_succeeds : Succeeds bareHost bareBoot [7#8] := hostOf_succeeds bareBoot (by decide)

def bareLayout : BootLayout where
  bssStart := 0x100004#32
  bssEnd := 0x101000#32
  idleStack := 0x100400#32
  idleTask := 0x100800#32
  currentTask := 0x100900#32
  runQueue := 0x100904#32
  taskTrampoline := 0x100000#32
  startC := 0x100002#32
  returnAddress := 0x100003#32

theorem bareLayout_linked : Linked bareLayout [7#8] := by
  constructor
  case separate =>
    constructor
    case apart =>
      intro x variable_ stack
      unfold BootLayout.Variable bareLayout at variable_
      unfold BootLayout.InIdleStack bareLayout at stack
      simp only [BitVec.toNat_ofNat] at variable_ stack
      omega
    all_goals decide
  all_goals decide

def bareImage : List Byte := (makeflop bareHost smallOptions).2.image

def bareCpu : Cpu := { smallCpu with mem := fun x => if x.toNat < 0x8000 then bareImage.getD (x.toNat - bootBase) 0#8 else 0#8 }

/-- The firmware has no memory map. -/
def noMap : List MapAnswer := [⟨true, 0#32, 0#32, 0#32, 0#32, []⟩]

theorem bare_firmware : Firmware ⟨id, diskService fun i => bareImage.getD i 0#8⟩ bareImage noMap := by
  constructor
  case teletype => exact id_teletype
  case reads => exact diskService_readsDisk fun i => bareImage.getD i 0#8
  case finished => simp [Finished, noMap]
  case sizes => simp [noMap]
  case fits =>
    constructor
    · intro i answer at_ some_
      obtain rfl := List.mem_singleton.mp (List.mem_of_getElem? at_)
      exact absurd rfl some_
    · decide

theorem bare_ram : RamFitted bareLayout [7#8] 0x200000 bareCpu.mem := by
  constructor
  case kernel => decide
  case bss => decide
  case bound => decide
  case floats => exact ⟨0, by decide, by decide, by decide⟩

theorem bare_sector : BootSector bareLabels.toLabels bareImage bareCpu.mem := by
  intro i inside other
  have place : (BitVec.ofNat 32 (bootBase + i)).toNat = bootBase + i := toNat_ofNat_word (by unfold bootBase; omega)
  show (if _ then _ else _) = _
  rw [place, if_pos (by unfold bootBase; omega), Nat.add_sub_cancel_left]

/-- The probe has found the 2 MB. -/
theorem boot_starts_bare : ∃ enough, ∀ fuel ≥ enough, ∃ c' gdtr,
    bootBlock bareLabels ⟨id, diskService fun i => bareImage.getD i 0#8⟩ noMap 0x10#32 (· < 0x200000) fuel bareCpu =
      some (c', gdtr) ∧
    c'.eip = 0x100000#32 ∧ Started bareLayout [7#8] noMap 0x200000 (bareLayout.start c') gdtr ∧
    Changes (fun x => x < 0x200000) bareCpu.mem (bareLayout.start c').mem :=
  boot_starts bareHost_succeeds bareBoot_assembled bareLayout_linked smallOptions rfl (by decide) (by decide) (by decide)
    bare_firmware bare_ram rfl bare_sector 0x10#32

end ThreeX86.Boot
