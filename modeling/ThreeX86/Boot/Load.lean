import ThreeX86.Boot.Makeflop
import ThreeX86.Boot.Passes

/-!
From the image that `makeflop` writes to the memory that the boot block loads.
-/

namespace ThreeX86.Boot

open Machine Machine.Memory

section

variable {bios : Bios} {labels : Labels} {top : Word} {ra : BitVec 16} {length n dest k : Nat} {c : Cpu}
  {h : List Request}

theorem Loading.tryagain {fuel : Nat} (teletype : Teletype bios.int10) (setting : Setting labels top length n dest)
    (loading : Loading labels top ra length n dest k c) (more : k < n)
    (served : ∀ asked, Request.of asked = requestAt c (share (lo8 c.ebx).toNat (n - k)) →
      Served asked (bios.int13 h asked)) (enough : length < fuel) :
    let count := share (lo8 c.ebx).toNat (n - k)
    ∃ asked c', Request.of asked = requestAt c count ∧ 1 ≤ count ∧ count ≤ 18 ∧ k + count ≤ n ∧
      Loading labels top ra length n dest (k + count) c' ∧ Passed labels c (bios.int13 h asked) c' count ∧
      Boot.tryagain bios labels (fuel + 1) ⟨savePosition c, h⟩ =
        if k + count < n then Boot.tryagain bios labels fuel ⟨savePosition c', h ++ [requestAt c count]⟩
        else some (.ret ⟨c'.ret16, h ++ [requestAt c count]⟩) := by
  intro count
  obtain ⟨asked, c', call, request, some, small, fits, run, next, passed⟩ :=
    loading.pass teletype setting more served enough
  refine ⟨asked, c', request, some, small, fits, next, passed, ?_⟩
  have success := (served asked request).success
  have state : readSectors bios ⟨savePosition c, h⟩ = ⟨bios.int13 h asked, h ++ [requestAt c count]⟩ := by
    rw [call, ← request]
    rfl
  rw [Boot.tryagain]
  simp only [state, success, run, Bool.false_eq_true, if_false, decide_eq_true_eq]
  rfl

/-! ### Sectors in order -/

/-- `k` sectors from sector `start` on are loaded, and the position is behind them. -/
structure Contents (disk : Nat → Byte) (start n dest k : Nat) (c : Cpu) (requests : List Request) : Prop where
  drive : lo8 c.edx = 0#8
  head : (hi8 c.edx).toNat < 2
  position : k < n → ((hi8 c.ebx).toNat * 2 + (hi8 c.edx).toNat) * 18 + (lo8 c.ebx).toNat = start + k + 1
  loaded : ∀ i < 512 * k, c.mem (BitVec.ofNat 32 (dest + i)) = disk (512 * start + i)
  sectors : requests.flatMap Request.sectors = List.range' start k
  within : ∀ r ∈ requests, r.WithinTrack

theorem head_toggle {dh : Byte} (h : dh.toNat < 2) : (dh ^^^ 1#8).toNat = 1 - dh.toNat := by
  have cases : dh = 0#8 ∨ dh = 1#8 := by
    rcases (show dh.toNat = 0 ∨ dh.toNat = 1 by omega) with zero | one
    · exact Or.inl (BitVec.eq_of_toNat_eq zero)
    · exact Or.inr (BitVec.eq_of_toNat_eq one)
  rcases cases with rfl | rfl <;> rfl

theorem Contents.request {disk : Nat → Byte} {start : Nat} (loading : Loading labels top ra length n dest k c)
    (contents : Contents disk start n dest k c h) (more : k < n) (fits : start + n ≤ 2880) :
    let r := requestAt c (share (lo8 c.ebx).toNat (n - k))
    r.WithinTrack ∧ r.lba = start + k ∧ r.count.toNat = share (lo8 c.ebx).toNat (n - k) := by
  obtain ⟨first, last⟩ := loading.sector
  have position := contents.position more
  have head := contents.head
  have count : (BitVec.ofNat 8 (share (lo8 c.ebx).toNat (n - k))).toNat = share (lo8 c.ebx).toNat (n - k) := by
    unfold share
    rw [BitVec.toNat_ofNat]
    omega
  refine ⟨?_, ?_, count⟩
  · constructor
    case function => rfl
    case drive => exact contents.drive
    case cylinder =>
      show (hi8 c.ebx).toNat < 80
      omega
    case head => exact head
    case first => exact first
    case some =>
      show 1 ≤ (BitVec.ofNat 8 _).toNat
      rw [count]
      unfold share
      omega
    case last =>
      show (lo8 c.ebx).toNat + (BitVec.ofNat 8 _).toNat ≤ 19
      rw [count]
      unfold share
      omega
  · show ((hi8 c.ebx).toNat * 2 + (hi8 c.edx).toNat) * 18 + (lo8 c.ebx).toNat - 1 = start + k
    omega

theorem Contents.pass {disk : Nat → Byte} {start count : Nat} {asked served c' : Cpu}
    (setting : Setting labels top length n dest) (loading : Loading labels top ra length n dest k c)
    (contents : Contents disk start n dest k c h) (more : k < n) (fits : start + n ≤ 2880) (high : 0x100000 ≤ dest)
    (amount : count = share (lo8 c.ebx).toNat (n - k)) (request : Request.of asked = requestAt c count)
    (delivered : Delivered disk asked served) (passed : Passed labels c served c' count) :
    Contents disk start n dest (k + count) c' (h ++ [requestAt c count]) := by
  have room := contents.request loading more fits
  rw [← amount] at room
  obtain ⟨within, lba, sectors⟩ := room
  obtain ⟨first, last⟩ := loading.sector
  have edi := loading.edi
  have bound := setting.bound
  have position := contents.position more
  have head := contents.head
  have toggled := head_toggle head
  have stackHigh := setting.high
  have retrycntHigh := setting.retrycntHigh
  have sp : c.sp.toNat = (lo16 top).toNat := by rw [Cpu.sp, loading.esp]
  have share : count ≤ 19 - (lo8 c.ebx).toNat ∧ k + count ≤ n ∧ (k + count < n → count = 19 - (lo8 c.ebx).toNat) := by
    unfold share at amount
    omega
  obtain ⟨small, enough, full⟩ := share
  constructor
  case drive => rw [passed.dl, contents.drive]
  case head =>
    rw [passed.dh, toggled]
    omega
  case position =>
    intro rest
    have whole := full rest
    have one : (1#8).toNat = 1 := rfl
    rw [passed.bl, passed.bh, passed.dh, one, toggled]
    by_cases second : hi8 c.edx ^^^ 1#8 ≠ 0#8
    · have side : (hi8 c.edx).toNat = 0 := by
        by_contra odd
        apply second
        apply BitVec.eq_of_toNat_eq
        rw [toggled, BitVec.toNat_ofNat]
        omega
      rw [if_pos second]
      omega
    · have side : (hi8 c.edx).toNat = 1 := by
        have zero := congrArg BitVec.toNat (not_not.mp second)
        rw [toggled, BitVec.toNat_ofNat] at zero
        omega
      have cylinder : (hi8 c.ebx + 1#8).toNat = (hi8 c.ebx).toNat + 1 := by
        rw [BitVec.toNat_add, BitVec.toNat_ofNat]
        omega
      rw [if_neg second, cylinder]
      omega
  case loaded =>
    intro i inside
    by_cases old : i < 512 * k
    · rw [← contents.loaded i old]
      apply passed.mem
      rw [toNat_ofNat_word (by omega)]
      unfold PassScratch Scratch
      omega
    · have new := passed.data (i - 512 * k) (by omega)
      have address : c.edi + BitVec.ofNat 32 (i - 512 * k) = BitVec.ofNat 32 (dest + i) := by
        apply BitVec.eq_of_toNat_eq
        rw [BitVec.toNat_add, BitVec.toNat_ofNat, BitVec.toNat_ofNat]
        omega
      have buffer := delivered.data (i - 512 * k) (by rw [request, sectors]; omega)
      rw [request, lba] at buffer
      rw [← address, new]
      refine Eq.trans buffer ?_
      congr 1
      omega
  case sectors =>
    have last : (requestAt c count).sectors = List.range' (start + k) count := by
      unfold Request.sectors
      rw [lba, sectors]
    rw [List.flatMap_append, contents.sectors, List.flatMap_singleton, last]
    exact List.range'_append_1
  case within =>
    intro r member
    rcases List.mem_append.mp member with member | member
    · exact contents.within r member
    · rw [List.mem_singleton.mp member]
      exact within

theorem Contents.run {disk : Nat → Byte} {start : Nat} (teletype : Teletype bios.int10)
    (reads : ReadsDisk bios.int13 disk) (setting : Setting labels top length n dest) (fits : start + n ≤ 2880)
    (high : 0x100000 ≤ dest) (left : Nat) : ∀ {k : Nat} {c : Cpu} {h : List Request} {fuel : Nat},
      n - k = left → k < n → Loading labels top ra length n dest k c → Contents disk start n dest k c h →
      left + length < fuel →
      ∃ c' requests, Boot.tryagain bios labels fuel ⟨savePosition c, h⟩ = some (.ret ⟨c'.ret16, requests⟩) ∧
        Loading labels top ra length n dest n c' ∧ Contents disk start n dest n c' requests := by
  induction left using Nat.strong_induction_on with
  | h left ih =>
    intro k c h fuel remaining more loading contents enough
    obtain ⟨fuel, rfl⟩ : ∃ f, fuel = f + 1 := ⟨fuel - 1, by omega⟩
    obtain ⟨within, lba, sectors⟩ := contents.request loading more fits
    have buffer : (requestAt c (share (lo8 c.ebx).toNat (n - k))).buffer.toNat = 0x8000 := rfl
    have delivered (asked : Cpu) (request : Request.of asked = requestAt c (share (lo8 c.ebx).toNat (n - k))) :
        Delivered disk asked (bios.int13 h asked) := by
      apply reads h asked
      · rw [request]
        exact within
      · have last := within.last
        rw [request]
        omega
    obtain ⟨asked, c', request, some, small, amount, next, passed, run⟩ :=
      loading.tryagain teletype setting more (fun asked request => (delivered asked request).toServed)
        (show length < fuel by omega)
    have contents' := contents.pass setting loading more fits high rfl request (delivered asked request) passed
    rw [run]
    by_cases rest : k + share (lo8 c.ebx).toNat (n - k) < n
    · rw [if_pos rest]
      exact ih (n - (k + share (lo8 c.ebx).toNat (n - k))) (by omega) rfl rest next contents' (by omega)
    · rw [if_neg rest]
      have done : k + share (lo8 c.ebx).toNat (n - k) = n := by omega
      rw [done] at next contents'
      exact ⟨c', _, rfl, next, contents'⟩

end

/-! ### The boot block in memory -/

/-- A text in the boot block, behind the patched word. -/
structure Text (boot : List Byte) (start : BitVec 16) (length : Nat) : Prop where
  low : 0x7c04 ≤ start.toNat
  high : start.toNat + length < 0x8000
  text : ∀ i < length, boot.getD (start.toNat - 0x7c00 + i) 0#8 ≠ 0#8
  nul : boot.getD (start.toNat - 0x7c00 + length) 0#8 = 0#8

/-- A boot block with its messages and its retry counter at the labels. -/
structure BootData (boot : List Byte) (labels : Labels) (loadmsgLength dotLength : Nat) : Prop where
  size : boot.length = 1024
  loadmsg : Text boot labels.loadmsg loadmsgLength
  dot : Text boot labels.dot dotLength
  retrycntLow : 0x7c04 ≤ labels.retrycnt.toNat
  retrycntHigh : labels.retrycnt.toNat < 0x8000
  retrycntLoadmsg : labels.retrycnt.toNat < labels.loadmsg.toNat ∨
    labels.loadmsg.toNat + loadmsgLength < labels.retrycnt.toNat
  retrycntDot : labels.retrycnt.toNat < labels.dot.toNat ∨ labels.dot.toNat + dotLength < labels.retrycnt.toNat

/-- The first two sectors of the disk, as the BIOS and the first `load_floppy` have loaded them. -/
def Booted (labels : Labels) (image : List Byte) (m : Memory) : Prop :=
  ∀ i < 1024, bootBase + i ≠ labels.retrycnt.toNat → m (BitVec.ofNat 32 (bootBase + i)) = image.getD i 0#8

section

variable {boot payload rest : List Byte} {labels : Labels} {m : Memory} {start : BitVec 16} {length : Nat}

theorem getD_image (size : boot.length = 1024) (n : Nat) {i : Nat} (inside : i < 1024) (off : i ≠ 2 ∧ i ≠ 3) :
    (patchSize boot n ++ payload ++ rest).getD i 0#8 = boot.getD i 0#8 := by
  have patched := patchSize_length boot n
  simp only [List.getD_eq_getElem?_getD]
  rw [List.append_assoc, List.getElem?_append_left (by omega)]
  unfold patchSize
  rw [List.getElem?_set_ne (by omega), List.getElem?_set_ne (by omega)]

theorem Text.message (text : Text boot start length) (size : boot.length = 1024) {n : Nat}
    (booted : Booted labels (patchSize boot n ++ payload ++ rest) m)
    (off : labels.retrycnt.toNat < start.toNat ∨ start.toNat + length < labels.retrycnt.toNat) :
    Message m start length := by
  have low := text.low
  have high := text.high
  have byte (i : Nat) (inside : i ≤ length) :
      m (BitVec.ofNat 32 (start.toNat + i)) = boot.getD (start.toNat - 0x7c00 + i) 0#8 := by
    have loaded := booted (start.toNat - 0x7c00 + i) (by omega) (by unfold bootBase; omega)
    rw [getD_image size n (by omega) (by omega)] at loaded
    rw [← loaded]
    congr 2
    unfold bootBase
    omega
  constructor
  case low => omega
  case high => exact high
  case text =>
    intro i inside
    rw [byte i (by omega)]
    exact text.text i inside
  case nul =>
    rw [byte length (Nat.le_refl length)]
    exact text.nul

theorem load16_of_bytes {image : List Byte} (retrycnt : 0x7c04 ≤ labels.retrycnt.toNat)
    (booted : Booted labels image m) :
    (m.load16 sectors).toNat = (image.getD 2 0#8).toNat + 256 * (image.getD 3 0#8).toNat := by
  have low := booted 2 (by decide) (by unfold bootBase; omega)
  have high := booted 3 (by decide) (by unfold bootBase; omega)
  have lowAddress : sectors = BitVec.ofNat 32 (bootBase + 2) := rfl
  have highAddress : sectors + 1#32 = BitVec.ofNat 32 (bootBase + 3) := rfl
  unfold load16
  rw [highAddress, lowAddress, low, high, toNat_append]
  omega

/-- The word that `main` patches is the word that the boot block loads. -/
theorem load16_sectors (size : boot.length = 1024) {n : Nat} (retrycnt : 0x7c04 ≤ labels.retrycnt.toNat)
    (booted : Booted labels (patchSize boot n ++ payload ++ rest) m) (small : blocks n < 2^16) :
    (m.load16 sectors).toNat = blocks n := by
  have first : (patchSize boot n ++ payload ++ rest).getD 2 0#8 = BitVec.ofNat 8 (blocks n % 256) := by
    rw [List.getD_eq_getElem?_getD, List.append_assoc, List.getElem?_append_left (by rw [patchSize_length]; omega)]
    simp [patchSize, size]
  have second : (patchSize boot n ++ payload ++ rest).getD 3 0#8 = BitVec.ofNat 8 (blocks n / 256 % 256) := by
    rw [List.getD_eq_getElem?_getD, List.append_assoc, List.getElem?_append_left (by rw [patchSize_length]; omega)]
    simp [patchSize, size]
  rw [load16_of_bytes retrycnt booted, first, second, BitVec.toNat_ofNat, BitVec.toNat_ofNat]
  omega

theorem blocks_eq {n : Nat} (h : n ≤ 2878 * 512) : blocks n = (n + 511) / 512 := by
  unfold blocks
  split <;> omega

end

/-! ### The second `load_floppy` -/

/-- What is in place when the boot block calls `load_floppy` for the rest of the disk. -/
structure Ready (labels : Labels) (c printed : Cpu) (dotLength n : Nat) : Prop where
  esp : printed.esp = c.esp
  ebx : printed.ebx = setLo16 c.ebx 3#16
  edx : printed.edx = setLo16 c.edx 0#16
  edi : printed.edi = 0x100000#32
  cx : (lo16 printed.ecx).toNat = n
  dot : Message printed.mem labels.dot dotLength

section

variable {bios : Bios} {labels : Labels} {boot : List Byte} {loadmsgLength dotLength n : Nat} {c printed : Cpu}
  {fuel : Nat} {disk : Nat → Byte}

theorem toNat_bootStack (stack : c.sp = 0x7c00#16) : c.sp.toNat = 0x7c00 := by
  rw [stack]
  rfl

theorem loadRest_printed (teletype : Teletype bios.int10) (stack : c.sp = 0x7c00#16)
    (count : (c.mem.load16 sectors).toNat = n) (loadmsg : Message c.mem labels.loadmsg loadmsgLength)
    (dot : Message c.mem labels.dot dotLength) (enough : loadmsgLength < fuel) :
    ∃ printed, loadRest bios labels fuel c = loadFloppy bios labels fuel ⟨printed.push16 labels.loaded, []⟩ ∧
      Ready labels c printed dotLength n ∧ Changes (Scratch 0x7c00) c.mem printed.mem := by
  have dotLow := dot.low
  have dotHigh := dot.high
  let ready : Cpu := { c with edi := 0x100000#32, ebx := setLo16 c.ebx 3#16, ecx := setLo16 c.ecx (c.mem.load16 sectors)
                              edx := setLo16 c.edx 0#16, esi := setLo16 c.esi labels.loadmsg }
  have readySp : ready.sp.toNat = 0x7c00 := toNat_bootStack stack
  have message : Message ready.mem (lo16 ready.esi) loadmsgLength := by
    show Message c.mem (lo16 (setLo16 c.esi labels.loadmsg)) loadmsgLength
    rw [lo16_setLo16]
    exact loadmsg
  obtain ⟨printed, shown, unprinted⟩ := print_spec teletype labels.loadmsgPrinted message
    (Nat.le_of_eq readySp) (by omega) enough
  have changes := unprinted.mem
  rw [readySp] at changes
  refine ⟨printed, ?_, ?_, changes⟩
  · show (print bios labels.loadmsgPrinted fuel ready).bind _ = _
    rw [shown]
    rfl
  · constructor
    case esp => exact unprinted.regs.esp
    case ebx => exact unprinted.regs.ebx
    case edx => exact unprinted.regs.edx
    case edi => exact unprinted.regs.edi
    case cx =>
      rw [unprinted.regs.ecx]
      exact (congrArg BitVec.toNat (lo16_setLo16 _ _)).trans count
    case dot =>
      apply dot.kept changes
      intro x lower upper scratch
      unfold Scratch at scratch
      omega

theorem loadRest_ready (teletype : Teletype bios.int10) (stack : c.sp = 0x7c00#16)
    (count : (c.mem.load16 sectors).toNat = n) (loadmsg : Message c.mem labels.loadmsg loadmsgLength)
    (dot : Message c.mem labels.dot dotLength) (enough : loadmsgLength < fuel) :
    ∃ printed, loadRest bios labels fuel c = loadFloppy bios labels fuel ⟨printed.push16 labels.loaded, []⟩ ∧
      Ready labels c printed dotLength n := by
  obtain ⟨printed, called, ready, -⟩ := loadRest_printed teletype stack count loadmsg dot enough
  exact ⟨printed, called, ready⟩

theorem Ready.sp (ready : Ready labels c printed dotLength n) (stack : c.sp = 0x7c00#16) :
    printed.sp.toNat = 0x7c00 ∧ (lo16 (printed.push16 labels.loaded).esp).toNat = 0x7bfe := by
  have before : printed.sp.toNat = 0x7c00 := by
    rw [Cpu.sp, ready.esp]
    exact toNat_bootStack stack
  have after := Cpu.toNat_sp_push16 (c := printed) labels.loaded (by omega)
  refine ⟨before, ?_⟩
  show (printed.push16 labels.loaded).sp.toNat = _
  omega

theorem Ready.setting (ready : Ready labels c printed dotLength n) (stack : c.sp = 0x7c00#16) (fits : n ≤ 2878)
    (data : BootData boot labels loadmsgLength dotLength) :
    Setting labels (printed.push16 labels.loaded).esp dotLength n 0x100000 := by
  have dotHigh := ready.dot.high
  have retrycntLow := data.retrycntLow
  have top := (ready.sp stack).2
  constructor
  case low => omega
  case high => omega
  case count => omega
  case bound => omega
  case stack => omega
  case buffer => omega
  case dot => omega
  case retrycntLow => omega
  case retrycntHigh => exact data.retrycntHigh
  case retrycntDot => exact data.retrycntDot

theorem Ready.bytes (ready : Ready labels c printed dotLength n) :
    (lo8 (printed.push16 labels.loaded).ebx).toNat = 3 ∧ (hi8 (printed.push16 labels.loaded).ebx).toNat = 0 ∧
      (lo8 (printed.push16 labels.loaded).edx).toNat = 0 ∧ (hi8 (printed.push16 labels.loaded).edx).toNat = 0 := by
  have bx : (printed.push16 labels.loaded).ebx = setLo16 c.ebx 3#16 := ready.ebx
  have dx : (printed.push16 labels.loaded).edx = setLo16 c.edx 0#16 := ready.edx
  rw [bx, dx, toNat_lo8_setLo16, toNat_hi8_setLo16, toNat_lo8_setLo16, toNat_hi8_setLo16]
  decide

theorem Ready.loading (ready : Ready labels c printed dotLength n) (stack : c.sp = 0x7c00#16) :
    Loading labels (printed.push16 labels.loaded).esp labels.loaded dotLength n 0x100000 0
      (printed.push16 labels.loaded) := by
  have dotLow := ready.dot.low
  have before := (ready.sp stack).1
  have bl := ready.bytes.1
  constructor
  case esp => rfl
  case cx => exact ready.cx
  case edi =>
    show printed.edi.toNat = _
    rw [ready.edi]
    rfl
  case sector => omega
  case returnAddress => exact Cpu.stackWord_push16 labels.loaded (by omega) 0 (by omega)
  case dot =>
    apply ready.dot.kept (Cpu.changes_push16 (c := printed) labels.loaded (by omega))
    intro x lower upper inside
    omega

theorem Ready.contents (ready : Ready labels c printed dotLength n) (disk : Nat → Byte) :
    Contents disk 2 n 0x100000 0 (printed.push16 labels.loaded) [] := by
  obtain ⟨bl, bh, dl, dh⟩ := ready.bytes
  constructor
  case drive => exact BitVec.eq_of_toNat_eq dl
  case head => omega
  case position =>
    intro more
    omega
  case loaded =>
    intro i inside
    omega
  case sectors => rfl
  case within =>
    intro r member
    cases member

/-- The second `load_floppy` of the boot block, on a disk with `n` more sectors. -/
theorem loadRest_spec (teletype : Teletype bios.int10) (reads : ReadsDisk bios.int13 disk)
    (data : BootData boot labels loadmsgLength dotLength) (stack : c.sp = 0x7c00#16) (some : 0 < n) (fits : n ≤ 2878)
    (count : (c.mem.load16 sectors).toNat = n) (loadmsg : Message c.mem labels.loadmsg loadmsgLength)
    (dot : Message c.mem labels.dot dotLength) (enough : n + dotLength + loadmsgLength < fuel) :
    ∃ s, loadRest bios labels fuel c = Option.some (.ret s) ∧ s.cpu.esp = c.esp ∧
      s.cpu.eip = labels.loaded.zeroExtend 32 ∧
      (∀ i < 512 * n, s.cpu.mem (BitVec.ofNat 32 (0x100000 + i)) = disk (1024 + i)) ∧
      s.requests.flatMap Request.sectors = List.range' 2 n ∧ ∀ r ∈ s.requests, r.WithinTrack := by
  obtain ⟨printed, called, ready⟩ := loadRest_ready teletype stack count loadmsg dot (show loadmsgLength < fuel by omega)
  obtain ⟨c', requests, run, loaded, final⟩ := Contents.run teletype reads (ready.setting stack fits data) (by omega)
    (by decide) n rfl some (ready.loading stack) (ready.contents disk) (show n + dotLength < fuel by omega)
  refine ⟨⟨c'.ret16, requests⟩, called.trans run, ?_, ?_, final.loaded, final.sectors, final.within⟩
  · show setLo16 c'.esp (c'.sp + 2#16) = c.esp
    have top := (ready.sp stack).2
    have whole : c'.sp + 2#16 = lo16 c.esp := by
      apply BitVec.eq_of_toNat_eq
      rw [Cpu.sp, loaded.esp, BitVec.toNat_add, top, BitVec.toNat_ofNat]
      exact (toNat_bootStack stack).symm
    rw [whole, loaded.esp]
    show setLo16 (setLo16 printed.esp _) (lo16 c.esp) = c.esp
    rw [setLo16_setLo16, ready.esp]
    exact setLo16_lo16 c.esp
  · show (c'.pop16.1).zeroExtend 32 = _
    rw [Cpu.pop16_fst, loaded.returnAddress]

end

theorem padding_aligned {options : Options} (size : Nat) (padded : 0 < options.padding)
    (sectors : 512 ∣ options.padding) : 512 ∣ size + padding options size := by
  obtain ⟨k, multiple⟩ := sectors
  have rest := Nat.mod_lt size padded
  have whole := Nat.div_add_mod size options.padding
  have next : options.padding ∣ size + padding options size := by
    unfold padding
    by_cases more : options.padding ≠ 0 ∧ size % options.padding ≠ 0
    · rw [if_pos more]
      refine ⟨size / options.padding + 1, ?_⟩
      rw [Nat.mul_add]
      omega
    · rw [if_neg more]
      have even : size % options.padding = 0 := by omega
      rw [Nat.add_zero]
      exact Nat.dvd_of_mod_eq_zero even
  exact Nat.dvd_trans ⟨k, multiple⟩ next

/-- The boot block loads the payload that `makeflop` put behind it. -/
theorem boot_image_loads {host : Host} {boot payload : List Byte} {labels : Labels} {loadmsgLength dotLength : Nat}
    (succeeds : Succeeds host boot payload) (data : BootData boot labels loadmsgLength dotLength) (options : Options)
    (vesa : options.enableVesa = false) (padded : 0 < options.padding) (sectors : 512 ∣ options.padding)
    (int : options.padding < 2^31) (some : 0 < payload.length) (fits : payload.length ≤ 2878 * 512) :
    let image := (makeflop host options).2.image
    let n := (payload.length + 511) / 512
    (makeflop host options).1 = 0 ∧ 512 ∣ image.length ∧ 1024 + 512 * n ≤ image.length ∧
    ∀ (bios : Bios) (c : Cpu), Teletype bios.int10 → ReadsDisk bios.int13 (fun i => image.getD i 0#8) →
      c.sp = 0x7c00#16 → Booted labels image c.mem →
      ∃ enough, ∀ fuel ≥ enough, ∃ s, loadRest bios labels fuel c = Option.some (.ret s) ∧
        s.cpu.esp = c.esp ∧ s.cpu.eip = labels.loaded.zeroExtend 32 ∧
        (∀ i < 512 * n, s.cpu.mem (BitVec.ofNat 32 (0x100000 + i)) = payload.getD i 0#8) ∧
        s.requests.flatMap Request.sectors = List.range' 2 n ∧ ∀ r ∈ s.requests, r.WithinTrack := by
  intro image n
  have size := data.size
  obtain ⟨status, written⟩ := makeflop_image succeeds size (by omega) options vesa (by omega)
  have imageIs : image = patchSize boot payload.length ++ payload ++
      List.replicate (padding options (1024 + payload.length)) 0#8 := written
  have aligned := padding_aligned (1024 + payload.length) padded sectors
  have length : image.length = 1024 + payload.length + padding options (1024 + payload.length) := by
    rw [imageIs, List.length_append, List.length_append, patchSize_length, size, List.length_replicate]
  have count := blocks_eq fits
  refine ⟨status, by rw [length]; exact aligned, by omega, ?_⟩
  intro bios c teletype reads stack booted
  refine ⟨n + dotLength + loadmsgLength + 1, ?_⟩
  intro fuel enough
  rw [imageIs] at booted
  have cx := load16_sectors size data.retrycntLow booted (by omega)
  obtain ⟨s, run, esp, eip, loaded, inOrder, within⟩ := loadRest_spec teletype reads data stack (n := n) (by omega)
    (by omega) (cx.trans count) (data.loadmsg.message size booted data.retrycntLoadmsg)
    (data.dot.message size booted data.retrycntDot) (show n + dotLength + loadmsgLength < fuel by omega)
  refine ⟨s, run, esp, eip, ?_, inOrder, within⟩
  intro i inside
  rw [loaded i inside]
  show image.getD (1024 + i) 0#8 = _
  have patched : (patchSize boot payload.length).length = 1024 := by rw [patchSize_length, size]
  simp only [List.getD_eq_getElem?_getD, imageIs]
  rw [List.append_assoc, List.getElem?_append_right (by omega), patched, Nat.add_sub_cancel_left]
  by_cases text : i < payload.length
  · rw [List.getElem?_append_left text]
  · rw [List.getElem?_append_right (by omega), List.getElem?_eq_none (show payload.length ≤ i by omega)]
    by_cases zero : i - payload.length < padding options (1024 + payload.length)
    · rw [List.getElem?_replicate_of_lt zero]
      rfl
    · rw [List.getElem?_eq_none (by rw [List.length_replicate]; omega)]

/-! A boot block of two short messages, and a payload that ends in the second track. -/

def smallBoot : List Byte := List.replicate 1023 1#8 ++ [0#8]

def smallLabels : Labels where
  loadmsg := 0x7ffc#16
  errormsg := 0x7ffd#16
  dot := 0x7ffe#16
  retrycnt := 0x7c04#16
  loadmsgPrinted := 0x7c10#16
  errormsgPrinted := 0x7c12#16
  dotPrinted := 0x7c14#16
  loaded := 0x7c20#16

theorem smallBoot_data : BootData smallBoot smallLabels 3 1 := by
  have ones (i : Nat) (h : i < 1023) : smallBoot.getD i 0#8 = 1#8 := by
    unfold smallBoot
    rw [List.getD_eq_getElem?_getD, List.getElem?_append_left (by rw [List.length_replicate]; exact h),
      List.getElem?_replicate_of_lt h]
    rfl
  have zero : smallBoot.getD 1023 0#8 = 0#8 := by
    unfold smallBoot
    rw [List.getD_eq_getElem?_getD, List.getElem?_append_right (by rw [List.length_replicate]), List.length_replicate]
    rfl
  have text (start : BitVec 16) (length : Nat) (low : 0x7c04 ≤ start.toNat) (last : start.toNat + length = 0x7fff) :
      Text smallBoot start length := by
    constructor
    case low => exact low
    case high => omega
    case text =>
      intro i inside
      rw [ones _ (by omega)]
      decide
    case nul =>
      rw [show start.toNat - 0x7c00 + length = 1023 by omega]
      exact zero
  constructor
  case size => rw [smallBoot, List.length_append, List.length_replicate, List.length_singleton]
  case loadmsg => exact text _ _ (by decide) (by decide)
  case dot => exact text _ _ (by decide) (by decide)
  all_goals decide

/-- Every call succeeds, and the payload comes in the pieces `chunks`. -/
def hostOf (boot : List Byte) (chunks : List (List Byte)) : Host where
  stat := some chunks.flatten.length
  openOutput := true
  openBootblock := true
  openPayload := true
  bootblock := boot
  bootblockSize := 1024
  reads := chunks.map .data
  write := fun _ count => count
  beyond := fun _ => 0#8

theorem hostOf_succeeds (boot : List Byte) {chunks : List (List Byte)}
    (sizes : ∀ chunk ∈ chunks, 1 ≤ chunk.length ∧ chunk.length ≤ 512) :
    Succeeds (hostOf boot chunks) boot chunks.flatten := by
  constructor
  case reads => exact ⟨chunks, rfl, rfl, sizes⟩
  case write => exact fun _ _ => rfl
  all_goals rfl

/-- 18 sectors, each filled with its number, and one byte more. -/
def twoTracks : List (List Byte) := (List.range 18).map (fun i => List.replicate 512 (BitVec.ofNat 8 i)) ++ [[0x7f#8]]

theorem twoTracks_sizes : ∀ chunk ∈ twoTracks, 1 ≤ chunk.length ∧ chunk.length ≤ 512 := by
  intro chunk member
  unfold twoTracks at member
  rcases List.mem_append.mp member with full | last
  · obtain ⟨i, -, rfl⟩ := List.mem_map.mp full
    rw [List.length_replicate]
    decide
  · rw [List.mem_singleton.mp last]
    decide

theorem twoTracks_length : twoTracks.flatten.length = 9217 := by
  rw [List.length_flatten]
  decide +kernel

def smallHost : Host := hostOf smallBoot twoTracks

theorem smallHost_succeeds : Succeeds smallHost smallBoot twoTracks.flatten := hostOf_succeeds smallBoot twoTracks_sizes

def smallOptions : Options := ⟨512, false, 0, 0, 0⟩

def smallImage : List Byte := (makeflop smallHost smallOptions).2.image

/-- The processor before the rest of the disk is read, with the first two sectors in memory. -/
def smallCpu : Cpu where
  eax := 0#32
  ebx := 0#32
  ecx := 0#32
  edx := 0#32
  esi := 0#32
  edi := 0#32
  ebp := 0#32
  esp := 0x7c00#32
  eip := 0#32
  cf := false
  zf := false
  sf := false
  of := false
  mem := fun x => smallImage.getD (x.toNat - bootBase) 0#8

theorem id_teletype : Teletype id := fun _ _ => ⟨⟨rfl, rfl, rfl, rfl, rfl, rfl, rfl⟩, Changes.refl _ _⟩

theorem smallCpu_booted : Booted smallLabels smallImage smallCpu.mem := by
  intro i inside other
  unfold smallCpu
  dsimp only
  rw [toNat_ofNat_word (by unfold bootBase; omega), Nat.add_sub_cancel_left]

theorem boot_image_loads_twoTracks :
    ∃ enough, ∀ fuel ≥ enough, ∃ s,
      loadRest ⟨id, diskService fun i => smallImage.getD i 0#8⟩ smallLabels fuel smallCpu = some (.ret s) ∧
      s.cpu.esp = smallCpu.esp ∧ s.cpu.eip = 0x7c20#32 ∧
      (∀ i < 512 * 19, s.cpu.mem (BitVec.ofNat 32 (0x100000 + i)) = twoTracks.flatten.getD i 0#8) ∧
      s.requests.flatMap Request.sectors = List.range' 2 19 ∧ ∀ r ∈ s.requests, r.WithinTrack := by
  have padding : smallOptions.padding = 512 := rfl
  have length := twoTracks_length
  have loads := boot_image_loads smallHost_succeeds smallBoot_data smallOptions rfl (by omega) (by omega) (by omega)
    (by omega) (by omega)
  rw [show (makeflop smallHost smallOptions).2.image = smallImage from rfl,
    show (twoTracks.flatten.length + 511) / 512 = 19 by rw [length]] at loads
  have reads := diskService_readsDisk fun i => smallImage.getD i 0#8
  exact loads.2.2.2 ⟨id, diskService fun i => smallImage.getD i 0#8⟩ smallCpu id_teletype reads (by decide)
    smallCpu_booted

/-! ### The count of sectors -/

/-- Bytes 2 and 3 of the image, which the boot block loads into `cx`, count `n` sectors. -/
structure SectorCount (image : List Byte) (n : Nat) : Prop where
  bytes : (image.getD 2 0#8).toNat + 256 * (image.getD 3 0#8).toNat = n
  cx : ∀ (labels : Labels) (m : Memory), 0x7c04 ≤ labels.retrycnt.toNat → Booted labels image m →
    (m.load16 sectors).toNat = n

def sectorsOf (payload : List Byte) : Nat := (payload.length + 511) / 512

theorem blocks_mod (n : Nat) : blocks n % 2^16 = (n + 511) / 512 % 2^16 := by
  unfold blocks
  rw [Nat.mod_mod_of_dvd _ (by decide)]
  split <;> congr 1 <;> omega

theorem patched_count {boot : List Byte} (size : boot.length = 1024) (options : Options) (n : Nat) :
    (patched options boot n)[2]? = some (BitVec.ofNat 8 (blocks n % 256)) ∧
    (patched options boot n)[3]? = some (BitVec.ofNat 8 (blocks n / 256 % 256)) := by
  unfold patched patchVesa patchSize
  split
  · simp [size]
  · simp [size]

section

variable {host : Host} {boot payload : List Byte} {options : Options}

/-- The count loses what does not fit into a word. -/
theorem sectorCount_mod (succeeds : Succeeds host boot payload) (size : boot.length = 1024)
    (status : (makeflop host options).1 = 0) :
    SectorCount (makeflop host options).2.image (sectorsOf payload % 2^16) := by
  obtain ⟨second, third⟩ := patched_count size options payload.length
  obtain ⟨rest, image⟩ := makeflop_extends succeeds size options status
  have length := (patched_length options boot payload.length).trans size
  have bytes : ((makeflop host options).2.image.getD 2 0#8).toNat +
      256 * ((makeflop host options).2.image.getD 3 0#8).toNat = sectorsOf payload % 2^16 := by
    rw [← image, List.getD_eq_getElem?_getD, List.getD_eq_getElem?_getD, List.getElem?_append_left (by omega), second,
      List.getElem?_append_left (by omega), third]
    have count := blocks_mod payload.length
    unfold sectorsOf
    rw [← count, Option.getD_some, Option.getD_some, BitVec.toNat_ofNat, BitVec.toNat_ofNat]
    omega
  refine ⟨bytes, ?_⟩
  intro labels m retrycnt booted
  rw [load16_of_bytes retrycnt booted, bytes]

/-- The boot block counts all sectors of the payload exactly if a word can. -/
theorem sectorCount_iff (succeeds : Succeeds host boot payload) (size : boot.length = 1024)
    (status : (makeflop host options).1 = 0) :
    SectorCount (makeflop host options).2.image (sectorsOf payload) ↔ sectorsOf payload < 2^16 := by
  have truncated := sectorCount_mod succeeds size status
  constructor
  · intro counts
    have same := truncated.bytes.symm.trans counts.bytes
    rw [← same]
    exact Nat.mod_lt _ (by decide)
  · intro fits
    rwa [Nat.mod_eq_of_lt fits] at truncated

end

/-- An empty boot block, and a payload of `n` sectors of zeros. -/
def zeroHost (n : Nat) : Host := hostOf (List.replicate 1024 0#8) (List.replicate n (List.replicate 512 0#8))

def zeroPayload (n : Nat) : List Byte := (List.replicate n (List.replicate 512 0#8)).flatten

theorem zeroPayload_length (n : Nat) : (zeroPayload n).length = 512 * n := by
  unfold zeroPayload
  rw [List.length_flatten, List.map_replicate, List.sum_replicate_nat, List.length_replicate, Nat.mul_comm]

theorem zeroHost_succeeds (n : Nat) : Succeeds (zeroHost n) (List.replicate 1024 0#8) (zeroPayload n) :=
  hostOf_succeeds _ fun chunk member => by
    rw [List.eq_of_mem_replicate member, List.length_replicate]
    decide

theorem sectorsOf_zeroPayload (n : Nat) : sectorsOf (zeroPayload n) = n := by
  unfold sectorsOf
  rw [zeroPayload_length]
  omega

theorem zeroHost_finishes {n : Nat} (small : n < 2^32) : (makeflop (zeroHost n) smallOptions).1 = 0 := by
  have length := zeroPayload_length n
  exact (makeflop_image (zeroHost_succeeds n) List.length_replicate (by omega) smallOptions rfl (by decide)).1

theorem sectorCount_oneSector :
    SectorCount (makeflop (zeroHost 1) smallOptions).2.image (sectorsOf (zeroPayload 1)) ↔ sectorsOf (zeroPayload 1) < 2^16 :=
  sectorCount_iff (zeroHost_succeeds 1) List.length_replicate (zeroHost_finishes (by decide))

/-- With 65536 sectors the exit status is 0, and the count 0. -/
theorem not_sectorCount_zeros : (makeflop (zeroHost 65536) smallOptions).1 = 0 ∧
    ¬ SectorCount (makeflop (zeroHost 65536) smallOptions).2.image (sectorsOf (zeroPayload 65536)) := by
  have status := zeroHost_finishes (n := 65536) (by decide)
  have truncated := sectorCount_mod (zeroHost_succeeds 65536) List.length_replicate status
  refine ⟨status, fun counts => ?_⟩
  have same := truncated.bytes.symm.trans counts.bytes
  rw [sectorsOf_zeroPayload] at same
  exact absurd same (by decide)

end ThreeX86.Boot
