import ThreeX86.Boot.Load

/-!
Both calls of `load_floppy`: the boot sector loads the rest of the boot block, and that loads the kernel. What the calls
leave alone is all memory but the BIOS's, the track buffer, the retry counter and the destination.
-/

namespace ThreeX86.Boot

open Machine Machine.Memory

/-- The BIOS, with some calls of the disk service behind it. -/
def Bios.after (bios : Bios) (history : List Request) : Bios :=
  { bios with int13 := fun requests => bios.int13 (history ++ requests) }

/-- Control is back where the call returns to. -/
def returned (returnAddress : BitVec 16) (c : Cpu) : Option Cpu := if c.eip = returnAddress.zeroExtend 32 then some c else none

def Exit.returned (returnAddress : BitVec 16) : Exit → Option State
  | .ret s => if s.cpu.eip = returnAddress.zeroExtend 32 then some s else none
  | .reboot _ => none

/-- The code behind "read in the second half of this stage of the bootloader", to the return of `load_floppy`. -/
def loadFirst (bios : Bios) (labels : Labels) (returnAddress : BitVec 16) (fuel : Nat) (c : Cpu) : Option Exit :=
  let c := { c with edx := setLo16 c.edx 0#16 }
  let c := { c with ebx := setLo16 c.ebx 2#16 }
  let c := { c with ecx := setLo16 c.ecx 1#16 }
  let c := { c with edi := 0x7e00#32 }
  loadFloppy bios labels fuel ⟨c.push16 returnAddress, []⟩

section

variable {bios : Bios} {labels : Labels} {disk : Nat → Byte} {top : Word} {ra : BitVec 16} {length n dest k start : Nat}
  {c : Cpu} {h : List Request} {s : State}

theorem ReadsDisk.after (reads : ReadsDisk bios.int13 disk) (history : List Request) :
    ReadsDisk (bios.after history).int13 disk := fun requests => reads (history ++ requests)

theorem Contents.delivered (reads : ReadsDisk bios.int13 disk) (loading : Loading labels top ra length n dest k c)
    (contents : Contents disk start n dest k c h) (more : k < n) (fits : start + n ≤ 2880) (asked : Cpu)
    (request : Request.of asked = requestAt c (share (lo8 c.ebx).toNat (n - k))) : Delivered disk asked (bios.int13 h asked) := by
  obtain ⟨within, -, -⟩ := contents.request loading more fits
  have last := within.last
  have buffer : (requestAt c (share (lo8 c.ebx).toNat (n - k))).buffer.toNat = 0x8000 := rfl
  apply reads h asked
  · rw [request]
    exact within
  · rw [request]
    omega

theorem Loading.sp (loading : Loading labels top ra length n dest k c) : c.sp.toNat = (lo16 top).toNat := by
  rw [Cpu.sp, loading.esp]

/-- A pass changes what the whole load may change. -/
theorem Passed.within {served c' : Cpu} {count : Nat} (passed : Passed labels c served c' count)
    (loading : Loading labels top ra length n dest k c) (fits : k + count ≤ n) :
    Changes (PassScratch labels (lo16 top).toNat dest n) c.mem c'.mem := by
  have sp := loading.sp
  have edi := loading.edi
  apply passed.mem.mono
  intro x inside
  rw [sp] at inside
  unfold PassScratch Scratch at inside ⊢
  omega

/-- What the passes change, to the return of `load_floppy`. -/
theorem Contents.run_changes (teletype : Teletype bios.int10) (reads : ReadsDisk bios.int13 disk)
    (setting : Setting labels top length n dest) (fits : start + n ≤ 2880) (high : 0x100000 ≤ dest) (left : Nat) :
    ∀ {k : Nat} {c : Cpu} {h : List Request} {fuel : Nat}, n - k = left → k < n → Loading labels top ra length n dest k c →
      Contents disk start n dest k c h → left + length < fuel →
      Boot.tryagain bios labels fuel ⟨savePosition c, h⟩ = some (.ret s) →
      Changes (PassScratch labels (lo16 top).toNat dest n) c.mem s.cpu.mem := by
  induction left using Nat.strong_induction_on with
  | h left ih =>
    intro k c h fuel remaining more loading contents enough run
    obtain ⟨fuel, rfl⟩ : ∃ f, fuel = f + 1 := ⟨fuel - 1, by omega⟩
    have delivered := contents.delivered reads loading more fits
    obtain ⟨asked, c', request, some, small, amount, next, passed, step⟩ :=
      loading.tryagain teletype setting more (fun asked request => (delivered asked request).toServed)
        (show length < fuel by omega)
    have contents' := contents.pass setting loading more fits high rfl request (delivered asked request) passed
    have here := passed.within loading amount
    rw [step] at run
    by_cases rest : k + share (lo8 c.ebx).toNat (n - k) < n
    · rw [if_pos rest] at run
      exact here.trans (ih (n - (k + share (lo8 c.ebx).toNat (n - k))) (by omega) rfl rest next contents' (by omega) run)
    · rw [if_neg rest] at run
      cases run
      exact here

/-! ### The rest of the boot block -/

/-- The first `load_floppy` reads one sector, the second of the disk, behind the boot sector. -/
theorem loadFirst_spec (returnAddress : BitVec 16) {fuel : Nat} (teletype : Teletype bios.int10) (reads : ReadsDisk bios.int13 disk)
    (stack : c.sp = 0x7c00#16) (dot : Message c.mem labels.dot length) (dotFirst : labels.dot.toNat + length < 0x7e00)
    (retrycntLow : 0x7c00 ≤ labels.retrycnt.toNat) (retrycntHigh : labels.retrycnt.toNat < 0x7e00)
    (retrycntDot : labels.retrycnt.toNat < labels.dot.toNat ∨ labels.dot.toNat + length < labels.retrycnt.toNat)
    (enough : length + 1 < fuel) :
    ∃ s, loadFirst bios labels returnAddress fuel c = some (.ret s) ∧ s.cpu.esp = c.esp ∧
      s.cpu.eip = returnAddress.zeroExtend 32 ∧ (∀ i < 512, s.cpu.mem (BitVec.ofNat 32 (0x7e00 + i)) = disk (512 + i)) ∧
      Changes (PassScratch labels 0x7c00 0x7e00 1) c.mem s.cpu.mem := by
  have sp := toNat_bootStack stack
  have dotLow := dot.low
  let asks : Cpu := { c with edx := setLo16 c.edx 0#16, ebx := setLo16 c.ebx 2#16, ecx := setLo16 c.ecx 1#16, edi := 0x7e00#32 }
  have before : asks.sp.toNat = 0x7c00 := sp
  have pushes := Cpu.changes_push16 (c := asks) returnAddress (by omega)
  have after := Cpu.toNat_sp_push16 (c := asks) returnAddress (by omega)
  generalize called : asks.push16 returnAddress = entered at pushes after
  have entrance : loadFirst bios labels returnAddress fuel c = Boot.tryagain bios labels fuel ⟨savePosition entered, []⟩ := by
    rw [← called]
    rfl
  have esp : entered.esp = setLo16 c.esp (c.sp - 2#16) := by rw [← called]; rfl
  have bl : (lo8 entered.ebx).toNat = 2 := by rw [← called]; exact toNat_lo8_setLo16 c.ebx 2#16
  have bh : (hi8 entered.ebx).toNat = 0 := by rw [← called]; exact toNat_hi8_setLo16 c.ebx 2#16
  have dl : (lo8 entered.edx).toNat = 0 := by rw [← called]; exact toNat_lo8_setLo16 c.edx 0#16
  have dh : (hi8 entered.edx).toNat = 0 := by rw [← called]; exact toNat_hi8_setLo16 c.edx 0#16
  have cx : (lo16 entered.ecx).toNat = 1 := by rw [← called]; exact congrArg BitVec.toNat (lo16_setLo16 c.ecx 1#16)
  have edi : entered.edi = 0x7e00#32 := by rw [← called]; rfl
  have top : (lo16 entered.esp).toNat = 0x7bfe := by
    show entered.sp.toNat = _
    omega
  have setting : Setting labels entered.esp length 1 0x7e00 := by
    constructor <;> omega
  have loading : Loading labels entered.esp returnAddress length 1 0x7e00 0 entered := by
    constructor
    case esp => rfl
    case cx => exact cx
    case edi => rw [edi]; rfl
    case sector => omega
    case returnAddress =>
      rw [← called]
      exact Cpu.stackWord_push16 returnAddress (by omega) 0 (by omega)
    case dot =>
      apply dot.kept pushes
      intro x lower upper inside
      omega
  have contents : Contents disk 1 1 0x7e00 0 entered [] := by
    constructor
    case drive => exact BitVec.eq_of_toNat_eq dl
    case head => omega
    case position => omega
    case loaded => omega
    case sectors => rfl
    case within => exact fun r member => absurd member List.not_mem_nil
  have delivered := contents.delivered reads loading Nat.one_pos (by decide)
  obtain ⟨-, lba, amount⟩ := contents.request loading Nat.one_pos (by decide)
  obtain ⟨asked, c', request, some, small, one, next, passed, step⟩ :=
    loading.tryagain teletype setting Nat.one_pos (fun asked request => (delivered asked request).toServed)
      (show length < fuel - 1 by omega)
  have single : share (lo8 entered.ebx).toNat (1 - 0) = 1 := by
    unfold share
    omega
  have within := passed.within loading one
  rw [single] at next passed step request amount lba
  rw [show fuel - 1 + 1 = fuel by omega, if_neg (by decide)] at step
  have back : c'.esp = entered.esp := next.esp
  refine ⟨⟨c'.ret16, _⟩, entrance.trans step, ?_, ?_, ?_, ?_⟩
  · show setLo16 c'.esp (c'.sp + 2#16) = c.esp
    rw [Cpu.sp, back, esp, setLo16_setLo16, lo16_setLo16, BitVec.sub_add_cancel]
    exact setLo16_lo16 c.esp
  · show (c'.pop16.1).zeroExtend 32 = _
    rw [Cpu.pop16_fst, next.returnAddress]
  · intro i inside
    have data := passed.data i (by omega)
    have read := (delivered asked (by rw [single]; exact request)).data i (by rw [request, amount]; omega)
    rw [request, lba] at read
    rw [edi] at data
    rw [BitVec.ofNat_add]
    exact data.trans read
  · rw [top] at within
    have whole : Changes (PassScratch labels 0x7c00 0x7e00 1) entered.mem c'.mem := within.mono fun x inside => by
      unfold PassScratch Scratch at inside ⊢
      omega
    exact (pushes.mono fun x inside => .inl (.inl (by omega))).trans whole

/-! ### The kernel -/

/-- What the second `load_floppy` leaves alone. -/
theorem loadRest_changes {boot : List Byte} {loadmsgLength dotLength fuel : Nat} (teletype : Teletype bios.int10)
    (reads : ReadsDisk bios.int13 disk) (data : BootData boot labels loadmsgLength dotLength) (stack : c.sp = 0x7c00#16) (some : 0 < n)
    (fits : n ≤ 2878) (count : (c.mem.load16 sectors).toNat = n) (loadmsg : Message c.mem labels.loadmsg loadmsgLength)
    (dot : Message c.mem labels.dot dotLength) (enough : n + dotLength + loadmsgLength < fuel)
    (run : loadRest bios labels fuel c = Option.some (.ret s)) : Changes (PassScratch labels 0x7c00 0x100000 n) c.mem s.cpu.mem := by
  obtain ⟨printed, called, ready, shown⟩ := loadRest_printed teletype stack count loadmsg dot (show loadmsgLength < fuel by omega)
  obtain ⟨before, top⟩ := ready.sp stack
  have pushes := Cpu.changes_push16 (c := printed) labels.loaded (by omega)
  have passes := Contents.run_changes teletype reads (ready.setting stack fits data) (by omega) (by decide) n rfl some
    (ready.loading stack) (ready.contents disk) (show n + dotLength < fuel by omega) (called.symm.trans run)
  rw [top] at passes
  have first : Changes (PassScratch labels 0x7c00 0x100000 n) c.mem printed.mem := shown.mono fun x => .inl
  have second : Changes (PassScratch labels 0x7c00 0x100000 n) printed.mem (printed.push16 labels.loaded).mem :=
    pushes.mono fun x inside => .inl (.inl (by omega))
  refine (first.trans second).trans (passes.mono fun x inside => ?_)
  unfold PassScratch Scratch at inside ⊢
  omega

end

end ThreeX86.Boot
