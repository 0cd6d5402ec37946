import ThreeX86.Boot.Block

/-!
What each stage of the boot block leaves to the next, up to the stack that the kernel is called with.
-/

namespace ThreeX86.Boot

open Machine Machine.Memory

/-! ### The memory map -/

section

variable {labels : MapLabels} {answers : List MapAnswer} {answer : MapAnswer} {s s' : MapState}

/-- What the collection of the map may change, with its return address. -/
def MapScratch (labels : MapLabels) (x : Nat) : Prop :=
  (0x7000 ≤ x ∧ x < 0x7c00) ∨ x = labels.extMemCount.toNat ∨ (labels.extMemInfo.toNat ≤ x ∧ x < labels.extMemInfo.toNat + 4)

theorem collect_esp (labels : MapLabels) (answer : MapAnswer) (s : MapState) : (collect labels answer s).cpu.esp = s.cpu.esp := by
  unfold collect
  dsimp only
  split <;> rfl

/-- The loop returns from the stack that it was entered with. -/
theorem findMemNext_returns (run : findMemNext labels answers s = some s') :
    ∃ c : Cpu, s'.cpu = c.ret16 ∧ c.esp = s.cpu.esp ∧ c.mem = s'.cpu.mem := by
  induction answers generalizing s with
  | nil => cases run
  | cons answer answers ih =>
    have esp := collect_esp labels answer s
    rw [findMemNext_cons] at run
    split at run
    · cases run
      exact ⟨_, rfl, esp, rfl⟩
    · obtain ⟨c, returns, same, mem⟩ := ih run
      exact ⟨c, returns, same.trans esp, mem⟩

/-- Only the last answer may be an error. -/
theorem Finished.entries_prefix (finished : Finished answers) : entries answers <+: answers := by
  induction answers with
  | nil => exact List.prefix_refl []
  | cons answer answers ih =>
    unfold Finished at finished
    split at finished
    · subst finished
      unfold entries
      cases carry : answer.carry
      · simp [carry]
      · simp [carry]
    · next more =>
      obtain ⟨carry, -⟩ := not_or.mp more
      unfold entries
      rw [List.filter_cons_of_pos (by rw [eq_false_of_ne_true carry]; rfl)]
      exact (List.prefix_cons_inj answer).mpr (ih finished)

/-- An entry lies in front of the boot block. -/
theorem Fits.room (fits : Fits answers) (finished : Finished answers) {i j : Nat} {entry : MapAnswer}
    (at_ : (entries answers)[i]? = some entry) (inside : j < entry.bytes.length) :
    (entryAddress i + BitVec.ofNat 32 j).toNat = 0x7000 + 0x20 * i + j ∧ 0x20 * i + j < 0xbfe := by
  have few := fits.2
  have bound := (List.getElem?_eq_some_iff.mp at_).1
  obtain ⟨last, whole⟩ := finished.entries_prefix
  have among : answers[i]? = some entry := by
    rw [← whole, List.getElem?_append_left bound]
    exact at_
  have place := fits.1 i entry among (List.ne_nil_of_length_pos (by omega))
  exact ⟨toNat_entryAddress_add (by omega), by omega⟩

/-- What `find_mem_size_real` leaves when the answers fit. -/
structure Mapped (labels : MapLabels) (answers : List MapAnswer) (c c' : Cpu) : Prop where
  esp : c'.esp = c.esp
  info : c'.mem.load32 (labels.extMemInfo.zeroExtend 32) = 0x7000#32
  count : (c'.mem (countAddress labels)).toNat = (entries answers).length
  entries : ∀ i entry, (entries answers)[i]? = some entry → BytesAt c'.mem (entryAddress i) entry.bytes
  mem : Changes (MapScratch labels) c.mem c'.mem

theorem findMemSizeReal_spec (valid : labels.Valid) (c : Cpu) (returnAddress : BitVec 16) (stack : c.sp = 0x7c00#16)
    (zero : c.mem (countAddress labels) = 0#8) (finished : Finished answers)
    (sizes : ∀ answer ∈ answers, answer.bytes.length ≤ 32) (fits : Fits answers) :
    ∃ s, findMemSizeReal labels answers (c.push16 returnAddress) = some s ∧ s.cpu.eip = returnAddress.zeroExtend 32 ∧
      Mapped labels answers c s.cpu := by
  obtain ⟨room, few⟩ := fits
  have high := valid.high
  have apart := valid.count
  have below := valid.info
  have infoBound := labels.extMemInfo.isLt
  have length := finished.length_le
  have top := toNat_bootStack stack
  have info : (labels.extMemInfo.zeroExtend 32 : Word).toNat = labels.extMemInfo.toNat := BitVec.toNat_setWidth_of_le (by decide)
  have counter : (countAddress labels).toNat = labels.extMemCount.toNat := BitVec.toNat_setWidth_of_le (by decide)
  have pushes := Cpu.changes_push16 (c := c) returnAddress (by omega)
  let start : MapState := ⟨{ c.push16 returnAddress with
    ebx := 0#32
    edi := 0x7000#32
    mem := (c.push16 returnAddress).mem.store32 (labels.extMemInfo.zeroExtend 32) 0x7000#32 }, []⟩
  have stored := changes_store32 (c.push16 returnAddress).mem (labels.extMemInfo.zeroExtend 32) 0x7000#32 (by omega)
  have from_ : FitsFrom 0 answers := by
    intro i answer at_ some_
    rw [Nat.zero_add]
    exact room i answer at_ some_
  have buffer : ∀ write ∈ placed answers (entryAddress 0), InBuffer 0x7bfe write := by
    intro write member
    obtain ⟨i, answer, at_, rfl⟩ := (mem_placed (by omega)).mp member
    have inside : i < answers.length := (List.getElem?_eq_some_iff.mp at_).1
    rw [Nat.zero_add, inBuffer_entry (by omega) (sizes answer (List.mem_of_getElem? at_))]
    exact fun some_ => room i answer at_ fun empty => some_ (by rw [empty, List.length_nil])
  obtain ⟨s, run, -, counted⟩ := findMemNext_run labels 0x7bfe (by omega) finished start
  obtain ⟨changes, texts⟩ := findMemNext_entries valid finished (by omega) (show start.cpu.edi = entryAddress 0 from rfl) from_
    sizes run
  obtain ⟨last, ends, esp, mem⟩ := findMemNext_returns run
  have whole : Changes (fun x => MapScratch labels x ∧ (x < 0x7bfe ∨ 0x7c00 ≤ x)) (c.push16 returnAddress).mem s.cpu.mem := by
    apply (stored.mono fun x inside => ?_).trans (changes.mono fun x inside => ?_)
    · unfold MapScratch
      omega
    · unfold FromEntry at inside
      unfold MapScratch
      omega
  obtain ⟨eip, back⟩ := Cpu.push16_ret16 returnAddress (by omega) esp (mem ▸ whole) fun x lower upper inside => by omega
  rw [← ends] at eip back
  refine ⟨s, run, eip, ?_⟩
  constructor
  case esp => exact back
  case info =>
    have kept := changes.load32 (a := labels.extMemInfo.zeroExtend 32) (by omega) fun i small inside => by
      unfold FromEntry at inside
      omega
    rw [kept]
    exact load32_store32 _ _ _
  case count =>
    have untouched : start.cpu.mem (countAddress labels) = 0#8 := by
      rw [← zero, ← pushes (countAddress labels) (by omega)]
      exact stored (countAddress labels) (by omega)
    rw [counted buffer, untouched, BitVec.zero_add, BitVec.toNat_ofNat]
    omega
  case entries =>
    intro i entry at_
    have text := texts i entry at_
    rwa [Nat.zero_add] at text
  case mem =>
    exact (pushes.mono fun x inside => .inl (by omega)).trans (whole.mono fun x inside => inside.1)

end

/-! ### Both loads -/

/-- The boot sector as the BIOS has loaded it. -/
def BootSector (labels : Labels) (image : List Byte) (m : Memory) : Prop :=
  ∀ i < 512, bootBase + i ≠ labels.retrycnt.toNat → m (BitVec.ofNat 32 (bootBase + i)) = image.getD i 0#8

section

variable {bios : Bios} {l : BlockLabels} {boot payload rest image : List Byte} {m m' : Memory} {c : Cpu} {fuel : Nat}

/-- A text of the first sector is there before the second one is loaded. -/
theorem BootSector.message {labels : Labels} {start : BitVec 16} {length n : Nat} (text : Text boot start length)
    (size : boot.length = 1024) (sector : BootSector labels (patchSize boot n ++ payload ++ rest) m)
    (off : labels.retrycnt.toNat < start.toNat ∨ start.toNat + length < labels.retrycnt.toNat)
    (first : start.toNat + length < 0x7e00) : Message m start length := by
  -- the message of a memory that has the second sector as well
  let whole := m.storeBytes 0x7e00#32 512 fun i => (patchSize boot n ++ payload ++ rest).getD (512 + i) 0#8
  have booted : Booted labels (patchSize boot n ++ payload ++ rest) whole := by
    intro i inside other
    by_cases low : i < 512
    · rw [← sector i low other]
      apply storeBytes_outside
      apply le_offset (by decide)
      left
      rw [toNat_ofNat_word (by unfold bootBase; omega)]
      show _ < 0x7e00
      unfold bootBase
      omega
    · have place : bootBase + i = 0x7e00 + (i - 512) := by
        unfold bootBase
        omega
      have stored := storeBytes_inside m 0x7e00#32 512 (i - 512)
        (fun i => (patchSize boot n ++ payload ++ rest).getD (512 + i) 0#8) (by omega) (by decide)
      rw [show 512 + (i - 512) = i by omega] at stored
      rw [place, BitVec.ofNat_add]
      exact stored
  have changes : Changes (fun x => 0x7e00 ≤ x) whole m := by
    intro x outside
    have below : x.toNat < 0x7e00 := by omega
    exact (storeBytes_outside m 0x7e00#32 x 512 _ (le_offset (by decide) (.inl below))).symm
  apply (text.message size booted off).kept changes
  intro x lower upper
  omega

/-- The first load completes the boot block. -/
theorem BootSector.booted {labels : Labels} (sector : BootSector labels image m)
    (data : ∀ i < 512, m' (BitVec.ofNat 32 (0x7e00 + i)) = image.getD (512 + i) 0#8)
    (changes : Changes (PassScratch labels 0x7c00 0x7e00 1) m m') : Booted labels image m' := by
  intro i inside other
  by_cases low : i < 512
  · rw [← sector i low other]
    apply changes
    rw [toNat_ofNat_word (by unfold bootBase; omega)]
    unfold PassScratch Scratch
    unfold bootBase at other ⊢
    omega
  · have here := data (i - 512) (by omega)
    have place : bootBase + i = 0x7e00 + (i - 512) := by
      unfold bootBase
      omega
    rw [show 512 + (i - 512) = i by omega] at here
    rw [place]
    exact here

theorem Booted.kept {labels : Labels} {S : Nat → Prop} (booted : Booted labels image m) (changes : Changes S m m')
    (off : ∀ x, 0x7c00 ≤ x → x < 0x8000 → x ≠ labels.retrycnt.toNat → ¬ S x) : Booted labels image m' := by
  intro i inside other
  rw [← booted i inside other]
  apply changes
  rw [toNat_ofNat_word (by unfold bootBase; omega)]
  exact off _ (by unfold bootBase; omega) (by unfold bootBase; omega) other

/-- What both loads leave: the boot block, the kernel, and all memory behind it as it was. -/
structure Loads (l : BlockLabels) (image : List Byte) (n : Nat) (c c' : Cpu) : Prop where
  esp : c'.esp = c.esp
  eip : c'.eip = l.loaded.zeroExtend 32
  booted : Booted l.toLabels image c'.mem
  kernel : ∀ i < 512 * n, c'.mem (BitVec.ofNat 32 (0x100000 + i)) = image.getD (1024 + i) 0#8
  mem : Changes (fun x => x < 0x100000 + 512 * n) c.mem c'.mem

theorem loads_spec {n size : Nat} (assembled : l.Assembled boot) (imageIs : image = patchSize boot size ++ payload ++ rest)
    (count : blocks size = n) (some : 0 < n) (fits : n ≤ 2878) (teletype : Teletype bios.int10)
    (reads : ReadsDisk bios.int13 fun i => image.getD i 0#8) (stack : c.sp = 0x7c00#16) (sector : BootSector l.toLabels image c.mem)
    (enough : n + 8 < fuel) :
    ∃ first rest, loadFirst bios l.toLabels l.firstLoaded fuel c = Option.some (.ret first) ∧
      first.cpu.eip = l.firstLoaded.zeroExtend 32 ∧
      loadRest (bios.after first.requests) l.toLabels fuel first.cpu = Option.some (.ret rest) ∧ Loads l image n c rest.cpu := by
  have data := assembled.bootData
  have low := assembled.low
  have high := assembled.high
  have dotPlace : l.toLabels.dot.toNat = l.data.toNat + 37 := assembled.toNat_datum (by decide)
  have retrycnt : l.toLabels.retrycnt.toNat = l.data.toNat + 63 := assembled.toNat_datum (by decide)
  subst imageIs
  have dot := sector.message data.dot data.size data.retrycntDot (by omega)
  obtain ⟨first, ran, esp, eip, second, changes⟩ := loadFirst_spec l.firstLoaded teletype reads stack dot (by omega) (by omega)
    (by omega) data.retrycntDot (show 1 + 1 < fuel by omega)
  have booted := sector.booted second changes
  have sp : first.cpu.sp = 0x7c00#16 := by rw [Cpu.sp, esp]; exact stack
  have cx := load16_sectors data.size data.retrycntLow booted (by omega)
  rw [count] at cx
  have loadmsg := data.loadmsg.message data.size booted data.retrycntLoadmsg
  have dot := data.dot.message data.size booted data.retrycntDot
  have prints : Teletype (bios.after first.requests).int10 := teletype
  obtain ⟨rest, loaded, espRest, eipRest, kernel, -, -⟩ := loadRest_spec prints (reads.after first.requests) data sp some fits cx loadmsg dot (show n + 1 + 7 < fuel by omega)
  have later := loadRest_changes prints (reads.after first.requests) data sp some fits cx
    loadmsg dot (show n + 1 + 7 < fuel by omega) loaded
  refine ⟨first, rest, ran, eip, loaded, espRest.trans esp, eipRest, ?_, kernel, ?_⟩
  · apply booted.kept later
    intro x lower upper other inside
    unfold PassScratch Scratch at inside
    omega
  · apply (changes.mono fun x inside => ?_).trans (later.mono fun x inside => ?_)
    all_goals unfold PassScratch Scratch at inside
    all_goals omega

end

/-! ### Up to the switch to protected mode -/

/-- The variables and the descriptors, with the memory map collected. -/
structure Collected (l : BlockLabels) (answers : List MapAnswer) (m : Memory) : Prop where
  vesaInfo : m.load32 l.vesaInfo = 0#32
  info : m.load32 l.extMemInfo = 0x7000#32
  count : (m l.extMemCount).toNat = (entries answers).length
  entries : ∀ i entry, (entries answers)[i]? = some entry → BytesAt m (entryAddress i) entry.bytes
  gdt : ∀ i < 24, m (l.gdt + BitVec.ofNat 32 i) = (gdtBytes (l.datum 39)).getD i 0#8

section

variable {bios : Bios} {l : BlockLabels} {boot payload rest image : List Byte} {m m' : Memory} {c : Cpu} {fuel : Nat}
  {answers : List MapAnswer}

theorem load32_zero {a : Word} (zero : ∀ i < 4, m (a + BitVec.ofNat 32 i) = 0#8) : m.load32 a = 0#32 := by
  rw [load32_congr (m := fun _ => 0#8) zero]
  simp only [load32]
  decide

theorem disableFloppyMotor_spec (returnAddress : BitVec 16) (stack : c.sp = 0x7c00#16) :
    (disableFloppyMotor (c.push16 returnAddress)).eip = returnAddress.zeroExtend 32 ∧
      (disableFloppyMotor (c.push16 returnAddress)).esp = c.esp ∧
      Changes (Scratch 0x7c00) c.mem (disableFloppyMotor (c.push16 returnAddress)).mem := by
  have top := toNat_bootStack stack
  have pushes := Cpu.changes_push16 (c := c) returnAddress (by omega)
  let stops : Cpu :=
    { c.push16 returnAddress with
      eax := setLo8 (c.push16 returnAddress).eax 0#8, edx := setLo16 (c.push16 returnAddress).edx 0x3f2#16 }
  have same : Changes (fun _ => False) (c.push16 returnAddress).mem stops.mem := Changes.refl _ _
  obtain ⟨eip, esp⟩ := Cpu.push16_ret16 returnAddress (by omega) rfl same fun _ _ _ => id
  refine ⟨eip, esp, pushes.mono fun x inside => ?_⟩
  unfold Scratch
  omega

/-- Nothing but the map and its two variables has changed since the boot block was loaded. -/
theorem collected_spec {n : Nat} (assembled : l.Assembled boot) (booted : Booted l.toLabels (patchSize boot n ++ payload ++ rest) c.mem)
    {c' : Cpu} (mapped : Mapped l.toMapLabels answers c c') : Collected l answers c'.mem := by
  have low := assembled.low
  have high := assembled.high
  have info : l.toMapLabels.extMemInfo.toNat = l.data.toNat + 69 := assembled.toNat_datum (by decide)
  have count : l.toMapLabels.extMemCount.toNat = l.data.toNat + 73 := assembled.toNat_datum (by decide)
  have kept {k : Nat} (inside : k < 69) (other : k ≠ 63) : c'.mem (l.place k) = l.dataSection.getD k 0#8 := by
    have place := assembled.toNat_place (k := k) (by omega)
    rw [← assembled.loaded booted (by omega) other]
    apply mapped.mem
    rw [place]
    unfold MapScratch
    omega
  constructor
  case vesaInfo =>
    apply load32_zero
    intro i small
    show c'.mem (l.place 65 + BitVec.ofNat 32 i) = _
    rw [assembled.place_add (by omega), kept (by omega) (by omega), show 65 + i = 63 + (2 + i) by omega,
      BlockLabels.Assembled.dataSection_variable]
    revert i
    decide
  case info => exact mapped.info
  case count => exact mapped.count
  case entries => exact mapped.entries
  case gdt =>
    intro i small
    show c'.mem (l.place 39 + BitVec.ofNat 32 i) = _
    rw [assembled.place_add (by omega), kept (by omega) (by omega), BlockLabels.Assembled.dataSection_gdt l small]

theorem BlockLabels.Assembled.mapValid (assembled : l.Assembled boot) : l.toMapLabels.Valid := by
  have low := assembled.low
  have info : l.toMapLabels.extMemInfo.toNat = l.data.toNat + 69 := assembled.toNat_datum (by decide)
  have count : l.toMapLabels.extMemCount.toNat = l.data.toNat + 73 := assembled.toNat_datum (by decide)
  exact ⟨by omega, by omega⟩

/-- From the return of the second `load_floppy` to that of `find_mem_size_real`. -/
theorem collects_spec {n : Nat} (assembled : l.Assembled boot) (booted : Booted l.toLabels (patchSize boot n ++ payload ++ rest) c.mem)
    (stack : c.sp = 0x7c00#16) (teletype : Teletype bios.int10) (finished : Finished answers)
    (sizes : ∀ answer ∈ answers, answer.bytes.length ≤ 32) (fits : Fits answers) (enough : 4 < fuel) :
    let disabled := disableFloppyMotor (c.push16 l.motorDisabled)
    ∃ shown s, returned l.motorDisabled disabled = some disabled ∧
      print bios l.okmsgPrinted fuel { disabled with esi := setLo16 disabled.esi l.okmsg } = some shown ∧
      findMemSizeReal l.toMapLabels answers (shown.push16 l.mapCollected) = some s ∧
      returned l.mapCollected s.cpu = some s.cpu ∧ Collected l answers s.cpu.mem ∧
      Changes (fun x => x < 0x100000) c.mem s.cpu.mem := by
  intro disabled
  have low := assembled.low
  have high := assembled.high
  have retrycnt : l.toLabels.retrycnt.toNat = l.data.toNat + 63 := assembled.toNat_datum (by decide)
  have okmsg : l.okmsg.toNat = l.data.toNat + 32 := assembled.toNat_datum (by decide)
  obtain ⟨eip, esp, quiet⟩ := disableFloppyMotor_spec l.motorDisabled stack
  let prints : Cpu := { disabled with esi := setLo16 disabled.esi l.okmsg }
  have sp : prints.sp = 0x7c00#16 := (congrArg lo16 esp).trans stack
  have top := toNat_bootStack sp
  have off (x : Nat) (lower : 0x7c00 ≤ x) (upper : x < 0x8000) : ¬ Scratch 0x7c00 x := by
    unfold Scratch
    omega
  have bootedPrint := booted.kept quiet fun x lower upper _ => off x lower upper
  have message : Message prints.mem (lo16 prints.esi) 4 := by
    show Message _ (lo16 (setLo16 _ l.okmsg)) 4
    rw [lo16_setLo16]
    exact assembled.okmsg_text.message assembled.size bootedPrint (by omega)
  obtain ⟨shown, ran, unprinted⟩ := print_spec teletype l.okmsgPrinted message (Nat.le_of_eq top) (by omega) enough
  have spShown : shown.sp = 0x7c00#16 := (congrArg lo16 unprinted.regs.esp).trans sp
  have scratch := unprinted.mem
  rw [top] at scratch
  have bootedMap := bootedPrint.kept scratch fun x lower upper _ => off x lower upper
  have zero := assembled.loaded bootedMap (k := 63 + 10) (by decide) (by decide)
  rw [BlockLabels.Assembled.dataSection_variable] at zero
  obtain ⟨s, collects, eipMap, mapped⟩ := findMemSizeReal_spec assembled.mapValid shown l.mapCollected spShown zero finished sizes fits
  have info : l.toMapLabels.extMemInfo.toNat = l.data.toNat + 69 := assembled.toNat_datum (by decide)
  have count : l.toMapLabels.extMemCount.toNat = l.data.toNat + 73 := assembled.toNat_datum (by decide)
  refine ⟨shown, s, if_pos eip, ran, collects, if_pos eipMap, collected_spec assembled bootedMap mapped, ?_⟩
  have toMap : Changes (Scratch 0x7c00) c.mem shown.mem := quiet.trans scratch
  apply (toMap.mono fun x inside => ?_).trans (mapped.mem.mono fun x inside => ?_)
  · unfold Scratch at inside
    omega
  · unfold MapScratch at inside
    omega

end

/-! ### Protected mode -/

/-- The switch has set `in_vesa` and made both segments 32-bit ones. -/
structure Entered (l : BlockLabels) (answers : List MapAnswer) (m : Memory) : Prop where
  vesaInfo : m.load32 l.vesaInfo = 0#32
  inVesa : m l.inVesa = 0#8
  info : m.load32 l.extMemInfo = 0x7000#32
  count : (m l.extMemCount).toNat = (entries answers).length
  entries : ∀ i entry, (entries answers)[i]? = some entry → BytesAt m (entryAddress i) entry.bytes
  code : loadSegment m (l.gdt + 8#32) = ⟨0#32, 0xfffff#20, true, 0b11010#5, 0#2, true⟩
  data : loadSegment m (l.gdt + 16#32) = ⟨0#32, 0xfffff#20, true, 0b10010#5, 0#2, true⟩
  /-- The D bits. -/
  wide : (m (l.gdt + 14#32)).getLsbD 6 = true ∧ (m (l.gdt + 22#32)).getLsbD 6 = true

section

variable {l : BlockLabels} {boot : List Byte} {m m' : Memory} {c : Cpu} {fuel : Nat} {answers : List MapAnswer}

theorem Entered.kept {S : Nat → Prop} (assembled : l.Assembled boot) (entered : Entered l answers m) (finished : Finished answers)
    (fits : Fits answers) (changes : Changes S m m') (off : ∀ x, 0x7000 ≤ x → x < 0x8000 → ¬ S x) : Entered l answers m' := by
  have low := assembled.low
  have high := assembled.high
  have gdt := assembled.toNat_place (k := 39) (by decide)
  have inVesa := assembled.toNat_place (k := 64) (by decide)
  have vesaInfo := assembled.toNat_place (k := 65) (by decide)
  have info := assembled.toNat_place (k := 69) (by decide)
  have count := assembled.toNat_place (k := 73) (by decide)
  have gdtAdd {k : Nat} (inside : k < 24) : (l.gdt + BitVec.ofNat 32 k).toNat = l.data.toNat + 39 + k := by
    show (l.place 39 + BitVec.ofNat 32 k).toNat = _
    rw [BitVec.toNat_add, BitVec.toNat_ofNat]
    omega
  have gdt8 := gdtAdd (k := 8) (by decide)
  have gdt16 := gdtAdd (k := 16) (by decide)
  have gdt14 := gdtAdd (k := 14) (by decide)
  have gdt22 := gdtAdd (k := 22) (by decide)
  constructor
  case vesaInfo =>
    rw [← entered.vesaInfo]
    exact changes.load32 (by rw [BlockLabels.vesaInfo]; omega) fun i small => off _ (by rw [BlockLabels.vesaInfo]; omega)
      (by rw [BlockLabels.vesaInfo]; omega)
  case inVesa =>
    rw [← entered.inVesa]
    exact changes _ (off _ (by rw [BlockLabels.inVesa]; omega) (by rw [BlockLabels.inVesa]; omega))
  case info =>
    rw [← entered.info]
    exact changes.load32 (by rw [BlockLabels.extMemInfo]; omega) fun i small => off _ (by rw [BlockLabels.extMemInfo]; omega)
      (by rw [BlockLabels.extMemInfo]; omega)
  case count =>
    rw [← entered.count]
    exact congrArg BitVec.toNat (changes _ (off _ (by rw [BlockLabels.extMemCount]; omega) (by rw [BlockLabels.extMemCount]; omega)))
  case entries =>
    intro i entry at_
    apply (entered.entries i entry at_).changed changes
    intro j inside
    obtain ⟨place, below⟩ := fits.room finished at_ inside
    exact off _ (by omega) (by omega)
  case code =>
    rw [← entered.code]
    exact loadSegment_congr (changes.entry (by omega) fun i small => off _ (by omega) (by omega))
  case data =>
    rw [← entered.data]
    exact loadSegment_congr (changes.entry (by omega) fun i small => off _ (by omega) (by omega))
  case wide =>
    have code := changes (l.gdt + 14#32) (off _ (by omega) (by omega))
    have data := changes (l.gdt + 22#32) (off _ (by omega) (by omega))
    rw [code, data]
    exact entered.wide

theorem loadSegment_bytes {a : Word} {b : Nat → Byte} (bytes : ∀ i < 8, m (a + BitVec.ofNat 32 i) = b i) :
    loadSegment m a = ⟨b 7 ++ b 4 ++ (b 3 ++ b 2), (b 6).extractLsb' 0 4 ++ (b 1 ++ b 0), (b 6).getLsbD 7,
      (b 5).extractLsb' 0 5, (b 5).extractLsb' 5 2, (b 5).getLsbD 7⟩ := by
  have b0 := bytes 0 (by decide)
  have b1 := bytes 1 (by decide)
  have b2 := bytes 2 (by decide)
  have b3 := bytes 3 (by decide)
  have b4 := bytes 4 (by decide)
  have b5 := bytes 5 (by decide)
  have b6 := bytes 6 (by decide)
  have b7 := bytes 7 (by decide)
  rw [BitVec.add_zero] at b0
  have next : a + 2#32 + 1#32 = a + 3#32 := by rw [BitVec.add_assoc]; rfl
  simp only [loadSegment, load16, next, b0, b1, b2, b3, b4, b5, b6, b7]

/-- The descriptors of 32-bit segments. -/
def wideBytes : List Byte := (segmentBytes.set 6 0xcf#8).set 14 0xcf#8

theorem address_bytes (v : BitVec 16) :
    (0#8 ++ 0#8 ++ v.extractLsb' 8 8 ++ v.extractLsb' 0 8 : Word) &&& 0xffffff#32 = v.zeroExtend 32 := by
  apply BitVec.eq_of_toNat_eq
  have mask : (0xffffff#32 : Word).toNat = 2^24 - 1 := rfl
  have bound := v.isLt
  rw [BitVec.toNat_and, mask, Nat.and_two_pow_sub_one_eq_mod]
  simp only [toNat_append, BitVec.extractLsb'_toNat, BitVec.zeroExtend, BitVec.toNat_setWidth, BitVec.toNat_ofNat,
    Nat.shiftRight_eq_div_pow]
  omega

/-- Protected mode is entered with flat 32-bit segments, on a stack of its own. -/
theorem enterProtected_spec (assembled : l.Assembled boot) (collected : Collected l answers c.mem) (finished : Finished answers)
    (fits : Fits answers) (cr0 : Word) :
    (enterProtected l cr0 c).1.esp = 0x10000#32 ∧ (enterProtected l cr0 c).2 = ⟨0xffff#16, l.gdt⟩ ∧
      Entered l answers (enterProtected l cr0 c).1.mem ∧
      Changes (fun x => x < 0x10000) c.mem (enterProtected l cr0 c).1.mem := by
  have low := assembled.low
  have high := assembled.high
  have gdt : l.gdt.toNat = l.data.toNat + 39 := assembled.toNat_place (by decide)
  have inVesa : l.inVesa.toNat = l.data.toNat + 64 := assembled.toNat_place (by decide)
  have vesaInfo : l.vesaInfo.toNat = l.data.toNat + 65 := assembled.toNat_place (by decide)
  have info : l.extMemInfo.toNat = l.data.toNat + 69 := assembled.toNat_place (by decide)
  have count : l.extMemCount.toNat = l.data.toNat + 73 := assembled.toNat_place (by decide)
  have gdtAdd {k : Nat} (inside : k < 24) : (l.gdt + BitVec.ofNat 32 k).toNat = l.data.toNat + 39 + k := by
    rw [BitVec.toNat_add, BitVec.toNat_ofNat]
    omega
  have al : lo8 (setLo16 c.eax 0#16) = 0#8 := BitVec.eq_of_toNat_eq (toNat_lo8_setLo16 c.eax 0#16)
  have mem : (enterProtected l cr0 c).1.mem =
      ((c.mem.store8 l.inVesa 0#8).store8 (l.gdt + 14#32) 0xcf#8).store8 (l.gdt + 22#32) 0xcf#8 := by
    simp only [enterProtected, al, lo8_setLo8]
  have code := gdtAdd (k := 14) (by decide)
  have data := gdtAdd (k := 22) (by decide)
  have changes : Changes (fun x => x = l.data.toNat + 64 ∨ x = l.data.toNat + 53 ∨ x = l.data.toNat + 61) c.mem
      (enterProtected l cr0 c).1.mem := by
    rw [mem]
    refine ((changes_store8 _ _ _).mono fun x same => ?_).trans (((changes_store8 _ _ _).mono fun x same => ?_).trans
      ((changes_store8 _ _ _).mono fun x same => ?_))
    all_goals omega
  have kept {i : Nat} (inside : i < 24) (first : i ≠ 14) (second : i ≠ 22) :
      (enterProtected l cr0 c).1.mem (l.gdt + BitVec.ofNat 32 i) = (gdtBytes (l.datum 39)).getD i 0#8 := by
    have here := gdtAdd inside
    rw [← collected.gdt i inside]
    apply changes
    omega
  have bytes (i : Nat) (inside : i < 16) :
      (enterProtected l cr0 c).1.mem (l.gdt + BitVec.ofNat 32 (8 + i)) = wideBytes.getD i 0#8 := by
    by_cases first : i = 6
    · rw [first, mem]
      exact (store8_outside _ _ fun same => by rw [same] at code; omega).trans (store8_same _ _ _)
    · by_cases second : i = 14
      · rw [second, mem]
        exact store8_same _ _ _
      · rw [kept (by omega) (by omega) (by omega), List.getD_eq_getElem?_getD, List.getD_eq_getElem?_getD, wideBytes,
          List.getElem?_set_ne (by omega), List.getElem?_set_ne (by omega), gdtBytes,
          List.getElem?_append_right (Nat.le_add_right 8 i)]
        exact congrArg (fun k => (segmentBytes[k]?).getD 0#8) (Nat.add_sub_cancel_left 8 i)
  have segment (k : Nat) (inside : k + 8 ≤ 16) : ∀ i < 8,
      (enterProtected l cr0 c).1.mem (l.gdt + BitVec.ofNat 32 (8 + k) + BitVec.ofNat 32 i) = wideBytes.getD (k + i) 0#8 := by
    intro i small
    rw [BitVec.add_assoc, ← BitVec.ofNat_add, Nat.add_assoc]
    exact bytes (k + i) (by omega)
  refine ⟨rfl, ?_, ?_, changes.mono fun x inside => by omega⟩
  · have low (i : Nat) (small : i < 6) := kept (i := i) (by omega) (by omega) (by omega)
    have limit0 : (enterProtected l cr0 c).1.mem (l.gdt + BitVec.ofNat 32 0) = 0xff#8 := low 0 (by decide)
    have limit1 : (enterProtected l cr0 c).1.mem (l.gdt + BitVec.ofNat 32 1) = 0xff#8 := low 1 (by decide)
    have base0 : (enterProtected l cr0 c).1.mem (l.gdt + BitVec.ofNat 32 2) = (l.datum 39).extractLsb' 0 8 := low 2 (by decide)
    have base1 : (enterProtected l cr0 c).1.mem (l.gdt + BitVec.ofNat 32 3) = (l.datum 39).extractLsb' 8 8 := low 3 (by decide)
    have base2 : (enterProtected l cr0 c).1.mem (l.gdt + BitVec.ofNat 32 4) = 0#8 := low 4 (by decide)
    have base3 : (enterProtected l cr0 c).1.mem (l.gdt + BitVec.ofNat 32 5) = 0#8 := low 5 (by decide)
    rw [BitVec.add_zero] at limit0
    have table : (enterProtected l cr0 c).2 = lgdt16 (enterProtected l cr0 c).1.mem l.gdt := rfl
    have address := address_bytes (l.datum 39)
    have at3 : l.gdt + 2#32 + 1#32 = l.gdt + 3#32 := by rw [BitVec.add_assoc]; rfl
    have at4 : l.gdt + 2#32 + 2#32 = l.gdt + 4#32 := by rw [BitVec.add_assoc]; rfl
    have at5 : l.gdt + 2#32 + 3#32 = l.gdt + 5#32 := by rw [BitVec.add_assoc]; rfl
    rw [table]
    simp only [lgdt16, load16, load32, limit0, limit1, at3, at4, at5, base0, base1, base2, base3]
    exact congrArg (TablePointer.mk 0xffff#16) address
  · constructor
    case vesaInfo =>
      rw [← collected.vesaInfo]
      exact changes.load32 (by omega) fun i small => by omega
    case inVesa =>
      rw [mem, store8_outside _ _ fun same => by rw [same] at inVesa; omega,
        store8_outside _ _ fun same => by rw [same] at inVesa; omega]
      exact store8_same _ _ _
    case info =>
      rw [← collected.info]
      exact changes.load32 (by omega) fun i small => by omega
    case count =>
      rw [← collected.count]
      exact congrArg BitVec.toNat (changes _ (by omega))
    case entries =>
      intro i entry at_
      apply (collected.entries i entry at_).changed changes
      intro j inside
      obtain ⟨place, below⟩ := fits.room finished at_ inside
      omega
    case code => exact (loadSegment_bytes (segment 0 (by decide))).trans rfl
    case data => exact (loadSegment_bytes (segment 8 (by decide))).trans rfl
    case wide =>
      have code := bytes 6 (by decide)
      have data := bytes 14 (by decide)
      rw [show l.gdt + 14#32 = l.gdt + BitVec.ofNat 32 (8 + 6) from rfl, code,
        show l.gdt + 22#32 = l.gdt + BitVec.ofNat 32 (8 + 14) from rfl, data]
      decide

end

/-! ### The arguments -/

/-- The stack of the 32-bit code, as deep as it gets. -/
def BootStack (x : Nat) : Prop := 0xffe8 ≤ x ∧ x < 0x10000

theorem changes_bootStack (m : Memory) (a v : Word) (low : 0xffe8 ≤ a.toNat) (high : a.toNat + 4 ≤ 0x10000) :
    Changes BootStack m (m.store32 a v) := by
  apply (changes_store32 m a v (by omega)).mono
  intro x inside
  unfold BootStack
  omega

section

variable {l : BlockLabels} {boot : List Byte} {m : Memory} {c : Cpu} {fuel n : Nat} {answers : List MapAnswer}
  {fitted : Nat → Prop} [DecidablePred fitted]

omit [DecidablePred fitted] in
theorem Floats.kept {S : Nat → Prop} {m' : Memory} (floats : Floats fitted m n) (room : 0x100ff0 + 0x1000 * n + 4 ≤ 2^32)
    (changes : Changes S m m') (off : ∀ x, 0x100000 + 0x1000 * n ≤ x → ¬ fitted x → ¬ S x) : Floats fitted m' n := by
  obtain ⟨i, small, absent, other⟩ := floats
  have place : (probed n + BitVec.ofNat 32 i).toNat = 0x100ff0 + 0x1000 * n + i := by
    rw [probed, BitVec.toNat_add, BitVec.toNat_ofNat, BitVec.toNat_ofNat]
    omega
  refine ⟨i, small, absent, ?_⟩
  rw [changes _ (off _ (by omega) absent)]
  exact other

/-- The four arguments that do not depend on the probe. -/
def pushed (count : Word) (m : Memory) : Memory :=
  (((m.store32 0xfffc#32 0#32).store32 0xfff8#32 0#32).store32 0xfff4#32 count).store32 0xfff0#32 0x7000#32

theorem changes_pushed (count : Word) (m : Memory) : Changes BootStack m (pushed count m) :=
  (((changes_bootStack m _ _ (by decide) (by decide)).trans (changes_bootStack _ _ _ (by decide) (by decide))).trans
    (changes_bootStack _ _ _ (by decide) (by decide))).trans (changes_bootStack _ _ _ (by decide) (by decide))

theorem pushed_loads (count v : Word) (m : Memory) :
    ((pushed count m).store32 0xffec#32 v).load32 0xffec#32 = v ∧
    ((pushed count m).store32 0xffec#32 v).load32 0xfff0#32 = 0x7000#32 ∧
    ((pushed count m).store32 0xffec#32 v).load32 0xfff4#32 = count ∧
    ((pushed count m).store32 0xffec#32 v).load32 0xfff8#32 = 0#32 ∧
    ((pushed count m).store32 0xffec#32 v).load32 0xfffc#32 = 0#32 := by
  unfold pushed
  simp (disch := decide) only [load32_store32, load32_store32_apart, and_self]

variable (fuel fitted) in
theorem pushArguments_eq (assembled : l.Assembled boot) (entered : Entered l answers c.mem) (few : (entries answers).length < 256)
    (esp : c.esp = 0x10000#32) : ∃ c' : Cpu, c'.esp = 0xfff0#32 ∧ c'.mem = pushed (BitVec.ofNat 32 (entries answers).length) c.mem ∧
      pushArguments l fitted fuel c = if entries answers ≠ [] then some (c'.push32 0#32)
        else (findMemSizeProbe fitted fuel (c'.push32 l.probeReturn)).bind fun c =>
          if c.eip = l.probeReturn then some (c.push32 c.eax) else none := by
  have low := assembled.low
  have high := assembled.high
  have inVesa : l.inVesa.toNat = l.data.toNat + 64 := assembled.toNat_place (by decide)
  have info : l.extMemInfo.toNat = l.data.toNat + 69 := assembled.toNat_place (by decide)
  have count : l.extMemCount.toNat = l.data.toNat + 73 := assembled.toNat_place (by decide)
  have first := changes_bootStack c.mem 0xfffc#32 0#32 (by decide) (by decide)
  have second := first.trans (changes_bootStack _ 0xfff8#32 0#32 (by decide) (by decide))
  have third := second.trans (changes_bootStack _ 0xfff4#32 (BitVec.ofNat 32 (entries answers).length) (by decide) (by decide))
  have vesa := (first l.inVesa (by unfold BootStack; omega)).trans entered.inVesa
  have counted := second l.extMemCount (by unfold BootStack; omega)
  have block := (third.load32 (a := l.extMemInfo) (by omega) fun i small => by unfold BootStack; omega).trans entered.info
  have zero : setLo8 0#32 0#8 = 0#32 := rfl
  have word1 : 0x10000#32 - 4#32 = 0xfffc#32 := rfl
  have word2 : 0xfffc#32 - 4#32 = 0xfff8#32 := rfl
  have word3 : 0xfff8#32 - 4#32 = 0xfff4#32 := rfl
  have word4 : 0xfff4#32 - 4#32 = 0xfff0#32 := rfl
  have byte : setLo8 0#32 (c.mem l.extMemCount) = BitVec.ofNat 32 (entries answers).length := by
    apply BitVec.eq_of_toNat_eq
    rw [toNat_setLo8, BitVec.toNat_ofNat, entered.count]
    simp only [BitVec.toNat_ofNat]
    omega
  have found : lo8 (BitVec.ofNat 32 (entries answers).length) ≠ 0#8 ↔ entries answers ≠ [] := by
    rw [← byte, lo8_setLo8, ← List.length_pos_iff, ← entered.count, Nat.pos_iff_ne_zero]
    exact not_congr ⟨fun same => by rw [same]; rfl, fun same => BitVec.eq_of_toNat_eq same⟩
  refine ⟨{ c with
    esp := 0xfff0#32
    mem := pushed (BitVec.ofNat 32 (entries answers).length) c.mem
    eax := BitVec.ofNat 32 (entries answers).length
    edx := 0x7000#32 }, rfl, rfl, ?_⟩
  unfold pushArguments pushed
  simp only [Cpu.push32, esp, word1, word2, word3, word4, entered.vesaInfo, vesa, zero, counted, byte, block, found, Option.bind_eq_bind]

/-- What the kernel is called with, and that the probe has left no trace in memory. -/
structure Called (answers : List MapAnswer) (n : Nat) (c c' : Cpu) : Prop where
  esp : c'.esp = 0xffec#32
  mem : c'.mem.load32 0xffec#32 = if entries answers = [] then BitVec.ofNat 32 (0x100000 + 0x1000 * n) else 0#32
  extMemBlock : c'.mem.load32 0xfff0#32 = 0x7000#32
  extMemCount : c'.mem.load32 0xfff4#32 = BitVec.ofNat 32 (entries answers).length
  inVesa : c'.mem.load32 0xfff8#32 = 0#32
  vesaPtr : c'.mem.load32 0xfffc#32 = 0#32
  changes : Changes BootStack c.mem c'.mem

theorem pushArguments_spec (assembled : l.Assembled boot) (entered : Entered l answers c.mem) (few : (entries answers).length < 256)
    (esp : c.esp = 0x10000#32) (room : 0x100ff0 + 0x1000 * n + 4 ≤ 2^32)
    (present : ∀ j < n, ∀ i < 4, fitted (probed j + BitVec.ofNat 32 i).toNat) (floats : Floats fitted c.mem n) (enough : n < fuel) :
    ∃ c', pushArguments l fitted fuel c = some c' ∧ Called answers n c c' := by
  obtain ⟨four, espFour, memFour, shape⟩ := pushArguments_eq fuel fitted assembled entered few esp
  have last : 0xfff0#32 - 4#32 = 0xffec#32 := rfl
  have arguments (v : Word) := pushed_loads (BitVec.ofNat 32 (entries answers).length) v c.mem
  have changes (v : Word) : Changes BootStack c.mem ((pushed (BitVec.ofNat 32 (entries answers).length) c.mem).store32 0xffec#32 v) :=
    (changes_pushed _ c.mem).trans (changes_bootStack _ 0xffec#32 v (by decide) (by decide))
  by_cases found : entries answers ≠ []
  · obtain ⟨mem, extMemBlock, extMemCount, inVesa, vesaPtr⟩ := arguments 0#32
    rw [if_pos found, Cpu.push32, espFour, memFour, last] at shape
    exact ⟨_, shape, rfl, mem.trans (if_neg found).symm, extMemBlock, extMemCount, inVesa, vesaPtr, changes 0#32⟩
  · obtain ⟨mem, extMemBlock, extMemCount, inVesa, vesaPtr⟩ := arguments (BitVec.ofNat 32 (0x100000 + 0x1000 * n))
    rw [if_neg found, Cpu.push32, espFour, memFour, last] at shape
    have floating := floats.kept room (changes l.probeReturn) fun x high _ inside => by
      unfold BootStack at inside
      omega
    obtain ⟨c', probes, eax, eip, back, same⟩ := findMemSizeProbe_spec
      (c := { four with
        esp := 0xffec#32, mem := (pushed (BitVec.ofNat 32 (entries answers).length) c.mem).store32 0xffec#32 l.probeReturn })
      present floating enough
    have returns : c'.eip = l.probeReturn := eip.trans (arguments l.probeReturn).1
    have top : c'.esp - 4#32 = 0xffec#32 := by
      rw [back]
      exact BitVec.add_sub_cancel _ _
    simp only [probes, Option.bind_some, returns, if_true, Cpu.push32, top, same, store32_store32, eax] at shape
    exact ⟨_, shape, rfl, mem.trans (if_pos (not_not.mp found)).symm, extMemBlock, extMemCount, inVesa, vesaPtr, changes _⟩

end

end ThreeX86.Boot
