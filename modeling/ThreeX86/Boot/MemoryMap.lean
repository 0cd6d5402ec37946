import ThreeX86.Boot.LoadFloppy
import ThreeX86.Machine.Strings

/-!
The memory map of `bootblock.S`: `find_mem_size_real` collects what int 15h, function e820, answers.
-/

namespace ThreeX86.Boot

open Machine Machine.Memory

/-- What one call of int 15h leaves in the registers, and the bytes it writes at `es:di`. -/
structure MapAnswer where
  carry : Bool
  eax : Word
  ebx : Word
  ecx : Word
  edx : Word
  bytes : List Byte

structure MapLabels where
  extMemInfo : BitVec 16
  extMemCount : BitVec 16

/-- The processor, and where the service has written how many bytes. -/
structure MapState where
  cpu : Cpu
  writes : List (Word × Nat)

def storeList (m : Memory) (a : Word) (l : List Byte) : Memory := m.storeBytes a l.length fun i => l.getD i 0#8

/-- The service keeps `edi`; `es` is null. -/
def int15 (answer : MapAnswer) (s : MapState) : MapState :=
  let buffer := (lo16 s.cpu.edi).zeroExtend 32
  { cpu := { s.cpu with
      eax := answer.eax
      ebx := answer.ebx
      ecx := answer.ecx
      edx := answer.edx
      cf := answer.carry
      mem := storeList s.cpu.mem buffer answer.bytes }
    writes := s.writes ++ [(buffer, answer.bytes.length)] }

section

variable (labels : MapLabels)

def countAddress : Word := labels.extMemCount.zeroExtend 32

/-- The loop, on the answers still to come. -/
def findMemNext : List MapAnswer → MapState → Option MapState
  | [], _ => none
  | answer :: answers, s =>
    let c := { s.cpu with eax := 0xe820#32 }
    let c := { c with edx := 0x534d4150#32 }
    let c := { c with ecx := 0x20#32 }
    let s := int15 answer { s with cpu := c }
    if s.cpu.cf then some { s with cpu := s.cpu.ret16 }
    else
      let c := s.cpu
      let c := { c with mem := c.mem.store8 (countAddress labels) (c.mem (countAddress labels) + 1#8) }
      let c := { c with edi := c.edi + 0x20#32 }
      if c.ebx ≠ 0#32 then findMemNext answers { s with cpu := c } else some { s with cpu := c.ret16 }

def findMemSizeReal (answers : List MapAnswer) (c : Cpu) : Option MapState :=
  let c := { c with ebx := 0#32 }
  let c := { c with edi := 0x7000#32 }
  let c := { c with mem := c.mem.store32 (labels.extMemInfo.zeroExtend 32) c.edi }
  findMemNext labels answers ⟨c, []⟩

end

/-! ### What the map is to be -/

/-- The answers up to the one that ends the loop. -/
def Finished : List MapAnswer → Prop
  | [] => False
  | answer :: answers => if answer.carry ∨ answer.ebx = 0#32 then answers = [] else Finished answers

def entries (answers : List MapAnswer) : List MapAnswer := answers.filter fun answer => !answer.carry

/-- A write between the buffer's start and the stack. -/
def InBuffer (stack : Nat) (write : Word × Nat) : Prop :=
  ∀ i < write.2, 0x7000 ≤ (write.1 + BitVec.ofNat 32 i).toNat ∧ (write.1 + BitVec.ofNat 32 i).toNat < stack

/-- The entries lie in the buffer, 32 bytes apart, and are counted. -/
structure Collects (labels : MapLabels) (stack : Nat) (answers : List MapAnswer) (s : MapState) : Prop where
  buffer : ∀ write ∈ s.writes, InBuffer stack write
  count : (s.cpu.mem (countAddress labels)).toNat = (entries answers).length
  entries : ∀ i entry, (entries answers)[i]? = some entry →
    BytesAt s.cpu.mem (BitVec.ofNat 32 (0x7000 + 0x20 * i)) entry.bytes

/-- Both variables are in the boot sector, behind its first instruction. -/
structure MapLabels.Valid (labels : MapLabels) : Prop where
  info : 0x7c00 ≤ labels.extMemInfo.toNat
  count : labels.extMemInfo.toNat + 4 ≤ labels.extMemCount.toNat

theorem MapLabels.Valid.high {labels : MapLabels} (valid : labels.Valid) : 0x7c04 ≤ (countAddress labels).toNat := by
  have info := valid.info
  have count := valid.count
  have bound := labels.extMemCount.isLt
  have address : (countAddress labels).toNat = labels.extMemCount.toNat := BitVec.toNat_setWidth_of_le (by decide)
  omega

/-- What is written fits below the return address at `0x7bfe`, and a byte can count the entries. -/
def Fits (answers : List MapAnswer) : Prop :=
  (∀ i answer, answers[i]? = some answer → answer.bytes ≠ [] → 0x20 * i + answer.bytes.length ≤ 0xbfe) ∧
    (entries answers).length < 256

/-! ### One answer -/

section

variable {labels : MapLabels} {answer : MapAnswer} {answers : List MapAnswer} {s : MapState} {stack k : Nat}

def collect (labels : MapLabels) (answer : MapAnswer) (s : MapState) : MapState :=
  let s := int15 answer s
  if answer.carry then s
  else { s with cpu := { s.cpu with
    mem := s.cpu.mem.store8 (countAddress labels) (s.cpu.mem (countAddress labels) + 1#8)
    edi := s.cpu.edi + 0x20#32 } }

theorem findMemNext_cons (labels : MapLabels) (answer : MapAnswer) (answers : List MapAnswer) (s : MapState) :
    findMemNext labels (answer :: answers) s =
      if answer.carry ∨ answer.ebx = 0#32 then
        some { collect labels answer s with cpu := (collect labels answer s).cpu.ret16 }
      else findMemNext labels answers (collect labels answer s) := by
  unfold collect
  cases carry : answer.carry with
  | true => simp [findMemNext, int15, carry]
  | false => simp [findMemNext, int15, carry]

theorem collect_writes (labels : MapLabels) (answer : MapAnswer) (s : MapState) :
    (collect labels answer s).writes = s.writes ++ [((lo16 s.cpu.edi).zeroExtend 32, answer.bytes.length)] := by
  unfold collect
  dsimp only
  split <;> rfl

theorem collect_edi (labels : MapLabels) (s : MapState) (more : answer.carry = false) :
    (collect labels answer s).cpu.edi = s.cpu.edi + 0x20#32 := by
  unfold collect
  dsimp only
  rw [if_neg (by rw [more]; decide)]
  rfl

theorem storeList_off {a x : Word} {l : List Byte} (inside : InBuffer stack (a, l.length)) (m : Memory)
    (high : stack ≤ x.toNat) : storeList m a l x = m x := by
  apply storeBytes_outside
  by_contra reached
  have below := inside (offset a x) (by omega)
  rw [add_offset] at below
  omega

theorem changes_storeList (m : Memory) {a : Word} {l : List Byte} (room : a.toNat + l.length ≤ 2^32) :
    Changes (fun x => a.toNat ≤ x ∧ x < a.toNat + l.length) m (storeList m a l) := by
  intro x outside
  apply storeBytes_outside
  apply le_offset room
  omega

theorem storeList_bytesAt (m : Memory) (a : Word) {l : List Byte} (short : l.length ≤ 2^32) :
    BytesAt (storeList m a l) a l := by
  apply bytesAt_of_get
  intro i inside
  unfold storeList
  rw [storeBytes_inside m a l.length i _ inside short, List.getD_eq_getElem?_getD, List.getElem?_eq_getElem inside]
  rfl

/-- The count goes up with each entry, as long as the service writes below it. -/
theorem collect_count (labels : MapLabels) (answer : MapAnswer) (s : MapState) (high : stack ≤ (countAddress labels).toNat)
    (inside : InBuffer stack ((lo16 s.cpu.edi).zeroExtend 32, answer.bytes.length)) :
    (collect labels answer s).cpu.mem (countAddress labels) =
      s.cpu.mem (countAddress labels) + BitVec.ofNat 8 (entries [answer]).length := by
  have kept := storeList_off inside s.cpu.mem high
  unfold collect entries
  dsimp only
  cases carry : answer.carry with
  | true =>
    rw [if_pos rfl]
    simp only [List.filter_cons, carry, Bool.not_true, Bool.false_eq_true, if_false, List.filter_nil, List.length_nil,
      BitVec.add_zero]
    exact kept
  | false =>
    rw [if_neg (by decide)]
    simp only [store8_same, List.filter_cons, carry, Bool.not_false, if_true, List.filter_nil, List.length_singleton]
    exact congrArg (· + 1#8) kept

/-! ### The loop -/

/-- Where the answers are written, from `edi` on. -/
def placed : List MapAnswer → Word → List (Word × Nat)
  | [], _ => []
  | answer :: answers, edi => ((lo16 edi).zeroExtend 32, answer.bytes.length) :: placed answers (edi + 0x20#32)

/-- The loop ends with the answers, whatever they are. -/
theorem findMemNext_run (labels : MapLabels) (stack : Nat) (high : stack ≤ (countAddress labels).toNat) (finished : Finished answers) (s : MapState) :
    ∃ s', findMemNext labels answers s = some s' ∧ s'.writes = s.writes ++ placed answers s.cpu.edi ∧
      ((∀ write ∈ placed answers s.cpu.edi, InBuffer stack write) →
        s'.cpu.mem (countAddress labels) =
          s.cpu.mem (countAddress labels) + BitVec.ofNat 8 (entries answers).length) := by
  induction answers generalizing s with
  | nil => exact absurd finished id
  | cons answer answers ih =>
    have writes := collect_writes labels answer s
    have counts := collect_count labels answer s high
    rw [findMemNext_cons]
    unfold Finished at finished
    split at finished
    · next last =>
      subst finished
      rw [if_pos last]
      exact ⟨_, rfl, writes, fun inside => counts (inside _ List.mem_cons_self)⟩
    · next more =>
      obtain ⟨carry, -⟩ := not_or.mp more
      obtain ⟨s', run, written, counted⟩ := ih finished (collect labels answer s)
      rw [collect_edi labels s (eq_false_of_ne_true carry)] at written counted
      rw [if_neg more]
      refine ⟨s', run, ?_, ?_⟩
      · rw [written, writes, List.append_assoc]
        rfl
      · intro inside
        rw [counted fun write member => inside write (List.mem_cons_of_mem _ member),
          counts (inside _ List.mem_cons_self), BitVec.add_assoc, ← BitVec.ofNat_add, ← List.length_append]
        unfold entries
        rw [← List.filter_append, List.singleton_append]

/-- `edi` at entry `k` of the buffer. -/
def entryAddress (k : Nat) : Word := BitVec.ofNat 32 (0x7000 + 0x20 * k)

theorem toNat_entryAddress_add {i : Nat} (small : 0x20 * k + i < 2^16) :
    (entryAddress k + BitVec.ofNat 32 i).toNat = 0x7000 + 0x20 * k + i := by
  unfold entryAddress
  rw [← BitVec.ofNat_add, toNat_ofNat_word (by omega)]

theorem toNat_entryAddress (small : k < 1024) : (entryAddress k).toNat = 0x7000 + 0x20 * k := by
  have place := toNat_entryAddress_add (k := k) (i := 0) (by omega)
  rwa [BitVec.add_zero] at place

theorem entryAddress_succ (k : Nat) : entryAddress k + 0x20#32 = entryAddress (k + 1) := by
  unfold entryAddress
  rw [show 0x7000 + 0x20 * (k + 1) = 0x7000 + 0x20 * k + 0x20 by omega, BitVec.ofNat_add (0x7000 + 0x20 * k)]

theorem lo16_entryAddress (small : k < 1024) : (lo16 (entryAddress k)).zeroExtend 32 = entryAddress k := by
  have address := toNat_entryAddress (k := k) (by omega)
  apply BitVec.eq_of_toNat_eq
  unfold lo16
  simp only [BitVec.truncate_eq_setWidth, BitVec.toNat_setWidth, BitVec.extractLsb'_toNat, Nat.shiftRight_zero]
  omega

/-- Where the loop writes from entry `k` on. -/
def FromEntry (labels : MapLabels) (k : Nat) (x : Nat) : Prop :=
  (0x7000 + 0x20 * k ≤ x ∧ x < 0x7bfe) ∨ x = (countAddress labels).toNat

def FitsFrom (k : Nat) (answers : List MapAnswer) : Prop :=
  ∀ i answer, answers[i]? = some answer → answer.bytes ≠ [] → 0x20 * (k + i) + answer.bytes.length ≤ 0xbfe

theorem FitsFrom.tail (fits : FitsFrom k (answer :: answers)) : FitsFrom (k + 1) answers := by
  intro i next at_ some_
  have bound := fits (i + 1) next (by rw [List.getElem?_cons_succ, at_]) some_
  omega

theorem collect_changes (valid : labels.Valid) (small : k < 1024) (edi : s.cpu.edi = entryAddress k)
    (fits : FitsFrom k (answer :: answers)) (size : answer.bytes.length ≤ 32) :
    Changes (FromEntry labels k) s.cpu.mem (collect labels answer s).cpu.mem ∧
      BytesAt (collect labels answer s).cpu.mem (entryAddress k) answer.bytes := by
  have address := toNat_entryAddress (k := k) (by omega)
  have high := valid.high
  have bound (i : Nat) (inside : i < answer.bytes.length) : 0x20 * k + i < 0xbfe := by
    have whole := fits 0 answer rfl (List.ne_nil_of_length_pos (by omega))
    omega
  have stored : Changes (FromEntry labels k) s.cpu.mem (storeList s.cpu.mem (entryAddress k) answer.bytes) := by
    apply (changes_storeList s.cpu.mem (by omega)).mono
    intro x inside
    have within := bound (x - (0x7000 + 0x20 * k)) (by omega)
    left
    omega
  have text := storeList_bytesAt s.cpu.mem (entryAddress k) (l := answer.bytes) (by omega)
  unfold collect int15
  dsimp only
  rw [edi, lo16_entryAddress small]
  split
  · exact ⟨stored, text⟩
  · have counted := changes_store8 (storeList s.cpu.mem (entryAddress k) answer.bytes) (countAddress labels)
      (storeList s.cpu.mem (entryAddress k) answer.bytes (countAddress labels) + 1#8)
    refine ⟨stored.trans (counted.mono fun x same => Or.inr same), text.changed counted ?_⟩
    intro i inside
    have within := bound i inside
    have place := toNat_entryAddress_add (k := k) (i := i) (by omega)
    omega

theorem findMemNext_entries (valid : labels.Valid) (finished : Finished answers) (short : k + answers.length < 1024)
    (edi : s.cpu.edi = entryAddress k) (fits : FitsFrom k answers) (sizes : ∀ answer ∈ answers, answer.bytes.length ≤ 32)
    {s' : MapState} (run : findMemNext labels answers s = some s') :
    Changes (FromEntry labels k) s.cpu.mem s'.cpu.mem ∧
      ∀ i entry, (entries answers)[i]? = some entry → BytesAt s'.cpu.mem (entryAddress (k + i)) entry.bytes := by
  induction answers generalizing s k with
  | nil => exact absurd finished id
  | cons answer answers ih =>
    rw [List.length_cons] at short
    obtain ⟨changes, text⟩ := collect_changes valid (by omega) edi fits (sizes answer List.mem_cons_self)
    rw [findMemNext_cons] at run
    unfold Finished at finished
    split at finished
    · next last =>
      subst finished
      rw [if_pos last] at run
      obtain rfl := Option.some.inj run
      refine ⟨changes, ?_⟩
      intro i entry at_
      have whole : entry ∈ entries [answer] := List.mem_of_getElem? at_
      have first : i < (entries [answer]).length := List.getElem?_eq_some_iff.mp at_ |>.1
      have single : (entries [answer]).length ≤ 1 := List.length_filter_le _ _
      obtain rfl : entry = answer := List.mem_singleton.mp (List.mem_filter.mp whole).1
      rw [show k + i = k by omega]
      exact text
    · next more =>
      obtain ⟨carry, -⟩ := not_or.mp more
      rw [if_neg more] at run
      have advanced := collect_edi labels s (eq_false_of_ne_true carry)
      rw [edi, entryAddress_succ] at advanced
      obtain ⟨later, texts⟩ := ih finished (by omega) advanced fits.tail
        (fun answer member => sizes answer (List.mem_cons_of_mem _ member)) run
      refine ⟨changes.trans (later.mono ?_), ?_⟩
      · intro x inside
        unfold FromEntry at inside ⊢
        omega
      · intro i entry at_
        unfold entries at at_
        rw [List.filter_cons_of_pos (by rw [eq_false_of_ne_true carry]; rfl)] at at_
        cases i with
        | zero =>
          obtain rfl : answer = entry := Option.some.inj at_
          apply text.changed later
          intro j inside
          have size := sizes answer List.mem_cons_self
          have within := fits 0 answer rfl (List.ne_nil_of_length_pos (by omega))
          have high := valid.high
          have place := toNat_entryAddress_add (k := k) (i := j) (by omega)
          unfold FromEntry
          omega
        | succ i =>
          rw [show k + (i + 1) = k + 1 + i by omega]
          exact texts i entry at_

/-- With fewer than 1024 answers, each is written at its own entry. -/
theorem mem_placed {write : Word × Nat} (short : k + answers.length < 1024) :
    write ∈ placed answers (entryAddress k) ↔
      ∃ i answer, answers[i]? = some answer ∧ write = (entryAddress (k + i), answer.bytes.length) := by
  induction answers generalizing k with
  | nil => simp [placed]
  | cons answer answers ih =>
    rw [List.length_cons] at short
    rw [placed, lo16_entryAddress (by omega), entryAddress_succ, List.mem_cons, ih (by omega)]
    constructor
    · rintro (rfl | ⟨i, later, at_, rfl⟩)
      · exact ⟨0, answer, rfl, rfl⟩
      · refine ⟨i + 1, later, at_, ?_⟩
        rw [show k + (i + 1) = k + 1 + i by omega]
    · rintro ⟨i, later, at_, rfl⟩
      cases i with
      | zero =>
        obtain rfl : answer = later := Option.some.inj at_
        exact Or.inl rfl
      | succ i =>
        refine Or.inr ⟨i, later, at_, ?_⟩
        rw [show k + (i + 1) = k + 1 + i by omega]

theorem inBuffer_entry {size : Nat} (small : k < 1024) (size_le : size ≤ 32) :
    InBuffer 0x7bfe (entryAddress k, size) ↔ (size ≠ 0 → 0x20 * k + size ≤ 0xbfe) := by
  have place (i : Nat) (inside : i < size) := toNat_entryAddress_add (k := k) (i := i) (by omega)
  constructor
  · intro inside some_
    have last := inside (size - 1) (show size - 1 < size by omega)
    rw [place (size - 1) (by omega)] at last
    omega
  · intro fits i inside
    have bound : i < size := inside
    rw [place i bound]
    have whole := fits (by omega)
    omega

theorem Finished.length_le (finished : Finished answers) : answers.length ≤ (entries answers).length + 1 := by
  induction answers with
  | nil => exact absurd finished id
  | cons answer answers ih =>
    unfold Finished at finished
    split at finished
    · rw [finished]
      exact Nat.succ_le_succ (Nat.zero_le _)
    · next more =>
      obtain ⟨carry, -⟩ := not_or.mp more
      have rest := ih finished
      unfold entries at rest ⊢
      rw [List.filter_cons_of_pos (by rw [eq_false_of_ne_true carry]; rfl), List.length_cons, List.length_cons]
      omega

/-- The map is collected in its buffer and counted exactly if what the service writes fits. -/
theorem memory_map_iff (valid : labels.Valid) (c : Cpu) (returnAddress : BitVec 16) (stack : c.sp = 0x7c00#16)
    (zero : c.mem (countAddress labels) = 0#8) (finished : Finished answers)
    (sizes : ∀ answer ∈ answers, answer.bytes.length ≤ 32) :
    (∃ s, findMemSizeReal labels answers (c.push16 returnAddress) = some s ∧
        Collects labels (c.push16 returnAddress).sp.toNat answers s) ↔ Fits answers := by
  have high := valid.high
  have sp : (c.push16 returnAddress).sp.toNat = 0x7bfe := by
    rw [Cpu.toNat_sp_push16 _ (by rw [stack]; decide), stack]
    rfl
  let start : MapState := ⟨{ c.push16 returnAddress with
    ebx := 0#32
    edi := 0x7000#32
    mem := (c.push16 returnAddress).mem.store32 (labels.extMemInfo.zeroExtend 32) 0x7000#32 }, []⟩
  have uncounted : start.cpu.mem (countAddress labels) = 0#8 := by
    have info : (labels.extMemInfo.zeroExtend 32 : Word).toNat = labels.extMemInfo.toNat :=
      BitVec.toNat_setWidth_of_le (by decide)
    have count : (countAddress labels).toNat = labels.extMemCount.toNat := BitVec.toNat_setWidth_of_le (by decide)
    have apart := valid.count
    have bound := labels.extMemInfo.isLt
    have pushed : (c.push16 returnAddress).mem = c.mem.store16 0x7bfe#32 returnAddress := by
      unfold Cpu.push16
      rw [stack]
      rfl
    have stored := changes_store32 (c.push16 returnAddress).mem (labels.extMemInfo.zeroExtend 32) 0x7000#32 (by omega)
    have below := changes_store16 c.mem 0x7bfe#32 returnAddress (by decide)
    rw [show (0x7bfe#32 : Word).toNat = 0x7bfe from rfl] at below
    rw [← zero, ← below (countAddress labels) (by omega), ← pushed]
    exact stored (countAddress labels) (by omega)
  obtain ⟨s, run, writes, counted⟩ := findMemNext_run labels 0x7bfe (by omega) finished start
  rw [uncounted, BitVec.zero_add] at counted
  have atStart : start.cpu.edi = entryAddress 0 := rfl
  rw [atStart] at writes counted
  have ended : findMemSizeReal labels answers (c.push16 returnAddress) = some s := run
  have length := finished.length_le
  rw [sp]
  constructor
  · intro ⟨s', run', collects⟩
    obtain rfl : s = s' := Option.some.inj (ended.symm.trans run')
    have buffer : ∀ write ∈ placed answers (entryAddress 0), InBuffer 0x7bfe write := by
      intro write member
      apply collects.buffer
      rw [writes]
      exact List.mem_append_right _ member
    have count := collects.count
    rw [counted buffer, BitVec.toNat_ofNat] at count
    have few : (entries answers).length < 256 := by omega
    refine ⟨?_, few⟩
    intro i answer at_ some_
    have inside : i < answers.length := (List.getElem?_eq_some_iff.mp at_).1
    have size := sizes answer (List.mem_of_getElem? at_)
    have placed_ := buffer _ ((mem_placed (by omega)).mpr ⟨i, answer, at_, rfl⟩)
    rw [Nat.zero_add, inBuffer_entry (by omega) size] at placed_
    exact placed_ fun empty => some_ (List.length_eq_zero_iff.mp empty)
  · intro ⟨fits, few⟩
    have from_ : FitsFrom 0 answers := by
      intro i answer at_ some_
      rw [Nat.zero_add]
      exact fits i answer at_ some_
    have buffer : ∀ write ∈ placed answers (entryAddress 0), InBuffer 0x7bfe write := by
      intro write member
      obtain ⟨i, answer, at_, rfl⟩ := (mem_placed (by omega)).mp member
      have inside : i < answers.length := (List.getElem?_eq_some_iff.mp at_).1
      rw [Nat.zero_add, inBuffer_entry (by omega) (sizes answer (List.mem_of_getElem? at_))]
      intro some_
      exact fits i answer at_ fun empty => some_ (by rw [empty]; rfl)
    obtain ⟨-, texts⟩ := findMemNext_entries valid finished (by omega) atStart from_ sizes run
    refine ⟨s, ended, ?_, ?_, ?_⟩
    · rw [writes]
      exact buffer
    · rw [counted buffer, BitVec.toNat_ofNat]
      omega
    · intro i entry at_
      have text := texts i entry at_
      rwa [Nat.zero_add] at text

end

/-- An entry of 24 bytes; 0 in `ebx` says that it is the last. -/
def mapEntry (ebx : Word) : MapAnswer := ⟨false, 0x534d4150#32, ebx, 24#32, 0x534d4150#32, List.replicate 24 1#8⟩

/-- A service that has `n + 1` entries. -/
def mapOf (n : Nat) : List MapAnswer := List.replicate n (mapEntry 1#32) ++ [mapEntry 0#32]

def mapLabels : MapLabels := ⟨0x7d00#16, 0x7d04#16⟩

def mapCpu : Cpu := ⟨0#32, 0#32, 0#32, 0#32, 0#32, 0#32, 0#32, 0x7c00#32, 0#32, false, false, false, false, fun _ => 0#8⟩

theorem mapLabels_valid : mapLabels.Valid := ⟨by decide, by decide⟩

theorem mapOf_finished (n : Nat) : Finished (mapOf n) := by
  induction n with
  | zero =>
    unfold mapOf
    rw [List.replicate_zero, List.nil_append, Finished, if_pos (by decide)]
  | succ n ih =>
    unfold mapOf
    rw [List.replicate_succ, List.cons_append, Finished, if_neg (by decide)]
    exact ih

theorem mapOf_size (n : Nat) : ∀ answer ∈ mapOf n, answer.bytes.length = 24 := by
  intro answer member
  unfold mapOf at member
  rcases List.mem_append.mp member with more | last
  · rw [List.eq_of_mem_replicate more]
    rfl
  · rw [List.mem_singleton.mp last]
    rfl

theorem memory_map_five : (mapOf 4).length = 5 ∧
    ∃ s, findMemSizeReal mapLabels (mapOf 4) (mapCpu.push16 0x7c80#16) = some s ∧
      Collects mapLabels (mapCpu.push16 0x7c80#16).sp.toNat (mapOf 4) s := by
  have sizes : ∀ answer ∈ mapOf 4, answer.bytes.length ≤ 32 := by
    intro answer member
    rw [mapOf_size 4 answer member]
    decide
  have fits : Fits (mapOf 4) := by
    constructor
    · intro i answer at_ _
      have index : i < (mapOf 4).length := (List.getElem?_eq_some_iff.mp at_).1
      rw [show (mapOf 4).length = 5 from rfl] at index
      rw [mapOf_size 4 answer (List.mem_of_getElem? at_)]
      omega
    · decide
  exact ⟨rfl, (memory_map_iff mapLabels_valid mapCpu 0x7c80#16 rfl rfl (mapOf_finished 4) sizes).mpr fits⟩

/-- The 97th entry goes to `0x7c00`, over the boot block. -/
theorem not_collects_97 : ¬ ∃ s, findMemSizeReal mapLabels (mapOf 96) (mapCpu.push16 0x7c80#16) = some s ∧
    Collects mapLabels (mapCpu.push16 0x7c80#16).sp.toNat (mapOf 96) s := by
  intro ⟨s, run, collects⟩
  let start : MapState := ⟨{ mapCpu.push16 0x7c80#16 with
    ebx := 0#32
    edi := 0x7000#32
    mem := (mapCpu.push16 0x7c80#16).mem.store32 0x7d00#32 0x7000#32 }, []⟩
  obtain ⟨s', run', writes, -⟩ := findMemNext_run mapLabels 0x7bfe (by decide) (mapOf_finished 96) start
  obtain rfl : s = s' := Option.some.inj (run.symm.trans run')
  have length : (mapOf 96).length = 97 := by simp [mapOf]
  have last : (mapOf 96)[96]? = some (mapEntry 0#32) := by simp [mapOf]
  have placed_ : (entryAddress (0 + 96), 24) ∈ placed (mapOf 96) (entryAddress 0) :=
    (mem_placed (by omega)).mpr ⟨96, mapEntry 0#32, last, rfl⟩
  have inside := collects.buffer (entryAddress 96, 24) (by rw [writes]; exact List.mem_append_right _ placed_)
  rw [show (mapCpu.push16 0x7c80#16).sp.toNat = 0x7bfe from rfl, inBuffer_entry (by decide) (by decide)] at inside
  exact absurd (inside (by decide)) (by decide)

end ThreeX86.Boot
