import ThreeX86.Machine.Cpu

/-!
A 32-bit x86 in protected mode, with its segment registers and `eflags`: the stack as a list of
words, the instructions that push and pop, and interrupts that do not change the privilege level.
-/

namespace Machine

/-! ### The stack as a list -/

/-- The words of `m` from `sp` up, going round the address space. -/
def Stacked (m : Memory) : Word → List Word → Prop
  | _, [] => True
  | sp, v :: rest => m.load32 sp = v ∧ Stacked m (sp + 4#32) rest

theorem add_four_ofNat (a : Word) (i : Nat) : a + 4#32 + BitVec.ofNat 32 i = a + BitVec.ofNat 32 (4 + i) := by
  apply BitVec.eq_of_toNat_eq
  simp only [BitVec.toNat_add, BitVec.toNat_ofNat]
  omega

theorem Stacked.congr {m m' : Memory} {sp : Word} {words : List Word} (stacked : Stacked m sp words)
    (same : ∀ i < 4 * words.length, m' (sp + BitVec.ofNat 32 i) = m (sp + BitVec.ofNat 32 i)) : Stacked m' sp words := by
  induction words generalizing sp with
  | nil => trivial
  | cons v rest ih =>
    obtain ⟨top, below⟩ := stacked
    rw [List.length_cons] at same
    have first : m'.load32 sp = m.load32 sp := Memory.load32_congr fun i small => same i (by omega)
    refine ⟨first.trans top, ih below ?_⟩
    intro i small
    rw [add_four_ofNat]
    exact same (4 + i) (by omega)

theorem Stacked.push {m : Memory} {sp : Word} {words : List Word} (stacked : Stacked m sp words)
    (room : words.length < 2^30) (v : Word) : Stacked (m.store32 (sp - 4#32) v) (sp - 4#32) (v :: words) := by
  refine ⟨Memory.load32_store32 m _ v, ?_⟩
  rw [BitVec.sub_add_cancel]
  apply stacked.congr
  intro i small
  apply Memory.store32_outside
  have address : sp + BitVec.ofNat 32 i = sp - 4#32 + BitVec.ofNat 32 (4 + i) := by
    rw [← add_four_ofNat, BitVec.sub_add_cancel]
  rw [address, offset_add _ (by omega)]
  omega

/-! ### Registers and instructions -/

structure Registers where
  eax : Word
  ecx : Word
  edx : Word
  ebx : Word
  esp : Word
  ebp : Word
  esi : Word
  edi : Word
  eip : Word
  eflags : Word
  cs : BitVec 16
  ds : BitVec 16
  es : BitVec 16
  fs : BitVec 16
  gs : BitVec 16
  ss : BitVec 16

structure Processor extends Registers where
  mem : Memory

def setFlag (eflags : Word) (bit : Nat) (value : Bool) : Word :=
  if value then eflags ||| BitVec.twoPow 32 bit else eflags &&& ~~~ BitVec.twoPow 32 bit

/-- Carry, parity, adjust, zero, sign and overflow of `a + b`. -/
def addFlags (eflags a b : Word) : Word :=
  let eflags := setFlag eflags 0 (a + b < a)
  let eflags := setFlag eflags 2 (((List.range 8).countP fun i => (a + b).getLsbD i) % 2 = 0)
  let eflags := setFlag eflags 4 (16 ≤ a.toNat % 16 + b.toNat % 16)
  let eflags := setFlag eflags 6 (a + b = 0#32)
  let eflags := setFlag eflags 7 (a + b).msb
  setFlag eflags 11 (a.msb == b.msb && (a + b).msb != a.msb)

namespace Processor

def push (c : Processor) (v : Word) : Processor :=
  { c with esp := c.esp - 4#32, mem := c.mem.store32 (c.esp - 4#32) v }

/-- What a push of a segment register stores: `upper` may clear the upper half or leave it as it was. -/
def segmentWord (upper : BitVec 16 → BitVec 16) (c : Processor) (r : BitVec 16) : Word :=
  upper ((c.mem.load32 (c.esp - 4#32)).extractLsb' 16 16) ++ r

def pushSegment (upper : BitVec 16 → BitVec 16) (c : Processor) (r : BitVec 16) : Processor :=
  c.push (c.segmentWord upper r)

def pop (c : Processor) : Word × Processor := (c.mem.load32 c.esp, { c with esp := c.esp + 4#32 })

def pusha (c : Processor) : Processor :=
  let sp := c.esp
  let c := c.push c.eax
  let c := c.push c.ecx
  let c := c.push c.edx
  let c := c.push c.ebx
  let c := c.push sp
  let c := c.push c.ebp
  let c := c.push c.esi
  c.push c.edi

/-- The saved `esp` is skipped. -/
def popa (c : Processor) : Processor :=
  let (edi, c) := c.pop
  let (esi, c) := c.pop
  let (ebp, c) := c.pop
  let (_, c) := c.pop
  let (ebx, c) := c.pop
  let (edx, c) := c.pop
  let (ecx, c) := c.pop
  let (eax, c) := c.pop
  { c with edi := edi, esi := esi, ebp := ebp, ebx := ebx, edx := edx, ecx := ecx, eax := eax }

def call (c : Processor) (target returnAddress : Word) : Processor := { c.push returnAddress with eip := target }

def addEsp (c : Processor) (n : Word) : Processor :=
  { c with esp := c.esp + n, eflags := addFlags c.eflags c.esp n }

/-- `iret` to code of the same privilege level. -/
def iret (c : Processor) : Processor :=
  let (eip, c) := c.pop
  let (cs, c) := c.pop
  let (eflags, c) := c.pop
  { c with eip := eip, cs := lo16 cs, eflags := eflags }

/-- The exceptions for which the processor pushes an error code. -/
def pushesErrorCode (vector : Nat) : Bool := [8, 10, 11, 12, 13, 14, 17].contains vector

/-- An interrupt through an interrupt gate, without a change of the privilege level; it clears TF, IF, NT, RF and VM. -/
def interrupt (upper : BitVec 16 → BitVec 16) (selector : BitVec 16) (target : Word) (vector : Nat) (errorCode : Word)
    (c : Processor) : Processor :=
  let c := c.push c.eflags
  let c := c.pushSegment upper c.cs
  let c := c.push c.eip
  let c := if pushesErrorCode vector then c.push errorCode else c
  { c with eip := target, cs := selector, eflags := c.eflags &&& ~~~ 0x34300#32 }

/-- What a C function keeps that has no arguments on the stack, from its first instruction to its return. -/
structure Returns (entered returned : Processor) : Prop where
  eip : returned.eip = entered.mem.load32 entered.esp
  esp : returned.esp = entered.esp + 4#32
  ebx : returned.ebx = entered.ebx
  ebp : returned.ebp = entered.ebp
  esi : returned.esi = entered.esi
  edi : returned.edi = entered.edi
  cs : returned.cs = entered.cs
  ds : returned.ds = entered.ds
  es : returned.es = entered.es
  fs : returned.fs = entered.fs
  gs : returned.gs = entered.gs
  ss : returned.ss = entered.ss

/-! ### What they do to the list -/

def Holds (c : Processor) (words : List Word) : Prop := Stacked c.mem c.esp words

variable {c : Processor} {words : List Word}

@[simp] theorem lo16_segmentWord (upper : BitVec 16 → BitVec 16) (c : Processor) (r : BitVec 16) :
    lo16 (c.segmentWord upper r) = r := by
  unfold segmentWord lo16
  exact BitVec.extractLsb'_append_eq_right

@[simp] theorem toRegisters_push (c : Processor) (v : Word) :
    (c.push v).toRegisters = { c.toRegisters with esp := c.esp - 4#32 } := rfl

@[simp] theorem toRegisters_pushSegment (upper : BitVec 16 → BitVec 16) (c : Processor) (r : BitVec 16) :
    (c.pushSegment upper r).toRegisters = { c.toRegisters with esp := c.esp - 4#32 } := rfl

theorem Holds.push (holds : c.Holds words) (room : words.length < 2^30) (v : Word) : (c.push v).Holds (v :: words) :=
  Stacked.push holds room v

theorem Holds.gate (holds : c.Holds words) (eip eflags : Word) (cs : BitVec 16) :
    Holds { c with eip := eip, eflags := eflags, cs := cs } words := holds

theorem Holds.pushSegment (holds : c.Holds words) (room : words.length < 2^30) (upper : BitVec 16 → BitVec 16) (r : BitVec 16) :
    ∃ v, lo16 v = r ∧ (c.pushSegment upper r).Holds (v :: words) :=
  ⟨_, lo16_segmentWord upper c r, holds.push room _⟩

/-- A call leaves what was on the stack behind its return address. -/
theorem Holds.call (holds : c.Holds words) (room : words.length < 2^30) (target returnAddress : Word) :
    Stacked (c.call target returnAddress).mem c.esp words := by
  have below := (holds.push room returnAddress).2
  rwa [toRegisters_push, BitVec.sub_add_cancel] at below

theorem Holds.pushAll (holds : c.Holds words) (pushed : List Word) (room : words.length + pushed.length ≤ 2^30) :
    (pushed.foldl Processor.push c).Holds (pushed.reverse ++ words) := by
  induction pushed generalizing c words with
  | nil => exact holds
  | cons v rest ih =>
    rw [List.length_cons] at room
    have next := ih (holds.push (by omega) v) (by rw [List.length_cons]; omega)
    rw [List.foldl_cons, List.reverse_cons, List.append_assoc]
    exact next

theorem pusha_eq (c : Processor) :
    c.pusha = [c.eax, c.ecx, c.edx, c.ebx, c.esp, c.ebp, c.esi, c.edi].foldl push c := by
  simp only [pusha, List.foldl_cons, List.foldl_nil, toRegisters_push]

theorem Holds.pusha (holds : c.Holds words) (room : words.length + 8 ≤ 2^30) :
    c.pusha.Holds (c.edi :: c.esi :: c.ebp :: c.esp :: c.ebx :: c.edx :: c.ecx :: c.eax :: words) := by
  rw [pusha_eq]
  exact holds.pushAll [c.eax, c.ecx, c.edx, c.ebx, c.esp, c.ebp, c.esi, c.edi] room

@[simp] theorem toRegisters_pusha (c : Processor) : c.pusha.toRegisters = { c.toRegisters with esp := c.esp - 32#32 } := by
  rw [pusha_eq]
  simp only [List.foldl_cons, List.foldl_nil, toRegisters_push, BitVec.sub_sub]
  rfl

theorem Holds.popa {edi esi ebp esp ebx edx ecx eax : Word}
    (holds : c.Holds (edi :: esi :: ebp :: esp :: ebx :: edx :: ecx :: eax :: words)) :
    c.popa = { c with edi := edi, esi := esi, ebp := ebp, esp := c.esp + 32#32, ebx := ebx, edx := edx, ecx := ecx, eax := eax } ∧
      Stacked c.mem (c.esp + 32#32) words := by
  obtain ⟨edi, esi, ebp, esp, ebx, edx, ecx, eax, rest⟩ := holds
  simp only [BitVec.add_assoc] at *
  constructor
  · unfold Processor.popa Processor.pop
    simp only [BitVec.add_assoc, *]
    rfl
  · exact rest

/-! ### What they write -/

/-- `c'` has `n` more words on its stack than `c`, and nothing else has been written. -/
structure Pushes (n : Nat) (c c' : Processor) : Prop where
  esp : c'.esp = c.esp - BitVec.ofNat 32 (4 * n)
  mem : ∀ x, 4 * n ≤ offset (c.esp - BitVec.ofNat 32 (4 * n)) x → c'.mem x = c.mem x

theorem Pushes.refl (c : Processor) : Pushes 0 c c := ⟨(BitVec.sub_zero _).symm, fun _ _ => rfl⟩

theorem Pushes.push {n : Nat} {c' : Processor} (pushes : Pushes n c c') (room : 4 * n + 4 ≤ 2^32) (v : Word) :
    Pushes (n + 1) c (c'.push v) := by
  have top : c.esp - BitVec.ofNat 32 (4 * n) - 4#32 = c.esp - BitVec.ofNat 32 (4 * (n + 1)) := by
    rw [BitVec.sub_sub, Nat.mul_succ, BitVec.ofNat_add]
  refine ⟨?_, fun x above => ?_⟩
  · show c'.esp - 4#32 = _
    rw [pushes.esp, top]
  · have below : 4 * n ≤ offset (c.esp - BitVec.ofNat 32 (4 * n)) x := by
      simp only [offset, BitVec.toNat_sub, BitVec.toNat_ofNat] at above ⊢
      omega
    show c'.mem.store32 (c'.esp - 4#32) v x = _
    rw [pushes.esp, top, Memory.store32_outside _ _ _ _ (by omega)]
    exact pushes.mem x below

theorem Pushes.registers {n : Nat} {c' c'' : Processor} (pushes : Pushes n c c') (esp : c''.esp = c'.esp)
    (mem : c''.mem = c'.mem) : Pushes n c c'' :=
  ⟨esp.trans pushes.esp, fun x above => (congrFun mem x).trans (pushes.mem x above)⟩

theorem Pushes.call {n : Nat} {c' : Processor} (pushes : Pushes n c c') (room : 4 * n + 4 ≤ 2^32) (target returnAddress : Word) :
    Pushes (n + 1) c (c'.call target returnAddress) :=
  (pushes.push room returnAddress).registers rfl rfl

theorem Pushes.pushSegment {n : Nat} {c' : Processor} (pushes : Pushes n c c') (room : 4 * n + 4 ≤ 2^32)
    (upper : BitVec 16 → BitVec 16) (r : BitVec 16) : Pushes (n + 1) c (c'.pushSegment upper r) :=
  pushes.push room _

theorem Pushes.pushAll {n : Nat} {c' : Processor} (pushes : Pushes n c c') (pushed : List Word)
    (room : 4 * (n + pushed.length) ≤ 2^32) : Pushes (n + pushed.length) c (pushed.foldl Processor.push c') := by
  induction pushed generalizing n c' with
  | nil => exact pushes
  | cons v rest ih =>
    rw [List.length_cons] at room ⊢
    have next := ih (pushes.push (by omega) v) (by omega)
    rw [Nat.add_right_comm] at next
    exact next

theorem Pushes.pusha {n : Nat} {c' : Processor} (pushes : Pushes n c c') (room : 4 * (n + 8) ≤ 2^32) :
    Pushes (n + 8) c c'.pusha := by
  rw [pusha_eq]
  exact pushes.pushAll [c'.eax, c'.ecx, c'.edx, c'.ebx, c'.esp, c'.ebp, c'.esi, c'.edi] room

end Processor

end Machine
