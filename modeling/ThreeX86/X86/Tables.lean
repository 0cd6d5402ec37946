import ThreeX86.Machine.Descriptors
import ThreeX86.X86.Exceptions

/-!
The tables of `x86/x86.c` and `x86/tss.c`: what `x86_init` stores, and what the processor reads there afterwards.
-/

namespace ThreeX86.X86

open Machine Machine.Memory

def gdtCount : Nat := 6
def kernelTssSelector : BitVec 16 := 0x28#16
def sizeofTss : Nat := 0x68

/-- `struct x86_desc_32` -/
structure Desc32 where
  segLimit15_0 : BitVec 16
  base15_0 : BitVec 16
  base23_16 : Byte
  pDplSType : Byte
  gDbSegLimit19_16 : Byte
  base31_24 : Byte
deriving DecidableEq

/-- Where the linker has put the tables. -/
structure Tables where
  gdt : Word
  idt : Word
  isrTable : Word
  kernelTss : Word

/-- What `x86_init` works on. -/
structure System where
  mem : Memory
  gdtr : TablePointer
  idtr : TablePointer
  tr : BitVec 16
  cs : BitVec 16
  ds : BitVec 16
  es : BitVec 16
  fs : BitVec 16
  gs : BitVec 16
  ss : BitVec 16

/-- The body of the loop: the fields of `idt[i]`. -/
def setGate (m : Memory) (a target : Word) : Memory :=
  let m := m.store16 a ((target &&& 0xffff#32).setWidth 16)
  let m := m.store16 (a + 2#32) codeSelector
  let m := m.store8 (a + 4#32) 0#8
  let m := m.store8 (a + 5#32) 0b10001110#8
  m.store16 (a + 6#32) ((target >>> 16 &&& 0xffff#32).setWidth 16)

/-- The loop from `i` on, with `NUM_INT - i` given last. -/
def idtLoop (idt : Word) (m : Memory) (i : Nat) (target : Word) : Nat → Memory
  | 0 => m
  | left + 1 => idtLoop idt (setGate m (idt + BitVec.ofNat 32 (8 * i)) target) (i + 1) (target + 16#32) left

/-- `ltr`: the processor marks the descriptor of the task as busy. -/
def System.ltr (s : System) (selector : BitVec 16) : System :=
  let a := s.gdtr.entry (selector.toNat / 8) + 5#32
  { s with tr := selector, mem := s.mem.store8 a (s.mem a ||| 2#8) }

def x86TssInit (t : Tables) (s : System) : System :=
  let desc := t.gdt + BitVec.ofNat 32 (8 * (kernelTssSelector.toNat / 8))
  let m := s.mem.store16 desc (BitVec.ofNat 16 (sizeofTss - 1))
  let m := m.store16 (desc + 2#32) ((t.kernelTss &&& 0xffff#32).setWidth 16)
  let m := m.store8 (desc + 4#32) ((t.kernelTss >>> 16 &&& 0xff#32).setWidth 8)
  let m := m.store8 (desc + 7#32) ((t.kernelTss >>> 24 &&& 0xff#32).setWidth 8)
  { s with mem := m }.ltr kernelTssSelector

def x86Init (t : Tables) (s : System) : System :=
  let s := { s with gdtr := ⟨BitVec.ofNat 16 (8 * gdtCount - 1), t.gdt⟩ }
  let data := lo16 dataSelector
  let s := { s with ds := data, es := data, fs := data, gs := data, ss := data }
  let s := { s with cs := codeSelector }
  let s := { s with mem := idtLoop t.idt s.mem 0 t.isrTable numInt }
  let s := { s with idtr := ⟨BitVec.ofNat 16 (8 * numInt - 1), t.idt⟩ }
  x86TssInit t s

/-- The tables do not overlap, and none goes round the end of memory. -/
structure Tables.Placed (t : Tables) : Prop where
  gdt : t.gdt.toNat + 8 * gdtCount ≤ 2^32
  idt : t.idt.toNat + 8 * numInt ≤ 2^32
  apart : t.gdt.toNat + 8 * gdtCount ≤ t.idt.toNat ∨ t.idt.toNat + 8 * numInt ≤ t.gdt.toNat

section

variable {t : Tables} {m : Memory} {s : System} {a target : Word}

/-! ### One gate -/

theorem loadGate_setGate (m : Memory) (a target : Word) :
    loadGate (setGate m a target) a = ⟨target, codeSelector, 0b01110#5, 0#2, true⟩ := by
  have first : a = a + 0#32 := (BitVec.add_zero a).symm
  have type : setGate m a target (a + 5#32) = 0b10001110#8 := by
    rw [setGate, store16_field _ a _ (by decide), store8_same]
  have high : (setGate m a target).load16 (a + 6#32) = (target >>> 16 &&& 0xffff#32).setWidth 16 := by
    rw [setGate, load16_store16]
  have selector : (setGate m a target).load16 (a + 2#32) = codeSelector := by
    rw [← load16_store16 (m.store16 a ((target &&& 0xffff#32).setWidth 16)) (a + 2#32) codeSelector]
    apply half_of_bytes <;>
    · simp only [setGate]
      rw [store16_field _ a _ (by decide), store8_field _ a _ (by decide), store8_field _ a _ (by decide)]
  have low : (setGate m a target).load16 (a + 0#32) = (target &&& 0xffff#32).setWidth 16 := by
    rw [← load16_store16 m (a + 0#32) ((target &&& 0xffff#32).setWidth 16)]
    apply half_of_bytes <;>
    · simp only [setGate]
      rw [store16_field _ a _ (by decide), store8_field _ a _ (by decide), store8_field _ a _ (by decide),
        store16_field _ a _ (by decide), ← first]
  rw [← first] at low
  simp only [loadGate, type, high, low, selector, append_halves]
  rfl

theorem changes_setGate (m : Memory) (a target : Word) (room : a.toNat + 8 ≤ 2^32) :
    Changes (fun x => a.toNat ≤ x ∧ x < a.toNat + 8) m (setGate m a target) := by
  have place {c : Word} (small : c.toNat < 8) : (a + c).toNat = a.toNat + c.toNat := by
    rw [BitVec.toNat_add, Nat.mod_eq_of_lt (by omega)]
  have at2 := place (c := 2#32) (by decide)
  have at4 := place (c := 4#32) (by decide)
  have at5 := place (c := 5#32) (by decide)
  have at6 := place (c := 6#32) (by decide)
  simp only [BitVec.toNat_ofNat] at at2 at4 at5 at6
  refine ((changes_store16 _ a _ (by omega)).mono ?_).trans
    (((changes_store16 _ (a + 2#32) _ (by omega)).mono ?_).trans
      (((changes_store8 _ (a + 4#32) _).mono ?_).trans
        (((changes_store8 _ (a + 5#32) _).mono ?_).trans ((changes_store16 _ (a + 6#32) _ (by omega)).mono ?_))))
  all_goals
    intro x inside
    omega

/-! ### The loop -/

/-- Gates from `i` on: each leads to its own veneer, and no other byte has changed. -/
theorem idtLoop_spec (idt : Word) (m : Memory) (i : Nat) (target : Word) (left : Nat)
    (room : idt.toNat + 8 * (i + left) ≤ 2^32) :
    Changes (fun x => idt.toNat + 8 * i ≤ x ∧ x < idt.toNat + 8 * (i + left)) m (idtLoop idt m i target left) ∧
      ∀ j < left, loadGate (idtLoop idt m i target left) (idt + BitVec.ofNat 32 (8 * (i + j))) =
        ⟨target + BitVec.ofNat 32 (16 * j), codeSelector, 0b01110#5, 0#2, true⟩ := by
  induction left generalizing m i target with
  | zero => exact ⟨Changes.refl _ m, fun j none => absurd none (Nat.not_lt_zero j)⟩
  | succ left ih =>
    have entry : (idt + BitVec.ofNat 32 (8 * i)).toNat = idt.toNat + 8 * i := by
      rw [BitVec.toNat_add, BitVec.toNat_ofNat]
      omega
    obtain ⟨rest, gates⟩ := ih (setGate m (idt + BitVec.ofNat 32 (8 * i)) target) (i + 1)
      (target + 16#32) (by omega)
    have stored := changes_setGate m (idt + BitVec.ofNat 32 (8 * i)) target (by omega)
    rw [idtLoop]
    constructor
    · refine (stored.mono fun x inside => ?_).trans (rest.mono fun x inside => ?_)
      · omega
      · omega
    · intro j below
      cases j with
      | zero =>
        have kept := rest.entry (a := idt + BitVec.ofNat 32 (8 * i)) (by omega) (by omega)
        simp only [Nat.add_zero, Nat.mul_zero, BitVec.add_zero]
        rw [loadGate_congr kept, loadGate_setGate]
      | succ j =>
        have gate := gates j (by omega)
        have next : i + (j + 1) = i + 1 + j := by omega
        have step : target + BitVec.ofNat 32 (16 * (j + 1)) = target + 16#32 + BitVec.ofNat 32 (16 * j) := by
          rw [BitVec.add_assoc, ← BitVec.ofNat_add, Nat.mul_succ, Nat.add_comm]
        rw [next, gate, step]

/-! ### The descriptors of `gdt` -/

/-- What the processor makes of the source's fields. -/
def Desc32.segment (d : Desc32) : Segment where
  base := d.base31_24 ++ d.base23_16 ++ d.base15_0
  limit := d.gDbSegLimit19_16.extractLsb' 0 4 ++ d.segLimit15_0
  pages := d.gDbSegLimit19_16.getLsbD 7
  type := d.pDplSType.extractLsb' 0 5
  dpl := d.pDplSType.extractLsb' 5 2
  present := d.pDplSType.getLsbD 7

theorem Tables.Placed.gdt_entry (placed : t.Placed) {i : Nat} (bound : i < gdtCount) :
    (t.gdt + BitVec.ofNat 32 (8 * i)).toNat = t.gdt.toNat + 8 * i := by
  have room := placed.gdt
  have count : gdtCount = 6 := rfl
  rw [BitVec.toNat_add, BitVec.toNat_ofNat]
  omega

/-- What `x86_init` may write to: the gates and the descriptor of the task. -/
def Tables.Foot (t : Tables) (x : Nat) : Prop :=
  (t.idt.toNat ≤ x ∧ x < t.idt.toNat + 8 * numInt) ∨ (t.gdt.toNat + 40 ≤ x ∧ x < t.gdt.toNat + 48)

/-- The stores of `x86_tss_init` and of `ltr`, with `a` the address of the descriptor. -/
def setTss (m : Memory) (a kernelTss : Word) : Memory :=
  let m := m.store16 a (BitVec.ofNat 16 (sizeofTss - 1))
  let m := m.store16 (a + 2#32) ((kernelTss &&& 0xffff#32).setWidth 16)
  let m := m.store8 (a + 4#32) ((kernelTss >>> 16 &&& 0xff#32).setWidth 8)
  let m := m.store8 (a + 7#32) ((kernelTss >>> 24 &&& 0xff#32).setWidth 8)
  m.store8 (a + 5#32) (m (a + 5#32) ||| 2#8)

theorem x86TssInit_eq (t : Tables) (s : System) (loaded : s.gdtr.ptr = t.gdt) :
    x86TssInit t s = { s with tr := kernelTssSelector, mem := setTss s.mem (t.gdt + 40#32) t.kernelTss } := by
  obtain ⟨mem, ⟨len, ptr⟩, idtr, tr, cs, ds, es, fs, gs, ss⟩ := s
  obtain rfl : ptr = t.gdt := loaded
  rfl

theorem changes_setTss (m : Memory) (a kernelTss : Word) (room : a.toNat + 8 ≤ 2^32) :
    Changes (fun x => a.toNat ≤ x ∧ x < a.toNat + 8) m (setTss m a kernelTss) := by
  have place {c : Word} (small : c.toNat < 8) : (a + c).toNat = a.toNat + c.toNat := by
    rw [BitVec.toNat_add, Nat.mod_eq_of_lt (by omega)]
  have at2 := place (c := 2#32) (by decide)
  have at4 := place (c := 4#32) (by decide)
  have at5 := place (c := 5#32) (by decide)
  have at7 := place (c := 7#32) (by decide)
  simp only [BitVec.toNat_ofNat] at at2 at4 at5 at7
  refine ((changes_store16 _ a _ (by omega)).mono ?_).trans
    (((changes_store16 _ (a + 2#32) _ (by omega)).mono ?_).trans
      (((changes_store8 _ (a + 4#32) _).mono ?_).trans
        (((changes_store8 _ (a + 7#32) _).mono ?_).trans ((changes_store8 _ (a + 5#32) _).mono ?_))))
  all_goals
    intro x inside
    omega

theorem x86Init_eq (t : Tables) (s : System) :
    x86Init t s = { mem := setTss (idtLoop t.idt s.mem 0 t.isrTable numInt) (t.gdt + 40#32) t.kernelTss
                    gdtr := ⟨47#16, t.gdt⟩, idtr := ⟨383#16, t.idt⟩, tr := kernelTssSelector, cs := codeSelector
                    ds := 0x10#16, es := 0x10#16, fs := 0x10#16, gs := 0x10#16, ss := 0x10#16 } := by
  rw [x86Init, x86TssInit_eq]
  · rfl
  · rfl

theorem Tables.Placed.gates (placed : t.Placed) : t.idt.toNat + 8 * (0 + numInt) ≤ 2^32 := by
  rw [Nat.zero_add]
  exact placed.idt

theorem Tables.Placed.task (placed : t.Placed) : (t.gdt + 40#32).toNat = t.gdt.toNat + 40 :=
  placed.gdt_entry (i := 5) (by decide)

theorem x86Init_changes (placed : t.Placed) (s : System) : Changes t.Foot s.mem (x86Init t s).mem := by
  have task := placed.task
  have room := placed.gdt
  have count : gdtCount = 6 := rfl
  rw [x86Init_eq]
  refine ((idtLoop_spec t.idt s.mem 0 t.isrTable numInt placed.gates).1.mono fun x inside => .inl (by omega)).trans ?_
  refine (changes_setTss _ (t.gdt + 40#32) t.kernelTss (by omega)).mono fun x inside => .inr ?_
  omega

/-- The gate of each vector leads to its own veneer, through the code segment and with interrupts off. -/
theorem x86Init_gate (placed : t.Placed) (s : System) {i : Nat} (bound : i < numInt) :
    loadGate (x86Init t s).mem ((x86Init t s).idtr.entry i) =
      ⟨t.isrTable + BitVec.ofNat 32 (16 * i), codeSelector, 0b01110#5, 0#2, true⟩ := by
  have task := placed.task
  have gate := (idtLoop_spec t.idt s.mem 0 t.isrTable numInt placed.gates).2 i bound
  obtain ⟨roomGdt, roomIdt, apart⟩ := placed
  have count : gdtCount = 6 := rfl
  have address : (t.idt + BitVec.ofNat 32 (8 * i)).toNat = t.idt.toNat + 8 * i := by
    rw [BitVec.toNat_add, BitVec.toNat_ofNat]
    omega
  have stored := changes_setTss (idtLoop t.idt s.mem 0 t.isrTable numInt) (t.gdt + 40#32) t.kernelTss (by omega)
  have kept := stored.entry (a := t.idt + BitVec.ofNat 32 (8 * i)) (by omega) (by omega)
  rw [Nat.zero_add] at gate
  rw [x86Init_eq]
  exact (loadGate_congr kept).trans gate

/-- The bytes of `gdt` as the linker stores them. -/
def gdtBytes : List Byte :=
  [0x00#8, 0x00#8, 0x00#8, 0x00#8, 0x00#8, 0x00#8, 0x00#8, 0x00#8,
    0xff#8, 0xff#8, 0x00#8, 0x00#8, 0x00#8, 0x9a#8, 0xcf#8, 0x00#8,
    0xff#8, 0xff#8, 0x00#8, 0x00#8, 0x00#8, 0x92#8, 0xcf#8, 0x00#8,
    0xff#8, 0xff#8, 0x00#8, 0x00#8, 0x00#8, 0xfa#8, 0xcf#8, 0x00#8,
    0xff#8, 0xff#8, 0x00#8, 0x00#8, 0x00#8, 0xf2#8, 0xcf#8, 0x00#8,
    0x00#8, 0x00#8, 0x00#8, 0x00#8, 0x00#8, 0x89#8, 0x80#8, 0x00#8]

def exampleTables : Tables := ⟨0x1000#32, 0x2000#32, 0x3000#32, 0x4000#32⟩

def exampleSystem : System :=
  ⟨fun x => gdtBytes.getD (x.toNat - 0x1000) 0#8, ⟨0#16, 0#32⟩, ⟨0#16, 0#32⟩, 0#16, 0#16, 0#16, 0#16, 0#16, 0#16, 0#16⟩

theorem exampleTables_placed : exampleTables.Placed := ⟨by decide, by decide, by decide⟩

end

end ThreeX86.X86
