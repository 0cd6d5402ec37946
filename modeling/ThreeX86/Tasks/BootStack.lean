import ThreeX86.Heap.Miniheap
import ThreeX86.Tasks.Switch

/-!
The stack that `start.S` enters C on is `idle_stack`, and `task_init` of `task.c` gives it to the idle task.
-/

namespace ThreeX86.Tasks

open Machine Machine.Memory ThreeX86.Lists

/-- Where the linker puts what the boot code and `task.c` refer to. -/
structure BootLayout where
  bssStart : Word
  bssEnd : Word
  idleStack : Word
  idleTask : Word
  currentTask : Word
  runQueue : Word
  taskTrampoline : Word
  startC : Word
  returnAddress : Word

def sizeofIdleStack : Word := 512#32

namespace BootLayout

variable (g : BootLayout)

/-! ### The code -/

/-- `_start` up to the entry of `_start_c`. Nothing here reads the flags. -/
def start (c : Cpu) : Cpu :=
  let c := { c with ecx := g.bssEnd }
  let c := { c with edi := g.bssStart }
  let c := { c with ecx := c.ecx - c.edi }
  let c := { c with eax := 0#32 }
  let c := { c with mem := c.mem.fillBytes c.edi (lo8 c.eax) c.ecx.toNat, edi := c.edi + c.ecx, ecx := 0#32 }
  let c := { c with eax := c.esp }
  let c := { c with esp := g.idleStack + sizeofIdleStack }
  let c := c.push32 (c.mem.load32 (c.eax + 0x14#32))
  let c := c.push32 (c.mem.load32 (c.eax + 0x10#32))
  let c := c.push32 (c.mem.load32 (c.eax + 0xc#32))
  let c := c.push32 (c.mem.load32 (c.eax + 0x8#32))
  let c := c.push32 (c.mem.load32 (c.eax + 0x4#32))
  c.call g.startC g.returnAddress

end BootLayout

/-- The stores of `task_create`; a `task_t` is the node and words from offset 8 on. -/
def taskCreateStores (taskTrampoline t entry arg stack stackSize : Word) : List (Memory → Memory) :=
  [fun m => m.fillBytes t 0#8 36,
   fun m => listClearNode m t,
   fun m => m.store32 (t + 8#32) 0#32,
   fun m => m.store32 (t + 12#32) 1#32,
   fun m => m.store32 (t + 16#32) entry,
   fun m => m.store32 (t + 20#32) arg,
   fun m => m.store32 (t + 24#32) stack,
   fun m => m.store32 (t + 28#32) stackSize,
   fun m => x86InitTaskMem m (t + 32#32) taskTrampoline (m.load32 (t + 24#32) + m.load32 (t + 28#32))]

def BootLayout.taskInitStores (g : BootLayout) : List (Memory → Memory) :=
  [fun m => listInitialize m g.runQueue] ++
    taskCreateStores g.taskTrampoline g.idleTask 0#32 0#32 g.idleStack sizeofIdleStack ++
    [fun m => m.store32 g.currentTask g.idleTask]

/-- Compiled code: the stores in turn, with calls and spills that may change `S` before each and at the end. -/
def Performs (S : Nat → Prop) : List (Memory → Memory) → Memory → Memory → Prop
  | [], m, m' => Changes S m m'
  | store :: rest, m, m' => ∃ m1, Changes S m m1 ∧ Performs S rest (store m1) m'

theorem Performs.append {S : Nat → Prop} {left right : List (Memory → Memory)} {m m' : Memory}
    (performs : Performs S (left ++ right) m m') : ∃ m1, Performs S left m m1 ∧ Performs S right m1 m' := by
  induction left generalizing m with
  | nil => exact ⟨m, Changes.refl _ m, performs⟩
  | cons store left ih =>
    obtain ⟨m1, traffic, rest⟩ := performs
    obtain ⟨m2, first, last⟩ := ih rest
    exact ⟨m2, ⟨m1, traffic, first⟩, last⟩

theorem Performs.changes {R S : Nat → Prop} {stores : List (Memory → Memory)} {m m' : Memory}
    (performs : Performs S stores m m') (within : ∀ x, S x → R x) (inside : ∀ store ∈ stores, ∀ m, Changes R m (store m)) :
    Changes R m m' := by
  induction stores generalizing m with
  | nil => exact performs.mono within
  | cons store stores ih =>
    obtain ⟨m1, traffic, rest⟩ := performs
    have here := inside store List.mem_cons_self m1
    have later := ih rest fun store member => inside store (List.mem_cons_of_mem _ member)
    exact ((traffic.mono within).trans here).trans later

namespace BootLayout

variable (g : BootLayout)

/-! ### The boot stack -/

def InIdleStack (x : Nat) : Prop := g.idleStack.toNat ≤ x ∧ x < g.idleStack.toNat + 512

def Variable (x : Nat) : Prop :=
  (g.idleTask.toNat ≤ x ∧ x < g.idleTask.toNat + 36) ∨ (g.currentTask.toNat ≤ x ∧ x < g.currentTask.toNat + 4) ∨
    (g.runQueue.toNat ≤ x ∧ x < g.runQueue.toNat + 8)

/-- The linker keeps the objects in the address space, and the variables off the stack. -/
structure Separate : Prop where
  idleStack : g.idleStack.toNat + 512 ≤ 2^32
  idleTask : g.idleTask.toNat + 36 ≤ 2^32
  currentTask : g.currentTask.toNat + 4 ≤ 2^32
  runQueue : g.runQueue.toNat + 8 ≤ 2^32
  apart : ∀ x, g.Variable x → ¬ g.InIdleStack x

/-- What calls at stack pointer `sp` use, at any depth. -/
def Deeper (sp : Word) (x : Nat) : Prop := x < sp.toNat ∧ ¬ g.Variable x

/-- The words of `idle_stack` from `sp` up are the same in both memories. -/
def Intact (sp : Word) (m m' : Memory) : Prop :=
  ∀ a : Word, sp.toNat ≤ a.toNat → a.toNat % 4 = sp.toNat % 4 → a.toNat + 4 ≤ g.idleStack.toNat + 512 →
    m'.load32 a = m.load32 a

/-- The arguments of `_start_c` are zeros and, as `vesa_ptr`, the address of `task_trampoline`. -/
def ArgumentsFit (sp : Word) (m : Memory) : Prop :=
  m.load32 (sp + 4#32) = 0#32 ∧ m.load32 (sp + 8#32) = 0#32 ∧ m.load32 (sp + 12#32) = 0#32 ∧
    m.load32 (sp + 16#32) = 0#32 ∧ m.load32 (sp + 20#32) = g.taskTrampoline

variable {g} {c : Cpu} {m m' : Memory} {sp : Word}

theorem start_esp (g : BootLayout) (c : Cpu) : (g.start c).esp = g.idleStack + 488#32 := by
  unfold start sizeofIdleStack
  simp only [Cpu.call, Cpu.push32]
  bv_omega

/-- `_start_c` finds its arguments as they were on the old stack. -/
theorem start_arguments (separate : g.Separate) {m : Memory}
    (zeroed : m = c.mem.fillBytes g.bssStart 0#8 (g.bssEnd - g.bssStart).toNat)
    (room : c.esp.toNat + 24 ≤ 2^32)
    (old : c.esp.toNat + 24 ≤ g.idleStack.toNat ∨ g.idleStack.toNat + 512 ≤ c.esp.toNat) :
    (g.start c).mem.load32 (g.start c).esp = g.returnAddress ∧
    (g.start c).mem.load32 ((g.start c).esp + 4#32) = m.load32 (c.esp + 4#32) ∧
    (g.start c).mem.load32 ((g.start c).esp + 8#32) = m.load32 (c.esp + 8#32) ∧
    (g.start c).mem.load32 ((g.start c).esp + 12#32) = m.load32 (c.esp + 12#32) ∧
    (g.start c).mem.load32 ((g.start c).esp + 16#32) = m.load32 (c.esp + 16#32) ∧
    (g.start c).mem.load32 ((g.start c).esp + 20#32) = m.load32 (c.esp + 20#32) := by
  have stack := separate.idleStack
  have slot (k : Nat) (h : k < 512) : (g.idleStack + BitVec.ofNat 32 k).toNat = g.idleStack.toNat + k :=
    toNat_add_word (by omega)
  have argument (k : Nat) (h : k < 24) : (c.esp + BitVec.ofNat 32 k).toNat = c.esp.toNat + k := toNat_add_word (by omega)
  have slot488 := slot 488 (by decide)
  have slot492 := slot 492 (by decide)
  have slot496 := slot 496 (by decide)
  have slot500 := slot 500 (by decide)
  have slot504 := slot 504 (by decide)
  have slot508 := slot 508 (by decide)
  have argument4 := argument 4 (by decide)
  have argument8 := argument 8 (by decide)
  have argument12 := argument 12 (by decide)
  have argument16 := argument 16 (by decide)
  rw [start_esp]
  subst zeroed
  unfold start sizeofIdleStack
  simp only [Cpu.call, Cpu.push32, BitVec.sub_eq_add_neg, BitVec.add_assoc, BitVec.reduceNeg, BitVec.reduceAdd,
    show lo8 0#32 = 0#8 from rfl]
  simp (disch := omega) only [load32_store32, load32_store32_apart, and_self]

theorem Separate.field (separate : g.Separate) {k : Nat} (h : k + 4 ≤ 36) :
    (g.idleTask + BitVec.ofNat 32 k).toNat = g.idleTask.toNat + k := by
  have room := separate.idleTask
  exact toNat_add_word (by omega)

theorem Separate.store_field (separate : g.Separate) {k : Nat} (h : k + 4 ≤ 36) (m : Memory) (v : Word) :
    Changes g.Variable m (m.store32 (g.idleTask + BitVec.ofNat 32 k) v) := by
  have address := separate.field h
  have room := separate.idleTask
  apply (changes_store32 m _ v (by omega)).mono
  intro x inside
  left
  omega

theorem Separate.listInitialize_variable (separate : g.Separate) (m : Memory) :
    Changes g.Variable m (listInitialize m g.runQueue) := by
  have room := separate.runQueue
  have next : (g.runQueue + 4#32).toNat = g.runQueue.toNat + 4 := toNat_add_word (by omega)
  have first := (changes_store32 m (g.runQueue + 4#32) g.runQueue (by omega)).mono (T := g.Variable) fun x inside => by
    right
    right
    omega
  have second := (changes_store32 (m.store32 (g.runQueue + 4#32) g.runQueue) g.runQueue g.runQueue (by omega)).mono
    (T := g.Variable) fun x inside => by
      right
      right
      omega
  exact first.trans second

theorem Separate.initial_variable (separate : g.Separate) :
    ∀ store ∈ g.taskInitStores.take 7, ∀ m, Changes g.Variable m (store m) := by
  intro store member m
  unfold taskInitStores taskCreateStores at member
  simp only [List.cons_append, List.nil_append, List.take_succ_cons, List.take_zero, List.mem_cons, List.not_mem_nil,
    or_false] at member
  rcases member with rfl | rfl | rfl | rfl | rfl | rfl | rfl
  · exact separate.listInitialize_variable m
  · apply (changes_fillBytes m g.idleTask 0#8 36 separate.idleTask).mono
    intro x inside
    left
    exact inside
  · have second := separate.store_field (k := 0) (by decide) (m.store32 (g.idleTask + 4#32) 0#32) 0#32
    rw [BitVec.add_zero] at second
    exact (separate.store_field (k := 4) (by decide) m 0#32).trans second
  · exact separate.store_field (k := 8) (by decide) m _
  · exact separate.store_field (k := 12) (by decide) m _
  · exact separate.store_field (k := 16) (by decide) m _
  · exact separate.store_field (k := 20) (by decide) m _

/-- The idle task's first frame ends up over the arguments, and nothing else of the stack in use changes. -/
theorem taskInit_spec (separate : g.Separate) (deeper : sp.toNat ≤ g.idleStack.toNat + 488)
    (performs : Performs (g.Deeper sp) g.taskInitStores m m') :
    loadContext m' (g.idleStack + 492#32) = firstContext g.taskTrampoline (g.idleStack + 512#32) ∧
      m'.load32 (g.idleStack + 488#32) = m.load32 (g.idleStack + 488#32) := by
  have stack := separate.idleStack
  have frame : (g.idleStack + 492#32).toNat = g.idleStack.toNat + 492 := toNat_add_word (by omega)
  have slot : (g.idleStack + 488#32).toNat = g.idleStack.toNat + 488 := toNat_add_word (by omega)
  let Off : Nat → Prop := fun x => g.Deeper sp x ∨ g.Variable x
  have off (x : Nat) (inside : g.idleStack.toNat + 488 ≤ x ∧ x < g.idleStack.toNat + 512) : ¬ Off x := by
    rintro (below | variable_)
    · have shallow := below.1
      omega
    · apply separate.apart x variable_
      unfold InIdleStack
      omega
  have whole : g.taskInitStores = g.taskInitStores.take 7 ++ g.taskInitStores.drop 7 := (List.take_append_drop 7 _).symm
  rw [whole] at performs
  obtain ⟨m1, initial, m2, traffic2, m3, traffic3, m4, traffic4, m5, traffic5, traffic6⟩ := Performs.append performs
  have first : Changes Off m m1 := initial.changes (fun x inside => Or.inl inside) fun store member m =>
    (separate.initial_variable store member m).mono fun x inside => Or.inr inside
  have quiet {m m' : Memory} (traffic : Changes (g.Deeper sp) m m') : Changes Off m m' := traffic.mono fun x => Or.inl
  have stored {m : Memory} {k : Nat} (h : k + 4 ≤ 36) (v : Word) :
      Changes Off m (m.store32 (g.idleTask + BitVec.ofNat 32 k) v) :=
    (separate.store_field h m v).mono fun x => Or.inr
  have room := separate.idleTask
  have field24 := separate.field (k := 24) (by decide)
  have field28 := separate.field (k := 28) (by decide)
  have field32 := separate.field (k := 32) (by decide)
  have kept {m m' : Memory} (traffic : Changes (g.Deeper sp) m m') {k : Nat} (h : k + 4 ≤ 36) :
      m'.load32 (g.idleTask + BitVec.ofNat 32 k) = m.load32 (g.idleTask + BitVec.ofNat 32 k) := by
    have address := separate.field h
    apply traffic.load32 (by omega)
    intro i small deep
    exact deep.2 (Or.inl (by omega))
  have loadedStack : m4.load32 (g.idleTask + 24#32) = g.idleStack := by
    rw [kept traffic4 (k := 24) (by decide)]
    dsimp only
    rw [load32_store32_apart _ _ (by omega) (by omega) (by omega), kept traffic3 (k := 24) (by decide)]
    exact load32_store32 _ _ _
  have loadedSize : m4.load32 (g.idleTask + 28#32) = sizeofIdleStack := by
    rw [kept traffic4 (k := 28) (by decide)]
    exact load32_store32 _ _ _
  have top : g.idleStack + sizeofIdleStack = g.idleStack + 492#32 + 20#32 := by
    unfold sizeofIdleStack
    bv_omega
  have fieldOff : (g.idleTask + 32#32).toNat + 4 ≤ (g.idleStack + 492#32).toNat ∨
      (g.idleStack + 492#32).toNat + 20 ≤ (g.idleTask + 32#32).toNat := by
    by_contra overlap
    have low := off (g.idleTask.toNat + 32)
    have high := off (g.idleTask.toNat + 35)
    have start := off (g.idleStack.toNat + 492)
    simp only [Off, Variable] at low high start
    omega
  obtain ⟨-, context, written⟩ := @x86InitTaskMem_spec (g.idleStack + 492#32) (by omega) m4 (g.idleTask + 32#32)
    g.taskTrampoline (by omega) fieldOff
  dsimp only at traffic5 context written
  rw [loadedStack, loadedSize, top] at traffic5
  have current : Changes Off m5 (m5.store32 g.currentTask g.idleTask) := by
    apply (changes_store32 m5 g.currentTask g.idleTask separate.currentTask).mono
    intro x inside
    exact Or.inr (Or.inr (Or.inl inside))
  have last : Changes Off (x86InitTaskMem m4 (g.idleTask + 32#32) g.taskTrampoline (g.idleStack + 492#32 + 20#32)) m' :=
    ((quiet traffic5).trans current).trans (quiet traffic6)
  have before : Changes Off m m4 := (((first.trans (quiet traffic2)).trans ((stored (k := 24) (by decide) _).trans
    (quiet traffic3))).trans (stored (k := 28) (by decide) _)).trans (quiet traffic4)
  constructor
  · rw [loadContext_kept (by omega) last fun x inside => off x (by unfold InFrame at inside; omega), context, ← top]
    rfl
  · have sameBefore := before.load32 (a := g.idleStack + 488#32) (by omega) fun i small => off _ (by omega)
    have sameLast := last.load32 (a := g.idleStack + 488#32) (by omega) fun i small => off _ (by omega)
    have sameFrame := written.load32 (a := g.idleStack + 488#32) (by omega) fun i small => by
      rintro (inside | field)
      · unfold InFrame at inside
        omega
      · exact off (g.idleTask.toNat + 32 + ((g.idleStack + 488#32).toNat + i - (g.idleTask + 32#32).toNat)) (by omega)
          (Or.inr (Or.inl (by omega)))
    rw [sameLast, sameFrame, sameBefore]

/-- The stack in use is left intact exactly if the arguments are what the new frame holds. -/
theorem boot_stack_intact_iff (separate : g.Separate) (c : Cpu) (deeper : sp.toNat ≤ (g.start c).esp.toNat)
    (performs : Performs (g.Deeper sp) g.taskInitStores m m') :
    g.Intact (g.start c).esp m m' ↔ g.ArgumentsFit (g.start c).esp m := by
  have stack := separate.idleStack
  have slot (k : Nat) (h : k < 512) : (g.idleStack + BitVec.ofNat 32 k).toNat = g.idleStack.toNat + k :=
    toNat_add_word (by omega)
  have esp := slot 488 (by decide)
  rw [start_esp] at deeper ⊢
  obtain ⟨context, returns⟩ := taskInit_spec separate (by omega) performs
  unfold loadContext firstContext at context
  simp only [Context.mk.injEq] at context
  obtain ⟨fifth, -, fourth, third, second, first⟩ := context
  simp only [BitVec.add_assoc, BitVec.reduceAdd] at first second third fourth fifth
  unfold Intact ArgumentsFit
  simp only [BitVec.add_assoc, BitVec.reduceAdd]
  constructor
  · intro intact
    have same (k : Nat) (low : 488 ≤ k) (high : k + 4 ≤ 512) (aligned : k % 4 = 0) :
        m'.load32 (g.idleStack + BitVec.ofNat 32 k) = m.load32 (g.idleStack + BitVec.ofNat 32 k) := by
      have address := slot k (by omega)
      exact intact _ (by omega) (by omega) (by omega)
    refine ⟨?_, ?_, ?_, ?_, ?_⟩
    · exact (same 492 (by decide) (by decide) rfl).symm.trans first
    · exact (same 496 (by decide) (by decide) rfl).symm.trans second
    · exact (same 500 (by decide) (by decide) rfl).symm.trans third
    · exact (same 504 (by decide) (by decide) rfl).symm.trans fourth
    · exact (same 508 (by decide) (by decide) rfl).symm.trans fifth
  · intro ⟨edi, esi, ebp, ebx, returnAddress⟩ a low aligned high
    have place : a = g.idleStack + BitVec.ofNat 32 (a.toNat - g.idleStack.toNat) := by
      apply BitVec.eq_of_toNat_eq
      rw [slot _ (by omega)]
      omega
    have cases : a.toNat - g.idleStack.toNat = 488 ∨ a.toNat - g.idleStack.toNat = 492 ∨ a.toNat - g.idleStack.toNat = 496 ∨
        a.toNat - g.idleStack.toNat = 500 ∨ a.toNat - g.idleStack.toNat = 504 ∨ a.toNat - g.idleStack.toNat = 508 := by
      omega
    rcases cases with offset | offset | offset | offset | offset | offset
    all_goals rw [place, offset]
    · exact returns
    · exact first.trans edi.symm
    · exact second.trans esi.symm
    · exact third.trans ebp.symm
    · exact fourth.trans ebx.symm
    · exact fifth.trans returnAddress.symm

end BootLayout

/-- A layout, and a processor that finds 17 in every byte. -/
def bootLayout : BootLayout where
  bssStart := 0x1000#32
  bssEnd := 0x2000#32
  idleStack := 0x1000#32
  idleTask := 0x1200#32
  currentTask := 0x1224#32
  runQueue := 0x1228#32
  taskTrampoline := 0x400#32
  startC := 0x500#32
  returnAddress := 0x600#32

def bootCpu : Cpu := ⟨0#32, 0#32, 0#32, 0#32, 0#32, 0#32, 0#32, 0x8000#32, 0#32, false, false, false, false, fun _ => 0x11#8⟩

theorem bootLayout_separate : bootLayout.Separate := by
  constructor
  case apart =>
    intro x variable_ stack
    unfold BootLayout.Variable bootLayout at variable_
    unfold BootLayout.InIdleStack bootLayout at stack
    simp only [BitVec.toNat_ofNat] at variable_ stack
    omega
  all_goals decide

/-- The stores of a piece of code without any calls. -/
def performed (stores : List (Memory → Memory)) (m : Memory) : Memory := stores.foldl (fun m store => store m) m

theorem performs_performed (S : Nat → Prop) (stores : List (Memory → Memory)) (m : Memory) :
    Performs S stores m (performed stores m) := by
  induction stores generalizing m with
  | nil => exact Changes.refl S m
  | cons store stores ih => exact ⟨m, Changes.refl S m, ih (store m)⟩

def bootMem : Memory := (bootLayout.start bootCpu).mem

theorem boot_stack_intact_boot :
    bootLayout.Intact (bootLayout.start bootCpu).esp bootMem (performed bootLayout.taskInitStores bootMem) ↔
      bootLayout.ArgumentsFit (bootLayout.start bootCpu).esp bootMem :=
  BootLayout.boot_stack_intact_iff bootLayout_separate bootCpu (Nat.le_refl (bootLayout.start bootCpu).esp.toNat)
    (performs_performed _ _ bootMem)

theorem bootMem_argument : bootMem.load32 (bootLayout.idleStack + 492#32) = 0x11111111#32 := by
  have arguments := BootLayout.start_arguments (c := bootCpu) bootLayout_separate rfl (by decide) (Or.inr (by decide))
  rw [BootLayout.start_esp, BitVec.add_assoc] at arguments
  have size : (bootLayout.bssEnd - bootLayout.bssStart).toNat = 4096 := rfl
  rw [size] at arguments
  have zeroed := changes_fillBytes bootCpu.mem bootLayout.bssStart 0#8 4096 (by decide)
  have old : (bootCpu.esp + 4#32).toNat = 0x8004 := rfl
  have bss : bootLayout.bssStart.toNat = 0x1000 := rfl
  have kept := zeroed.load32 (a := bootCpu.esp + 4#32) (by omega) fun i small inside => by omega
  exact (arguments.2.1.trans kept).trans rfl

/-- `task_init` returns with the argument `mem` gone. -/
theorem not_intact_boot : Performs (bootLayout.Deeper (bootLayout.start bootCpu).esp) bootLayout.taskInitStores bootMem
      (performed bootLayout.taskInitStores bootMem) ∧
    ¬ bootLayout.Intact (bootLayout.start bootCpu).esp bootMem (performed bootLayout.taskInitStores bootMem) := by
  have performs := performs_performed (bootLayout.Deeper (bootLayout.start bootCpu).esp) bootLayout.taskInitStores bootMem
  refine ⟨performs, fun intact => ?_⟩
  have esp := BootLayout.start_esp bootLayout bootCpu
  obtain ⟨context, -⟩ := BootLayout.taskInit_spec bootLayout_separate (by rw [esp]; decide) performs
  have overwritten := congrArg Context.edi context
  have same := intact (bootLayout.idleStack + 492#32) (by rw [esp]; decide) (by rw [esp]; decide) (by decide)
  rw [bootMem_argument] at same
  exact absurd (same.symm.trans overwritten) (show (0x11111111#32 : Word) ≠ 0#32 by decide)

end ThreeX86.Tasks
