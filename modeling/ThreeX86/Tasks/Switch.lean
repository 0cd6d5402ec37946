import ThreeX86.Machine.Cpu
import ThreeX86.Machine.Run

/-!
The context switch of `x86/task.c` and `x86/task_asm.S`: tasks on stacks in one memory, and what a
task finds when it is switched to again.
-/

namespace ThreeX86.Tasks

open Machine Machine.Memory Transition

def sizeofContextSwitchFrame : Word := 20#32

/-- `x86_init_task`: a `struct context_switch_frame` below `sp`, and `saved_sp` pointing at it. -/
def x86InitTaskMem (m : Memory) (savedSp entryPoint sp : Word) : Memory :=
  let frame := sp - sizeofContextSwitchFrame
  let m := m.store32 (frame + 12#32) 0#32
  let m := m.store32 (frame + 8#32) 0#32
  let m := m.store32 (frame + 4#32) 0#32
  let m := m.store32 frame 0#32
  let m := m.store32 (frame + 16#32) entryPoint
  m.store32 savedSp frame

/-- `x86_asm_switch(old_sp, new_sp)`, fastcall: `old_sp` in `ecx` and `new_sp` in `edx`. -/
def x86AsmSwitch (c : Cpu) : Cpu :=
  let c := c.push32 c.ebx
  let c := c.push32 c.ebp
  let c := c.push32 c.esi
  let c := c.push32 c.edi
  let c := { c with mem := c.mem.store32 c.ecx c.esp }
  let c := { c with esp := c.edx }
  let (edi, c) := c.pop32
  let c := { c with edi := edi }
  let (esi, c) := c.pop32
  let c := { c with esi := esi }
  let (ebp, c) := c.pop32
  let c := { c with ebp := ebp }
  let (ebx, c) := c.pop32
  let c := { c with ebx := ebx }
  c.ret

/-- `x86_task_switch`: the arguments, then the call, which returns to `returnAddress`. -/
def x86TaskSwitchCpu (c : Cpu) (oldSavedSp newSavedSp asmSwitch returnAddress : Word) : Cpu :=
  let c := { c with ecx := oldSavedSp, edx := c.mem.load32 newSavedSp }
  x86AsmSwitch (c.call asmSwitch returnAddress)

/-- What a task counts on finding when it runs again. -/
structure Context where
  eip : Word
  esp : Word
  ebx : Word
  ebp : Word
  esi : Word
  edi : Word

def contextOf (c : Cpu) : Context := ⟨c.eip, c.esp, c.ebx, c.ebp, c.esi, c.edi⟩

/-! ### Frames on a stack -/

/-- The pops of `x86_asm_switch` and its `ret`, from stack pointer `sp`. -/
def loadContext (m : Memory) (sp : Word) : Context where
  eip := m.load32 (sp + 16#32)
  esp := sp + 20#32
  ebx := m.load32 (sp + 12#32)
  ebp := m.load32 (sp + 8#32)
  esi := m.load32 (sp + 4#32)
  edi := m.load32 sp

/-- The return address and the pushes of `x86_asm_switch`, down to stack pointer `sp`. -/
def saveContext (m : Memory) (sp : Word) (ctx : Context) : Memory :=
  let m := m.store32 (sp + 16#32) ctx.eip
  let m := m.store32 (sp + 12#32) ctx.ebx
  let m := m.store32 (sp + 8#32) ctx.ebp
  let m := m.store32 (sp + 4#32) ctx.esi
  m.store32 sp ctx.edi

def InFrame (sp : Word) (x : Nat) : Prop := sp.toNat ≤ x ∧ x < sp.toNat + 20

theorem toNat_add_word {a : Word} {k : Nat} (h : a.toNat + k < 2^32) :
    (a + BitVec.ofNat 32 k).toNat = a.toNat + k := by
  rw [BitVec.toNat_add, BitVec.toNat_ofNat]
  omega

theorem loadContext_kept {m m' : Memory} {sp : Word} {S : Nat → Prop} (room : sp.toNat + 20 ≤ 2^32)
    (changes : Changes S m m') (off : ∀ x, InFrame sp x → ¬ S x) : loadContext m' sp = loadContext m sp := by
  have word (k : Nat) (h : k + 4 ≤ 20) :
      m'.load32 (sp + BitVec.ofNat 32 k) = m.load32 (sp + BitVec.ofNat 32 k) := by
    have address := toNat_add_word (a := sp) (k := k) (by omega)
    apply changes.load32
    · omega
    · intro i small
      apply off
      unfold InFrame
      omega
  have first := word 0 (by decide)
  have second := word 4 (by decide)
  have third := word 8 (by decide)
  have fourth := word 12 (by decide)
  have fifth := word 16 (by decide)
  simp only [BitVec.add_zero] at first
  unfold loadContext
  rw [first, second, third, fourth, fifth]

theorem changes_store32_inFrame (m : Memory) {sp a : Word} (v : Word) (room : sp.toNat + 20 ≤ 2^32)
    (lower : sp.toNat ≤ a.toNat) (upper : a.toNat + 4 ≤ sp.toNat + 20) :
    Changes (InFrame sp) m (m.store32 a v) := by
  apply (changes_store32 m a v (by omega)).mono
  intro x inside
  unfold InFrame
  omega

section

variable {sp : Word} (room : sp.toNat + 20 ≤ 2^32)
include room

theorem frame_addresses : (sp + 4#32).toNat = sp.toNat + 4 ∧ (sp + 8#32).toNat = sp.toNat + 8 ∧
    (sp + 12#32).toNat = sp.toNat + 12 ∧ (sp + 16#32).toNat = sp.toNat + 16 :=
  ⟨toNat_add_word (by omega), toNat_add_word (by omega), toNat_add_word (by omega), toNat_add_word (by omega)⟩

theorem saveContext_spec (m : Memory) (ctx : Context) (esp : ctx.esp = sp + 20#32) :
    loadContext (saveContext m sp ctx) sp = ctx ∧ Changes (InFrame sp) m (saveContext m sp ctx) := by
  obtain ⟨four, eight, twelve, sixteen⟩ := frame_addresses room
  constructor
  · unfold loadContext saveContext
    simp (disch := omega) only [load32_store32, load32_store32_apart]
    rw [← esp]
  · have fifth := changes_store32_inFrame m ctx.eip room (a := sp + 16#32) (by omega) (by omega)
    have fourth := changes_store32_inFrame (m.store32 (sp + 16#32) ctx.eip) ctx.ebx room (a := sp + 12#32)
      (by omega) (by omega)
    have third := changes_store32_inFrame ((m.store32 (sp + 16#32) ctx.eip).store32 (sp + 12#32) ctx.ebx) ctx.ebp room
      (a := sp + 8#32) (by omega) (by omega)
    exact (((fifth.trans fourth).trans third).trans (changes_store32_inFrame _ _ room (by omega) (by omega))).trans
      (changes_store32_inFrame _ _ room (by omega) (by omega))

def firstContext (entryPoint sp : Word) : Context := ⟨entryPoint, sp, 0#32, 0#32, 0#32, 0#32⟩

theorem x86InitTaskMem_spec (m : Memory) {savedSp : Word} (entryPoint : Word) (field : savedSp.toNat + 4 ≤ 2^32)
    (apart : savedSp.toNat + 4 ≤ sp.toNat ∨ sp.toNat + 20 ≤ savedSp.toNat) :
    let m' := x86InitTaskMem m savedSp entryPoint (sp + 20#32)
    m'.load32 savedSp = sp ∧ loadContext m' sp = firstContext entryPoint (sp + 20#32) ∧
    Changes (fun x => InFrame sp x ∨ (savedSp.toNat ≤ x ∧ x < savedSp.toNat + 4)) m m' := by
  obtain ⟨four, eight, twelve, sixteen⟩ := frame_addresses room
  have frame : sp + 20#32 - sizeofContextSwitchFrame = sp := by
    unfold sizeofContextSwitchFrame
    bv_omega
  simp only [x86InitTaskMem, frame]
  refine ⟨load32_store32 _ _ _, ?_, ?_⟩
  · unfold loadContext firstContext
    simp (disch := omega) only [load32_store32, load32_store32_apart]
  · have word (m : Memory) (a : Word) (v : Word) (lower : sp.toNat ≤ a.toNat) (upper : a.toNat + 4 ≤ sp.toNat + 20) :
        Changes (fun x => InFrame sp x ∨ (savedSp.toNat ≤ x ∧ x < savedSp.toNat + 4)) m (m.store32 a v) :=
      (changes_store32_inFrame m v room lower upper).mono fun x inside => Or.inl inside
    have last (m : Memory) (v : Word) :
        Changes (fun x => InFrame sp x ∨ (savedSp.toNat ≤ x ∧ x < savedSp.toNat + 4)) m (m.store32 savedSp v) :=
      (changes_store32 m savedSp v field).mono fun x inside => Or.inr inside
    exact (((((word m _ _ (by omega) (by omega)).trans (word _ _ _ (by omega) (by omega))).trans
      (word _ _ _ (by omega) (by omega))).trans (word _ _ _ (by omega) (by omega))).trans
      (word _ _ _ (by omega) (by omega))).trans (last _ _)

end

/-- The running code's context at the call of `x86_asm_switch`, as it is once that call returns. -/
def callContext (c : Cpu) (returnAddress : Word) : Context := { contextOf c with eip := returnAddress }

/-- The old context is pushed and its stack pointer stored; then the context at `new_sp` is loaded. -/
theorem x86TaskSwitchCpu_eq (c : Cpu) (oldSavedSp newSavedSp asmSwitch returnAddress : Word) :
    let sp := c.esp - sizeofContextSwitchFrame
    let c' := x86TaskSwitchCpu c oldSavedSp newSavedSp asmSwitch returnAddress
    c'.mem = (saveContext c.mem sp (callContext c returnAddress)).store32 oldSavedSp sp ∧
    contextOf c' = loadContext c'.mem (c.mem.load32 newSavedSp) := by
  have pushed1 : c.esp - 4#32 = c.esp - sizeofContextSwitchFrame + 16#32 := by
    simp only [sizeofContextSwitchFrame, BitVec.sub_eq_add_neg, BitVec.add_assoc, BitVec.reduceNeg, BitVec.reduceAdd]
  have pushed2 : c.esp - 4#32 - 4#32 = c.esp - sizeofContextSwitchFrame + 12#32 := by
    simp only [sizeofContextSwitchFrame, BitVec.sub_eq_add_neg, BitVec.add_assoc, BitVec.reduceNeg, BitVec.reduceAdd]
  have pushed3 : c.esp - 4#32 - 4#32 - 4#32 = c.esp - sizeofContextSwitchFrame + 8#32 := by
    simp only [sizeofContextSwitchFrame, BitVec.sub_eq_add_neg, BitVec.add_assoc, BitVec.reduceNeg, BitVec.reduceAdd]
  have pushed4 : c.esp - 4#32 - 4#32 - 4#32 - 4#32 = c.esp - sizeofContextSwitchFrame + 4#32 := by
    simp only [sizeofContextSwitchFrame, BitVec.sub_eq_add_neg, BitVec.add_assoc, BitVec.reduceNeg, BitVec.reduceAdd]
  have pushed5 : c.esp - 4#32 - 4#32 - 4#32 - 4#32 - 4#32 = c.esp - sizeofContextSwitchFrame := by
    simp only [sizeofContextSwitchFrame, BitVec.sub_eq_add_neg, BitVec.add_assoc, BitVec.reduceNeg, BitVec.reduceAdd]
  have popped (a : Word) : a + 4#32 + 4#32 = a + 8#32 ∧ a + 4#32 + 4#32 + 4#32 = a + 12#32 ∧
      a + 4#32 + 4#32 + 4#32 + 4#32 = a + 16#32 ∧ a + 4#32 + 4#32 + 4#32 + 4#32 + 4#32 = a + 20#32 := by
    simp only [BitVec.add_assoc, BitVec.reduceAdd, and_self]
  obtain ⟨popped2, popped3, popped4, popped5⟩ := popped (c.mem.load32 newSavedSp)
  constructor
  · simp only [x86TaskSwitchCpu, x86AsmSwitch, Cpu.call, Cpu.push32, Cpu.pop32, Cpu.ret]
    rw [pushed5, pushed4, pushed3, pushed2, pushed1]
    rfl
  · simp only [x86TaskSwitchCpu, x86AsmSwitch, Cpu.call, Cpu.push32, Cpu.pop32, Cpu.ret, contextOf, loadContext]
    rw [popped5, popped4, popped3, popped2]

/-! ### Tasks switching among each other -/

/-- Where the stacks of the tasks and their `saved_sp` fields are. -/
structure TaskLayout (τ : Type) where
  stack : τ → Word
  stackSize : τ → Word
  savedSp : τ → Word

namespace TaskLayout

variable {τ : Type} (L : TaskLayout τ) (t u : τ)

def InStack (x : Nat) : Prop := (L.stack t).toNat ≤ x ∧ x < (L.stack t).toNat + (L.stackSize t).toNat

def InField (x : Nat) : Prop := (L.savedSp t).toNat ≤ x ∧ x < (L.savedSp t).toNat + 4

/-- Stacks with room for a frame, and fields, that do not overlap. -/
structure Separate : Prop where
  stack : ∀ t, (L.stack t).toNat + (L.stackSize t).toNat ≤ 2^32
  frame : ∀ t, 20 ≤ (L.stackSize t).toNat
  field : ∀ t, (L.savedSp t).toNat + 4 ≤ 2^32
  stackStack : ∀ t u x, L.InStack t x → L.InStack u x → t = u
  fields : ∀ t u x, L.InField t x → L.InField u x → t = u
  fieldStack : ∀ t u x, L.InField t x → ¬ L.InStack u x

def Owns (x : Nat) : Prop := L.InStack t x ∨ L.InField t x

/-- The frame at `sp` is on the stack of `t`. -/
def HasRoom (sp : Word) : Prop :=
  (L.stack t).toNat ≤ sp.toNat ∧ sp.toNat + 20 ≤ (L.stack t).toNat + (L.stackSize t).toNat

/-- `saved_sp` leads to a frame with context `ctx` on the stack of `t`. -/
def Saved (m : Memory) (ctx : Context) : Prop :=
  L.HasRoom t (m.load32 (L.savedSp t)) ∧ loadContext m (m.load32 (L.savedSp t)) = ctx

variable {L t u}

theorem HasRoom.inStack {sp : Word} {x : Nat} (room : L.HasRoom t sp) (inside : InFrame sp x) : L.InStack t x := by
  unfold HasRoom at room
  unfold InFrame at inside
  unfold InStack
  omega

theorem HasRoom.bound {sp : Word} (room : L.HasRoom t sp) (separate : L.Separate) : sp.toNat + 20 ≤ 2^32 := by
  have stack := separate.stack t
  unfold HasRoom at room
  omega

theorem Separate.field_off_frame {sp : Word} (separate : L.Separate) (room : L.HasRoom t sp) :
    (L.savedSp u).toNat + 4 ≤ sp.toNat ∨ sp.toNat + 20 ≤ (L.savedSp u).toNat := by
  by_contra overlap
  have low := separate.fieldStack u t (L.savedSp u).toNat
  have high := separate.fieldStack u t ((L.savedSp u).toNat + 3)
  have start := separate.fieldStack u t sp.toNat
  unfold HasRoom at room
  unfold InField InStack at low high start
  omega

theorem Separate.apart {sp : Word} (separate : L.Separate) (ne : t ≠ u) (room : L.HasRoom u sp) :
    ∀ x, L.Owns t x → ¬ (InFrame sp x ∨ L.InField u x) := by
  rintro x (stack | field) (inside | inside)
  · exact ne (separate.stackStack t u x stack (room.inStack inside))
  · exact separate.fieldStack u t x inside stack
  · exact separate.fieldStack t u x field (room.inStack inside)
  · exact ne (separate.fields t u x field inside)

theorem Saved.kept {m m' : Memory} {ctx : Context} {S : Nat → Prop} (saved : L.Saved t m ctx)
    (separate : L.Separate) (changes : Changes S m m') (off : ∀ x, L.Owns t x → ¬ S x) :
    m'.load32 (L.savedSp t) = m.load32 (L.savedSp t) ∧ L.Saved t m' ctx := by
  obtain ⟨room, context⟩ := saved
  have pointer : m'.load32 (L.savedSp t) = m.load32 (L.savedSp t) := by
    apply changes.load32 (separate.field t)
    intro i small
    apply off
    right
    unfold InField
    omega
  have frame : loadContext m' (m.load32 (L.savedSp t)) = loadContext m (m.load32 (L.savedSp t)) := by
    apply loadContext_kept (room.bound separate) changes
    exact fun x inside => off x (Or.inl (room.inStack inside))
  unfold Saved
  rw [pointer, frame]
  exact ⟨rfl, room, context⟩

theorem Separate.first_room (separate : L.Separate) (t : τ) :
    L.HasRoom t (L.stack t + L.stackSize t - sizeofContextSwitchFrame) := by
  have stack := separate.stack t
  have frame := separate.frame t
  unfold HasRoom sizeofContextSwitchFrame
  rw [BitVec.toNat_sub, BitVec.toNat_add]
  simp only [BitVec.toNat_ofNat]
  omega

end TaskLayout

/-- `expected` is what each task counts on: its first context, or that of its own last call of
    `x86_asm_switch`. -/
structure Switching (τ : Type) where
  cpu : Cpu
  current : τ
  expected : τ → Option Context

inductive SwitchOp (τ : Type) where
  | initTask (t : τ)
  | compute (cpu : Cpu)
  | switch (task : τ) (returnAddress : Word)

section

variable {τ : Type} [DecidableEq τ] (L : TaskLayout τ) (taskTrampoline asmSwitch : Word)

namespace Switching

def Foreign (s : Switching τ) (x : Nat) : Prop :=
  ∃ t, t ≠ s.current ∧ s.expected t ≠ none ∧ L.Owns t x

def Allowed (s : Switching τ) : SwitchOp τ → Prop
  | .initTask _ => True
  | .compute cpu => ∀ x : Word, s.Foreign L x.toNat → cpu.mem x = s.cpu.mem x
  | .switch task _ => task ≠ s.current ∧ s.expected task ≠ none ∧
      L.HasRoom s.current (s.cpu.esp - sizeofContextSwitchFrame)

def apply (s : Switching τ) : SwitchOp τ → Switching τ
  | .initTask t =>
    let sp := L.stack t + L.stackSize t
    { s with
      cpu := { s.cpu with mem := x86InitTaskMem s.cpu.mem (L.savedSp t) taskTrampoline sp }
      expected := Function.update s.expected t (some (firstContext taskTrampoline sp)) }
  | .compute cpu => { s with cpu := cpu }
  | .switch task returnAddress =>
    { cpu := x86TaskSwitchCpu s.cpu (L.savedSp s.current) (L.savedSp task) asmSwitch returnAddress
      current := task
      expected := Function.update s.expected s.current (some (callContext s.cpu returnAddress)) }

def Step (s : Switching τ) (op : SwitchOp τ) (s' : Switching τ) : Prop :=
  s.Allowed L op ∧ s' = s.apply L taskTrampoline asmSwitch op

def Start (s : Switching τ) : Prop := ∀ t, s.expected t = none

/-- Every task that is not running has the context it counts on in a frame on its stack. -/
def Suspended (s : Switching τ) : Prop :=
  ∀ t ctx, t ≠ s.current → s.expected t = some ctx → L.Saved t s.cpu.mem ctx

variable {L taskTrampoline asmSwitch} {s s' : Switching τ}

theorem Suspended.initTask (separate : L.Separate) (suspended : s.Suspended L) (t : τ) :
    (s.apply L taskTrampoline asmSwitch (.initTask t)).Suspended L := by
  have room := separate.first_room t
  have top : L.stack t + L.stackSize t - sizeofContextSwitchFrame + 20#32 = L.stack t + L.stackSize t := by
    unfold sizeofContextSwitchFrame
    bv_omega
  have written := x86InitTaskMem_spec (room.bound separate) s.cpu.mem taskTrampoline (separate.field t)
    (separate.field_off_frame room)
  simp only [top] at written
  obtain ⟨pointer, context, changes⟩ := written
  intro u ctx away expected
  show L.Saved u (x86InitTaskMem _ _ _ _) ctx
  by_cases same : u = t
  · subst same
    simp only [apply, Function.update_self, Option.some.injEq] at expected
    unfold TaskLayout.Saved
    rw [pointer, context, expected]
    exact ⟨room, rfl⟩
  · simp only [apply, Function.update_of_ne same] at expected
    exact ((suspended u ctx away expected).kept separate changes (separate.apart same room)).2

theorem Suspended.compute (separate : L.Separate) (suspended : s.Suspended L) {cpu : Cpu}
    (allowed : s.Allowed L (.compute cpu)) :
    (s.apply L taskTrampoline asmSwitch (.compute cpu)).Suspended L := by
  intro t ctx away expected
  have changes : Changes (fun x => ¬ s.Foreign L x) s.cpu.mem cpu.mem :=
    fun x outside => allowed x (Classical.not_not.mp outside)
  have known : s.expected t ≠ none := by
    intro absent
    rw [show s.expected t = some ctx from expected] at absent
    cases absent
  exact ((suspended t ctx away expected).kept separate changes fun x owned own => own ⟨t, away, known, owned⟩).2

/-- The running task's frame is written; the next one's survives that and is loaded. -/
theorem Suspended.switch (separate : L.Separate) (suspended : s.Suspended L) {task : τ} {returnAddress : Word}
    (allowed : s.Allowed L (.switch task returnAddress)) :
    (s.apply L taskTrampoline asmSwitch (.switch task returnAddress)).Suspended L ∧
    s.expected task = some (contextOf (s.apply L taskTrampoline asmSwitch (.switch task returnAddress)).cpu) := by
  obtain ⟨other, known, room⟩ := allowed
  obtain ⟨mem, context⟩ := x86TaskSwitchCpu_eq s.cpu (L.savedSp s.current) (L.savedSp task) asmSwitch returnAddress
  have esp : (callContext s.cpu returnAddress).esp = s.cpu.esp - sizeofContextSwitchFrame + 20#32 := by
    show s.cpu.esp = _
    unfold sizeofContextSwitchFrame
    bv_omega
  obtain ⟨saved, pushed⟩ := saveContext_spec (room.bound separate) s.cpu.mem _ esp
  have stored := changes_store32 (saveContext s.cpu.mem (s.cpu.esp - sizeofContextSwitchFrame)
    (callContext s.cpu returnAddress)) (L.savedSp s.current) (s.cpu.esp - sizeofContextSwitchFrame)
    (separate.field s.current)
  have changes := (pushed.mono fun x => Or.inl (b := L.InField s.current x)).trans
    (stored.mono fun x => Or.inr (a := InFrame (s.cpu.esp - sizeofContextSwitchFrame) x))
  rw [← mem] at changes
  constructor
  · intro t ctx away expected
    show L.Saved t (x86TaskSwitchCpu _ _ _ _ _).mem ctx
    by_cases same : t = s.current
    · subst same
      simp only [apply, Function.update_self, Option.some.injEq] at expected
      have frame := loadContext_kept (room.bound separate) stored fun x inside field =>
        separate.fieldStack s.current s.current x field (room.inStack inside)
      unfold TaskLayout.Saved
      rw [mem, load32_store32, frame, saved, expected]
      exact ⟨room, rfl⟩
    · simp only [apply, Function.update_of_ne same] at expected
      exact ((suspended t ctx same expected).kept separate changes (separate.apart same room)).2
  · obtain ⟨ctx, expected⟩ := Option.ne_none_iff_exists'.mp known
    obtain ⟨pointer, -, found⟩ := (suspended task ctx other expected).kept separate changes (separate.apart other room)
    rw [expected]
    show some ctx = some (contextOf (x86TaskSwitchCpu _ _ _ _ _))
    rw [context, ← pointer, found]

theorem Suspended.step (separate : L.Separate) {op : SwitchOp τ} (suspended : s.Suspended L)
    (step : Step L taskTrampoline asmSwitch s op s') : s'.Suspended L := by
  obtain ⟨allowed, rfl⟩ := step
  cases op with
  | initTask t => exact suspended.initTask separate t
  | compute cpu => exact suspended.compute separate allowed
  | switch task returnAddress => exact (suspended.switch separate allowed).1

omit [DecidableEq τ] in
theorem Start.suspended (start : s.Start) : s.Suspended L := by
  intro t ctx away expected
  rw [start t] at expected
  cases expected

end Switching

/-- In every run, a task that is switched to finds the context it counts on. -/
theorem context_preserved {L : TaskLayout τ} (separate : L.Separate) {s s' : Switching τ}
    (reachable : Reachable Switching.Start (Switching.Step L taskTrampoline asmSwitch) s) {task : τ}
    {returnAddress : Word} (step : Switching.Step L taskTrampoline asmSwitch s (.switch task returnAddress) s') :
    s.expected task = some (contextOf s'.cpu) := by
  have suspended : s.Suspended L :=
    reachable.invariant (Switching.Suspended L) (fun s start => start.suspended)
      fun s op s' suspended step => suspended.step separate step
  obtain ⟨allowed, rfl⟩ := step
  exact (suspended.switch separate allowed).2

end

/-! Two tasks: the first one starts the second, which then switches back. -/

def twoTasks : TaskLayout Bool where
  stack t := if t then 0x2000#32 else 0x1000#32
  stackSize _ := 512#32
  savedSp t := if t then 0x3004#32 else 0x3000#32

theorem twoTasks_separate : twoTasks.Separate := by
  constructor
  case stack => decide
  case frame => decide
  case field => decide
  case stackStack =>
    intro t u x first second
    cases t <;> cases u <;> simp [TaskLayout.InStack, twoTasks] at first second ⊢ <;> omega
  case fields =>
    intro t u x first second
    cases t <;> cases u <;> simp [TaskLayout.InField, twoTasks] at first second ⊢ <;> omega
  case fieldStack =>
    intro t u x field stack
    cases t <;> cases u <;> simp [TaskLayout.InField, TaskLayout.InStack, twoTasks] at field stack <;> omega

def firstCpu : Cpu := ⟨9#32, 1#32, 9#32, 9#32, 3#32, 4#32, 2#32, 0x1200#32, 0x100#32, false, false, false, false, fun _ => 0#8⟩

def twoTasksStep : Switching Bool → SwitchOp Bool → Switching Bool := Switching.apply twoTasks 0x400#32 0x500#32

theorem context_preserved_twoTasks :
    let start : Switching Bool := ⟨firstCpu, false, fun _ => none⟩
    let created := twoTasksStep start (.initTask true)
    let second := twoTasksStep created (.switch true 0x600#32)
    let busy := twoTasksStep second (.compute { firstCpu with ebx := 7#32, esp := 0x21f0#32, mem := second.cpu.mem })
    contextOf (twoTasksStep busy (.switch false 0x700#32)).cpu =
      ⟨0x600#32, 0x1200#32, 1#32, 2#32, 3#32, 4#32⟩ := by
  intro start created second busy
  have step (s : Switching Bool) (op : SwitchOp Bool) (allowed : s.Allowed twoTasks op) :
      Switching.Step twoTasks 0x400#32 0x500#32 s op (twoTasksStep s op) := ⟨allowed, rfl⟩
  have room (sp : Word) (t : Bool) (lower : (twoTasks.stack t).toNat ≤ sp.toNat)
      (upper : sp.toNat + 20 ≤ (twoTasks.stack t).toNat + (twoTasks.stackSize t).toNat) : twoTasks.HasRoom t sp :=
    ⟨lower, upper⟩
  have first := step start (.initTask true) trivial
  have leave := step created (.switch true 0x600#32) ⟨by decide, nofun, room _ false (by decide) (by decide)⟩
  have work := step second (.compute { firstCpu with ebx := 7#32, esp := 0x21f0#32, mem := second.cpu.mem })
    fun x foreign => rfl
  have back := step busy (.switch false 0x700#32) ⟨by decide, nofun, room _ true (by decide) (by decide)⟩
  have base : Switching.Start start := fun t => rfl
  have reachable := (((Reachable.base base).next first).next leave).next work
  have found := context_preserved 0x400#32 0x500#32 twoTasks_separate reachable back
  exact (Option.some.inj found).symm

end ThreeX86.Tasks
