import ThreeX86.Tasks.InMemory
import ThreeX86.Tasks.Operations

/-!
`task_create` and `task_init` in memory, and what leaves the scheduler's state in memory alone.
-/

namespace ThreeX86.Tasks

open Machine Machine.Memory ThreeX86.Lists Linked Extents Extent Kernel

namespace KernelLayout

variable {τ : Type} {L : KernelLayout τ}

def taskLayout (L : KernelLayout τ) : TaskLayout τ := ⟨L.stack, L.stackSize, fun t => savedSp (L.task t)⟩

theorem Separate.savedSp_toNat (separate : L.Separate) (t : τ) : (savedSp (L.task t)).toNat = (L.task t).toNat + 32 :=
  (task_addresses (separate.room t)).2.2.2.2.2.2.2

theorem Separate.taskLayout (separate : L.Separate) : L.taskLayout.Separate := by
  have field (t : τ) := separate.savedSp_toNat t
  constructor
  case stack => exact fun t => separate.stackRoom t
  case frame => exact separate.frame
  case field =>
    intro t
    have room := separate.room t
    show (savedSp (L.task t)).toNat + 4 ≤ _
    rw [field]
    omega
  case stackStack =>
    intro t u x first second
    by_contra ne
    have apart := separate.stackStack t u ne
    simp only [TaskLayout.InStack, KernelLayout.taskLayout] at first second
    simp only [Apart, stackExtent, stop] at apart
    omega
  case fields =>
    intro t u x first second
    by_contra ne
    have apart := separate.taskTask t u ne
    simp only [TaskLayout.InField, KernelLayout.taskLayout, field] at first second
    simp only [Apart, taskExtent, stop, sizeofTask] at apart
    omega
  case fieldStack =>
    intro t u x first second
    have apart := separate.stackTask u t
    simp only [TaskLayout.InField, TaskLayout.InStack, KernelLayout.taskLayout, field] at first second
    simp only [Apart, stackExtent, taskExtent, stop, sizeofTask] at apart
    omega

theorem Separate.owned_off_task (separate : L.Separate) (t : τ) {x : Nat} (owned : L.Owned x) :
    ¬ L.taskLayout.Owns t x := by
  have field := separate.savedSp_toNat t
  have stackTask (u : τ) := separate.stackTask t u
  have stackQueue := separate.stackQueue t
  have stackCurrent := separate.stackCurrent t
  have taskQueue := separate.taskQueue t
  have taskCurrent := separate.taskCurrent t
  simp only [Apart, stackExtent, taskExtent, queueExtent, stop, sizeofTask] at stackTask stackQueue taskQueue
  simp only [Apart, stackExtent, taskExtent, currentExtent, stop, sizeofTask] at stackCurrent taskCurrent
  simp only [TaskLayout.Owns, TaskLayout.InField, TaskLayout.InStack, KernelLayout.taskLayout, field]
  rcases owned with queue | current | ⟨u, lower, upper⟩
  · simp only [Contains, queueExtent, stop] at queue
    omega
  · simp only [Contains, currentExtent, stop] at current
    omega
  · have stack := stackTask u
    by_cases same : u = t
    · rw [same] at lower upper stack
      omega
    · have apart := separate.taskTask u t same
      simp only [Apart, taskExtent, stop, sizeofTask] at apart
      omega

/-- The bytes in which the scheduler's state is. -/
def Holds (L : KernelLayout τ) (live : τ → Prop) (x : Nat) : Prop :=
  L.queueExtent.Contains x ∨ L.currentExtent.Contains x ∨ ∃ t, live t ∧ (L.task t).toNat ≤ x ∧ x < (L.task t).toNat + 32

theorem Holds.owned {live : τ → Prop} {x : Nat} (holds : L.Holds live x) : L.Owned x := by
  rcases holds with queue | current | ⟨t, -, inside⟩
  · exact .inl queue
  · exact .inr (.inl current)
  · exact .inr (.inr ⟨t, inside⟩)

end KernelLayout

section

variable {τ : Type} [DecidableEq τ] {L : KernelLayout τ} {live : τ → Prop} {k k' : Kernel} {s s' : Sched τ} {t : τ}
  {queue : List τ}

theorem Represents.kept {S : Nat → Prop} (separate : L.Separate) (represents : Represents L live k s)
    (changes : Changes S k.cpu.mem k'.cpu.mem) (off : ∀ x, L.Holds live x → ¬ S x)
    (flag : k'.interruptFlag = k.interruptFlag) : Represents L live k' s := by
  constructor
  case nodes =>
    apply separate.node_kept changes _ represents.nodes
    intro n alive x lower upper
    apply off
    cases n with
    | null => cases alive
    | runQueue => exact .inl ⟨lower, upper⟩
    | task t =>
      simp only [KernelLayout.address] at lower upper
      exact .inr (.inr ⟨t, alive, lower, by omega⟩)
  case fields =>
    intro t alive
    apply (represents.fields t alive).kept (separate.room t) changes
    intro x lower upper
    exact off x (.inr (.inr ⟨t, alive, by omega, upper⟩))
  case current =>
    exact (separate.current_kept changes fun x inside => off x (.inr (.inl inside))).trans represents.current
  case flag => rw [flag]; exact represents.flag

/-! ### `task_create` -/

/-- Memory as `x86_init_task` finds it. -/
def taskFields (m : Memory) (t entry arg stack stackSize : Word) : Memory :=
  let m := listClearNode (m.fillBytes t 0#8 sizeofTask) t
  let m := m.store32 (t + 8#32) TaskState.initial.code
  let m := m.store32 (t + 12#32) 1#32
  let m := m.store32 (t + 16#32) entry
  let m := m.store32 (t + 20#32) arg
  let m := m.store32 (t + 24#32) stack
  m.store32 (t + 28#32) stackSize

structure Cleared (m : Memory) (a : Word) (v : Task) : Prop where
  prev : m.load32 a = 0#32
  next : m.load32 (a + 4#32) = 0#32
  fields : TaskAt m a v

theorem taskFields_spec (m : Memory) {a : Word} (room : a.toNat + 36 ≤ 2^32) (entry arg stack stackSize sp : Word) :
    Cleared (taskFields m a entry arg stack stackSize) a ⟨.initial, 1, entry, arg, stack, stackSize, sp⟩ ∧
      Changes (fun x => a.toNat ≤ x ∧ x < a.toNat + 36) m (taskFields m a entry arg stack stackSize) := by
  obtain ⟨four, eight, twelve, sixteen, twenty, twentyFour, twentyEight, -⟩ := task_addresses room
  constructor
  · unfold taskFields listClearNode NodeStore.setNext NodeStore.setPrev NodeStore.null
    simp only [Heap.instNodeStoreMemoryWord]
    constructor
    case prev => simp (disch := omega) only [load32_store32, load32_store32_apart]
    case next => simp (disch := omega) only [load32_store32, load32_store32_apart]
    case fields =>
      constructor
      case state => simp (disch := omega) only [load32_store32, load32_store32_apart]
      case count =>
        simp (disch := omega) only [load32_store32, load32_store32_apart]
        decide
      case entry => simp (disch := omega) only [load32_store32, load32_store32_apart]
      case arg => simp (disch := omega) only [load32_store32, load32_store32_apart]
      case stack => simp (disch := omega) only [load32_store32, load32_store32_apart]
      case stackSize => simp (disch := omega) only [load32_store32]
  · have word (m : Memory) (b v : Word) (lower : a.toNat ≤ b.toNat) (upper : b.toNat + 4 ≤ a.toNat + 36) :
        Changes (fun x => a.toNat ≤ x ∧ x < a.toNat + 36) m (m.store32 b v) :=
      (changes_store32 m b v (by omega)).mono fun x inside => by omega
    have filled : Changes (fun x => a.toNat ≤ x ∧ x < a.toNat + 36) m (m.fillBytes a 0#8 sizeofTask) :=
      changes_fillBytes m a 0#8 sizeofTask room
    have next := filled.trans (word _ (a + 4#32) 0#32 (by omega) (by omega))
    have prev := next.trans (word _ a 0#32 (by omega) (by omega))
    have state := prev.trans (word _ (a + 8#32) TaskState.initial.code (by omega) (by omega))
    have count := state.trans (word _ (a + 12#32) 1#32 (by omega) (by omega))
    have entries := (count.trans (word _ (a + 16#32) entry (by omega) (by omega))).trans
      (word _ (a + 20#32) arg (by omega) (by omega))
    exact (entries.trans (word _ (a + 24#32) stack (by omega) (by omega))).trans
      (word _ (a + 28#32) stackSize (by omega) (by omega))

/-- What `task_create` writes: the `struct task` and the frame at the top of its stack. -/
def Creates (L : KernelLayout τ) (t : τ) (x : Nat) : Prop := (L.taskExtent t).Contains x ∨ (L.stackExtent t).Contains x

omit [DecidableEq τ] in
theorem taskCreate_mem (separate : L.Separate) (k : Kernel) (t : τ) (entry arg : Word) :
    (k.taskCreate L.toGlobals (L.task t) entry arg (L.stack t) (L.stackSize t)).cpu.mem =
      x86InitTaskMem (taskFields k.cpu.mem (L.task t) entry arg (L.stack t) (L.stackSize t)) (savedSp (L.task t))
        L.taskTrampoline (L.stack t + L.stackSize t) := by
  have fields := (taskFields_spec k.cpu.mem (separate.room t) entry arg (L.stack t) (L.stackSize t) 0#32).1.fields
  have stack := fields.stack
  have stackSize := fields.stackSize
  simp only at stack stackSize
  show x86InitTaskMem (taskFields _ _ _ _ _ _) _ _ (load32 (taskFields _ _ _ _ _ _) _ + load32 (taskFields _ _ _ _ _ _) _) = _
  rw [stack, stackSize]

omit [DecidableEq τ] in
/-- The frame and `saved_sp` lie behind the fields. -/
theorem x86InitTaskMem_off (separate : L.Separate) (t : τ) (m : Memory) :
    Changes (fun x => (L.stackExtent t).Contains x ∨ ((L.task t).toNat + 32 ≤ x ∧ x < (L.task t).toNat + 36)) m
      (x86InitTaskMem m (savedSp (L.task t)) L.taskTrampoline (L.stack t + L.stackSize t)) := by
  have layout := separate.taskLayout
  have room := layout.first_room t
  have top : L.stack t + L.stackSize t - sizeofContextSwitchFrame + 20#32 = L.stack t + L.stackSize t := by
    unfold sizeofContextSwitchFrame
    bv_omega
  have written := x86InitTaskMem_spec (room.bound layout) m L.taskTrampoline (layout.field t) (layout.field_off_frame room)
  have field := separate.savedSp_toNat t
  simp only [KernelLayout.taskLayout, top, field] at written
  apply written.2.2.mono
  rintro x (frame | inside)
  · exact .inl (room.inStack frame)
  · exact .inr inside

omit [DecidableEq τ] in
theorem taskCreate_kernel (separate : L.Separate) (k : Kernel) (t : τ) (entry arg sp : Word) :
    Cleared (k.taskCreate L.toGlobals (L.task t) entry arg (L.stack t) (L.stackSize t)).cpu.mem (L.task t)
        ⟨.initial, 1, entry, arg, L.stack t, L.stackSize t, sp⟩ ∧
      Changes (Creates L t) k.cpu.mem (k.taskCreate L.toGlobals (L.task t) entry arg (L.stack t) (L.stackSize t)).cpu.mem := by
  rw [taskCreate_mem separate]
  have room := separate.room t
  have stack := separate.stackTask t t
  simp only [Apart, KernelLayout.stackExtent, KernelLayout.taskExtent, stop, sizeofTask] at stack
  obtain ⟨cleared, written⟩ := taskFields_spec k.cpu.mem room entry arg (L.stack t) (L.stackSize t) sp
  have changes := x86InitTaskMem_off separate t (taskFields k.cpu.mem (L.task t) entry arg (L.stack t) (L.stackSize t))
  have off (x : Nat) (lower : (L.task t).toNat ≤ x) (upper : x < (L.task t).toNat + 32) :
      ¬ ((L.stackExtent t).Contains x ∨ ((L.task t).toNat + 32 ≤ x ∧ x < (L.task t).toNat + 36)) := by
    simp only [Contains, KernelLayout.stackExtent, stop]
    omega
  have four := (task_addresses room).1
  constructor
  · constructor
    case prev => exact (changes.load32 (by omega) fun i small => off _ (by omega) (by omega)).trans cleared.prev
    case next => exact (changes.load32 (by omega) fun i small => off _ (by omega) (by omega)).trans cleared.next
    case fields => exact cleared.fields.kept room changes fun x lower upper => off x (by omega) upper
  · have first : Changes (Creates L t) k.cpu.mem (taskFields k.cpu.mem (L.task t) entry arg (L.stack t) (L.stackSize t)) :=
      written.mono fun x inside => .inl inside
    apply first.trans
    apply changes.mono
    rintro x (inside | ⟨lower, upper⟩)
    · exact .inr inside
    · exact .inl ⟨by simp only [KernelLayout.taskExtent]; omega, upper⟩

theorem Represents.mono {live' : τ → Prop} (represents : Represents L live k s) (fewer : ∀ t, live' t → live t) :
    Represents L live' k s := by
  constructor
  case nodes =>
    have inside (n : NodePtr τ) (alive : Live live' n) : Live live n := by
      cases n with
      | null => exact alive
      | runQueue => exact alive
      | task t => exact fewer t alive
    exact ⟨fun n alive => represents.nodes.backward n (inside n alive), fun n alive => represents.nodes.forward n (inside n alive)⟩
  case fields => exact fun t alive => represents.fields t (fewer t alive)
  case current => exact represents.current
  case flag => exact represents.flag

/-- One more task is in memory. -/
theorem Represents.grow {v : Task} (represents : Represents L live k s) (cleared : Cleared k.cpu.mem (L.task t) v)
    (prevs : s'.prevOf = Function.update s.prevOf (.task t) .null) (nexts : s'.nextOf = Function.update s.nextOf (.task t) .null)
    (tasks : s'.tasks = Function.update s.tasks t v) (current : s'.currentTask = s.currentTask)
    (flag : s'.interruptFlag = s.interruptFlag) : Represents L (fun u => u = t ∨ live u) k s' := by
  have alive {n : NodePtr τ} (inside : Live (fun u => u = t ∨ live u) n) (ne : n ≠ .task t) : Live live n := by
    cases n with
    | null => exact inside
    | runQueue => exact inside
    | task u => exact inside.resolve_left fun same => ne (congrArg NodePtr.task same)
  constructor
  case nodes =>
    constructor
    · intro n inside
      show NodeStore.prev k.cpu.mem (L.address n) = L.address (s'.prevOf n)
      by_cases same : n = .task t
      · rw [same, prevs, Function.update_self]
        exact cleared.prev
      · rw [prevs, Function.update_of_ne same]
        exact represents.nodes.backward n (alive inside same)
    · intro n inside
      show NodeStore.next k.cpu.mem (L.address n) = L.address (s'.nextOf n)
      by_cases same : n = .task t
      · rw [same, nexts, Function.update_self]
        exact cleared.next
      · rw [nexts, Function.update_of_ne same]
        exact represents.nodes.forward n (alive inside same)
  case fields =>
    intro u inside
    rw [tasks]
    by_cases same : u = t
    · rw [same, Function.update_self]
      exact cleared.fields
    · rw [Function.update_of_ne same]
      exact represents.fields u (inside.resolve_left same)
  case current => rw [current]; exact represents.current
  case flag => rw [flag]; exact represents.flag

omit [DecidableEq τ] in
theorem KernelLayout.Separate.holds_off_created (separate : L.Separate) {live : τ → Prop} (t : τ) {x : Nat}
    (holds : L.Holds (fun u => live u ∧ u ≠ t) x) : ¬ Creates L t x := by
  have stackTask (u : τ) := separate.stackTask t u
  have stackQueue := separate.stackQueue t
  have stackCurrent := separate.stackCurrent t
  have taskQueue := separate.taskQueue t
  have taskCurrent := separate.taskCurrent t
  simp only [Apart, KernelLayout.stackExtent, KernelLayout.taskExtent, stop, sizeofTask] at stackTask
  simp only [Apart, KernelLayout.stackExtent, KernelLayout.queueExtent, stop] at stackQueue
  simp only [Apart, KernelLayout.taskExtent, KernelLayout.queueExtent, stop, sizeofTask] at taskQueue
  simp only [Apart, KernelLayout.stackExtent, KernelLayout.currentExtent, stop] at stackCurrent
  simp only [Apart, KernelLayout.taskExtent, KernelLayout.currentExtent, stop, sizeofTask] at taskCurrent
  simp only [Creates, Contains, KernelLayout.stackExtent, KernelLayout.taskExtent, stop, sizeofTask]
  rcases holds with queue | current | ⟨u, ⟨-, ne⟩, lower, upper⟩
  · simp only [Contains, KernelLayout.queueExtent, stop] at queue
    omega
  · simp only [Contains, KernelLayout.currentExtent, stop] at current
    omega
  · have stack := stackTask u
    have apart := separate.taskTask u t ne
    simp only [Apart, KernelLayout.taskExtent, stop, sizeofTask] at apart
    omega

theorem tasks_taskCreate (s : Sched τ) (t : τ) (entry arg stack stackSize : Word) :
    (Tasks.taskCreate s t entry arg stack stackSize).2.tasks =
      Function.update s.tasks t ⟨.initial, 1, entry, arg, stack, stackSize, stack + stackSize - 20#32⟩ := by
  have own : Function.update s.tasks t (⟨.initial, 1, entry, arg, stack, stackSize, 0#32⟩ : Task) t =
      ⟨.initial, 1, entry, arg, stack, stackSize, 0#32⟩ := Function.update_self _ _ _
  show Function.update (Function.update s.tasks t _) t
    { Function.update s.tasks t (⟨.initial, 1, entry, arg, stack, stackSize, 0#32⟩ : Task) t with
      savedSp := stack + stackSize - 20#32 } = _
  rw [own, Function.update_idem]

theorem Represents.taskCreate (separate : L.Separate) (represents : Represents L live k s) (t : τ) (entry arg : Word) :
    Represents L (fun u => u = t ∨ live u) (k.taskCreate L.toGlobals (L.task t) entry arg (L.stack t) (L.stackSize t))
      (Tasks.taskCreate s t entry arg (L.stack t) (L.stackSize t)).2 := by
  obtain ⟨cleared, changes⟩ := taskCreate_kernel separate k t entry arg (L.stack t + L.stackSize t - 20#32)
  have others : Represents L (fun u => live u ∧ u ≠ t) k s := represents.mono fun u alive => alive.1
  have kept := others.kept separate changes (fun x holds => separate.holds_off_created t holds) rfl
  apply (kept.grow cleared rfl rfl (tasks_taskCreate s t entry arg (L.stack t) (L.stackSize t)) rfl rfl).mono
  rintro u (same | alive)
  · exact .inl same
  · by_cases same : u = t
    · exact .inl same
    · exact .inr ⟨alive, same⟩

/-! ### `task_init` -/

theorem taskInit_represents (separate : L.Separate) (size : L.stackSize L.idle = 512#32) (k : Kernel) (boot : Sched τ)
    (flag : boot.interruptFlag = k.interruptFlag) :
    Represents L (fun t => t = L.idle) (k.taskInit L.toGlobals (L.stack L.idle))
      (Tasks.taskInit L.idle boot (L.stack L.idle)) := by
  have queueRoom := separate.queueRoom
  have queueCurrent := separate.queueCurrent
  have taskCurrent := separate.taskCurrent L.idle
  simp only [KernelLayout.queueExtent, stop] at queueRoom
  simp only [Apart, KernelLayout.queueExtent, KernelLayout.currentExtent, stop] at queueCurrent
  simp only [Apart, KernelLayout.taskExtent, KernelLayout.currentExtent, stop, sizeofTask] at taskCurrent
  have room := separate.room L.idle
  obtain ⟨cleared, changes⟩ := taskCreate_kernel separate (k.setMem (listInitialize k.cpu.mem L.runQueue)) L.idle 0#32 0#32
    (L.stack L.idle + L.stackSize L.idle - 20#32)
  generalize made : ((k.setMem (listInitialize k.cpu.mem L.runQueue)).taskCreate L.toGlobals (L.task L.idle) 0#32 0#32
    (L.stack L.idle) (L.stackSize L.idle)) = k' at cleared changes
  have stored := changes_store32 k'.cpu.mem L.currentTask (L.task L.idle) separate.currentRoom
  have final : k.taskInit L.toGlobals (L.stack L.idle) = k'.store L.currentTask (L.task L.idle) := by
    rw [← made, size, separate.idle]
    rfl
  rw [final]
  -- the two words of the empty queue survive what follows
  have queueWord (a : Word) (lower : L.runQueue.toNat ≤ a.toNat) (upper : a.toNat + 4 ≤ L.runQueue.toNat + 8) :
      (k'.cpu.mem.store32 L.currentTask (L.task L.idle)).load32 a = (listInitialize k.cpu.mem L.runQueue).load32 a := by
    rw [load32_store32_apart _ _ separate.currentRoom (by omega) (by omega)]
    apply changes.load32 (by omega)
    intro i small
    have held : L.Holds (fun u => True ∧ u ≠ L.idle) (a.toNat + i) := by
      left
      simp only [Contains, KernelLayout.queueExtent, stop]
      omega
    exact separate.holds_off_created L.idle held
  have next : (L.runQueue + 4#32).toNat = L.runQueue.toNat + 4 := toNat_add_word (by omega)
  have four := (task_addresses room).1
  have prevs : (Tasks.taskInit L.idle boot (L.stack L.idle)).prevOf =
      Function.update (Function.update boot.prevOf .runQueue .runQueue) (.task L.idle) .null := rfl
  have nexts : (Tasks.taskInit L.idle boot (L.stack L.idle)).nextOf =
      Function.update (Function.update boot.nextOf .runQueue .runQueue) (.task L.idle) .null := rfl
  constructor
  case nodes =>
    constructor
    · intro n inside
      show load32 (k'.cpu.mem.store32 L.currentTask (L.task L.idle)) (L.address n) =
        L.address ((Tasks.taskInit L.idle boot (L.stack L.idle)).prevOf n)
      cases n with
      | null => cases inside
      | runQueue =>
        rw [prevs, Function.update_of_ne (by simp), Function.update_self]
        exact (queueWord L.runQueue (by omega) (by omega)).trans (load32_store32 _ _ _)
      | task t =>
        cases (show t = L.idle from inside)
        rw [prevs, Function.update_self]
        exact (load32_store32_apart _ _ separate.currentRoom (by simp only [KernelLayout.address]; omega)
          (by simp only [KernelLayout.address]; omega)).trans cleared.prev
    · intro n inside
      show load32 (k'.cpu.mem.store32 L.currentTask (L.task L.idle)) (L.address n + 4#32) =
        L.address ((Tasks.taskInit L.idle boot (L.stack L.idle)).nextOf n)
      cases n with
      | null => cases inside
      | runQueue =>
        rw [nexts, Function.update_of_ne (by simp), Function.update_self]
        refine (queueWord (L.runQueue + 4#32) (by omega) (by omega)).trans ?_
        exact (load32_store32_apart _ _ (by omega) (by omega) (by omega)).trans (load32_store32 _ _ _)
      | task t =>
        cases (show t = L.idle from inside)
        rw [nexts, Function.update_self]
        exact (load32_store32_apart _ _ separate.currentRoom (by simp only [KernelLayout.address]; omega)
          (by simp only [KernelLayout.address]; omega)).trans cleared.next
  case fields =>
    intro t inside
    cases inside
    have kept := cleared.fields.kept room stored fun x lower upper inside => by omega
    have task : (Tasks.taskInit L.idle boot (L.stack L.idle)).tasks L.idle =
        ⟨.initial, 1, 0#32, 0#32, L.stack L.idle, 512#32, L.stack L.idle + 512#32 - 20#32⟩ := by
      show (Tasks.taskCreate (listInitialize boot .runQueue) L.idle _ _ _ _).2.tasks L.idle = _
      rw [tasks_taskCreate, Function.update_self]
    rw [task, ← size]
    exact kept
  case current => exact load32_store32 _ _ _
  case flag =>
    show k'.interruptFlag = boot.interruptFlag
    rw [flag, ← made]
    rfl

end

end ThreeX86.Tasks
