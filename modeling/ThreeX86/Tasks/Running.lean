import ThreeX86.Tasks.Creation
import ThreeX86.Tasks.Guarantees

/-!
Runs of `task.c` on the machine, beside the scheduler's states they stand for and the contexts the tasks
were left in.
-/

namespace ThreeX86.Tasks

open Machine Machine.Memory ThreeX86.Lists Linked Extents Extent Kernel Transition

section

variable {τ : Type} [DecidableEq τ] {L : KernelLayout τ} {live : τ → Prop} {k k' : Kernel} {s s' : Sched τ} {t : τ}
  {queue : List τ} {caller : Caller} {returnAddress : Word}

/-! ### The switch between two stretches of kernel code -/

def KernelLayout.switchCpu (L : KernelLayout τ) (cpu : Cpu) (old next : τ) (returnAddress : Word) : Cpu :=
  x86TaskSwitchCpu cpu (savedSp (L.task old)) (savedSp (L.task next)) L.asmSwitch returnAddress

structure SwitchedTo (L : KernelLayout τ) (k k' : Kernel) (old next : τ) (returnAddress : Word) (cpu : Cpu) : Prop where
  before : Changes L.Owned k.cpu.mem cpu.mem
  call : contextOf cpu = contextOf k.cpu
  after : Changes L.Owned (L.switchCpu cpu old next returnAddress).mem k'.cpu.mem
  landed : contextOf k'.cpu = contextOf (L.switchCpu cpu old next returnAddress)

omit [DecidableEq τ] in
theorem switchCpu_changes (separate : L.Separate) {cpu : Cpu} {old : τ} (next : τ) (returnAddress : Word)
    (room : L.taskLayout.HasRoom old (cpu.esp - sizeofContextSwitchFrame)) :
    Changes (L.taskLayout.Owns old) cpu.mem (L.switchCpu cpu old next returnAddress).mem := by
  have layout := separate.taskLayout
  have esp : (callContext cpu returnAddress).esp = cpu.esp - sizeofContextSwitchFrame + 20#32 := by
    show cpu.esp = _
    unfold sizeofContextSwitchFrame
    bv_omega
  obtain ⟨-, pushed⟩ := saveContext_spec (room.bound layout) cpu.mem _ esp
  have stored := changes_store32 (saveContext cpu.mem (cpu.esp - sizeofContextSwitchFrame) (callContext cpu returnAddress))
    (savedSp (L.task old)) (cpu.esp - sizeofContextSwitchFrame) (layout.field old)
  have mem := (x86TaskSwitchCpu_eq cpu (savedSp (L.task old)) (savedSp (L.task next)) L.asmSwitch returnAddress).1
  rw [KernelLayout.switchCpu, mem]
  exact (pushed.mono fun x inside => .inl (room.inStack inside)).trans (stored.mono fun x inside => .inr inside)

omit [DecidableEq τ] in
theorem KernelLayout.Separate.holds_off_task (separate : L.Separate) (t : τ) {x : Nat} (owns : L.taskLayout.Owns t x) :
    ¬ L.Holds live x := fun holds => separate.owned_off_task t holds.owned owns

section

variable {M : TaskLayout τ} {w : Switching τ}

theorem Switching.Suspended.computed (suspended : w.Suspended M) (layout : M.Separate) {cpu : Cpu}
    (same : ∀ x : Word, w.Foreign M x.toNat → cpu.mem x = w.cpu.mem x) :
    Switching.Suspended M ⟨cpu, w.current, w.expected⟩ := by
  have stepped : (w.apply M 0#32 0#32 (.compute cpu)).Suspended M := suspended.compute layout same
  exact stepped

theorem Switching.Suspended.crossed (suspended : w.Suspended L.taskLayout) (separate : L.Separate) (returnAddress : Word)
    {next : τ} (away : next ≠ w.current) (known : w.expected next ≠ none)
    (room : L.taskLayout.HasRoom w.current (w.cpu.esp - sizeofContextSwitchFrame)) :
    Switching.Suspended L.taskLayout ⟨L.switchCpu w.cpu w.current next returnAddress, next,
        Function.update w.expected w.current (some (callContext w.cpu returnAddress))⟩ ∧
      w.expected next = some (contextOf (L.switchCpu w.cpu w.current next returnAddress)) := by
  have allowed : w.Allowed L.taskLayout (.switch next returnAddress) := ⟨away, known, room⟩
  have stepped : (w.apply L.taskLayout L.taskTrampoline L.asmSwitch (.switch next returnAddress)).Suspended L.taskLayout ∧
      w.expected next = some (contextOf (w.apply L.taskLayout L.taskTrampoline L.asmSwitch (.switch next returnAddress)).cpu) :=
    suspended.switch separate.taskLayout allowed
  exact stepped

theorem Switching.Suspended.framed (suspended : w.Suspended L.taskLayout) (separate : L.Separate) (t : τ) :
    Switching.Suspended L.taskLayout
      ⟨{ w.cpu with mem := x86InitTaskMem w.cpu.mem (savedSp (L.task t)) L.taskTrampoline (L.stack t + L.stackSize t) },
        w.current, Function.update w.expected t (some (firstContext L.taskTrampoline (L.stack t + L.stackSize t)))⟩ := by
  have stepped : (w.apply L.taskLayout L.taskTrampoline L.asmSwitch (.initTask t)).Suspended L.taskLayout :=
    suspended.initTask separate.taskLayout t
  exact stepped

end

theorem taskReschedule_choose (idleTask : τ) (s : Sched τ) (caller : Caller) : ∃ resume r,
    Tasks.taskReschedule idleTask s caller = Tasks.resumeAt { (Tasks.chooseTask idleTask s).2 with resume := resume } r := by
  unfold Tasks.taskReschedule Tasks.chooseTask x86TaskSwitch
  simp only
  split
  · exact ⟨_, _, rfl⟩
  · exact ⟨_, _, rfl⟩

theorem taskReschedule_current (idleTask : τ) (s : Sched τ) (caller : Caller) :
    (Tasks.taskReschedule idleTask s caller).currentTask = (Tasks.chooseTask idleTask s).1 := by
  obtain ⟨resume, r, same⟩ := taskReschedule_choose idleTask s caller
  obtain ⟨-, -, current, -⟩ := resumeAt_same { (Tasks.chooseTask idleTask s).2 with resume := resume } r
  rw [same, current]
  rfl

/-- `task_reschedule` on the machine, unless it finds no other task, crosses exactly one switch. -/
theorem Represents.taskReschedule (returnAddress : Word) (separate : L.Separate) (represents : Represents L live k s)
    (ring : QueueIs s queue)
    (all : ∀ u ∈ queue, live u) (absent : s.state s.currentTask = .running → s.currentTask ∉ queue)
    (alive : live s.currentTask) (idle : live L.idle) (low : 0 ≤ s.count s.currentTask)
    (high : s.count s.currentTask + 1 < 2^31) (room : L.taskLayout.HasRoom s.currentTask (k.cpu.esp - sizeofContextSwitchFrame))
    (result : s' = Tasks.taskReschedule L.idle s caller) (next : live s'.currentTask) (low' : 0 ≤ s'.count s'.currentTask)
    (high' : s'.count s'.currentTask + 1 < 2^31) :
    Represents L live (k.taskReschedule L.toGlobals returnAddress) s' ∧
      if s'.currentTask = s.currentTask then Follows L live k (k.taskReschedule L.toGlobals returnAddress) s'
      else ∃ cpu, SwitchedTo L k (k.taskReschedule L.toGlobals returnAddress) s.currentTask s'.currentTask returnAddress cpu := by
  obtain ⟨old, chosen, follows⟩ := represents.chooseTask separate ring all absent alive idle low high
  obtain ⟨resume, r, same⟩ := taskReschedule_choose L.idle s caller
  have current : s'.currentTask = (Tasks.chooseTask L.idle s).1 := by rw [result, taskReschedule_current]
  rw [← result] at same
  generalize hs4 : ({ (Tasks.chooseTask L.idle s).2 with resume := resume } : Sched τ) = s4 at same
  have current4 : s4.currentTask = s'.currentTask := by rw [current, ← hs4]; rfl
  have count4 : s4.count s4.currentTask = s'.count s'.currentTask + 1 := by
    obtain ⟨-, -, -, -, -, -, counts, -⟩ := resumeAt_same s4 r
    rw [same, counts, count_exit, ← same, current4, if_pos rfl, Int.sub_add_cancel]
  generalize hk4 : (k.chooseTask L.toGlobals).2.2 = k4 at follows
  have represents4 : Represents L live k4 s4 := by
    rw [← hs4]
    exact follows.represents.congr rfl rfl rfl rfl rfl
  have whole : k.taskReschedule L.toGlobals returnAddress =
      if L.task s'.currentTask ≠ L.task s.currentTask then
        ({ k4 with cpu := L.switchCpu k4.cpu s.currentTask s'.currentTask returnAddress } : Kernel).exitCriticalSection L.toGlobals
      else k4.exitCriticalSection L.toGlobals := by
    rw [← hk4, KernelLayout.switchCpu, current, ← old, ← chosen]
    rfl
  by_cases stays : s'.currentTask = s.currentTask
  · rw [if_neg (by rw [stays]; exact not_not.mpr rfl)] at whole
    have left := represents4.resumeAt separate (current4 ▸ next) (by omega) (by omega) r
    rw [← same] at left
    rw [if_pos stays, whole]
    have path : Follows L live k k4 s4 := ⟨represents4, follows.changes, follows.context⟩
    exact ⟨left.represents, path.trans left⟩
  · rw [if_pos fun equal => stays (separate.task_inj equal)] at whole
    have room4 : L.taskLayout.HasRoom s.currentTask (k4.cpu.esp - sizeofContextSwitchFrame) := by
      have esp : k4.cpu.esp = k.cpu.esp := congrArg Context.esp follows.context
      rw [esp]
      exact room
    have crossed := switchCpu_changes separate s'.currentTask returnAddress room4
    have landed : Represents L live { k4 with cpu := L.switchCpu k4.cpu s.currentTask s'.currentTask returnAddress } s4 :=
      represents4.kept separate crossed (fun x holds owns => separate.holds_off_task s.currentTask owns holds) rfl
    have left := landed.resumeAt separate (current4 ▸ next) (by omega) (by omega) r
    rw [← same] at left
    rw [if_neg stays, whole]
    exact ⟨left.represents, k4.cpu, follows.changes, follows.context, left.changes, left.context⟩

/-! ### Entry points and arguments -/

/-- No task's entry point or argument changes. -/
def SameCode (s s' : Sched τ) : Prop := ∀ t, (s'.tasks t).entry = (s.tasks t).entry ∧ (s'.tasks t).arg = (s.tasks t).arg

omit [DecidableEq τ] in
theorem SameCode.of_tasks (same : s'.tasks = s.tasks) : SameCode s s' := by
  intro t
  rw [same]
  exact ⟨rfl, rfl⟩

omit [DecidableEq τ] in
theorem SameCode.trans {s'' : Sched τ} (first : SameCode s s') (second : SameCode s' s'') : SameCode s s'' :=
  fun t => ⟨(second t).1.trans (first t).1, (second t).2.trans (first t).2⟩

theorem sameCode_setTask (s : Sched τ) (t : τ) {v : Task} (entry : v.entry = (s.tasks t).entry)
    (arg : v.arg = (s.tasks t).arg) : SameCode s (s.setTask t v) := by
  intro u
  by_cases same : u = t
  · rw [same]
    simp only [Sched.setTask, Function.update_self]
    exact ⟨entry, arg⟩
  · simp only [Sched.setTask, Function.update_of_ne same]
    exact ⟨trivial, trivial⟩

theorem sameCode_setState (s : Sched τ) (t : τ) (v : TaskState) : SameCode s (s.setState t v) :=
  sameCode_setTask s t rfl rfl

theorem sameCode_setCount (s : Sched τ) (t : τ) (n : Int) : SameCode s (s.setCount t n) := sameCode_setTask s t rfl rfl

theorem sameCode_enter (s : Sched τ) : SameCode s (Tasks.enterCriticalSection s) :=
  (sameCode_setCount s s.currentTask _).trans (.of_tasks (tasks_enter s))

theorem sameCode_exit (s : Sched τ) : SameCode s (Tasks.exitCriticalSection s) :=
  (sameCode_setCount s s.currentTask _).trans (.of_tasks (tasks_exit s))

theorem sameCode_resumeAt (s : Sched τ) (r : Resume) : SameCode s (Tasks.resumeAt s r) := by
  cases r with
  | trampoline => exact sameCode_exit s
  | afterSwitch caller =>
    cases caller with
    | yield => exact sameCode_exit s
    | exit => exact (sameCode_exit s).trans (.of_tasks rfl)

theorem sameCode_pickNext (idleTask : τ) (s : Sched τ) : SameCode s (Tasks.pickNext idleTask s).2 := by
  have removed : (listRemoveHead s .runQueue).2.tasks = s.tasks := by
    unfold listRemoveHead
    split <;> rfl
  apply SameCode.of_tasks
  rw [← removed]
  unfold Tasks.pickNext
  split
  · rename_i picked
    rw [picked]
  · rename_i picked
    rw [picked]

theorem sameCode_reschedule (idleTask : τ) (s : Sched τ) (caller : Caller) :
    SameCode s (Tasks.taskReschedule idleTask s caller) := by
  have requeued (s : Sched τ) : SameCode s (Tasks.requeueCurrent s) := by
    unfold Tasks.requeueCurrent
    split
    · exact (sameCode_setState s s.currentTask .ready).trans (.of_tasks rfl)
    · exact .of_tasks rfl
  obtain ⟨resume, r, same⟩ := taskReschedule_choose idleTask s caller
  rw [same]
  have chosen : SameCode s (Tasks.chooseTask idleTask s).2 :=
    (((sameCode_enter s).trans (requeued _)).trans (sameCode_pickNext idleTask _)).trans (sameCode_setState _ _ _)
  have moved : SameCode (Tasks.chooseTask idleTask s).2 { (Tasks.chooseTask idleTask s).2 with resume := resume } :=
    .of_tasks rfl
  exact (chosen.trans moved).trans (sameCode_resumeAt _ r)

theorem start_same (s : Sched τ) (t : τ) : (Tasks.taskStart s t).2.currentTask = s.currentTask ∧ (Tasks.taskStart s t).2.resume = s.resume := by
  have entered := enter_same s
  unfold Tasks.taskStart
  simp only
  split
  · have left := exit_same (Tasks.enterCriticalSection s)
    exact ⟨left.currentTask.trans entered.currentTask, left.resume.trans entered.resume⟩
  · have left := exit_same (listAddHead ((Tasks.enterCriticalSection s).setState t .ready) .runQueue (.task t))
    exact ⟨left.currentTask.trans entered.currentTask, left.resume.trans entered.resume⟩

theorem sameCode_start (s : Sched τ) (t : τ) : SameCode s (Tasks.taskStart s t).2 := by
  unfold Tasks.taskStart
  simp only
  split
  · exact (sameCode_enter s).trans (sameCode_exit _)
  · have readied := (sameCode_enter s).trans (sameCode_setState _ t .ready)
    have queued : SameCode ((Tasks.enterCriticalSection s).setState t .ready)
        (listAddHead ((Tasks.enterCriticalSection s).setState t .ready) .runQueue (.task t)) := .of_tasks rfl
    exact (readied.trans queued).trans (sameCode_exit _)

end

/-! ### Runs -/

/-- The machine beside the scheduler's state, and what each task was given and left with: its entry point and
    argument, the context it counts on, and memory as it was then. -/
structure Running (τ : Type) where
  kernel : Kernel
  tasking : Tasking τ
  given : τ → Word × Word
  expected : τ → Option Context
  left : τ → Memory

/-- The current task calls the kernel, or runs on by itself. -/
inductive RunningOp (τ : Type) where
  | call (op : TaskOp τ) (returnAddress : Word)
  | compute (cpu : Cpu)

section

variable {τ : Type} [DecidableEq τ] (L : KernelLayout τ)

def KernelLayout.call (k : Kernel) (returnAddress : Word) : TaskOp τ → Kernel
  | .create t entry arg stack stackSize => k.taskCreate L.toGlobals (L.task t) entry arg stack stackSize
  | .start t => (k.taskStart L.toGlobals (L.task t)).2
  | .reschedule => k.taskReschedule L.toGlobals returnAddress
  | .exit => k.taskExit L.toGlobals returnAddress
  | .enter => k.enterCriticalSection L.toGlobals
  | .leave => k.exitCriticalSection L.toGlobals
  | .becomeIdle => k.exitCriticalSection L.toGlobals

namespace Running

def current (s : Running τ) : τ := s.tasking.sched.currentTask

/-- The scheduler's variables, the tasks, and the stacks of those that are not running. -/
def Guarded (s : Running τ) (x : Nat) : Prop :=
  L.queueExtent.Contains x ∨ L.currentExtent.Contains x ∨
    ∃ t, s.tasking.created t = true ∧ ((L.taskExtent t).Contains x ∨ t ≠ s.current ∧ (L.stackExtent t).Contains x)

/-- A task is created with its own stack, and a frame fits on the stack of whoever may be switched out. -/
def Fits (s : Running τ) : TaskOp τ → Prop
  | .create t _ _ stack stackSize => stack = L.stack t ∧ stackSize = L.stackSize t
  | .reschedule | .exit => L.taskLayout.HasRoom s.current (s.kernel.cpu.esp - sizeofContextSwitchFrame)
  | _ => True

def Allowed (s : Running τ) : RunningOp τ → Prop
  | .call op _ => s.tasking.Allowed L.idle op ∧ s.Fits L op
  | .compute cpu => ∀ x : Word, s.Guarded L x.toNat → cpu.mem x = s.kernel.cpu.mem x

/-- What is noted at the end of a call in which another task may have taken over. -/
def after (s : Running τ) (kernel : Kernel) (tasking : Tasking τ) (returnAddress : Word) : Running τ :=
  if tasking.sched.currentTask = s.current then { s with kernel := kernel, tasking := tasking }
  else
    { kernel := kernel
      tasking := tasking
      given := s.given
      expected := Function.update s.expected s.current (some (callContext s.kernel.cpu returnAddress))
      left := Function.update s.left s.current kernel.cpu.mem }

def apply (s : Running τ) : RunningOp τ → Running τ
  | .compute cpu => { s with kernel := { s.kernel with cpu := cpu } }
  | .call (.create t entry arg stack stackSize) returnAddress =>
    let kernel := L.call s.kernel returnAddress (.create t entry arg stack stackSize)
    { kernel := kernel
      tasking := s.tasking.apply L.idle (.create t entry arg stack stackSize)
      given := Function.update s.given t (entry, arg)
      expected := Function.update s.expected t (some (firstContext L.taskTrampoline (stack + stackSize)))
      left := Function.update s.left t kernel.cpu.mem }
  | .call op returnAddress => s.after (L.call s.kernel returnAddress op) (s.tasking.apply L.idle op) returnAddress

def Step (s : Running τ) (op : RunningOp τ) (s' : Running τ) : Prop := s.Allowed L op ∧ s' = s.apply L op

/-- `task_init` at boot, with interrupts off. -/
def Start (s : Running τ) : Prop :=
  ∃ (k : Kernel) (boot : Sched τ) (left : τ → Memory),
    k.interruptFlag = false ∧ boot.interruptFlag = false ∧ boot.unreachable = false ∧
    s = ⟨k.taskInit L.toGlobals (L.stack L.idle),
      ⟨Tasks.taskInit L.idle boot (L.stack L.idle), fun t => decide (t = L.idle), fun _ => false, fun _ => 0, false, false⟩,
      fun _ => (0#32, 0#32), fun _ => none, left⟩

abbrev Reached (s : Running τ) : Prop := Reachable (Running.Start L) (Running.Step L) s

def switching (s : Running τ) : Switching τ := ⟨s.kernel.cpu, s.current, s.expected⟩

/-- The machine stands for the scheduler's state, and whoever is not running finds what it was left with. -/
structure Inv (s : Running τ) : Prop where
  reached : Tasking.Reached L.idle s.tasking
  represents : Represents L (fun t => s.tasking.created t = true) s.kernel s.tasking.sched
  given : ∀ t, s.tasking.created t = true →
    (s.tasking.sched.tasks t).entry = (s.given t).1 ∧ (s.tasking.sched.tasks t).arg = (s.given t).2
  suspended : s.switching.Suspended L.taskLayout
  expected : ∀ t, s.tasking.created t = true → t ≠ s.current → s.expected t ≠ none
  known : ∀ t, s.expected t ≠ none → s.tasking.created t = true
  preserved : ∀ t, s.tasking.created t = true → t ≠ s.current →
    ∀ x : Word, L.taskLayout.InStack t x.toNat → s.kernel.cpu.mem x = s.left t x
  trampoline : ∀ t, s.tasking.created t = true → t ≠ s.current → s.tasking.sched.resume t = .trampoline →
    s.expected t = some (firstContext L.taskTrampoline (L.stack t + L.stackSize t))

variable {L} {s s' : Running τ}

theorem Inv.sched (inv : s.Inv L) : ∃ queue, SchedInv L.idle s.tasking queue := inv.reached.inv

/-- Memory that changes nowhere near the other tasks keeps them as they are. -/
theorem Inv.others (inv : s.Inv L) (separate : L.Separate) {cpu : Cpu} {S : Nat → Prop} (changes : Changes S s.kernel.cpu.mem cpu.mem)
    (off : ∀ t, s.tasking.created t = true → t ≠ s.current → ∀ x, L.taskLayout.Owns t x → ¬ S x) :
    Switching.Suspended L.taskLayout ⟨cpu, s.current, s.expected⟩ ∧ ∀ t, s.tasking.created t = true → t ≠ s.current →
      ∀ x : Word, L.taskLayout.InStack t x.toNat → cpu.mem x = s.left t x := by
  constructor
  · apply inv.suspended.computed separate.taskLayout
    rintro x ⟨t, away, known, owns⟩
    exact changes x (off t (inv.known t known) away x.toNat owns)
  · intro t created away x inside
    rw [changes x (off t created away x.toNat (.inl inside))]
    exact inv.preserved t created away x inside

/-- A call that comes back to the task that made it. -/
theorem Inv.quiet (inv : s.Inv L) (separate : L.Separate) {kernel : Kernel} {tasking : Tasking τ}
    (reached : Tasking.Reached L.idle tasking)
    (follows : Follows L (fun t => s.tasking.created t = true) s.kernel kernel tasking.sched)
    (created : tasking.created = s.tasking.created) (current : tasking.sched.currentTask = s.current)
    (resume : tasking.sched.resume = s.tasking.sched.resume) (code : SameCode s.tasking.sched tasking.sched) :
    ({ s with kernel := kernel, tasking := tasking } : Running τ).Inv L := by
  have others := inv.others separate follows.changes fun t _ _ x owns owned => separate.owned_off_task t owned owns
  have same : ({ s with kernel := kernel, tasking := tasking } : Running τ).current = s.current := current
  constructor
  case reached => exact reached
  case represents =>
    simp only [created]
    exact follows.represents
  case given =>
    intro t made
    rw [created] at made
    have kept := code t
    rw [kept.1, kept.2]
    exact inv.given t made
  case suspended =>
    rw [switching, same]
    exact others.1
  case expected =>
    rw [same, created]
    exact inv.expected
  case known =>
    rw [created]
    exact inv.known
  case preserved =>
    rw [same, created]
    exact others.2
  case trampoline =>
    rw [same, created, resume]
    exact inv.trampoline

theorem Inv.compute (inv : s.Inv L) (separate : L.Separate) {cpu : Cpu} (allowed : s.Allowed L (.compute cpu)) :
    (s.apply L (.compute cpu)).Inv L := by
  have changes : Changes (fun x => ¬ s.Guarded L x) s.kernel.cpu.mem cpu.mem := by
    intro x outside
    exact allowed x (not_not.mp outside)
  have others := inv.others separate changes (by
    rintro t created away x (stack | field) free
    · exact free (.inr (.inr ⟨t, created, .inr ⟨away, stack⟩⟩))
    · refine free (.inr (.inr ⟨t, created, .inl ?_⟩))
      have address := separate.savedSp_toNat t
      simp only [TaskLayout.InField, KernelLayout.taskLayout, address] at field
      simp only [Contains, KernelLayout.taskExtent, stop, sizeofTask]
      omega)
  constructor
  case reached => exact inv.reached
  case represents =>
    have off (x : Nat) (holds : L.Holds (fun t => s.tasking.created t = true) x) : ¬ ¬ s.Guarded L x := by
      rw [not_not]
      rcases holds with queue | current | ⟨t, created, lower, upper⟩
      · exact .inl queue
      · exact .inr (.inl current)
      · refine .inr (.inr ⟨t, created, .inl ⟨lower, ?_⟩⟩)
        simp only [KernelLayout.taskExtent, stop, sizeofTask]
        omega
    have kept : Represents L (fun t => s.tasking.created t = true) { s.kernel with cpu := cpu } s.tasking.sched :=
      inv.represents.kept separate changes off rfl
    exact kept
  case given => exact inv.given
  case suspended => exact others.1
  case expected => exact inv.expected
  case known => exact inv.known
  case preserved => exact others.2
  case trampoline => exact inv.trampoline

/-- A call in which another task takes the processor. -/
theorem Inv.switched (inv : s.Inv L) (caller : Caller) (separate : L.Separate) {k : Kernel} {kernel : Kernel} {tasking : Tasking τ}
    {returnAddress : Word} {cpu : Cpu} (reached : Tasking.Reached L.idle tasking)
    (before : Changes L.Owned s.kernel.cpu.mem k.cpu.mem) (call : contextOf k.cpu = contextOf s.kernel.cpu)
    (represents : Represents L (fun t => s.tasking.created t = true) kernel tasking.sched)
    (switch : SwitchedTo L k kernel s.current tasking.sched.currentTask returnAddress cpu)
    (room : L.taskLayout.HasRoom s.current (s.kernel.cpu.esp - sizeofContextSwitchFrame))
    (away : tasking.sched.currentTask ≠ s.current) (next : s.tasking.created tasking.sched.currentTask = true)
    (created : tasking.created = s.tasking.created)
    (resume : ∀ t, t ≠ s.current → tasking.sched.resume t = s.tasking.sched.resume t)
    (own : tasking.sched.resume s.current = .afterSwitch caller) (code : SameCode s.tasking.sched tasking.sched) :
    s.expected tasking.sched.currentTask = some (contextOf kernel.cpu) ∧
      (∀ x : Word, L.taskLayout.InStack tasking.sched.currentTask x.toNat →
        kernel.cpu.mem x = s.left tasking.sched.currentTask x) ∧
      Running.Inv L
        { kernel := kernel
          tasking := tasking
          given := s.given
          expected := Function.update s.expected s.current (some (callContext s.kernel.cpu returnAddress))
          left := Function.update s.left s.current kernel.cpu.mem } := by
  have layout := separate.taskLayout
  have called : contextOf cpu = contextOf s.kernel.cpu := switch.call.trans call
  have esp : cpu.esp = s.kernel.cpu.esp := congrArg Context.esp called
  have saved : callContext cpu returnAddress = callContext s.kernel.cpu returnAddress := by
    unfold callContext
    rw [called]
  have room' : L.taskLayout.HasRoom s.current (cpu.esp - sizeofContextSwitchFrame) := esp ▸ room
  obtain ⟨suspended, contents⟩ := inv.others separate (before.trans switch.before)
    fun t _ _ x owns owned => separate.owned_off_task t owned owns
  obtain ⟨crossed, found⟩ := suspended.crossed separate returnAddress away (inv.expected _ next away) room'
  have pushed := switchCpu_changes separate tasking.sched.currentTask returnAddress room'
  have kept (t : τ) (made : s.tasking.created t = true) (notOld : t ≠ s.current) (x : Word)
      (inside : L.taskLayout.InStack t x.toNat) : kernel.cpu.mem x = s.left t x := by
    rw [switch.after x fun owned => separate.owned_off_task t owned (.inl inside), pushed x ?_]
    · exact contents t made notOld x inside
    · rintro (stack | field)
      · exact notOld (layout.stackStack t s.current x.toNat inside stack)
      · exact layout.fieldStack s.current t x.toNat field inside
  refine ⟨?_, kept _ next away, ?_⟩
  · rw [switch.landed]
    exact found
  constructor
  case reached => exact reached
  case represents =>
    simp only [created]
    exact represents
  case given =>
    intro t made
    rw [created] at made
    rw [(code t).1, (code t).2]
    exact inv.given t made
  case suspended =>
    rw [← saved]
    apply crossed.computed layout
    rintro x ⟨t, -, -, owns⟩
    exact switch.after x fun owned => separate.owned_off_task t owned owns
  case expected =>
    intro t made notNext
    rw [created] at made
    by_cases same : t = s.current
    · simp only [same, Function.update_self]
      nofun
    · simp only [Function.update_of_ne same]
      exact inv.expected t made same
  case known =>
    intro t known
    rw [created]
    by_cases same : t = s.current
    · obtain ⟨queue, core⟩ := inv.sched
      rw [same]
      exact core.current_created
    · simp only [Function.update_of_ne same] at known
      exact inv.known t known
  case preserved =>
    intro t made notNext x inside
    rw [created] at made
    by_cases same : t = s.current
    · simp only [same, Function.update_self]
    · simp only [Function.update_of_ne same]
      exact kept t made same x inside
  case trampoline =>
    intro t made notNext trampoline
    rw [created] at made
    by_cases same : t = s.current
    · rw [same, own] at trampoline
      cases trampoline
    · rw [resume t same] at trampoline
      simp only [Function.update_of_ne same]
      exact inv.trampoline t made same trampoline

/-- Whoever takes over the processor finds its registers and its stack as it left them. -/
def Finds (L : KernelLayout τ) (s s' : Running τ) : Prop :=
  s'.current ≠ s.current → s.expected s'.current = some (contextOf s'.kernel.cpu) ∧
    ∀ x : Word, L.taskLayout.InStack s'.current x.toNat → s'.kernel.cpu.mem x = s.left s'.current x

theorem Inv.after_quiet (inv : s.Inv L) (separate : L.Separate) {kernel : Kernel} {tasking : Tasking τ}
    {returnAddress : Word} (reached : Tasking.Reached L.idle tasking)
    (follows : Follows L (fun t => s.tasking.created t = true) s.kernel kernel tasking.sched)
    (created : tasking.created = s.tasking.created) (current : tasking.sched.currentTask = s.current)
    (resume : tasking.sched.resume = s.tasking.sched.resume) (code : SameCode s.tasking.sched tasking.sched) :
    (s.after kernel tasking returnAddress).Inv L ∧ Finds L s (s.after kernel tasking returnAddress) := by
  rw [after, if_pos current]
  exact ⟨inv.quiet separate reached follows created current resume code, fun away => absurd current away⟩

/-- A `task_reschedule` from a state the scheduler's runs go through, which `task_exit` has changed first. -/
theorem Inv.rescheduled (inv : s.Inv L) (separate : L.Separate) {k : Kernel} {sched : Sched τ} {queue : List τ}
    {tasking : Tasking τ} {caller : Caller} {returnAddress : Word}
    (follows : Follows L (fun t => s.tasking.created t = true) s.kernel k sched)
    (core : Core L.idle { s.tasking with sched := sched } queue) (current : sched.currentTask = s.current)
    (resume : sched.resume = s.tasking.sched.resume) (code : SameCode s.tasking.sched sched)
    (low : 0 ≤ sched.count sched.currentTask) (high : sched.count sched.currentTask + 1 < 2^31)
    (room : L.taskLayout.HasRoom s.current (s.kernel.cpu.esp - sizeofContextSwitchFrame))
    (reached : Tasking.Reached L.idle tasking) (created : tasking.created = s.tasking.created)
    (result : tasking.sched = Tasks.taskReschedule L.idle sched caller) :
    (s.after (k.taskReschedule L.toGlobals returnAddress) tasking returnAddress).Inv L ∧
      Finds L s (s.after (k.taskReschedule L.toGlobals returnAddress) tasking returnAddress) := by
  obtain ⟨queue', inv'⟩ := reached.inv
  have range := inv'.inside_range
  have depth : (maxDepth : Int) + 1 < 2^31 := by decide
  have next : s.tasking.created tasking.sched.currentTask = true := by
    rw [← created]
    exact inv'.current_created
  have all (u : τ) (queued : u ∈ queue) : s.tasking.created u = true := ((core.ready u).mp queued).1
  have absent : sched.state sched.currentTask = .running → sched.currentTask ∉ queue := by
    intro running queued
    have ready : sched.state sched.currentTask = .ready := ((core.ready _).mp queued).2
    rw [running] at ready
    cases ready
  have room' : L.taskLayout.HasRoom sched.currentTask (k.cpu.esp - sizeofContextSwitchFrame) := by
    have esp : k.cpu.esp = s.kernel.cpu.esp := congrArg Context.esp follows.context
    rw [esp, current]
    exact room
  obtain ⟨represents, moved⟩ := follows.represents.taskReschedule returnAddress separate
    core.queueIs all absent core.current_created core.idle_created low high room' result next range.1 (by omega)
  have switched := (taskReschedule_spec L.idle caller core.queueIs absent).2
  have same : SameCode s.tasking.sched tasking.sched := by
    rw [result]
    exact code.trans (sameCode_reschedule L.idle sched caller)
  have landed := switched.currentTask
  have resumes := switched.resume
  rw [← result] at landed resumes
  by_cases stays : tasking.sched.currentTask = sched.currentTask
  · rw [if_pos stays] at moved
    apply inv.after_quiet separate reached (follows.trans moved) created (stays.trans current) _ same
    funext t
    rw [resumes, ← landed, if_neg fun switch => switch.1 stays, resume]
  · rw [if_neg stays] at moved
    obtain ⟨cpu, switch⟩ := moved
    have away : tasking.sched.currentTask ≠ s.current := current ▸ stays
    rw [current] at switch
    obtain ⟨found, contents, inv''⟩ := inv.switched caller separate reached follows.changes follows.context represents
      switch room away next created (by
        intro t notOld
        rw [resumes, if_neg fun switch => notOld (switch.2.trans current), resume]) (by
        rw [resumes, ← landed, current, if_pos ⟨away, rfl⟩]) same
    rw [after, if_neg away]
    exact ⟨inv'', fun _ => ⟨found, contents⟩⟩

/-- The new task's memory is written, and nothing of the others. -/
theorem Inv.create (inv : s.Inv L) (separate : L.Separate) (t : τ) (entry arg returnAddress : Word)
    (allowed : s.tasking.Allowed L.idle (.create t entry arg (L.stack t) (L.stackSize t))) :
    (s.apply L (.call (.create t entry arg (L.stack t) (L.stackSize t)) returnAddress)).Inv L := by
  have layout := separate.taskLayout
  obtain ⟨-, changes⟩ := taskCreate_kernel separate s.kernel t entry arg 0#32
  have off {u : τ} (ne : u ≠ t) {x : Nat} (owns : L.taskLayout.Owns u x) : ¬ Creates L t x := by
    have stackStack := separate.stackStack u t ne
    have stackTask := separate.stackTask u t
    have stackTask' := separate.stackTask t u
    have taskTask := separate.taskTask u t ne
    have field := separate.savedSp_toNat u
    simp only [Apart, KernelLayout.stackExtent, KernelLayout.taskExtent, stop, sizeofTask] at stackStack stackTask stackTask' taskTask
    simp only [TaskLayout.Owns, TaskLayout.InStack, TaskLayout.InField, KernelLayout.taskLayout, field] at owns
    simp only [Creates, Contains, KernelLayout.stackExtent, KernelLayout.taskExtent, stop, sizeofTask]
    omega
  have before {u : τ} (ne : u ≠ t) (made : Function.update s.tasking.created t true u = true) : s.tasking.created u = true := by
    rwa [Function.update_of_ne ne] at made
  constructor
  case reached => exact inv.reached.next ⟨allowed, rfl⟩
  case represents =>
    apply (inv.represents.taskCreate separate t entry arg).mono
    intro u made
    by_cases same : u = t
    · exact .inl same
    · exact .inr (before same made)
  case given =>
    intro u made
    show ((Tasks.taskCreate s.tasking.sched t entry arg (L.stack t) (L.stackSize t)).2.tasks u).entry =
      (Function.update s.given t (entry, arg) u).1 ∧
      ((Tasks.taskCreate s.tasking.sched t entry arg (L.stack t) (L.stackSize t)).2.tasks u).arg =
      (Function.update s.given t (entry, arg) u).2
    rw [tasks_taskCreate]
    by_cases same : u = t
    · rw [same, Function.update_self, Function.update_self]
      exact ⟨rfl, rfl⟩
    · rw [Function.update_of_ne same, Function.update_of_ne same]
      exact inv.given u (before same made)
  case suspended =>
    -- the context the task had before is given up first
    have forgotten : Switching.Suspended L.taskLayout ⟨s.kernel.cpu, s.current, Function.update s.expected t none⟩ := by
      intro u ctx away expected
      by_cases same : u = t
      · rw [same] at expected
        simp only [Function.update_self] at expected
        cases expected
      · simp only [Function.update_of_ne same] at expected
        exact inv.suspended u ctx away expected
    have written := (taskFields_spec s.kernel.cpu.mem (separate.room t) entry arg (L.stack t) (L.stackSize t) 0#32).2
    have fields : Switching.Suspended L.taskLayout
        ⟨{ s.kernel.cpu with mem := taskFields s.kernel.cpu.mem (L.task t) entry arg (L.stack t) (L.stackSize t) }, s.current,
          Function.update s.expected t none⟩ := by
      apply forgotten.computed layout
      rintro x ⟨u, -, known, owns⟩
      have ne : u ≠ t := by
        intro same
        rw [same] at known
        exact known (Function.update_self t none s.expected)
      exact written x fun inside => off ne owns (.inl inside)
    have framed := fields.framed separate t
    simp only [Function.update_idem] at framed
    show Switching.Suspended L.taskLayout
      ⟨{ s.kernel.cpu with mem := (s.kernel.taskCreate L.toGlobals (L.task t) entry arg (L.stack t) (L.stackSize t)).cpu.mem },
        s.current, Function.update s.expected t _⟩
    rw [taskCreate_mem separate]
    exact framed
  case expected =>
    intro u made away
    show Function.update s.expected t _ u ≠ none
    by_cases same : u = t
    · rw [same, Function.update_self]
      exact Option.some_ne_none _
    · rw [Function.update_of_ne same]
      exact inv.expected u (before same made) away
  case known =>
    intro u known
    show Function.update s.tasking.created t true u = true
    by_cases same : u = t
    · rw [same, Function.update_self]
    · rw [Function.update_of_ne same]
      exact inv.known u ((Function.update_of_ne same _ s.expected) ▸ known)
  case preserved =>
    intro u made away x inside
    show _ = Function.update s.left t _ u x
    by_cases same : u = t
    · rw [same, Function.update_self]
      rfl
    · rw [Function.update_of_ne same]
      rw [← inv.preserved u (before same made) away x inside]
      exact changes x (off same (.inl inside))
  case trampoline =>
    intro u made away trampoline
    show Function.update s.expected t _ u = _
    by_cases same : u = t
    · rw [same, Function.update_self]
    · rw [Function.update_of_ne same]
      have resume := (taskCreate_spec s.tasking.sched t entry arg (L.stack t) (L.stackSize t)).2.resume u
      rw [if_neg same] at resume
      exact inv.trampoline u (before same made) away (resume ▸ trampoline)

theorem Inv.step (inv : s.Inv L) (separate : L.Separate) {op : RunningOp τ} (step : Step L s op s') :
    s'.Inv L ∧ Finds L s s' := by
  obtain ⟨allowed, rfl⟩ := step
  cases op with
  | compute cpu => exact ⟨inv.compute separate allowed, fun away => absurd rfl away⟩
  | call op returnAddress =>
    obtain ⟨allowed, fits⟩ := allowed
    obtain ⟨queue, core⟩ := inv.sched
    have reached : Tasking.Reached L.idle (s.tasking.apply L.idle op) := inv.reached.next ⟨allowed, rfl⟩
    have alive : s.tasking.created s.tasking.sched.currentTask = true := core.current_created
    have range := core.inside_range
    have depth : (maxDepth : Int) + 3 < 2^31 := by decide
    have all (u : τ) (queued : u ∈ queue) : s.tasking.created u = true := ((core.ready u).mp queued).1
    cases op with
    | create t entry arg stack stackSize =>
      obtain ⟨rfl, rfl⟩ := fits
      exact ⟨inv.create separate t entry arg returnAddress allowed, fun away => absurd rfl away⟩
    | start t =>
      have started := (inv.represents.taskStart separate core.queueIs all alive allowed.1 range.1 (by omega)).2
      obtain ⟨current, resume⟩ := start_same s.tasking.sched t
      exact inv.after_quiet separate reached started rfl current resume (sameCode_start _ t)
    | reschedule =>
      exact inv.rescheduled separate inv.represents.follows core.toCore rfl rfl (.of_tasks rfl) range.1 (by omega) fits reached
        rfl rfl
    | exit =>
      have same := enter_same s.tasking.sched
      have entered := inv.represents.enterCriticalSection separate alive range.1 (by omega)
      have alive' : s.tasking.created (Tasks.enterCriticalSection s.tasking.sched).currentTask = true := same.currentTask ▸ alive
      have died := entered.represents.setState separate alive' .dead
      have current : (Tasks.dying s.tasking.sched).currentTask = s.tasking.sched.currentTask := same.currentTask
      have count : (Tasks.dying s.tasking.sched).count (Tasks.dying s.tasking.sched).currentTask =
          s.tasking.sched.count s.tasking.sched.currentTask + 1 := by
        rw [count_dying, current, if_pos rfl]
      have path := entered.trans died
      rw [← entered.represents.current] at path
      exact inv.rescheduled separate path (core.dying allowed) current same.resume
        ((sameCode_enter _).trans (sameCode_setState _ _ _)) (count ▸ by omega) (count ▸ by omega) fits reached rfl rfl
    | enter =>
      have same := enter_same s.tasking.sched
      have entered := inv.represents.enterCriticalSection separate alive range.1 (by omega)
      exact inv.after_quiet separate reached entered rfl same.currentTask same.resume (sameCode_enter _)
    | leave =>
      have same := exit_same s.tasking.sched
      have inside := core.inside core.current_alive.1
      have boot := bootSection_range L.idle s.tasking s.tasking.sched.currentTask
      have held : 0 < s.tasking.held s.tasking.sched.currentTask := allowed
      have left := inv.represents.exitCriticalSection separate alive (by omega) (by omega)
      exact inv.after_quiet separate reached left rfl same.currentTask same.resume (sameCode_exit _)
    | becomeIdle =>
      have same := exit_same s.tasking.sched
      have inside := core.inside core.current_alive.1
      have boot : s.tasking.bootSection L.idle s.tasking.sched.currentTask = 1 := if_pos ⟨allowed.1, allowed.2.2⟩
      have left := inv.represents.exitCriticalSection separate alive (by omega) (by omega)
      exact inv.after_quiet separate reached left rfl same.currentTask same.resume (sameCode_exit _)

theorem Inv.init (separate : L.Separate) (size : L.stackSize L.idle = 512#32) (start : Start L s) : s.Inv L := by
  obtain ⟨k, boot, left, off, off', unreached, rfl⟩ := start
  have own {t : τ} (created : decide (t = L.idle) = true) : t = L.idle := of_decide_eq_true created
  constructor
  case reached => exact .base ⟨boot, L.stack L.idle, off', unreached, rfl⟩
  case represents => exact (taskInit_represents separate size k boot (off'.trans off.symm)).mono fun t => own
  case given =>
    intro t created
    rw [own created]
    show ((Tasks.taskCreate (listInitialize boot .runQueue) L.idle _ _ _ _).2.tasks L.idle).entry = _ ∧
      ((Tasks.taskCreate (listInitialize boot .runQueue) L.idle _ _ _ _).2.tasks L.idle).arg = _
    rw [tasks_taskCreate, Function.update_self]
    exact ⟨rfl, rfl⟩
  case suspended =>
    intro t ctx away expected
    cases expected
  case expected => exact fun t created away => absurd (own created) away
  case known => exact fun t known => absurd rfl known
  case preserved => exact fun t created away => absurd (own created) away
  case trampoline => exact fun t created away => absurd (own created) away

theorem Reached.inv (separate : L.Separate) (size : L.stackSize L.idle = 512#32) (reached : Running.Reached L s) : s.Inv L :=
  reached.invariant (Running.Inv L) (fun _ start => Inv.init separate size start)
    fun _ _ _ inv step => (inv.step separate step).1

theorem given_of_away {op : RunningOp τ} (step : Step L s op s') (away : s'.current ≠ s.current) : s'.given = s.given := by
  obtain ⟨-, rfl⟩ := step
  have after (kernel : Kernel) (tasking : Tasking τ) (returnAddress : Word) :
      (s.after kernel tasking returnAddress).given = s.given := by
    unfold Running.after
    split <;> rfl
  cases op with
  | compute cpu => rfl
  | call op returnAddress =>
    cases op with
    | create t entry arg stack stackSize => exact absurd rfl away
    | start t => exact after _ _ _
    | reschedule => exact after _ _ _
    | exit => exact after _ _ _
    | enter => exact after _ _ _
    | leave => exact after _ _ _
    | becomeIdle => exact after _ _ _

end Running

variable {L} {s s' : Running τ}

/-- The scheduler's state, read from memory in any run. -/
theorem kernel_memory (separate : L.Separate) (size : L.stackSize L.idle = 512#32) (reached : Running.Reached L s) :
    ∃ queue : List τ, Ring s.kernel.cpu.mem L.runQueue (queue.map L.task) ∧
      (∀ t, t ∈ queue ↔ s.tasking.created t = true ∧ s.kernel.state (L.task t) = TaskState.ready.code) ∧
      s.kernel.currentTask L.toGlobals = L.task s.current ∧ s.tasking.created s.current = true ∧
      (s.tasking.rescheduled = true → ∀ t, s.tasking.created t = true →
        (s.kernel.state (L.task t) = TaskState.running.code ↔ t = s.current)) ∧
      s.kernel.interruptFlag = decide (s.kernel.criticalSectionCount (L.task s.current) = 0#32) ∧
      (∀ t, s.tasking.created t = true → t ≠ s.current → s.kernel.state (L.task t) ≠ TaskState.dead.code →
        1 ≤ (s.kernel.criticalSectionCount (L.task t)).toInt) ∧
      ∀ t, s.tasking.created t = true → s.kernel.entry (L.task t) = (s.given t).1 ∧ s.kernel.arg (L.task t) = (s.given t).2 := by
  have inv := Running.Reached.inv separate size reached
  obtain ⟨queue, core⟩ := inv.sched
  have represents := inv.represents
  have state {t : τ} (created : s.tasking.created t = true) (v : TaskState) := represents.state_iff created v
  have count {t : τ} (created : s.tasking.created t = true) (low : 0 ≤ s.tasking.sched.count t)
      (high : s.tasking.sched.count t < 2^31) :
      (s.kernel.criticalSectionCount (L.task t)).toInt = s.tasking.sched.count t := by
    rw [represents.criticalSectionCount created, BitVec.toInt_ofInt]
    exact Int.bmod_eq_of_le (by omega) (by omega)
  have range := core.inside_range
  have depth : (maxDepth : Int) + 3 < 2^31 := by decide
  refine ⟨queue, ?_, ?_, represents.current, core.current_created, ?_, ?_, ?_, ?_⟩
  · have ring : Ring s.tasking.sched NodePtr.runQueue (queue.map NodePtr.task) := core.queueIs
    have inside : ∀ x ∈ NodePtr.runQueue :: queue.map NodePtr.task, Live (fun t => s.tasking.created t = true) x :=
      fun x member => (queue_live ring (fun u queued => ((core.ready u).mp queued).1) member).1
    have stored := represents.nodes.ring (separate.addressing _).distinct inside ring
    rw [List.map_map] at stored
    exact stored
  · intro t
    rw [core.ready]
    constructor
    · rintro ⟨created, ready⟩
      exact ⟨created, (state created .ready).mpr ready⟩
    · rintro ⟨created, ready⟩
      exact ⟨created, (state created .ready).mp ready⟩
  · intro begun t created
    rw [state created .running]
    constructor
    · exact core.running t created
    · intro same
      rw [same]
      exact core.after begun
  · have zero := represents.count_iff core.current_created 0#32 range.1 (by omega)
    rw [represents.current] at zero
    rw [represents.flag, core.flag]
    exact decide_eq_decide.mpr zero.symm
  · intro t created away alive
    have notDead : s.tasking.sched.state t ≠ .dead := fun dead => alive ((state created .dead).mpr dead)
    have outside := core.outside t created notDead away
    have boot := bootSection_range L.idle s.tasking t
    have held := core.depth t created
    rw [count created (by omega) (by omega)]
    omega
  · intro t created
    have fields := represents.fields t created
    rw [← (inv.given t created).1, ← (inv.given t created).2]
    exact ⟨fields.entry, fields.arg⟩

/-- The idle task and one more, with the variables behind them. -/
def twoTaskKernel : KernelLayout Bool where
  runQueue := 0x3100#32
  currentTask := 0x3110#32
  idleTask := 0x3000#32
  taskTrampoline := 0x400#32
  asmSwitch := 0x500#32
  idle := false
  task t := if t then 0x3040#32 else 0x3000#32
  stack t := if t then 0x2000#32 else 0x1000#32
  stackSize _ := 512#32

theorem twoTaskKernel_separate : twoTaskKernel.Separate := by
  constructor
  case idle => rfl
  case taskRoom => decide
  case stackRoom => decide
  case queueRoom => decide
  case currentRoom => decide
  case frame => decide
  case taskNull => decide
  case queueNull => decide
  case queueCurrent => unfold Apart; decide
  case taskTask => unfold Apart; decide
  case taskQueue => unfold Apart; decide
  case taskCurrent => unfold Apart; decide
  case stackStack => unfold Apart; decide
  case stackTask => unfold Apart; decide
  case stackQueue => unfold Apart; decide
  case stackCurrent => unfold Apart; decide

def bootKernel : Running Bool :=
  ⟨Kernel.taskInit twoTaskKernel.toGlobals ⟨firstCpu, false⟩ 0x1000#32,
    ⟨Tasks.taskInit false ⟨fun _ => .null, fun _ => .null, fun _ => ⟨.initial, 0, 0, 0, 0, 0, 0⟩, false, false, fun _ => .trampoline, false⟩
      0x1000#32, fun t => decide (t = false), fun _ => false, fun _ => 0, false, false⟩,
    fun _ => (0#32, 0#32), fun _ => none, fun _ => firstCpu.mem⟩

theorem bootKernel_reached : Running.Reached twoTaskKernel bootKernel :=
  .base ⟨⟨firstCpu, false⟩, _, _, rfl, rfl, rfl, rfl⟩

/-- The second task created and started by the idle task. -/
def startedKernel : Running Bool :=
  (bootKernel.apply twoTaskKernel (.call (.create true 0x700#32 7#32 0x2000#32 512#32) 0x600#32)).apply twoTaskKernel
    (.call (.start true) 0x600#32)

/-- The idle task about to give way. -/
def readyKernel : Running Bool :=
  startedKernel.apply twoTaskKernel (.compute { firstCpu with mem := startedKernel.kernel.cpu.mem })

theorem readyKernel_reached : Running.Reached twoTaskKernel readyKernel := by
  have empty (queue : List Bool) (ring : QueueIs bootKernel.tasking.sched queue) : true ∉ queue := by
    cases queue with
    | nil => simp
    | cons t queue =>
      have first : bootKernel.tasking.sched.nextOf .runQueue = NodePtr.task t := ring_next_head ring
      cases first
  have first := bootKernel_reached.next (show Running.Step twoTaskKernel bootKernel
    (.call (.create true 0x700#32 7#32 0x2000#32 512#32) 0x600#32) _ from ⟨⟨⟨by decide, by decide, empty⟩, rfl, rfl⟩, rfl⟩)
  have second := first.next (show Running.Step twoTaskKernel _ (.call (.start true) 0x600#32) _ from
    ⟨⟨⟨rfl, by decide⟩, trivial⟩, rfl⟩)
  have third (s : Running Bool) :
      Running.Step twoTaskKernel s (.compute { firstCpu with mem := s.kernel.cpu.mem }) _ := ⟨fun x guarded => rfl, rfl⟩
  exact second.next (third startedKernel)

def switchedKernel : Running Bool := readyKernel.apply twoTaskKernel (.call .reschedule 0x600#32)

theorem readyKernel_step : Running.Step twoTaskKernel readyKernel (.call .reschedule 0x600#32) switchedKernel := by
  have room : twoTaskKernel.taskLayout.HasRoom false (0x1200#32 - sizeofContextSwitchFrame) := by
    unfold TaskLayout.HasRoom
    decide
  exact ⟨⟨trivial, room⟩, rfl⟩

theorem switchedKernel_current : switchedKernel.current = true := by decide

theorem kernel_memory_switched : Running.Reached twoTaskKernel switchedKernel ∧
    switchedKernel.kernel.currentTask twoTaskKernel.toGlobals = 0x3040#32 ∧
    switchedKernel.kernel.state 0x3040#32 = TaskState.running.code ∧
    switchedKernel.kernel.entry 0x3040#32 = 0x700#32 ∧ switchedKernel.kernel.arg 0x3040#32 = 7#32 ∧
    1 ≤ (switchedKernel.kernel.criticalSectionCount 0x3000#32).toInt := by
  have reached := readyKernel_reached.next readyKernel_step
  have current := switchedKernel_current
  obtain ⟨queue, -, -, memory, created, running, -, away, given⟩ := kernel_memory twoTaskKernel_separate rfl reached
  rw [current] at memory created running away
  exact ⟨reached, memory, (running (by decide +kernel) true created).mpr rfl, (given true created).1, (given true created).2,
    away false (by decide) (by decide) (by decide +kernel)⟩

/-- Whoever takes over the processor goes on where it was left: with its registers and its stack as they were,
    or for the first time, in the trampoline on the way to its entry point. -/
theorem switch_finds (separate : L.Separate) (size : L.stackSize L.idle = 512#32) (reached : Running.Reached L s)
    {op : RunningOp τ} (step : Running.Step L s op s') (away : s'.current ≠ s.current) :
    s.expected s'.current = some (contextOf s'.kernel.cpu) ∧
      (∀ x : Word, L.taskLayout.InStack s'.current x.toNat → s'.kernel.cpu.mem x = s.left s'.current x) ∧
      (s.tasking.sched.resume s'.current = .trampoline →
        contextOf s'.kernel.cpu = firstContext L.taskTrampoline (L.stack s'.current + L.stackSize s'.current) ∧
          s'.kernel.trampolineCall L.toGlobals = s.given s'.current) := by
  have inv := Running.Reached.inv separate size reached
  obtain ⟨inv', finds⟩ := inv.step separate step
  obtain ⟨found, contents⟩ := finds away
  refine ⟨found, contents, fun trampoline => ?_⟩
  have created' : s'.tasking.created s'.current = true := by
    obtain ⟨queue, core⟩ := inv'.sched
    exact core.current_created
  have created : s.tasking.created s'.current = true := inv.known _ (by
    rw [found]
    nofun)
  constructor
  · have first := inv.trampoline s'.current created away trampoline
    rw [found] at first
    exact Option.some.inj first
  · have fields := inv'.represents.fields s'.current created'
    have given := inv'.given s'.current created'
    rw [Running.given_of_away step away] at given
    have entry : s'.kernel.entry (L.task s'.current) = (s.given s'.current).1 := fields.entry.trans given.1
    have arg : s'.kernel.arg (L.task s'.current) = (s.given s'.current).2 := fields.arg.trans given.2
    have current : s'.kernel.currentTask L.toGlobals = L.task s'.current := inv'.represents.current
    rw [trampolineCall, current, entry, arg]

theorem switch_finds_first : Running.Reached twoTaskKernel readyKernel ∧
    Running.Step twoTaskKernel readyKernel (.call .reschedule 0x600#32) switchedKernel ∧
    contextOf switchedKernel.kernel.cpu = ⟨0x400#32, 0x2200#32, 0#32, 0#32, 0#32, 0#32⟩ ∧
    switchedKernel.kernel.trampolineCall twoTaskKernel.toGlobals = (0x700#32, 7#32) := by
  have away : switchedKernel.current ≠ readyKernel.current := by decide
  have fresh : readyKernel.tasking.sched.resume true = .trampoline := rfl
  have given : readyKernel.given true = (0x700#32, 7#32) := rfl
  obtain ⟨-, -, trampoline⟩ := switch_finds twoTaskKernel_separate rfl readyKernel_reached readyKernel_step away
  rw [switchedKernel_current, given] at trampoline
  exact ⟨readyKernel_reached, readyKernel_step, trampoline fresh⟩

end

end ThreeX86.Tasks
