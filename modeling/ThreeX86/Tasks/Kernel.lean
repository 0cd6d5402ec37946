import ThreeX86.Heap.Extents
import ThreeX86.Heap.Miniheap
import ThreeX86.Tasks.Task
import ThreeX86.Tasks.Switch

/-!
`task.c` on the machine: tasks are addresses of a `struct task` in memory, the run queue is threaded
through them, and `x86_task_switch` exchanges the stacks.
-/

namespace ThreeX86.Tasks

open Machine Machine.Memory ThreeX86.Lists Linked

/-- Where the variables and the two routines of the kernel are. -/
structure Globals where
  runQueue : Word
  currentTask : Word
  idleTask : Word
  taskTrampoline : Word
  asmSwitch : Word

/-- `enum state` -/
def TaskState.code : TaskState → Word
  | .initial => 0#32
  | .ready => 1#32
  | .running => 2#32
  | .dead => 3#32

def sizeofTask : Nat := 36

/-- The processor and its interrupt flag. -/
structure Kernel where
  cpu : Cpu
  interruptFlag : Bool

namespace Kernel

def load (k : Kernel) (a : Word) : Word := k.cpu.mem.load32 a

def setMem (k : Kernel) (m : Memory) : Kernel := { k with cpu := { k.cpu with mem := m } }

def store (k : Kernel) (a v : Word) : Kernel := k.setMem (k.cpu.mem.store32 a v)

/-! The fields of `struct task` behind its node, which comes first. -/

def state (k : Kernel) (t : Word) : Word := k.load (t + 8#32)
def setState (k : Kernel) (t : Word) (v : TaskState) : Kernel := k.store (t + 8#32) v.code
def criticalSectionCount (k : Kernel) (t : Word) : Word := k.load (t + 12#32)
def setCriticalSectionCount (k : Kernel) (t v : Word) : Kernel := k.store (t + 12#32) v
def entry (k : Kernel) (t : Word) : Word := k.load (t + 16#32)
def arg (k : Kernel) (t : Word) : Word := k.load (t + 20#32)
def savedSp (t : Word) : Word := t + 32#32

def x86Cli (k : Kernel) : Kernel := { k with interruptFlag := false }
def x86Sti (k : Kernel) : Kernel := { k with interruptFlag := true }

variable (g : Globals)

def currentTask (k : Kernel) : Word := k.load g.currentTask

def enterCriticalSection (k : Kernel) : Kernel :=
  let k := k.setCriticalSectionCount (k.currentTask g) (k.criticalSectionCount (k.currentTask g) + 1#32)
  if k.criticalSectionCount (k.currentTask g) = 1#32 then k.x86Cli else k

def exitCriticalSection (k : Kernel) : Kernel :=
  let k := k.setCriticalSectionCount (k.currentTask g) (k.criticalSectionCount (k.currentTask g) - 1#32)
  if k.criticalSectionCount (k.currentTask g) = 0#32 then k.x86Sti else k

def taskCreate (k : Kernel) (t entry arg stack stackSize : Word) : Kernel :=
  let m := k.cpu.mem.fillBytes t 0#8 sizeofTask
  let m := listClearNode m t
  let m := m.store32 (t + 8#32) TaskState.initial.code
  let m := m.store32 (t + 12#32) 1#32
  let m := m.store32 (t + 16#32) entry
  let m := m.store32 (t + 20#32) arg
  let m := m.store32 (t + 24#32) stack
  let m := m.store32 (t + 28#32) stackSize
  k.setMem (x86InitTaskMem m (savedSp t) g.taskTrampoline (m.load32 (t + 24#32) + m.load32 (t + 28#32)))

def taskStart (k : Kernel) (t : Word) : Int × Kernel :=
  let k := k.enterCriticalSection g
  if k.state t ≠ TaskState.initial.code then (-1, k.exitCriticalSection g)
  else
    let k := k.setState t .ready
    let k := k.setMem (listAddHead k.cpu.mem g.runQueue t)
    (0, k.exitCriticalSection g)

def requeueCurrent (k : Kernel) : Kernel :=
  if k.state (k.currentTask g) = TaskState.running.code then
    let k := k.setState (k.currentTask g) .ready
    k.setMem (listAddTail k.cpu.mem g.runQueue (k.currentTask g))
  else k

def pickNext (k : Kernel) : Word × Kernel :=
  let (nextTask, m) := listRemoveHead k.cpu.mem g.runQueue
  let nextTask := if nextTask = 0#32 then g.idleTask else nextTask
  (nextTask, k.setMem m)

/-- From the call of `task_reschedule` to the low level switch, with the old task and the next one. -/
def chooseTask (k : Kernel) : Word × Word × Kernel :=
  let k := k.enterCriticalSection g
  let oldTask := k.currentTask g
  let k := k.requeueCurrent g
  let (nextTask, k) := k.pickNext g
  let k := k.store g.currentTask nextTask
  let k := k.setState (k.currentTask g) .running
  (oldTask, nextTask, k)

/-- Behind the switch the task that now runs leaves the critical section, be it in `task_trampoline` or in the
    call of `task_reschedule` it was switched out in. -/
def taskReschedule (k : Kernel) (returnAddress : Word) : Kernel :=
  let (oldTask, nextTask, k) := k.chooseTask g
  if nextTask ≠ oldTask then
    let k := { k with cpu := x86TaskSwitchCpu k.cpu (savedSp oldTask) (savedSp nextTask) g.asmSwitch returnAddress }
    k.exitCriticalSection g
  else k.exitCriticalSection g

def taskExit (k : Kernel) (returnAddress : Word) : Kernel :=
  let k := k.enterCriticalSection g
  let k := k.setState (k.currentTask g) .dead
  k.taskReschedule g returnAddress

def taskInit (k : Kernel) (idleStack : Word) : Kernel :=
  let k := k.setMem (listInitialize k.cpu.mem g.runQueue)
  let k := k.taskCreate g g.idleTask 0#32 0#32 idleStack 512#32
  k.store g.currentTask g.idleTask

/-- What `task_trampoline` calls behind its `exit_critical_section`: the entry point with its argument. -/
def trampolineCall (k : Kernel) : Word × Word := (k.entry (k.currentTask g), k.arg (k.currentTask g))

end Kernel

/-! ### Where everything is -/

open Extents

/-- The tasks, their stacks and the kernel's variables. -/
structure KernelLayout (τ : Type) extends Globals where
  idle : τ
  task : τ → Word
  stack : τ → Word
  stackSize : τ → Word

namespace KernelLayout

variable {τ : Type} (L : KernelLayout τ)

def taskExtent (t : τ) : Extent := ⟨(L.task t).toNat, sizeofTask⟩
def stackExtent (t : τ) : Extent := ⟨(L.stack t).toNat, (L.stackSize t).toNat⟩
def queueExtent : Extent := ⟨L.runQueue.toNat, 8⟩
def currentExtent : Extent := ⟨L.currentTask.toNat, 4⟩

/-- Everything has room in memory and nothing overlaps. -/
structure Separate : Prop where
  idle : L.task L.idle = L.idleTask
  taskRoom : ∀ t, (L.taskExtent t).stop ≤ 2^32
  stackRoom : ∀ t, (L.stackExtent t).stop ≤ 2^32
  queueRoom : L.queueExtent.stop ≤ 2^32
  currentRoom : L.currentExtent.stop ≤ 2^32
  frame : ∀ t, 20 ≤ (L.stackSize t).toNat
  taskNull : ∀ t, L.task t ≠ 0#32
  queueNull : L.runQueue ≠ 0#32
  queueCurrent : L.queueExtent.Apart L.currentExtent
  taskTask : ∀ t u, t ≠ u → (L.taskExtent t).Apart (L.taskExtent u)
  taskQueue : ∀ t, (L.taskExtent t).Apart L.queueExtent
  taskCurrent : ∀ t, (L.taskExtent t).Apart L.currentExtent
  stackStack : ∀ t u, t ≠ u → (L.stackExtent t).Apart (L.stackExtent u)
  stackTask : ∀ t u, (L.stackExtent t).Apart (L.taskExtent u)
  stackQueue : ∀ t, (L.stackExtent t).Apart L.queueExtent
  stackCurrent : ∀ t, (L.stackExtent t).Apart L.currentExtent

/-- The address of a node; a task's node is its first field. -/
def address : NodePtr τ → Word
  | .null => 0#32
  | .runQueue => L.runQueue
  | .task t => L.task t

end KernelLayout

end ThreeX86.Tasks
