import Mathlib.Logic.Function.Basic
import ThreeX86.Machine.Memory
import ThreeX86.Lists.List

/-!
The cooperative scheduler of `task.c`. Tasks are identified by an arbitrary type; the list nodes in
them are typed pointers. A task that is switched out keeps the place where it goes on.
-/

namespace ThreeX86.Tasks

open Machine ThreeX86.Lists Linked

inductive TaskState where
  | initial
  | ready
  | running
  | dead
deriving DecidableEq, Repr

/-- `task_t` without its list node. -/
structure Task where
  state : TaskState
  criticalSectionCount : Int
  entry : Word
  arg : Word
  stack : Word
  stackSize : Word
  savedSp : Word

inductive NodePtr (τ : Type) where
  | null
  | runQueue
  | task (t : τ)
deriving DecidableEq

/-- Who called `task_reschedule`. -/
inductive Caller where
  | yield
  | exit
deriving DecidableEq

/-- Where a task goes on when it is switched to: in `task_trampoline` on its first run, else behind
    the `x86_task_switch` that switched it out. -/
inductive Resume where
  | trampoline
  | afterSwitch (caller : Caller)
deriving DecidableEq

@[ext]
structure Sched (τ : Type) where
  prevOf : NodePtr τ → NodePtr τ
  nextOf : NodePtr τ → NodePtr τ
  tasks : τ → Task
  currentTask : τ
  interruptFlag : Bool
  resume : τ → Resume
  /-- Control has passed the `task_reschedule` of `task_exit`. -/
  unreachable : Bool

section

variable {τ : Type} [DecidableEq τ]

instance : NodeStore (Sched τ) (NodePtr τ) where
  null := .null
  prev s := s.prevOf
  next s := s.nextOf
  setPrev s x v := { s with prevOf := Function.update s.prevOf x v }
  setNext s x v := { s with nextOf := Function.update s.nextOf x v }

namespace Sched

def setTask (s : Sched τ) (t : τ) (v : Task) : Sched τ := { s with tasks := Function.update s.tasks t v }

def setState (s : Sched τ) (t : τ) (v : TaskState) : Sched τ := s.setTask t { s.tasks t with state := v }

def setCount (s : Sched τ) (t : τ) (v : Int) : Sched τ :=
  s.setTask t { s.tasks t with criticalSectionCount := v }

def count (s : Sched τ) (t : τ) : Int := (s.tasks t).criticalSectionCount

def state (s : Sched τ) (t : τ) : TaskState := (s.tasks t).state

end Sched

open Sched

def x86Cli (s : Sched τ) : Sched τ := { s with interruptFlag := false }
def x86Sti (s : Sched τ) : Sched τ := { s with interruptFlag := true }

def enterCriticalSection (s : Sched τ) : Sched τ :=
  let s := s.setCount s.currentTask (s.count s.currentTask + 1)
  if s.count s.currentTask = 1 then x86Cli s else s

def exitCriticalSection (s : Sched τ) : Sched τ :=
  let s := s.setCount s.currentTask (s.count s.currentTask - 1)
  if s.count s.currentTask = 0 then x86Sti s else s

/-- The frame it writes below `sp` makes the first switch return into `task_trampoline`. -/
def x86InitTask (s : Sched τ) (t : τ) (sp : Word) : Int × Sched τ :=
  let s := { s with resume := Function.update s.resume t .trampoline }
  (0, s.setTask t { s.tasks t with savedSp := sp - 20#32 })

def taskCreate (s : Sched τ) (t : τ) (entry arg stack stackSize : Word) : Int × Sched τ :=
  let s := listClearNode s (.task t)
  let s := s.setTask t ⟨.initial, 1, entry, arg, stack, stackSize, 0#32⟩
  let (err, s) := x86InitTask s t (stack + stackSize)
  if err < 0 then (err, s) else (0, s)

/-- What follows in the task just switched to. The trampoline goes on to the entry point, a yield to
    its caller. -/
def resumeAt (s : Sched τ) : Resume → Sched τ
  | .trampoline => exitCriticalSection s
  | .afterSwitch .yield => exitCriticalSection s
  | .afterSwitch .exit => { exitCriticalSection s with unreachable := true }

def x86TaskSwitch (s : Sched τ) (old task : τ) (caller : Caller) : Sched τ :=
  let s := { s with resume := Function.update s.resume old (.afterSwitch caller) }
  resumeAt s (s.resume task)

def taskStart (s : Sched τ) (t : τ) : Int × Sched τ :=
  let s := enterCriticalSection s
  if s.state t ≠ .initial then (-1, exitCriticalSection s)
  else
    let s := s.setState t .ready
    let s := listAddHead s .runQueue (.task t)
    (0, exitCriticalSection s)

/-- A task that is running goes back to the run queue. -/
def requeueCurrent (s : Sched τ) : Sched τ :=
  if s.state s.currentTask = .running then
    let s := s.setState s.currentTask .ready
    listAddTail s .runQueue (.task s.currentTask)
  else s

variable (idleTask : τ)

/-- The head of the run queue, or the idle task. -/
def pickNext (s : Sched τ) : τ × Sched τ :=
  match listRemoveHead s .runQueue with
  | (.task t, s) => (t, s)
  | (_, s) => (idleTask, s)

def taskReschedule (s : Sched τ) (caller : Caller) : Sched τ :=
  let s := enterCriticalSection s
  let oldTask := s.currentTask
  let s := requeueCurrent s
  let (nextTask, s) := pickNext idleTask s
  let s := { s with currentTask := nextTask }
  let s := s.setState nextTask .running
  if nextTask ≠ oldTask then x86TaskSwitch s oldTask nextTask caller
  else resumeAt s (.afterSwitch caller)

def taskExit (s : Sched τ) : Sched τ :=
  let s := enterCriticalSection s
  let s := s.setState s.currentTask .dead
  taskReschedule idleTask s .exit

def taskInit (s : Sched τ) (idleStack : Word) : Sched τ :=
  let s := listInitialize s .runQueue
  let (_, s) := taskCreate s idleTask 0#32 0#32 idleStack 512#32
  { s with currentTask := idleTask }

end

end ThreeX86.Tasks
