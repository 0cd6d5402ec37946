import ThreeX86.Tasks.Task

namespace ThreeX86.Tasks

open Machine ThreeX86.Lists Linked Sched

/-! What each scheduler function does to the fields of the state. -/

section

variable {τ : Type} [DecidableEq τ] {s s' : Sched τ} {t u : τ} {queue : List τ} {caller : Caller}

theorem state_setTask (s : Sched τ) (t u : τ) (v : Task) :
    (s.setTask t v).state u = if u = t then v.state else s.state u := by
  simp only [Sched.state, setTask, Function.update_apply]
  split <;> rfl

theorem count_setTask (s : Sched τ) (t u : τ) (v : Task) :
    (s.setTask t v).count u = if u = t then v.criticalSectionCount else s.count u := by
  simp only [Sched.count, setTask, Function.update_apply]
  split <;> rfl

@[simp] theorem state_setState (s : Sched τ) (t u : τ) (v : TaskState) :
    (s.setState t v).state u = if u = t then v else s.state u := state_setTask s t u _

@[simp] theorem count_setState (s : Sched τ) (t u : τ) (v : TaskState) : (s.setState t v).count u = s.count u := by
  rw [setState, count_setTask]
  split
  · subst u; rfl
  · rfl

@[simp] theorem state_setCount (s : Sched τ) (t u : τ) (v : Int) : (s.setCount t v).state u = s.state u := by
  rw [setCount, state_setTask]
  split
  · subst u; rfl
  · rfl

@[simp] theorem count_setCount (s : Sched τ) (t u : τ) (v : Int) :
    (s.setCount t v).count u = if u = t then v else s.count u := count_setTask s t u _

/-- The fields no critical section touches. -/
structure SameQueue (s s' : Sched τ) : Prop where
  prevOf : s'.prevOf = s.prevOf
  nextOf : s'.nextOf = s.nextOf
  currentTask : s'.currentTask = s.currentTask
  resume : s'.resume = s.resume
  unreachable : s'.unreachable = s.unreachable
  state : ∀ t, s'.state t = s.state t

theorem enter_same (s : Sched τ) : SameQueue s (enterCriticalSection s) := by
  have states (t : τ) : (enterCriticalSection s).state t = s.state t := by
    rw [← state_setCount s s.currentTask t (s.count s.currentTask + 1)]
    simp only [enterCriticalSection]
    split <;> rfl
  refine ⟨?_, ?_, ?_, ?_, ?_, states⟩
  all_goals
    simp only [enterCriticalSection]
    split <;> rfl

theorem exit_same (s : Sched τ) : SameQueue s (exitCriticalSection s) := by
  have states (t : τ) : (exitCriticalSection s).state t = s.state t := by
    rw [← state_setCount s s.currentTask t (s.count s.currentTask - 1)]
    simp only [exitCriticalSection]
    split <;> rfl
  refine ⟨?_, ?_, ?_, ?_, ?_, states⟩
  all_goals
    simp only [exitCriticalSection]
    split <;> rfl

theorem count_enter (s : Sched τ) (t : τ) :
    (enterCriticalSection s).count t = if t = s.currentTask then s.count t + 1 else s.count t := by
  have counts := count_setCount s s.currentTask t (s.count s.currentTask + 1)
  have whole : (enterCriticalSection s).count t = (s.setCount s.currentTask (s.count s.currentTask + 1)).count t := by
    simp only [enterCriticalSection]
    split <;> rfl
  rw [whole, counts]
  split
  · subst t; rfl
  · rfl

theorem count_exit (s : Sched τ) (t : τ) :
    (exitCriticalSection s).count t = if t = s.currentTask then s.count t - 1 else s.count t := by
  have counts := count_setCount s s.currentTask t (s.count s.currentTask - 1)
  have whole : (exitCriticalSection s).count t = (s.setCount s.currentTask (s.count s.currentTask - 1)).count t := by
    simp only [exitCriticalSection]
    split <;> rfl
  rw [whole, counts]
  split
  · subst t; rfl
  · rfl

theorem flag_enter (s : Sched τ) :
    (enterCriticalSection s).interruptFlag = if s.count s.currentTask + 1 = 1 then false else s.interruptFlag := by
  have own : (s.setCount s.currentTask (s.count s.currentTask + 1)).count
      (s.setCount s.currentTask (s.count s.currentTask + 1)).currentTask = s.count s.currentTask + 1 := by
    rw [count_setCount]
    exact if_pos rfl
  simp only [enterCriticalSection, own]
  split <;> rfl

theorem flag_exit (s : Sched τ) :
    (exitCriticalSection s).interruptFlag = if s.count s.currentTask - 1 = 0 then true else s.interruptFlag := by
  have own : (s.setCount s.currentTask (s.count s.currentTask - 1)).count
      (s.setCount s.currentTask (s.count s.currentTask - 1)).currentTask = s.count s.currentTask - 1 := by
    rw [count_setCount]
    exact if_pos rfl
  simp only [exitCriticalSection, own]
  split <;> rfl

/-! ### The run queue -/

theorem independent : Independent (Sched τ) (fun _ : NodePtr τ => True) := by
  constructor
  case prev_setPrev_same => intro s x v _; exact Function.update_self x v s.prevOf
  case prev_setPrev_other => intro s x y v _ _ ne; exact Function.update_of_ne ne v s.prevOf
  case prev_setNext => intros; rfl
  case next_setNext_same => intro s x v _; exact Function.update_self x v s.nextOf
  case next_setNext_other => intro s x y v _ _ ne; exact Function.update_of_ne ne v s.nextOf
  case next_setPrev => intros; rfl

/-- The run queue holds the tasks `queue`, head first. -/
def QueueIs (s : Sched τ) (queue : List τ) : Prop := Ring s .runQueue (queue.map NodePtr.task)

theorem QueueIs.nodup (ring : QueueIs s queue) : queue.Nodup :=
  List.Nodup.of_map _ (List.nodup_cons.mp (Ring.nodup ring)).2

theorem QueueIs.unique {queue' : List τ} (ring : QueueIs s queue) (ring' : QueueIs s queue') : queue = queue' :=
  List.map_injective_iff.mpr (fun _ _ => NodePtr.task.inj) (Ring.unique ring ring')

theorem QueueIs.same (ring : QueueIs s queue) (prevs : s'.prevOf = s.prevOf) (nexts : s'.nextOf = s.nextOf) :
    QueueIs s' queue := by
  refine Ring.transport ring ?_ ?_
  · intro x _
    exact congrFun nexts x
  · intro x _
    exact congrFun prevs x

omit [DecidableEq τ] in
theorem fresh_node (absent : t ∉ queue) : NodePtr.task t ∉ NodePtr.runQueue :: queue.map NodePtr.task := by
  intro member
  rcases List.mem_cons.mp member with same | member
  · cases same
  · obtain ⟨u, inQueue, same⟩ := List.mem_map.mp member
    cases same
    exact absent inQueue

theorem QueueIs.addTail (ring : QueueIs s queue) (absent : t ∉ queue) :
    QueueIs (listAddTail s .runQueue (.task t)) (queue ++ [t]) := by
  have added := ring_addTail independent ring (fun _ _ => trivial) trivial (fresh_node absent)
  rwa [QueueIs, List.map_append]

theorem QueueIs.addHead (ring : QueueIs s queue) (absent : t ∉ queue) :
    QueueIs (listAddHead s .runQueue (.task t)) (t :: queue) :=
  ring_addHead independent ring (fun _ _ => trivial) trivial (fresh_node absent)

theorem QueueIs.delete (ring : QueueIs s (t :: queue)) : QueueIs (listDelete s (.task t)) queue := by
  have whole : Ring s .runQueue ([] ++ NodePtr.task t :: queue.map NodePtr.task) := ring
  exact ring_delete independent whole fun _ _ => trivial

theorem pickNext_empty (idleTask : τ) (ring : QueueIs s []) : pickNext idleTask s = (idleTask, s) := by
  have first : NodeStore.next s NodePtr.runQueue = NodePtr.runQueue := ring_next_head ring
  have none : listRemoveHead s NodePtr.runQueue = (.null, s) := by
    simp only [listRemoveHead, first, ne_eq, not_true_eq_false, ite_false]
    rfl
  simp only [pickNext, none]

theorem pickNext_cons (idleTask : τ) (ring : QueueIs s (t :: queue)) :
    pickNext idleTask s = (t, listDelete s (.task t)) := by
  have first : NodeStore.next s NodePtr.runQueue = NodePtr.task t := ring_next_head ring
  have some : listRemoveHead s NodePtr.runQueue = (.task t, listDelete s (.task t)) := by
    simp [listRemoveHead, first]
  simp only [pickNext, some]

/-- The queue `task_reschedule` picks from. -/
def waiting (s : Sched τ) (queue : List τ) : List τ :=
  if s.state s.currentTask = .running then queue ++ [s.currentTask] else queue

theorem requeueCurrent_spec (ring : QueueIs s queue) (absent : s.state s.currentTask = .running → s.currentTask ∉ queue) :
    QueueIs (requeueCurrent s) (waiting s queue) := by
  simp only [requeueCurrent, waiting]
  split
  · rename_i running
    have moved : QueueIs (s.setState s.currentTask .ready) queue := ring.same rfl rfl
    exact moved.addTail (absent running)
  · exact ring

theorem state_requeueCurrent (s : Sched τ) (t : τ) : (requeueCurrent s).state t =
    if t = s.currentTask ∧ s.state t = .running then .ready else s.state t := by
  simp only [requeueCurrent]
  by_cases own : t = s.currentTask
  · subst own
    by_cases running : s.state s.currentTask = .running
    · have moved : (listAddTail (s.setState s.currentTask .ready) .runQueue
          (.task (s.setState s.currentTask .ready).currentTask)).state s.currentTask =
          (s.setState s.currentTask .ready).state s.currentTask := rfl
      rw [if_pos running, moved, state_setState]
      simp [running]
    · simp [running]
  · split
    · have moved : (listAddTail (s.setState s.currentTask .ready) .runQueue
          (.task (s.setState s.currentTask .ready).currentTask)).state t = (s.setState s.currentTask .ready).state t := rfl
      rw [moved, state_setState]
      simp [own]
    · simp [own]

theorem count_requeueCurrent (s : Sched τ) (t : τ) : (requeueCurrent s).count t = s.count t := by
  simp only [requeueCurrent]
  split
  · have moved : (listAddTail (s.setState s.currentTask .ready) .runQueue
        (.task (s.setState s.currentTask .ready).currentTask)).count t = (s.setState s.currentTask .ready).count t := rfl
    rw [moved, count_setState]
  · rfl

/-- The fields a walk through the queue leaves alone. -/
structure SameCpu (s s' : Sched τ) : Prop where
  currentTask : s'.currentTask = s.currentTask
  interruptFlag : s'.interruptFlag = s.interruptFlag
  resume : s'.resume = s.resume
  unreachable : s'.unreachable = s.unreachable

theorem requeueCurrent_same (s : Sched τ) : SameCpu s (requeueCurrent s) := by
  simp only [requeueCurrent]
  split
  · exact ⟨rfl, rfl, rfl, rfl⟩
  · exact ⟨rfl, rfl, rfl, rfl⟩

theorem pickNext_spec (idleTask : τ) (ring : QueueIs s queue) :
    ∃ s', pickNext idleTask s = (queue.headD idleTask, s') ∧ QueueIs s' queue.tail ∧ SameCpu s s' ∧
      s'.tasks = s.tasks := by
  cases queue with
  | nil => exact ⟨s, pickNext_empty idleTask ring, ring, ⟨rfl, rfl, rfl, rfl⟩, rfl⟩
  | cons t queue => exact ⟨_, pickNext_cons idleTask ring, ring.delete, ⟨rfl, rfl, rfl, rfl⟩, rfl⟩

/-! ### `task_reschedule` -/

/-- Where control is after a reschedule: in the chosen task, behind its own call or in the trampoline. -/
def landing (s : Sched τ) (next : τ) (caller : Caller) : Resume :=
  if next = s.currentTask then .afterSwitch caller else s.resume next

structure Switched (s s' : Sched τ) (next : τ) (caller : Caller) : Prop where
  currentTask : s'.currentTask = next
  state : ∀ t, s'.state t = if t = next then .running
    else if t = s.currentTask ∧ s.state t = .running then .ready else s.state t
  count : ∀ t, s'.count t = s.count t + (if t = s.currentTask then 1 else 0) - if t = next then 1 else 0
  flag : s'.interruptFlag = if s'.count next = 0 then true
    else if s.count s.currentTask + 1 = 1 then false else s.interruptFlag
  resume : ∀ t, s'.resume t =
    if next ≠ s.currentTask ∧ t = s.currentTask then .afterSwitch caller else s.resume t
  unreachable : s'.unreachable = (s.unreachable || decide (landing s next caller = .afterSwitch .exit))

theorem resumeAt_same (s : Sched τ) (r : Resume) :
    (resumeAt s r).prevOf = s.prevOf ∧ (resumeAt s r).nextOf = s.nextOf ∧
      (resumeAt s r).currentTask = s.currentTask ∧ (resumeAt s r).resume = s.resume ∧
      (resumeAt s r).unreachable = (s.unreachable || decide (r = .afterSwitch .exit)) ∧
      (∀ t, (resumeAt s r).state t = s.state t) ∧
      (∀ t, (resumeAt s r).count t = (exitCriticalSection s).count t) ∧
      (resumeAt s r).interruptFlag = (exitCriticalSection s).interruptFlag := by
  have same := exit_same s
  cases r with
  | trampoline =>
    have off : decide (Resume.trampoline = .afterSwitch .exit) = false := rfl
    rw [off, Bool.or_false]
    exact ⟨same.prevOf, same.nextOf, same.currentTask, same.resume, same.unreachable, same.state, fun _ => rfl, rfl⟩
  | afterSwitch caller =>
    cases caller with
    | yield =>
      have off : decide (Resume.afterSwitch .yield = .afterSwitch .exit) = false := rfl
      rw [off, Bool.or_false]
      exact ⟨same.prevOf, same.nextOf, same.currentTask, same.resume, same.unreachable, same.state, fun _ => rfl, rfl⟩
    | exit =>
      have on : decide (Resume.afterSwitch .exit = .afterSwitch .exit) = true := rfl
      rw [on, Bool.or_true]
      exact ⟨same.prevOf, same.nextOf, same.currentTask, same.resume, rfl, same.state, fun _ => rfl, rfl⟩

theorem taskReschedule_spec (idleTask : τ) (caller : Caller) (ring : QueueIs s queue)
    (absent : s.state s.currentTask = .running → s.currentTask ∉ queue) :
    QueueIs (taskReschedule idleTask s caller) (waiting s queue).tail ∧
      Switched s (taskReschedule idleTask s caller) ((waiting s queue).headD idleTask) caller := by
  have entered := enter_same s
  have ring1 : QueueIs (enterCriticalSection s) queue := ring.same entered.prevOf entered.nextOf
  have ring2 := requeueCurrent_spec ring1 (by
    rw [entered.state, entered.currentTask]
    exact absent)
  have same : waiting (enterCriticalSection s) queue = waiting s queue := by
    simp only [waiting, entered.state, entered.currentTask]
  rw [same] at ring2
  have requeued := requeueCurrent_same (enterCriticalSection s)
  obtain ⟨s3, picked, ring3, walked, tasks⟩ := pickNext_spec idleTask ring2
  generalize (waiting s queue).headD idleTask = next at picked
  -- the state in which the low level switch happens
  have whole : ∃ s4, s4.prevOf = s3.prevOf ∧ s4.nextOf = s3.nextOf ∧ s4.currentTask = next ∧
      s4.interruptFlag = s3.interruptFlag ∧ s4.unreachable = s3.unreachable ∧
      s4.tasks = (s3.setState next .running).tasks ∧
      (∀ t, s4.resume t = if next ≠ s.currentTask ∧ t = s.currentTask then .afterSwitch caller else s.resume t) ∧
      taskReschedule idleTask s caller = resumeAt s4 (landing s next caller) := by
    have resumes : s3.resume = s.resume := walked.resume.trans (requeued.resume.trans entered.resume)
    by_cases own : next = s.currentTask
    · refine ⟨({ s3 with currentTask := next } : Sched τ).setState next .running, rfl, rfl, rfl, rfl, rfl, rfl, ?_, ?_⟩
      · intro t
        simp only [own, ne_eq, not_true_eq_false, false_and, ite_false]
        exact congrFun resumes t
      · simp only [taskReschedule, picked, entered.currentTask, own, ne_eq, not_true_eq_false, ite_false, landing,
          ite_true]
    · refine ⟨{ ({ s3 with currentTask := next } : Sched τ).setState next .running with
          resume := Function.update s3.resume s.currentTask (.afterSwitch caller) }, rfl, rfl, rfl, rfl, rfl, rfl, ?_, ?_⟩
      · intro t
        simp only [own, ne_eq, not_false_eq_true, true_and, Function.update_apply, resumes]
      · have target : Function.update s3.resume s.currentTask (.afterSwitch caller) next = s.resume next := by
          rw [Function.update_of_ne own, resumes]
        simp only [taskReschedule, picked, entered.currentTask, own, ne_eq, not_false_eq_true, ite_true, landing,
          ite_false, x86TaskSwitch]
        rw [← target]
        rfl
  obtain ⟨s4, prevs, nexts, current, flag, unreached, tasks4, resumes, finish⟩ := whole
  obtain ⟨prevs', nexts', current', resumes', unreached', states', counts', flag'⟩ := resumeAt_same s4 (landing s next caller)
  have state3 (t : τ) : s3.state t = (requeueCurrent (enterCriticalSection s)).state t := by
    simp only [Sched.state, tasks]
  have count3 (t : τ) : s3.count t = (enterCriticalSection s).count t := by
    rw [← count_requeueCurrent (enterCriticalSection s) t]
    simp only [Sched.count, tasks]
  have state4 (t : τ) : s4.state t = (s3.setState next .running).state t := by simp only [Sched.state, tasks4]
  have count4 (t : τ) : s4.count t = s3.count t := by
    rw [← count_setState s3 next t .running]
    simp only [Sched.count, tasks4]
  have own4 : s4.count next = s.count next + if next = s.currentTask then 1 else 0 := by
    rw [count4, count3, count_enter]
    split
    · rfl
    · rw [Int.add_zero]
  rw [finish]
  have counts (t : τ) : (resumeAt s4 (landing s next caller)).count t =
      s.count t + (if t = s.currentTask then 1 else 0) - if t = next then 1 else 0 := by
    rw [counts', count_exit, current, count4, count3, count_enter]
    by_cases left : t = s.currentTask
    · by_cases taken : t = next
      · simp only [if_pos left, if_pos taken]
      · simp only [if_pos left, if_neg taken, Int.sub_zero]
    · by_cases taken : t = next
      · simp only [if_neg left, if_pos taken, Int.add_zero]
      · simp only [if_neg left, if_neg taken, Int.add_zero, Int.sub_zero]
  constructor
  · exact ring3.same (prevs'.trans prevs) (nexts'.trans nexts)
  · constructor
    case currentTask => exact current'.trans current
    case state =>
      intro t
      rw [states', state4, state_setState, state3, state_requeueCurrent, entered.state, entered.currentTask]
    case count => exact counts
    case flag =>
      have before : s4.interruptFlag = if s.count s.currentTask + 1 = 1 then false else s.interruptFlag := by
        rw [flag, walked.interruptFlag, requeued.interruptFlag, flag_enter]
      rw [flag', flag_exit, current, before, counts next, own4]
      simp only [ite_true]
    case resume =>
      intro t
      rw [resumes']
      exact resumes t
    case unreachable =>
      rw [unreached', unreached, walked.unreachable, requeued.unreachable, entered.unreachable]

end

end ThreeX86.Tasks
