import ThreeX86.Tasks.Scheduler

namespace ThreeX86.Tasks

open Machine ThreeX86.Lists Linked Sched Transition

/-! The scheduler invariant survives every operation of every run. -/

section

variable {τ : Type} [DecidableEq τ] {idleTask : τ} {s : Tasking τ} {queue : List τ} {t : τ}

/-! ### Critical sections -/

theorem SchedInv.counted (inv : SchedInv idleTask s queue) {s' : Tasking τ} (same : SameQueue s.sched s'.sched)
    (created : s'.created = s.created) (started : s'.started = s.started) (resched : s'.rescheduled = s.rescheduled)
    (outside : ∀ t, t ≠ s.sched.currentTask → s'.sched.count t = s.sched.count t ∧ s'.held t = s.held t ∧
      s'.bootSection idleTask t = s.bootSection idleTask t)
    (inside : s'.sched.count s.sched.currentTask =
      s'.held s.sched.currentTask + s'.bootSection idleTask s.sched.currentTask)
    (flag : s'.sched.interruptFlag = decide (s'.sched.count s.sched.currentTask = 0))
    (depth : s'.held s.sched.currentTask < maxDepth) (booted : s.rescheduled = false → s'.booted = false) :
    SchedInv idleTask s' queue := by
  have current := same.currentTask
  constructor
  case toCore =>
    constructor
    case queueIs => exact inv.queueIs.same same.prevOf same.nextOf
    case ready =>
      intro t
      rw [inv.ready, created, same.state]
    case current_created => rw [created, current]; exact inv.current_created
    case idle_created => rw [created]; exact inv.idle_created
    case idle_alive => rw [same.state]; exact inv.idle_alive
    case running =>
      intro t
      rw [created, same.state, current]
      exact inv.running t
    case kept =>
      intro t
      rw [started, created, same.state]
      exact inv.kept t
    case resume =>
      intro t
      rw [created, same.state, current, same.resume]
      exact inv.resume t
    case reached => exact same.unreachable.trans inv.reached
    case outside =>
      intro t
      rw [created, same.state, current]
      intro createdT alive ne
      obtain ⟨count, held, boot⟩ := outside t ne
      rw [count, held, boot]
      exact inv.outside t createdT alive ne
    case inside =>
      intro _
      rw [current]
      exact inside
    case dead =>
      intro t
      rw [created, same.state, current]
      intro createdT deadT
      have ne : t ≠ s.sched.currentTask := by
        intro own
        rw [own] at deadT
        exact inv.current_alive.1 deadT
      rw [(outside t ne).1]
      exact inv.dead t createdT deadT
    case flag => rw [current]; exact flag
    case depth =>
      intro t
      rw [created]
      intro createdT
      by_cases own : t = s.sched.currentTask
      · rw [own]; exact depth
      · rw [(outside t own).2.1]; exact inv.depth t createdT
  case before =>
    rw [resched, current, same.state]
    intro first
    obtain ⟨idle, initial, -⟩ := inv.before first
    exact ⟨idle, initial, booted first⟩
  case after =>
    rw [resched, current, same.state]
    exact inv.after

theorem SchedInv.enter (inv : SchedInv idleTask s queue) (room : s.held s.sched.currentTask + 1 < maxDepth) :
    SchedInv idleTask (s.apply idleTask .enter) queue := by
  have range := inv.inside_range
  have inside := inv.inside inv.current_alive.1
  have own : (s.apply idleTask .enter).held s.sched.currentTask = s.held s.sched.currentTask + 1 :=
    Function.update_self _ _ _
  have count : (s.apply idleTask .enter).sched.count s.sched.currentTask = s.sched.count s.sched.currentTask + 1 := by
    show (enterCriticalSection s.sched).count _ = _
    rw [count_enter, if_pos rfl]
  refine inv.counted (enter_same s.sched) rfl rfl rfl ?_ ?_ ?_ ?_ fun first => (inv.before first).2.2
  · intro t ne
    refine ⟨?_, Function.update_of_ne ne _ _, rfl⟩
    show (enterCriticalSection s.sched).count t = _
    rw [count_enter, if_neg ne]
  · rw [own, count]
    show _ = _ + s.bootSection idleTask _
    omega
  · rw [count]
    show (enterCriticalSection s.sched).interruptFlag = _
    rw [flag_enter, inv.flag]
    split
    · exact (decide_eq_false (by omega)).symm
    · rw [decide_eq_false (by omega), decide_eq_false (by omega)]
  · rw [own]
    exact room

theorem flag_leave (inv : SchedInv idleTask s queue) (positive : 0 < s.sched.count s.sched.currentTask) :
    (exitCriticalSection s.sched).interruptFlag = decide (s.sched.count s.sched.currentTask - 1 = 0) := by
  rw [flag_exit, inv.flag]
  split
  · rename_i zero
    exact (decide_eq_true zero).symm
  · rename_i nonzero
    rw [decide_eq_false nonzero, decide_eq_false (by omega)]

theorem SchedInv.leave (inv : SchedInv idleTask s queue) (entered : 0 < s.held s.sched.currentTask) :
    SchedInv idleTask (s.apply idleTask .leave) queue := by
  have inside := inv.inside inv.current_alive.1
  have boot := bootSection_range idleTask s s.sched.currentTask
  have depth := inv.depth _ inv.current_created
  have own : (s.apply idleTask .leave).held s.sched.currentTask = s.held s.sched.currentTask - 1 :=
    Function.update_self _ _ _
  have count : (s.apply idleTask .leave).sched.count s.sched.currentTask = s.sched.count s.sched.currentTask - 1 := by
    show (exitCriticalSection s.sched).count _ = _
    rw [count_exit, if_pos rfl]
  refine inv.counted (exit_same s.sched) rfl rfl rfl ?_ ?_ ?_ ?_ fun first => (inv.before first).2.2
  · intro t ne
    refine ⟨?_, Function.update_of_ne ne _ _, rfl⟩
    show (exitCriticalSection s.sched).count t = _
    rw [count_exit, if_neg ne]
  · rw [own, count]
    show _ = _ + s.bootSection idleTask _
    omega
  · rw [count]
    exact flag_leave inv (by omega)
  · rw [own]
    omega

theorem SchedInv.becomeIdle (inv : SchedInv idleTask s queue) (idle : s.sched.currentTask = idleTask)
    (begun : s.rescheduled = true) (inBoot : s.booted = false) :
    SchedInv idleTask (s.apply idleTask .becomeIdle) queue := by
  have inside := inv.inside inv.current_alive.1
  have section_ : s.bootSection idleTask s.sched.currentTask = 1 := if_pos ⟨idle, inBoot⟩
  have left (t : τ) : (s.apply idleTask .becomeIdle).bootSection idleTask t = 0 := if_neg fun h => by cases h.2
  have count : (s.apply idleTask .becomeIdle).sched.count s.sched.currentTask =
      s.sched.count s.sched.currentTask - 1 := by
    show (exitCriticalSection s.sched).count _ = _
    rw [count_exit, if_pos rfl]
  refine inv.counted (exit_same s.sched) rfl rfl rfl ?_ ?_ ?_ ?_ fun first => by rw [begun] at first; cases first
  · intro t ne
    have other : s.bootSection idleTask t = 0 := if_neg fun h => ne (h.1.trans idle.symm)
    refine ⟨?_, rfl, (left t).trans other.symm⟩
    show (exitCriticalSection s.sched).count t = _
    rw [count_exit, if_neg ne]
  · rw [count, left]
    show _ = (s.held _ : Int) + 0
    omega
  · rw [count]
    exact flag_leave inv (by omega)
  · exact inv.depth _ inv.current_created

/-! ### `task_create` and `task_start` -/

structure CreatedTask (s s' : Sched τ) (t : τ) : Prop where
  queueIs : ∀ queue, QueueIs s queue → t ∉ queue → QueueIs s' queue
  state : ∀ u, s'.state u = if u = t then .initial else s.state u
  count : ∀ u, s'.count u = if u = t then 1 else s.count u
  resume : ∀ u, s'.resume u = if u = t then .trampoline else s.resume u
  currentTask : s'.currentTask = s.currentTask
  interruptFlag : s'.interruptFlag = s.interruptFlag
  unreachable : s'.unreachable = s.unreachable

theorem taskCreate_spec (s : Sched τ) (t : τ) (entry arg stack stackSize : Word) :
    (taskCreate s t entry arg stack stackSize).1 = 0 ∧
      CreatedTask s (taskCreate s t entry arg stack stackSize).2 t := by
  refine ⟨rfl, ?_⟩
  generalize hs' : (taskCreate s t entry arg stack stackSize).2 = s'
  have tasks : s'.tasks = Function.update (Function.update s.tasks t ⟨.initial, 1, entry, arg, stack, stackSize, 0#32⟩) t
      ⟨.initial, 1, entry, arg, stack, stackSize, stack + stackSize - 20#32⟩ := by
    subst hs'
    have own : Function.update s.tasks t (⟨.initial, 1, entry, arg, stack, stackSize, 0#32⟩ : Task) t =
        ⟨.initial, 1, entry, arg, stack, stackSize, 0#32⟩ := Function.update_self _ _ _
    show Function.update (Function.update s.tasks t _) t
      { Function.update s.tasks t (⟨.initial, 1, entry, arg, stack, stackSize, 0#32⟩ : Task) t with
        savedSp := stack + stackSize - 20#32 } = _
    rw [own]
  constructor
  case queueIs =>
    intro queue ring absent
    have nexts : s'.nextOf = Function.update s.nextOf (.task t) .null := by subst hs'; rfl
    have prevs : s'.prevOf = Function.update s.prevOf (.task t) .null := by subst hs'; rfl
    have fresh := fresh_node absent
    refine Ring.transport ring ?_ ?_
    · intro x member
      show s'.nextOf x = s.nextOf x
      rw [nexts, Function.update_of_ne (ne_of_mem_of_not_mem member fresh)]
    · intro x member
      show s'.prevOf x = s.prevOf x
      rw [prevs, Function.update_of_ne (ne_of_mem_of_not_mem member fresh)]
  case state =>
    intro u
    simp only [Sched.state, tasks, Function.update_apply]
    split <;> rfl
  case count =>
    intro u
    simp only [Sched.count, tasks, Function.update_apply]
    split <;> rfl
  case resume =>
    intro u
    have resumes : s'.resume = Function.update s.resume t .trampoline := by subst hs'; rfl
    rw [resumes, Function.update_apply]
  case currentTask => subst hs'; rfl
  case interruptFlag => subst hs'; rfl
  case unreachable => subst hs'; rfl

/-- Every task but `t` is as it was. -/
structure SameExcept (s s' : Tasking τ) (t : τ) : Prop where
  state : ∀ u, u ≠ t → s'.sched.state u = s.sched.state u
  count : ∀ u, u ≠ t → s'.sched.count u = s.sched.count u
  resume : ∀ u, u ≠ t → s'.sched.resume u = s.sched.resume u
  created : ∀ u, u ≠ t → s'.created u = s.created u
  started : ∀ u, u ≠ t → s'.started u = s.started u
  held : ∀ u, u ≠ t → s'.held u = s.held u
  currentTask : s'.sched.currentTask = s.sched.currentTask
  interruptFlag : s'.sched.interruptFlag = s.sched.interruptFlag
  unreachable : s'.sched.unreachable = s.sched.unreachable
  rescheduled : s'.rescheduled = s.rescheduled
  booted : s'.booted = s.booted

/-- What the invariant asks of a task that is alive and not the current one. -/
structure Pending (s : Tasking τ) (queue : List τ) (t : τ) : Prop where
  ready : t ∈ queue ↔ s.created t = true ∧ s.sched.state t = .ready
  notRunning : s.sched.state t ≠ .running
  alive : s.sched.state t ≠ .dead
  kept : s.started t = true → s.created t = true ∧ s.sched.state t ≠ .initial
  resume : s.sched.resume t ≠ .afterSwitch .exit
  count : s.sched.count t = s.held t + 1
  depth : s.held t < maxDepth

/-- A step that changes one task, neither the current one nor the idle task. -/
theorem SchedInv.touched (inv : SchedInv idleTask s queue) {s' : Tasking τ} {queue' : List τ} (notIdle : t ≠ idleTask)
    (notCurrent : t ≠ s.sched.currentTask) (same : SameExcept s s' t) (ring : QueueIs s'.sched queue')
    (members : ∀ u, u ≠ t → (u ∈ queue' ↔ u ∈ queue)) (pending : Pending s' queue' t) :
    SchedInv idleTask s' queue' := by
  have current := same.currentTask
  have currentOff : s.sched.currentTask ≠ t := notCurrent.symm
  have boot (u : τ) : s'.bootSection idleTask u = s.bootSection idleTask u := by
    rw [Tasking.bootSection, Tasking.bootSection, same.booted]
  constructor
  case toCore =>
    constructor
    case queueIs => exact ring
    case ready =>
      intro u
      by_cases own : u = t
      · rw [own]
        exact pending.ready
      · rw [members u own, same.created u own, same.state u own]
        exact inv.ready u
    case current_created =>
      rw [current, same.created _ currentOff]
      exact inv.current_created
    case idle_created =>
      rw [same.created _ notIdle.symm]
      exact inv.idle_created
    case idle_alive =>
      rw [same.state _ notIdle.symm]
      exact inv.idle_alive
    case running =>
      intro u
      by_cases own : u = t
      · rw [own]
        exact fun _ running => absurd running pending.notRunning
      · rw [same.created u own, same.state u own, current]
        exact inv.running u
    case kept =>
      intro u
      by_cases own : u = t
      · rw [own]
        exact pending.kept
      · rw [same.started u own, same.created u own, same.state u own]
        exact inv.kept u
    case resume =>
      intro u
      by_cases own : u = t
      · rw [own]
        exact fun _ _ _ => pending.resume
      · rw [same.created u own, same.state u own, current, same.resume u own]
        exact inv.resume u
    case reached => exact same.unreachable.trans inv.reached
    case outside =>
      intro u
      by_cases own : u = t
      · have none : s.bootSection idleTask t = 0 := if_neg fun h => notIdle h.1
        rw [own, boot, none, Int.add_zero]
        exact fun _ _ _ => pending.count
      · rw [same.created u own, same.state u own, current, same.count u own, same.held u own, boot]
        exact inv.outside u
    case inside =>
      intro _
      rw [current, same.count _ currentOff, same.held _ currentOff, boot]
      exact inv.inside inv.current_alive.1
    case dead =>
      intro u
      by_cases own : u = t
      · rw [own]
        exact fun _ dead => absurd dead pending.alive
      · rw [same.created u own, same.state u own, same.count u own, current]
        exact inv.dead u
    case flag =>
      rw [same.interruptFlag, current, same.count _ currentOff]
      exact inv.flag
    case depth =>
      intro u
      by_cases own : u = t
      · rw [own]
        exact fun _ => pending.depth
      · rw [same.created u own, same.held u own]
        exact inv.depth u
  case before =>
    rw [same.rescheduled, current, same.state _ notIdle.symm, same.booted]
    exact inv.before
  case after =>
    rw [same.rescheduled, current, same.state _ currentOff]
    exact inv.after

theorem SchedInv.create (inv : SchedInv idleTask s queue) (entry arg stack stackSize : Word) (notIdle : t ≠ idleTask)
    (notCurrent : t ≠ s.sched.currentTask) (absent : t ∉ queue) :
    SchedInv idleTask (s.apply idleTask (.create t entry arg stack stackSize)) queue := by
  have made := (taskCreate_spec s.sched t entry arg stack stackSize).2
  have initial : (taskCreate s.sched t entry arg stack stackSize).2.state t = .initial := by
    rw [made.state, if_pos rfl]
  have noSections : Function.update s.held t 0 t = 0 := Function.update_self _ _ _
  refine inv.touched notIdle notCurrent ?_ (made.queueIs queue inv.queueIs absent) (fun u _ => Iff.rfl) ?_
  · constructor
    case state => exact fun u ne => (made.state u).trans (if_neg ne)
    case count => exact fun u ne => (made.count u).trans (if_neg ne)
    case resume => exact fun u ne => (made.resume u).trans (if_neg ne)
    case created => exact fun u ne => Function.update_of_ne ne _ _
    case started => exact fun u ne => Function.update_of_ne ne _ _
    case held => exact fun u ne => Function.update_of_ne ne _ _
    case currentTask => exact made.currentTask
    case interruptFlag => exact made.interruptFlag
    case unreachable => exact made.unreachable
    case rescheduled => rfl
    case booted => rfl
  · constructor
    case ready =>
      refine iff_of_false absent ?_
      intro ⟨_, ready⟩
      exact absurd (initial.symm.trans ready) (by decide)
    case notRunning => exact fun running => absurd (initial.symm.trans running) (by decide)
    case alive => exact fun dead => absurd (initial.symm.trans dead) (by decide)
    case kept =>
      intro started
      have notStarted : Function.update s.started t false t = false := Function.update_self _ _ _
      cases notStarted.symm.trans started
    case resume =>
      intro exit
      exact absurd (((made.resume t).trans (if_pos rfl)).symm.trans exit) (by decide)
    case count =>
      show (taskCreate s.sched t entry arg stack stackSize).2.count t = (Function.update s.held t 0 t : Nat) + 1
      rw [made.count, if_pos rfl, noSections]
      rfl
    case depth =>
      show Function.update s.held t 0 t < maxDepth
      rw [noSections]
      decide

theorem tasks_enter (s : Sched τ) :
    (enterCriticalSection s).tasks = (s.setCount s.currentTask (s.count s.currentTask + 1)).tasks := by
  simp only [enterCriticalSection]
  split <;> rfl

theorem tasks_exit (s : Sched τ) :
    (exitCriticalSection s).tasks = (s.setCount s.currentTask (s.count s.currentTask - 1)).tasks := by
  simp only [exitCriticalSection]
  split <;> rfl

/-- A critical section that does nothing leaves no trace. -/
theorem exit_enter (s : Sched τ) (flag : s.interruptFlag = decide (s.count s.currentTask = 0)) :
    exitCriticalSection (enterCriticalSection s) = s := by
  have entered := enter_same s
  have left := exit_same (enterCriticalSection s)
  have count : (enterCriticalSection s).count s.currentTask = s.count s.currentTask + 1 := by
    rw [count_enter, if_pos rfl]
  apply Sched.ext
  · exact left.prevOf.trans entered.prevOf
  · exact left.nextOf.trans entered.nextOf
  · funext t
    rw [tasks_exit, entered.currentTask, count, Int.add_sub_cancel]
    simp only [setCount, setTask, Function.update_apply]
    by_cases own : t = s.currentTask
    · rw [if_pos own, tasks_enter]
      simp only [setCount, setTask, Function.update_self]
      rw [own]
      rfl
    · rw [if_neg own, tasks_enter]
      exact Function.update_of_ne own _ _
  · exact left.currentTask.trans entered.currentTask
  · rw [flag_exit, entered.currentTask, count, Int.add_sub_cancel, flag_enter, flag]
    split
    · rename_i zero
      exact (decide_eq_true zero).symm
    · rename_i nonzero
      rw [if_neg (by omega)]
  · exact left.resume.trans entered.resume
  · exact left.unreachable.trans entered.unreachable

theorem taskStart_refused (flag : s.sched.interruptFlag = decide (s.sched.count s.sched.currentTask = 0))
    (begun : s.sched.state t ≠ .initial) : taskStart s.sched t = (-1, s.sched) := by
  have same := (enter_same s.sched).state t
  have restored := exit_enter s.sched flag
  simp only [taskStart, same, begun, ne_eq, not_false_eq_true, ite_true, restored]

theorem taskStart_spec (s : Sched τ) (fresh : s.state t = .initial) (ring : QueueIs s queue) (absent : t ∉ queue)
    (flag : s.interruptFlag = decide (s.count s.currentTask = 0)) :
    ∃ s', taskStart s t = (0, s') ∧ QueueIs s' (t :: queue) ∧
      (∀ u, s'.state u = if u = t then .ready else s.state u) ∧ (∀ u, s'.count u = s.count u) ∧
      s'.currentTask = s.currentTask ∧ s'.interruptFlag = s.interruptFlag ∧ s'.resume = s.resume ∧
      s'.unreachable = s.unreachable := by
  have entered := enter_same s
  generalize hm : (enterCriticalSection s).setState t .ready = m
  have queued : QueueIs m queue := hm ▸ ring.same entered.prevOf entered.nextOf
  have added := queued.addHead absent
  generalize ha : listAddHead m .runQueue (.task t) = a at added
  have left := exit_same a
  have current : a.currentTask = s.currentTask := by rw [← ha, ← hm]; exact entered.currentTask
  have states (u : τ) : a.state u = if u = t then .ready else s.state u := by
    have same : a.state u = m.state u := by rw [← ha]; rfl
    rw [same, ← hm, state_setState, entered.state]
  have counts (u : τ) : a.count u = if u = s.currentTask then s.count u + 1 else s.count u := by
    have same : a.count u = m.count u := by rw [← ha]; rfl
    rw [same, ← hm, count_setState, count_enter]
  have flags : a.interruptFlag = (enterCriticalSection s).interruptFlag := by rw [← ha, ← hm]; rfl
  refine ⟨exitCriticalSection a, ?_, added.same left.prevOf left.nextOf, ?_, ?_, left.currentTask.trans current, ?_, ?_, ?_⟩
  · simp only [taskStart, entered.state, fresh, ne_eq, not_true_eq_false, ite_false, hm, ha]
  · intro u
    rw [left.state, states]
  · intro u
    rw [count_exit, current, counts]
    split
    · omega
    · rfl
  · rw [flag_exit, current, counts, if_pos rfl, Int.add_sub_cancel, flags, flag_enter, flag]
    split
    · rename_i zero
      exact (decide_eq_true zero).symm
    · rename_i nonzero
      rw [if_neg (by omega)]
  · rw [left.resume, ← ha, ← hm]
    exact entered.resume
  · rw [left.unreachable, ← ha, ← hm]
    exact entered.unreachable

theorem SchedInv.start (inv : SchedInv idleTask s queue) (created : s.created t = true) (notIdle : t ≠ idleTask) :
    SchedInv idleTask (s.apply idleTask (.start t)) (if s.sched.state t = .initial then t :: queue else queue) := by
  by_cases fresh : s.sched.state t = .initial
  · have absent : t ∉ queue := by
      rw [inv.ready, fresh]
      exact fun h => absurd h.2 (by decide)
    have notCurrent : s.sched.currentTask ≠ t := by
      intro same
      rcases inv.current_cases with running | ⟨idle, -⟩
      · rw [same, fresh] at running
        cases running
      · exact notIdle (same.symm.trans idle)
    obtain ⟨d, started, ring, states, counts, current, flag, resumes, unreached⟩ :=
      taskStart_spec s.sched fresh inv.queueIs absent inv.flag
    have whole : s.apply idleTask (.start t) =
        ⟨d, s.created, Function.update s.started t true, s.held, s.rescheduled, s.booted⟩ := by
      simp only [Tasking.apply, started, ite_true]
    have ready : d.state t = .ready := by rw [states, if_pos rfl]
    have alive : s.sched.state t ≠ .dead := by
      rw [fresh]
      decide
    have members (u : τ) (ne : u ≠ t) : u ∈ t :: queue ↔ u ∈ queue := by
      rw [List.mem_cons]
      exact or_iff_right ne
    rw [whole, if_pos fresh]
    refine inv.touched notIdle (Ne.symm notCurrent) ?_ ring members ?_
    · constructor
      case state => exact fun u ne => (states u).trans (if_neg ne)
      case count => exact fun u _ => counts u
      case resume => exact fun u _ => congrFun resumes u
      case created => exact fun _ _ => rfl
      case started => exact fun u ne => Function.update_of_ne ne _ _
      case held => exact fun _ _ => rfl
      case currentTask => exact current
      case interruptFlag => exact flag
      case unreachable => exact unreached
      case rescheduled => rfl
      case booted => rfl
    · constructor
      case ready => exact iff_of_true List.mem_cons_self ⟨created, ready⟩
      case notRunning => exact fun running => absurd (ready.symm.trans running) (by decide)
      case alive => exact fun dead => absurd (ready.symm.trans dead) (by decide)
      case kept => exact fun _ => ⟨created, fun initial => absurd (ready.symm.trans initial) (by decide)⟩
      case resume =>
        show d.resume t ≠ _
        rw [resumes]
        exact inv.resume t created alive (Ne.symm notCurrent)
      case count =>
        have none : s.bootSection idleTask t = 0 := if_neg fun h => notIdle h.1
        have outside := inv.outside t created alive (Ne.symm notCurrent)
        rw [none, Int.add_zero] at outside
        exact (counts t).trans outside
      case depth => exact inv.depth t created
  · have refused := taskStart_refused inv.flag fresh
    have same : s.apply idleTask (.start t) = s := by
      simp only [Tasking.apply, refused]
      rfl
    rw [same, if_neg fresh]
    exact inv

/-! ### Runs -/

theorem SchedInv.init (boot : Sched τ) (idleStack : Word) (off : boot.interruptFlag = false)
    (unreached : boot.unreachable = false) : SchedInv idleTask
      ⟨taskInit idleTask boot idleStack, fun t => decide (t = idleTask), fun _ => false, fun _ => 0, false, false⟩ [] := by
  obtain ⟨ring, states, counts, resumes, current, flag, unreachable⟩ :=
    (taskCreate_spec (listInitialize boot .runQueue) idleTask 0#32 0#32 idleStack 512#32).2
  have empty : QueueIs (listInitialize boot .runQueue) ([] : List τ) := ring_initialize independent trivial
  have queued := ring [] empty (by simp)
  have flag' : (taskInit idleTask boot idleStack).interruptFlag = false := flag.trans off
  have state (t : τ) : (taskInit idleTask boot idleStack).state t = if t = idleTask then .initial else boot.state t :=
    states t
  have count (t : τ) : (taskInit idleTask boot idleStack).count t = if t = idleTask then 1 else boot.count t := counts t
  constructor
  case toCore =>
    constructor
    case queueIs => exact queued.same rfl rfl
    case ready =>
      intro t
      simp only [List.not_mem_nil, decide_eq_true_eq, false_iff, not_and, state]
      intro idle
      rw [if_pos idle]
      decide
    case current_created => exact decide_eq_true rfl
    case idle_created => exact decide_eq_true rfl
    case idle_alive =>
      simp only [state, ite_true]
      decide
    case running =>
      intro t created _
      exact of_decide_eq_true created
    case kept => intro t started; cases started
    case resume =>
      intro t created _ ne
      exact absurd (of_decide_eq_true created) ne
    case reached => exact unreachable.trans unreached
    case outside =>
      intro t created _ ne
      exact absurd (of_decide_eq_true created) ne
    case inside =>
      intro _
      have own : (taskInit idleTask boot idleStack).currentTask = idleTask := rfl
      simp only [own, count, ite_true, Tasking.bootSection, and_self]
      rfl
    case dead =>
      intro t created dead
      simp only [state, of_decide_eq_true created, ite_true] at dead
      cases dead
    case flag =>
      have own : (taskInit idleTask boot idleStack).currentTask = idleTask := rfl
      simp only [flag', own, count, ite_true]
      rfl
    case depth => intro t _; exact (by decide : 0 < maxDepth)
  case before =>
    intro _
    refine ⟨rfl, ?_, rfl⟩
    simp only [state, ite_true]
  case after => intro begun; cases begun

theorem SchedInv.step (inv : SchedInv idleTask s queue) {op : TaskOp τ} (allowed : s.Allowed idleTask op) :
    ∃ queue', SchedInv idleTask (s.apply idleTask op) queue' := by
  cases op with
  | create t entry arg stack stackSize =>
    obtain ⟨notIdle, notCurrent, absent⟩ := allowed
    exact ⟨queue, inv.create entry arg stack stackSize notIdle notCurrent (absent queue inv.queueIs)⟩
  | start t => exact ⟨_, inv.start allowed.1 allowed.2⟩
  | reschedule => exact ⟨_, inv.reschedule⟩
  | exit => exact ⟨_, inv.exit allowed⟩
  | enter => exact ⟨queue, inv.enter allowed⟩
  | leave => exact ⟨queue, inv.leave allowed⟩
  | becomeIdle => exact ⟨queue, inv.becomeIdle allowed.1 allowed.2.1 allowed.2.2⟩

abbrev Tasking.Reached (idleTask : τ) (s : Tasking τ) : Prop :=
  Reachable (Tasking.Start idleTask) (Tasking.Step idleTask) s

theorem Tasking.Reached.inv (reached : Tasking.Reached idleTask s) : ∃ queue, SchedInv idleTask s queue := by
  apply reached.invariant fun s => ∃ queue, SchedInv idleTask s queue
  · intro s first
    obtain ⟨boot, idleStack, off, unreached, rfl⟩ := first
    exact ⟨[], SchedInv.init boot idleStack off unreached⟩
  · intro s op s' before step
    obtain ⟨queue, inv⟩ := before
    obtain ⟨allowed, rfl⟩ := step
    exact inv.step allowed

end

end ThreeX86.Tasks
