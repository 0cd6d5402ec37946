import ThreeX86.Machine.Run
import ThreeX86.Tasks.Reschedule

namespace ThreeX86.Tasks

open Machine ThreeX86.Lists Linked Sched Transition

/-! Runs of the scheduler: what the current task may do next, and what every run keeps. -/

/-- The scheduler with the history its clients are judged by. -/
structure Tasking (τ : Type) where
  sched : Sched τ
  created : τ → Bool
  /-- Started since the last `task_create`. -/
  started : τ → Bool
  /-- Critical sections the task has entered itself and not left. -/
  held : τ → Nat
  rescheduled : Bool
  /-- `task_become_idle` has left the section the idle task was created in. -/
  booted : Bool

inductive TaskOp (τ : Type) where
  | create (t : τ) (entry arg stack stackSize : Word)
  | start (t : τ)
  | reschedule
  | exit
  | enter
  | leave
  | becomeIdle

section

variable {τ : Type} [DecidableEq τ] (idleTask : τ)

def maxDepth : Nat := 2^30

def Tasking.Allowed (s : Tasking τ) : TaskOp τ → Prop
  | .create t _ _ _ _ => t ≠ idleTask ∧ t ≠ s.sched.currentTask ∧ ∀ queue, QueueIs s.sched queue → t ∉ queue
  | .start t => s.created t = true ∧ t ≠ idleTask
  | .reschedule => True
  | .exit => s.sched.currentTask ≠ idleTask
  | .enter => s.held s.sched.currentTask + 1 < maxDepth
  | .leave => 0 < s.held s.sched.currentTask
  | .becomeIdle => s.sched.currentTask = idleTask ∧ s.rescheduled = true ∧ s.booted = false

def Tasking.apply (s : Tasking τ) : TaskOp τ → Tasking τ
  | .create t entry arg stack stackSize =>
    { s with
      sched := (taskCreate s.sched t entry arg stack stackSize).2
      created := Function.update s.created t true
      started := Function.update s.started t false
      held := Function.update s.held t 0 }
  | .start t =>
    { s with
      sched := (taskStart s.sched t).2
      started := if (taskStart s.sched t).1 = 0 then Function.update s.started t true else s.started }
  | .reschedule => { s with sched := taskReschedule idleTask s.sched .yield, rescheduled := true }
  | .exit => { s with sched := taskExit idleTask s.sched, rescheduled := true }
  | .enter =>
    { s with
      sched := enterCriticalSection s.sched
      held := Function.update s.held s.sched.currentTask (s.held s.sched.currentTask + 1) }
  | .leave =>
    { s with
      sched := exitCriticalSection s.sched
      held := Function.update s.held s.sched.currentTask (s.held s.sched.currentTask - 1) }
  | .becomeIdle => { s with sched := exitCriticalSection s.sched, booted := true }

def Tasking.Step (s : Tasking τ) (op : TaskOp τ) (s' : Tasking τ) : Prop :=
  s.Allowed idleTask op ∧ s' = s.apply idleTask op

/-- `task_init` at boot, with interrupts off. -/
def Tasking.Start (s : Tasking τ) : Prop :=
  ∃ boot idleStack, boot.interruptFlag = false ∧ boot.unreachable = false ∧
    s = ⟨taskInit idleTask boot idleStack, fun t => decide (t = idleTask), fun _ => false, fun _ => 0, false, false⟩

/-- The section the idle task is created in counts until `task_become_idle` leaves it. -/
def Tasking.bootSection (s : Tasking τ) (t : τ) : Int := if t = idleTask ∧ s.booted = false then 1 else 0

/-- What holds whenever a task may call `task_reschedule`, `task_exit`'s own call included. -/
structure Core (s : Tasking τ) (queue : List τ) : Prop where
  queueIs : QueueIs s.sched queue
  ready : ∀ t, t ∈ queue ↔ s.created t = true ∧ s.sched.state t = .ready
  current_created : s.created s.sched.currentTask = true
  idle_created : s.created idleTask = true
  idle_alive : s.sched.state idleTask ≠ .dead
  running : ∀ t, s.created t = true → s.sched.state t = .running → t = s.sched.currentTask
  kept : ∀ t, s.started t = true → s.created t = true ∧ s.sched.state t ≠ .initial
  resume : ∀ t, s.created t = true → s.sched.state t ≠ .dead → t ≠ s.sched.currentTask →
    s.sched.resume t ≠ .afterSwitch .exit
  reached : s.sched.unreachable = false
  outside : ∀ t, s.created t = true → s.sched.state t ≠ .dead → t ≠ s.sched.currentTask →
    s.sched.count t = s.held t + 1 + s.bootSection idleTask t
  inside : s.sched.state s.sched.currentTask ≠ .dead →
    s.sched.count s.sched.currentTask = s.held s.sched.currentTask + s.bootSection idleTask s.sched.currentTask
  dead : ∀ t, s.created t = true → s.sched.state t = .dead →
    0 ≤ s.sched.count t ∧ s.sched.count t + (if t = s.sched.currentTask then 1 else 0) ≤ maxDepth + 2
  flag : s.sched.interruptFlag = decide (s.sched.count s.sched.currentTask = 0)
  depth : ∀ t, s.created t = true → s.held t < maxDepth

/-- The current task before any reschedule is the idle task, still `INITIAL`; afterwards it is `RUNNING`. -/
structure SchedInv (s : Tasking τ) (queue : List τ) : Prop extends Core idleTask s queue where
  before : s.rescheduled = false →
    s.sched.currentTask = idleTask ∧ s.sched.state idleTask = .initial ∧ s.booted = false
  after : s.rescheduled = true → s.sched.state s.sched.currentTask = .running

variable {idleTask} {s : Tasking τ} {queue : List τ} {t : τ} {caller : Caller}

theorem bootSection_range (idleTask : τ) (s : Tasking τ) (t : τ) : 0 ≤ s.bootSection idleTask t ∧ s.bootSection idleTask t ≤ 1 := by
  simp only [Tasking.bootSection]
  split <;> decide

/-! ### `task_reschedule` -/

theorem Core.mem_waiting (core : Core idleTask s queue) : t ∈ waiting s.sched queue ↔ s.created t = true ∧
    (s.sched.state t = .ready ∨ t = s.sched.currentTask ∧ s.sched.state t = .running) := by
  simp only [waiting]
  split
  · rename_i running
    rw [List.mem_append, List.mem_singleton, core.ready]
    constructor
    · intro member
      rcases member with ⟨created, ready⟩ | rfl
      · exact ⟨created, .inl ready⟩
      · exact ⟨core.current_created, .inr ⟨rfl, running⟩⟩
    · intro asked
      obtain ⟨created, ready | ⟨own, -⟩⟩ := asked
      · exact .inl ⟨created, ready⟩
      · exact .inr own
  · rename_i idle
    rw [core.ready]
    constructor
    · intro asked
      obtain ⟨created, ready⟩ := asked
      exact ⟨created, .inl ready⟩
    · intro asked
      obtain ⟨created, ready | ⟨own, running⟩⟩ := asked
      · exact ⟨created, ready⟩
      · rw [own] at running
        exact absurd running idle

theorem Core.waiting_nodup (core : Core idleTask s queue) : (waiting s.sched queue).Nodup := by
  have nodup := core.queueIs.nodup
  simp only [waiting]
  split
  · rename_i running
    rw [List.nodup_append]
    refine ⟨nodup, List.nodup_singleton _, ?_⟩
    intro a member b own
    rw [List.mem_singleton.mp own]
    intro same
    rw [same, core.ready, running] at member
    exact absurd member.2 (by decide)
  · exact nodup

theorem headD_cases {α : Type} (l : List α) (d : α) : l.headD d ∈ l ∨ (l = [] ∧ l.headD d = d) := by
  cases l with
  | nil => exact .inr ⟨rfl, rfl⟩
  | cons n rest => exact .inl List.mem_cons_self

theorem mem_tail_iff {α : Type} {l : List α} {d x : α} (nodup : l.Nodup) : x ∈ l.tail ↔ x ∈ l ∧ x ≠ l.headD d := by
  cases l with
  | nil => simp
  | cons a l =>
    have fresh := (List.nodup_cons.mp nodup).1
    simp only [List.tail_cons, List.mem_cons, List.headD_cons]
    constructor
    · intro member
      refine ⟨.inr member, ?_⟩
      intro same
      subst same
      exact fresh member
    · intro ⟨either, ne⟩
      exact either.resolve_left ne

theorem Core.next_alive (core : Core idleTask s queue) :
    s.created ((waiting s.sched queue).headD idleTask) = true ∧
      s.sched.state ((waiting s.sched queue).headD idleTask) ≠ .dead := by
  rcases headD_cases (waiting s.sched queue) idleTask with member | ⟨-, idle⟩
  · obtain ⟨created, either⟩ := core.mem_waiting.mp member
    refine ⟨created, ?_⟩
    rcases either with ready | ⟨-, running⟩
    · rw [ready]
      decide
    · rw [running]
      decide
  · rw [idle]
    exact ⟨core.idle_created, core.idle_alive⟩

theorem Switched.dead_iff {s s' : Sched τ} {next : τ} (switched : Switched s s' next caller)
    (alive : s.state next ≠ .dead) (t : τ) : s'.state t = .dead ↔ s.state t = .dead := by
  rw [switched.state]
  split
  · rename_i same
    subst same
    exact ⟨fun h => absurd h (by decide), fun h => absurd h alive⟩
  · split
    · rename_i left
      rw [left.2]
      exact ⟨fun h => absurd h (by decide), fun h => absurd h (by decide)⟩
    · rfl

theorem Switched.others {s s' : Sched τ} {next t : τ} (switched : Switched s s' next caller) (ne : t ≠ next) :
    (t = s.currentTask ∧ s.state t = .running ∧ s'.state t = .ready) ∨
      (¬ (t = s.currentTask ∧ s.state t = .running) ∧ s'.state t = s.state t) := by
  rw [switched.state, if_neg ne]
  by_cases left : t = s.currentTask ∧ s.state t = .running
  · exact .inl ⟨left.1, left.2, if_pos left⟩
  · exact .inr ⟨left, if_neg left⟩

/-- The next task leaves the critical section in which it was switched off, or stays in its own. -/
theorem Core.next_count (core : Core idleTask s queue) {s' : Sched τ} {next : τ} (switched : Switched s.sched s' next caller)
    (created : s.created next = true) (alive : s.sched.state next ≠ .dead) :
    s'.count next = s.held next + s.bootSection idleTask next := by
  rw [switched.count, if_pos rfl]
  by_cases same : next = s.sched.currentTask
  · rw [if_pos same]
    have inside := core.inside (same ▸ alive)
    rw [← same] at inside
    omega
  · rw [if_neg same]
    have outside := core.outside next created alive same
    omega

section

variable {s' : Sched τ} {next : τ}

theorem Core.ready_switched (core : Core idleTask s queue)
    (switched : Switched s.sched s' ((waiting s.sched queue).headD idleTask) caller) (t : τ) :
    t ∈ (waiting s.sched queue).tail ↔ s.created t = true ∧ s'.state t = .ready := by
  rw [mem_tail_iff (d := idleTask) core.waiting_nodup, core.mem_waiting]
  constructor
  · intro ⟨⟨created, either⟩, ne⟩
    refine ⟨created, ?_⟩
    rcases switched.others ne with ⟨-, -, ready⟩ | ⟨stays, kept⟩
    · exact ready
    · exact kept.trans (either.resolve_right stays)
  · intro ⟨created, ready⟩
    have ne : t ≠ (waiting s.sched queue).headD idleTask := by
      intro same
      rw [switched.state, if_pos same] at ready
      cases ready
    rcases switched.others ne with ⟨left, running, -⟩ | ⟨-, kept⟩
    · exact ⟨⟨created, .inr ⟨left, running⟩⟩, ne⟩
    · exact ⟨⟨created, .inl (kept.symm.trans ready)⟩, ne⟩

theorem Core.running_switched (core : Core idleTask s queue) (switched : Switched s.sched s' next caller)
    (created : s.created t = true) (running : s'.state t = .running) : t = next := by
  by_contra ne
  rcases switched.others ne with ⟨-, -, ready⟩ | ⟨stays, kept⟩
  · exact absurd (running.symm.trans ready) (by decide)
  · have before := kept.symm.trans running
    exact stays ⟨core.running t created before, before⟩

theorem Switched.begun (switched : Switched s.sched s' next caller) (begun : s.sched.state t ≠ .initial) :
    s'.state t ≠ .initial := by
  by_cases ne : t = next
  · rw [switched.state, if_pos ne]
    decide
  · rcases switched.others ne with ⟨-, -, ready⟩ | ⟨-, kept⟩
    · rw [ready]
      decide
    · rw [kept]
      exact begun

theorem Core.resume_switched (core : Core idleTask s queue) (switched : Switched s.sched s' next caller)
    (own : caller = .exit → s.sched.state s.sched.currentTask = .dead) (created : s.created t = true)
    (alive : s.sched.state t ≠ .dead) (ne : t ≠ next) : s'.resume t ≠ .afterSwitch .exit := by
  rw [switched.resume]
  split
  · rename_i moved
    intro same
    cases caller with
    | yield => cases same
    | exit =>
      rw [moved.2] at alive
      exact alive (own rfl)
  · rename_i stays
    apply core.resume t created alive
    intro left
    apply stays
    exact ⟨fun same => ne (left.trans same.symm), left⟩

theorem Core.outside_switched (core : Core idleTask s queue) (switched : Switched s.sched s' next caller)
    (created : s.created t = true) (alive : s.sched.state t ≠ .dead) (ne : t ≠ next) :
    s'.count t = s.held t + 1 + s.bootSection idleTask t := by
  rw [switched.count, if_neg ne]
  by_cases left : t = s.sched.currentTask
  · rw [if_pos left]
    have inside := core.inside (left ▸ alive)
    rw [← left] at inside
    omega
  · rw [if_neg left]
    have outside := core.outside t created alive left
    omega

theorem Core.dead_switched (core : Core idleTask s queue) (switched : Switched s.sched s' next caller)
    (created : s.created t = true) (dead : s.sched.state t = .dead) (ne : t ≠ next) :
    0 ≤ s'.count t ∧ s'.count t ≤ maxDepth + 2 := by
  have bounds := core.dead t created dead
  rw [switched.count, if_neg ne]
  split at bounds
  · rename_i left
    rw [if_pos left]
    omega
  · rename_i left
    rw [if_neg left]
    omega

theorem Core.flag_switched (core : Core idleTask s queue) (switched : Switched s.sched s' next caller) :
    s'.interruptFlag = decide (s'.count next = 0) := by
  rw [switched.flag]
  split
  · rename_i zero
    exact (decide_eq_true zero).symm
  · rename_i positive
    rw [decide_eq_false positive, core.flag]
    split
    · rfl
    · rename_i nonzero
      rw [decide_eq_false]
      omega

end

theorem Core.reschedule (core : Core idleTask s queue) (caller : Caller) (notReady : s.sched.state s.sched.currentTask ≠ .ready)
    (own : caller = .exit → s.sched.state s.sched.currentTask = .dead ∧ s.sched.currentTask ≠ idleTask) :
    SchedInv idleTask { s with sched := taskReschedule idleTask s.sched caller, rescheduled := true }
      (waiting s.sched queue).tail := by
  obtain ⟨ring', switched⟩ := taskReschedule_spec idleTask caller core.queueIs (by
    intro _ member
    exact notReady ((core.ready _).mp member).2)
  obtain ⟨created, alive⟩ := core.next_alive
  have ready := core.ready_switched switched
  generalize (waiting s.sched queue).headD idleTask = next at switched created alive
  generalize taskReschedule idleTask s.sched caller = s' at ring' switched ready ⊢
  have deadKept := switched.dead_iff alive
  have current : s'.currentTask = next := switched.currentTask
  have nextState : s'.state next = .running := by rw [switched.state, if_pos rfl]
  have aliveBefore {t : τ} (aliveT : s'.state t ≠ .dead) : s.sched.state t ≠ .dead := fun h => aliveT ((deadKept t).mpr h)
  constructor
  case toCore =>
    constructor
    case queueIs => exact ring'
    case ready => exact ready
    case current_created => exact current.symm ▸ created
    case idle_created => exact core.idle_created
    case idle_alive => exact fun h => core.idle_alive ((deadKept idleTask).mp h)
    case running =>
      intro t createdT running
      exact (core.running_switched switched createdT running).trans current.symm
    case kept =>
      intro t startedT
      obtain ⟨createdT, begun⟩ := core.kept t startedT
      exact ⟨createdT, switched.begun begun⟩
    case resume =>
      intro t createdT aliveT ne
      exact core.resume_switched switched (fun exit => (own exit).1) createdT (aliveBefore aliveT)
        fun same => ne (same.trans current.symm)
    case reached =>
      show s'.unreachable = false
      rw [switched.unreachable, core.reached, Bool.false_or, decide_eq_false_iff_not, landing]
      split
      · rename_i same
        intro exit
        cases exit
        exact alive (same ▸ (own rfl).1)
      · rename_i ne
        exact core.resume next created alive ne
    case outside =>
      intro t createdT aliveT ne
      exact core.outside_switched switched createdT (aliveBefore aliveT) fun same => ne (same.trans current.symm)
    case inside =>
      intro _
      show s'.count s'.currentTask = s.held s'.currentTask + s.bootSection idleTask s'.currentTask
      rw [current]
      exact core.next_count switched created alive
    case dead =>
      intro t createdT deadT
      show 0 ≤ s'.count t ∧ s'.count t + (if t = s'.currentTask then 1 else 0) ≤ maxDepth + 2
      have deadBefore := (deadKept t).mp deadT
      have ne : t ≠ next := fun same => alive (same ▸ deadBefore)
      rw [current, if_neg ne, Int.add_zero]
      exact core.dead_switched switched createdT deadBefore ne
    case flag =>
      show s'.interruptFlag = decide (s'.count s'.currentTask = 0)
      rw [current]
      exact core.flag_switched switched
    case depth => exact core.depth
  case before =>
    intro none
    cases none
  case after =>
    intro _
    show s'.state s'.currentTask = .running
    rw [current, nextState]

/-! ### The other operations -/

theorem SchedInv.current_cases (inv : SchedInv idleTask s queue) :
    s.sched.state s.sched.currentTask = .running ∨
      (s.sched.currentTask = idleTask ∧ s.sched.state s.sched.currentTask = .initial) := by
  cases h : s.rescheduled with
  | false =>
    obtain ⟨idle, initial, -⟩ := inv.before h
    exact .inr ⟨idle, idle ▸ initial⟩
  | true => exact .inl (inv.after h)

theorem SchedInv.current_alive (inv : SchedInv idleTask s queue) : s.sched.state s.sched.currentTask ≠ .dead ∧
    s.sched.state s.sched.currentTask ≠ .ready := by
  rcases inv.current_cases with running | ⟨-, initial⟩
  · rw [running]
    decide
  · rw [initial]
    decide

theorem SchedInv.reschedule (inv : SchedInv idleTask s queue) :
    SchedInv idleTask (s.apply idleTask .reschedule) (waiting s.sched queue).tail :=
  inv.toCore.reschedule .yield inv.current_alive.2 fun exit => by cases exit

theorem SchedInv.inside_range (inv : SchedInv idleTask s queue) : 0 ≤ s.sched.count s.sched.currentTask ∧
    s.sched.count s.sched.currentTask ≤ maxDepth := by
  have inside := inv.inside inv.current_alive.1
  have boot := bootSection_range idleTask s s.sched.currentTask
  have depth := inv.depth _ inv.current_created
  omega

/-- `task_exit` up to its `task_reschedule`. -/
def dying (s : Sched τ) : Sched τ := (enterCriticalSection s).setState (enterCriticalSection s).currentTask .dead

theorem state_dying (s : Sched τ) (t : τ) : (dying s).state t = if t = s.currentTask then .dead else s.state t := by
  have same := enter_same s
  rw [dying, state_setState, same.currentTask, same.state]

theorem dying_dead (s : Sched τ) : (dying s).state (dying s).currentTask = .dead := by
  have current : (dying s).currentTask = s.currentTask := (enter_same s).currentTask
  rw [state_dying, current, if_pos rfl]

theorem count_dying (s : Sched τ) (t : τ) :
    (dying s).count t = if t = s.currentTask then s.count t + 1 else s.count t := by
  rw [dying, count_setState, count_enter]

theorem SchedInv.dying (inv : SchedInv idleTask s queue) (notIdle : s.sched.currentTask ≠ idleTask) :
    Core idleTask { s with sched := Tasks.dying s.sched } queue := by
  have same := enter_same s.sched
  have current : (Tasks.dying s.sched).currentTask = s.sched.currentTask := same.currentTask
  have states := state_dying s.sched
  have counts := count_dying s.sched
  have range := inv.inside_range
  have absent : s.sched.currentTask ∉ queue := fun member => inv.current_alive.2 ((inv.ready _).mp member).2
  generalize hd : Tasks.dying s.sched = d at current states counts
  constructor
  case queueIs => exact hd ▸ inv.queueIs.same same.prevOf same.nextOf
  case ready =>
    intro t
    show t ∈ queue ↔ s.created t = true ∧ d.state t = .ready
    rw [inv.ready, states]
    split
    · rename_i own
      subst own
      constructor
      · exact fun ⟨_, ready⟩ => absurd ready inv.current_alive.2
      · exact fun ⟨_, ready⟩ => absurd ready (by decide)
    · rfl
  case current_created => exact current.symm ▸ inv.current_created
  case idle_created => exact inv.idle_created
  case idle_alive =>
    show d.state idleTask ≠ .dead
    rw [states, if_neg (Ne.symm notIdle)]
    exact inv.idle_alive
  case running =>
    intro t created running
    show t = d.currentTask
    have running' : d.state t = .running := running
    rw [states] at running'
    rw [current]
    split at running'
    · assumption
    · exact inv.running t created running'
  case kept =>
    intro t started
    obtain ⟨created, begun⟩ := inv.kept t started
    refine ⟨created, ?_⟩
    show d.state t ≠ .initial
    rw [states]
    split
    · decide
    · exact begun
  case resume =>
    intro t created alive ne
    have ne' : t ≠ s.sched.currentTask := fun own => ne (own.trans current.symm)
    have alive' : d.state t ≠ .dead := alive
    rw [states, if_neg ne'] at alive'
    have resumes : d.resume = s.sched.resume := hd ▸ same.resume
    show d.resume t ≠ _
    rw [resumes]
    exact inv.resume t created alive' ne'
  case reached =>
    have unreached : d.unreachable = s.sched.unreachable := hd ▸ same.unreachable
    exact unreached.trans inv.reached
  case outside =>
    intro t created alive ne
    have ne' : t ≠ s.sched.currentTask := fun own => ne (own.trans current.symm)
    have alive' : d.state t ≠ .dead := alive
    rw [states, if_neg ne'] at alive'
    show d.count t = s.held t + 1 + s.bootSection idleTask t
    rw [counts, if_neg ne']
    exact inv.outside t created alive' ne'
  case inside =>
    intro alive
    have dead : d.state d.currentTask = .dead := by rw [states, current, if_pos rfl]
    exact absurd dead alive
  case dead =>
    intro t created dead
    show 0 ≤ d.count t ∧ d.count t + (if t = d.currentTask then 1 else 0) ≤ maxDepth + 2
    rw [counts, current]
    by_cases own : t = s.sched.currentTask
    · subst own
      simp only [ite_true]
      omega
    · have dead' : d.state t = .dead := dead
      rw [states, if_neg own] at dead'
      have bounds := inv.dead t created dead'
      simp only [if_neg own] at bounds ⊢
      exact bounds
  case flag =>
    have flag : d.interruptFlag = (enterCriticalSection s.sched).interruptFlag := by rw [← hd]; rfl
    show d.interruptFlag = decide (d.count d.currentTask = 0)
    have positive : decide (s.sched.count s.sched.currentTask + 1 = 0) = false := decide_eq_false (by omega)
    rw [flag, flag_enter, counts, current, if_pos rfl, inv.flag, positive]
    split
    · rfl
    · exact decide_eq_false (by omega)
  case depth => exact inv.depth

theorem waiting_dying (s : Sched τ) (queue : List τ) : waiting (dying s) queue = queue := by
  unfold waiting
  rw [dying_dead, if_neg (by decide)]

theorem SchedInv.exit (inv : SchedInv idleTask s queue) (notIdle : s.sched.currentTask ≠ idleTask) :
    SchedInv idleTask (s.apply idleTask .exit) queue.tail := by
  have core := inv.dying notIdle
  have current : (Tasks.dying s.sched).currentTask = s.sched.currentTask := (enter_same s.sched).currentTask
  have dead := dying_dead s.sched
  have left := core.reschedule .exit (by
    show (Tasks.dying s.sched).state (Tasks.dying s.sched).currentTask ≠ .ready
    rw [dead]
    decide) fun _ => ⟨dead, by
      show (Tasks.dying s.sched).currentTask ≠ idleTask
      rw [current]
      exact notIdle⟩
  have line : waiting (Tasks.dying s.sched) queue = queue := waiting_dying s.sched queue
  rw [line] at left
  exact left

end

end ThreeX86.Tasks
