import ThreeX86.Tasks.Operations

namespace ThreeX86.Tasks

open Machine ThreeX86.Lists Linked Sched Transition

/-! What tasks can rely on in every run. -/

section

variable {τ : Type} [DecidableEq τ] {idleTask : τ} {s s' : Tasking τ} {queue : List τ} {t : τ} {op : TaskOp τ}

def TaskOp.Creates (op : TaskOp τ) (t : τ) : Prop :=
  ∃ entry arg stack stackSize, op = .create t entry arg stack stackSize

theorem SchedInv.dead_step (inv : SchedInv idleTask s queue) (allowed : s.Allowed idleTask op)
    (others : ¬ op.Creates t) (created : s.created t = true) (dead : s.sched.state t = .dead) :
    (s.apply idleTask op).created t = true ∧ (s.apply idleTask op).sched.state t = .dead := by
  cases op with
  | create u entry arg stack stackSize =>
    have ne : t ≠ u := by
      intro same
      subst same
      exact others ⟨entry, arg, stack, stackSize, rfl⟩
    refine ⟨(Function.update_of_ne ne _ _).trans created, ?_⟩
    have states := (taskCreate_spec s.sched u entry arg stack stackSize).2.state t
    rw [if_neg ne] at states
    exact states.trans dead
  | start u =>
    refine ⟨created, ?_⟩
    show (taskStart s.sched u).2.state t = .dead
    by_cases fresh : s.sched.state u = .initial
    · have absent : u ∉ queue := by
        rw [inv.ready, fresh]
        exact fun h => absurd h.2 (by decide)
      obtain ⟨d, started, -, states, -⟩ := taskStart_spec s.sched fresh inv.queueIs absent inv.flag
      have ne : t ≠ u := by
        intro same
        rw [same, fresh] at dead
        cases dead
      rw [started, states, if_neg ne]
      exact dead
    · rw [taskStart_refused inv.flag fresh]
      exact dead
  | reschedule =>
    refine ⟨created, ?_⟩
    have switched := (taskReschedule_spec idleTask .yield inv.queueIs fun running => by
      rw [inv.ready, running]
      exact fun h => absurd h.2 (by decide)).2
    exact (switched.dead_iff inv.toCore.next_alive.2 t).mpr dead
  | exit =>
    refine ⟨created, ?_⟩
    have core := inv.dying allowed
    have own := dying_dead s.sched
    have switched := (taskReschedule_spec idleTask .exit core.queueIs fun running => by
      rw [own] at running
      cases running).2
    refine (switched.dead_iff core.next_alive.2 t).mpr ?_
    rw [state_dying]
    split
    · rfl
    · exact dead
  | enter => exact ⟨created, ((enter_same s.sched).state t).trans dead⟩
  | leave => exact ⟨created, ((exit_same s.sched).state t).trans dead⟩
  | becomeIdle => exact ⟨created, ((exit_same s.sched).state t).trans dead⟩

theorem SchedInv.dead_off (inv : SchedInv idleTask s queue) (dead : s.sched.state t = .dead) :
    t ∉ queue ∧ t ≠ s.sched.currentTask := by
  constructor
  · rw [inv.ready, dead]
    exact fun h => absurd h.2 (by decide)
  · intro same
    rw [same] at dead
    exact inv.current_alive.1 dead

theorem SchedInv.dead_run {labels : List (TaskOp τ)} (inv : SchedInv idleTask s queue)
    (run : Run (Tasking.Step idleTask) s labels s') (others : ∀ op ∈ labels, ¬ op.Creates t)
    (created : s.created t = true) (dead : s.sched.state t = .dead) :
    s'.sched.state t = .dead ∧ ∃ queue', QueueIs s'.sched queue' ∧ t ∉ queue' ∧ t ≠ s'.sched.currentTask := by
  have final : (∃ queue', SchedInv idleTask s' queue') ∧ s'.created t = true ∧ s'.sched.state t = .dead := by
    apply run.invariant fun s =>
      (∃ queue, SchedInv idleTask s queue) ∧ s.created t = true ∧ s.sched.state t = .dead
    · exact ⟨⟨queue, inv⟩, created, dead⟩
    · intro s op s' member before step
      obtain ⟨⟨queue, inv⟩, created, dead⟩ := before
      obtain ⟨allowed, rfl⟩ := step
      exact ⟨inv.step allowed, inv.dead_step allowed (others op member) created dead⟩
  obtain ⟨⟨queue', inv'⟩, -, dead'⟩ := final
  exact ⟨dead', queue', inv'.queueIs, inv'.dead_off dead'⟩

/-- The scheduler's states in every run from `task_init` on. -/
theorem scheduler_state (reached : Tasking.Reached idleTask s) :
    ∃ queue, QueueIs s.sched queue ∧ queue.Nodup ∧
      (∀ t, t ∈ queue ↔ s.created t = true ∧ s.sched.state t = .ready) ∧
      (s.rescheduled = true → s.sched.state s.sched.currentTask = .running ∧
        ∀ t, s.created t = true → s.sched.state t = .running → t = s.sched.currentTask) ∧
      (∀ t, s.sched.state t ≠ .initial → taskStart s.sched t = (-1, s.sched)) ∧
      (∀ t, s.created t = true → s.sched.state t = .dead → ∀ labels s', Run (Tasking.Step idleTask) s labels s' →
        (∀ op ∈ labels, ¬ op.Creates t) → s'.sched.state t = .dead ∧
          ∃ queue', QueueIs s'.sched queue' ∧ t ∉ queue' ∧ t ≠ s'.sched.currentTask) ∧
      s.sched.unreachable = false ∧
      ∀ t, s.started t = true → t ∈ queue ∨ t = s.sched.currentTask ∨ s.sched.state t = .dead := by
  obtain ⟨queue, inv⟩ := reached.inv
  refine ⟨queue, inv.queueIs, inv.queueIs.nodup, inv.ready, ?_, ?_, ?_, inv.reached, ?_⟩
  · intro begun
    exact ⟨inv.after begun, inv.running⟩
  · intro t begun
    exact taskStart_refused inv.flag begun
  · intro t created dead labels s' run others
    exact inv.dead_run run others created dead
  · intro t started
    obtain ⟨created, begun⟩ := inv.kept t started
    cases state : s.sched.state t with
    | initial => exact absurd state begun
    | ready => exact .inl ((inv.ready t).mpr ⟨created, state⟩)
    | running => exact .inr (.inl (inv.running t created state))
    | dead => exact .inr (.inr rfl)

/-- The state `task_init` leaves when everything before it was zero. -/
def zeroBoot : Tasking Nat :=
  ⟨taskInit 0 ⟨fun _ => .null, fun _ => .null, fun _ => ⟨.initial, 0, 0, 0, 0, 0, 0⟩, 0, false, fun _ => .trampoline, false⟩ 0,
    fun t => decide (t = 0), fun _ => false, fun _ => 0, false, false⟩

theorem zeroBoot_reached : Tasking.Reached 0 zeroBoot := .base ⟨_, 0, rfl, rfl, rfl⟩

theorem Tasking.Reached.apply (reached : Tasking.Reached idleTask s) (op : TaskOp τ) (allowed : s.Allowed idleTask op) :
    Tasking.Reached idleTask (s.apply idleTask op) :=
  reached.next ⟨allowed, rfl⟩

theorem Tasking.Reached.absent (reached : Tasking.Reached idleTask s) (unborn : s.created t = false) (queue : List τ)
    (ring : QueueIs s.sched queue) : t ∉ queue := by
  intro member
  obtain ⟨queue', inv⟩ := reached.inv
  cases inv.queueIs.unique ring
  have created := ((inv.ready t).mp member).1
  rw [unborn] at created
  cases created

/-- The idle task starts two tasks and goes two critical sections deep; the first to run is switched off inside a
    section of its own, and the other one exits. -/
def twoStarted : Tasking Nat :=
  [.reschedule, .becomeIdle, .create 1 0 0 8192 4096, .start 1, .create 2 0 0 12288 4096, .start 2, .enter, .enter,
    .reschedule, .enter, .reschedule, .exit, .leave].foldl (Tasking.apply 0) zeroBoot

theorem twoStarted_reached : Tasking.Reached 0 twoStarted := by
  have idle := (zeroBoot_reached.apply .reschedule trivial).apply .becomeIdle (by unfold Tasking.Allowed; decide)
  have first := idle.apply (.create 1 0 0 8192 4096) ⟨by decide, by decide +kernel, idle.absent (by decide +kernel)⟩
  have ready := first.apply (.start 1) (by unfold Tasking.Allowed; decide +kernel)
  have second := ready.apply (.create 2 0 0 12288 4096) ⟨by decide, by decide +kernel, ready.absent (by decide +kernel)⟩
  have started := second.apply (.start 2) (by unfold Tasking.Allowed; decide +kernel)
  have entered := started.apply .enter (by unfold Tasking.Allowed; decide +kernel)
  have nested := entered.apply .enter (by unfold Tasking.Allowed; decide +kernel)
  have inside := (nested.apply .reschedule trivial).apply .enter (by unfold Tasking.Allowed; decide +kernel)
  have exited := (inside.apply .reschedule trivial).apply .exit (by unfold Tasking.Allowed; decide +kernel)
  exact exited.apply .leave (by unfold Tasking.Allowed; decide +kernel)

theorem scheduler_state_twoStarted : Tasking.Reached 0 twoStarted ∧ twoStarted.sched.currentTask = 0 ∧
    twoStarted.sched.state 0 = .running ∧ taskStart twoStarted.sched 1 = (-1, twoStarted.sched) ∧
    (∀ labels s', Run (Tasking.Step 0) twoStarted labels s' → (∀ op ∈ labels, ¬ op.Creates 1) → s'.sched.state 1 = .dead) ∧
    ∃ queue, QueueIs twoStarted.sched queue ∧ 1 ∉ queue ∧ 2 ∈ queue := by
  obtain ⟨queue, ring, -, ready, running, begun, dead, -, -⟩ := scheduler_state twoStarted_reached
  have exited : twoStarted.sched.state 1 = .dead := by decide +kernel
  have current : twoStarted.sched.currentTask = 0 := by decide +kernel
  have own := (running (by decide +kernel)).1
  rw [current] at own
  refine ⟨twoStarted_reached, current, own, ?_, ?_, queue, ring, ?_, ?_⟩
  · exact begun 1 (by rw [exited]; decide)
  · intro labels s' run others
    exact (dead 1 (by decide +kernel) exited labels s' run others).1
  · intro member
    rw [ready, exited] at member
    exact absurd member.2 (by decide)
  · exact (ready 2).mpr (by decide +kernel)

/-- The interrupt flag follows the current task's count, and whoever is switched out holds a section. -/
theorem interrupt_flag (reached : Tasking.Reached idleTask s) :
    s.sched.interruptFlag = decide (s.sched.count s.sched.currentTask = 0) ∧
      (∀ t, s.created t = true → 0 ≤ s.sched.count t ∧ s.sched.count t < 2^31) ∧
      ∀ t, s.created t = true → t ≠ s.sched.currentTask → s.sched.state t ≠ .dead → 1 ≤ s.sched.count t := by
  obtain ⟨queue, inv⟩ := reached.inv
  have others (t : τ) (created : s.created t = true) (ne : t ≠ s.sched.currentTask) (alive : s.sched.state t ≠ .dead) :
      1 ≤ s.sched.count t ∧ s.sched.count t ≤ maxDepth + 2 := by
    have outside := inv.outside t created alive ne
    have boot := bootSection_range idleTask s t
    have depth := inv.depth t created
    omega
  refine ⟨inv.flag, ?_, fun t created ne alive => (others t created ne alive).1⟩
  intro t created
  have limit : (maxDepth : Int) + 2 < 2^31 := by decide
  by_cases dead : s.sched.state t = .dead
  · have bounds := inv.dead t created dead
    split at bounds <;> omega
  · by_cases own : t = s.sched.currentTask
    · rw [own]
      have range := inv.inside_range
      omega
    · have bounds := others t created own dead
      omega

theorem interrupt_flag_twoStarted : Tasking.Reached 0 twoStarted ∧ twoStarted.sched.count 0 = 1 ∧
    twoStarted.sched.interruptFlag = false ∧ 1 ≤ twoStarted.sched.count 2 := by
  obtain ⟨flag, -, away⟩ := interrupt_flag twoStarted_reached
  have current : twoStarted.sched.currentTask = 0 := by decide +kernel
  have inside : twoStarted.sched.count 0 = 1 := by decide +kernel
  rw [current, inside] at flag
  exact ⟨twoStarted_reached, inside, flag, away 2 (by decide +kernel) (by decide +kernel) (by decide +kernel)⟩

end

end ThreeX86.Tasks
