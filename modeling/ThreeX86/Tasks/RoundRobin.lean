import ThreeX86.Tasks.Guarantees

namespace ThreeX86.Tasks

open Machine ThreeX86.Lists Linked Sched Transition

/-! The order in which the ready tasks become current. -/

section

variable {τ : Type} [DecidableEq τ] (idleTask : τ)

/-- Whether a call goes through `task_reschedule`. -/
def TaskOp.reschedules : TaskOp τ → Bool
  | .reschedule | .exit => true
  | _ => false

def turns (labels : List (TaskOp τ)) : Nat := labels.countP TaskOp.reschedules

/-- Whether a call is a `task_start` that succeeds. -/
def Tasking.starts (s : Tasking τ) : TaskOp τ → Bool
  | .start t => (taskStart s.sched t).1 = 0
  | _ => false

/-- The successful `task_start` calls among those made from `s` on. -/
def Tasking.startsIn (s : Tasking τ) : List (TaskOp τ) → Nat
  | [] => 0
  | op :: labels => (if s.starts op then 1 else 0) + (s.apply idleTask op).startsIn labels

/-- The next reschedule is the one that a task at position `k` waits for. -/
def Tasking.Due (s : Tasking τ) (k : Nat) (labels : List (TaskOp τ)) : Prop :=
  turns labels + 1 = k + s.startsIn idleTask labels + 1

/-- The tasks that a reschedule has to choose from, head first. -/
def TaskOp.lineUp (s : Tasking τ) (queue : List τ) : TaskOp τ → List τ
  | .exit => queue
  | _ => waiting s.sched queue

def TaskOp.queueAfter (s : Tasking τ) (queue : List τ) (op : TaskOp τ) : List τ :=
  if op.reschedules then (op.lineUp s queue).tail
  else match op with
    | .start t => if s.sched.state t = .initial then t :: queue else queue
    | _ => queue

variable {idleTask} {s s' s'' : Tasking τ} {queue : List τ} {t : τ} {op : TaskOp τ} {labels : List (TaskOp τ)} {k : Nat}

/-! ### One call -/

theorem SchedInv.starts_iff (inv : SchedInv idleTask s queue) (t : τ) : s.starts (.start t) = true ↔ s.sched.state t = .initial := by
  unfold Tasking.starts
  rw [decide_eq_true_iff]
  constructor
  · intro success
    by_contra begun
    rw [taskStart_refused inv.flag begun] at success
    exact absurd success (show ¬ (-1 : Int) = 0 by decide)
  · intro fresh
    have absent : t ∉ queue := by
      rw [inv.ready, fresh]
      exact fun h => absurd h.2 (by decide)
    obtain ⟨d, started, -⟩ := taskStart_spec s.sched fresh inv.queueIs absent inv.flag
    rw [started]

theorem SchedInv.moves (inv : SchedInv idleTask s queue) (allowed : s.Allowed idleTask op) :
    SchedInv idleTask (s.apply idleTask op) (op.queueAfter s queue) := by
  cases op with
  | create t entry arg stack stackSize =>
    obtain ⟨notIdle, notCurrent, absent⟩ := allowed
    exact inv.create entry arg stack stackSize notIdle notCurrent (absent queue inv.queueIs)
  | start t => exact inv.start allowed.1 allowed.2
  | reschedule => exact inv.reschedule
  | exit => exact inv.exit allowed
  | enter => exact inv.enter allowed
  | leave => exact inv.leave allowed
  | becomeIdle => exact inv.becomeIdle allowed.1 allowed.2.1 allowed.2.2

theorem SchedInv.chosen (inv : SchedInv idleTask s queue) (allowed : s.Allowed idleTask op) (reschedules : op.reschedules = true) :
    (s.apply idleTask op).sched.currentTask = (op.lineUp s queue).headD idleTask := by
  cases op with
  | reschedule =>
    exact (taskReschedule_spec idleTask .yield inv.queueIs fun _ member => inv.current_alive.2 ((inv.ready _).mp member).2).2.currentTask
  | exit =>
    have core := inv.dying allowed
    have line : waiting (Tasks.dying s.sched) queue = queue := waiting_dying s.sched queue
    have switched := (taskReschedule_spec idleTask .exit core.queueIs fun running =>
      absurd ((dying_dead s.sched).symm.trans running) (by decide)).2.currentTask
    dsimp only at switched
    rw [line] at switched
    exact switched
  | create | start | enter | leave | becomeIdle => cases reschedules

omit [DecidableEq τ] in
theorem lineUp_prefix (op : TaskOp τ) (s : Tasking τ) (queue : List τ) : queue <+: op.lineUp s queue := by
  have front : queue <+: waiting s.sched queue := by
    unfold waiting
    split
    · exact List.prefix_append _ _
    · exact List.prefix_rfl
  cases op with
  | exit => exact List.prefix_rfl
  | create | start | reschedule | enter | leave | becomeIdle => exact front

/-- A reschedule chooses the task at the head of the queue, and moves every other one up. -/
theorem SchedInv.turn (inv : SchedInv idleTask s queue) (allowed : s.Allowed idleTask op) (reschedules : op.reschedules = true)
    (at_ : queue[k]? = some t) :
    (k = 0 → (s.apply idleTask op).sched.currentTask = t) ∧ (k ≠ 0 → (op.queueAfter s queue)[k - 1]? = some t) := by
  have line : (op.lineUp s queue)[k]? = some t := by
    obtain ⟨rest, whole⟩ := lineUp_prefix op s queue
    rw [← whole, List.getElem?_append_left (List.getElem?_eq_some_iff.mp at_).1]
    exact at_
  constructor
  · intro head
    rw [head] at line
    rw [inv.chosen allowed reschedules, List.headD_eq_head?_getD, List.head?_eq_getElem?, line]
    rfl
  · intro later
    unfold TaskOp.queueAfter
    rw [if_pos reschedules, List.getElem?_tail, Nat.sub_add_cancel (Nat.pos_of_ne_zero later)]
    exact line

/-- Any other call leaves the task where it is, unless one is started in front of it. -/
theorem SchedInv.stay (inv : SchedInv idleTask s queue) (others : op.reschedules = false) (at_ : queue[k]? = some t) :
    (op.queueAfter s queue)[k + if s.starts op then 1 else 0]? = some t := by
  unfold TaskOp.queueAfter
  rw [if_neg (by rw [others]; decide)]
  cases op with
  | start u =>
    dsimp only
    by_cases fresh : s.sched.state u = .initial
    · rw [if_pos fresh, if_pos ((inv.starts_iff u).mpr fresh), List.getElem?_cons_succ]
      exact at_
    · rw [if_neg fresh, if_neg fun success => fresh ((inv.starts_iff u).mp success)]
      exact at_
  | reschedule => cases others
  | exit => cases others
  | create | enter | leave | becomeIdle => exact at_

theorem SchedInv.ready_off (inv : SchedInv idleTask s queue) (at_ : queue[k]? = some t) : s.sched.currentTask ≠ t := by
  intro same
  have ready := ((inv.ready t).mp (List.mem_of_getElem? at_)).2
  rw [← same] at ready
  exact inv.current_alive.2 ready

/-! ### Whole runs -/

omit [DecidableEq τ] in
theorem turns_append (labels labels' : List (TaskOp τ)) : turns (labels ++ labels') = turns labels + turns labels' :=
  List.countP_append

theorem startsIn_append (run : Run (Tasking.Step idleTask) s labels s') (labels' : List (TaskOp τ)) :
    s.startsIn idleTask (labels ++ labels') = s.startsIn idleTask labels + s'.startsIn idleTask labels' := by
  induction run generalizing labels' with
  | nil => rw [List.nil_append, Tasking.startsIn, Nat.zero_add]
  | @snoc s' _ labels op _ last ih =>
    obtain ⟨-, rfl⟩ := last
    rw [List.append_assoc, List.singleton_append, ih, ih [op], Tasking.startsIn, Tasking.startsIn, Tasking.startsIn, Nat.add_zero,
      Nat.add_assoc]

/-- Until the reschedule it waits for, a task moves up by one at every reschedule and down by one at every start. -/
theorem SchedInv.waits (inv : SchedInv idleTask s queue) (at_ : queue[k]? = some t)
    (run : Run (Tasking.Step idleTask) s labels s')
    (early : ∀ pre op post, labels = pre ++ op :: post → op.reschedules = true → ¬ s.Due idleTask k pre) :
    ∃ queue', SchedInv idleTask s' queue' ∧ turns labels ≤ k + s.startsIn idleTask labels ∧
      queue'[k + s.startsIn idleTask labels - turns labels]? = some t := by
  induction run with
  | nil => exact ⟨queue, inv, Nat.zero_le _, at_⟩
  | @snoc s' s'' labels op run last ih =>
    obtain ⟨allowed, rfl⟩ := last
    obtain ⟨queue', inv', most, place⟩ := ih fun pre op' post same => early pre op' (post ++ [op]) (by rw [same]; simp)
    have starts : s.startsIn idleTask (labels ++ [op]) = s.startsIn idleTask labels + if s'.starts op then 1 else 0 := by
      rw [startsIn_append run, Tasking.startsIn, Tasking.startsIn, Nat.add_zero]
    refine ⟨_, inv'.moves allowed, ?_⟩
    rw [turns_append, starts]
    by_cases reschedules : op.reschedules = true
    · have one : turns [op] = 1 := by rw [turns, List.countP_singleton, if_pos reschedules]
      have none : s'.starts op = false := by cases op <;> first | rfl | cases reschedules
      have waits := early labels op [] rfl reschedules
      unfold Tasking.Due at waits
      have next := (inv'.turn allowed reschedules place).2 (by omega)
      rw [one, none]
      refine ⟨by simp; omega, ?_⟩
      rw [show k + (s.startsIn idleTask labels + if false = true then 1 else 0) - (turns labels + 1) =
        k + s.startsIn idleTask labels - turns labels - 1 by simp; omega]
      exact next
    · have zero : turns [op] = 0 := by rw [turns, List.countP_singleton, if_neg reschedules]
      have next := inv'.stay (Bool.eq_false_iff.mpr reschedules) place
      rw [zero, Nat.add_zero]
      refine ⟨by omega, ?_⟩
      rw [show k + (s.startsIn idleTask labels + if s'.starts op then 1 else 0) - turns labels =
        k + s.startsIn idleTask labels - turns labels + if s'.starts op then 1 else 0 by omega]
      exact next

theorem SchedInv.due_iff (inv : SchedInv idleTask s queue) (at_ : queue[k]? = some t)
    (run : Run (Tasking.Step idleTask) s labels s')
    (early : ∀ pre op post, labels = pre ++ op :: post → op.reschedules = true → ¬ s.Due idleTask k pre)
    (allowed : s'.Allowed idleTask op) (reschedules : op.reschedules = true) :
    (s'.apply idleTask op).sched.currentTask = t ↔ s.Due idleTask k labels := by
  obtain ⟨queue', inv', most, place⟩ := inv.waits at_ run early
  obtain ⟨first, later⟩ := inv'.turn allowed reschedules place
  unfold Tasking.Due
  constructor
  · intro current
    by_contra other
    exact (inv'.moves allowed).ready_off (later (by omega)) current
  · intro due
    exact first (by omega)

theorem startsIn_reschedules (all : ∀ op ∈ labels, op.reschedules = true) (s : Tasking τ) : s.startsIn idleTask labels = 0 := by
  induction labels generalizing s with
  | nil => rfl
  | cons op labels ih =>
    have none : s.starts op = false := by
      have reschedules := all op List.mem_cons_self
      cases op <;> first | rfl | cases reschedules
    rw [Tasking.startsIn, none, ih fun op member => all op (List.mem_cons_of_mem _ member)]
    rfl

/-- With reschedules only, the ready tasks become current in the order of the queue. -/
theorem SchedInv.round (inv : SchedInv idleTask s queue) (run : Run (Tasking.Step idleTask) s labels s')
    (all : ∀ op ∈ labels, op.reschedules = true) (nonempty : labels ≠ []) (short : labels.length ≤ queue.length) :
    queue[labels.length - 1]? = some s'.sched.currentTask := by
  have count (pre : List (TaskOp τ)) (inside : ∀ op ∈ pre, op ∈ labels) : turns pre = pre.length ∧ s.startsIn idleTask pre = 0 :=
    ⟨List.countP_eq_length.mpr fun op member => all op (inside op member),
      startsIn_reschedules (fun op member => all op (inside op member)) s⟩
  cases run with
  | nil => exact absurd rfl nonempty
  | @snoc s' _ labels op run last =>
    obtain ⟨allowed, rfl⟩ := last
    rw [List.length_append, List.length_singleton] at short
    have place := List.getElem?_eq_getElem short
    obtain ⟨turns_, starts⟩ := count labels fun op member => List.mem_append_left _ member
    have early : ∀ pre op' post, labels = pre ++ op' :: post → op'.reschedules = true → ¬ s.Due idleTask labels.length pre := by
      intro pre op' post same _ due
      obtain ⟨turns_, starts⟩ := count pre fun op member => List.mem_append_left _ (by rw [same]; exact List.mem_append_left _ member)
      unfold Tasking.Due at due
      rw [turns_, starts, same, List.length_append, List.length_cons] at due
      omega
    have current := (inv.due_iff place run early allowed (all op (by simp))).mpr (by
      unfold Tasking.Due
      rw [turns_, starts, Nat.add_zero])
    rw [current, List.length_append, List.length_singleton, Nat.add_sub_cancel]
    exact place

/-- A task at position `k` of the run queue becomes current at the first reschedule with number `k + s + 1`, `s` tasks
    having been started before it, and not earlier. Without a start the ready tasks and then the current one take turns. -/
theorem run_queue_order (reached : Tasking.Reached idleTask s) (ring : QueueIs s.sched queue) :
    (∀ k t labels s', queue[k]? = some t → Run (Tasking.Step idleTask) s labels s' →
      (∀ pre op post, labels = pre ++ op :: post → op.reschedules = true → ¬ s.Due idleTask k pre) →
        s'.sched.currentTask ≠ t ∧ ∀ op s'', Tasking.Step idleTask s' op s'' → op.reschedules = true →
          (s''.sched.currentTask = t ↔ s.Due idleTask k labels)) ∧
    (s.sched.currentTask :: queue).Nodup ∧
    (∀ labels s', Run (Tasking.Step idleTask) s labels s' → (∀ op ∈ labels, op.reschedules = true) → labels ≠ [] →
      labels.length ≤ queue.length → queue[labels.length - 1]? = some s'.sched.currentTask) ∧
    (s.sched.state s.sched.currentTask = .running → ∀ labels s',
      Run (Tasking.Step idleTask) (s.apply idleTask .reschedule) labels s' → (∀ op ∈ labels, op.reschedules = true) →
        labels.length = queue.length → s'.sched.currentTask = s.sched.currentTask) := by
  obtain ⟨queue', inv⟩ := reached.inv
  cases inv.queueIs.unique ring
  refine ⟨?_, ?_, fun labels s' run all nonempty short => inv.round run all nonempty short, ?_⟩
  · intro k t labels s' at_ run early
    obtain ⟨queue', inv', -, place⟩ := inv.waits at_ run early
    refine ⟨inv'.ready_off place, ?_⟩
    intro op s'' step reschedules
    obtain ⟨allowed, rfl⟩ := step
    exact inv.due_iff at_ run early allowed reschedules
  · refine List.nodup_cons.mpr ⟨?_, inv.queueIs.nodup⟩
    intro member
    exact inv.current_alive.2 ((inv.ready _).mp member).2
  · intro running labels s' run all length
    have line : waiting s.sched queue = queue ++ [s.sched.currentTask] := if_pos running
    cases queue with
    | nil =>
      have none : labels = [] := List.length_eq_zero_iff.mp length
      subst none
      rw [run.eq_of_nil]
      have chosen := inv.chosen (show s.Allowed idleTask .reschedule from trivial) rfl
      rw [show TaskOp.reschedule.lineUp s [] = waiting s.sched [] from rfl, line] at chosen
      exact chosen
    | cons t queue =>
      have moved := inv.reschedule
      rw [line, List.cons_append, List.tail_cons] at moved
      rw [List.length_cons] at length
      have current := moved.round run all (fun none => by rw [none] at length; cases length) (by rw [List.length_append, List.length_singleton]; omega)
      rw [length, Nat.add_sub_cancel, List.getElem?_concat_length] at current
      exact (Option.some.inj current).symm

end

/-- Task 1, created and started while the idle task runs. -/
def oneStarted : Tasking Nat := [.reschedule, .create 1 0 0 8192 4096, .start 1].foldl (Tasking.apply 0) zeroBoot

theorem oneStarted_reached : Tasking.Reached 0 oneStarted := by
  have idle := zeroBoot_reached.apply .reschedule trivial
  have created := idle.apply (.create 1 0 0 8192 4096) ⟨by decide, by decide, idle.absent rfl⟩
  exact created.apply (.start 1) ⟨rfl, by decide⟩

theorem run_queue_order_oneStarted : (oneStarted.apply 0 .reschedule).sched.currentTask = 1 := by
  have ring : QueueIs oneStarted.sched [1] := ⟨⟨rfl, rfl, rfl, rfl, trivial⟩, by decide⟩
  have waits := (run_queue_order oneStarted_reached ring).1 0 1 [] oneStarted rfl (.nil _) (by simp)
  exact (waits.2 .reschedule _ ⟨trivial, rfl⟩ rfl).mpr rfl

end ThreeX86.Tasks
