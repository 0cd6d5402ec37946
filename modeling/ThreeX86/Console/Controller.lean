import ThreeX86.Console.Keyboard
import ThreeX86.Tasks.Reschedule

/-!
The waits and commands of the i8042 controller in `hw/keyboard.c`. The controller is any state machine
behind its registers.
-/

namespace ThreeX86.Console

open Machine Tasks

def i8042StrAuxdata : Byte := 0x20#8
def i8042StrIbf : Byte := 0x02#8
def i8042CtlTimeout : Nat := 500

structure I8042 (κ : Type) where
  readStatus : κ → Byte × κ
  readData : κ → Byte × κ
  writeData : κ → Byte → κ
  writeCommand : κ → Byte → κ
  delay : κ → κ

inductive PortEvent where
  | waited (timedOut : Bool)
  | command (val : Byte)
  | sent (val : Byte)
  | received (auxdata : Bool) (val : Byte)
deriving DecidableEq, Repr

/-- What `i8042_command` works on; `param` is the buffer it is given. -/
structure Driver (τ κ : Type) where
  sched : Sched τ
  controller : κ
  param : Nat → Byte
  log : List PortEvent

section

variable {τ κ : Type} [DecidableEq τ] (c : I8042 κ)

/-! ### The code -/

/-- The loop of both waits from `i` on, with `I8042_CTL_TIMEOUT - i` given last. -/
def poll (ready : Byte → Bool) (k : κ) (i : Nat) : Nat → Nat × κ
  | 0 => (i, (c.readStatus k).2)
  | left + 1 =>
    let (status, k) := c.readStatus k
    if ready status then (i, k) else poll ready (c.delay k) (i + 1) left

def i8042WaitRead (k : κ) : Int × κ :=
  let (i, k) := poll c (fun status => ~~~status &&& i8042StrObf = 0#8) k 0 i8042CtlTimeout
  (if i = i8042CtlTimeout then -1 else 0, k)

def i8042WaitWrite (k : κ) : Int × κ :=
  let (i, k) := poll c (fun status => status &&& i8042StrIbf = 0#8) k 0 i8042CtlTimeout
  (if i = i8042CtlTimeout then -1 else 0, k)

namespace Driver

def waitWrite (d : Driver τ κ) : Int × Driver τ κ :=
  let (retval, k) := i8042WaitWrite c d.controller
  (retval, { d with controller := k, log := d.log ++ [.waited (retval ≠ 0)] })

def waitRead (d : Driver τ κ) : Int × Driver τ κ :=
  let (retval, k) := i8042WaitRead c d.controller
  (retval, { d with controller := k, log := d.log ++ [.waited (retval ≠ 0)] })

def writeCommand (d : Driver τ κ) (val : Byte) : Driver τ κ :=
  { d with controller := c.writeCommand d.controller val, log := d.log ++ [.command val] }

def writeData (d : Driver τ κ) (val : Byte) : Driver τ κ :=
  { d with controller := c.writeData d.controller val, log := d.log ++ [.sent val] }

def readParam (d : Driver τ κ) (i : Nat) : Driver τ κ :=
  let (status, k) := c.readStatus d.controller
  let auxdata := status &&& i8042StrAuxdata ≠ 0#8
  let (data, k) := c.readData k
  { d with
    controller := k
    param := Function.update d.param i (if auxdata then ~~~data else data)
    log := d.log ++ [.received auxdata data] }

end Driver

def writeParams (d : Driver τ κ) (i : Nat) : Nat → Int × Driver τ κ
  | 0 => (0, d)
  | left + 1 =>
    let (retval, d) := d.waitWrite c
    if retval ≠ 0 then (retval, d) else writeParams (d.writeData c (d.param i)) (i + 1) left

def readParams (d : Driver τ κ) (i : Nat) : Nat → Int × Driver τ κ
  | 0 => (0, d)
  | left + 1 =>
    let (retval, d) := d.waitRead c
    if retval ≠ 0 then (retval, d) else readParams (d.readParam c i) (i + 1) left

def i8042Command (d : Driver τ κ) (command : Word) : Int × Driver τ κ :=
  let d := { d with sched := enterCriticalSection d.sched }
  let (retval, d) := d.waitWrite c
  let d := if retval = 0 then d.writeCommand c ((command &&& 0xff#32).setWidth 8) else d
  let (retval, d) :=
    if retval = 0 then writeParams c d 0 (command.sshiftRight 12 &&& 0xf#32).toNat else (retval, d)
  let (retval, d) :=
    if retval = 0 then readParams c d 0 ((command &&& 0xf0#32).sshiftRight 8).toNat else (retval, d)
  (retval, { d with sched := exitCriticalSection d.sched })

/-! ### The protocol -/

def commandByte (command : Word) : Byte := (command &&& 0xff#32).setWidth 8
def sends (command : Word) : Nat := (command.sshiftRight 12 &&& 0xf#32).toNat
def receives (command : Word) : Nat := (command.sshiftRight 8 &&& 0xf#32).toNat

def PortEvent.transfer : PortEvent → Bool
  | .waited _ => false
  | _ => true

/-- What `param` holds once the bytes are read. -/
def stored (param : Nat → Byte) (received : List (Bool × Byte)) (i : Nat) : Byte :=
  match received[i]? with
  | some (auxdata, val) => if auxdata then ~~~val else val
  | none => param i

/-- A command as its word says, from driver state `d` to the result `r`. -/
structure Protocol (command : Word) (d : Driver τ κ) (r : Int × Driver τ κ) : Prop where
  count : ∀ t, r.2.sched.count t = d.sched.count t
  transfers : ∃ events, r.2.log = d.log ++ events ∧
    (PortEvent.waited true ∉ events → r.1 = 0 ∧ ∃ received : List (Bool × Byte),
      received.length = receives command ∧ r.2.param = stored d.param received ∧
      events.filter PortEvent.transfer = .command (commandByte command) ::
        (List.range (sends command)).map (fun i => .sent (d.param i)) ++ received.map fun p => .received p.1 p.2) ∧
    (PortEvent.waited true ∈ events → r.1 = -1 ∧ ∃ before, events = before ++ [.waited true] ∧ .waited true ∉ before)

/-- The waits before these writes all end in time. -/
def Accepts : κ → List (κ → κ) → Prop
  | _, [] => True
  | k, write :: rest => (i8042WaitWrite c k).1 = 0 ∧ Accepts (write (i8042WaitWrite c k).2) rest

def commandWrites (command : Word) (param : Nat → Byte) : List (κ → κ) :=
  (fun k => c.writeCommand k (commandByte command)) ::
    (List.range (sends command)).map fun i k => c.writeData k (param i)

/-! ### The code's transfers -/

theorem i8042WaitWrite_result (k : κ) : (i8042WaitWrite c k).1 = 0 ∨ (i8042WaitWrite c k).1 = -1 := by
  unfold i8042WaitWrite
  dsimp only
  split
  · exact Or.inr rfl
  · exact Or.inl rfl

/-- The mask takes the bits that the shift brings down. -/
theorem readBack_eq (command : Word) : ((command &&& 0xf0#32).sshiftRight 8).toNat = 0 := by
  have small : (command &&& 0xf0#32).toNat ≤ 0xf0 := by
    rw [BitVec.toNat_and]
    exact Nat.and_le_right
  have positive : (command &&& 0xf0#32).msb = false := by
    rw [BitVec.msb_eq_decide]
    exact decide_eq_false (by omega)
  rw [BitVec.toNat_sshiftRight_of_msb_false positive, Nat.shiftRight_eq_div_pow]
  omega

omit [DecidableEq τ] in
theorem Driver.waitWrite_ready {d : Driver τ κ} (ready : (i8042WaitWrite c d.controller).1 = 0) :
    d.waitWrite c =
      (0, { d with controller := (i8042WaitWrite c d.controller).2, log := d.log ++ [.waited false] }) := by
  unfold Driver.waitWrite
  simp only [ready, ne_eq, not_true_eq_false, decide_false]

omit [DecidableEq τ] in
theorem Driver.waitWrite_timeout {d : Driver τ κ} (late : (i8042WaitWrite c d.controller).1 ≠ 0) :
    d.waitWrite c =
      (-1, { d with controller := (i8042WaitWrite c d.controller).2, log := d.log ++ [.waited true] }) := by
  have result := (i8042WaitWrite_result c d.controller).resolve_left late
  unfold Driver.waitWrite
  simp only [result, show decide ((-1 : Int) ≠ 0) = true from rfl]

def paramWrites (param : Nat → Byte) (i left : Nat) : List (κ → κ) :=
  (List.range' i left).map fun j k => c.writeData k (param j)

omit [DecidableEq τ] in
theorem writeParams_accepts (left : Nat) {i : Nat} {d : Driver τ κ}
    (accepts : Accepts c d.controller (paramWrites c d.param i left)) :
    ∃ events k, writeParams c d i left = (0, { d with controller := k, log := d.log ++ events }) ∧
      PortEvent.waited true ∉ events ∧
      events.filter PortEvent.transfer = (List.range' i left).map fun j => .sent (d.param j) := by
  induction left generalizing i d with
  | zero =>
    refine ⟨[], d.controller, ?_, List.not_mem_nil, rfl⟩
    rw [writeParams, List.append_nil]
  | succ left ih =>
    obtain ⟨ready, rest⟩ := accepts
    rw [writeParams, Driver.waitWrite_ready c ready]
    dsimp only
    rw [if_neg (not_not.mpr rfl)]
    obtain ⟨events, k, run, never, sent⟩ := ih (d := ⟨d.sched, c.writeData (i8042WaitWrite c d.controller).2 (d.param i),
      d.param, d.log ++ [.waited false] ++ [.sent (d.param i)]⟩) rest
    refine ⟨.waited false :: .sent (d.param i) :: events, k, ?_, ?_, ?_⟩
    · refine Eq.trans run ?_
      simp
    · simp [never]
    · rw [List.range'_succ, List.map_cons, ← sent]
      rfl

omit [DecidableEq τ] in
theorem writeParams_late (left : Nat) {i : Nat} {d : Driver τ κ}
    (late : ¬ Accepts c d.controller (paramWrites c d.param i left)) :
    ∃ before k, writeParams c d i left = (-1, { d with controller := k, log := d.log ++ (before ++ [.waited true]) }) ∧
      PortEvent.waited true ∉ before := by
  induction left generalizing i d with
  | zero => exact absurd trivial late
  | succ left ih =>
    rw [writeParams]
    by_cases ready : (i8042WaitWrite c d.controller).1 = 0
    · rw [Driver.waitWrite_ready c ready]
      dsimp only
      rw [if_neg (not_not.mpr rfl)]
      obtain ⟨before, k, run, never⟩ := ih (d := ⟨d.sched, c.writeData (i8042WaitWrite c d.controller).2 (d.param i),
        d.param, d.log ++ [.waited false] ++ [.sent (d.param i)]⟩) fun rest => late ⟨ready, rest⟩
      refine ⟨.waited false :: .sent (d.param i) :: before, k, ?_, by simp [never]⟩
      refine Eq.trans run ?_
      simp
    · rw [Driver.waitWrite_timeout c ready]
      refine ⟨[], (i8042WaitWrite c d.controller).2, ?_, List.not_mem_nil⟩
      exact if_pos (by decide)

/-- The code reads nothing back, whatever the command. -/
theorem i8042Command_eq (d : Driver τ κ) (command : Word) :
    i8042Command c d command =
      let (retval, d) := Driver.waitWrite c { d with sched := enterCriticalSection d.sched }
      let d := if retval = 0 then d.writeCommand c (commandByte command) else d
      let (retval, d) := if retval = 0 then writeParams c d 0 (sends command) else (retval, d)
      (retval, { d with sched := exitCriticalSection d.sched }) := by
  have none (r : Int × Driver τ κ) :
      (if r.1 = 0 then readParams c r.2 0 ((command &&& 0xf0#32).sshiftRight 8).toNat else (r.1, r.2)) = r := by
    rw [readBack_eq]
    split
    · next zero => exact Prod.ext zero.symm rfl
    · rfl
  unfold i8042Command
  dsimp only
  rw [none]
  rfl

/-- A command is sent in full, and nothing is read back. -/
theorem i8042Command_accepts {d : Driver τ κ} {command : Word}
    (accepts : Accepts c d.controller (commandWrites c command d.param)) :
    ∃ events k, i8042Command c d command =
        (0, ⟨exitCriticalSection (enterCriticalSection d.sched), k, d.param, d.log ++ events⟩) ∧
      PortEvent.waited true ∉ events ∧
      events.filter PortEvent.transfer = .command (commandByte command) ::
        (List.range (sends command)).map fun i => .sent (d.param i) := by
  obtain ⟨ready, rest⟩ := accepts
  rw [List.range_eq_range'] at rest
  let entered : Driver τ κ := { d with sched := enterCriticalSection d.sched }
  have wait := Driver.waitWrite_ready c (d := entered) ready
  let started : Driver τ κ := Driver.writeCommand c
    ⟨entered.sched, (i8042WaitWrite c entered.controller).2, entered.param, entered.log ++ [.waited false]⟩
    (commandByte command)
  obtain ⟨events, k, run, never, sent⟩ := writeParams_accepts c (sends command) (d := started) rest
  refine ⟨.waited false :: .command (commandByte command) :: events, k, ?_, ?_, ?_⟩
  · rw [i8042Command_eq, wait]
    dsimp only
    rw [if_pos rfl, if_pos rfl, show writeParams c (Driver.writeCommand c _ _) 0 _ = _ from run]
    simp [started, Driver.writeCommand, entered]
  · simp [never]
  · rw [List.range_eq_range']
    exact congrArg (PortEvent.command (commandByte command) :: ·) sent

theorem i8042Command_late {d : Driver τ κ} {command : Word}
    (late : ¬ Accepts c d.controller (commandWrites c command d.param)) :
    ∃ before k, i8042Command c d command = (-1, ⟨exitCriticalSection (enterCriticalSection d.sched), k, d.param,
        d.log ++ (before ++ [.waited true])⟩) ∧
      PortEvent.waited true ∉ before := by
  let entered : Driver τ κ := { d with sched := enterCriticalSection d.sched }
  rw [i8042Command_eq]
  by_cases ready : (i8042WaitWrite c d.controller).1 = 0
  · have wait := Driver.waitWrite_ready c (d := entered) ready
    rw [wait]
    dsimp only
    let started : Driver τ κ := Driver.writeCommand c
      ⟨entered.sched, (i8042WaitWrite c entered.controller).2, entered.param, entered.log ++ [.waited false]⟩
      (commandByte command)
    have rest : ¬ Accepts c started.controller (paramWrites c started.param 0 (sends command)) := by
      intro rest
      unfold paramWrites at rest
      rw [← List.range_eq_range'] at rest
      exact late ⟨ready, rest⟩
    obtain ⟨before, k, run, never⟩ := writeParams_late c (sends command) rest
    refine ⟨.waited false :: .command (commandByte command) :: before, k, ?_, by simp [never]⟩
    rw [if_pos rfl, if_pos rfl, show writeParams c (Driver.writeCommand c _ _) 0 _ = _ from run]
    simp [started, Driver.writeCommand, entered]
  · have wait := Driver.waitWrite_timeout c (d := entered) ready
    rw [wait]
    dsimp only
    refine ⟨[], (i8042WaitWrite c d.controller).2, ?_, List.not_mem_nil⟩
    rw [if_neg (by decide), if_neg (by decide)]
    rfl

theorem count_command (s : Sched τ) (t : τ) :
    (exitCriticalSection (enterCriticalSection s)).count t = s.count t := by
  rw [count_exit, count_enter, (enter_same s).currentTask]
  split <;> omega

/-- The command goes as its word says exactly when nothing is to be read back, or a write waits too long. -/
theorem protocol_iff (d : Driver τ κ) (command : Word) :
    Protocol command d (i8042Command c d command) ↔
      receives command = 0 ∨ ¬ Accepts c d.controller (commandWrites c command d.param) := by
  by_cases accepts : Accepts c d.controller (commandWrites c command d.param)
  · obtain ⟨events, k, run, never, sent⟩ := i8042Command_accepts c accepts
    rw [run]
    constructor
    · rintro ⟨count, events', log, success, timeout⟩
      obtain rfl : events = events' := List.append_cancel_left log
      obtain ⟨retval, received, amount, param, transfers⟩ := success never
      rw [sent, List.cons_append, List.cons.injEq] at transfers
      have none : received = [] := by simpa using transfers.2
      left
      rw [← amount, none]
      rfl
    · intro condition
      have none := condition.resolve_right (not_not.mpr accepts)
      refine ⟨count_command d.sched, events, rfl, ?_, ?_⟩
      · intro _
        refine ⟨rfl, [], none.symm, rfl, ?_⟩
        rw [sent, List.map_nil, List.append_nil]
      · intro late
        exact absurd late never
  · obtain ⟨before, k, run, never⟩ := i8042Command_late c accepts
    rw [run]
    refine iff_of_true ?_ (Or.inr accepts)
    refine ⟨count_command d.sched, before ++ [.waited true], rfl, ?_, ?_⟩
    · intro none
      exact absurd (List.mem_append_right _ (List.mem_singleton_self _)) none
    · intro _
      exact ⟨rfl, before, rfl, never⟩

end

/-- A controller with a byte to read, and room for every byte written. -/
def readyController : I8042 Unit where
  readStatus := fun _ => (i8042StrObf, ())
  readData := fun _ => (0x45#8, ())
  writeData := fun _ _ => ()
  writeCommand := fun _ _ => ()
  delay := fun _ => ()

def idleDriver : Driver Unit Unit where
  sched := ⟨fun _ => .null, fun _ => .null, fun _ => ⟨.running, 0, 0#32, 0#32, 0#32, 0#32, 0#32⟩, (), true,
    fun _ => .trampoline, false⟩
  controller := ()
  param := fun _ => 0#8
  log := []

/-- `I8042_CMD_CTL_RCTR` reads nothing back. -/
theorem not_protocol_rctr : ¬ Protocol 0x0120#32 idleDriver (i8042Command readyController idleDriver 0x0120#32) := by
  have log : (i8042Command readyController idleDriver 0x0120#32).2.log = [.waited false, .command 0x20#8] := by decide
  rintro ⟨count, events, whole, success, timeout⟩
  rw [log] at whole
  obtain rfl : [.waited false, .command 0x20#8] = events := whole
  obtain ⟨retval, received, amount, param, transfers⟩ := success (by decide)
  have one : received.length = 1 := amount
  have lengths := congrArg List.length transfers
  rw [List.length_append, List.length_map, one] at lengths
  exact absurd lengths (by decide)

/-! ### What the waits report -/

def outputFull (status : Byte) : Prop := status &&& i8042StrObf ≠ 0#8
def inputEmpty (status : Byte) : Prop := status &&& i8042StrIbf = 0#8

/-- A controller whose status reads give `seq` in turn. Its state is what was read so far. -/
def recorder (seq : Nat → Byte) : I8042 (List Byte) where
  readStatus := fun polled => (seq polled.length, polled ++ [seq polled.length])
  readData := fun polled => (0#8, polled)
  writeData := fun polled _ => polled
  writeCommand := fun polled _ => polled
  delay := id

/-- A wait's verdict `r.1` says what it polled, `r.2`. -/
structure Reports (ready : Byte → Prop) (r : Int × List Byte) : Prop where
  bounded : r.2.length ≤ i8042CtlTimeout + 1
  success : r.1 = 0 ↔ ∃ last ∈ r.2.getLast?, ready last
  timeout : r.1 = -1 ↔ ∀ status ∈ r.2, ¬ ready status

/-- The first ready status is the one read after the last delay. -/
def ReadyAtLimit (ready : Byte → Prop) (seq : Nat → Byte) : Prop :=
  ready (seq i8042CtlTimeout) ∧ ∀ i < i8042CtlTimeout, ¬ ready (seq i)

def statuses (seq : Nat → Byte) (n : Nat) : List Byte := (List.range n).map seq

@[simp]
theorem statuses_length (seq : Nat → Byte) (n : Nat) : (statuses seq n).length = n := by
  unfold statuses
  rw [List.length_map, List.length_range]

theorem statuses_succ (seq : Nat → Byte) (n : Nat) : statuses seq (n + 1) = statuses seq n ++ [seq n] := by
  unfold statuses
  rw [List.range_succ, List.map_append, List.map_singleton]

theorem mem_statuses {seq : Nat → Byte} {n : Nat} {status : Byte} :
    status ∈ statuses seq n ↔ ∃ i < n, seq i = status := by
  unfold statuses
  simp

theorem recorder_readStatus (seq : Nat → Byte) (n : Nat) :
    (recorder seq).readStatus (statuses seq n) = (seq n, statuses seq (n + 1)) := by
  rw [statuses_succ]
  unfold recorder
  simp only [statuses_length]

/-- The loop stops at the first ready status, or with its counter at the limit. -/
theorem poll_recorder (seq : Nat → Byte) (ready : Byte → Bool) (i left : Nat) :
    ∃ n ≤ left, poll (recorder seq) ready (statuses seq i) i left = (i + n, statuses seq (i + n + 1)) ∧
      (∀ j < n, ready (seq (i + j)) = false) ∧ (n = left ∨ ready (seq (i + n)) = true) := by
  induction left generalizing i with
  | zero =>
    refine ⟨0, le_refl 0, ?_, fun j below => absurd below (Nat.not_lt_zero j), Or.inl rfl⟩
    rw [poll, recorder_readStatus]
    rfl
  | succ left ih =>
    rw [poll, recorder_readStatus]
    dsimp only
    by_cases now : ready (seq i) = true
    · rw [if_pos now]
      exact ⟨0, Nat.zero_le _, rfl, fun j below => absurd below (Nat.not_lt_zero j), Or.inr now⟩
    · rw [if_neg now, show (recorder seq).delay (statuses seq (i + 1)) = statuses seq (i + 1) from rfl]
      obtain ⟨n, bound, run, before, stop⟩ := ih (i + 1)
      rw [show i + 1 + n = i + (n + 1) by omega] at run stop
      refine ⟨n + 1, Nat.succ_le_succ bound, run, ?_, stop.imp (congrArg Nat.succ) id⟩
      intro j below
      cases j with
      | zero => exact eq_false_of_ne_true now
      | succ j =>
        rw [show i + (j + 1) = i + 1 + j by omega]
        exact before j (by omega)

theorem i8042WaitRead_eq {κ : Type} (c : I8042 κ) (k : κ) :
    i8042WaitRead c k =
      let polled := poll c (fun status => ~~~status &&& i8042StrObf = 0#8) k 0 i8042CtlTimeout
      (if polled.1 = i8042CtlTimeout then -1 else 0, polled.2) := rfl

theorem i8042WaitWrite_eq {κ : Type} (c : I8042 κ) (k : κ) :
    i8042WaitWrite c k =
      let polled := poll c (fun status => status &&& i8042StrIbf = 0#8) k 0 i8042CtlTimeout
      (if polled.1 = i8042CtlTimeout then -1 else 0, polled.2) := rfl

/-- The verdict is off only where readiness and the limit coincide. -/
theorem reports_iff (seq : Nat → Byte) (ready : Byte → Bool) (holds : Byte → Prop)
    (decides : ∀ status, ready status = true ↔ holds status) :
    Reports holds (if (poll (recorder seq) ready [] 0 i8042CtlTimeout).1 = i8042CtlTimeout then -1 else 0,
        (poll (recorder seq) ready [] 0 i8042CtlTimeout).2) ↔ ¬ ReadyAtLimit holds seq := by
  obtain ⟨n, bound, run, before, stop⟩ := poll_recorder seq ready 0 i8042CtlTimeout
  rw [show statuses seq 0 = [] from rfl] at run
  rw [run]
  simp only [Nat.zero_add] at before stop ⊢
  have last : (statuses seq (n + 1)).getLast? = some (seq n) := by
    rw [statuses_succ, List.getLast?_append, List.getLast?_singleton, Option.some_or]
  have missed (j : Nat) (below : j < n) : ¬ holds (seq j) := by
    intro holding
    exact Bool.false_ne_true ((before j below).symm.trans ((decides _).mpr holding))
  by_cases full : n = i8042CtlTimeout
  · rw [if_pos full]
    unfold ReadyAtLimit
    rw [← full]
    constructor
    · intro reports limit
      have success : (-1 : Int) = 0 := reports.success.mpr ⟨_, last, limit.1⟩
      exact absurd success (by decide)
    · intro free
      have late : ¬ holds (seq n) := fun holding => free ⟨holding, missed⟩
      refine ⟨?_, iff_of_false (show (-1 : Int) ≠ 0 by decide) ?_, iff_of_true rfl ?_⟩
      · rw [statuses_length]
        exact Nat.succ_le_succ bound
      · intro ⟨status, final, holding⟩
        rw [last] at final
        obtain rfl := Option.some.inj final
        exact late holding
      · intro status polled
        obtain ⟨j, below, rfl⟩ := mem_statuses.mp polled
        cases Nat.lt_succ_iff_lt_or_eq.mp below with
        | inl earlier => exact missed j earlier
        | inr final =>
          rw [final]
          exact late
  · have now : holds (seq n) := (decides _).mp (stop.resolve_left full)
    rw [if_neg full]
    refine iff_of_true ⟨?_, iff_of_true rfl ⟨seq n, last, now⟩, iff_of_false (show (0 : Int) ≠ -1 by decide) ?_⟩ ?_
    · rw [statuses_length]
      omega
    · intro never
      exact never (seq n) (mem_statuses.mpr ⟨n, Nat.lt_succ_self n, rfl⟩) now
    · intro limit
      exact limit.2 n (by omega) now

theorem outputFull_iff (status : Byte) :
    decide (~~~status &&& i8042StrObf = 0#8) = true ↔ outputFull status := by
  unfold outputFull i8042StrObf
  rw [decide_eq_true_iff]
  revert status
  decide

/-- Both waits report what they saw exactly when no status is first ready at the limit. -/
theorem waits_report_iff (seq : Nat → Byte) :
    (Reports outputFull (i8042WaitRead (recorder seq) []) ↔ ¬ ReadyAtLimit outputFull seq) ∧
    (Reports inputEmpty (i8042WaitWrite (recorder seq) []) ↔ ¬ ReadyAtLimit inputEmpty seq) := by
  constructor
  · rw [i8042WaitRead_eq]
    exact reports_iff seq _ outputFull outputFull_iff
  · rw [i8042WaitWrite_eq]
    refine reports_iff seq _ inputEmpty fun status => ?_
    rw [decide_eq_true_iff]
    rfl

/-- The output buffer fills just before the last poll. -/
def lateByte (i : Nat) : Byte := if i < i8042CtlTimeout then 0#8 else i8042StrObf

theorem lateByte_at_limit : ReadyAtLimit outputFull lateByte := by
  unfold ReadyAtLimit lateByte
  rw [if_neg (Nat.lt_irrefl _)]
  refine ⟨show i8042StrObf &&& i8042StrObf ≠ 0#8 by decide, ?_⟩
  intro i below
  rw [if_pos below]
  exact show ¬ (0#8 &&& i8042StrObf ≠ 0#8) by decide

/-- The last status shows a full buffer, and the wait reports a timeout. -/
theorem not_reports_lateByte : ¬ Reports outputFull (i8042WaitRead (recorder lateByte) []) := by
  rw [i8042WaitRead_eq, reports_iff lateByte _ outputFull outputFull_iff]
  exact not_not.mpr lateByte_at_limit

end ThreeX86.Console
