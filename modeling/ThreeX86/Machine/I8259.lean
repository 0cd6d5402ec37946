import Mathlib.Data.Fin.Tuple.Basic
import ThreeX86.Machine.Memory

/-!
The pair of 8259A interrupt controllers of a PC: edge triggered and fully nested, the second one behind line 2 of the first.
-/

namespace Machine

/-- What the next byte for the data port is. -/
inductive I8259.Stage where
  | icw2
  | icw3
  | icw4
  | operational
deriving DecidableEq, Repr

structure I8259 where
  irr : Fin 8 → Bool
  isr : Fin 8 → Bool
  imr : Byte
  icw1 : Byte
  icw2 : Byte
  icw3 : Byte
  icw4 : Byte
  stage : I8259.Stage

namespace I8259

/-- The first line of a register has the highest priority. -/
def first (lines : Fin 8 → Bool) : Option (Fin 8) := Fin.find? lines

def endOfInterrupt (c : I8259) : I8259 :=
  match first c.isr with
  | some i => { c with isr := Function.update c.isr i false }
  | none => c

/-- A byte for the command port: the start of an initialisation, or the end of an interrupt, no line named.
    Nothing is said of the other commands, nor of what is in service when an initialisation starts. -/
def writeCommand (c : I8259) (v : Byte) : I8259 :=
  if v.getLsbD 4 then
    { c with irr := fun _ => false, imr := 0#8, icw1 := v, icw4 := if v.getLsbD 0 then c.icw4 else 0#8, stage := .icw2 }
  else if v &&& 0xf8#8 = 0x20#8 then c.endOfInterrupt
  else c

def afterIcw3 (icw1 : Byte) : Stage := if icw1.getLsbD 0 then .icw4 else .operational

def writeData (c : I8259) (v : Byte) : I8259 :=
  match c.stage with
  | .icw2 => { c with icw2 := v, stage := if c.icw1.getLsbD 1 then afterIcw3 c.icw1 else .icw3 }
  | .icw3 => { c with icw3 := v, stage := afterIcw3 c.icw1 }
  | .icw4 => { c with icw4 := v, stage := .operational }
  | .operational => { c with imr := v }

def readData (c : I8259) : Byte := c.imr

def raise (c : I8259) (i : Fin 8) : I8259 := { c with irr := Function.update c.irr i true }

/-- The line that the controller has an interrupt for: unmasked, and of higher priority than all in service. -/
def request (c : I8259) : Option (Fin 8) :=
  if c.stage = .operational then
    match first fun i => c.irr i && !c.imr.getLsbD i, first c.isr with
    | some i, none => some i
    | some i, some j => if i < j then some i else none
    | none, _ => none
  else none

/-- The processor acknowledges line `i`. -/
def accept (c : I8259) (i : Fin 8) : I8259 :=
  { c with
    irr := Function.update c.irr i false
    isr := if c.icw4.getLsbD 1 then c.isr else Function.update c.isr i true }

def vector (c : I8259) (i : Fin 8) : Byte := (c.icw2 &&& 0xf8#8) + BitVec.ofNat 8 i

end I8259

structure Pics where
  master : I8259
  slave : I8259

namespace Pics

/-- The second controller's output is line 2 of the first. -/
def wired (p : Pics) : I8259 := { p.master with irr := Function.update p.master.irr 2 p.slave.request.isSome }

/-- The two acknowledge cycles, with the vector that the processor reads; a controller answers in 8086 mode only, and the
    second one where the first has its line down as a cascade and the second knows its number. -/
def acknowledge (p : Pics) : Option (Byte × Pics) := do
  let i ← p.wired.request
  if ¬ p.master.icw4.getLsbD 0 then none
  else if i = 2 ∧ p.master.icw3.getLsbD 2 ∧ ¬ p.master.icw1.getLsbD 1 then
    let j ← p.slave.request
    if p.slave.icw4.getLsbD 0 ∧ p.slave.icw3 &&& 7#8 = 2#8 then
      return (p.slave.vector j, ⟨p.master.accept 2, p.slave.accept j⟩)
    else none
  else return (p.master.vector i, { p with master := p.master.accept i })

end Pics

/-! ### An idle controller -/

namespace I8259

variable {c : I8259} {i : Fin 8}

def Idle (c : I8259) : Prop := ∀ i, c.isr i = false

theorem first_eq_some {lines : Fin 8 → Bool} : first lines = some i ↔ lines i = true ∧ ∀ j < i, lines j = false :=
  Fin.find?_eq_some_iff

theorem first_eq_none {lines : Fin 8 → Bool} : first lines = none ↔ ∀ i, lines i = false := Fin.find?_eq_none_iff

theorem writeData_operational (ready : c.stage = .operational) (v : Byte) : c.writeData v = { c with imr := v } := by
  rw [writeData]
  split <;> simp_all

theorem Idle.request (idle : c.Idle) (ready : c.stage = .operational) :
    c.request = first fun i => c.irr i && !c.imr.getLsbD i := by
  have nothing : first c.isr = none := first_eq_none.mpr idle
  rw [I8259.request, if_pos ready, nothing]
  cases first fun i => c.irr i && !c.imr.getLsbD i <;> rfl

/-- Where nothing is in service, the end of an interrupt has no effect. -/
theorem Idle.endOfInterrupt (idle : c.Idle) : c.endOfInterrupt = c := by
  have nothing : first c.isr = none := first_eq_none.mpr idle
  rw [I8259.endOfInterrupt, nothing]

/-- What has been acknowledged is what the next end of an interrupt ends. -/
theorem Idle.accept_end (idle : c.Idle) (normal : c.icw4.getLsbD 1 = false) :
    (c.accept i).endOfInterrupt = { c with irr := Function.update c.irr i false } := by
  have inService : first (Function.update c.isr i true) = some i := by
    rw [first_eq_some]
    refine ⟨Function.update_self _ _ _, fun j before => ?_⟩
    rw [Function.update_of_ne (Fin.ne_of_lt before)]
    exact idle j
  have ended : Function.update (Function.update c.isr i true) i false = c.isr := by
    rw [Function.update_idem, Function.update_eq_self_iff]
    exact (idle i).symm
  simp only [accept, normal, Bool.false_eq_true, ite_false, I8259.endOfInterrupt, inService, ended]

end I8259

end Machine
