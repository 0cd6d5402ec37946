import Mathlib.Data.Fintype.Basic
import Mathlib.Tactic.FinCases
import Mathlib.Tactic.SplitIfs
import ThreeX86.Machine.I8259

/-!
`hw/pic.c`: the driver of the interrupt controllers, and the sixteen lines it makes of the two of them.
-/

namespace ThreeX86.Hw

open Machine

def pic1Cmd : BitVec 16 := 0x20#16
def pic1Data : BitVec 16 := 0x21#16
def pic2Cmd : BitVec 16 := 0xa0#16
def pic2Data : BitVec 16 := 0xa1#16

def icw1Icw4 : Byte := 0x01#8
def icw1Init : Byte := 0x10#8
def icw48086 : Byte := 0x01#8
def picEoi : Byte := 0x20#8

def inp (p : Pics) (port : BitVec 16) : Byte :=
  if port = pic1Data then p.master.readData else if port = pic2Data then p.slave.readData else 0xff#8

def outp (p : Pics) (port : BitVec 16) (data : Byte) : Pics :=
  if port = pic1Cmd then { p with master := p.master.writeCommand data }
  else if port = pic1Data then { p with master := p.master.writeData data }
  else if port = pic2Cmd then { p with slave := p.slave.writeCommand data }
  else if port = pic2Data then { p with slave := p.slave.writeData data }
  else p

def ioWait (p : Pics) : Pics := outp p 0x80#16 0#8

def picRemap (offset1 offset2 : Byte) (p : Pics) : Pics :=
  let a1 := inp p pic1Data
  let a2 := inp p pic2Data
  let p := ioWait (outp p pic1Cmd (icw1Init ||| icw1Icw4))
  let p := ioWait (outp p pic2Cmd (icw1Init ||| icw1Icw4))
  let p := ioWait (outp p pic1Data offset1)
  let p := ioWait (outp p pic2Data offset2)
  let p := ioWait (outp p pic1Data 4#8)
  let p := ioWait (outp p pic2Data 2#8)
  let p := ioWait (outp p pic1Data icw48086)
  let p := ioWait (outp p pic2Data icw48086)
  let p := outp p pic1Data a1
  outp p pic2Data a2

def picInit (p : Pics) : Pics :=
  let p := picRemap 0x20#8 0x28#8 p
  let p := outp p pic1Data 0xff#8
  outp p pic2Data 0xff#8

/-- `1 << irq` is an `int`. -/
def picSetMask (p : Pics) (irq : Byte) (set : Bool) : Pics :=
  let (port, irq) := if irq < 8#8 then (pic1Data, irq) else (pic2Data, irq - 8#8)
  let bit : Word := 1#32 <<< irq.toNat
  let val := inp p port
  let val : Byte := if set then (val.setWidth 32 ||| bit).setWidth 8 else (val.setWidth 32 &&& ~~~ bit).setWidth 8
  outp p port val

def picSendEoi (p : Pics) (irq : Byte) : Pics :=
  let p := if irq ≥ 8#8 then outp p pic2Cmd picEoi else p
  outp p pic1Cmd picEoi

/-! ### Sixteen lines -/

/-- The lines of both controllers: which of them wait for their interrupt, and which are masked. -/
@[ext] structure Lines where
  pending : Fin 16 → Bool
  masked : Fin 16 → Bool

namespace Lines

/-- Lines 8 to 15 come in by way of line 2. -/
def Deliverable (l : Lines) (n : Fin 16) : Prop :=
  l.pending n = true ∧ l.masked n = false ∧ (8 ≤ n.val → l.masked 2 = false)

/-- The places in the order of priority, the second controller's lines between lines 1 and 3. -/
def rank (n : Fin 16) : Nat := if n.val < 2 then n else if 8 ≤ n.val then n - 6 else n + 8

/-- The deliverable line of highest priority. -/
def Next (l : Lines) (n : Fin 16) : Prop := l.Deliverable n ∧ ∀ k, l.Deliverable k → rank n ≤ rank k

def raise (l : Lines) (n : Fin 16) : Lines := { l with pending := Function.update l.pending n true }
def serve (l : Lines) (n : Fin 16) : Lines := { l with pending := Function.update l.pending n false }
def setMask (l : Lines) (n : Fin 16) (set : Bool) : Lines := { l with masked := Function.update l.masked n set }

end Lines

/-- Line `n` of the two controllers as a line of one of them. -/
def pin (n : Fin 16) : Fin 8 := ⟨n.val % 8, Nat.mod_lt _ (by decide)⟩

end ThreeX86.Hw

namespace Machine.Pics

open ThreeX86.Hw

def owner (p : Pics) (n : Fin 16) : I8259 := if n.val < 8 then p.master else p.slave

def lines (p : Pics) : Lines where
  pending n := (p.owner n).irr (pin n)
  masked n := (p.owner n).imr.getLsbD (pin n)

/-- A device raises its line. -/
def raise (p : Pics) (n : Fin 16) : Pics :=
  if n.val < 8 then { p with master := p.master.raise (pin n) } else { p with slave := p.slave.raise (pin n) }

end Machine.Pics

namespace ThreeX86.Hw

open Machine

/-- How `pic_init` leaves the two controllers, and what keeps them working: vectors from `0x20` and `0x28` on, the second one
    behind line 2, interrupts ended by command, and none in service. -/
structure Programmed (p : Pics) : Prop where
  operational : p.master.stage = .operational ∧ p.slave.stage = .operational
  vectors : p.master.icw2 = 0x20#8 ∧ p.slave.icw2 = 0x28#8
  cascade : p.master.icw1 = 0x11#8 ∧ p.master.icw3 = 4#8 ∧ p.slave.icw3 = 2#8
  normal : p.master.icw4 = icw48086 ∧ p.slave.icw4 = icw48086
  idle : p.master.Idle ∧ p.slave.Idle
  /-- No device is on line 2. -/
  free : p.master.irr 2 = false

section

variable {p : Pics} {n : Fin 16}

theorem picInit_eq (p : Pics) : picInit p =
    ⟨⟨fun _ => false, p.master.isr, 0xff#8, 0x11#8, 0x20#8, 4#8, icw48086, .operational⟩,
      ⟨fun _ => false, p.slave.isr, 0xff#8, 0x11#8, 0x28#8, 2#8, icw48086, .operational⟩⟩ := by
  simp [picInit, picRemap, ioWait, outp, inp, I8259.writeCommand, I8259.writeData, I8259.afterIcw3, pic1Cmd, pic1Data,
    pic2Cmd, pic2Data, icw1Icw4, icw1Init]

/-- Whatever the controllers were doing, `pic_init` programs them, with no line pending and all of them masked. -/
theorem picInit_programmed (idle : p.master.Idle ∧ p.slave.Idle) :
    Programmed (picInit p) ∧ ∀ n, (picInit p).lines.pending n = false ∧ (picInit p).lines.masked n = true := by
  rw [picInit_eq]
  constructor
  · exact ⟨⟨rfl, rfl⟩, ⟨rfl, rfl⟩, ⟨rfl, rfl, rfl⟩, ⟨rfl, rfl⟩, idle, rfl⟩
  · intro n
    have all : ∀ i : Fin 8, (0xff#8 : Byte).getLsbD i = true := by decide
    simp only [Pics.lines, Pics.owner]
    split
    · exact ⟨rfl, all _⟩
    · exact ⟨rfl, all _⟩

/-! ### Masks -/

theorem outp_data (programmed : Programmed p) (n : Fin 16) (v : Byte) :
    outp p (if n.val < 8 then pic1Data else pic2Data) v =
      if n.val < 8 then { p with master := { p.master with imr := v } } else { p with slave := { p.slave with imr := v } } := by
  obtain ⟨master, slave⟩ := programmed.operational
  split
  · show { p with master := p.master.writeData v } = _
    rw [I8259.writeData_operational master]
  · show { p with slave := p.slave.writeData v } = _
    rw [I8259.writeData_operational slave]

/-- One bit of the mask register. -/
def maskBit (v : Byte) (i : Fin 8) (set : Bool) : Byte :=
  if set then (v.setWidth 32 ||| 1#32 <<< i.val).setWidth 8 else (v.setWidth 32 &&& ~~~ (1#32 <<< i.val)).setWidth 8

theorem getLsbD_maskBit (v : Byte) (i j : Fin 8) (set : Bool) :
    (maskBit v i set).getLsbD j = if j = i then set else v.getLsbD j := by
  have bit : (1#32 <<< i.val : Word).getLsbD j = decide (j = i) := by
    revert i j
    decide
  have inside : j.val < 8 := j.isLt
  have below : j.val < 32 := by omega
  unfold maskBit
  cases set
  · rw [if_neg Bool.false_ne_true, BitVec.getLsbD_setWidth, BitVec.getLsbD_and, BitVec.getLsbD_not, BitVec.getLsbD_setWidth, bit]
    by_cases same : j = i <;> simp [inside, below, same]
  · rw [if_pos rfl, BitVec.getLsbD_setWidth, BitVec.getLsbD_or, BitVec.getLsbD_setWidth, bit]
    by_cases same : j = i <;> simp [inside, below, same]

theorem picSetMask_eq (p : Pics) (n : Fin 16) (set : Bool) :
    picSetMask p (BitVec.ofNat 8 n) set =
      outp p (if n.val < 8 then pic1Data else pic2Data) (maskBit (p.owner n).imr (pin n) set) := by
  fin_cases n <;> rfl

theorem pin_eq_iff {k : Fin 16} (side : n.val < 8 ↔ k.val < 8) : pin k = pin n ↔ k = n := by
  rw [Fin.ext_iff, Fin.ext_iff, pin, pin]
  dsimp only
  omega

/-- `pic_set_mask` masks or unmasks its line, and no other. -/
theorem picSetMask_spec (programmed : Programmed p) (n : Fin 16) (set : Bool) :
    Programmed (picSetMask p (BitVec.ofNat 8 n) set) ∧
      (picSetMask p (BitVec.ofNat 8 n) set).lines = p.lines.setMask n set := by
  rw [picSetMask_eq, outp_data programmed]
  obtain ⟨operational, vectors, cascade, normal, idle, free⟩ := programmed
  have lines (q : Pics) (masked : ∀ k, q.lines.masked k = if k = n then set else p.lines.masked k)
      (pending : q.lines.pending = p.lines.pending) : q.lines = p.lines.setMask n set := by
    have same : q.lines.masked = Function.update p.lines.masked n set := by
      funext k
      rw [masked, Function.update_apply]
    rw [Lines.setMask, ← same, ← pending]
  split
  case isTrue low =>
    refine ⟨⟨operational, vectors, cascade, normal, idle, free⟩, lines _ (fun k => ?_) ?_⟩
    · by_cases side : k.val < 8
      · have pins := pin_eq_iff (n := n) (k := k) (by omega)
        simp only [Pics.lines, Pics.owner, side, low, ite_true, getLsbD_maskBit, pins]
      · have other : k ≠ n := by
          rintro rfl
          exact side low
        simp only [Pics.lines, Pics.owner, side, other, ite_false]
    · funext k
      simp only [Pics.lines, Pics.owner]
      split <;> rfl
  case isFalse high =>
    refine ⟨⟨operational, vectors, cascade, normal, idle, free⟩, lines _ (fun k => ?_) ?_⟩
    · by_cases side : k.val < 8
      · have other : k ≠ n := by
          rintro rfl
          exact high side
        simp only [Pics.lines, Pics.owner, side, other, ite_true, ite_false]
      · have pins := pin_eq_iff (n := n) (k := k) (by omega)
        simp only [Pics.lines, Pics.owner, side, high, ite_false, getLsbD_maskBit, pins]
    · funext k
      simp only [Pics.lines, Pics.owner]
      split <;> rfl

/-! ### Interrupts -/

/-- A request bit of the first controller is the pending bit of its line. -/
theorem lines_master (p : Pics) (low : n.val < 8) (b : Bool) :
    Pics.lines { p with master := { p.master with irr := Function.update p.master.irr (pin n) b } } =
      { p.lines with pending := Function.update p.lines.pending n b } := by
  ext k
  · by_cases side : k.val < 8
    · have pins : pin k = pin n ↔ k = n := pin_eq_iff (by omega)
      simp only [Pics.lines, Pics.owner, side, ite_true, Function.update_apply, pins]
    · have away : k ≠ n := by
        rintro rfl
        exact side low
      simp only [Pics.lines, Pics.owner, side, ite_false, Function.update_of_ne away]
  · simp only [Pics.lines, Pics.owner]
    split <;> rfl

theorem lines_slave (p : Pics) (high : ¬ n.val < 8) (b : Bool) :
    Pics.lines { p with slave := { p.slave with irr := Function.update p.slave.irr (pin n) b } } =
      { p.lines with pending := Function.update p.lines.pending n b } := by
  ext k
  · by_cases side : k.val < 8
    · have away : k ≠ n := by
        rintro rfl
        exact high side
      simp only [Pics.lines, Pics.owner, side, ite_true, Function.update_of_ne away]
    · have pins : pin k = pin n ↔ k = n := pin_eq_iff (by omega)
      simp only [Pics.lines, Pics.owner, side, ite_false, Function.update_apply, pins]
  · simp only [Pics.lines, Pics.owner]
    split <;> rfl

theorem raise_spec (programmed : Programmed p) (device : n ≠ 2) :
    Programmed (p.raise n) ∧ (p.raise n).lines = p.lines.raise n := by
  obtain ⟨operational, vectors, cascade, normal, idle, free⟩ := programmed
  unfold Pics.raise
  split
  case isTrue low =>
    have other : (2 : Fin 8) ≠ pin n := by
      rw [Ne, Fin.ext_iff] at device ⊢
      change n.val ≠ 2 at device
      change 2 ≠ n.val % 8
      omega
    refine ⟨⟨operational, vectors, cascade, normal, idle, ?_⟩, lines_master p low true⟩
    exact (Function.update_of_ne other _ _).trans free
  case isFalse high => exact ⟨⟨operational, vectors, cascade, normal, idle, free⟩, lines_slave p high true⟩

theorem writeCommand_picEoi (c : I8259) : c.writeCommand picEoi = c.endOfInterrupt := by
  simp [I8259.writeCommand, picEoi]

theorem picSendEoi_eq (p : Pics) (n : Fin 16) :
    picSendEoi p (BitVec.ofNat 8 n) =
      if n.val < 8 then { p with master := p.master.endOfInterrupt }
      else ⟨p.master.endOfInterrupt, p.slave.endOfInterrupt⟩ := by
  rw [← writeCommand_picEoi, ← writeCommand_picEoi]
  fin_cases n <;> rfl

/-- With nothing in service the command does nothing: the drivers give it when they start. -/
theorem picSendEoi_idle (programmed : Programmed p) (n : Fin 16) : picSendEoi p (BitVec.ofNat 8 n) = p := by
  obtain ⟨master, slave⟩ := programmed.idle
  rw [picSendEoi_eq, master.endOfInterrupt, slave.endOfInterrupt]
  split <;> rfl

/-- The processor has read vector `v`, line `n` was next, and the end of the interrupt leaves everything else as it was. -/
structure Acknowledged (p : Pics) (v : Byte) (p' : Pics) (n : Fin 16) : Prop where
  vector : v = 0x20#8 + BitVec.ofNat 8 n
  next : p.lines.Next n
  programmed : Programmed (picSendEoi p' (BitVec.ofNat 8 n))
  lines : (picSendEoi p' (BitVec.ofNat 8 n)).lines = p.lines.serve n

theorem deliverable_low (programmed : Programmed p) (low : n.val < 8) (deliverable : p.lines.Deliverable n) :
    pin n ≠ 2 ∧ p.master.irr (pin n) = true ∧ p.master.imr.getLsbD (pin n) = false := by
  obtain ⟨pending, masked, -⟩ := deliverable
  simp only [Pics.lines, Pics.owner, low, ite_true] at pending masked
  refine ⟨fun two => ?_, pending, masked⟩
  rw [two, programmed.free] at pending
  cases pending

theorem deliverable_high (high : 8 ≤ n.val) : p.lines.Deliverable n ↔
    (p.slave.irr (pin n) && !p.slave.imr.getLsbD (pin n)) = true ∧ p.master.imr.getLsbD 2 = false := by
  have side : ¬ n.val < 8 := by omega
  have two : p.lines.masked 2 = p.master.imr.getLsbD 2 := rfl
  simp only [Lines.Deliverable, two, high, true_implies]
  simp only [Pics.lines, Pics.owner, side, ite_false, Bool.and_eq_true, Bool.not_eq_true', and_assoc]

theorem Programmed.request_slave (programmed : Programmed p) :
    p.slave.request = I8259.first fun i => p.slave.irr i && !p.slave.imr.getLsbD i :=
  programmed.idle.2.request programmed.operational.2

theorem Programmed.request_wired (programmed : Programmed p) :
    p.wired.request = I8259.first fun i =>
      Function.update p.master.irr 2 p.slave.request.isSome i && !p.master.imr.getLsbD i :=
  I8259.Idle.request programmed.idle.1 programmed.operational.1

/-- Where a line comes in at the first controller. -/
def entrance (n : Fin 16) : Fin 8 := if n.val < 8 then pin n else pin 2

/-- A deliverable line gets through to the first controller's output. -/
theorem wired_of_deliverable (programmed : Programmed p) (deliverable : p.lines.Deliverable n) :
    (Function.update p.master.irr 2 p.slave.request.isSome (entrance n) && !p.master.imr.getLsbD (entrance n)) = true := by
  by_cases side : n.val < 8
  · obtain ⟨other, pending, unmasked⟩ := deliverable_low programmed side deliverable
    have here : entrance n = pin n := if_pos side
    rw [here, Function.update_of_ne other, pending, unmasked]
    rfl
  · obtain ⟨bits, unmasked⟩ := (deliverable_high (by omega)).mp deliverable
    have here : entrance n = 2 := if_neg side
    have some : p.slave.request.isSome = true := by
      rw [programmed.request_slave]
      cases found : I8259.first fun i => p.slave.irr i && !p.slave.imr.getLsbD i with
      | some j => rfl
      | none =>
        rw [I8259.first_eq_none.mp found] at bits
        cases bits
    rw [here, Function.update_self, some]
    simpa using unmasked

theorem request_none (programmed : Programmed p) (none : p.wired.request = none) : ¬ p.lines.Deliverable n := by
  intro deliverable
  rw [programmed.request_wired, I8259.first_eq_none] at none
  have bits := wired_of_deliverable programmed deliverable
  rw [none] at bits
  cases bits

/-- No deliverable line comes in before the one the first controller has picked. -/
theorem entrance_le (programmed : Programmed p) {i : Fin 8} (request : p.wired.request = some i)
    (deliverable : p.lines.Deliverable n) : i ≤ entrance n := by
  rw [programmed.request_wired, I8259.first_eq_some] at request
  by_contra before
  have bits := wired_of_deliverable programmed deliverable
  rw [request.2 _ (Fin.not_le.mp before)] at bits
  cases bits

/-- The first controller's own line, `n`. -/
theorem acknowledged_master (programmed : Programmed p) {i : Fin 8} (request : p.wired.request = some i) (own : i ≠ 2)
    (n : Fin 16) (here : n.val = i.val) : Acknowledged p (p.master.vector i) { p with master := p.master.accept i } n := by
  have low : n.val < 8 := by omega
  have isPin : pin n = i := by
    rw [Fin.ext_iff, pin]
    dsimp only
    omega
  have picked := request
  rw [programmed.request_wired, I8259.first_eq_some] at picked
  obtain ⟨bits, -⟩ := picked
  rw [Function.update_of_ne own, Bool.and_eq_true, Bool.not_eq_true'] at bits
  have ended := programmed.idle.1.accept_end (i := i) (by rw [programmed.normal.1]; rfl)
  constructor
  case vector =>
    rw [I8259.vector, programmed.vectors.1, here]
    rfl
  case next =>
    constructor
    · refine ⟨?_, ?_, fun high => absurd low (by omega)⟩
      · simp only [Pics.lines, Pics.owner, low, ite_true, isPin, bits.1]
      · simp only [Pics.lines, Pics.owner, low, ite_true, isPin, bits.2]
    · intro k deliverable
      have order := entrance_le programmed request deliverable
      rw [Fin.le_def, entrance] at order
      rw [Ne, Fin.ext_iff] at own
      change i.val ≠ 2 at own
      unfold Lines.rank
      split at order
      case isTrue side =>
        change i.val ≤ k.val % 8 at order
        split_ifs <;> omega
      case isFalse side =>
        change i.val ≤ 2 at order
        split_ifs <;> omega
  case programmed =>
    rw [picSendEoi_eq, if_pos low, ended]
    obtain ⟨operational, vectors, cascade, normal, idle, free⟩ := programmed
    refine ⟨operational, vectors, cascade, normal, idle, ?_⟩
    exact (Function.update_of_ne own.symm _ _).trans free
  case lines =>
    rw [picSendEoi_eq, if_pos low, ended, ← isPin]
    exact lines_master p low false

/-- A line of the second controller: both are in service, and both are ended. -/
theorem acknowledged_slave (programmed : Programmed p) (request : p.wired.request = some 2) {j : Fin 8}
    (behind : p.slave.request = some j) (n : Fin 16) (here : n.val = j.val + 8) :
    Acknowledged p (p.slave.vector j) ⟨p.master.accept 2, p.slave.accept j⟩ n := by
  have high : ¬ n.val < 8 := by omega
  have isPin : pin n = j := by
    rw [Fin.ext_iff, pin]
    dsimp only
    omega
  have picked := request
  rw [programmed.request_wired, I8259.first_eq_some, Function.update_self, Bool.and_eq_true, Bool.not_eq_true'] at picked
  obtain ⟨⟨-, unmasked⟩, -⟩ := picked
  have own := behind
  rw [programmed.request_slave, I8259.first_eq_some] at own
  obtain ⟨bits, before⟩ := own
  have ended := programmed.idle.1.accept_end (i := 2) (by rw [programmed.normal.1]; rfl)
  have ended' := programmed.idle.2.accept_end (i := j) (by rw [programmed.normal.2]; rfl)
  have restored : Function.update p.master.irr 2 false = p.master.irr := by
    rw [Function.update_eq_self_iff]
    exact programmed.free.symm
  rw [restored] at ended
  constructor
  case vector =>
    rw [I8259.vector, programmed.vectors.2, here, Nat.add_comm, BitVec.ofNat_add, ← BitVec.add_assoc]
    rfl
  case next =>
    constructor
    · rw [deliverable_high (by omega), isPin]
      exact ⟨bits, unmasked⟩
    · intro k deliverable
      have order := entrance_le programmed request deliverable
      rw [Fin.le_def, entrance] at order
      unfold Lines.rank
      by_cases side : k.val < 8
      · have other := (deliverable_low programmed side deliverable).1
        rw [Ne, Fin.ext_iff] at other
        change k.val % 8 ≠ 2 at other
        rw [if_pos side] at order
        change 2 ≤ k.val % 8 at order
        split_ifs <;> omega
      · have bits := ((deliverable_high (by omega)).mp deliverable).1
        have later : j ≤ pin k := by
          by_contra earlier
          rw [before _ (Fin.not_le.mp earlier)] at bits
          cases bits
        rw [Fin.le_def] at later
        change j.val ≤ k.val % 8 at later
        split_ifs <;> omega
  case programmed =>
    rw [picSendEoi_eq, if_neg high, ended, ended']
    obtain ⟨operational, vectors, cascade, normal, idle, free⟩ := programmed
    exact ⟨operational, vectors, cascade, normal, idle, free⟩
  case lines =>
    rw [picSendEoi_eq, if_neg high, ended, ended', ← isPin]
    exact lines_slave p high false

/-- An interrupt is for the deliverable line of highest priority, and comes whenever there is one. -/
theorem acknowledge_spec (programmed : Programmed p) :
    (p.wired.request = none ∧ ∀ n, ¬ p.lines.Deliverable n) ∨
      ∃ v p' n, p.acknowledge = some (v, p') ∧ Acknowledged p v p' n := by
  cases request : p.wired.request with
  | none => exact .inl ⟨rfl, fun n => request_none programmed request⟩
  | some i =>
    right
    obtain ⟨normal, normal'⟩ := programmed.normal
    obtain ⟨icw1, icw3, icw3'⟩ := programmed.cascade
    by_cases own : i = 2
    · subst own
      have picked := request
      rw [programmed.request_wired, I8259.first_eq_some, Function.update_self, Bool.and_eq_true, Option.isSome_iff_exists] at picked
      obtain ⟨⟨⟨j, behind⟩, -⟩, -⟩ := picked
      refine ⟨_, _, ⟨j.val + 8, by omega⟩, ?_, acknowledged_slave programmed request behind _ rfl⟩
      simp [Pics.acknowledge, request, behind, normal, normal', icw1, icw3, icw3', icw48086]
    · refine ⟨_, _, ⟨i.val, by omega⟩, ?_, acknowledged_master programmed request own _ rfl⟩
      simp [Pics.acknowledge, request, own, normal, icw48086]

/-- The output to the processor is up exactly when there is a deliverable line. -/
theorem output_iff (programmed : Programmed p) : p.wired.request.isSome = true ↔ ∃ n, p.lines.Deliverable n := by
  constructor
  · intro up
    rcases acknowledge_spec programmed with ⟨none, -⟩ | ⟨v, p', n, -, acknowledged⟩
    · rw [none] at up
      cases up
    · exact ⟨n, acknowledged.next.1⟩
  · intro some
    obtain ⟨n, deliverable⟩ := some
    cases request : p.wired.request with
    | none => exact absurd deliverable (request_none programmed request)
    | some i => rfl

end

end ThreeX86.Hw
