import ThreeX86.Machine.Memory

/-!
The registers of a 32-bit x86, the stack instructions and the frame lemmas for them.
-/

namespace Machine

/-! ### Parts of a register -/

def lo16 (r : Word) : BitVec 16 := r.extractLsb' 0 16
def lo8 (r : Word) : Byte := r.extractLsb' 0 8
def hi8 (r : Word) : Byte := r.extractLsb' 8 8

def setLo16 (r : Word) (v : BitVec 16) : Word := r.extractLsb' 16 16 ++ v
def setLo8 (r : Word) (v : Byte) : Word := r.extractLsb' 8 24 ++ v
def setHi8 (r : Word) (v : Byte) : Word := r.extractLsb' 16 16 ++ (v ++ r.extractLsb' 0 8)

theorem getLsbD_lo16 (r : Word) (i : Nat) : (lo16 r).getLsbD i = (decide (i < 16) && r.getLsbD i) := by
  rw [lo16, BitVec.getLsbD_extractLsb', Nat.zero_add]

theorem getLsbD_lo8 (r : Word) (i : Nat) : (lo8 r).getLsbD i = (decide (i < 8) && r.getLsbD i) := by
  rw [lo8, BitVec.getLsbD_extractLsb', Nat.zero_add]

theorem getLsbD_hi8 (r : Word) (i : Nat) : (hi8 r).getLsbD i = (decide (i < 8) && r.getLsbD (8 + i)) := by
  rw [hi8, BitVec.getLsbD_extractLsb']

theorem getLsbD_setLo16 (r : Word) (v : BitVec 16) {i : Nat} (h : i < 32) :
    (setLo16 r v).getLsbD i = if i < 16 then v.getLsbD i else r.getLsbD i := by
  have bits : (setLo16 r v).getLsbD i = _ := BitVec.getLsbD_append
  rw [bits, BitVec.getLsbD_extractLsb']
  by_cases low : i < 16
  · simp [low]
  · simp [low, show i - 16 < 16 by omega, show 16 + (i - 16) = i by omega]

theorem getLsbD_setLo8 (r : Word) (v : Byte) {i : Nat} (h : i < 32) :
    (setLo8 r v).getLsbD i = if i < 8 then v.getLsbD i else r.getLsbD i := by
  have bits : (setLo8 r v).getLsbD i = _ := BitVec.getLsbD_append
  rw [bits, BitVec.getLsbD_extractLsb']
  by_cases low : i < 8
  · simp [low]
  · simp [low, show i - 8 < 24 by omega, show 8 + (i - 8) = i by omega]

theorem getLsbD_setHi8 (r : Word) (v : Byte) {i : Nat} (h : i < 32) :
    (setHi8 r v).getLsbD i = if 8 ≤ i ∧ i < 16 then v.getLsbD (i - 8) else r.getLsbD i := by
  have bits : (setHi8 r v).getLsbD i = _ := BitVec.getLsbD_append
  have inner : (v ++ r.extractLsb' 0 8).getLsbD i = _ := BitVec.getLsbD_append
  rw [bits, inner, BitVec.getLsbD_extractLsb', BitVec.getLsbD_extractLsb', Nat.zero_add]
  by_cases low : i < 8
  · simp [low, show i < 16 by omega, show ¬ 8 ≤ i by omega]
  · by_cases mid : i < 16
    · simp [low, mid, show 8 ≤ i by omega]
    · simp [mid, show i - 16 < 16 by omega, show 16 + (i - 16) = i by omega]

@[simp] theorem lo16_setLo16 (r : Word) (v : BitVec 16) : lo16 (setLo16 r v) = v := by
  apply BitVec.eq_of_getLsbD_eq
  intro i bound
  rw [getLsbD_lo16, getLsbD_setLo16 r v (by omega)]
  simp [bound]

@[simp] theorem setLo16_setLo16 (r : Word) (v w : BitVec 16) : setLo16 (setLo16 r v) w = setLo16 r w := by
  apply BitVec.eq_of_getLsbD_eq
  intro i bound
  rw [getLsbD_setLo16 _ w bound, getLsbD_setLo16 r v bound, getLsbD_setLo16 r w bound]
  split <;> rfl

@[simp] theorem setLo16_lo16 (r : Word) : setLo16 r (lo16 r) = r := by
  apply BitVec.eq_of_getLsbD_eq
  intro i bound
  rw [getLsbD_setLo16 r _ bound, getLsbD_lo16]
  split
  · rename_i low
    simp [low]
  · rfl

@[simp] theorem lo8_setLo8 (r : Word) (v : Byte) : lo8 (setLo8 r v) = v := by
  apply BitVec.eq_of_getLsbD_eq
  intro i bound
  rw [getLsbD_lo8, getLsbD_setLo8 r v (by omega)]
  simp [bound]

@[simp] theorem hi8_setLo8 (r : Word) (v : Byte) : hi8 (setLo8 r v) = hi8 r := by
  apply BitVec.eq_of_getLsbD_eq
  intro i bound
  rw [getLsbD_hi8, getLsbD_setLo8 r v (by omega), getLsbD_hi8, if_neg (by omega)]

@[simp] theorem lo8_setHi8 (r : Word) (v : Byte) : lo8 (setHi8 r v) = lo8 r := by
  apply BitVec.eq_of_getLsbD_eq
  intro i bound
  rw [getLsbD_lo8, getLsbD_setHi8 r v (by omega), getLsbD_lo8, if_neg (by omega)]

@[simp] theorem hi8_setHi8 (r : Word) (v : Byte) : hi8 (setHi8 r v) = v := by
  apply BitVec.eq_of_getLsbD_eq
  intro i bound
  rw [getLsbD_hi8, getLsbD_setHi8 r v (by omega), if_pos (by omega), Nat.add_sub_cancel_left]
  simp [bound]

theorem toNat_lo16 (r : Word) : (lo16 r).toNat = 256 * (hi8 r).toNat + (lo8 r).toNat := by
  simp only [lo16, hi8, lo8, BitVec.extractLsb'_toNat, Nat.shiftRight_eq_div_pow]
  omega

theorem halves_eq {a b : Word} (same : lo16 a = lo16 b) : lo8 a = lo8 b ∧ hi8 a = hi8 b := by
  have left := toNat_lo16 a
  have right := toNat_lo16 b
  have boundLeft := (lo8 a).isLt
  have boundRight := (lo8 b).isLt
  rw [same] at left
  exact ⟨BitVec.eq_of_toNat_eq (by omega), BitVec.eq_of_toNat_eq (by omega)⟩

theorem toNat_append {v w : Nat} (x : BitVec v) (y : BitVec w) : (x ++ y).toNat = 2^w * x.toNat + y.toNat := by
  rw [BitVec.toNat_append, Nat.shiftLeft_eq, Nat.mul_comm, Nat.two_pow_add_eq_or_of_lt y.isLt]

theorem toNat_setLo16 (r : Word) (v : BitVec 16) : (setLo16 r v).toNat = 2^16 * (r.toNat / 2^16) + v.toNat := by
  have whole : (setLo16 r v).toNat = _ := toNat_append (r.extractLsb' 16 16) v
  have bound := r.isLt
  rw [whole, BitVec.extractLsb'_toNat, Nat.shiftRight_eq_div_pow]
  omega

theorem toNat_setLo8 (r : Word) (v : Byte) : (setLo8 r v).toNat = 2^8 * (r.toNat / 2^8) + v.toNat := by
  have whole : (setLo8 r v).toNat = _ := toNat_append (r.extractLsb' 8 24) v
  have bound := r.isLt
  rw [whole, BitVec.extractLsb'_toNat, Nat.shiftRight_eq_div_pow]
  omega

theorem toNat_lo8_setLo16 (r : Word) (v : BitVec 16) : (lo8 (setLo16 r v)).toNat = v.toNat % 256 := by
  have whole := toNat_lo16 (setLo16 r v)
  have bound := (lo8 (setLo16 r v)).isLt
  rw [lo16_setLo16] at whole
  omega

theorem toNat_hi8_setLo16 (r : Word) (v : BitVec 16) : (hi8 (setLo16 r v)).toNat = v.toNat / 256 := by
  have whole := toNat_lo16 (setLo16 r v)
  have bound := (lo8 (setLo16 r v)).isLt
  rw [lo16_setLo16] at whole
  omega

structure Cpu where
  eax : Word
  ebx : Word
  ecx : Word
  edx : Word
  esi : Word
  edi : Word
  ebp : Word
  esp : Word
  eip : Word
  cf : Bool
  zf : Bool
  sf : Bool
  of : Bool
  mem : Memory

namespace Cpu

def push32 (c : Cpu) (v : Word) : Cpu :=
  { c with esp := c.esp - 4#32, mem := c.mem.store32 (c.esp - 4#32) v }

def pop32 (c : Cpu) : Word × Cpu := (c.mem.load32 c.esp, { c with esp := c.esp + 4#32 })

def call (c : Cpu) (target returnAddress : Word) : Cpu := { c.push32 returnAddress with eip := target }

def ret (c : Cpu) : Cpu :=
  let (eip, c) := c.pop32
  { c with eip := eip }

/-! ### 16-bit code -/

def sp (c : Cpu) : BitVec 16 := lo16 c.esp

/-- Segment bases are 0; the stack is addressed by `sp`. -/
def push16 (c : Cpu) (v : BitVec 16) : Cpu :=
  let sp := c.sp - 2#16
  { c with esp := setLo16 c.esp sp, mem := c.mem.store16 (sp.zeroExtend 32) v }

def pop16 (c : Cpu) : BitVec 16 × Cpu :=
  (c.mem.load16 (c.sp.zeroExtend 32), { c with esp := setLo16 c.esp (c.sp + 2#16) })

def ret16 (c : Cpu) : Cpu :=
  let (ip, c) := c.pop16
  { c with eip := ip.zeroExtend 32 }

def pusha16 (c : Cpu) : Cpu :=
  let sp := c.sp
  let c := c.push16 (lo16 c.eax)
  let c := c.push16 (lo16 c.ecx)
  let c := c.push16 (lo16 c.edx)
  let c := c.push16 (lo16 c.ebx)
  let c := c.push16 sp
  let c := c.push16 (lo16 c.ebp)
  let c := c.push16 (lo16 c.esi)
  c.push16 (lo16 c.edi)

/-- The saved `sp` is skipped. -/
def popa16 (c : Cpu) : Cpu :=
  let (di, c) := c.pop16
  let c := { c with edi := setLo16 c.edi di }
  let (si, c) := c.pop16
  let c := { c with esi := setLo16 c.esi si }
  let (bp, c) := c.pop16
  let c := { c with ebp := setLo16 c.ebp bp }
  let (_, c) := c.pop16
  let (bx, c) := c.pop16
  let c := { c with ebx := setLo16 c.ebx bx }
  let (dx, c) := c.pop16
  let c := { c with edx := setLo16 c.edx dx }
  let (cx, c) := c.pop16
  let c := { c with ecx := setLo16 c.ecx cx }
  let (ax, c) := c.pop16
  { c with eax := setLo16 c.eax ax }

def sub16Flags (c : Cpu) (a b : BitVec 16) : Cpu :=
  { c with
    cf := a < b
    zf := a = b
    sf := (a - b).msb
    of := a.msb != b.msb && (a - b).msb != a.msb }

/-- `jl` -/
def less (c : Cpu) : Bool := c.sf != c.of

/-- `jg` -/
def greater (c : Cpu) : Bool := !c.zf && c.sf == c.of

theorem less_of_small (c : Cpu) {a b : BitVec 16} (ha : a.toNat < 2^15) (hb : b.toNat < 2^15) :
    (c.sub16Flags a b).less = true ↔ a.toNat < b.toNat := by
  have signA : a.msb = false := by rw [BitVec.msb_eq_decide]; simp; omega
  have signB : b.msb = false := by rw [BitVec.msb_eq_decide]; simp; omega
  unfold less sub16Flags
  simp only [signA, signB, bne_self_eq_false, Bool.false_and, Bool.bne_false]
  rw [BitVec.msb_eq_decide, decide_eq_true_eq, BitVec.toNat_sub]
  omega

theorem greater_of_small (c : Cpu) {a b : BitVec 16} (ha : a.toNat < 2^15) (hb : b.toNat < 2^15) :
    (c.sub16Flags a b).greater = true ↔ b.toNat < a.toNat := by
  have signA : a.msb = false := by rw [BitVec.msb_eq_decide]; simp; omega
  have signB : b.msb = false := by rw [BitVec.msb_eq_decide]; simp; omega
  have equal : a = b ↔ a.toNat = b.toNat := BitVec.toNat_inj.symm
  have sign : (a - b).msb = decide (a.toNat < b.toNat) := by
    rw [BitVec.msb_eq_decide, BitVec.toNat_sub]
    congr 1
    apply propext
    omega
  unfold greater sub16Flags
  simp only [signA, signB, bne_self_eq_false, Bool.false_and, sign, equal]
  simp
  omega

def stackWord (c : Cpu) (k : Nat) : BitVec 16 := c.mem.load16 (BitVec.ofNat 32 (c.sp.toNat + 2 * k))

@[simp] theorem push16_eax (c : Cpu) (v : BitVec 16) : (c.push16 v).eax = c.eax := rfl
@[simp] theorem push16_ecx (c : Cpu) (v : BitVec 16) : (c.push16 v).ecx = c.ecx := rfl
@[simp] theorem push16_edx (c : Cpu) (v : BitVec 16) : (c.push16 v).edx = c.edx := rfl
@[simp] theorem push16_ebx (c : Cpu) (v : BitVec 16) : (c.push16 v).ebx = c.ebx := rfl
@[simp] theorem push16_ebp (c : Cpu) (v : BitVec 16) : (c.push16 v).ebp = c.ebp := rfl
@[simp] theorem push16_esi (c : Cpu) (v : BitVec 16) : (c.push16 v).esi = c.esi := rfl
@[simp] theorem push16_edi (c : Cpu) (v : BitVec 16) : (c.push16 v).edi = c.edi := rfl

theorem toNat_sp_push16 {c : Cpu} (v : BitVec 16) (room : 2 ≤ c.sp.toNat) :
    (c.push16 v).sp.toNat = c.sp.toNat - 2 := by
  have bound := c.sp.isLt
  unfold push16
  rw [sp, lo16_setLo16, BitVec.toNat_sub, BitVec.toNat_ofNat]
  omega

theorem changes_push16 {c : Cpu} (v : BitVec 16) (room : 2 ≤ c.sp.toNat) :
    Memory.Changes (fun x => c.sp.toNat - 2 ≤ x ∧ x < c.sp.toNat) c.mem (c.push16 v).mem := by
  have bound := c.sp.isLt
  have address : ((c.sp - 2#16).zeroExtend 32).toNat = c.sp.toNat - 2 := by
    rw [BitVec.zeroExtend, BitVec.toNat_setWidth, BitVec.toNat_sub, BitVec.toNat_ofNat]
    omega
  apply (Memory.changes_store16 c.mem _ v (by omega)).mono
  intro x inside
  omega

theorem stackWord_push16 {c : Cpu} (v : BitVec 16) (room : 2 ≤ c.sp.toNat) (k : Nat)
    (high : c.sp.toNat + 2 * k ≤ 2^16) :
    (c.push16 v).stackWord k = match k with
      | 0 => v
      | k + 1 => c.stackWord k := by
  have bound := c.sp.isLt
  have top := toNat_sp_push16 v room
  unfold stackWord
  rw [top]
  cases k with
  | zero =>
    have address : BitVec.ofNat 32 (c.sp.toNat - 2 + 2 * 0) = (c.sp - 2#16).zeroExtend 32 := by
      apply BitVec.eq_of_toNat_eq
      rw [BitVec.zeroExtend, BitVec.toNat_setWidth, BitVec.toNat_sub, BitVec.toNat_ofNat, BitVec.toNat_ofNat]
      omega
    rw [address]
    exact Memory.load16_store16 c.mem _ v
  | succ k =>
    have address : (BitVec.ofNat 32 (c.sp.toNat - 2 + 2 * (k + 1))).toNat = c.sp.toNat + 2 * k := by
      rw [BitVec.toNat_ofNat]
      omega
    simp only
    rw [show c.sp.toNat - 2 + 2 * (k + 1) = c.sp.toNat + 2 * k by omega] at address ⊢
    apply (changes_push16 v room).load16 (by omega)
    intro i small
    omega

theorem pop16_fst (c : Cpu) : c.pop16.1 = c.stackWord 0 := by
  have bound := c.sp.isLt
  have address : c.sp.zeroExtend 32 = BitVec.ofNat 32 (c.sp.toNat + 2 * 0) := by
    apply BitVec.eq_of_toNat_eq
    rw [BitVec.zeroExtend, BitVec.toNat_setWidth, BitVec.toNat_ofNat]
    rfl
  unfold pop16 stackWord
  rw [address]

theorem stackWord_kept {c c' : Cpu} {S : Nat → Prop} (changes : Memory.Changes S c.mem c'.mem) (same : c'.esp = c.esp)
    (k : Nat) (high : c.sp.toNat + 2 * k + 2 ≤ 2^16)
    (outside : ∀ x, c.sp.toNat ≤ x → x < c.sp.toNat + 2 * k + 2 → ¬ S x) : c'.stackWord k = c.stackWord k := by
  have top : c'.sp = c.sp := by rw [sp, sp, same]
  have address : (BitVec.ofNat 32 (c.sp.toNat + 2 * k)).toNat = c.sp.toNat + 2 * k := by
    rw [BitVec.toNat_ofNat]
    omega
  unfold stackWord
  rw [top]
  apply changes.load16 (by omega)
  intro i small
  exact outside _ (by omega) (by omega)

/-- A routine that leaves the stack pointer and its return address as they were goes back to where it was called. -/
theorem push16_ret16 {c c' : Cpu} {S : Nat → Prop} (v : BitVec 16) (room : 2 ≤ c.sp.toNat) (same : c'.esp = (c.push16 v).esp)
    (changes : Memory.Changes S (c.push16 v).mem c'.mem) (outside : ∀ x, c.sp.toNat - 2 ≤ x → x < c.sp.toNat → ¬ S x) :
    c'.ret16.eip = v.zeroExtend 32 ∧ c'.ret16.esp = c.esp := by
  have bound := c.sp.isLt
  have top := toNat_sp_push16 v room
  have word := stackWord_kept changes same 0 (by omega) fun x lower upper => outside x (by omega) (by omega)
  constructor
  · show (c'.pop16.1).zeroExtend 32 = _
    rw [pop16_fst, word, stackWord_push16 v room 0 (by omega)]
  · show setLo16 c'.esp (lo16 c'.esp + 2#16) = c.esp
    rw [same]
    show setLo16 (setLo16 c.esp (c.sp - 2#16)) (lo16 (setLo16 c.esp (c.sp - 2#16)) + 2#16) = c.esp
    rw [lo16_setLo16, setLo16_setLo16, BitVec.sub_add_cancel]
    exact setLo16_lo16 c.esp

/-- `c'` is `c` with `words` pushed, the last one first. -/
structure Pushed (c c' : Cpu) (words : List (BitVec 16)) : Prop where
  sp : c'.sp.toNat + 2 * words.length = c.sp.toNat
  high : ∀ v, setLo16 c'.esp v = setLo16 c.esp v
  regs : c' = { c with esp := c'.esp, mem := c'.mem }
  word : ∀ k, (h : k < words.length) → c'.stackWord k = words[k]
  mem : Memory.Changes (fun x => c'.sp.toNat ≤ x ∧ x < c.sp.toNat) c.mem c'.mem

theorem Pushed.refl (c : Cpu) : Pushed c c [] where
  sp := rfl
  high _ := rfl
  regs := rfl
  word _ h := absurd h (Nat.not_lt_zero _)
  mem := Memory.Changes.refl _ _

theorem Pushed.push {c c' : Cpu} {words : List (BitVec 16)} (pushed : Pushed c c' words) (v : BitVec 16)
    (room : 2 ≤ c'.sp.toNat) : Pushed c (c'.push16 v) (v :: words) := by
  have bound := c.sp.isLt
  have before := pushed.sp
  have top := toNat_sp_push16 v room
  constructor
  case sp =>
    rw [List.length_cons]
    omega
  case high =>
    intro w
    rw [push16, setLo16_setLo16]
    exact pushed.high w
  case regs =>
    rw [push16, pushed.regs]
  case word =>
    intro k h
    rw [List.length_cons] at h
    rw [stackWord_push16 v room k (by omega)]
    cases k with
    | zero => rfl
    | succ k => exact pushed.word k (by omega)
  case mem =>
    have more := (changes_push16 v room).mono (T := fun x => (c'.push16 v).sp.toNat ≤ x ∧ x < c.sp.toNat)
      fun x inside => by omega
    exact (pushed.mem.mono fun x inside => by omega).trans more

theorem pushed_foldl (c : Cpu) (words : List (BitVec 16)) (room : 2 * words.length ≤ c.sp.toNat) :
    Pushed c (words.foldl push16 c) words.reverse := by
  have more (rest : List (BitVec 16)) : ∀ c' before, Pushed c c' before → 2 * rest.length ≤ c'.sp.toNat →
      Pushed c (rest.foldl push16 c') (rest.reverse ++ before) := by
    induction rest with
    | nil => exact fun c' before pushed _ => pushed
    | cons v rest ih =>
      intro c' before pushed room
      rw [List.length_cons] at room
      have top := toNat_sp_push16 (c := c') v (by omega)
      have next := ih (c'.push16 v) (v :: before) (pushed.push v (by omega)) (by omega)
      rw [List.foldl_cons, List.reverse_cons, List.append_assoc]
      exact next
  have pushed := more words c [] (Pushed.refl c) room
  rwa [List.append_nil] at pushed

theorem pusha16_eq (c : Cpu) :
    c.pusha16 = [lo16 c.eax, lo16 c.ecx, lo16 c.edx, lo16 c.ebx, c.sp, lo16 c.ebp, lo16 c.esi, lo16 c.edi].foldl
      push16 c := by
  simp only [pusha16, List.foldl_cons, List.foldl_nil, push16_ecx, push16_edx, push16_ebx, push16_ebp, push16_esi,
    push16_edi]

theorem push16_pusha16_eq (c : Cpu) (v : BitVec 16) :
    (c.push16 v).pusha16 = [v, lo16 c.eax, lo16 c.ecx, lo16 c.edx, lo16 c.ebx, (c.push16 v).sp, lo16 c.ebp, lo16 c.esi,
      lo16 c.edi].foldl push16 c := by
  simp only [pusha16_eq, List.foldl_cons, List.foldl_nil, push16_eax, push16_ecx, push16_edx, push16_ebx, push16_ebp,
    push16_esi, push16_edi]

theorem push16_pusha16 (c : Cpu) (v : BitVec 16) (room : 18 ≤ c.sp.toNat) :
    ∃ saved, (c.push16 v).pusha16 = saved ∧ Pushed c saved [lo16 c.edi, lo16 c.esi, lo16 c.ebp, (c.push16 v).sp,
      lo16 c.ebx, lo16 c.edx, lo16 c.ecx, lo16 c.eax, v] := by
  rw [push16_pusha16_eq]
  exact ⟨_, rfl, pushed_foldl c [v, lo16 c.eax, lo16 c.ecx, lo16 c.edx, lo16 c.ebx, (c.push16 v).sp, lo16 c.ebp,
    lo16 c.esi, lo16 c.edi] room⟩

theorem stack_address (c : Cpu) (k : Nat) (room : (lo16 c.esp).toNat + 2 * k < 2^16) :
    (lo16 c.esp + BitVec.ofNat 16 (2 * k)).zeroExtend 32 = BitVec.ofNat 32 ((lo16 c.esp).toNat + 2 * k) := by
  apply BitVec.eq_of_toNat_eq
  rw [BitVec.zeroExtend, BitVec.toNat_setWidth, BitVec.toNat_add, BitVec.toNat_ofNat, BitVec.toNat_ofNat]
  omega

theorem popa16_eq (c : Cpu) (room : c.sp.toNat + 16 < 2^16) :
    c.popa16 = { c with
      eax := setLo16 c.eax (c.stackWord 7), ecx := setLo16 c.ecx (c.stackWord 6)
      edx := setLo16 c.edx (c.stackWord 5), ebx := setLo16 c.ebx (c.stackWord 4)
      ebp := setLo16 c.ebp (c.stackWord 2), esi := setLo16 c.esi (c.stackWord 1)
      edi := setLo16 c.edi (c.stackWord 0), esp := setLo16 c.esp (c.sp + 16#16) } := by
  unfold sp at room
  have word0 := stack_address c 0 (by omega)
  have word1 := stack_address c 1 (by omega)
  have word2 := stack_address c 2 (by omega)
  have word4 := stack_address c 4 (by omega)
  have word5 := stack_address c 5 (by omega)
  have word6 := stack_address c 6 (by omega)
  have word7 := stack_address c 7 (by omega)
  simp only [Nat.reduceMul, BitVec.add_zero] at word0 word1 word2 word4 word5 word6 word7
  simp only [popa16, pop16, stackWord, sp, lo16_setLo16, setLo16_setLo16, BitVec.add_assoc, BitVec.reduceAdd,
    Nat.reduceMul, word0, word1, word2, word4, word5, word6, word7]

end Cpu
end Machine
