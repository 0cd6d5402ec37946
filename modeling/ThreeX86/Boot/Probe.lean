import ThreeX86.Machine.Cpu
import ThreeX86.Machine.Ram

/-!
The memory probe of `bootblock.S`: one word in each page is tried until one does not read back.
-/

namespace ThreeX86.Boot

open Machine Machine.Memory

def testValue : Word := 0x31323738#32

section

variable (fitted : Nat → Prop) [DecidablePred fitted]

/-- The loop up to its `cmp`. -/
def probePage (c : Cpu) : Cpu :=
  let c := { c with edx := c.mem.load32 c.esi }
  let c := { c with mem := storeFitted fitted c.mem c.esi c.eax }
  let c := { c with ecx := c.mem.load32 c.esi }
  { c with mem := storeFitted fitted c.mem c.esi c.edx }

/-- The loop at `_fms_loop`. Nothing behind it reads the flags. -/
def fmsLoop : Nat → Cpu → Option Cpu
  | 0, _ => none
  | fuel + 1, c =>
    let c := probePage fitted c
    if c.ecx ≠ c.eax then some c
    else fmsLoop fuel { c with esi := c.esi + 0x1000#32 }

def findMemSizeProbe (fuel : Nat) (c : Cpu) : Option Cpu := do
  let c := { c with eax := testValue }
  let c := { c with esi := 0x100ff0#32 }
  let c ← fmsLoop fitted fuel c
  let c := { c with eax := c.esi }
  let c := { c with eax := c.eax - 0x1000#32 }
  let c := { c with eax := c.eax + 0x10#32 }
  return c.ret

end

/-- The word that is tried in the page `k` pages above 1 MB. -/
def probed (k : Nat) : Word := BitVec.ofNat 32 (0x100ff0 + 0x1000 * k)

/-- The bus does not hold the test value where less than the whole word is fitted. -/
def Floats (fitted : Nat → Prop) (m : Memory) (k : Nat) : Prop :=
  ∃ i < 4, ¬ fitted (probed k + BitVec.ofNat 32 i).toNat ∧ m (probed k + BitVec.ofNat 32 i) ≠ testValue.extractLsb' (8 * i) 8

/-- The pages above 1 MB whose tried word lies below `size`. -/
def probedPages (size : Nat) : Nat := (size + 12) / 4096 - 256

/-- What the probe makes of `size` bytes: whole pages, rounded down unless no more than the last 12 bytes are missing. -/
def probedSize (size : Nat) : Nat := (size + 12) / 4096 * 4096

section

variable {fitted : Nat → Prop} [DecidablePred fitted] {c : Cpu} {k n fuel : Nat}

theorem probed_succ (k : Nat) : probed k + 0x1000#32 = probed (k + 1) := by
  unfold probed
  rw [Nat.mul_succ, ← Nat.add_assoc, BitVec.ofNat_add (0x100ff0 + 0x1000 * k)]

/-- A page that has been tried holds what it held before. -/
theorem probePage_eq (c : Cpu) : probePage fitted c =
    { c with edx := c.mem.load32 c.esi, ecx := (storeFitted fitted c.mem c.esi c.eax).load32 c.esi } := by
  simp only [probePage, storeFitted_restores]

/-- The loop ends at the first word that does not read back. -/
theorem fmsLoop_spec (eax : c.eax = testValue) (esi : c.esi = probed k) (order : k ≤ n)
    (present : ∀ j, k ≤ j → j < n → ∀ i < 4, fitted (probed j + BitVec.ofNat 32 i).toNat) (floats : Floats fitted c.mem n)
    (enough : n - k < fuel) :
    ∃ c', fmsLoop fitted fuel c = some c' ∧ c'.esi = probed n ∧ c'.esp = c.esp ∧ c'.mem = c.mem := by
  induction fuel generalizing c k with
  | zero => omega
  | succ fuel ih =>
    rw [fmsLoop, probePage_eq]
    dsimp only
    by_cases last : k = n
    · obtain ⟨i, small, absent, other⟩ := floats
      have differs := load32_storeFitted_ne small absent other
      rw [← last, ← esi, ← eax] at differs
      exact ⟨_, if_pos differs, esi.trans (congrArg probed last), rfl, rfl⟩
    · have same : (storeFitted fitted c.mem c.esi c.eax).load32 c.esi = c.eax := by
        apply load32_storeFitted
        rw [esi]
        exact present k (Nat.le_refl k) (by omega)
      have next : c.esi + 0x1000#32 = probed (k + 1) := by rw [esi, probed_succ]
      rw [if_neg (not_not.mpr same)]
      exact ih (c := { c with
          ecx := (storeFitted fitted c.mem c.esi c.eax).load32 c.esi, edx := c.mem.load32 c.esi, esi := c.esi + 0x1000#32 })
        eax next (by omega) (fun j low => present j (by omega)) floats (by omega)

theorem findMemSizeProbe_spec (present : ∀ j < n, ∀ i < 4, fitted (probed j + BitVec.ofNat 32 i).toNat)
    (floats : Floats fitted c.mem n) (enough : n < fuel) :
    ∃ c', findMemSizeProbe fitted fuel c = some c' ∧ c'.eax = BitVec.ofNat 32 (0x100000 + 0x1000 * n) ∧
      c'.eip = c.mem.load32 c.esp ∧ c'.esp = c.esp + 4#32 ∧ c'.mem = c.mem := by
  obtain ⟨c', run, esi, esp, mem⟩ := fmsLoop_spec (c := { c with eax := testValue, esi := 0x100ff0#32 })
    (k := 0) (n := n) rfl rfl (Nat.zero_le n) (fun j _ high => present j high) floats (show n - 0 < fuel by omega)
  refine ⟨_, by rw [findMemSizeProbe]; simp only [run, Option.bind_eq_bind, Option.bind_some]; rfl, ?_, ?_, ?_, ?_⟩
  · show c'.esi - 0x1000#32 + 0x10#32 = _
    rw [esi]
    unfold probed
    apply BitVec.eq_of_toNat_eq
    simp only [BitVec.toNat_add, BitVec.toNat_sub, BitVec.toNat_ofNat]
    omega
  · show c'.mem.load32 c'.esp = _
    rw [mem, esp]
  · show c'.esp + 4#32 = _
    rw [esp]
  · exact mem

end

end ThreeX86.Boot
