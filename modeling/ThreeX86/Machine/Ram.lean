import ThreeX86.Machine.Memory

/-!
A memory that is fitted only in part: where nothing is fitted, stores go nowhere and loads read what the bus holds.
-/

namespace Machine.Memory

/-- `m` gives the byte on the bus wherever nothing is fitted. -/
def storeFitted (fitted : Nat → Prop) [DecidablePred fitted] (m : Memory) (a v : Word) : Memory :=
  overlay fitted (m.store32 a v) m

section

variable {fitted : Nat → Prop} [DecidablePred fitted] {m : Memory} {a v : Word}

theorem store32_byte (m : Memory) (a v : Word) {i : Nat} (small : i < 4) :
    m.store32 a v (a + BitVec.ofNat 32 i) = v.extractLsb' (8 * i) 8 := storeBytes_inside m a 4 i _ small (by decide)

theorem store32_store32 (m : Memory) (a v w : Word) : (m.store32 a v).store32 a w = m.store32 a w := by
  funext x
  unfold store32 storeBytes
  split <;> rfl

theorem load32_byte (m : Memory) (a : Word) {i : Nat} (small : i < 4) :
    (m.load32 a).extractLsb' (8 * i) 8 = m (a + BitVec.ofNat 32 i) := by
  rw [← store32_byte m a _ small]
  exact store32_load32 m a a small

theorem storeFitted_fitted {x : Word} (here : fitted x.toNat) : storeFitted fitted m a v x = m.store32 a v x := if_pos here

theorem storeFitted_absent {x : Word} (absent : ¬ fitted x.toNat) : storeFitted fitted m a v x = m x := if_neg absent

/-- A word that is fitted reads back what was stored. -/
theorem load32_storeFitted (here : ∀ i < 4, fitted (a + BitVec.ofNat 32 i).toNat) : (storeFitted fitted m a v).load32 a = v := by
  have same : (storeFitted fitted m a v).load32 a = (m.store32 a v).load32 a := by
    apply load32_congr
    intro i small
    exact storeFitted_fitted (here i small)
  exact same.trans (load32_store32 m a v)

/-- A word that is not does not, if the bus holds another byte there. -/
theorem load32_storeFitted_ne {i : Nat} (small : i < 4) (absent : ¬ fitted (a + BitVec.ofNat 32 i).toNat)
    (other : m (a + BitVec.ofNat 32 i) ≠ v.extractLsb' (8 * i) 8) : (storeFitted fitted m a v).load32 a ≠ v := by
  intro same
  apply other
  have byte := load32_byte (storeFitted fitted m a v) a small
  rw [same, storeFitted_absent absent] at byte
  exact byte.symm

/-- Storing the old word again leaves the memory as it was. -/
theorem storeFitted_restores (m : Memory) (a v : Word) : storeFitted fitted (storeFitted fitted m a v) a (m.load32 a) = m := by
  funext x
  by_cases here : fitted x.toNat
  · rw [storeFitted_fitted here]
    by_cases inside : offset a x < 4
    · have place : x = a + BitVec.ofNat 32 (offset a x) := (add_offset a x).symm
      rw [place, store32_byte _ a _ inside]
      exact load32_byte m a inside
    · rw [store32_outside _ a x _ (by omega), storeFitted_fitted here, store32_outside _ a x _ (by omega)]
  · rw [storeFitted_absent here, storeFitted_absent here]

end

end Machine.Memory
