import ThreeX86.Heap.Wrap

namespace ThreeX86.Heap

open Machine Machine.Memory ThreeX86.Lists Linked Extents Extent

/-! `calloc`, whose product is taken modulo `2^32`. -/

/-- What a caller expects: null and a heap as it was, or a block for the whole product, all of it zero. -/
def CallocSound (theheap : Word) (region : Extent) (s : HeapState) (count size : Word) : Prop :=
  ∃ p m', calloc theheap s.mem count size = some (p, m') ∧ (p = 0#32 → m' = s.mem) ∧
    (p ≠ 0#32 → (recorded m' p).Within region ∧ (recorded m' p).start ≤ p.toNat ∧
      p.toNat + count.toNat * size.toNat ≤ (recorded m' p).stop ∧
      ∀ i < count.toNat * size.toNat, m' (p + BitVec.ofNat 32 i) = 0#8)

section

variable {theheap : Word} {region e : Extent} {free left right : List Extent} {s : HeapState} {m m' : Memory}
  {count size p : Word}

theorem calloc_null (refused : miniheapAlloc theheap m (count * size) 0#32 = some (0#32, m')) :
    calloc theheap m count size = some (0#32, m') := by
  rw [calloc, refused]
  rfl

theorem calloc_served (served : miniheapAlloc theheap m (count * size) 0#32 = some (p, m')) (fresh : p ≠ 0#32) :
    calloc theheap m count size = some (p, memset m' p 0#32 (count * size)) := by
  rw [calloc, served]
  simp only [Option.bind_eq_bind, Option.bind_some, ne_eq, fresh, not_false_eq_true, ite_true]
  rfl

theorem toNat_chunkSize_unaligned (size : Word) : (chunkSize size 0#32).toNat = wrappedNeed size.toNat 0 :=
  toNat_chunkSize_wrapped (.inl rfl)

theorem HeapInv.alloc_at (layout : Layout theheap region) (inv : HeapInv theheap region s (left ++ e :: right))
    (size : Word) (small : ∀ r ∈ left, r.len < wrappedNeed size.toNat 0) (fits : wrappedNeed size.toNat 0 ≤ e.len) :
    ∃ p m', miniheapAlloc theheap s.mem size 0#32 = some (p, m') ∧ p.toNat = e.start + 8 := by
  have chunk := inv.chunk e (by simp)
  have bound := chunk.bound layout
  have large := chunk.large
  rw [← toNat_chunkSize_unaligned] at small fits
  have pass := miniheapAlloc_of_pass (.inl rfl)
    (allocPass_first (inv.free_chunks.placed layout) inv.list (clampAlignment 0#32) small fits)
  refine ⟨_, _, pass, ?_⟩
  have pointer : alignPtr (node e) (clampAlignment 0#32) = node e + sizeofAllocStructBegin := rfl
  rw [pointer, sizeofAllocStructBegin, BitVec.toNat_add, toNat_node (layout.placed chunk), BitVec.toNat_ofNat]
  simp only [stop] at bound
  omega

/-- A request that does not wrap and is served: the bytes set are the new payload. -/
theorem HeapInv.zeroed (layout : Layout theheap region)
    (inv : HeapInv theheap region ⟨m, ⟨p, size⟩ :: s.live⟩ free) :
    HeapInv theheap region ⟨memset m p 0#32 size, ⟨p, size⟩ :: s.live⟩ free ∧
      ∀ i < size.toNat, memset m p 0#32 size (p + BitVec.ofNat 32 i) = 0#8 := by
  have new : LiveBlock region (recorded m p) ⟨p, size⟩ := inv.live ⟨p, size⟩ List.mem_cons_self
  have inside : p.toNat + size.toNat ≤ 2^32 := by
    have bound := new.chunk.bound layout
    have upper : p.toNat + size.toNat ≤ (recorded m p).stop := new.upper
    omega
  have changes : Changes (fun x => ∃ b ∈ (⟨p, size⟩ : Block) :: s.live, b.Payload x) m (memset m p 0#32 size) :=
    (changes_fillBytes m p _ size.toNat inside).mono fun x within => ⟨⟨p, size⟩, List.mem_cons_self, within⟩
  constructor
  · exact inv.write layout changes
  · intro i bound
    have size_bound := size.isLt
    exact fillBytes_inside m p _ size.toNat i bound (by omega)

theorem HeapInv.calloc_sound (layout : Layout theheap region) (inv : HeapInv theheap region s free)
    (room : count.toNat * size.toNat + 11 < 2^32) : CallocSound theheap region s count size := by
  have product : (count * size).toNat = count.toNat * size.toNat := by
    rw [BitVec.toNat_mul, Nat.mod_eq_of_lt (by omega)]
  have none : slack (0#32 : Word).toNat = 0 := rfl
  have nonWrapping : NonWrapping (count * size) 0#32 := by
    rw [NonWrapping, product, none]
    omega
  rcases inv.alloc layout nonWrapping with failed | ⟨p, m1, free1, served, fresh, inv1, -⟩
  · exact ⟨0#32, s.mem, calloc_null failed, fun _ => rfl, fun fresh => absurd rfl fresh⟩
  · obtain ⟨inv2, zero⟩ := inv1.zeroed layout
    have block := inv2.live ⟨p, count * size⟩ List.mem_cons_self
    have lower : (recorded (memset m1 p 0#32 (count * size)) p).start + 8 ≤ p.toNat := block.lower
    have upper : p.toNat + (count * size).toNat ≤ (recorded (memset m1 p 0#32 (count * size)) p).stop := block.upper
    refine ⟨p, _, calloc_served served fresh, fun null => absurd null fresh, fun _ => ?_⟩
    rw [← product]
    exact ⟨⟨block.chunk.lower, block.chunk.upper⟩, by omega, upper, zero⟩

/-- A block that a served request hands out has no room for a product that reaches `2^32 - 11`. -/
theorem CallocSound.room (layout : Layout theheap region) (sound : CallocSound theheap region s count size)
    (served : miniheapAlloc theheap s.mem (count * size) 0#32 = some (p, m)) (lower : region.start + 8 ≤ p.toNat) :
    count.toNat * size.toNat + 11 < 2^32 := by
  obtain ⟨q, m', called, -, block⟩ := sound
  have fresh : p ≠ 0#32 := by
    intro null
    rw [null, BitVec.toNat_ofNat] at lower
    omega
  rw [calloc_served served fresh] at called
  cases called
  obtain ⟨⟨-, upper⟩, -, payload, -⟩ := block fresh
  have bound := layout.bound
  have base := layout.start_aligned
  have positive := layout.positive
  omega

/-- `calloc` keeps its promise exactly for the products that do not wrap and for those it refuses. -/
theorem calloc_sound_iff (layout : Layout theheap region) (reachable : Reachable theheap region s)
    (count size : Word) : CallocSound theheap region s count size ↔
      count.toNat * size.toNat + 11 < 2^32 ∨ ∃ free, HeapInv theheap region s free ∧
        ∀ e ∈ free, e.len < wrappedNeed (count.toNat * size.toNat % 2^32) 0 := by
  have product : (count * size).toNat = count.toNat * size.toNat % 2^32 := BitVec.toNat_mul count size
  rw [← product]
  obtain ⟨free, inv⟩ := reachable.inv layout
  constructor
  · intro sound
    rcases first_fit free (wrappedNeed (count * size).toNat 0) with none | ⟨left, e, right, rfl, small, fits⟩
    · exact .inr ⟨free, inv, none⟩
    · obtain ⟨p, m', served, pointer⟩ := inv.alloc_at layout _ small fits
      have lower := (inv.chunk e (by simp)).lower
      exact .inl (sound.room layout served (by omega))
  · intro either
    rcases either with room | ⟨free, inv, none⟩
    · exact inv.calloc_sound layout room
    · rw [← toNat_chunkSize_unaligned] at none
      have failed := miniheapAlloc_of_pass (.inl rfl) (allocPass_none (inv.free_chunks.placed layout) inv.list _ none)
      exact ⟨0#32, s.mem, calloc_null failed, fun _ => rfl, fun fresh => absurd rfl fresh⟩

theorem calloc_sound_iff_default : ∃ s, Reachable 4096#32 ⟨8192, 16384⟩ s ∧
    CallocSound 4096#32 ⟨8192, 16384⟩ s 16#32 4#32 := by
  obtain ⟨m', initialised, -⟩ := miniheapInit_spec layout_example fun _ => 0#8
  have reachable : Reachable 4096#32 ⟨8192, 16384⟩ ⟨m', []⟩ := .init initialised
  exact ⟨_, reachable, (calloc_sound_iff layout_example reachable 16#32 4#32).mpr (.inl (by decide))⟩

/-- `calloc(0x40000001, 4)` on the fresh heap gets a block for 4 bytes. -/
theorem not_calloc_sound : ∃ s, Reachable 4096#32 ⟨8192, 16384⟩ s ∧
    ¬ CallocSound 4096#32 ⟨8192, 16384⟩ s 0x40000001#32 4#32 := by
  obtain ⟨m', initialised, inv, -⟩ := miniheapInit_spec layout_example fun _ => 0#8
  have reachable : Reachable 4096#32 ⟨8192, 16384⟩ ⟨m', []⟩ := .init initialised
  have whole : HeapInv 4096#32 ⟨8192, 16384⟩ ⟨m', []⟩ ([] ++ ⟨8192, 16384⟩ :: []) := inv
  obtain ⟨p, m1, served, pointer⟩ := whole.alloc_at layout_example 4#32 (by simp) (by decide)
  refine ⟨_, reachable, fun sound => ?_⟩
  have room := sound.room layout_example served (by omega)
  exact absurd room (by decide)

end

end ThreeX86.Heap
