import ThreeX86.Heap.Guarantees

namespace ThreeX86.Heap

open Machine Machine.Memory ThreeX86.Lists Linked Extents Extent

/-! Requests whose size computation passes `2^32`. -/

/-- The length the allocation loop looks for, for any request, as arithmetic modulo `2^32`. -/
def wrappedNeed (size alignment : Nat) : Nat :=
  ((max ((size + 8) % 2^32) 12 + 3) % 2^32 / 4 * 4 + slack alignment) % 2^32

section

variable {theheap : Word} {region e : Extent} {free left right : List Extent} {s : HeapState} {m : Memory}
  {size alignment : Word}

theorem toNat_baseSize_wrapped (size : Word) :
    (baseSize size).toNat = (max ((size.toNat + 8) % 2^32) 12 + 3) % 2^32 / 4 * 4 := by
  have header : (size + sizeofAllocStructBegin).toNat = (size.toNat + 8) % 2^32 := by
    rw [sizeofAllocStructBegin, BitVec.toNat_add, BitVec.toNat_ofNat]
  have clamp : (if size + sizeofAllocStructBegin < sizeofFreeHeapChunk then sizeofFreeHeapChunk
      else size + sizeofAllocStructBegin).toNat = max ((size.toNat + 8) % 2^32) 12 := by
    simp only [BitVec.lt_def, header, sizeofFreeHeapChunk, BitVec.toNat_ofNat]
    split
    · rw [BitVec.toNat_ofNat]; omega
    · rw [header]; omega
  have word : sizeofPointer.toNat = 2^2 := rfl
  have three : (sizeofPointer - 1#32).toNat = 3 := rfl
  have rounded : (baseSize size).toNat = (max ((size.toNat + 8) % 2^32) 12 + 3) % 2^32 / 2^2 * 2^2 := by
    rw [baseSize, roundUp, toNat_and_not_mask _ _ 2 word, BitVec.toNat_add, clamp, three]
  simpa only [Nat.reducePow] using rounded

theorem toNat_chunkSize_wrapped (valid : alignment = 0#32 ∨ alignment.toNat.isPowerOfTwo) :
    (chunkSize size alignment).toNat = wrappedNeed size.toNat alignment.toNat := by
  obtain ⟨-, clamp⟩ := clamp_valid valid
  have base := toNat_baseSize_wrapped size
  rw [wrappedNeed, ← base]
  simp only [chunkSize, gt_iff_lt, BitVec.lt_def, BitVec.toNat_ofNat, Nat.zero_mod]
  split
  · rw [BitVec.toNat_add, clamp]
  · rename_i zero
    have none : slack alignment.toNat = 0 := if_neg zero
    rw [none, Nat.add_zero, Nat.mod_eq_of_lt (baseSize size).isLt]

theorem slack_le (power : alignment.toNat.isPowerOfTwo) : slack alignment.toNat ≤ 2^31 := by
  have bound := alignment.isLt
  obtain ⟨k, hk⟩ := power
  have order : k < 32 := (Nat.pow_lt_pow_iff_right (by decide)).mp (hk ▸ bound)
  have most : 2^k ≤ 2^31 := Nat.pow_le_pow_right (by decide) (by omega)
  simp only [slack]
  split <;> omega

/-- A wrapped length is too short for the payload by more than the split threshold. -/
theorem wrappedNeed_lt (valid : alignment = 0#32 ∨ alignment.toNat.isPowerOfTwo)
    (wraps : ¬ NonWrapping size alignment) :
    wrappedNeed size.toNat alignment.toNat + 12 < size.toNat ∧ wrappedNeed size.toNat alignment.toNat % 4 = 0 := by
  have bound := size.isLt
  have aligned : slack alignment.toNat % 16 = 0 := by
    apply slack_aligned
    rcases valid with rfl | power
    · exact .inl rfl
    · exact .inr power
  have most : slack alignment.toNat ≤ 2^31 := by
    rcases valid with rfl | power
    · exact Nat.zero_le _
    · exact slack_le power
  simp only [NonWrapping] at wraps
  simp only [wrappedNeed]
  omega

/-- What a caller expects of a pointer, whatever it asked for: the payload lies in the chunk recorded
    for it, and the free list is one of disjoint chunks off every live one. -/
def PayloadSound (theheap : Word) (region : Extent) (s : HeapState) (size alignment : Word) : Prop :=
  ∀ p m', miniheapAlloc theheap s.mem size alignment = some (p, m') → p ≠ 0#32 →
    (recorded m' p).Within region ∧ (recorded m' p).start ≤ p.toNat ∧
      p.toNat + size.toNat ≤ (recorded m' p).stop ∧
      ∃ free', FreeListAt theheap m' free' ∧ free'.Pairwise Apart ∧
        ∀ e ∈ free', 12 ≤ e.len ∧ e.Within region ∧
          ∀ b ∈ (⟨p, size⟩ : Block) :: s.live, e.Apart (recorded m' b.ptr)

/-- The request is refused for its alignment or for want of room, or the aligned pointer passes the
    end of the address space and comes out null. -/
def Refused (free : List Extent) (size alignment : Word) : Prop :=
  ¬ (alignment = 0#32 ∨ alignment.toNat.isPowerOfTwo) ∨
    (∀ e ∈ free, e.len < wrappedNeed size.toNat alignment.toNat) ∨
    ∃ left e right, free = left ++ e :: right ∧ (∀ r ∈ left, r.len < wrappedNeed size.toNat alignment.toNat) ∧
      wrappedNeed size.toNat alignment.toNat ≤ e.len ∧ 2^32 < e.start + 8 + slack alignment.toNat

theorem alignPtr_wraps (layout : Layout theheap region) (chunk : IsChunk region e) {a : Word}
    (power : a.toNat.isPowerOfTwo) (past : 2^32 < e.start + 8 + a.toNat) : alignPtr (node e) a = 0#32 := by
  have bound := chunk.bound layout
  have large := chunk.large
  have limit := a.isLt
  have header := toNat_payloadStart (layout.placed chunk)
  have positive := Nat.pos_of_isPowerOfTwo power
  have up : alignPtr (node e) a = roundUp (node e + sizeofAllocStructBegin) a := alignPtr_power power
  have less : (a - 1#32).toNat = a.toNat - 1 := by
    rw [BitVec.toNat_sub, BitVec.toNat_ofNat]
    omega
  obtain ⟨k, hk⟩ := power
  apply BitVec.eq_of_toNat_eq
  rw [up, roundUp, toNat_and_not_mask _ a k hk, BitVec.toNat_add, header, less, ← hk]
  simp only [stop] at bound
  have small : (e.start + 8 + (a.toNat - 1)) % 2^32 < a.toNat := by omega
  rw [Nat.div_eq_of_lt small]
  simp

theorem alignPtr_lower (layout : Layout theheap region) (chunk : IsChunk region e) {a : Word}
    (valid : a = 0#32 ∨ a.toNat.isPowerOfTwo) (room : e.start + 8 + a.toNat ≤ 2^32) :
    e.start + 8 ≤ (alignPtr (node e) a).toNat := by
  have header := toNat_payloadStart (layout.placed chunk)
  rcases valid with rfl | power
  · have plain : alignPtr (node e) 0#32 = node e + sizeofAllocStructBegin := rfl
    rw [plain, header]
  · have bounds := roundUp_bounds (node e + sizeofAllocStructBegin) a power (by rw [header]; omega)
    rw [alignPtr_power power, ← header]
    exact bounds.1

/-- The forward pointers of the list head and of the chunks below `e` are off the record of a
    pointer into or past `e`, and off the globals. -/
theorem next_kept (layout : Layout theheap region) (list : ChunkList region (left ++ e :: right)) {m' : Memory}
    {p : Word} (lower : e.start + 8 ≤ p.toNat) (upper : p.toNat ≤ region.stop)
    (changes : Changes (fun x => (p.toNat ≤ x + 8 ∧ x < p.toNat) ∨ (theheap.toNat + 8 ≤ x ∧ x < theheap.toNat + 16)) m m') :
    ∀ z ∈ freeList theheap :: left.map node, NodeStore.next m' z = NodeStore.next m z := by
  intro z member
  have room := layout.room
  have apart := layout.apart
  have chunk := list.chunk e (by simp)
  have regionLower := chunk.lower
  rcases List.mem_cons.mp member with rfl | member
  · have address : (freeList theheap + 4#32).toNat = theheap.toNat + 20 := by
      rw [BitVec.toNat_add, toNat_freeList room, BitVec.toNat_ofNat]
      omega
    apply changes.load32
    · omega
    · intro i small inside
      simp only [stop] at apart upper
      omega
  · obtain ⟨a, ha, rfl⟩ := List.mem_map.mp member
    have chunkA := list.chunk a (by simp [ha])
    have largeA := chunkA.large
    have boundA := chunkA.bound layout
    have order := (List.pairwise_append.mp list.ordered).2.2 a ha e List.mem_cons_self
    have address : (node a + 4#32).toNat = a.start + 4 := by
      rw [BitVec.toNat_add, toNat_node (layout.placed chunkA), BitVec.toNat_ofNat]
      simp only [stop] at boundA
      omega
    simp only [stop] at order boundA
    apply changes.load32
    · omega
    · intro i small inside
      have off := (layout.placed chunkA).off_theheap (x := a.start + 4 + i) (by simp only [stop]; omega)
      omega

/-- A wrapped request that finds a chunk hands out a payload longer than the chunk it took. -/
theorem HeapInv.wrapped (layout : Layout theheap region) (inv : HeapInv theheap region s (left ++ e :: right))
    (valid : alignment = 0#32 ∨ alignment.toNat.isPowerOfTwo) (wraps : ¬ NonWrapping size alignment)
    (small : ∀ r ∈ left, r.len < wrappedNeed size.toNat alignment.toNat)
    (fits : wrappedNeed size.toNat alignment.toNat ≤ e.len) (room : e.start + 8 + slack alignment.toNat ≤ 2^32) :
    ¬ PayloadSound theheap region s size alignment := by
  have list := inv.free_chunks.list
  have chunk := list.chunk e (by simp)
  have bound := chunk.bound layout
  obtain ⟨clamped, value⟩ := clamp_valid valid
  obtain ⟨long, aligned⟩ := wrappedNeed_lt valid wraps
  rw [← toNat_chunkSize_wrapped valid] at small fits long aligned
  have lower : e.start + 8 ≤ (alignPtr (node e) (clampAlignment alignment)).toNat :=
    alignPtr_lower layout chunk (clamped.imp_right And.left) (by omega)
  have pass := miniheapAlloc_of_pass valid
    (allocPass_first (inv.free_chunks.placed layout) inv.list (clampAlignment alignment) small fits)
  generalize pointer : alignPtr (node e) (clampAlignment alignment) = p at lower pass
  generalize cutTo : cutChunk theheap s.mem (node e) (chunkSize size alignment) = m1 at pass
  have notNull : p ≠ 0#32 := by
    intro null
    rw [null, BitVec.toNat_ofNat] at lower
    omega
  intro sound
  obtain ⟨⟨-, upper⟩, -, payload, free', list', -, apart⟩ := sound p _ pass notNull
  have side : p.toNat ≤ region.stop := by omega
  have off : p.toNat ≤ theheap.toNat + 8 ∨ theheap.toNat + 24 ≤ p.toNat := by
    have disjoint := layout.apart
    have regionLower := chunk.lower
    omega
  have lower' : 8 ≤ p.toNat := by omega
  obtain ⟨atChunk, atSize, -, -, record⟩ := recordChunk_spec layout.room m1 (node e) (chunkLen m1 (node e)) lower' off
  generalize recordTo : recordChunk theheap m1 p (node e) (chunkLen m1 (node e)) = m' at *
  have start : (recorded m' p).start = e.start := by rw [recorded, atChunk, toNat_node (layout.placed chunk)]
  have len : (recorded m' p).len = (chunkLen m1 (node e)).toNat := by rw [recorded, atSize]
  by_cases split : (chunkSize size alignment).toNat + 12 < e.len
  · -- the part split off is on the free list, inside the payload
    obtain ⟨ring, -, -⟩ := cutChunk_split (list.placed layout) inv.list split
    rw [cutTo, List.map_append, List.map_cons] at ring
    obtain ⟨rest, same⟩ := ring.same_next list'.ring (next_kept layout list lower side record)
    obtain ⟨t, member, at_⟩ := List.mem_map.mp (show node (tailPart e (chunkSize size alignment)) ∈ free'.map node by
      rw [same]; simp)
    obtain ⟨large, within, clash⟩ := apart t member
    have tailChunk := tailPart_chunk (layout.placed chunk) split
    have address : t.start = e.start + (chunkSize size alignment).toNat := by
      have values := congrArg BitVec.toNat at_
      have last := within.2
      have regionBound := layout.bound
      simp only [stop] at last regionBound
      rw [toNat_node tailChunk, node, toNat_ofNat_word (by omega)] at values
      exact values
    have overlap : t.Apart (recorded m' p) := clash ⟨p, size⟩ List.mem_cons_self
    refine overlap.disjoint t.start ⟨?_, ?_⟩
    · simp only [Contains, stop]
      omega
    · constructor
      · rw [start]; omega
      · omega
  · -- the whole chunk was taken, and it is too short
    have whole := (cutChunk_whole (list.placed layout) inv.list fits split).2.1
    rw [cutTo] at whole
    have kept : (chunkLen m1 (node e)).toNat = e.len := by
      rw [whole]
      apply toNat_ofNat_word
      simp only [stop] at bound
      omega
    simp only [stop, start, len, kept] at payload
    omega

theorem HeapInv.refused (layout : Layout theheap region) (inv : HeapInv theheap region s free)
    (refused : Refused free size alignment) : ∃ m', miniheapAlloc theheap s.mem size alignment = some (0#32, m') := by
  by_cases valid : alignment = 0#32 ∨ alignment.toNat.isPowerOfTwo
  · rcases refused with invalid | none | ⟨left, e, right, rfl, small, fits, past⟩
    · exact absurd valid invalid
    · rw [← toNat_chunkSize_wrapped valid] at none
      exact ⟨s.mem, miniheapAlloc_of_pass valid (allocPass_none (inv.free_chunks.placed layout) inv.list _ none)⟩
    · have chunk := inv.chunk e (by simp)
      have bound := chunk.bound layout
      have large := chunk.large
      obtain ⟨clamped, value⟩ := clamp_valid valid
      rw [← toNat_chunkSize_wrapped valid] at small fits
      have power : (clampAlignment alignment).toNat.isPowerOfTwo := by
        rcases clamped with zero | ⟨power, -⟩
        · rw [zero, BitVec.toNat_ofNat] at value
          simp only [stop] at bound
          omega
        · exact power
      have null := alignPtr_wraps layout chunk power (by omega)
      have pass := miniheapAlloc_of_pass valid
        (allocPass_first (inv.free_chunks.placed layout) inv.list (clampAlignment alignment) small fits)
      exact ⟨_, by simpa only [takeChunk, null] using pass⟩
  · exact ⟨s.mem, miniheapAlloc_invalid s.mem valid⟩

theorem HeapInv.payload_sound (layout : Layout theheap region) (inv : HeapInv theheap region s free)
    (room : NonWrapping size alignment) : PayloadSound theheap region s size alignment := by
  intro p m' allocated notNull
  rcases inv.alloc layout room with failed | ⟨ptr, m'', free', served, -, inv', -⟩
  · rw [failed] at allocated
    cases allocated
    exact absurd rfl notNull
  · rw [served] at allocated
    cases allocated
    have block := inv'.live ⟨p, size⟩ List.mem_cons_self
    have lower : (recorded m' p).start + 8 ≤ p.toNat := block.lower
    refine ⟨⟨block.chunk.lower, block.chunk.upper⟩, by omega, block.upper, free', inv'.list, ?_, ?_⟩
    · exact inv'.free_chunks.list.ordered.imp fun order => .inl order
    · intro e member
      have chunk := inv'.chunk e member
      exact ⟨chunk.large, ⟨chunk.lower, chunk.upper⟩, fun b hb =>
        inv'.partition.across e member _ (List.mem_map_of_mem hb)⟩

/-- The allocator keeps its promise exactly for the requests whose sizes do not wrap and for those
    it refuses. -/
theorem payload_sound_iff (layout : Layout theheap region) (reachable : Reachable theheap region s)
    (size alignment : Word) : PayloadSound theheap region s size alignment ↔
      NonWrapping size alignment ∨ ∃ free, HeapInv theheap region s free ∧ Refused free size alignment := by
  constructor
  · intro sound
    obtain ⟨free, inv⟩ := reachable.inv layout
    by_cases room : NonWrapping size alignment
    · exact .inl room
    · refine .inr ⟨free, inv, ?_⟩
      by_cases valid : alignment = 0#32 ∨ alignment.toNat.isPowerOfTwo
      · rcases first_fit free (wrappedNeed size.toNat alignment.toNat) with none | ⟨left, e, right, rfl, small, fits⟩
        · exact .inr (.inl none)
        · by_cases past : 2^32 < e.start + 8 + slack alignment.toNat
          · exact .inr (.inr ⟨left, e, right, rfl, small, fits, past⟩)
          · exact absurd sound (inv.wrapped layout valid room small fits (by omega))
      · exact .inl valid
  · intro either
    rcases either with room | ⟨free, inv, refused⟩
    · obtain ⟨free, inv⟩ := reachable.inv layout
      exact inv.payload_sound layout room
    · obtain ⟨m', failed⟩ := inv.refused layout refused
      intro p m'' allocated notNull
      rw [failed] at allocated
      cases allocated
      exact absurd rfl notNull

theorem payload_sound_iff_default : ∃ s, Reachable 4096#32 ⟨8192, 16384⟩ s ∧
    PayloadSound 4096#32 ⟨8192, 16384⟩ s 100#32 16#32 := by
  obtain ⟨m', initialised, -⟩ := miniheapInit_spec layout_example fun _ => 0#8
  have reachable : Reachable 4096#32 ⟨8192, 16384⟩ ⟨m', []⟩ := .init initialised
  exact ⟨_, reachable, (payload_sound_iff layout_example reachable 100#32 16#32).mpr (.inl (by decide))⟩

/-- `malloc(0xfffffff8)` on the fresh heap takes 12 bytes. -/
theorem payload_unsound : ∃ s, Reachable 4096#32 ⟨8192, 16384⟩ s ∧
    ¬ PayloadSound 4096#32 ⟨8192, 16384⟩ s 0xfffffff8#32 0#32 := by
  obtain ⟨m', initialised, inv, -⟩ := miniheapInit_spec layout_example fun _ => 0#8
  have reachable : Reachable 4096#32 ⟨8192, 16384⟩ ⟨m', []⟩ := .init initialised
  have whole : HeapInv 4096#32 ⟨8192, 16384⟩ ⟨m', []⟩ ([] ++ ⟨8192, 16384⟩ :: []) := inv
  exact ⟨_, reachable, whole.wrapped layout_example (.inl rfl) (by decide) (by simp) (by decide) (by decide)⟩

end

end ThreeX86.Heap
