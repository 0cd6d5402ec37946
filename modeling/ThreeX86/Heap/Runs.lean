import ThreeX86.Heap.Blocks
import ThreeX86.Machine.Run

namespace ThreeX86.Heap

open Machine Machine.Memory ThreeX86.Lists Linked Extents Extent

/-! Clients of a heap with one region: the calls they may make, and what every run keeps. -/

inductive HeapOp where
  | alloc (size alignment : Word)
  | realloc (ptr size : Word)
  | free (ptr : Word)
  | write (mem : Memory)

def HeapState.release (s : HeapState) (ptr : Word) : List Block := s.live.eraseP fun b => b.ptr == ptr

/-- Sizes do not wrap, only live pointers are given back, and clients write to payloads only. -/
def HeapState.Allowed (s : HeapState) : HeapOp → Prop
  | .alloc size alignment => NonWrapping size alignment
  | .realloc ptr size => NonWrapping size 0#32 ∧ ∃ b ∈ s.live, b.ptr = ptr
  | .free ptr => ∃ b ∈ s.live, b.ptr = ptr
  | .write mem => Changes (fun x => ∃ b ∈ s.live, b.Payload x) s.mem mem

def HeapState.step (theheap : Word) (s : HeapState) : HeapOp → Option HeapState
  | .alloc size alignment => do
    let (p, mem) ← miniheapAlloc theheap s.mem size alignment
    return ⟨mem, if p = 0#32 then s.live else ⟨p, size⟩ :: s.live⟩
  | .realloc ptr size => do
    let (p, mem) ← miniheapRealloc theheap s.mem ptr size
    return ⟨mem, if size = 0#32 then s.release ptr else if p = 0#32 then s.live else ⟨p, size⟩ :: s.release ptr⟩
  | .free ptr => do
    let mem ← miniheapFree theheap s.mem ptr
    return ⟨mem, s.release ptr⟩
  | .write mem => some ⟨mem, s.live⟩

/-- `miniheap_init` has just been given the region. -/
def HeapState.Fresh (theheap : Word) (region : Extent) (s : HeapState) : Prop :=
  ∃ m m', miniheapInit theheap m (BitVec.ofNat 32 region.start) (BitVec.ofNat 32 region.len) = some m' ∧ s = ⟨m', []⟩

def HeapState.Step (theheap : Word) (s : HeapState) (op : HeapOp) (s' : HeapState) : Prop :=
  s.Allowed op ∧ s.step theheap op = some s'

/-- The states of the runs that start with `miniheap_init` on the region. -/
def Reachable (theheap : Word) (region : Extent) : HeapState → Prop :=
  Transition.Reachable (HeapState.Fresh theheap region) (HeapState.Step theheap)

/-- A live block inside its chunk, behind the 8-byte header. -/
structure LiveBlock (region c : Extent) (b : Block) : Prop where
  chunk : IsChunk region c
  lower : c.start + 8 ≤ b.ptr.toNat
  upper : b.ptr.toNat + b.size.toNat ≤ c.stop

structure HeapInv (theheap : Word) (region : Extent) (s : HeapState) (free : List Extent) : Prop where
  list : FreeListAt theheap s.mem free
  chunk : ∀ e ∈ free, IsChunk region e
  live : ∀ b ∈ s.live, LiveBlock region (recorded s.mem b.ptr) b
  partition : Partition region free s.chunks
  remaining : remaining theheap s.mem = BitVec.ofNat 32 (total free)

section

variable {theheap : Word} {region c : Extent} {free : List Extent} {s : HeapState} {m m' : Memory}

theorem HeapInv.free_chunks (inv : HeapInv theheap region s free) : FreeChunks region free :=
  ⟨inv.chunk, inv.partition.gapped⟩

theorem HeapInv.live_chunk (inv : HeapInv theheap region s free) : ∀ e ∈ s.chunks, IsChunk region e := by
  intro e member
  obtain ⟨b, hb, rfl⟩ := List.mem_map.mp member
  exact (inv.live b hb).chunk

theorem LiveBlock.placed {b : Block} (layout : Layout theheap region) (block : LiveBlock region c b) :
    PlacedBlock theheap c b :=
  ⟨layout.placed block.chunk, block.lower, block.upper⟩

theorem LiveBlock.payload_inside {b : Block} (block : LiveBlock region c b) {x : Nat} (inside : b.Payload x) :
    c.Contains x := by
  obtain ⟨-, lower, upper⟩ := block
  simp only [Block.Payload, Contains, stop] at *
  omega

/-- What does not depend on the region. -/
theorem HeapInv.blocks (layout : Layout theheap region) (inv : HeapInv theheap region s free) :
    BlocksInv theheap s free :=
  ⟨layout.room, inv.list, fun e he => layout.placed (inv.chunk e he), fun b hb => (inv.live b hb).placed layout,
    inv.partition.separate, inv.remaining⟩

theorem BlocksInv.heap (inv : BlocksInv theheap s free) (chunk : ∀ e ∈ free, IsChunk region e)
    (live : ∀ b ∈ s.live, IsChunk region (recorded s.mem b.ptr))
    (cover : ∀ x, region.Contains x ↔ Covers free x ∨ Covers s.chunks x) : HeapInv theheap region s free where
  list := inv.list
  chunk := chunk
  live b hb := ⟨live b hb, (inv.live b hb).lower, (inv.live b hb).upper⟩
  partition := inv.separate.partition cover
  remaining := inv.remaining

/-! ### `miniheap_init` -/

theorem region_chunk (layout : Layout theheap region) : IsChunk region region :=
  ⟨layout.start_aligned, layout.len_aligned, layout.large, Nat.le_refl _, Nat.le_refl _⟩

theorem miniheapInit_spec (layout : Layout theheap region) (m : Memory) :
    ∃ m', miniheapInit theheap m (BitVec.ofNat 32 region.start) (BitVec.ofNat 32 region.len) = some m' ∧
      HeapInv theheap region ⟨m', []⟩ [region] ∧ lowWatermark theheap m' = 0#32 := by
  have chunk := region_chunk layout
  obtain ⟨m', initialised, inv, -, -, mark⟩ := miniheapInit_placed layout.room (layout.placed chunk) m
  refine ⟨m', initialised, inv.heap (by simpa using chunk) (by simp) fun x => ?_, mark⟩
  simp [HeapState.chunks, Covers]

/-! ### Client stores -/

theorem HeapInv.write (layout : Layout theheap region) (inv : HeapInv theheap region s free)
    (writes : Changes (fun x => ∃ b ∈ s.live, b.Payload x) s.mem m') : HeapInv theheap region ⟨m', s.live⟩ free := by
  obtain ⟨kept, after⟩ := (inv.blocks layout).write writes
  have same : HeapState.chunks ⟨m', s.live⟩ = s.chunks := chunks_kept kept
  apply after.heap inv.chunk
  · intro b hb
    have block := inv.live b hb
    rw [← kept b hb] at block
    exact block.chunk
  · rw [same]
    exact inv.partition.cover

/-! ### `miniheap_alloc` -/

theorem HeapInv.served (layout : Layout theheap region) {left right : List Extent} {e : Extent} {n : Nat}
    {ptr : Word} (size : Word) (inv : HeapInv theheap region s (left ++ e :: right)) (aligned : n % 4 = 0) (large : 12 ≤ n)
    (fits : n ≤ e.len) (served : Served theheap s.mem m' left e right n ptr) (lower : e.start + 8 ≤ ptr.toNat)
    (upper : ptr.toNat + size.toNat ≤ e.start + n) :
    recorded m' ptr = carved e n ∧ (∀ b ∈ s.live, recorded m' b.ptr = recorded s.mem b.ptr) ∧
      HeapInv theheap region ⟨m', ⟨ptr, size⟩ :: s.live⟩ (left ++ leftover e n ++ right) := by
  obtain ⟨record, kept, chunks_eq, after⟩ := (inv.blocks layout).served size large fits served lower upper
  refine ⟨record, kept, after.heap (inv.free_chunks.carve aligned).chunk ?_ ?_⟩
  · intro b hb
    rcases List.mem_cons.mp hb with rfl | hb
    · rw [record]
      exact (inv.chunk e (by simp)).carve aligned large
    · have block := inv.live b hb
      rw [← kept b hb] at block
      exact block.chunk
  · intro x
    rw [chunks_eq, inv.partition.cover, covers_leftover (n := n), covers_cons]
    tauto

/-! ### `miniheap_free` -/

theorem HeapInv.freed (layout : Layout theheap region) {left right : List Block} {b : Block}
    (inv : HeapInv theheap region s free) (split : s.live = left ++ b :: right) :
    ∃ m', miniheapFree theheap s.mem b.ptr = some m' ∧
      HeapInv theheap region ⟨m', left ++ right⟩ (insertExtent free (recorded s.mem b.ptr)) ∧
      (∀ a ∈ left ++ right, ∀ x : Word, (recorded s.mem a.ptr).Contains x.toNat → m' x = s.mem x) ∧
      lowWatermark theheap m' = lowWatermark theheap s.mem := by
  have blocks := inv.blocks layout
  have member : b ∈ s.live := by simp [split]
  obtain ⟨m', released, freed⟩ := blocks.freed split
  refine ⟨m', released, freed.blocks.heap ?_ ?_ ?_, freed.untouched,
    global_inserted layout.room (blocks.placed_cons member) freed.changes (.inr rfl)⟩
  · exact forall_insertExtent (fun a b ha hb meet => ha.join hb meet) inv.chunk (inv.live b member).chunk
  · intro a ha
    have chunk := (inv.live a (mem_live_of_split split a ha)).chunk
    rw [← freed.kept a ha] at chunk
    exact chunk
  · intro x
    rw [inv.partition.cover, freed.cover]

theorem HeapInv.alloc (layout : Layout theheap region) (inv : HeapInv theheap region s free) {size alignment : Word}
    (room : NonWrapping size alignment) :
    miniheapAlloc theheap s.mem size alignment = some (0#32, s.mem) ∨
      ∃ ptr m' free', miniheapAlloc theheap s.mem size alignment = some (ptr, m') ∧ ptr ≠ 0#32 ∧
        HeapInv theheap region ⟨m', ⟨ptr, size⟩ :: s.live⟩ free' ∧
        (∀ b ∈ s.live, ∀ x : Word, (recorded s.mem b.ptr).Contains x.toNat → m' x = s.mem x) ∧
        lowWatermark theheap m' = if Heap.remaining theheap m' < lowWatermark theheap s.mem then
          Heap.remaining theheap m' else lowWatermark theheap s.mem := by
  by_cases valid : alignment = 0#32 ∨ alignment.toNat.isPowerOfTwo
  · rcases first_fit free (need size.toNat alignment.toNat) with small | ⟨left, e, right, rfl, small, fits⟩
    · exact .inl (miniheapAlloc_none (inv.free_chunks.placed layout) inv.list valid room small)
    · obtain ⟨ptr, m', allocated, served, mark, lower, upper, -⟩ :=
        miniheapAlloc_first (inv.free_chunks.placed layout) inv.list valid room small fits
      have least := twelve_le_need size.toNat alignment.toNat
      obtain ⟨-, -, inv'⟩ := inv.served layout size (need_four valid) least fits served lower upper
      have untouched (b : Block) (hb : b ∈ s.live) (x : Word) (inside : (recorded s.mem b.ptr).Contains x.toNat) :
          m' x = s.mem x := (inv.blocks layout).served_untouched served hb inside
      refine .inr ⟨ptr, m', _, allocated, ?_, inv', untouched, mark⟩
      intro null
      rw [null, BitVec.toNat_ofNat] at lower
      omega
  · exact .inl (miniheapAlloc_invalid s.mem valid)

/-! ### `miniheap_realloc` -/

/-- What a successful `miniheap_realloc` leaves: the old payload is in the new block, up to the shorter of the two,
    and the other live chunks are as they were. -/
structure Moved (s : HeapState) (m' : Memory) (b : Block) (others : List Block) (ptr size : Word) : Prop where
  payload : ∀ i < min ((recorded s.mem b.ptr).stop - b.ptr.toNat) size.toNat,
    m' (ptr + BitVec.ofNat 32 i) = s.mem (b.ptr + BitVec.ofNat 32 i)
  others : ∀ a ∈ others, ∀ x : Word, (recorded s.mem a.ptr).Contains x.toNat → m' x = s.mem x

theorem HeapInv.payload_bound (layout : Layout theheap region) {ptr size : Word}
    (inv : HeapInv theheap region ⟨m, ⟨ptr, size⟩ :: s.live⟩ free) : ptr.toNat + size.toNat ≤ 2^32 := by
  have new : LiveBlock region (recorded m ptr) ⟨ptr, size⟩ := inv.live ⟨ptr, size⟩ List.mem_cons_self
  have bound := new.chunk.bound layout
  have upper : ptr.toNat + size.toNat ≤ (recorded m ptr).stop := new.upper
  omega

theorem HeapInv.copies (layout : Layout theheap region) {ptr size : Word}
    (inv : HeapInv theheap region ⟨m, ⟨ptr, size⟩ :: s.live⟩ free) (src : Word) :
    Changes (fun x => ∃ b ∈ (⟨ptr, size⟩ : Block) :: s.live, b.Payload x) m (memcpy m ptr src size) := by
  exact (changes_moveBytes m ptr src size.toNat (inv.payload_bound layout)).mono fun x inside => ⟨⟨ptr, size⟩, List.mem_cons_self, inside⟩

theorem HeapInv.copied (layout : Layout theheap region) {ptr size : Word}
    (inv : HeapInv theheap region ⟨m, ⟨ptr, size⟩ :: s.live⟩ free) (src : Word) :
    HeapInv theheap region ⟨memcpy m ptr src size, ⟨ptr, size⟩ :: s.live⟩ free ∧
      ∀ a ∈ s.live, ∀ x : Word, (recorded m a.ptr).Contains x.toNat → memcpy m ptr src size x = m x := by
  have new : LiveBlock region (recorded m ptr) ⟨ptr, size⟩ := inv.live ⟨ptr, size⟩ List.mem_cons_self
  have changes : Changes (Block.Payload ⟨ptr, size⟩) m (memcpy m ptr src size) :=
    changes_moveBytes m ptr src size.toNat (inv.payload_bound layout)
  constructor
  · exact inv.write layout (inv.copies layout src)
  · intro a ha x contains
    apply changes
    intro written
    have split : ⟨ptr, size⟩ :: s.live = [] ++ ⟨ptr, size⟩ :: s.live := rfl
    have apart := ((inv.blocks layout).live_apart split a ha).disjoint x.toNat
    exact apart ⟨contains, new.payload_inside written⟩

/-- The old payload gets into the new block: the new block does not start among the bytes copied. -/
theorem HeapInv.copied_payload (layout : Layout theheap region) {ptr size : Word} {b : Block} {i : Nat}
    (inv : HeapInv theheap region ⟨m, ⟨ptr, size⟩ :: s.live⟩ free) (held : b ∈ s.live)
    (bound : i < min ((recorded m b.ptr).stop - b.ptr.toNat) size.toNat) :
    memcpy m ptr b.ptr size (ptr + BitVec.ofNat 32 i) = m (b.ptr + BitVec.ofNat 32 i) := by
  have new : LiveBlock region (recorded m ptr) ⟨ptr, size⟩ := inv.live ⟨ptr, size⟩ List.mem_cons_self
  have old : LiveBlock region (recorded m b.ptr) b := inv.live b (List.mem_cons_of_mem _ held)
  have split : ⟨ptr, size⟩ :: s.live = [] ++ ⟨ptr, size⟩ :: s.live := rfl
  have apart : (recorded m b.ptr).Apart (recorded m ptr) := (inv.blocks layout).live_apart split b held
  have newLower : (recorded m ptr).start + 8 ≤ ptr.toNat := new.lower
  have newUpper : ptr.toNat + size.toNat ≤ (recorded m ptr).stop := new.upper
  have oldLower := old.lower
  have oldStop := old.chunk.bound layout
  have clear : i < offset b.ptr ptr := by
    by_contra beyond
    have position := congrArg BitVec.toNat (add_offset b.ptr ptr)
    rw [BitVec.toNat_add, BitVec.toNat_ofNat] at position
    refine apart.disjoint ptr.toNat ⟨?_, ?_⟩
    · simp only [Contains]
      omega
    · simp only [Contains]
      omega
  exact moveBytes_inside m ptr b.ptr size.toNat i (by omega) (by omega) (Or.inl clear)

theorem HeapInv.realloc (layout : Layout theheap region) {left right : List Block} {b : Block}
    (inv : HeapInv theheap region s free) (split : s.live = left ++ b :: right) {size : Word}
    (room : NonWrapping size 0#32) (nonzero : size ≠ 0#32) :
    miniheapRealloc theheap s.mem b.ptr size = some (0#32, s.mem) ∨
      ∃ ptr m' free', miniheapRealloc theheap s.mem b.ptr size = some (ptr, m') ∧ ptr ≠ 0#32 ∧
        HeapInv theheap region ⟨m', ⟨ptr, size⟩ :: (left ++ right)⟩ (insertExtent free' (recorded s.mem b.ptr)) ∧
        Moved s m' b (left ++ right) ptr size := by
  have held : b ∈ s.live := by simp [split]
  have block := inv.live b held
  have notNull := (inv.blocks layout).not_null held
  rcases inv.alloc layout room with failed | ⟨ptr, m1, free1, allocated, fresh, inv1, kept1, -⟩
  · left
    simp only [miniheapRealloc, notNull, nonzero, failed, ite_false, ite_true, Option.bind_eq_bind, Option.bind_some]
    rfl
  · right
    have record1 : ∀ a ∈ s.live, recorded m1 a.ptr = recorded s.mem a.ptr := by
      intro a ha
      exact recorded_untouched ((inv.live a ha).placed layout) (kept1 a ha)
    obtain ⟨inv2, kept2⟩ := inv1.copied layout b.ptr
    have record2 : ∀ a ∈ s.live, recorded (memcpy m1 ptr b.ptr size) a.ptr = recorded s.mem a.ptr := by
      intro a ha
      rw [recorded_untouched ((inv1.live a (List.mem_cons_of_mem _ ha)).placed layout) (kept2 a ha), record1 a ha]
    have split2 : (⟨ptr, size⟩ : Block) :: s.live = (⟨ptr, size⟩ :: left) ++ b :: right := by rw [split]; rfl
    obtain ⟨m', released, inv3, kept3, -⟩ := inv2.freed layout split2
    dsimp only at released inv3 kept3
    refine ⟨ptr, m', free1, ?_, fresh, ?_, ?_, ?_⟩
    · simp only [miniheapRealloc, notNull, nonzero, allocated, fresh, released, ite_false, Option.bind_eq_bind,
        Option.bind_some]
      rfl
    · rw [← record2 b held]
      exact inv3
    · intro i bound
      have lower := block.lower
      have stop := block.chunk.bound layout
      have new : LiveBlock region (recorded (memcpy m1 ptr b.ptr size) ptr) ⟨ptr, size⟩ :=
        inv2.live ⟨ptr, size⟩ List.mem_cons_self
      have newLower : (recorded (memcpy m1 ptr b.ptr size) ptr).start + 8 ≤ ptr.toNat := new.lower
      have newUpper : ptr.toNat + size.toNat ≤ (recorded (memcpy m1 ptr b.ptr size) ptr).stop := new.upper
      have newStop := new.chunk.bound layout
      have target : (ptr + BitVec.ofNat 32 i).toNat = ptr.toNat + i := by
        rw [BitVec.toNat_add, BitVec.toNat_ofNat]
        omega
      have source : (b.ptr + BitVec.ofNat 32 i).toNat = b.ptr.toNat + i := by
        rw [BitVec.toNat_add, BitVec.toNat_ofNat]
        omega
      have kept := kept3 ⟨ptr, size⟩ (by simp) (ptr + BitVec.ofNat 32 i) ⟨by rw [target]; dsimp only; omega, by
        rw [target]
        dsimp only
        omega⟩
      rw [kept, inv1.copied_payload layout held (by rw [record1 b held]; exact bound)]
      exact kept1 b held _ ⟨by omega, by omega⟩
    · intro a ha x inside
      have live := mem_live_of_split split a ha
      have member : a ∈ ((⟨ptr, size⟩ : Block) :: left) ++ right := List.mem_cons_of_mem _ ha
      rw [kept3 a member x (by rw [record2 a live]; exact inside), kept2 a live x (by rw [record1 a live]; exact inside),
        kept1 a live x inside]

/-! ### Runs -/

theorem release_split {ptr : Word} (held : ∃ b ∈ s.live, b.ptr = ptr) :
    ∃ left b right, s.live = left ++ b :: right ∧ b.ptr = ptr ∧ s.release ptr = left ++ right := by
  obtain ⟨b, member, same⟩ := held
  obtain ⟨a, left, right, -, found, whole, rest⟩ :=
    List.exists_of_eraseP (p := fun b : Block => b.ptr == ptr) member (by simpa using same)
  exact ⟨left, a, right, whole, by simpa using found, rest⟩

theorem HeapInv.step (layout : Layout theheap region) (inv : HeapInv theheap region s free) {op : HeapOp}
    (allowed : s.Allowed op) : ∃ s' free', s.step theheap op = some s' ∧ HeapInv theheap region s' free' := by
  cases op with
  | alloc size alignment =>
    rcases inv.alloc layout allowed with failed | ⟨ptr, m', free', allocated, fresh, inv', -⟩
    · exact ⟨s, free, by simp [HeapState.step, failed], inv⟩
    · exact ⟨_, free', by simp [HeapState.step, allocated, fresh], inv'⟩
  | realloc ptr size =>
    obtain ⟨room, held⟩ := allowed
    obtain ⟨left, b, right, split, rfl, rest⟩ := release_split held
    by_cases zero : size = 0#32
    · obtain ⟨m', released, inv', -⟩ := inv.freed layout split
      have notNull := (inv.blocks layout).not_null (show b ∈ s.live by simp [split])
      refine ⟨⟨m', left ++ right⟩, _, ?_, inv'⟩
      simp [HeapState.step, miniheapRealloc, notNull, zero, released, rest]
    · rcases inv.realloc layout split room zero with failed | ⟨ptr, m', free', moved, fresh, inv', -⟩
      · exact ⟨s, free, by simp [HeapState.step, failed, zero], inv⟩
      · exact ⟨_, _, by simp [HeapState.step, moved, fresh, zero, rest], inv'⟩
  | free ptr =>
    obtain ⟨left, b, right, split, rfl, rest⟩ := release_split allowed
    obtain ⟨m', released, inv', -⟩ := inv.freed layout split
    exact ⟨⟨m', left ++ right⟩, _, by simp [HeapState.step, released, rest], inv'⟩
  | write m' => exact ⟨⟨m', s.live⟩, free, rfl, inv.write layout allowed⟩

theorem Reachable.init (initialised : miniheapInit theheap m (BitVec.ofNat 32 region.start) (BitVec.ofNat 32 region.len) = some m') :
    Reachable theheap region ⟨m', []⟩ :=
  Transition.Reachable.base ⟨m, m', initialised, rfl⟩

theorem Reachable.step {s' : HeapState} {op : HeapOp} (reachable : Reachable theheap region s) (allowed : s.Allowed op)
    (stepped : s.step theheap op = some s') : Reachable theheap region s' :=
  Transition.Reachable.next reachable ⟨allowed, stepped⟩

/-- A run goes on with a request that the first chunk of its size serves. -/
theorem Reachable.served (layout : Layout theheap region) (reachable : Reachable theheap region s) {left right : List Extent}
    {e : Extent} {size alignment : Word} (inv : HeapInv theheap region s (left ++ e :: right))
    (valid : alignment = 0#32 ∨ alignment.toNat.isPowerOfTwo) (room : NonWrapping size alignment)
    (small : ∀ r ∈ left, r.len < need size.toNat alignment.toNat) (fits : need size.toNat alignment.toNat ≤ e.len) :
    ∃ ptr s', Reachable theheap region s' ∧ s'.live = ⟨ptr, size⟩ :: s.live ∧
      recorded s'.mem ptr = carved e (need size.toNat alignment.toNat) ∧
      (∀ b ∈ s.live, recorded s'.mem b.ptr = recorded s.mem b.ptr) ∧
      HeapInv theheap region s' (left ++ leftover e (need size.toNat alignment.toNat) ++ right) := by
  obtain ⟨ptr, m', allocated, served, -, lower, upper, -⟩ :=
    miniheapAlloc_first (inv.free_chunks.placed layout) inv.list valid room small fits
  obtain ⟨record, kept, inv'⟩ :=
    inv.served layout size (need_four valid) (twelve_le_need size.toNat alignment.toNat) fits served lower upper
  have fresh : ptr ≠ 0#32 := by
    intro null
    rw [null, BitVec.toNat_ofNat] at lower
    omega
  have allowed : s.Allowed (.alloc size alignment) := room
  have stepped : s.step theheap (.alloc size alignment) = some ⟨m', ⟨ptr, size⟩ :: s.live⟩ := by
    simp [HeapState.step, allocated, fresh]
  exact ⟨ptr, _, reachable.step allowed stepped, rfl, record, kept, inv'⟩

/-- A run goes on with a block given back. -/
theorem Reachable.freed (layout : Layout theheap region) (reachable : Reachable theheap region s) {left right : List Block}
    {b : Block} (inv : HeapInv theheap region s free) (split : s.live = left ++ b :: right) (others : ∀ a ∈ left, a.ptr ≠ b.ptr) :
    ∃ s', Reachable theheap region s' ∧ s'.live = left ++ right ∧
      HeapInv theheap region s' (insertExtent free (recorded s.mem b.ptr)) := by
  obtain ⟨m', released, inv', -⟩ := inv.freed layout split
  have rest : s.release b.ptr = left ++ right := by
    rw [HeapState.release, split, List.eraseP_append_right _ fun a ha => by simpa using others a ha]
    rw [List.eraseP_cons_of_pos (by simp)]
  have allowed : s.Allowed (.free b.ptr) := ⟨b, by simp [split], rfl⟩
  have stepped : s.step theheap (.free b.ptr) = some ⟨m', left ++ right⟩ := by
    simp [HeapState.step, released, rest]
  exact ⟨_, reachable.step allowed stepped, rfl, inv'⟩

theorem HeapState.Fresh.inv (layout : Layout theheap region) (fresh : s.Fresh theheap region) :
    HeapInv theheap region s [region] := by
  obtain ⟨m, m', initialised, rfl⟩ := fresh
  obtain ⟨m'', initialised', inv, -⟩ := miniheapInit_spec layout m
  cases initialised.symm.trans initialised'
  exact inv

theorem Reachable.inv (layout : Layout theheap region) (reachable : Reachable theheap region s) :
    ∃ free, HeapInv theheap region s free := by
  refine Transition.Reachable.invariant reachable (fun s => ∃ free, HeapInv theheap region s free)
    (fun s fresh => ⟨_, fresh.inv layout⟩) ?_
  intro s op s' inv step
  obtain ⟨free, inv⟩ := inv
  obtain ⟨allowed, stepped⟩ := step
  obtain ⟨s'', free', stepped', inv'⟩ := inv.step layout allowed
  cases stepped.symm.trans stepped'
  exact ⟨free', inv'⟩

end

end ThreeX86.Heap
