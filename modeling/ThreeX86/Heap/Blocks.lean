import ThreeX86.Heap.Alloc

namespace ThreeX86.Heap

open Machine Machine.Memory ThreeX86.Lists Linked Extents Extent

/-! The blocks handed out, and what each operation keeps of them wherever the chunks come from. -/

/-- A pointer handed out, and the size it was asked for. -/
structure Block where
  ptr : Word
  size : Word

structure HeapState where
  mem : Memory
  live : List Block

/-- The chunk recorded for a pointer: `as->ptr` and `as->size`. -/
def recorded (m : Memory) (ptr : Word) : Extent :=
  ⟨(m.load32 (ptr - sizeofAllocStructBegin)).toNat, (m.load32 (ptr - sizeofAllocStructBegin + 4#32)).toNat⟩

def Block.Payload (b : Block) (x : Nat) : Prop := b.ptr.toNat ≤ x ∧ x < b.ptr.toNat + b.size.toNat

def HeapState.chunks (s : HeapState) : List Extent := s.live.map fun b => recorded s.mem b.ptr

/-- A live block inside its chunk, behind the 8-byte header. -/
structure PlacedBlock (theheap : Word) (c : Extent) (b : Block) : Prop where
  chunk : Placed theheap c
  lower : c.start + 8 ≤ b.ptr.toNat
  upper : b.ptr.toNat + b.size.toNat ≤ c.stop

/-- The free list and the live blocks, every chunk off the others and off `theheap`. -/
structure BlocksInv (theheap : Word) (s : HeapState) (free : List Extent) : Prop where
  room : theheap.toNat + 24 ≤ 2^32
  list : FreeListAt theheap s.mem free
  chunk : ∀ e ∈ free, Placed theheap e
  live : ∀ b ∈ s.live, PlacedBlock theheap (recorded s.mem b.ptr) b
  separate : Separate free s.chunks
  remaining : remaining theheap s.mem = BitVec.ofNat 32 (total free)

section

variable {theheap : Word} {c : Extent} {chunks free : List Extent} {s : HeapState} {m m' : Memory}

theorem Placed.len_positive (chunk : Placed theheap c) : 0 < c.len := Nat.lt_of_lt_of_le (by decide) chunk.large

theorem BlocksInv.free_chunks (inv : BlocksInv theheap s free) : PlacedFree theheap free :=
  ⟨inv.room, inv.chunk, inv.separate.gapped⟩

theorem BlocksInv.live_chunk (inv : BlocksInv theheap s free) : ∀ e ∈ s.chunks, Placed theheap e := by
  intro e member
  obtain ⟨b, hb, rfl⟩ := List.mem_map.mp member
  exact (inv.live b hb).chunk

theorem BlocksInv.live_positive (inv : BlocksInv theheap s free) : ∀ e ∈ s.chunks, 0 < e.len := fun e member =>
  (inv.live_chunk e member).len_positive

theorem PlacedBlock.payload_inside {b : Block} (block : PlacedBlock theheap c b) {x : Nat} (inside : b.Payload x) :
    c.Contains x := by
  obtain ⟨-, lower, upper⟩ := block
  simp only [Block.Payload, Contains, stop] at *
  omega

theorem recorded_kept {S : Nat → Prop} {b : Block} (block : PlacedBlock theheap (recorded m b.ptr) b)
    (changes : Changes S m m') (off : ∀ x, (recorded m b.ptr).start ≤ x → x < b.ptr.toNat → ¬ S x) :
    recorded m' b.ptr = recorded m b.ptr := by
  obtain ⟨-, lower, upper⟩ := block
  have bound := b.ptr.isLt
  obtain ⟨as, asSize⟩ := toNat_record (show 8 ≤ b.ptr.toNat by omega)
  have first : m'.load32 (b.ptr - sizeofAllocStructBegin) = m.load32 (b.ptr - sizeofAllocStructBegin) := by
    apply changes.load32
    · omega
    · intro i small
      exact off _ (by omega) (by omega)
  have second : m'.load32 (b.ptr - sizeofAllocStructBegin + 4#32) =
      m.load32 (b.ptr - sizeofAllocStructBegin + 4#32) := by
    apply changes.load32
    · omega
    · intro i small
      exact off _ (by omega) (by omega)
  rw [recorded, first, second]
  rfl

theorem recorded_untouched {b : Block} (block : PlacedBlock theheap (recorded m b.ptr) b)
    (untouched : ∀ x : Word, (recorded m b.ptr).Contains x.toNat → m' x = m x) :
    recorded m' b.ptr = recorded m b.ptr := by
  have changes : Changes (fun x => ¬ (recorded m b.ptr).Contains x) m m' := by
    intro x inside
    exact untouched x (not_not.mp inside)
  apply recorded_kept block changes
  intro x lower upper outside
  have stop := block.upper
  exact outside ⟨lower, by omega⟩

theorem chunks_kept {live : List Block} (kept : ∀ b ∈ live, recorded m' b.ptr = recorded m b.ptr) :
    HeapState.chunks ⟨m', live⟩ = HeapState.chunks ⟨m, live⟩ := List.map_congr_left kept

theorem remaining_kept {S : Nat → Prop} (room : theheap.toNat + 24 ≤ 2^32) (changes : Changes S m m')
    (off : ∀ x, theheap.toNat + 8 ≤ x → x < theheap.toNat + 12 → ¬ S x) :
    Heap.remaining theheap m' = Heap.remaining theheap m := by
  have address : (theheap + 8#32).toNat = theheap.toNat + 8 := toNat_theheap_add room (by decide)
  apply changes.load32
  · omega
  · intro i small
    exact off _ (by omega) (by omega)

/-- An insertion leaves the words of `theheap` in front of the list head alone, except `remaining`. -/
theorem global_inserted (room : theheap.toNat + 24 ≤ 2^32) (all : ∀ e ∈ chunks, Placed theheap e)
    (changes : Changes (InsertFoot theheap chunks) m m') {k : Nat} (bound : k ≤ 4 ∨ k = 12) :
    m'.load32 (theheap + BitVec.ofNat 32 k) = m.load32 (theheap + BitVec.ofNat 32 k) := by
  have address := toNat_theheap_add room (show k < 24 by omega)
  apply changes.load32
  · omega
  · intro i small touched
    cases touched with
    | inl headers => exact HeaderFoot.off_globals all (by omega) headers
    | inr global => omega

/-! ### Client stores -/

theorem mem_live_of_split {left right : List Block} {b : Block} (split : s.live = left ++ b :: right) :
    ∀ a ∈ left ++ right, a ∈ s.live := by
  intro a ha
  rw [split]
  simp only [List.mem_append, List.mem_cons] at ha ⊢
  tauto

theorem mem_others_of_split {left right : List Block} {a b : Block} (split : s.live = left ++ b :: right)
    (ha : a ∈ s.live) (other : a ≠ b) : a ∈ left ++ right := by
  rw [split] at ha
  simp only [List.mem_append, List.mem_cons] at ha ⊢
  tauto

theorem BlocksInv.live_apart (inv : BlocksInv theheap s free) {left right : List Block} {b : Block}
    (split : s.live = left ++ b :: right) :
    ∀ a ∈ left ++ right, (recorded s.mem a.ptr).Apart (recorded s.mem b.ptr) := by
  have separate := inv.separate
  rw [HeapState.chunks, split, List.map_append, List.map_cons] at separate
  intro a member
  apply (separate.middle (recorded s.mem a.ptr) _).symm
  rw [← List.map_append]
  exact List.mem_map_of_mem member

theorem BlocksInv.payload_off_header (inv : BlocksInv theheap s free) {a b : Block} (ha : a ∈ s.live)
    (hb : b ∈ s.live) {x : Nat} (lower : (recorded s.mem a.ptr).start ≤ x) (upper : x < a.ptr.toNat) :
    ¬ b.Payload x := by
  intro inside
  have block := inv.live a ha
  obtain ⟨left, right, split⟩ := List.append_of_mem hb
  by_cases same : a = b
  · subst same
    exact absurd inside.1 (by omega)
  · have apart := inv.live_apart split a (mem_others_of_split split ha same)
    refine apart.disjoint x ⟨⟨lower, ?_⟩, (inv.live b hb).payload_inside inside⟩
    have upper' := block.upper
    omega

/-- A change off the free chunks' headers, off the live records and off `remaining` keeps all of it. -/
theorem BlocksInv.off {S : Nat → Prop} (inv : BlocksInv theheap s free) (changes : Changes S s.mem m')
    (offFree : ∀ x, S x → ¬ HeaderFoot theheap free x)
    (offLive : ∀ b ∈ s.live, ∀ x, (recorded s.mem b.ptr).start ≤ x → x < b.ptr.toNat → ¬ S x)
    (offRemaining : ∀ x, theheap.toNat + 8 ≤ x → x < theheap.toNat + 12 → ¬ S x) :
    (∀ b ∈ s.live, recorded m' b.ptr = recorded s.mem b.ptr) ∧ BlocksInv theheap ⟨m', s.live⟩ free := by
  have kept : ∀ b ∈ s.live, recorded m' b.ptr = recorded s.mem b.ptr := fun b hb =>
    recorded_kept (inv.live b hb) changes (offLive b hb)
  have same : HeapState.chunks ⟨m', s.live⟩ = s.chunks := chunks_kept kept
  refine ⟨kept, ?_⟩
  constructor
  case room => exact inv.room
  case list => exact inv.list.kept inv.free_chunks.list changes offFree
  case chunk => exact inv.chunk
  case live =>
    intro b hb
    have block := inv.live b hb
    rw [← kept b hb] at block
    exact block
  case separate => rw [same]; exact inv.separate
  case remaining =>
    rw [← inv.remaining]
    exact remaining_kept inv.room changes offRemaining

theorem BlocksInv.write (inv : BlocksInv theheap s free)
    (writes : Changes (fun x => ∃ b ∈ s.live, b.Payload x) s.mem m') :
    (∀ b ∈ s.live, recorded m' b.ptr = recorded s.mem b.ptr) ∧ BlocksInv theheap ⟨m', s.live⟩ free := by
  apply inv.off writes
  · rintro x ⟨b, hb, inside⟩
    have block := inv.live b hb
    have member : recorded s.mem b.ptr ∈ s.chunks := List.mem_map_of_mem hb
    exact headers_apart block.chunk inv.chunk (fun e he => inv.separate.across e he _ member)
      (block.payload_inside inside)
  · rintro a ha x lower upper ⟨b, hb, inside⟩
    exact inv.payload_off_header ha hb lower upper inside
  · rintro x lower upper ⟨b, hb, inside⟩
    have off := (inv.live b hb).chunk.off_theheap ((inv.live b hb).payload_inside inside)
    omega

/-! ### `miniheap_alloc` -/

theorem BlocksInv.served_untouched {left right : List Extent} {e : Extent} {n : Nat} {ptr : Word}
    (inv : BlocksInv theheap s (left ++ e :: right)) (served : Served theheap s.mem m' left e right n ptr) {b : Block}
    (hb : b ∈ s.live) {x : Word} (inside : (recorded s.mem b.ptr).Contains x.toNat) : m' x = s.mem x := by
  have block := inv.live b hb
  have across := fun r hr => inv.separate.across r hr _ (List.mem_map_of_mem hb)
  apply served.changes
  intro foot
  rcases foot with (pointer | contains) | global
  · have sub := ((List.sublist_cons_self e right).append_left left).subset
    exact headers_apart block.chunk inv.chunk across inside (HeaderFoot.mono sub (HeaderFoot.of_pointer pointer))
  · exact (across e (by simp)).disjoint _ ⟨contains, inside⟩
  · have off := block.chunk.off_theheap inside
    omega

theorem BlocksInv.served {left right : List Extent} {e : Extent} {n : Nat} {ptr : Word} (size : Word)
    (inv : BlocksInv theheap s (left ++ e :: right)) (large : 12 ≤ n) (fits : n ≤ e.len)
    (served : Served theheap s.mem m' left e right n ptr) (lower : e.start + 8 ≤ ptr.toNat)
    (upper : ptr.toNat + size.toNat ≤ e.start + n) :
    recorded m' ptr = carved e n ∧ (∀ b ∈ s.live, recorded m' b.ptr = recorded s.mem b.ptr) ∧
      HeapState.chunks ⟨m', ⟨ptr, size⟩ :: s.live⟩ = carved e n :: s.chunks ∧
      BlocksInv theheap ⟨m', ⟨ptr, size⟩ :: s.live⟩ (left ++ leftover e n ++ right) := by
  have member : e ∈ left ++ e :: right := by simp
  have chunk := inv.chunk e member
  have taken := chunk.carve large
  have start := carved_start e n
  have bounds := carved_bounds fits
  have after := inv.free_chunks.carve (n := n)
  have ⟨_, positive, bound, _⟩ := chunk
  have record : recorded m' ptr = carved e n := by
    have word : (BitVec.ofNat 32 (carved e n).len).toNat = (carved e n).len := by
      apply toNat_ofNat_word
      simp only [stop] at bound
      omega
    rw [recorded, served.chunkAt, served.sizeAt, toNat_node chunk, word, ← start]
  have kept : ∀ b ∈ s.live, recorded m' b.ptr = recorded s.mem b.ptr := by
    intro b hb
    exact recorded_untouched (inv.live b hb) fun x inside => inv.served_untouched served hb inside
  have chunks_eq : HeapState.chunks ⟨m', ⟨ptr, size⟩ :: s.live⟩ = carved e n :: s.chunks := by
    rw [← chunks_kept (m := s.mem) kept, HeapState.chunks, List.map_cons, record]
    rfl
  refine ⟨record, kept, chunks_eq, ?_⟩
  constructor
  case room => exact inv.room
  case list => exact served.list
  case chunk => exact after.chunk
  case live =>
    intro b hb
    rcases List.mem_cons.mp hb with rfl | hb
    · rw [record]
      have atLower : (carved e n).start + 8 ≤ ptr.toNat := by omega
      have atUpper : ptr.toNat + size.toNat ≤ (carved e n).stop := by simp only [stop]; omega
      exact ⟨taken, atLower, atUpper⟩
    · have block := inv.live b hb
      rw [← kept b hb] at block
      exact block
  case separate =>
    rw [chunks_eq]
    exact inv.separate.allot after.gapped (carved_apart_rest inv.separate.gapped fits) (fun x => covers_leftover x)
      taken.len_positive after.positive inv.live_positive
  case remaining =>
    have whole : total (left ++ e :: right) = _ := total_leftover (n := n)
    rw [served.remainingAt, inv.remaining, whole, BitVec.ofNat_add]
    apply BitVec.eq_of_toNat_eq
    rw [BitVec.toNat_sub, BitVec.toNat_add]
    have := (BitVec.ofNat 32 (carved e n).len).isLt
    have := (BitVec.ofNat 32 (total (left ++ leftover e n ++ right))).isLt
    omega

/-! ### `heap_insert_free_chunk` -/

/-- A chunk off the free list and off the live blocks goes on the free list; no live block notices. -/
theorem BlocksInv.inserted (inv : BlocksInv theheap s free) (chunk : Placed theheap c)
    (offFree : ∀ e ∈ free, e.Apart c) (offLive : ∀ a ∈ s.chunks, c.Apart a) :
    ∃ m', heapInsertFreeChunk theheap (heapCreateFreeChunk s.mem (node c) (BitVec.ofNat 32 c.len)) (node c) =
        some (node (merged free c), m') ∧
      Changes (InsertFoot theheap (c :: free)) s.mem m' ∧
      (∀ a ∈ s.live, ∀ x : Word, (recorded s.mem a.ptr).Contains x.toNat → m' x = s.mem x) ∧
      BlocksInv theheap ⟨m', s.live⟩ (insertExtent free c) := by
  have header := changes_setChunkLen chunk s.mem (BitVec.ofNat 32 c.len)
  have inHeader (x : Nat) (inside : c.start + 8 ≤ x ∧ x < c.start + 12) : c.Contains x := by
    have large := chunk.large
    simp only [Contains, stop]
    omega
  rw [heapCreateFreeChunk]
  generalize set1 : setChunkLen s.mem (node c) (BitVec.ofNat 32 c.len) = m1 at header
  have list1 : FreeListAt theheap m1 free := inv.list.kept inv.free_chunks.list header fun x inside =>
    headers_apart chunk inv.chunk offFree (inHeader x inside)
  have len1 : chunkLen m1 (node c) = BitVec.ofNat 32 c.len := by rw [← set1, chunkLen_setChunkLen]
  obtain ⟨m', inserted, list', count, changes⟩ := heapInsertFreeChunk_spec inv.free_chunks list1 chunk offFree len1
  have foot : Changes (InsertFoot theheap (c :: free)) s.mem m' := by
    refine (header.mono fun x inside => ?_).trans changes
    exact .inl (.inr ⟨c, List.mem_cons_self, by omega⟩)
  have untouched : ∀ a ∈ s.live, ∀ x : Word, (recorded s.mem a.ptr).Contains x.toNat → m' x = s.mem x := by
    intro a ha x inside
    have block := inv.live a ha
    have member : recorded s.mem a.ptr ∈ s.chunks := List.mem_map_of_mem ha
    apply foot
    intro touched
    cases touched with
    | inl headers =>
      refine headers_apart block.chunk ?_ ?_ inside headers
      · intro e he
        rcases List.mem_cons.mp he with rfl | he
        · exact chunk
        · exact inv.chunk e he
      · intro e he
        rcases List.mem_cons.mp he with rfl | he
        · exact offLive _ member
        · exact inv.separate.across e he _ member
    | inr global =>
      have off := block.chunk.off_theheap inside
      omega
  have kept : ∀ a ∈ s.live, recorded m' a.ptr = recorded s.mem a.ptr := by
    intro a ha
    exact recorded_untouched (inv.live a ha) (untouched a ha)
  have chunks_eq : HeapState.chunks ⟨m', s.live⟩ = s.chunks := chunks_kept kept
  refine ⟨m', inserted, foot, untouched, ?_⟩
  constructor
  case room => exact inv.room
  case list => exact list'
  case chunk => exact forall_insertExtent (fun a b ha hb meet => ha.join hb meet) inv.chunk chunk
  case live =>
    intro a ha
    have block := inv.live a ha
    rw [← kept a ha] at block
    exact block
  case separate =>
    rw [chunks_eq]
    exact inv.separate.insert offFree offLive chunk.len_positive inv.free_chunks.positive inv.live_positive
  case remaining =>
    have untouched : Heap.remaining theheap m1 = Heap.remaining theheap s.mem := by
      apply remaining_kept inv.room header
      intro x lower upper inside
      have off := chunk.off_theheap (inHeader x inside)
      omega
    rw [count, untouched, inv.remaining, total_insertExtent, BitVec.ofNat_add]

/-! ### `miniheap_init` -/

theorem changes_global (room : theheap.toNat + 24 ≤ 2^32) {k : Nat} (h : k < 13) (m : Memory) (v : Word) :
    Changes (fun x => theheap.toNat + k ≤ x ∧ x < theheap.toNat + k + 4) m
      (m.store32 (theheap + BitVec.ofNat 32 k) v) := by
  have address := toNat_theheap_add room (show k < 24 by omega)
  have changes := changes_store32 m (theheap + BitVec.ofNat 32 k) v (by omega)
  rwa [address] at changes

/-- The heap after the stores of `miniheap_init`, before the region is put on the list. -/
def cleared (theheap : Word) (m : Memory) (ptr len : Word) : Memory :=
  setLowWatermark theheap (setRemaining theheap (setHeapLen theheap (setHeapBase theheap
    (listInitialize m (freeList theheap)) ptr) len) 0#32) 0#32

theorem cleared_inv (room : theheap.toNat + 24 ≤ 2^32) (m : Memory) (ptr len : Word) :
    BlocksInv theheap ⟨cleared theheap m ptr len, []⟩ [] ∧ heapBase theheap (cleared theheap m ptr len) = ptr ∧
      Heap.heapLen theheap (cleared theheap m ptr len) = len ∧
      lowWatermark theheap (cleared theheap m ptr len) = 0#32 := by
  have none : PlacedList theheap [] := ⟨room, by simp, List.Pairwise.nil⟩
  generalize set1 : listInitialize m (freeList theheap) = m1
  generalize set2 : setHeapBase theheap m1 ptr = m2
  generalize set3 : setHeapLen theheap m2 len = m3
  generalize set4 : setRemaining theheap m3 0#32 = m4
  generalize set5 : setLowWatermark theheap m4 0#32 = m5
  have whole : cleared theheap m ptr len = m5 := by simp only [cleared, set1, set2, set3, set4, set5]
  have changes2 : Changes (fun x => theheap.toNat ≤ x ∧ x < theheap.toNat + 4) m1 m2 :=
    set2 ▸ changes_store32 m1 theheap _ (by omega)
  have changes3 : Changes (fun x => theheap.toNat + 4 ≤ x ∧ x < theheap.toNat + 8) m2 m3 :=
    set3 ▸ changes_global room (show 4 < 13 by decide) m2 _
  have changes4 : Changes (fun x => theheap.toNat + 8 ≤ x ∧ x < theheap.toNat + 12) m3 m4 :=
    set4 ▸ changes_global room (show 8 < 13 by decide) m3 _
  have changes5 : Changes (fun x => theheap.toNat + 12 ≤ x ∧ x < theheap.toNat + 16) m4 m5 :=
    set5 ▸ changes_global room (show 12 < 13 by decide) m4 _
  have list1 : FreeListAt theheap m1 [] :=
    ⟨set1 ▸ ring_initialize (independent none) List.mem_cons_self, by simp⟩
  have off (x : Nat) (inside : theheap.toNat ≤ x ∧ x < theheap.toNat + 16) : ¬ HeaderFoot theheap [] x :=
    HeaderFoot.off_globals none.chunk inside
  have list2 := list1.kept none changes2 fun x inside => off x (by omega)
  have list3 := list2.kept none changes3 fun x inside => off x (by omega)
  have list4 := list3.kept none changes4 fun x inside => off x (by omega)
  have list5 := list4.kept none changes5 fun x inside => off x (by omega)
  have address4 : (theheap + 4#32).toNat = theheap.toNat + 4 := toNat_theheap_add room (by decide)
  rw [whole]
  refine ⟨?_, ?_, ?_, ?_⟩
  · constructor
    case room => exact room
    case list => exact list5
    case chunk => simp
    case live => simp
    case separate => exact ⟨List.Pairwise.nil, List.Pairwise.nil, by simp⟩
    case remaining =>
      rw [remaining_kept room changes5 (by omega), ← set4]
      exact load32_store32 m3 _ _
  · have later := (changes3.mono (T := fun x => theheap.toNat + 4 ≤ x) fun x inside => inside.1).trans
      ((changes4.mono fun x inside => by omega).trans (changes5.mono fun x inside => by omega))
    rw [heapBase, later.load32 (by omega) fun i small inside => by omega, ← set2]
    exact load32_store32 m1 _ _
  · have later := (changes4.mono (T := fun x => theheap.toNat + 8 ≤ x) fun x inside => inside.1).trans
      (changes5.mono fun x inside => by omega)
    rw [Heap.heapLen, later.load32 (by omega) fun i small inside => by omega, ← set3]
    exact load32_store32 m2 _ _
  · rw [← set5]
    exact load32_store32 m4 _ _

theorem miniheapInit_placed (room : theheap.toNat + 24 ≤ 2^32) (chunk : Placed theheap c) (m : Memory) :
    ∃ m', miniheapInit theheap m (node c) (BitVec.ofNat 32 c.len) = some m' ∧ BlocksInv theheap ⟨m', []⟩ [c] ∧
      heapBase theheap m' = node c ∧ Heap.heapLen theheap m' = BitVec.ofNat 32 c.len ∧
      lowWatermark theheap m' = 0#32 := by
  obtain ⟨inv, base, len, mark⟩ := cleared_inv room m (node c) (BitVec.ofNat 32 c.len)
  obtain ⟨m', inserted, changes, -, inv'⟩ := inv.inserted chunk (by simp) (by simp [HeapState.chunks])
  have all : ∀ e ∈ [c], Placed theheap e := by simpa using chunk
  have kept {k : Nat} (bound : k ≤ 4 ∨ k = 12) := global_inserted room all changes bound
  have some : BitVec.ofNat 32 c.len > 0#32 := by
    have ⟨large, positive, bound, _⟩ := chunk
    simp only [stop] at bound
    rw [gt_iff_lt, BitVec.lt_def, toNat_ofNat_word (by omega), BitVec.toNat_ofNat]
    omega
  refine ⟨m', ?_, inv', ?_, ?_, ?_⟩
  · dsimp only [cleared] at inserted
    simp only [miniheapInit, some, ite_true, inserted, Option.bind_eq_bind, Option.bind_some]
    rfl
  · have same := kept (k := 0) (by decide)
    rw [BitVec.add_zero] at same
    exact same.trans base
  · exact (kept (k := 4) (by decide)).trans len
  · exact (kept (k := 12) (by decide)).trans mark

/-! ### `miniheap_free` -/

theorem BlocksInv.drop {left right : List Block} {b : Block} (inv : BlocksInv theheap s free)
    (split : s.live = left ++ b :: right) : BlocksInv theheap ⟨s.mem, left ++ right⟩ free := by
  have separate := inv.separate
  rw [HeapState.chunks, split, List.map_append, List.map_cons] at separate
  constructor
  case room => exact inv.room
  case list => exact inv.list
  case chunk => exact inv.chunk
  case live => exact fun a ha => inv.live a (mem_live_of_split split a ha)
  case separate =>
    rw [HeapState.chunks, List.map_append]
    exact separate.drop
  case remaining => exact inv.remaining

theorem BlocksInv.not_null (inv : BlocksInv theheap s free) {b : Block} (hb : b ∈ s.live) : b.ptr ≠ 0#32 := by
  intro null
  have lower := (inv.live b hb).lower
  rw [null, BitVec.toNat_ofNat] at lower
  omega

theorem BlocksInv.placed_cons (inv : BlocksInv theheap s free) {b : Block} (hb : b ∈ s.live) :
    ∀ e ∈ recorded s.mem b.ptr :: free, Placed theheap e := by
  intro e he
  rcases List.mem_cons.mp he with rfl | he
  · exact (inv.live b hb).chunk
  · exact inv.chunk e he

/-- The chunk of `b` is back on the free list, and the other live blocks have not noticed. -/
structure Freed (theheap : Word) (s : HeapState) (free : List Extent) (b : Block) (others : List Block) (m' : Memory) :
    Prop where
  changes : Changes (InsertFoot theheap (recorded s.mem b.ptr :: free)) s.mem m'
  untouched : ∀ a ∈ others, ∀ x : Word, (recorded s.mem a.ptr).Contains x.toNat → m' x = s.mem x
  kept : ∀ a ∈ others, recorded m' a.ptr = recorded s.mem a.ptr
  cover : ∀ x, Covers (insertExtent free (recorded s.mem b.ptr)) x ∨ Covers (HeapState.chunks ⟨m', others⟩) x ↔
    Covers free x ∨ Covers s.chunks x
  blocks : BlocksInv theheap ⟨m', others⟩ (insertExtent free (recorded s.mem b.ptr))

theorem BlocksInv.freed {left right : List Block} {b : Block} (inv : BlocksInv theheap s free)
    (split : s.live = left ++ b :: right) :
    ∃ m', miniheapFree theheap s.mem b.ptr = some m' ∧ Freed theheap s free b (left ++ right) m' := by
  have member : b ∈ s.live := by simp [split]
  have inChunks : recorded s.mem b.ptr ∈ s.chunks := List.mem_map_of_mem member
  have offLive : ∀ a ∈ HeapState.chunks ⟨s.mem, left ++ right⟩, (recorded s.mem b.ptr).Apart a := by
    intro e he
    obtain ⟨a, ha, rfl⟩ := List.mem_map.mp he
    exact (inv.live_apart split a ha).symm
  obtain ⟨m', inserted, changes, untouched, inv'⟩ := (inv.drop split).inserted (inv.live b member).chunk
    (fun e he => inv.separate.across e he _ inChunks) offLive
  have kept : ∀ a ∈ left ++ right, recorded m' a.ptr = recorded s.mem a.ptr := by
    intro a ha
    exact recorded_untouched (inv.live a (mem_live_of_split split a ha)) (untouched a ha)
  refine ⟨m', ?_, changes, untouched, kept, fun x => ?_, inv'⟩
  · have chunkAt : s.mem.load32 (b.ptr - sizeofAllocStructBegin) = node (recorded s.mem b.ptr) := by
      rw [node, recorded, ofNat_toNat_word]
    have sizeAt : s.mem.load32 (b.ptr - sizeofAllocStructBegin + 4#32) =
        BitVec.ofNat 32 (recorded s.mem b.ptr).len := by
      rw [recorded, ofNat_toNat_word]
    dsimp only at inserted
    simp only [miniheapFree, inv.not_null member, ite_false, chunkAt, sizeAt, inserted, Option.bind_eq_bind,
      Option.bind_some]
    rfl
  · rw [chunks_kept (m := s.mem) kept, HeapState.chunks, HeapState.chunks, split, List.map_append, List.map_append,
      List.map_cons, covers_append, covers_append, covers_cons, covers_insertExtent]
    dsimp only
    tauto

end

end ThreeX86.Heap
