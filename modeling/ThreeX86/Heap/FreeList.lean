import ThreeX86.Heap.Extents
import ThreeX86.Heap.Miniheap

namespace ThreeX86.Heap

open Machine Machine.Memory ThreeX86.Lists Linked Extents Extent

/-- Nodes with room for two words in memory that do not overlap. -/
def NodesApart (T : Word → Prop) : Prop :=
  ∀ x y, T x → T y → x.toNat + 8 ≤ 2^32 ∧ (x = y ∨ x.toNat + 8 ≤ y.toNat ∨ y.toNat + 8 ≤ x.toNat)

section

variable {T : Word → Prop}

theorem NodesApart.toNat_next (apart : NodesApart T) {x : Word} (inside : T x) : (x + 4#32).toNat = x.toNat + 4 := by
  have room := (apart x x inside inside).1
  rw [BitVec.toNat_add, BitVec.toNat_ofNat]
  omega

theorem NodesApart.independent (apart : NodesApart T) : Independent Memory T := by
  have pair {x y : Word} (hx : T x) (hy : T y) :
      x.toNat + 8 ≤ 2^32 ∧ (x + 4#32).toNat = x.toNat + 4 ∧ (x = y ∨ x.toNat + 8 ≤ y.toNat ∨ y.toNat + 8 ≤ x.toNat) :=
    ⟨(apart x y hx hy).1, apart.toNat_next hx, (apart x y hx hy).2⟩
  constructor
  case prev_setPrev_same => intro m x v _; exact load32_store32 m x v
  case prev_setPrev_other =>
    intro m x y v hx hy ne
    have atX := pair hx hy
    have atY := pair hy hx
    have off := atX.2.2.resolve_left ne.symm
    exact load32_store32_apart m v (by omega) (by omega) (by omega)
  case prev_setNext =>
    intro m x y v hx hy
    have atX := pair hx hy
    have atY := pair hy hx
    rcases atX.2.2 with rfl | off
    all_goals exact load32_store32_apart m v (by omega) (by omega) (by omega)
  case next_setNext_same => intro m x v _; exact load32_store32 m (x + 4#32) v
  case next_setNext_other =>
    intro m x y v hx hy ne
    have atX := pair hx hy
    have atY := pair hy hx
    have off := atX.2.2.resolve_left ne.symm
    exact load32_store32_apart m v (by omega) (by omega) (by omega)
  case next_setPrev =>
    intro m x y v hx hy
    have atX := pair hx hy
    have atY := pair hy hx
    rcases atX.2.2 with rfl | off
    all_goals exact load32_store32_apart m v (by omega) (by omega) (by omega)

theorem NodesApart.insulated (apart : NodesApart T) {x : Word} (off : ∀ n, T n → x.toNat < n.toNat ∨ n.toNat + 8 ≤ x.toNat) :
    Insulated (fun m : Memory => m x) T := by
  intro m n v inside
  have room := (apart n n inside inside).1
  have next := apart.toNat_next inside
  have outside := off n inside
  constructor
  · exact store32_outside m n x v (le_offset (by omega) (by omega))
  · exact store32_outside m (n + 4#32) x v (le_offset (by omega) (by omega))

end

/-- Where `theheap` and the heap region lie. -/
structure Layout (theheap : Word) (region : Extent) : Prop where
  aligned : theheap.toNat % 4 = 0
  room : theheap.toNat + 24 ≤ 2^32
  positive : 0 < region.start
  start_aligned : region.start % 4 = 0
  len_aligned : region.len % 4 = 0
  large : 12 ≤ region.len
  bound : region.stop < 2^32
  apart : region.stop ≤ theheap.toNat ∨ theheap.toNat + 24 ≤ region.start

structure IsChunk (region e : Extent) : Prop where
  start_aligned : e.start % 4 = 0
  len_aligned : e.len % 4 = 0
  large : 12 ≤ e.len
  lower : region.start ≤ e.start
  upper : e.stop ≤ region.stop

/-- Chunks of the region in ascending order, touching or not. -/
structure ChunkList (region : Extent) (chunks : List Extent) : Prop where
  chunk : ∀ e ∈ chunks, IsChunk region e
  ordered : chunks.Pairwise fun a b => a.stop ≤ b.start

/-- A chunk anywhere in memory, off `theheap`. -/
structure Placed (theheap : Word) (e : Extent) : Prop where
  large : 12 ≤ e.len
  positive : 0 < e.start
  bound : e.stop ≤ 2^32
  apart : e.stop ≤ theheap.toNat ∨ theheap.toNat + 24 ≤ e.start

/-- Such chunks in ascending order, from one region or from many, some below `theheap` and some above. -/
structure PlacedList (theheap : Word) (chunks : List Extent) : Prop where
  room : theheap.toNat + 24 ≤ 2^32
  chunk : ∀ e ∈ chunks, Placed theheap e
  ordered : chunks.Pairwise fun a b => a.stop ≤ b.start

def node (e : Extent) : Word := BitVec.ofNat 32 e.start

/-- The circular list at `theheap.free_list` is the list `free`. -/
structure FreeListAt (theheap : Word) (m : Memory) (free : List Extent) : Prop where
  ring : Ring m (freeList theheap) (free.map node)
  lens : ∀ e ∈ free, chunkLen m (node e) = BitVec.ofNat 32 e.len

section

variable {theheap : Word} {region e e' : Extent} {chunks : List Extent}

theorem IsChunk.bound (layout : Layout theheap region) (chunk : IsChunk region e) : e.stop < 2^32 :=
  Nat.lt_of_le_of_lt chunk.upper layout.bound

/-- A region that lies on one side of `theheap` puts all its chunks there. -/
theorem Layout.placed (layout : Layout theheap region) (chunk : IsChunk region e) : Placed theheap e := by
  have positive := layout.positive
  have apart := layout.apart
  have ⟨_, _, large, lower, upper⟩ := chunk
  exact ⟨large, by omega, Nat.le_of_lt (chunk.bound layout), by omega⟩

theorem ChunkList.placed (layout : Layout theheap region) (list : ChunkList region chunks) :
    PlacedList theheap chunks :=
  ⟨layout.room, fun e he => layout.placed (list.chunk e he), list.ordered⟩

theorem toNat_node (chunk : Placed theheap e) : (node e).toNat = e.start := by
  have bound := chunk.bound
  have large := chunk.large
  apply toNat_ofNat_word
  simp only [stop] at bound
  omega

theorem toNat_freeList (room : theheap.toNat + 24 ≤ 2^32) : (freeList theheap).toNat = theheap.toNat + 16 := by
  simp only [freeList, BitVec.toNat_add, BitVec.toNat_ofNat]
  omega

theorem node_ne_freeList (room : theheap.toNat + 24 ≤ 2^32) (chunk : Placed theheap e) :
    node e ≠ freeList theheap := by
  intro same
  have values := congrArg BitVec.toNat same
  rw [toNat_node chunk, toNat_freeList room] at values
  have ⟨large, _, _, apart⟩ := chunk
  simp only [stop] at apart
  omega

theorem node_ne_zero (chunk : Placed theheap e) : node e ≠ 0#32 := by
  intro same
  have values := congrArg BitVec.toNat same
  rw [toNat_node chunk, BitVec.toNat_ofNat] at values
  have positive := chunk.positive
  omega

theorem PlacedList.sublist {sub : List Extent} (list : PlacedList theheap chunks) (h : sub.Sublist chunks) :
    PlacedList theheap sub :=
  ⟨list.room, fun a ha => list.chunk a (h.subset ha), list.ordered.sublist h⟩

theorem PlacedList.apart (list : PlacedList theheap chunks) (he : e ∈ chunks) (he' : e' ∈ chunks) (ne : e ≠ e') :
    e.Apart e' := by
  have either : chunks.Pairwise Extent.Apart := list.ordered.imp fun h => Or.inl h
  have : Std.Symm Extent.Apart := ⟨fun _ _ => Extent.Apart.symm⟩
  exact either.forall he he' ne

/-- The list head and the chunk nodes: addresses at least two words apart. -/
def IsNode (theheap : Word) (chunks : List Extent) (x : Word) : Prop :=
  x ∈ freeList theheap :: chunks.map node

theorem IsNode.room (list : PlacedList theheap chunks) {x : Word} (isNode : IsNode theheap chunks x) :
    x.toNat + 8 ≤ 2^32 := by
  rcases List.mem_cons.mp isNode with rfl | member
  · have room := list.room
    rw [toNat_freeList room]
    omega
  · obtain ⟨e, he, rfl⟩ := List.mem_map.mp member
    have bound := (list.chunk e he).bound
    have large := (list.chunk e he).large
    rw [toNat_node (list.chunk e he)]
    simp only [stop] at bound
    omega

theorem IsNode.toNat_next (list : PlacedList theheap chunks) {x : Word} (isNode : IsNode theheap chunks x) :
    (x + 4#32).toNat = x.toNat + 4 := by
  have room := isNode.room list
  rw [BitVec.toNat_add, BitVec.toNat_ofNat]
  omega

/-- The words `lo` to `lo + 8` of a chunk are off the pointers of every node but its own. -/
theorem node_words_apart (list : PlacedList theheap chunks) (he : e ∈ chunks) {x : Word}
    (isNode : IsNode theheap chunks x) : x = node e ∨ x.toNat + 8 ≤ e.start ∨ e.stop ≤ x.toNat := by
  have ⟨large, _, _, apart⟩ := list.chunk e he
  rcases List.mem_cons.mp isNode with rfl | member
  · right
    rw [toNat_freeList list.room]
    omega
  · obtain ⟨e', he', rfl⟩ := List.mem_map.mp member
    by_cases same : e' = e
    · left; rw [same]
    · right
      have disjoint := list.apart he' he same
      have large' := (list.chunk e' he').large
      rw [toNat_node (list.chunk e' he')]
      simp only [Apart, stop] at *
      omega

theorem nodes_apart (list : PlacedList theheap chunks) {x y : Word}
    (hx : IsNode theheap chunks x) (hy : IsNode theheap chunks y) :
    x = y ∨ x.toNat + 8 ≤ y.toNat ∨ y.toNat + 8 ≤ x.toNat := by
  rcases List.mem_cons.mp hx with rfl | member
  · rcases List.mem_cons.mp hy with rfl | member'
    · exact .inl rfl
    · obtain ⟨e, he, rfl⟩ := List.mem_map.mp member'
      have large := (list.chunk e he).large
      rw [toNat_node (list.chunk e he)]
      rcases node_words_apart list he hx with same | words
      · exact .inl same
      · right; simp only [stop] at words; omega
  · obtain ⟨e, he, rfl⟩ := List.mem_map.mp member
    have large := (list.chunk e he).large
    rw [toNat_node (list.chunk e he)]
    rcases node_words_apart list he hy with same | words
    · exact .inl same.symm
    · right; simp only [stop] at words; omega

theorem nodesApart (list : PlacedList theheap chunks) : NodesApart (IsNode theheap chunks) :=
  fun _ _ hx hy => ⟨hx.room list, nodes_apart list hx hy⟩

theorem independent (list : PlacedList theheap chunks) : Independent Memory (IsNode theheap chunks) :=
  (nodesApart list).independent

theorem nodes_nodup (list : PlacedList theheap chunks) : (freeList theheap :: chunks.map node).Nodup := by
  rw [List.nodup_cons]
  constructor
  · intro member
    obtain ⟨e, he, same⟩ := List.mem_map.mp member
    exact node_ne_freeList list.room (list.chunk e he) same
  · rw [List.Nodup, List.pairwise_map]
    apply list.ordered.imp_of_mem
    intro a b ha hb order same
    have values := congrArg BitVec.toNat same
    rw [toNat_node (list.chunk a ha), toNat_node (list.chunk b hb)] at values
    have large := (list.chunk a ha).large
    simp only [stop] at order
    omega

/-! ### What the list operations change -/

/-- The pointers of the list head and of the chunk nodes. -/
def PointerFoot (theheap : Word) (chunks : List Extent) (x : Nat) : Prop :=
  (theheap.toNat + 16 ≤ x ∧ x < theheap.toNat + 24) ∨ ∃ e ∈ chunks, e.start ≤ x ∧ x < e.start + 8

theorem insulated_byte (list : PlacedList theheap chunks) {x : Word}
    (outside : ¬ PointerFoot theheap chunks x.toNat) :
    Insulated (fun m : Memory => m x) (IsNode theheap chunks) := by
  apply (nodesApart list).insulated
  intro n isNode
  simp only [PointerFoot, not_or, not_exists, not_and] at outside
  rcases List.mem_cons.mp isNode with rfl | member
  · have head := outside.1
    rw [toNat_freeList list.room]
    omega
  · obtain ⟨e, he, rfl⟩ := List.mem_map.mp member
    have words := outside.2 e he
    rw [toNat_node (list.chunk e he)]
    omega

theorem toNat_chunkLen_address (chunk : Placed theheap e) :
    (node e + 8#32).toNat = e.start + 8 := by
  have bound := chunk.bound
  have large := chunk.large
  rw [BitVec.toNat_add, toNat_node chunk, BitVec.toNat_ofNat]
  simp only [stop] at bound
  omega

theorem Changes.chunkLen {S : Nat → Prop} {m m' : Memory} (changes : Changes S m m')
    (chunk : Placed theheap e)
    (outside : ∀ i < 4, ¬ S (e.start + 8 + i)) : chunkLen m' (node e) = chunkLen m (node e) := by
  have bound := chunk.bound
  have large := chunk.large
  have address := toNat_chunkLen_address chunk
  apply Memory.Changes.load32 changes
  · rw [address]
    simp only [stop] at bound
    omega
  · rw [address]; exact outside

theorem IsNode.pointers (list : PlacedList theheap chunks) {x : Word}
    (isNode : IsNode theheap chunks x) {i : Nat} (small : i < 8) : PointerFoot theheap chunks (x.toNat + i) := by
  rcases List.mem_cons.mp isNode with rfl | member
  · left
    rw [toNat_freeList list.room]
    omega
  · obtain ⟨e, he, rfl⟩ := List.mem_map.mp member
    right
    rw [toNat_node (list.chunk e he)]
    exact ⟨e, he, by omega⟩

theorem Changes.ring {S : Nat → Prop} {m m' : Memory} (changes : Changes S m m')
    (list : PlacedList theheap chunks) (ring : Ring m (freeList theheap) (chunks.map node))
    (outside : ∀ x, S x → ¬ PointerFoot theheap chunks x) :
    Ring m' (freeList theheap) (chunks.map node) := by
  apply ring.transport
  · intro x member
    have isNode : IsNode theheap chunks x := member
    have room := isNode.room list
    have next := isNode.toNat_next list
    apply Memory.Changes.load32 changes
    · omega
    · intro i bound inside
      rw [next, Nat.add_assoc] at inside
      exact outside _ inside (isNode.pointers list (by omega))
  · intro x member
    have isNode : IsNode theheap chunks x := member
    have room := isNode.room list
    apply Memory.Changes.load32 changes
    · omega
    · intro i bound inside
      exact outside _ inside (isNode.pointers list (by omega))

theorem len_off_pointers (list : PlacedList theheap chunks) (he : e ∈ chunks) {x : Nat}
    (inside : e.start + 8 ≤ x ∧ x < e.start + 12) : ¬ PointerFoot theheap chunks x := by
  have ⟨large, _, _, apart⟩ := list.chunk e he
  rintro (head | ⟨e', he', words⟩)
  · simp only [stop] at apart
    omega
  · by_cases same : e' = e
    · subst e'; omega
    · have disjoint := list.apart he' he same
      have large' := (list.chunk e' he').large
      simp only [Apart, stop] at disjoint
      omega

variable {m : Memory} {left right : List Extent} {c : Extent}

theorem FreeListAt.lens_kept {m' : Memory} {sub : List Extent} (list : PlacedList theheap chunks)
    (changes : Changes (PointerFoot theheap chunks) m m')
    (lens : ∀ e ∈ sub, chunkLen m (node e) = BitVec.ofNat 32 e.len) (h : sub ⊆ chunks) :
    ∀ e ∈ sub, chunkLen m' (node e) = BitVec.ofNat 32 e.len := by
  intro e he
  rw [Changes.chunkLen changes (list.chunk e (h he)), lens e he]
  intro i bound
  exact len_off_pointers list (h he) (by omega)

theorem ring_link (list : PlacedList theheap (left ++ c :: right))
    (ring : Ring m (freeList theheap) ((left ++ right).map node)) :
    ∃ m', (if (right.map node).headD (freeList theheap) ≠ freeList theheap then
        listAddBefore m ((right.map node).headD (freeList theheap)) (node c)
      else listAddTail m (freeList theheap) (node c)) = m' ∧
      Ring m' (freeList theheap) ((left ++ c :: right).map node) ∧
      Changes (PointerFoot theheap (left ++ c :: right)) m m' := by
  have fields := independent list
  have nodup := nodes_nodup list
  simp only [List.map_append, List.map_cons] at nodup ring
  have same : (freeList theheap :: (left.map node ++ node c :: right.map node)).Perm
      (node c :: freeList theheap :: (left.map node ++ right.map node)) :=
    (List.perm_middle.cons _).trans (List.Perm.swap _ _ _)
  have fresh := (List.nodup_cons.mp (same.nodup_iff.mp nodup)).1
  have isNode : ∀ x ∈ freeList theheap :: (left.map node ++ right.map node),
      IsNode theheap (left ++ c :: right) x := by
    intro x member
    have whole := same.mem_iff.mpr (List.mem_cons_of_mem _ member)
    simpa [IsNode] using whole
  have itemNode : IsNode theheap (left ++ c :: right) (node c) := by simp [IsNode]
  refine ⟨_, rfl, ?_⟩
  cases right with
  | nil =>
    simp only [List.map_nil, List.headD_nil, ne_eq, not_true_eq_false, ite_false, List.append_nil] at *
    refine ⟨by simpa using ring_addTail fields ring isNode itemNode fresh, ?_⟩
    intro x outside
    exact ring_addTail_frame fields ring isNode itemNode fresh (insulated_byte list outside) isNode itemNode
  | cons n right =>
    have notHead : node n ≠ freeList theheap := node_ne_freeList list.room (list.chunk n (by simp))
    simp only [List.map_cons, List.headD_cons, ne_eq, notHead, not_false_eq_true, ite_true] at *
    refine ⟨by simpa using ring_addBefore fields ring isNode itemNode fresh, ?_⟩
    intro x outside
    exact ring_addBefore_frame fields ring isNode itemNode fresh (insulated_byte list outside) isNode itemNode

theorem FreeListAt.link (list : PlacedList theheap (left ++ c :: right))
    (at_ : FreeListAt theheap m (left ++ right)) (len : Heap.chunkLen m (node c) = BitVec.ofNat 32 c.len) :
    ∃ m', (if (right.map node).headD (freeList theheap) ≠ freeList theheap then
        listAddBefore m ((right.map node).headD (freeList theheap)) (node c)
      else listAddTail m (freeList theheap) (node c)) = m' ∧
      FreeListAt theheap m' (left ++ c :: right) ∧ Changes (PointerFoot theheap (left ++ c :: right)) m m' := by
  obtain ⟨m', linked, ring, changes⟩ := ring_link list at_.ring
  have lens : ∀ e ∈ left ++ c :: right, Heap.chunkLen m (node e) = BitVec.ofNat 32 e.len := by
    intro e he
    rcases List.mem_append.mp he with he | he
    · exact at_.lens e (List.mem_append_left _ he)
    · rcases List.mem_cons.mp he with rfl | he
      · exact len
      · exact at_.lens e (List.mem_append_right _ he)
  exact ⟨m', linked, ⟨ring, FreeListAt.lens_kept list changes lens (List.Subset.refl _)⟩, changes⟩

/-- Deleting a member's node, whatever the chunk lengths are at that moment. -/
theorem ring_unlink (list : PlacedList theheap (left ++ c :: right))
    (ring : Ring m (freeList theheap) ((left ++ c :: right).map node)) :
    Ring (listDelete m (node c)) (freeList theheap) ((left ++ right).map node) ∧
      Changes (PointerFoot theheap (left ++ c :: right)) m (listDelete m (node c)) := by
  have fields := independent list
  simp only [List.map_append, List.map_cons] at ring ⊢
  have isNode : ∀ x ∈ freeList theheap :: (left.map node ++ node c :: right.map node),
      IsNode theheap (left ++ c :: right) x := by
    intro x member
    simpa [IsNode] using member
  refine ⟨ring_delete fields ring isNode, ?_⟩
  intro x outside
  exact ring_delete_frame fields ring isNode (insulated_byte list outside) isNode

theorem FreeListAt.unlink (list : PlacedList theheap (left ++ c :: right))
    (at_ : FreeListAt theheap m (left ++ c :: right)) :
    FreeListAt theheap (listDelete m (node c)) (left ++ right) ∧
      Changes (PointerFoot theheap (left ++ c :: right)) m (listDelete m (node c)) := by
  obtain ⟨ring, changes⟩ := ring_unlink list at_.ring
  refine ⟨⟨ring, ?_⟩, changes⟩
  have sub : left ++ right ⊆ left ++ c :: right := by
    intro e he
    simp only [List.mem_append, List.mem_cons] at he ⊢
    tauto
  exact FreeListAt.lens_kept list changes (fun e he => at_.lens e (sub he)) sub

end

end ThreeX86.Heap
