import ThreeX86.Heap.FreeList

namespace ThreeX86.Heap

open Machine Machine.Memory ThreeX86.Lists Linked Extents Extent

def HeaderFoot (theheap : Word) (chunks : List Extent) (x : Nat) : Prop :=
  (theheap.toNat + 16 ≤ x ∧ x < theheap.toNat + 24) ∨ ∃ e ∈ chunks, e.start ≤ x ∧ x < e.start + 12

section

variable {theheap : Word} {region e : Extent} {chunks left right : List Extent} {c : Extent} {m : Memory}

theorem HeaderFoot.of_pointer {x : Nat} (foot : PointerFoot theheap chunks x) : HeaderFoot theheap chunks x := by
  rcases foot with foot | ⟨e, he, bounds⟩
  · exact .inl foot
  · exact .inr ⟨e, he, by omega⟩

theorem changes_setChunkLen (chunk : Placed theheap e) (m : Memory) (v : Word) :
    Changes (fun x => e.start + 8 ≤ x ∧ x < e.start + 12) m (setChunkLen m (node e) v) := by
  have bound := chunk.bound
  have large := chunk.large
  have address := toNat_chunkLen_address chunk
  have changes := changes_store32 m (node e + 8#32) v (by rw [address]; simp only [stop] at bound; omega)
  rw [address] at changes
  exact changes

@[simp] theorem chunkLen_setChunkLen (m : Memory) (chunk v : Word) : chunkLen (setChunkLen m chunk v) chunk = v :=
  load32_store32 m _ v

theorem chunkLen_setChunkLen_other (list : PlacedList theheap chunks)
    {a b : Extent} (ha : a ∈ chunks) (hb : b ∈ chunks) (ne : b ≠ a) (m : Memory) (v : Word) :
    chunkLen (setChunkLen m (node a) v) (node b) = chunkLen m (node b) := by
  apply Changes.chunkLen (changes_setChunkLen (list.chunk a ha) m v) (list.chunk b hb)
  intro i bound inside
  have apart := list.apart ha hb (Ne.symm ne)
  have largeA := (list.chunk a ha).large
  have largeB := (list.chunk b hb).large
  simp only [Apart, stop] at apart
  omega

theorem ring_setChunkLen (list : PlacedList theheap chunks) (he : e ∈ chunks)
    (ring : Ring m (freeList theheap) (chunks.map node)) (v : Word) :
    Ring (setChunkLen m (node e) v) (freeList theheap) (chunks.map node) :=
  Changes.ring (changes_setChunkLen (list.chunk e he) m v) list ring
    fun _ inside => len_off_pointers list he inside

/-- The end of a chunk, as the code computes it, meets another chunk's address exactly when they touch. -/
theorem node_add_len {a b : Extent} (ha : Placed theheap a) (hb : Placed theheap b) :
    node a + BitVec.ofNat 32 a.len = node b ↔ a.stop = b.start := by
  have ⟨_, positiveA, boundA, _⟩ := ha
  have ⟨largeB, positiveB, boundB, _⟩ := hb
  rw [← BitVec.toNat_inj, BitVec.toNat_add, toNat_node ha, toNat_node hb, BitVec.toNat_ofNat]
  simp only [stop] at *
  omega

theorem PlacedList.ne_of_append {a b : Extent} (list : PlacedList theheap (left ++ right)) (ha : a ∈ left)
    (hb : b ∈ right) : a ≠ b := by
  rintro rfl
  have order := (List.pairwise_append.mp list.ordered).2.2 a ha a hb
  have large := (list.chunk a (List.mem_append_left _ ha)).large
  simp only [stop] at order
  omega

/-- Of two touching neighbours the first takes over the second, whose node leaves the list. -/
theorem FreeListAt.absorb {p : Extent} (list : PlacedList theheap (left ++ p :: c :: right)) (at_ : FreeListAt theheap m (left ++ p :: c :: right)) :
    FreeListAt theheap
        (listDelete (setChunkLen m (node p) (chunkLen m (node p) + chunkLen m (node c))) (node c))
        (left ++ p.join c :: right) ∧
      Changes (HeaderFoot theheap (left ++ p :: c :: right)) m
        (listDelete (setChunkLen m (node p) (chunkLen m (node p) + chunkLen m (node c))) (node c)) := by
  generalize sum : chunkLen m (node p) + chunkLen m (node c) = v
  have hp : p ∈ left ++ p :: c :: right := by simp
  have hc : c ∈ left ++ p :: c :: right := by simp
  have value : v = BitVec.ofNat 32 (p.len + c.len) := by
    rw [← sum, at_.lens p hp, at_.lens c hc, BitVec.ofNat_add]
  have ring := ring_setChunkLen list hp at_.ring v
  have regroup : left ++ p :: c :: right = (left ++ [p]) ++ c :: right := by simp
  have list' := list
  rw [regroup] at list' ring
  obtain ⟨unlinked, pointers⟩ := ring_unlink list' ring
  rw [← regroup] at pointers
  refine ⟨⟨by simpa [node, join] using unlinked, ?_⟩, ?_⟩
  · have ordered := list.ordered
    have others : ∀ e ∈ left ++ right, e ∈ left ++ p :: c :: right ∧ e ≠ p := by
      intro e he
      rcases List.mem_append.mp he with he | he
      · exact ⟨List.mem_append_left _ he, list.ne_of_append he List.mem_cons_self⟩
      · refine ⟨by simp [he], ?_⟩
        exact (list'.ne_of_append (by simp) (List.mem_cons_of_mem _ he)).symm
    have kept : ∀ e ∈ left ++ p :: c :: right,
        chunkLen (listDelete (setChunkLen m (node p) v) (node c)) (node e) =
          chunkLen (setChunkLen m (node p) v) (node e) := by
      intro e he
      exact Changes.chunkLen pointers (list.chunk e he)
        fun i bound => len_off_pointers list he (by omega)
    intro e he
    have position : e = p.join c ∨ e ∈ left ++ right := by
      simp only [List.mem_append, List.mem_cons] at he ⊢
      tauto
    rcases position with rfl | he
    · have head : node (p.join c) = node p := rfl
      rw [head, kept p hp, chunkLen_setChunkLen, value]
      rfl
    · obtain ⟨member, ne⟩ := others e he
      rw [kept e member, chunkLen_setChunkLen_other list hp member ne, at_.lens e member]
  · refine Changes.trans ?_ (pointers.mono fun x => HeaderFoot.of_pointer)
    refine (changes_setChunkLen (list.chunk p hp) m v).mono ?_
    intro x inside
    exact .inr ⟨p, hp, by omega⟩

theorem tryMergePrev_spec (list : PlacedList theheap (left ++ c :: right))
    (at_ : FreeListAt theheap m (left ++ c :: right)) :
    ∃ m', tryMergePrev theheap m (node c) = (node (joinLeft left c).2, m') ∧
      FreeListAt theheap m' ((joinLeft left c).1 ++ (joinLeft left c).2 :: right) ∧
      Changes (HeaderFoot theheap (left ++ c :: right)) m m' := by
  have ring := at_.ring
  simp only [List.map_append, List.map_cons] at ring
  have previous := ring_prev ring
  rcases List.eq_nil_or_concat left with rfl | ⟨init, p, rfl⟩
  · have none : listPrev m (freeList theheap) (node c) = 0#32 := by
      simp only [listPrev, previous, List.map_nil, List.getLastD_nil, ne_eq, not_true_eq_false, ite_false]
      rfl
    refine ⟨m, ?_, at_, Changes.refl _ _⟩
    simp [tryMergePrev, none, joinLeft]
  · rw [List.concat_eq_append] at list at_ previous ⊢
    have chunkP := list.chunk p (by simp)
    have chunkC := list.chunk c (by simp)
    have some : listPrev m (freeList theheap) (node c) = node p := by
      have notHead := node_ne_freeList list.room chunkP
      simp only [List.map_append, List.map_cons, List.map_nil, List.getLastD_concat] at previous
      simp [listPrev, previous, notHead]
    have touch : node p + chunkLen m (node p) = node c ↔ p.stop = c.start := by
      rw [at_.lens p (by simp)]
      exact node_add_len chunkP chunkC
    have notNull := node_ne_zero chunkP
    by_cases meet : p.stop = c.start
    · rw [List.append_assoc, List.singleton_append] at list at_ ⊢
      obtain ⟨absorbed, changes⟩ := at_.absorb list
      refine ⟨_, ?_, ?_, changes⟩
      · simp only [tryMergePrev, some, ne_eq, notNull, not_false_eq_true, ite_true, touch.mpr meet]
        simp [joinLeft, meet, node, join]
      · simpa [joinLeft, meet] using absorbed
    · refine ⟨m, ?_, by simpa [joinLeft, meet] using at_, Changes.refl _ _⟩
      simp [tryMergePrev, some, touch, meet, joinLeft]

/-- The chunk's end never meets the list head, which is what `nextChunk` is after a walk off the end. -/
theorem node_add_len_ne_freeList (room : theheap.toNat + 24 ≤ 2^32) (chunk : Placed theheap c) :
    node c + BitVec.ofNat 32 c.len ≠ freeList theheap := by
  intro same
  have values := congrArg BitVec.toNat same
  rw [BitVec.toNat_add, toNat_node chunk, toNat_freeList room, BitVec.toNat_ofNat] at values
  have ⟨_, positive, bound, apart⟩ := chunk
  simp only [stop] at *
  omega

/-- The list head in disguise is never merged. -/
theorem tryMergeNext_freeList (room : theheap.toNat + 24 ≤ 2^32) (chunk : Placed theheap c)
    (len : chunkLen m (node c) = BitVec.ofNat 32 c.len) : tryMergeNext m (node c) (freeList theheap) = m := by
  simp [tryMergeNext, len, node_add_len_ne_freeList room chunk]

theorem tryMergeNext_spec (list : PlacedList theheap (left ++ c :: right))
    (at_ : FreeListAt theheap m (left ++ c :: right)) :
    ∃ m', tryMergeNext m (node c) ((right.map node).headD (freeList theheap)) = m' ∧
      FreeListAt theheap m' (left ++ (joinRight c right).1 :: (joinRight c right).2) ∧
      Changes (HeaderFoot theheap (left ++ c :: right)) m m' := by
  have chunkC := list.chunk c (by simp)
  have lenC := at_.lens c (by simp)
  cases right with
  | nil =>
    exact ⟨m, tryMergeNext_freeList list.room chunkC lenC, at_, Changes.refl _ _⟩
  | cons n right =>
    have chunkN := list.chunk n (by simp)
    have touch := node_add_len chunkC chunkN
    have notNull := node_ne_zero chunkN
    by_cases meet : c.stop = n.start
    · obtain ⟨absorbed, changes⟩ := at_.absorb list
      refine ⟨_, rfl, ?_, ?_⟩
      all_goals
        simp only [tryMergeNext, List.map_cons, List.headD_cons, ne_eq, notNull, not_false_eq_true, ite_true]
        rw [lenC, if_pos (touch.mpr meet), ← lenC]
      · simpa [joinRight, meet] using absorbed
      · exact changes
    · refine ⟨m, ?_, by simpa [joinRight, meet] using at_, Changes.refl _ _⟩
      simp [tryMergeNext, lenC, touch, meet]

/-! ### `heap_insert_free_chunk` -/

structure FreeChunks (region : Extent) (free : List Extent) : Prop where
  chunk : ∀ e ∈ free, IsChunk region e
  gapped : Gapped free

/-- Free chunks off `theheap`, ascending and nowhere adjacent, from one region or from many. -/
structure PlacedFree (theheap : Word) (free : List Extent) : Prop where
  room : theheap.toNat + 24 ≤ 2^32
  chunk : ∀ e ∈ free, Placed theheap e
  gapped : Gapped free

/-- What an insertion may change: list pointers, chunk headers and `remaining`. -/
def InsertFoot (theheap : Word) (chunks : List Extent) (x : Nat) : Prop :=
  HeaderFoot theheap chunks x ∨ theheap.toNat + 8 ≤ x ∧ x < theheap.toNat + 12

variable {free : List Extent}

theorem FreeChunks.list (chunks : FreeChunks region free) : ChunkList region free :=
  ⟨chunks.chunk, chunks.gapped.imp fun h => Nat.le_of_lt h⟩

theorem FreeChunks.placed (layout : Layout theheap region) (chunks : FreeChunks region free) :
    PlacedFree theheap free :=
  ⟨layout.room, fun e he => layout.placed (chunks.chunk e he), chunks.gapped⟩

theorem FreeChunks.positive (chunks : FreeChunks region free) : ∀ e ∈ free, 0 < e.len := fun e he =>
  Nat.lt_of_lt_of_le (by decide) (chunks.chunk e he).large

theorem PlacedFree.list (chunks : PlacedFree theheap free) : PlacedList theheap free :=
  ⟨chunks.room, chunks.chunk, chunks.gapped.imp fun h => Nat.le_of_lt h⟩

theorem PlacedFree.positive (chunks : PlacedFree theheap free) : ∀ e ∈ free, 0 < e.len := fun e he =>
  Nat.lt_of_lt_of_le (by decide) (chunks.chunk e he).large

theorem PlacedFree.total_lt (chunks : PlacedFree theheap free) : total free < 2^32 := by
  have few := total_le_of_within chunks.gapped (show 1 ≤ 2^32 by decide) fun e he =>
    ⟨(chunks.chunk e he).positive, (chunks.chunk e he).bound⟩
  omega

theorem PlacedFree.length_lt (chunks : PlacedFree theheap free) : free.length < entryLimit := by
  have many := length_mul_le_total fun e he => (chunks.chunk e he).large
  have few := chunks.total_lt
  simp only [entryLimit]
  omega

theorem PlacedFree.with_middle (chunks : PlacedFree theheap free) (chunkC : Placed theheap c)
    (apart : ∀ e ∈ free, e.Apart c) : PlacedList theheap (upTo c free ++ c :: beyond c free) := by
  have positive : 0 < c.len := Nat.lt_of_lt_of_le (by decide) chunkC.large
  have split := split_of_apart chunks.gapped positive chunks.positive apart
  have whole := upTo_append_beyond c free
  have ordered := chunks.list.ordered
  rw [← whole, List.pairwise_append] at ordered
  refine ⟨chunks.room, ?_, ?_⟩
  · intro e he
    have position : e = c ∨ e ∈ free := by
      rw [← whole]
      simp only [List.mem_append, List.mem_cons] at he ⊢
      tauto
    rcases position with rfl | he
    · exact chunkC
    · exact chunks.chunk e he
  · rw [List.pairwise_append, List.pairwise_cons]
    refine ⟨ordered.1, ⟨split.above, ordered.2.1⟩, ?_⟩
    intro a ha b hb
    rcases List.mem_cons.mp hb with rfl | hb
    · exact split.below a ha
    · exact ordered.2.2 a ha b hb

theorem dropWhile_nodes {free : List Extent} {p : Word → Bool} {q : Extent → Bool}
    (same : ∀ e ∈ free, p (node e) = q e) : (free.map node).dropWhile p = (free.dropWhile q).map node := by
  induction free with
  | nil => rfl
  | cons e free ih =>
    have head := same e List.mem_cons_self
    have tail := ih fun a ha => same a (List.mem_cons_of_mem _ ha)
    simp only [List.map_cons, List.dropWhile_cons, head, tail]
    split <;> rfl

theorem node_lt_node {a b : Extent} (ha : Placed theheap a) (hb : Placed theheap b) :
    node a < node b ↔ a.start < b.start := by
  rw [BitVec.lt_def, toNat_node ha, toNat_node hb]

theorem toNat_theheap_add (room : theheap.toNat + 24 ≤ 2^32) {k : Nat} (h : k < 24) :
    (theheap + BitVec.ofNat 32 k).toNat = theheap.toNat + k := by
  simp only [BitVec.toNat_add, BitVec.toNat_ofNat]
  omega

theorem changes_setRemaining (room : theheap.toNat + 24 ≤ 2^32) (m : Memory) (v : Word) :
    Changes (fun x => theheap.toNat + 8 ≤ x ∧ x < theheap.toNat + 12) m (setRemaining theheap m v) := by
  have address : (theheap + 8#32).toNat = theheap.toNat + 8 := toNat_theheap_add room (by decide)
  have changes := changes_store32 m (theheap + 8#32) v (by rw [address]; omega)
  rw [address] at changes
  exact changes

theorem Placed.off_theheap (chunk : Placed theheap e) {x : Nat} (inside : e.start ≤ x ∧ x < e.stop) :
    x < theheap.toNat ∨ theheap.toNat + 24 ≤ x := by
  have apart := chunk.apart
  omega

theorem HeaderFoot.off_globals (all : ∀ e ∈ chunks, Placed theheap e) {x : Nat}
    (inside : theheap.toNat ≤ x ∧ x < theheap.toNat + 16) : ¬ HeaderFoot theheap chunks x := by
  rintro (head | ⟨e, he, header⟩)
  · omega
  · have large := (all e he).large
    have off := (all e he).off_theheap (x := x) (by simp only [stop]; omega)
    omega

theorem FreeListAt.kept {S : Nat → Prop} {m' : Memory} (list : PlacedList theheap chunks) (at_ : FreeListAt theheap m chunks) (changes : Changes S m m')
    (off : ∀ x, S x → ¬ HeaderFoot theheap chunks x) : FreeListAt theheap m' chunks := by
  constructor
  · apply Changes.ring changes list at_.ring
    intro x inside foot
    exact off x inside (HeaderFoot.of_pointer foot)
  · intro e he
    rw [Changes.chunkLen changes (list.chunk e he), at_.lens e he]
    intro i bound inside
    exact off _ inside (.inr ⟨e, he, by omega⟩)

theorem FreeListAt.setRemaining (list : PlacedList theheap chunks)
    (at_ : FreeListAt theheap m chunks) (v : Word) : FreeListAt theheap (setRemaining theheap m v) chunks :=
  at_.kept list (changes_setRemaining list.room m v) fun _ inside =>
    HeaderFoot.off_globals list.chunk (by omega)

theorem IsChunk.join {a b : Extent} (ha : IsChunk region a) (hb : IsChunk region b) (meet : a.stop = b.start) :
    IsChunk region (a.join b) := by
  obtain ⟨startA, lenA, largeA, lowerA, upperA⟩ := ha
  obtain ⟨startB, lenB, largeB, lowerB, upperB⟩ := hb
  constructor
  all_goals simp only [Extent.join, stop] at *
  all_goals omega

/-- Chunks on different sides of `theheap` do not touch. -/
theorem Placed.join {a b : Extent} (ha : Placed theheap a) (hb : Placed theheap b) (meet : a.stop = b.start) :
    Placed theheap (a.join b) := by
  obtain ⟨largeA, positiveA, boundA, apartA⟩ := ha
  obtain ⟨largeB, positiveB, boundB, apartB⟩ := hb
  constructor
  all_goals simp only [Extent.join, stop] at *
  all_goals omega

theorem PlacedList.joinLeft (list : PlacedList theheap (left ++ c :: right)) :
    PlacedList theheap ((joinLeft left c).1 ++ (joinLeft left c).2 :: right) := by
  rcases List.eq_nil_or_concat left with rfl | ⟨init, p, rfl⟩
  · simpa [Extents.joinLeft] using list
  · by_cases meet : p.stop = c.start
    · have together : (Extents.joinLeft (init.concat p) c).1 ++ (Extents.joinLeft (init.concat p) c).2 :: right =
          init ++ p.join c :: right := by simp [Extents.joinLeft, meet]
      rw [together]
      rw [List.concat_eq_append, List.append_assoc, List.singleton_append] at list
      have joined := (list.chunk p (by simp)).join (list.chunk c (by simp)) meet
      have ordered := list.ordered
      simp only [List.pairwise_append, List.pairwise_cons, List.mem_cons, forall_eq_or_imp] at ordered
      refine ⟨list.room, ?_, ?_⟩
      · intro e he
        rcases List.mem_append.mp he with he | he
        · exact list.chunk e (List.mem_append_left _ he)
        · rcases List.mem_cons.mp he with rfl | he
          · exact joined
          · exact list.chunk e (by simp [he])
      · simp only [List.pairwise_append, List.pairwise_cons, List.mem_cons, forall_eq_or_imp]
        refine ⟨ordered.1, ⟨?_, ordered.2.1.2.2⟩, ?_⟩
        · intro b hb
          have after := ordered.2.1.2.1 b hb
          simp only [Extent.join, stop] at *
          omega
        · intro a ha
          have before := ordered.2.2 a ha
          exact ⟨before.1, before.2.2⟩
    · simpa [Extents.joinLeft, meet] using list

theorem HeaderFoot.mono {sub : List Extent} (h : sub ⊆ chunks) {x : Nat} (foot : HeaderFoot theheap sub x) :
    HeaderFoot theheap chunks x := by
  rcases foot with foot | ⟨e, he, bounds⟩
  · exact .inl foot
  · exact .inr ⟨e, h he, bounds⟩

theorem HeaderFoot.joinLeft {x : Nat}
    (foot : HeaderFoot theheap ((joinLeft left c).1 ++ (joinLeft left c).2 :: right) x) :
    HeaderFoot theheap (left ++ c :: right) x := by
  rcases List.eq_nil_or_concat left with rfl | ⟨init, p, rfl⟩
  · simpa [Extents.joinLeft] using foot
  · by_cases meet : p.stop = c.start
    · rcases foot with foot | ⟨e, he, bounds⟩
      · exact .inl foot
      · right
        simp [Extents.joinLeft, meet] at he
        rcases he with he | rfl | he
        · exact ⟨e, by simp [he], bounds⟩
        · exact ⟨p, by simp, bounds⟩
        · exact ⟨e, by simp [he], bounds⟩
    · simpa [Extents.joinLeft, meet] using foot

theorem node_joinRight : node (joinRight c right).1 = node c := by
  cases right with
  | nil => rfl
  | cons n right =>
    simp only [joinRight]
    split <;> rfl

/-- The stages of an insertion: the search up to `next`, the node linked in, and the two merges. -/
structure InsertStages (theheap : Word) (m : Memory) (chunk next : Word) (linked : Memory) (p : Word)
    (joined m' : Memory) : Prop where
  search : listForEveryEntryUntil (setRemaining theheap m (remaining theheap m + chunkLen m chunk)) (freeList theheap)
    (fun nextChunk => decide (chunk < nextChunk)) entryLimit
    (NodeStore.next (setRemaining theheap m (remaining theheap m + chunkLen m chunk)) (freeList theheap)) = some next
  link : (if next ≠ freeList theheap then
      listAddBefore (setRemaining theheap m (remaining theheap m + chunkLen m chunk)) next chunk
    else listAddTail (setRemaining theheap m (remaining theheap m + chunkLen m chunk)) (freeList theheap) chunk) = linked
  mergePrev : tryMergePrev theheap linked chunk = (p, joined)
  mergeNext : tryMergeNext joined p next = m'

theorem InsertStages.run {chunk next p : Word} {linked joined m' : Memory}
    (stages : InsertStages theheap m chunk next linked p joined m') :
    heapInsertFreeChunk theheap m chunk = some (p, m') := by
  simp only [heapInsertFreeChunk, stages.search, stages.link, stages.mergePrev, stages.mergeNext, Option.bind_eq_bind,
    Option.bind_some]
  rfl

theorem heapInsertFreeChunk_stages (chunks : PlacedFree theheap free)
    (at_ : FreeListAt theheap m free) (chunkC : Placed theheap c) (apart : ∀ e ∈ free, e.Apart c)
    (len : chunkLen m (node c) = BitVec.ofNat 32 c.len) :
    ∃ linked joined m', InsertStages theheap m (node c) (((beyond c free).map node).headD (freeList theheap)) linked
        (node (merged free c)) joined m' ∧
      PlacedList theheap ((joinLeft (upTo c free) c).1 ++ (joinLeft (upTo c free) c).2 :: beyond c free) ∧
      FreeListAt theheap joined ((joinLeft (upTo c free) c).1 ++ (joinLeft (upTo c free) c).2 :: beyond c free) ∧
      FreeListAt theheap m' (insertExtent free c) ∧
      remaining theheap m' = remaining theheap m + BitVec.ofNat 32 c.len ∧
      Changes (InsertFoot theheap (c :: free)) m m' := by
  have list := chunks.with_middle chunkC apart
  have whole := upTo_append_beyond c free
  have counted := changes_setRemaining chunks.room m (remaining theheap m + chunkLen m (node c))
  generalize first : setRemaining theheap m (remaining theheap m + chunkLen m (node c)) = m1 at counted
  have at1 : FreeListAt theheap m1 free := first ▸ at_.setRemaining chunks.list _
  have len1 : chunkLen m1 (node c) = BitVec.ofNat 32 c.len := by
    rw [Changes.chunkLen counted chunkC, len]
    intro i bound inside
    have large := chunkC.large
    have off := chunkC.off_theheap (x := c.start + 8 + i) (by simp only [stop]; omega)
    omega
  -- the search stops at the first chunk above `c`
  have search : listForEveryEntryUntil m1 (freeList theheap) (fun nextChunk => decide (node c < nextChunk))
      entryLimit (NodeStore.next m1 (freeList theheap)) =
        some (((beyond c free).map node).headD (freeList theheap)) := by
    have ring : Ring m1 (freeList theheap) ([] ++ free.map node) := at1.ring
    have short : (free.map node).length < entryLimit := by
      rw [List.length_map]; exact chunks.length_lt
    rw [ring_next_head at1.ring, ring_until ring _ _ short, beyond]
    rw [dropWhile_nodes (q := fun e => !decide (c.start < e.start)) ?_]
    intro e he
    simp only [node_lt_node chunkC (chunks.chunk e he)]
  rw [← whole] at at1
  obtain ⟨m2, linked, at2, changes2⟩ := at1.link list len1
  obtain ⟨m3, mergedPrev, at3, changes3⟩ := tryMergePrev_spec list at2
  obtain ⟨m4, mergedNext, at4, changes4⟩ := tryMergeNext_spec list.joinLeft at3
  have sameNode : node (merged free c) = node (joinLeft (upTo c free) c).2 := node_joinRight
  have stages : InsertStages theheap m (node c) (((beyond c free).map node).headD (freeList theheap)) m2
      (node (merged free c)) m3 m4 := by
    constructor
    case search => rw [first]; exact search
    case link => rw [first]; exact linked
    case mergePrev => rw [sameNode]; exact mergedPrev
    case mergeNext => rw [sameNode]; exact mergedNext
  have members : upTo c free ++ c :: beyond c free ⊆ c :: free := by
    intro e he
    rw [← whole]
    simp only [List.mem_append, List.mem_cons] at he ⊢
    tauto
  have headers : Changes (HeaderFoot theheap (c :: free)) m1 m4 := by
    have onList := (changes2.mono fun x => HeaderFoot.of_pointer).trans
      (changes3.trans (changes4.mono fun x => HeaderFoot.joinLeft))
    exact onList.mono fun x => HeaderFoot.mono members
  refine ⟨m2, m3, m4, stages, list.joinLeft, at3, at4, ?_, ?_⟩
  · have room := chunks.room
    have address : (theheap + 8#32).toNat = theheap.toNat + 8 := toNat_theheap_add room (by decide)
    have all : ∀ e ∈ c :: free, Placed theheap e := by
      intro e he
      rcases List.mem_cons.mp he with rfl | he
      · exact chunkC
      · exact chunks.chunk e he
    have kept : remaining theheap m4 = remaining theheap m1 := by
      apply Memory.Changes.load32 headers
      · rw [address]; omega
      · rw [address]
        intro i bound
        exact HeaderFoot.off_globals all (by omega)
    rw [kept, ← first, ← len]
    exact load32_store32 m _ _
  · exact (counted.mono fun x inside => .inr inside).trans (headers.mono fun x foot => .inl foot)

theorem heapInsertFreeChunk_spec (chunks : PlacedFree theheap free)
    (at_ : FreeListAt theheap m free) (chunkC : Placed theheap c) (apart : ∀ e ∈ free, e.Apart c)
    (len : chunkLen m (node c) = BitVec.ofNat 32 c.len) :
    ∃ m', heapInsertFreeChunk theheap m (node c) = some (node (merged free c), m') ∧
      FreeListAt theheap m' (insertExtent free c) ∧
      remaining theheap m' = remaining theheap m + BitVec.ofNat 32 c.len ∧
      Changes (InsertFoot theheap (c :: free)) m m' := by
  obtain ⟨linked, joined, m', stages, -, -, rest⟩ := heapInsertFreeChunk_stages chunks at_ chunkC apart len
  exact ⟨m', stages.run, rest⟩

end

end ThreeX86.Heap
