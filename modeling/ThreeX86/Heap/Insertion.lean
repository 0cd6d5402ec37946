import ThreeX86.Heap.Blocks

/-!
`heap_insert_free_chunk` on any free list, whatever sides of `theheap` its chunks lie on.
-/

namespace ThreeX86.Heap

open Machine Machine.Memory ThreeX86.Lists Linked Extents Extent

/-- What the insertion of `c` comes to: the list `free'`, and the member `e` of it that the call returns. -/
structure InsertSound (theheap : Word) (m : Memory) (free : List Extent) (c e : Extent) (free' : List Extent)
    (m' : Memory) : Prop where
  run : heapInsertFreeChunk theheap m (node c) = some (node e, m')
  inserted : ∃ left p n right, Inserted c free left p n right free' e
  chunks : PlacedFree theheap free'
  list : FreeListAt theheap m' free'
  returned : e ∈ free' ∧ c.Within e
  counted : remaining theheap m' = remaining theheap m + BitVec.ofNat 32 c.len
  head : ∃ next linked joined, InsertStages theheap m (node c) next linked (node e) joined m' ∧
    listPrev linked (freeList theheap) (node c) ≠ freeList theheap ∧ (next = freeList theheap → m' = joined)
  frame : Changes (InsertFoot theheap (c :: free)) m m'

section

variable {theheap : Word} {free : List Extent} {c : Extent} {m : Memory}

theorem PlacedFree.insert (chunks : PlacedFree theheap free) (chunk : Placed theheap c)
    (apart : ∀ e ∈ free, e.Apart c) : PlacedFree theheap (insertExtent free c) where
  room := chunks.room
  chunk := forall_insertExtent (fun _ _ ha hb meet => ha.join hb meet) chunks.chunk chunk
  gapped := gapped_insertExtent chunks.gapped chunk.len_positive chunks.positive apart

theorem listPrev_ne_freeList (room : theheap.toNat + 24 ≤ 2^32) (m : Memory) (x : Word) :
    listPrev m (freeList theheap) x ≠ freeList theheap := by
  unfold listPrev
  split
  · next other => exact other
  · intro same
    have values := congrArg BitVec.toNat same
    have null : NodeStore.null Memory = (0#32 : Word) := rfl
    rw [toNat_freeList room, null, BitVec.toNat_ofNat] at values
    omega

/-- `heap_insert_free_chunk` puts the chunk in its place and makes one chunk of it and the neighbours it touches. -/
theorem heap_insert_free_chunk_sound (chunks : PlacedFree theheap free) (at_ : FreeListAt theheap m free)
    (chunk : Placed theheap c) (apart : ∀ e ∈ free, e.Apart c) (len : chunkLen m (node c) = BitVec.ofNat 32 c.len) :
    ∃ e free' m', InsertSound theheap m free c e free' m' := by
  have inserted := insertExtent_inserted chunks.gapped chunk.len_positive chunks.positive apart
  obtain ⟨linked, joined, m', stages, places, atJoined, list, counted, frame⟩ :=
    heapInsertFreeChunk_stages chunks at_ chunk apart len
  refine ⟨merged free c, insertExtent free c, m', ?_⟩
  constructor
  case run => exact stages.run
  case inserted => exact inserted
  case chunks => exact chunks.insert chunk apart
  case list => exact list
  case returned =>
    obtain ⟨left, p, n, right, at_⟩ := inserted
    exact ⟨at_.mem, at_.within⟩
  case counted => exact counted
  case head =>
    refine ⟨_, linked, joined, stages, listPrev_ne_freeList chunks.room linked (node c), ?_⟩
    intro disguised
    have member : (joinLeft (upTo c free) c).2 ∈
        (joinLeft (upTo c free) c).1 ++ (joinLeft (upTo c free) c).2 :: beyond c free := by simp
    have same : node (merged free c) = node (joinLeft (upTo c free) c).2 := node_joinRight
    have unmerged := tryMergeNext_freeList chunks.room (places.chunk _ member) (atJoined.lens _ member)
    rw [← unmerged, ← stages.mergeNext, disguised, same]
  case frame => exact frame

/-- A free chunk below `theheap` and one above it, and a chunk that touches the first. -/
theorem heap_insert_free_chunk_between : ∃ m e free' m',
    FreeListAt 4096#32 m [⟨1024, 16⟩, ⟨8192, 16⟩] ∧
      InsertSound 4096#32 m [⟨1024, 16⟩, ⟨8192, 16⟩] ⟨1040, 16⟩ e free' m' := by
  have place (start : Nat) (h : start = 1024 ∨ start = 1040 ∨ start = 8192) : Placed 4096#32 ⟨start, 16⟩ := by
    constructor
    all_goals simp only [stop, BitVec.toNat_ofNat]
    all_goals omega
  have room : (4096#32 : Word).toNat + 24 ≤ 2^32 := by decide
  obtain ⟨empty, -⟩ := cleared_inv room (fun _ => 0#8) 0#32 0#32
  obtain ⟨m1, -, -, -, one⟩ := empty.inserted (place 1024 (by simp)) (by simp) (by simp [HeapState.chunks])
  have single : BlocksInv 4096#32 ⟨m1, []⟩ [⟨1024, 16⟩] := one
  obtain ⟨m2, -, -, -, two⟩ :=
    single.inserted (place 8192 (by simp)) (by simp [Apart, stop]) (by simp [HeapState.chunks])
  have both : BlocksInv 4096#32 ⟨m2, []⟩ [⟨1024, 16⟩, ⟨8192, 16⟩] := two
  have apart : ∀ e ∈ [(⟨1024, 16⟩ : Extent), ⟨8192, 16⟩], e.Apart ⟨1040, 16⟩ := by simp [Apart, stop]
  have header := changes_setChunkLen (place 1040 (by simp)) m2 16#32
  have list : FreeListAt 4096#32 (setChunkLen m2 (node ⟨1040, 16⟩) 16#32) [⟨1024, 16⟩, ⟨8192, 16⟩] :=
    both.list.kept both.free_chunks.list header fun x inside =>
      headers_apart (place 1040 (by simp)) both.chunk apart (by simp only [Contains, stop] at inside ⊢; omega)
  obtain ⟨e, free', m', sound⟩ := heap_insert_free_chunk_sound both.free_chunks list (place 1040 (by simp)) apart
    (chunkLen_setChunkLen m2 _ _)
  exact ⟨_, e, free', m', list, sound⟩

end

end ThreeX86.Heap
