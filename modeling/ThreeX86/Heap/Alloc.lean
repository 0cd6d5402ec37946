import ThreeX86.Heap.Insert
import ThreeX86.Heap.Rounding

namespace ThreeX86.Heap

open Machine Machine.Memory ThreeX86.Lists Linked Extents Extent

/-! Taking a chunk off the free list. -/

/-- The part of a free chunk an allocation of length `n` keeps. -/
def carved (e : Extent) (n : Nat) : Extent := if n + 12 < e.len then ⟨e.start, n⟩ else e

def leftover (e : Extent) (n : Nat) : List Extent := if n + 12 < e.len then [⟨e.start + n, e.len - n⟩] else []

section

variable {theheap : Word} {region e : Extent} {left right chunks : List Extent} {m : Memory} {n : Nat}

theorem carved_start (e : Extent) (n : Nat) : (carved e n).start = e.start := by
  simp only [carved]
  split <;> rfl

theorem carved_bounds (fits : n ≤ e.len) :
    n ≤ (carved e n).len ∧ (carved e n).len ≤ n + 12 ∧ (carved e n).len ≤ e.len := by
  simp only [carved]
  split
  · simp only; omega
  · omega

theorem covers_carved (x : Nat) :
    e.Contains x ↔ (carved e n).Contains x ∨ Covers (leftover e n) x := by
  simp only [carved, leftover]
  split
  · simp only [covers_cons, covers_nil, or_false, Contains, stop]
    omega
  · simp only [covers_nil, or_false]

theorem carved_apart {r : Extent} (rest : r ∈ leftover e n) : r.Apart (carved e n) := by
  simp only [carved, leftover] at rest ⊢
  split at rest
  · rename_i room
    rw [List.mem_singleton.mp rest, if_pos room]
    right
    simp only [stop]
    omega
  · cases rest

theorem total_carved : e.len = (carved e n).len + total (leftover e n) := by
  simp only [carved, leftover]
  split
  · simp only [total_cons, total_nil]
    omega
  · simp only [total_nil, Nat.add_zero]

theorem IsChunk.carve (chunk : IsChunk region e) (aligned : n % 4 = 0) (large : 12 ≤ n) :
    IsChunk region (carved e n) := by
  obtain ⟨startAligned, lenAligned, atLeast, lower, upper⟩ := chunk
  simp only [carved]
  split
  · constructor
    all_goals simp only [stop] at *
    all_goals omega
  · exact ⟨startAligned, lenAligned, atLeast, lower, upper⟩

theorem IsChunk.rest (chunk : IsChunk region e) (aligned : n % 4 = 0) :
    ∀ r ∈ leftover e n, IsChunk region r := by
  obtain ⟨startAligned, lenAligned, atLeast, lower, upper⟩ := chunk
  intro r rest
  simp only [leftover] at rest
  split at rest
  · rw [List.mem_singleton.mp rest]
    constructor
    all_goals simp only [stop] at *
    all_goals omega
  · cases rest

theorem Placed.carve (chunk : Placed theheap e) (large : 12 ≤ n) : Placed theheap (carved e n) := by
  obtain ⟨atLeast, positive, bound, apart⟩ := chunk
  simp only [carved]
  split
  · constructor
    all_goals simp only [stop] at *
    all_goals omega
  · exact ⟨atLeast, positive, bound, apart⟩

theorem Placed.rest (chunk : Placed theheap e) : ∀ r ∈ leftover e n, Placed theheap r := by
  obtain ⟨atLeast, positive, bound, apart⟩ := chunk
  intro r rest
  simp only [leftover] at rest
  split at rest
  · rw [List.mem_singleton.mp rest]
    constructor
    all_goals simp only [stop] at *
    all_goals omega
  · cases rest

theorem gapped_leftover (gapped : Gapped (left ++ e :: right)) : Gapped (left ++ leftover e n ++ right) := by
  have middle := gapped_middle.mp gapped
  by_cases room : n + 12 < e.len
  · simp only [leftover, room, ite_true]
    rw [List.append_assoc, List.singleton_append, gapped_middle]
    refine ⟨middle.1, ?_, ?_⟩
    · intro a ha
      have before := middle.2.1 a ha
      simp only
      omega
    · intro b hb
      have after := middle.2.2 b hb
      simp only [stop] at *
      omega
  · simpa only [leftover, room, ite_false, List.append_nil] using middle.1

theorem forall_leftover {P : Extent → Prop} (all : ∀ r ∈ left ++ e :: right, P r) (rest : ∀ r ∈ leftover e n, P r) :
    ∀ r ∈ left ++ leftover e n ++ right, P r := by
  intro r member
  simp only [List.mem_append] at member
  rcases member with (member | member) | member
  · exact all r (List.mem_append_left _ member)
  · exact rest r member
  · exact all r (by simp [member])

theorem FreeChunks.carve (chunks : FreeChunks region (left ++ e :: right)) (aligned : n % 4 = 0) :
    FreeChunks region (left ++ leftover e n ++ right) :=
  ⟨forall_leftover chunks.chunk ((chunks.chunk e (by simp)).rest aligned), gapped_leftover chunks.gapped⟩

theorem PlacedFree.carve (chunks : PlacedFree theheap (left ++ e :: right)) :
    PlacedFree theheap (left ++ leftover e n ++ right) :=
  ⟨chunks.room, forall_leftover chunks.chunk (chunks.chunk e (by simp)).rest, gapped_leftover chunks.gapped⟩

theorem carved_apart_rest (gapped : Gapped (left ++ e :: right)) (fits : n ≤ e.len) :
    ∀ r ∈ left ++ leftover e n ++ right, r.Apart (carved e n) := by
  have middle := gapped_middle.mp gapped
  have start := carved_start e n
  have bounds := carved_bounds fits
  intro r member
  simp only [List.mem_append] at member
  rcases member with (member | member) | member
  · have before := middle.2.1 r member
    left
    omega
  · exact carved_apart member
  · have after := middle.2.2 r member
    right
    simp only [stop] at *
    omega

theorem covers_leftover (x : Nat) : Covers (left ++ e :: right) x ↔
    (carved e n).Contains x ∨ Covers (left ++ leftover e n ++ right) x := by
  rw [covers_append, covers_cons, covers_append, covers_append, covers_carved]
  tauto

theorem total_leftover :
    total (left ++ e :: right) = (carved e n).len + total (left ++ leftover e n ++ right) := by
  have whole : e.len = _ := total_carved (n := n)
  simp only [total_append, total_cons]
  omega

/-! ### The split -/

theorem headers_apart (chunk : Placed theheap e)
    (all : ∀ r ∈ chunks, Placed theheap r) (apart : ∀ r ∈ chunks, r.Apart e) {x : Nat} (inside : e.Contains x) :
    ¬ HeaderFoot theheap chunks x := by
  intro foot
  cases foot with
  | inl head =>
    have off := chunk.off_theheap inside
    omega
  | inr header =>
    obtain ⟨r, member, words⟩ := header
    have large := (all r member).large
    have disjoint := apart r member
    simp only [Apart, Contains, stop] at *
    omega

theorem PlacedList.others (list : PlacedList theheap (left ++ e :: right)) :
    (∀ r ∈ left ++ right, Placed theheap r) ∧ ∀ r ∈ left ++ right, r.Apart e := by
  have ordered := list.ordered
  rw [List.pairwise_append, List.pairwise_cons] at ordered
  constructor
  · intro r member
    apply list.chunk
    simp only [List.mem_append, List.mem_cons] at member ⊢
    tauto
  · intro r member
    rcases List.mem_append.mp member with member | member
    · exact .inl (ordered.2.2 r member e List.mem_cons_self)
    · exact .inr (ordered.2.1.1 r member)

theorem off_headers (list : PlacedList theheap (left ++ e :: right)) {x : Nat}
    (inside : e.Contains x) : ¬ HeaderFoot theheap (left ++ right) x :=
  headers_apart (list.chunk e (by simp)) list.others.1 list.others.2 inside

theorem node_add (e : Extent) (s : Word) (l : Nat) : node e + s = node ⟨e.start + s.toNat, l⟩ := by
  simp [node, BitVec.ofNat_add]

/-- What taking the chunk `e` off the list may change. -/
def CutFoot (theheap : Word) (e : Extent) (chunks : List Extent) (x : Nat) : Prop :=
  PointerFoot theheap chunks x ∨ e.Contains x

theorem changes_setChunkLen_within {c : Extent} (chunk : Placed theheap c)
    (within : c.Within e) (m : Memory) (v : Word) : Changes e.Contains m (setChunkLen m (node c) v) := by
  refine (changes_setChunkLen chunk m v).mono fun x inside => ?_
  have large := chunk.large
  simp only [Within, Contains, stop] at *
  omega

section Split

variable {s next : Word}

/-- `next` is the node after the chunk `e`, or null at the end of the list. -/
def IsNext (theheap next : Word) (right : List Extent) : Prop :=
  ∀ (m : Memory) (c : Word),
    (if next ≠ 0#32 then listAddBefore m next c else listAddTail m (freeList theheap) c) =
      if (right.map node).headD (freeList theheap) ≠ freeList theheap then
        listAddBefore m ((right.map node).headD (freeList theheap)) c
      else listAddTail m (freeList theheap) c

theorem isNext_listNext (list : PlacedList theheap (left ++ e :: right))
    (ring : Ring m (freeList theheap) ((left ++ e :: right).map node)) :
    IsNext theheap (listNext m (freeList theheap) (node e)) right := by
  intro m' c
  rw [List.map_append, List.map_cons] at ring
  rw [listNext, ring_next ring]
  cases right with
  | nil =>
    have null : NodeStore.null Memory = (0#32 : Word) := rfl
    simp [null]
  | cons r right =>
    have chunk := list.chunk r (by simp)
    simp [node_ne_freeList list.room chunk, node_ne_zero chunk]

/-- The part split off behind the first `s` bytes. -/
def tailPart (e : Extent) (s : Word) : Extent := ⟨e.start + s.toNat, e.len - s.toNat⟩

theorem tailPart_chunk (chunk : Placed theheap e) (room : s.toNat + 12 < e.len) :
    Placed theheap (tailPart e s) := by
  apply chunk.rest (n := s.toNat)
  simp only [leftover, room, ite_true, tailPart, List.mem_singleton]

theorem tailPart_list (list : PlacedList theheap (left ++ e :: right)) (room : s.toNat + 12 < e.len) :
    PlacedList theheap (left ++ tailPart e s :: right) := by
  have restChunk := tailPart_chunk (list.chunk e (by simp)) room
  have ordered := list.ordered
  simp only [List.pairwise_append, List.pairwise_cons, List.mem_cons, forall_eq_or_imp] at ordered
  refine ⟨list.room, ?_, ?_⟩
  · intro r member
    rcases List.mem_append.mp member with member | member
    · exact list.chunk r (by simp [member])
    · rcases List.mem_cons.mp member with rfl | member
      · exact restChunk
      · exact list.chunk r (by simp [member])
  · simp only [List.pairwise_append, List.pairwise_cons, List.mem_cons, forall_eq_or_imp]
    refine ⟨ordered.1, ⟨fun b hb => ?_, ordered.2.1.2⟩, fun a ha => ⟨?_, (ordered.2.2 a ha).2⟩⟩
    · have after := ordered.2.1.1 b hb
      simp only [tailPart, stop] at *
      omega
    · have before := (ordered.2.2 a ha).1
      simp only [tailPart, stop] at *
      omega

/-- Both lengths set, and nothing else. -/
def splitLens (m : Memory) (e : Extent) (s : Word) : Memory :=
  setChunkLen (setChunkLen m (node (tailPart e s)) (chunkLen m (node e) - s)) (node e) s

theorem splitChunk_eq (isNext : IsNext theheap next right) (m : Memory) (e : Extent) (s : Word) :
    splitChunk theheap m (node e) next s =
      if (right.map node).headD (freeList theheap) ≠ freeList theheap then
        listAddBefore (splitLens m e s) ((right.map node).headD (freeList theheap)) (node (tailPart e s))
      else listAddTail (splitLens m e s) (freeList theheap) (node (tailPart e s)) := by
  have front (v : Word) : v - (v - s) = s := by
    have bound := v.isLt
    have bound' := s.isLt
    apply BitVec.eq_of_toNat_eq
    simp only [BitVec.toNat_sub]
    omega
  simp only [splitChunk, heapCreateFreeChunk, front]
  rw [isNext, node_add e s (e.len - s.toNat)]
  rfl

theorem changes_splitLens (chunk : Placed theheap e)
    (room : s.toNat + 12 < e.len) : Changes e.Contains m (splitLens m e s) := by
  have restChunk := tailPart_chunk chunk room
  have within : (tailPart e s).Within e := by
    simp only [tailPart, Within, stop]
    omega
  exact (changes_setChunkLen_within restChunk within m _).trans
    (changes_setChunkLen_within chunk ⟨Nat.le_refl _, Nat.le_refl _⟩ _ _)

theorem cut_foot_of_tail {x : Nat} (room : s.toNat + 12 < e.len)
    (foot : PointerFoot theheap (left ++ tailPart e s :: right) x) : CutFoot theheap e (left ++ right) x := by
  cases foot with
  | inl head => exact .inl (.inl head)
  | inr words =>
    obtain ⟨r, member, words⟩ := words
    rcases List.mem_append.mp member with member | member
    · exact .inl (.inr ⟨r, List.mem_append_left _ member, words⟩)
    · rcases List.mem_cons.mp member with rfl | member
      · right
        simp only [tailPart, Contains, stop] at *
        omega
      · exact .inl (.inr ⟨r, List.mem_append_right _ member, words⟩)

/-- The ring after the split, whatever the length that stays in front. -/
theorem splitChunk_ring (list : PlacedList theheap (left ++ e :: right))
    (ring : Ring m (freeList theheap) ((left ++ right).map node))
    (room : s.toNat + 12 < e.len) (isNext : IsNext theheap next right) :
    Ring (splitChunk theheap m (node e) next s) (freeList theheap) ((left ++ tailPart e s :: right).map node) ∧
      Changes (CutFoot theheap e (left ++ right)) m (splitChunk theheap m (node e) next s) := by
  have sub : (left ++ right).Sublist (left ++ e :: right) := (List.sublist_cons_self e right).append_left left
  have lens : Changes e.Contains m (splitLens m e s) := changes_splitLens (list.chunk e (by simp)) room
  have kept := Changes.ring lens (list.sublist sub) ring
    fun x inside foot => off_headers list inside (HeaderFoot.of_pointer foot)
  obtain ⟨m', linked, ring', changes⟩ := ring_link (tailPart_list list room) kept
  rw [splitChunk_eq isNext, linked]
  exact ⟨ring', (lens.mono fun x inside => .inr inside).trans
    (changes.mono fun x foot => cut_foot_of_tail room foot)⟩

/-- With a front part that can hold a free chunk of its own, both lengths are right as well. -/
theorem splitChunk_spec (list : PlacedList theheap (left ++ e :: right))
    (at_ : FreeListAt theheap m (left ++ right)) (lenE : chunkLen m (node e) = BitVec.ofNat 32 e.len)
    (large : 12 ≤ s.toNat) (room : s.toNat + 12 < e.len)
    (isNext : IsNext theheap next right) :
    FreeListAt theheap (splitChunk theheap m (node e) next s) (left ++ tailPart e s :: right) ∧
      chunkLen (splitChunk theheap m (node e) next s) (node e) = s := by
  have chunk := list.chunk e (by simp)
  have restChunk := tailPart_chunk chunk room
  have sub : (left ++ right).Sublist (left ++ e :: right) := (List.sublist_cons_self e right).append_left left
  have lens : Changes e.Contains m (splitLens m e s) := changes_splitLens chunk room
  have kept := at_.kept (list.sublist sub) lens fun x inside => off_headers list inside
  have restLen : chunkLen (splitLens m e s) (node (tailPart e s)) = BitVec.ofNat 32 (tailPart e s).len := by
    have front := changes_setChunkLen chunk (setChunkLen m (node (tailPart e s)) (chunkLen m (node e) - s)) s
    rw [splitLens, Changes.chunkLen front restChunk, chunkLen_setChunkLen, lenE]
    · apply BitVec.eq_of_toNat_eq
      have bound := s.isLt
      have bound' := chunk.bound
      simp only [tailPart, stop] at *
      rw [BitVec.toNat_sub, BitVec.toNat_ofNat, BitVec.toNat_ofNat]
      omega
    · intro i bound inside
      simp only [tailPart] at inside
      omega
  obtain ⟨m', linked, at', changes⟩ := kept.link (tailPart_list list room) restLen
  rw [splitChunk_eq isNext, linked]
  refine ⟨at', ?_⟩
  rw [Changes.chunkLen changes chunk, splitLens, chunkLen_setChunkLen]
  intro i bound foot
  cases foot with
  | inl head =>
    have off := chunk.off_theheap (x := e.start + 8 + i) (by simp only [stop]; omega)
    omega
  | inr words =>
    obtain ⟨r, member, words⟩ := words
    by_cases tail : r = tailPart e s
    · subst r
      simp only [tailPart] at words
      omega
    · have other : r ∈ left ++ right := by
        simp only [List.mem_append, List.mem_cons] at member ⊢
        tauto
      refine off_headers list (x := e.start + 8 + i) (by simp only [Contains, stop]; omega) (.inr ⟨r, other, ?_⟩)
      omega

/-- Deleting the node leaves its length in place, and the code's test compares exact lengths. -/
theorem cut_test (list : PlacedList theheap (left ++ e :: right))
    (at_ : FreeListAt theheap m (left ++ e :: right)) (fits : s.toNat ≤ e.len) :
    chunkLen (listDelete m (node e)) (node e) = BitVec.ofNat 32 e.len ∧
      (chunkLen (listDelete m (node e)) (node e) > s + sizeofFreeHeapChunk ↔ s.toNat + 12 < e.len) := by
  have member : e ∈ left ++ e :: right := by simp
  have chunk := list.chunk e member
  have kept : chunkLen (listDelete m (node e)) (node e) = BitVec.ofNat 32 e.len := by
    rw [Changes.chunkLen (at_.unlink list).2 chunk, at_.lens e member]
    intro i bound
    exact len_off_pointers list member (by omega)
  refine ⟨kept, ?_⟩
  have room := list.room
  have ⟨_, positive, bound, apart⟩ := chunk
  simp only [stop] at *
  rw [kept, gt_iff_lt, BitVec.lt_def, sizeofFreeHeapChunk, BitVec.toNat_add, toNat_ofNat_word (by omega),
    BitVec.toNat_ofNat]
  omega

theorem cut_foot_of_pointers {x : Nat} (large : 12 ≤ e.len) (foot : PointerFoot theheap (left ++ e :: right) x) :
    CutFoot theheap e (left ++ right) x := by
  cases foot with
  | inl head => exact .inl (.inl head)
  | inr words =>
    obtain ⟨r, member, words⟩ := words
    by_cases same : r = e
    · subst r
      right
      simp only [Contains, stop]
      omega
    · have other : r ∈ left ++ right := by
        simp only [List.mem_append, List.mem_cons] at member ⊢
        tauto
      exact .inl (.inr ⟨r, other, words⟩)

theorem cutChunk_whole (list : PlacedList theheap (left ++ e :: right))
    (at_ : FreeListAt theheap m (left ++ e :: right)) (fits : s.toNat ≤ e.len) (short : ¬ s.toNat + 12 < e.len) :
    FreeListAt theheap (cutChunk theheap m (node e) s) (left ++ right) ∧
      chunkLen (cutChunk theheap m (node e) s) (node e) = BitVec.ofNat 32 e.len ∧
      Changes (CutFoot theheap e (left ++ right)) m (cutChunk theheap m (node e) s) := by
  obtain ⟨kept, test⟩ := cut_test list at_ fits
  obtain ⟨unlinked, changes⟩ := at_.unlink list
  have large := (list.chunk e (by simp)).large
  simp only [cutChunk, test, short, ite_false]
  exact ⟨unlinked, kept, changes.mono fun x => cut_foot_of_pointers large⟩

theorem cutChunk_split (list : PlacedList theheap (left ++ e :: right))
    (at_ : FreeListAt theheap m (left ++ e :: right)) (room : s.toNat + 12 < e.len) :
    Ring (cutChunk theheap m (node e) s) (freeList theheap) ((left ++ tailPart e s :: right).map node) ∧
      Changes (CutFoot theheap e (left ++ right)) m (cutChunk theheap m (node e) s) ∧
      (12 ≤ s.toNat → FreeListAt theheap (cutChunk theheap m (node e) s) (left ++ tailPart e s :: right) ∧
        chunkLen (cutChunk theheap m (node e) s) (node e) = s) := by
  obtain ⟨kept, test⟩ := cut_test list at_ (show s.toNat ≤ e.len by omega)
  obtain ⟨unlinked, changes⟩ := at_.unlink list
  have isNext := isNext_listNext list at_.ring
  have large := (list.chunk e (by simp)).large
  simp only [cutChunk, test, room, ite_true]
  obtain ⟨ring, split⟩ := splitChunk_ring list unlinked.ring room isNext
  refine ⟨ring, (changes.mono fun x => cut_foot_of_pointers large).trans split, fun atLeast => ?_⟩
  exact splitChunk_spec list unlinked kept atLeast room isNext

theorem cutChunk_spec (list : PlacedList theheap (left ++ e :: right))
    (at_ : FreeListAt theheap m (left ++ e :: right)) (large : 12 ≤ s.toNat)
    (fits : s.toNat ≤ e.len) :
    FreeListAt theheap (cutChunk theheap m (node e) s) (left ++ leftover e s.toNat ++ right) ∧
      chunkLen (cutChunk theheap m (node e) s) (node e) = BitVec.ofNat 32 (carved e s.toNat).len ∧
      Changes (CutFoot theheap e (left ++ right)) m (cutChunk theheap m (node e) s) := by
  by_cases room : s.toNat + 12 < e.len
  · obtain ⟨-, changes, exact_⟩ := cutChunk_split list at_ room
    obtain ⟨split, len⟩ := exact_ large
    simp only [leftover, carved, room, ite_true, List.append_assoc, List.singleton_append]
    exact ⟨split, by rw [len, ofNat_toNat_word], changes⟩
  · simp only [leftover, carved, room, ite_false, List.append_nil]
    exact cutChunk_whole list at_ fits room

end Split

/-! ### The pointer and the record below it -/

theorem sixteen_dvd_four {a x : Nat} (power : a.isPowerOfTwo) (large : 16 ≤ a) (h : a ∣ x) : x % 4 = 0 := by
  have multiple : 16 ∣ x := Nat.dvd_trans (sixteen_dvd power large) h
  omega

theorem toNat_payloadStart (chunk : Placed theheap e) : (node e + sizeofAllocStructBegin).toNat = e.start + 8 :=
  toNat_chunkLen_address chunk

theorem alignPtr_power {chunk a : Word} (power : a.toNat.isPowerOfTwo) :
    alignPtr chunk a = roundUp (chunk + sizeofAllocStructBegin) a := by
  have positive := Nat.pos_of_isPowerOfTwo power
  apply if_pos
  rw [gt_iff_lt, BitVec.lt_def, BitVec.toNat_ofNat]
  omega

theorem toNat_record {ptr : Word} (lower : 8 ≤ ptr.toNat) :
    (ptr - sizeofAllocStructBegin).toNat = ptr.toNat - 8 ∧
      (ptr - sizeofAllocStructBegin + 4#32).toNat = ptr.toNat - 4 := by
  have bound := ptr.isLt
  have first : (ptr - sizeofAllocStructBegin).toNat = ptr.toNat - 8 := by
    rw [sizeofAllocStructBegin, BitVec.toNat_sub, BitVec.toNat_ofNat]
    omega
  refine ⟨first, ?_⟩
  rw [BitVec.toNat_add, first, BitVec.toNat_ofNat]
  omega

theorem alignPtr_spec (chunk : Placed theheap e) {a : Word}
    (valid : a = 0#32 ∨ a.toNat.isPowerOfTwo ∧ 16 ≤ a.toNat) (room : 8 + a.toNat ≤ e.len) :
    e.start + 8 ≤ (alignPtr (node e) a).toNat ∧ (alignPtr (node e) a).toNat ≤ e.start + 8 + a.toNat ∧
      (e.start % 4 = 0 → (alignPtr (node e) a).toNat % 4 = 0) ∧ (a ≠ 0#32 → a.toNat ∣ (alignPtr (node e) a).toNat) := by
  have bound := chunk.bound
  have header := toNat_payloadStart chunk
  rcases valid with rfl | ⟨power, large⟩
  · have plain : alignPtr (node e) 0#32 = node e + sizeofAllocStructBegin := rfl
    rw [plain, header]
    exact ⟨Nat.le_refl _, by simp, fun aligned => by omega, fun h => absurd rfl h⟩
  · have bounds := roundUp_bounds (node e + sizeofAllocStructBegin) a power
      (by rw [header]; simp only [stop] at bound; omega)
    rw [header] at bounds
    rw [alignPtr_power power]
    exact ⟨bounds.1, by omega, fun _ => sixteen_dvd_four power large bounds.2.2, fun _ => bounds.2.2⟩

theorem recordChunk_spec (room : theheap.toNat + 24 ≤ 2^32) (m : Memory) {ptr : Word} (chunk size : Word)
    (lower : 8 ≤ ptr.toNat) (off : ptr.toNat ≤ theheap.toNat + 8 ∨ theheap.toNat + 24 ≤ ptr.toNat) :
    (recordChunk theheap m ptr chunk size).load32 (ptr - sizeofAllocStructBegin) = chunk ∧
      (recordChunk theheap m ptr chunk size).load32 (ptr - sizeofAllocStructBegin + 4#32) = size ∧
      remaining theheap (recordChunk theheap m ptr chunk size) = remaining theheap m - size ∧
      lowWatermark theheap (recordChunk theheap m ptr chunk size) =
        (if remaining theheap m - size < lowWatermark theheap m then remaining theheap m - size
          else lowWatermark theheap m) ∧
      Changes (fun x => (ptr.toNat ≤ x + 8 ∧ x < ptr.toNat) ∨ (theheap.toNat + 8 ≤ x ∧ x < theheap.toNat + 16)) m
        (recordChunk theheap m ptr chunk size) := by
  have bound := ptr.isLt
  obtain ⟨as, asSize⟩ := toNat_record lower
  have counter : (theheap + 8#32).toNat = theheap.toNat + 8 := toNat_theheap_add room (by decide)
  have mark : (theheap + 12#32).toNat = theheap.toNat + 12 := toNat_theheap_add room (by decide)
  generalize set1 : m.store32 (ptr - sizeofAllocStructBegin) chunk = m1
  generalize set2 : m1.store32 (ptr - sizeofAllocStructBegin + 4#32) size = m2
  generalize set3 : setRemaining theheap m2 (remaining theheap m2 - size) = m3
  have whole : recordChunk theheap m ptr chunk size =
      if remaining theheap m3 < lowWatermark theheap m3 then setLowWatermark theheap m3 (remaining theheap m3)
      else m3 := by
    simp only [recordChunk, set1, set2, set3]
  have changes1 := changes_store32 m (ptr - sizeofAllocStructBegin) chunk (by omega)
  have changes2 := changes_store32 m1 (ptr - sizeofAllocStructBegin + 4#32) size (by omega)
  have changes3 := changes_setRemaining room m2 (remaining theheap m2 - size)
  rw [set1, as] at changes1
  rw [set2, asSize] at changes2
  rw [set3] at changes3
  have record1 : m2.load32 (ptr - sizeofAllocStructBegin) = chunk := by
    rw [changes2.load32 (by omega) (by omega), ← set1, load32_store32]
  have record2 : m2.load32 (ptr - sizeofAllocStructBegin + 4#32) = size := by rw [← set2, load32_store32]
  have header : Changes (fun x => ptr.toNat ≤ x + 8 ∧ x < ptr.toNat) m m2 :=
    (changes1.mono fun x inside => by omega).trans (changes2.mono fun x inside => by omega)
  have count : remaining theheap m3 = remaining theheap m - size := by
    have kept : remaining theheap m2 = remaining theheap m := header.load32 (by omega) (by omega)
    rw [← kept, ← set3]
    exact load32_store32 m2 _ _
  have low : lowWatermark theheap m3 = lowWatermark theheap m := by
    have kept : lowWatermark theheap m2 = lowWatermark theheap m := header.load32 (by omega) (by omega)
    rw [← kept]
    exact changes3.load32 (by omega) (by omega)
  have accounting : Changes (fun x => theheap.toNat + 8 ≤ x ∧ x < theheap.toNat + 16) m2
      (recordChunk theheap m ptr chunk size) := by
    rw [whole]
    have upTo3 := changes3.mono (T := fun x => theheap.toNat + 8 ≤ x ∧ x < theheap.toNat + 16) fun x inside => by omega
    split
    · refine upTo3.trans ((changes_store32 m3 (theheap + 12#32) _ (by omega)).mono fun x inside => ?_)
      rw [mark] at inside
      omega
    · exact upTo3
  have final : remaining theheap (recordChunk theheap m ptr chunk size) = remaining theheap m3 := by
    rw [whole]
    split
    · exact (changes_store32 m3 (theheap + 12#32) _ (by omega)).load32 (by omega) (by rw [counter, mark]; omega)
    · rfl
  refine ⟨?_, ?_, final.trans count, ?_, ?_⟩
  · rw [accounting.load32 (by omega) (by omega), record1]
  · rw [accounting.load32 (by omega) (by omega), record2]
  · rw [whole, ← count, ← low]
    split
    · exact load32_store32 m3 _ _
    · rfl
  · exact (header.mono fun x inside => .inl inside).trans (accounting.mono fun x inside => .inr inside)

/-! ### `miniheap_alloc` -/

/-- What an allocation from the chunk `e` may change. -/
def AllocFoot (theheap : Word) (e : Extent) (chunks : List Extent) (x : Nat) : Prop :=
  CutFoot theheap e chunks x ∨ theheap.toNat + 8 ≤ x ∧ x < theheap.toNat + 16

theorem CutFoot.off_globals (list : PlacedList theheap (left ++ e :: right)) {x : Nat}
    (inside : theheap.toNat ≤ x ∧ x < theheap.toNat + 16) : ¬ CutFoot theheap e (left ++ right) x := by
  intro foot
  cases foot with
  | inl pointer => exact HeaderFoot.off_globals list.others.1 inside (HeaderFoot.of_pointer pointer)
  | inr contains =>
    have off := (list.chunk e (by simp)).off_theheap contains
    omega

/-- What a successful allocation leaves behind: `n` bytes were needed and `e` was the chunk. -/
structure Served (theheap : Word) (m m' : Memory) (left : List Extent) (e : Extent) (right : List Extent) (n : Nat)
    (ptr : Word) : Prop where
  list : FreeListAt theheap m' (left ++ leftover e n ++ right)
  chunkAt : m'.load32 (ptr - sizeofAllocStructBegin) = node e
  sizeAt : m'.load32 (ptr - sizeofAllocStructBegin + 4#32) = BitVec.ofNat 32 (carved e n).len
  remainingAt : remaining theheap m' = remaining theheap m - BitVec.ofNat 32 (carved e n).len
  changes : Changes (AllocFoot theheap e (left ++ right)) m m'

/-- The chunk is cut to its length before it is recorded. -/
theorem takeChunk_recorded (chunks : PlacedFree theheap (left ++ e :: right))
    (at_ : FreeListAt theheap m (left ++ e :: right)) {s a : Word}
    (valid : a = 0#32 ∨ a.toNat.isPowerOfTwo ∧ 16 ≤ a.toNat) (large : 12 + a.toNat ≤ s.toNat) (fits : s.toNat ≤ e.len) :
    takeChunk theheap m (node e) s a = (alignPtr (node e) a, BitVec.ofNat 32 (carved e s.toNat).len,
        recordChunk theheap (cutChunk theheap m (node e) s) (alignPtr (node e) a) (node e)
          (BitVec.ofNat 32 (carved e s.toNat).len)) ∧
      (e.start + 8 ≤ (alignPtr (node e) a).toNat ∧ (alignPtr (node e) a).toNat ≤ e.start + 8 + a.toNat) ∧
      ((alignPtr (node e) a).toNat ≤ theheap.toNat + 8 ∨ theheap.toNat + 24 ≤ (alignPtr (node e) a).toNat) := by
  have chunk := chunks.list.chunk e (by simp)
  obtain ⟨-, len, -⟩ := cutChunk_spec chunks.list at_ (by omega) fits
  obtain ⟨lower, upper, -, -⟩ := alignPtr_spec chunk valid (by omega)
  refine ⟨?_, ⟨lower, upper⟩, ?_⟩
  · simp only [takeChunk, len]
  · have side := chunk.off_theheap (x := (alignPtr (node e) a).toNat - 8) (by simp only [stop]; omega)
    have side' := chunk.off_theheap (x := (alignPtr (node e) a).toNat - 1) (by simp only [stop]; omega)
    omega

theorem cutChunk_global (chunks : PlacedFree theheap (left ++ e :: right))
    (at_ : FreeListAt theheap m (left ++ e :: right)) {s : Word} (large : 12 ≤ s.toNat)
    (fits : s.toNat ≤ e.len) {k : Nat} (bound : k < 13) :
    (cutChunk theheap m (node e) s).load32 (theheap + BitVec.ofNat 32 k) = m.load32 (theheap + BitVec.ofNat 32 k) := by
  obtain ⟨-, -, changes⟩ := cutChunk_spec chunks.list at_ large fits
  have room := chunks.room
  have address := toNat_theheap_add room (show k < 24 by omega)
  apply changes.load32
  · omega
  · intro i small
    exact CutFoot.off_globals chunks.list (by omega)

theorem takeChunk_spec (chunks : PlacedFree theheap (left ++ e :: right))
    (at_ : FreeListAt theheap m (left ++ e :: right)) {s a : Word}
    (valid : a = 0#32 ∨ a.toNat.isPowerOfTwo ∧ 16 ≤ a.toNat) (large : 12 + a.toNat ≤ s.toNat) (fits : s.toNat ≤ e.len) :
    ∃ m', takeChunk theheap m (node e) s a =
        (alignPtr (node e) a, BitVec.ofNat 32 (carved e s.toNat).len, m') ∧
      Served theheap m m' left e right s.toNat (alignPtr (node e) a) ∧
      lowWatermark theheap m' =
        if remaining theheap m' < lowWatermark theheap m then remaining theheap m' else lowWatermark theheap m := by
  have list := chunks.list
  have chunk := list.chunk e (by simp)
  have kept := chunk.carve (show 12 ≤ s.toNat by omega)
  have after := chunks.carve (n := s.toNat)
  have bounds := carved_bounds fits
  have start := carved_start e s.toNat
  obtain ⟨cut, -, changes⟩ := cutChunk_spec list at_ (by omega) fits
  obtain ⟨taken, ⟨lower, upper⟩, off⟩ := takeChunk_recorded chunks at_ valid large fits
  have sameCount : remaining theheap (cutChunk theheap m (node e) s) = remaining theheap m :=
    cutChunk_global chunks at_ (by omega) fits (by decide)
  have sameMark : lowWatermark theheap (cutChunk theheap m (node e) s) = lowWatermark theheap m :=
    cutChunk_global chunks at_ (by omega) fits (by decide)
  obtain ⟨atChunk, atSize, count, mark, record⟩ := recordChunk_spec chunks.room (cutChunk theheap m (node e) s) (node e)
    (BitVec.ofNat 32 (carved e s.toNat).len) (show 8 ≤ (alignPtr (node e) a).toNat by omega) off
  refine ⟨_, taken, ?_, ?_⟩
  · constructor
    case list =>
      apply cut.kept after.list record
      intro x inside
      rcases inside with inside | inside
      · apply headers_apart kept after.chunk (carved_apart_rest chunks.gapped fits)
        simp only [Contains, stop]
        omega
      · exact HeaderFoot.off_globals after.chunk (by omega)
    case chunkAt => exact atChunk
    case sizeAt => exact atSize
    case remainingAt => rw [count, sameCount]
    case changes =>
      refine (changes.mono fun x foot => .inl foot).trans (record.mono fun x inside => ?_)
      rcases inside with inside | inside
      · left; right
        simp only [Contains, stop]
        omega
      · exact .inr inside
  · rw [mark, count, sameMark]

/-- With no pages to grow by, the first pass decides. -/
theorem miniheapAlloc_of_pass {size alignment ptr len : Word} {m' : Memory}
    (valid : alignment = 0#32 ∨ alignment.toNat.isPowerOfTwo)
    (pass : allocPass theheap m (chunkSize size alignment) (clampAlignment alignment) = some (ptr, len, m')) :
    miniheapAlloc theheap m size alignment = some (ptr, m') := by
  have accepted : ¬ alignment &&& (alignment - 1#32) ≠ 0#32 := not_not.mpr ((power_test alignment).mpr valid)
  have refused : heapGrow theheap pageAlloc m' len = some (-1#32, m') := rfl
  rw [miniheapAlloc, miniheapAllocFrom, if_neg accepted, pass]
  simp only [Option.bind_eq_bind, Option.bind_some, refused]
  split
  · rfl
  · rfl

theorem miniheapAlloc_invalid {size alignment : Word} (m : Memory)
    (invalid : ¬ (alignment = 0#32 ∨ alignment.toNat.isPowerOfTwo)) :
    miniheapAlloc theheap m size alignment = some (0#32, m) := by
  have refused : alignment &&& (alignment - 1#32) ≠ 0#32 := fun h => invalid ((power_test alignment).mp h)
  rw [miniheapAlloc, miniheapAllocFrom, if_pos refused]
  rfl

variable {free : List Extent}

theorem allocSearch (chunks : PlacedFree theheap free)
    (at_ : FreeListAt theheap m free) (s : Word) :
    listForEveryEntryUntil m (freeList theheap) (fun chunk => decide (chunkLen m chunk ≥ s)) entryLimit
        (NodeStore.next m (freeList theheap)) =
      some (((free.dropWhile fun e => decide (e.len < s.toNat)).map node).headD (freeList theheap)) := by
  have ring : Ring m (freeList theheap) ([] ++ free.map node) := at_.ring
  have short : (free.map node).length < entryLimit := by
    rw [List.length_map]
    exact chunks.length_lt
  rw [ring_next_head at_.ring, ring_until ring _ _ short]
  rw [dropWhile_nodes (q := fun e => decide (e.len < s.toNat)) ?_]
  intro e member
  have bound := (chunks.chunk e member).bound
  have positive := (chunks.chunk e member).positive
  simp only [stop] at bound
  have value : (BitVec.ofNat 32 e.len).toNat = e.len := toNat_ofNat_word (by omega)
  simp only [at_.lens e member, ge_iff_le, BitVec.le_def, value, ← decide_not, Nat.not_le]

theorem allocPass_none (chunks : PlacedFree theheap free)
    (at_ : FreeListAt theheap m free) {s : Word} (a : Word) (small : ∀ e ∈ free, e.len < s.toNat) :
    allocPass theheap m s a = some (0#32, s, m) := by
  have none : (free.dropWhile fun e => decide (e.len < s.toNat)) = [] := by
    rw [List.dropWhile_eq_nil_iff]
    intro e member
    simpa using small e member
  simp only [allocPass, allocSearch chunks at_ s, none, List.map_nil, List.headD_nil, Option.bind_eq_bind,
    Option.bind_some, ite_true]
  rfl

theorem allocPass_first (chunks : PlacedFree theheap (left ++ e :: right))
    (at_ : FreeListAt theheap m (left ++ e :: right)) {s : Word} (a : Word) (small : ∀ r ∈ left, r.len < s.toNat)
    (fits : s.toNat ≤ e.len) : allocPass theheap m s a = some (takeChunk theheap m (node e) s a) := by
  have first : ((left ++ e :: right).dropWhile fun e => decide (e.len < s.toNat)) = e :: right := by
    have long : ¬ e.len < s.toNat := by omega
    rw [List.dropWhile_append_of_pos (by simpa using small), List.dropWhile_cons]
    simp [long]
  have notHead := node_ne_freeList chunks.room (chunks.chunk e (by simp))
  simp only [allocPass, allocSearch chunks at_ s, first, List.map_cons, List.headD_cons, Option.bind_eq_bind,
    Option.bind_some, notHead, ite_false]
  rfl

theorem first_fit (free : List Extent) (n : Nat) : (∀ e ∈ free, e.len < n) ∨
    ∃ left e right, free = left ++ e :: right ∧ (∀ r ∈ left, r.len < n) ∧ n ≤ e.len := by
  induction free with
  | nil => simp
  | cons e free ih =>
    by_cases fits : n ≤ e.len
    · exact .inr ⟨[], e, free, rfl, by simp, fits⟩
    · rcases ih with small | ⟨left, r, right, rfl, small, enough⟩
      · left
        intro r member
        rcases List.mem_cons.mp member with rfl | member
        · omega
        · exact small r member
      · right
        refine ⟨e :: left, r, right, rfl, ?_, enough⟩
        intro x member
        rcases List.mem_cons.mp member with rfl | member
        · omega
        · exact small x member

theorem miniheapAlloc_none (chunks : PlacedFree theheap free)
    (at_ : FreeListAt theheap m free) {size alignment : Word}
    (valid : alignment = 0#32 ∨ alignment.toNat.isPowerOfTwo) (room : NonWrapping size alignment)
    (small : ∀ e ∈ free, e.len < need size.toNat alignment.toNat) :
    miniheapAlloc theheap m size alignment = some (0#32, m) := by
  rw [← toNat_chunkSize size alignment room valid] at small
  exact miniheapAlloc_of_pass valid (allocPass_none chunks at_ _ small)

theorem clamp_valid {alignment : Word} (valid : alignment = 0#32 ∨ alignment.toNat.isPowerOfTwo) :
    (clampAlignment alignment = 0#32 ∨
        (clampAlignment alignment).toNat.isPowerOfTwo ∧ 16 ≤ (clampAlignment alignment).toNat) ∧
      (clampAlignment alignment).toNat = slack alignment.toNat := by
  rcases valid with rfl | power
  · exact ⟨.inl rfl, rfl⟩
  · have positive := Nat.pos_of_isPowerOfTwo power
    have value := toNat_clampAlignment alignment positive
    have slackIs : slack alignment.toNat = max alignment.toNat 16 := if_pos positive
    exact ⟨.inr ⟨isPowerOfTwo_clampAlignment alignment power, by omega⟩, by omega⟩

theorem need_four {size alignment : Word} (valid : alignment = 0#32 ∨ alignment.toNat.isPowerOfTwo) :
    need size.toNat alignment.toNat % 4 = 0 := by
  apply need_aligned
  rcases valid with rfl | power
  · exact .inl rfl
  · exact .inr power

/-- A pass takes the first chunk that is long enough, and the payload lies in what it keeps of it. -/
theorem allocPass_served (chunks : PlacedFree theheap (left ++ e :: right))
    (at_ : FreeListAt theheap m (left ++ e :: right)) {size alignment : Word}
    (valid : alignment = 0#32 ∨ alignment.toNat.isPowerOfTwo) (room : NonWrapping size alignment)
    (small : ∀ r ∈ left, r.len < need size.toNat alignment.toNat) (fits : need size.toNat alignment.toNat ≤ e.len) :
    ∃ ptr len m', allocPass theheap m (chunkSize size alignment) (clampAlignment alignment) = some (ptr, len, m') ∧
      Served theheap m m' left e right (need size.toNat alignment.toNat) ptr ∧
      (lowWatermark theheap m' =
        if remaining theheap m' < lowWatermark theheap m then remaining theheap m' else lowWatermark theheap m) ∧
      e.start + 8 ≤ ptr.toNat ∧ ptr.toNat + size.toNat ≤ e.start + need size.toNat alignment.toNat ∧
      (e.start % 4 = 0 → ptr.toNat % 4 = 0) ∧ (alignment ≠ 0#32 → max alignment.toNat 16 ∣ ptr.toNat) := by
  have size_eq := toNat_chunkSize size alignment room valid
  obtain ⟨clamped, value⟩ := clamp_valid valid
  have enough : size.toNat + 8 + slack alignment.toNat ≤ need size.toNat alignment.toNat ∧
      12 + slack alignment.toNat ≤ need size.toNat alignment.toNat := by
    simp only [need]
    omega
  rw [← size_eq] at small fits enough ⊢
  obtain ⟨m', taken, served, mark⟩ := takeChunk_spec chunks at_ clamped (by omega) fits
  obtain ⟨lower, upper, four, multiple⟩ := alignPtr_spec (chunks.chunk e (by simp)) clamped (by omega)
  have pass := allocPass_first chunks at_ (clampAlignment alignment) small fits
  rw [taken] at pass
  refine ⟨_, _, m', pass, served, mark, lower, by omega, four, fun nonzero => ?_⟩
  have power : alignment.toNat.isPowerOfTwo := valid.resolve_left nonzero
  have positive := Nat.pos_of_isPowerOfTwo power
  rw [← toNat_clampAlignment alignment positive]
  apply multiple
  intro zero
  rw [zero] at value
  simp only [slack, positive, ite_true, BitVec.toNat_ofNat] at value
  omega

theorem miniheapAlloc_first (chunks : PlacedFree theheap (left ++ e :: right))
    (at_ : FreeListAt theheap m (left ++ e :: right)) {size alignment : Word}
    (valid : alignment = 0#32 ∨ alignment.toNat.isPowerOfTwo) (room : NonWrapping size alignment)
    (small : ∀ r ∈ left, r.len < need size.toNat alignment.toNat) (fits : need size.toNat alignment.toNat ≤ e.len) :
    ∃ ptr m', miniheapAlloc theheap m size alignment = some (ptr, m') ∧
      Served theheap m m' left e right (need size.toNat alignment.toNat) ptr ∧
      (lowWatermark theheap m' =
        if remaining theheap m' < lowWatermark theheap m then remaining theheap m' else lowWatermark theheap m) ∧
      e.start + 8 ≤ ptr.toNat ∧ ptr.toNat + size.toNat ≤ e.start + need size.toNat alignment.toNat ∧
      (e.start % 4 = 0 → ptr.toNat % 4 = 0) ∧ (alignment ≠ 0#32 → max alignment.toNat 16 ∣ ptr.toNat) := by
  obtain ⟨ptr, len, m', pass, served, rest⟩ := allocPass_served chunks at_ valid room small fits
  exact ⟨ptr, m', miniheapAlloc_of_pass valid pass, served, rest⟩

end

end ThreeX86.Heap
