import ThreeX86.Heap.Guarantees

/-!
`miniheap_trim`: which pages of the free chunks go back to the page allocator, and what is left of the list.
-/

namespace ThreeX86.Heap

open Machine Machine.Memory ThreeX86.Lists Linked Extents Extent

/-- Whole pages inside the chunk `e` that leave nothing on either side, or enough for a free chunk. -/
structure Trimmable (e r : Extent) : Prop where
  within : r.Within e
  positive : 0 < r.len
  start_page : r.start % 4096 = 0
  stop_page : r.stop % 4096 = 0
  before : r.start = e.start ∨ 12 ≤ r.start - e.start
  behind : r.stop = e.stop ∨ 12 ≤ e.stop - r.stop

/-- The largest such range, if there is one. -/
def LargestTrim (e : Extent) : Option Extent → Prop
  | none => ∀ r, ¬ Trimmable e r
  | some r => Trimmable e r ∧ ∀ r', Trimmable e r' → r'.Within r

def firstPage (e : Extent) : Nat :=
  let page := (e.start + 4095) / 4096 * 4096
  if page = e.start ∨ 12 ≤ page - e.start then page else page + 4096

def lastPage (e : Extent) : Nat :=
  let page := e.stop / 4096 * 4096
  if page = e.stop ∨ 12 ≤ e.stop - page then page else page - 4096

def trimmed (e : Extent) : Option Extent :=
  if firstPage e < lastPage e then some ⟨firstPage e, lastPage e - firstPage e⟩ else none

/-- What is left of the chunk without the range. -/
def aside (e r : Extent) : List Extent :=
  (if e.start < r.start then [⟨e.start, r.start - e.start⟩] else []) ++
    if r.stop < e.stop then [⟨r.stop, e.stop - r.stop⟩] else []

def kept (e : Extent) : List Extent :=
  match trimmed e with
  | none => [e]
  | some r => aside e r

def pageFree (r : Extent) : PageFree := ⟨node r, BitVec.ofNat 32 (r.len / 4096)⟩

/-- Chunks of whole words on either side of `theheap` in ascending order, touching or not. -/
structure AlignedList (theheap : Word) (chunks : List Extent) : Prop extends PlacedList theheap chunks where
  aligned : ∀ e ∈ chunks, e.start % 4 = 0 ∧ e.len % 4 = 0

/-- Such chunks, nowhere adjacent: a free list of any number of regions. -/
structure AlignedFree (theheap : Word) (free : List Extent) : Prop extends PlacedFree theheap free where
  aligned : ∀ e ∈ free, e.start % 4 = 0 ∧ e.len % 4 = 0

section

variable {theheap : Word} {region e r : Extent} {left right free : List Extent} {m : Memory}

/-! ### The largest range -/

theorem firstPage_spec (e : Extent) : firstPage e % 4096 = 0 ∧ e.start ≤ firstPage e ∧
    (firstPage e = e.start ∨ 12 ≤ firstPage e - e.start) ∧
    ∀ p, p % 4096 = 0 → e.start ≤ p → p = e.start ∨ 12 ≤ p - e.start → firstPage e ≤ p := by
  unfold firstPage
  dsimp only
  split
  · exact ⟨by omega, by omega, by omega, fun p _ _ _ => by omega⟩
  · exact ⟨by omega, by omega, by omega, fun p _ _ _ => by omega⟩

theorem lastPage_spec (large : 12 ≤ e.stop) : lastPage e % 4096 = 0 ∧ lastPage e ≤ e.stop ∧
    (lastPage e = e.stop ∨ 12 ≤ e.stop - lastPage e) ∧
    ∀ p, p % 4096 = 0 → p ≤ e.stop → p = e.stop ∨ 12 ≤ e.stop - p → p ≤ lastPage e := by
  unfold lastPage
  dsimp only
  split
  · exact ⟨by omega, by omega, by omega, fun p _ _ _ => by omega⟩
  · exact ⟨by omega, by omega, by omega, fun p _ _ _ => by omega⟩

theorem Trimmable.inside (large : 12 ≤ e.len) (trim : Trimmable e r) : firstPage e ≤ r.start ∧ r.stop ≤ lastPage e := by
  obtain ⟨⟨lower, upper⟩, -, startPage, stopPage, before, behind⟩ := trim
  obtain ⟨-, -, -, least⟩ := firstPage_spec e
  have long : 12 ≤ e.stop := by rw [stop]; omega
  obtain ⟨-, -, -, most⟩ := lastPage_spec long
  exact ⟨least _ startPage lower before, most _ stopPage upper behind⟩

theorem largestTrim_trimmed (large : 12 ≤ e.len) : LargestTrim e (trimmed e) := by
  have long : 12 ≤ e.stop := by rw [stop]; omega
  obtain ⟨firstAligned, lower, before, -⟩ := firstPage_spec e
  obtain ⟨lastAligned, upper, behind, -⟩ := lastPage_spec long
  unfold trimmed
  split
  · next order =>
    have ends : stop ⟨firstPage e, lastPage e - firstPage e⟩ = lastPage e := by
      show firstPage e + (lastPage e - firstPage e) = lastPage e
      omega
    refine ⟨?_, fun r trim => ?_⟩
    · constructor
      case within => exact ⟨lower, by rw [ends]; exact upper⟩
      case positive => exact Nat.sub_pos_of_lt order
      case start_page => exact firstAligned
      case stop_page => rw [ends]; exact lastAligned
      case before => exact before
      case behind => rw [ends]; exact behind
    · obtain ⟨first, last⟩ := trim.inside large
      exact ⟨first, by rw [ends]; exact last⟩
  · intro r trim
    obtain ⟨first, last⟩ := trim.inside large
    have positive := trim.positive
    rw [stop] at last
    omega

theorem LargestTrim.unique {p q : Option Extent} (first : LargestTrim e p) (second : LargestTrim e q) : p = q := by
  cases p with
  | none =>
    cases q with
    | none => rfl
    | some q => exact absurd second.1 (first q)
  | some p =>
    cases q with
    | none => exact absurd first.1 (second p)
    | some q =>
      have forth := first.2 q second.1
      have back := second.2 p first.1
      simp only [Within, stop] at forth back
      obtain ⟨start, len⟩ := p
      obtain ⟨start', len'⟩ := q
      simp only at forth back
      have sameStart : start = start' := by omega
      have sameLen : len = len' := by omega
      rw [sameStart, sameLen]

theorem trimmed_trimmable (large : 12 ≤ e.len) (range : trimmed e = some r) : Trimmable e r := by
  have largest := largestTrim_trimmed large
  rw [range] at largest
  exact largest.1

/-! ### What is left of a chunk -/

theorem IsChunk.inner (outer : IsChunk region e) (inner : IsChunk e r) : IsChunk region r :=
  ⟨inner.start_aligned, inner.len_aligned, inner.large, Nat.le_trans outer.lower inner.lower,
    Nat.le_trans inner.upper outer.upper⟩

theorem Placed.inner (outer : Placed theheap e) (inner : IsChunk e r) : Placed theheap r := by
  have ⟨_, positive, bound, apart⟩ := outer
  have ⟨_, _, large, lower, upper⟩ := inner
  exact ⟨large, by omega, by omega, by omega⟩

/-- What holds of a chunk's neighbours and of the pieces it is cut into holds of the list with the pieces. -/
theorem forall_replace {P : Extent → Prop} {mid : List Extent} (all : ∀ c ∈ left ++ e :: right, P c) (inner : ∀ c ∈ mid, P c) :
    ∀ c ∈ left ++ mid ++ right, P c := by
  intro c member
  simp only [List.mem_append] at member
  rcases member with (member | member) | member
  · exact all c (by simp [member])
  · exact inner c member
  · exact all c (by simp [member])

theorem PlacedList.replace {mid : List Extent} (list : PlacedList theheap (left ++ e :: right)) (inner : ChunkList e mid) :
    PlacedList theheap (left ++ mid ++ right) := by
  have ordered := list.ordered
  simp only [List.pairwise_append, List.pairwise_cons, List.mem_cons, forall_eq_or_imp] at ordered
  obtain ⟨orderedLeft, ⟨behind, orderedRight⟩, across⟩ := ordered
  refine ⟨list.room, forall_replace list.chunk fun c member => (list.chunk e (by simp)).inner (inner.chunk c member), ?_⟩
  simp only [List.pairwise_append]
  refine ⟨⟨orderedLeft, inner.ordered, fun a ha b hb => ?_⟩, orderedRight, fun a ha b hb => ?_⟩
  · exact Nat.le_trans (across a ha).1 (inner.chunk b hb).lower
  · rcases List.mem_append.mp ha with ha | ha
    · exact (across a ha).2 b hb
    · exact Nat.le_trans (inner.chunk a ha).upper (behind b hb)

theorem AlignedList.replace {mid : List Extent} (list : AlignedList theheap (left ++ e :: right)) (inner : ChunkList e mid) :
    AlignedList theheap (left ++ mid ++ right) where
  toPlacedList := list.toPlacedList.replace inner
  aligned := forall_replace list.aligned fun c member => ⟨(inner.chunk c member).start_aligned, (inner.chunk c member).len_aligned⟩

theorem AlignedList.sublist {chunks sub : List Extent} (list : AlignedList theheap chunks) (h : sub.Sublist chunks) :
    AlignedList theheap sub where
  toPlacedList := list.toPlacedList.sublist h
  aligned := fun e member => list.aligned e (h.subset member)

theorem AlignedFree.list (chunks : AlignedFree theheap free) : AlignedList theheap free where
  toPlacedList := chunks.toPlacedFree.list
  aligned := chunks.aligned

theorem AlignedList.self {chunks : List Extent} (list : AlignedList theheap chunks) (member : e ∈ chunks) : IsChunk e e :=
  ⟨(list.aligned e member).1, (list.aligned e member).2, (list.chunk e member).large, Nat.le_refl _, Nat.le_refl _⟩

theorem FreeChunks.aligned (layout : Layout theheap region) (chunks : FreeChunks region free) : AlignedFree theheap free where
  toPlacedFree := chunks.placed layout
  aligned := fun e member => ⟨(chunks.chunk e member).start_aligned, (chunks.chunk e member).len_aligned⟩

theorem AlignedFree.replace {mid : List Extent} (chunks : AlignedFree theheap (left ++ e :: right))
    (inner : FreeChunks e mid) : AlignedFree theheap (left ++ mid ++ right) := by
  have list := chunks.list.replace inner.list
  have gapped := chunks.gapped
  simp only [Gapped, List.pairwise_append, List.pairwise_cons, List.mem_cons, forall_eq_or_imp] at gapped
  obtain ⟨gappedLeft, ⟨behind, gappedRight⟩, across⟩ := gapped
  refine ⟨⟨list.room, list.chunk, ?_⟩, list.aligned⟩
  simp only [Gapped, List.pairwise_append]
  refine ⟨⟨gappedLeft, inner.gapped, fun a ha b hb => ?_⟩, gappedRight, fun a ha b hb => ?_⟩
  · exact Nat.lt_of_lt_of_le (across a ha).1 (inner.chunk b hb).lower
  · rcases List.mem_append.mp ha with ha | ha
    · exact (across a ha).2 b hb
    · exact Nat.lt_of_le_of_lt (inner.chunk a ha).upper (behind b hb)

theorem IsChunk.self (chunk : IsChunk region e) : IsChunk e e :=
  ⟨chunk.start_aligned, chunk.len_aligned, chunk.large, Nat.le_refl _, Nat.le_refl _⟩

theorem aside_chunks (chunk : IsChunk region e) (trim : Trimmable e r) : FreeChunks e (aside e r) := by
  obtain ⟨⟨lower, upper⟩, positive, startPage, stopPage, before, behind⟩ := trim
  have startAligned := chunk.start_aligned
  have lenAligned := chunk.len_aligned
  have ends : e.stop = e.start + e.len := rfl
  have endsR : r.stop = r.start + r.len := rfl
  have first (room : e.start < r.start) : IsChunk e ⟨e.start, r.start - e.start⟩ := by
    constructor
    case start_aligned => exact startAligned
    case len_aligned => dsimp only; omega
    case large => dsimp only; omega
    case lower => exact Nat.le_refl _
    case upper => show e.start + (r.start - e.start) ≤ e.stop; omega
  have second (room : r.stop < e.stop) : IsChunk e ⟨r.stop, e.stop - r.stop⟩ := by
    constructor
    case start_aligned => dsimp only; omega
    case len_aligned => dsimp only; omega
    case large => dsimp only; omega
    case lower => dsimp only; omega
    case upper => show r.stop + (e.stop - r.stop) ≤ e.stop; omega
  unfold aside
  constructor
  · intro c member
    rcases List.mem_append.mp member with member | member
    · split at member
      · next room =>
        rw [List.mem_singleton.mp member]
        exact first room
      · cases member
    · split at member
      · next room =>
        rw [List.mem_singleton.mp member]
        exact second room
      · cases member
  · rw [Gapped, List.pairwise_append]
    refine ⟨?_, ?_, fun a ha b hb => ?_⟩
    · split <;> simp
    · split <;> simp
    · split at ha
      · split at hb
        · rw [List.mem_singleton.mp ha, List.mem_singleton.mp hb]
          show e.start + (r.start - e.start) < r.stop
          omega
        · cases hb
      · cases ha

theorem kept_chunks (chunk : IsChunk region e) : FreeChunks e (kept e) := by
  unfold kept
  split
  · constructor
    · intro c member
      rw [List.mem_singleton.mp member]
      exact chunk.self
    · exact List.pairwise_singleton _ _
  · next r range => exact aside_chunks chunk (trimmed_trimmable chunk.large range)

/-! ### The edits of the list -/

theorem FreeListAt.shrink (list : PlacedList theheap (left ++ e :: right))
    (at_ : FreeListAt theheap m (left ++ e :: right)) (k : Nat) :
    FreeListAt theheap (setChunkLen m (node e) (BitVec.ofNat 32 k)) (left ++ ⟨e.start, k⟩ :: right) ∧
      Changes e.Contains m (setChunkLen m (node e) (BitVec.ofNat 32 k)) := by
  have member : e ∈ left ++ e :: right := by simp
  have chunk := list.chunk e member
  refine ⟨⟨?_, ?_⟩, changes_setChunkLen_within chunk ⟨Nat.le_refl _, Nat.le_refl _⟩ m _⟩
  · have same : (left ++ (⟨e.start, k⟩ : Extent) :: right).map node = (left ++ e :: right).map node := by simp [node]
    rw [same]
    exact ring_setChunkLen list member at_.ring _
  · intro c inside
    have other : c = ⟨e.start, k⟩ ∨ c ∈ left ++ right := by
      simp only [List.mem_append, List.mem_cons] at inside ⊢
      tauto
    rcases other with rfl | other
    · exact chunkLen_setChunkLen m (node e) _
    · have apart : c ≠ e := by
        rintro rfl
        rcases List.mem_append.mp other with other | other
        · exact list.ne_of_append other List.mem_cons_self rfl
        · have regroup : left ++ c :: right = (left ++ [c]) ++ right := by simp
          rw [regroup] at list
          exact list.ne_of_append (by simp) other rfl
      have still : c ∈ left ++ e :: right := by
        simp only [List.mem_append, List.mem_cons] at other ⊢
        tauto
      rw [chunkLen_setChunkLen_other list member still apart]
      exact at_.lens c still

theorem FreeListAt.linkAfter {c : Extent} (list : PlacedList theheap (left ++ e :: c :: right)) (at_ : FreeListAt theheap m (left ++ e :: right))
    (len : chunkLen m (node c) = BitVec.ofNat 32 c.len) :
    FreeListAt theheap (listAddAfter m (node e) (node c)) (left ++ e :: c :: right) ∧
      Changes (PointerFoot theheap (left ++ e :: c :: right)) m (listAddAfter m (node e) (node c)) := by
  have fields := independent list
  have nodup := nodes_nodup list
  have ring := at_.ring
  simp only [List.map_append, List.map_cons] at nodup ring
  have same : (freeList theheap :: (left.map node ++ node e :: node c :: right.map node)).Perm
      (node c :: freeList theheap :: (left.map node ++ node e :: right.map node)) := by
    have move : (left.map node ++ node e :: node c :: right.map node).Perm
        (node c :: (left.map node ++ node e :: right.map node)) := by
      have middle : ((left.map node ++ [node e]) ++ node c :: right.map node).Perm
          (node c :: ((left.map node ++ [node e]) ++ right.map node)) := List.perm_middle
      simpa using middle
    exact (move.cons _).trans (List.Perm.swap _ _ _)
  have fresh := (List.nodup_cons.mp (same.nodup_iff.mp nodup)).1
  have isNode : ∀ x ∈ freeList theheap :: (left.map node ++ node e :: right.map node),
      IsNode theheap (left ++ e :: c :: right) x := by
    intro x member
    have whole := same.mem_iff.mpr (List.mem_cons_of_mem _ member)
    simpa [IsNode] using whole
  have itemNode : IsNode theheap (left ++ e :: c :: right) (node c) := by simp [IsNode]
  have changes : Changes (PointerFoot theheap (left ++ e :: c :: right)) m (listAddAfter m (node e) (node c)) := by
    intro x outside
    exact ring_addAfter_frame fields ring isNode itemNode fresh (insulated_byte list outside) isNode itemNode
  have lens : ∀ r ∈ left ++ e :: c :: right, chunkLen m (node r) = BitVec.ofNat 32 r.len := by
    intro r member
    have place : r = c ∨ r ∈ left ++ e :: right := by
      simp only [List.mem_append, List.mem_cons] at member ⊢
      tauto
    rcases place with rfl | place
    · exact len
    · exact at_.lens r place
  refine ⟨⟨?_, FreeListAt.lens_kept list changes lens (List.Subset.refl _)⟩, changes⟩
  simpa using ring_addAfter fields ring isNode itemNode fresh

theorem cut_foot_of_inner {mid : List Extent} (inner : ∀ c ∈ mid, IsChunk e c) {x : Nat}
    (foot : PointerFoot theheap (left ++ mid ++ right) x) : CutFoot theheap e (left ++ right) x := by
  cases foot with
  | inl head => exact Or.inl (Or.inl head)
  | inr words =>
    obtain ⟨c, member, words⟩ := words
    by_cases within : c ∈ mid
    · right
      obtain ⟨-, -, large, lower, upper⟩ := inner c within
      simp only [Contains, stop] at *
      omega
    · refine Or.inl (Or.inr ⟨c, ?_, words⟩)
      simp only [List.mem_append] at member ⊢
      tauto

theorem FreeListAt.split (list : AlignedList theheap (left ++ e :: right))
    (at_ : FreeListAt theheap m (left ++ e :: right)) {k : Nat} (aligned : k % 4 = 0) (large : 12 ≤ k)
    (room : k + 12 ≤ e.len) :
    ChunkList e [⟨e.start, k⟩, ⟨e.start + k, e.len - k⟩] ∧ FreeListAt theheap
        (listAddAfter (heapCreateFreeChunk (setChunkLen m (node e) (BitVec.ofNat 32 k)) (BitVec.ofNat 32 (e.start + k))
          (BitVec.ofNat 32 (e.len - k))) (node e) (BitVec.ofNat 32 (e.start + k)))
        (left ++ ⟨e.start, k⟩ :: ⟨e.start + k, e.len - k⟩ :: right) ∧
      Changes (CutFoot theheap e (left ++ right)) m
        (listAddAfter (heapCreateFreeChunk (setChunkLen m (node e) (BitVec.ofNat 32 k)) (BitVec.ofNat 32 (e.start + k))
          (BitVec.ofNat 32 (e.len - k))) (node e) (BitVec.ofNat 32 (e.start + k))) := by
  have chunk := list.chunk e (by simp)
  obtain ⟨startAligned, lenAligned⟩ := list.aligned e (by simp)
  have front : IsChunk e ⟨e.start, k⟩ := by
    constructor
    case start_aligned => exact startAligned
    case len_aligned => exact aligned
    case large => exact large
    case lower => exact Nat.le_refl _
    case upper => show e.start + k ≤ e.start + e.len; omega
  have back : IsChunk e ⟨e.start + k, e.len - k⟩ := by
    constructor
    case start_aligned => dsimp only; omega
    case len_aligned => dsimp only; omega
    case large => dsimp only; omega
    case lower => exact Nat.le_add_right _ _
    case upper => show e.start + k + (e.len - k) ≤ e.start + e.len; omega
  have inner : ChunkList e [⟨e.start, k⟩, ⟨e.start + k, e.len - k⟩] := by
    constructor
    · intro c member
      rcases List.mem_cons.mp member with rfl | member
      · exact front
      · rw [List.mem_singleton.mp member]
        exact back
    · simp [stop]
  have whole : AlignedList theheap (left ++ (⟨e.start, k⟩ : Extent) :: ⟨e.start + k, e.len - k⟩ :: right) := by
    simpa using list.replace inner
  have shorter : AlignedList theheap (left ++ (⟨e.start, k⟩ : Extent) :: right) := by
    refine whole.sublist (List.Sublist.append_left ?_ left)
    exact List.Sublist.cons_cons _ (List.sublist_cons_self _ right)
  obtain ⟨shrunk, first⟩ := at_.shrink list.toPlacedList k
  have sameNode : node ⟨e.start, k⟩ = node e := rfl
  have newNode : node ⟨e.start + k, e.len - k⟩ = BitVec.ofNat 32 (e.start + k) := rfl
  have second : Changes e.Contains (setChunkLen m (node e) (BitVec.ofNat 32 k))
      (heapCreateFreeChunk (setChunkLen m (node e) (BitVec.ofNat 32 k)) (BitVec.ofNat 32 (e.start + k))
        (BitVec.ofNat 32 (e.len - k))) :=
    changes_setChunkLen_within (chunk.inner back) ⟨back.lower, back.upper⟩ _ _
  have still : FreeListAt theheap (heapCreateFreeChunk (setChunkLen m (node e) (BitVec.ofNat 32 k))
      (BitVec.ofNat 32 (e.start + k)) (BitVec.ofNat 32 (e.len - k))) (left ++ (⟨e.start, k⟩ : Extent) :: right) := by
    apply shrunk.kept shorter.toPlacedList (changes_setChunkLen (chunk.inner back) _ _)
    intro x inside foot
    have across : ∀ c ∈ left ++ (⟨e.start, k⟩ : Extent) :: right, c.Apart ⟨e.start + k, e.len - k⟩ := by
      have orders := whole.ordered
      simp only [List.pairwise_append, List.pairwise_cons, List.mem_cons, forall_eq_or_imp] at orders
      intro c member
      rcases List.mem_append.mp member with member | member
      · exact Or.inl (orders.2.2 c member).2.1
      · rcases List.mem_cons.mp member with rfl | member
        · exact Or.inl orders.2.1.1.1
        · exact Or.inr (orders.2.1.2.1 c member)
    apply headers_apart (chunk.inner back) shorter.chunk across ?_ foot
    simp only [Contains, stop] at *
    omega
  obtain ⟨linked, pointers⟩ := still.linkAfter whole.toPlacedList (chunkLen_setChunkLen _ _ _)
  rw [sameNode, newNode] at linked pointers
  refine ⟨inner, linked, Changes.trans ((first.trans second).mono fun x inside => Or.inr inside) ?_⟩
  apply pointers.mono
  intro x foot
  refine cut_foot_of_inner inner.chunk ?_
  simpa using foot

/-- The list after the pages `r` have left the chunk `e`. -/
theorem trimCut_spec (list : AlignedList theheap (left ++ e :: right))
    (at_ : FreeListAt theheap m (left ++ e :: right)) (bound : e.stop < 2^32) (trim : Trimmable e r)
    (part : ¬ (r.start = e.start ∧ r.stop = e.stop)) :
    FreeListAt theheap (trimCut m (node e) (node e) (BitVec.ofNat 32 e.stop) (node r) (BitVec.ofNat 32 r.stop))
        (left ++ aside e r ++ right) ∧
      Changes (CutFoot theheap e (left ++ right)) m
        (trimCut m (node e) (node e) (BitVec.ofNat 32 e.stop) (node r) (BitVec.ofNat 32 r.stop)) := by
  have member : e ∈ left ++ e :: right := by simp
  obtain ⟨⟨lower, upper⟩, positive, startPage, stopPage, before, behind⟩ := trim
  obtain ⟨startAligned, lenAligned⟩ := list.aligned e member
  have ends : e.stop = e.start + e.len := rfl
  have endsR : r.stop = r.start + r.len := rfl
  have lens := at_.lens e member
  have sameStart : node r = node e ↔ r.start = e.start := by
    rw [node, node, ← BitVec.toNat_inj, toNat_ofNat_word (by omega), toNat_ofNat_word (by omega)]
  have less : BitVec.ofNat 32 r.stop < BitVec.ofNat 32 e.stop ↔ r.stop < e.stop := by
    rw [BitVec.lt_def, toNat_ofNat_word (by omega), toNat_ofNat_word (by omega)]
  have whole : (BitVec.ofNat 32 r.stop - node r : Word) = BitVec.ofNat 32 r.len := by
    rw [node, BitVec.ofNat_sub_ofNat_of_le _ _ (by omega) (by omega)]
    congr 1
    omega
  unfold trimCut aside
  by_cases split : r.stop < e.stop
  · have size : (BitVec.ofNat 32 e.stop - BitVec.ofNat 32 r.stop : Word) = BitVec.ofNat 32 (e.stop - r.stop) :=
      BitVec.ofNat_sub_ofNat_of_le _ _ (by omega) (by omega)
    have front : (chunkLen m (node e) - BitVec.ofNat 32 (e.stop - r.stop) : Word) = BitVec.ofNat 32 (r.stop - e.start) := by
      rw [lens, BitVec.ofNat_sub_ofNat_of_le _ _ (by omega) (by omega)]
      congr 1
      omega
    have position : e.start + (r.stop - e.start) = r.stop := by omega
    obtain ⟨inner, cut, changes⟩ := at_.split list (k := r.stop - e.start) (by omega) (by omega) (by omega)
    have rest : e.len - (r.stop - e.start) = e.stop - r.stop := by omega
    rw [position, rest] at inner cut changes
    have pieces := list.replace inner
    rw [List.append_assoc] at pieces
    simp only [less.mpr split, ite_true, size, front, split, sameStart, and_true]
    generalize (listAddAfter (heapCreateFreeChunk _ _ _ : Memory) (_ : Word) _) = m1 at cut changes ⊢
    have head : node ⟨e.start, r.stop - e.start⟩ = node e := rfl
    by_cases same : r.start = e.start
    · simp only [same, ite_true, Nat.lt_irrefl, ite_false, List.nil_append]
      obtain ⟨unlinked, pointers⟩ := cut.unlink pieces.toPlacedList
      rw [head] at unlinked pointers
      refine ⟨by simpa using unlinked, changes.trans (pointers.mono fun x foot => ?_)⟩
      exact cut_foot_of_inner inner.chunk (by simpa using foot)
    · have beforeR : e.start < r.start := by omega
      have value : chunkLen m1 (node e) = BitVec.ofNat 32 (r.stop - e.start) := cut.lens ⟨e.start, r.stop - e.start⟩ (by simp)
      have short : (chunkLen m1 (node e) - (BitVec.ofNat 32 r.stop - node r) : Word) = BitVec.ofNat 32 (r.start - e.start) := by
        rw [value, whole, BitVec.ofNat_sub_ofNat_of_le _ _ (by omega) (by omega)]
        congr 1
        omega
      simp only [same, ite_false, beforeR, ite_true, short]
      obtain ⟨shrunk, within⟩ := cut.shrink pieces.toPlacedList (r.start - e.start)
      rw [head] at shrunk within
      refine ⟨by simpa using shrunk, changes.trans (within.mono fun x inside => Or.inr ?_)⟩
      simp only [Contains, stop] at *
      omega
  · have notBehind : ¬ (BitVec.ofNat 32 r.stop < (BitVec.ofNat 32 e.stop : Word)) := fun order => split (less.mp order)
    have notSame : r.start ≠ e.start := fun same => part ⟨same, by omega⟩
    have beforeR : e.start < r.start := by omega
    have short : (chunkLen m (node e) - (BitVec.ofNat 32 r.stop - node r) : Word) = BitVec.ofNat 32 (r.start - e.start) := by
      rw [lens, whole, BitVec.ofNat_sub_ofNat_of_le _ _ (by omega) (by omega)]
      congr 1
      omega
    simp only [notBehind, ite_false, sameStart, notSame, false_and, beforeR, ite_true, split, List.append_nil, short]
    obtain ⟨shrunk, within⟩ := at_.shrink list.toPlacedList (r.start - e.start)
    exact ⟨by simpa using shrunk, within.mono fun x inside => Or.inr inside⟩

/-! ### The loop's body -/

/-- The free list without the pages `r` of the chunk `e`. -/
def trimEdit (m : Memory) (e r : Extent) : Memory :=
  if r.start = e.start ∧ r.stop = e.stop then listDelete m (node e)
  else trimCut m (node e) (node e) (BitVec.ofNat 32 e.stop) (node r) (BitVec.ofNat 32 r.stop)

theorem trimEdit_spec (list : AlignedList theheap (left ++ e :: right))
    (at_ : FreeListAt theheap m (left ++ e :: right)) (bound : e.stop < 2^32) (trim : Trimmable e r) :
    FreeListAt theheap (trimEdit m e r) (left ++ aside e r ++ right) ∧
      Changes (CutFoot theheap e (left ++ right)) m (trimEdit m e r) := by
  unfold trimEdit
  split
  · next whole =>
    obtain ⟨start, last⟩ := whole
    obtain ⟨unlinked, changes⟩ := at_.unlink list.toPlacedList
    have large := (list.chunk e (by simp)).large
    simp only [aside, start, last, Nat.lt_irrefl, ite_false, List.append_nil]
    exact ⟨unlinked, changes.mono fun x => cut_foot_of_pointers large⟩
  · next part => exact trimCut_spec list at_ bound trim part

/-- What the body does about a range, or about none. -/
def trimOutcome (theheap : Word) (m : Memory) (e : Extent) : Option Extent → Option PageFree × Memory
  | none => (none, m)
  | some r => trimFree theheap (trimEdit m e r) (node r) (BitVec.ofNat 32 r.stop)

/-- `lo` and `hi` never get past the largest range, and each retry brings them a page closer. -/
theorem trimRetry_spec (theheap : Word) (m : Memory) (ends : e.stop + 8192 < 2^32) (fuel lo hi : Nat) (loPage : lo % 4096 = 0) (hiPage : hi % 4096 = 0)
    (lower : e.start ≤ lo) (upper : hi ≤ e.stop) (loBound : lo ≤ e.stop + 4096)
    (around : ∀ r, Trimmable e r → lo ≤ r.start ∧ r.stop ≤ hi) (positive : 0 < fuel) (enough : hi < lo + 4096 * fuel) :
    ∃ range, LargestTrim e range ∧
      trimRetry theheap m (node e) (node e) (BitVec.ofNat 32 e.stop) fuel (BitVec.ofNat 32 lo) (BitVec.ofNat 32 hi) =
        some (trimOutcome theheap m e range) := by
  induction fuel generalizing lo hi with
  | zero => omega
  | succ fuel ih =>
    have length : e.stop = e.start + e.len := rfl
    have stopBound : e.stop < 2^32 := by omega
    have hiBound : hi < 2^32 := Nat.lt_of_le_of_lt upper stopBound
    have loWord : (BitVec.ofNat 32 lo).toNat = lo := toNat_ofNat_word (by omega)
    have hiWord : (BitVec.ofNat 32 hi).toNat = hi := toNat_ofNat_word hiBound
    have startWord : (node e).toNat = e.start := toNat_ofNat_word (by omega)
    have endWord : (BitVec.ofNat 32 e.stop).toNat = e.stop := toNat_ofNat_word (by omega)
    have order : BitVec.ofNat 32 hi > BitVec.ofNat 32 lo ↔ lo < hi := by
      rw [gt_iff_lt, BitVec.lt_def, loWord, hiWord]
    have atStart : BitVec.ofNat 32 lo = node e ↔ lo = e.start := by rw [← BitVec.toNat_inj, loWord, startWord]
    have atEnd : BitVec.ofNat 32 hi = BitVec.ofNat 32 e.stop ↔ hi = e.stop := by rw [← BitVec.toNat_inj, hiWord, endWord]
    have startGap : BitVec.ofNat 32 lo - node e < sizeofFreeHeapChunk ↔ lo - e.start < 12 := by
      rw [node, BitVec.ofNat_sub_ofNat_of_le _ _ (by omega) lower, BitVec.lt_def, toNat_ofNat_word (by omega)]
      rfl
    have behind : BitVec.ofNat 32 hi < BitVec.ofNat 32 e.stop ↔ hi < e.stop := by rw [BitVec.lt_def, hiWord, endWord]
    have endGap : BitVec.ofNat 32 e.stop - BitVec.ofNat 32 hi < sizeofFreeHeapChunk ↔ e.stop - hi < 12 := by
      rw [BitVec.ofNat_sub_ofNat_of_le _ _ hiBound upper, BitVec.lt_def, toNat_ofNat_word (by omega)]
      rfl
    unfold trimRetry
    simp only [order, atStart, atEnd, startGap, behind, endGap, ne_eq]
    by_cases pages : lo < hi
    · rw [if_pos pages]
      have range : stop ⟨lo, hi - lo⟩ = hi := by
        show lo + (hi - lo) = hi
        omega
      have largest (before : lo = e.start ∨ 12 ≤ lo - e.start) (after : hi = e.stop ∨ 12 ≤ e.stop - hi) :
          LargestTrim e (some ⟨lo, hi - lo⟩) := by
        refine ⟨?_, fun r trim => ?_⟩
        · constructor
          case within => exact ⟨lower, by rw [range]; exact upper⟩
          case positive => exact Nat.sub_pos_of_lt pages
          case start_page => exact loPage
          case stop_page => rw [range]; exact hiPage
          case before => exact before
          case behind => rw [range]; exact after
        · obtain ⟨first, last⟩ := around r trim
          exact ⟨first, by rw [range]; exact last⟩
      by_cases whole : lo = e.start ∧ hi = e.stop
      · refine ⟨some ⟨lo, hi - lo⟩, largest (Or.inl whole.1) (Or.inl whole.2), ?_⟩
        have sameStop : stop ⟨lo, hi - lo⟩ = e.stop := range.trans whole.2
        rw [if_pos whole, trimOutcome, trimEdit, range, if_pos whole]
        rfl
      · rw [if_neg whole]
        by_cases crowded : lo ≠ e.start ∧ lo - e.start < 12
        · rw [if_pos crowded]
          rw [pageSize, ← BitVec.ofNat_add]
          refine ih _ _ (by omega) hiPage (by omega) upper (by omega) (fun r trim => ?_) (by omega) (by omega)
          obtain ⟨first, last⟩ := around r trim
          have page := trim.start_page
          have room := trim.before
          exact ⟨by omega, last⟩
        · rw [if_neg crowded]
          by_cases tight : hi < e.stop ∧ e.stop - hi < 12
          · rw [if_pos tight]
            rw [pageSize, BitVec.ofNat_sub_ofNat_of_le _ _ (by omega) (by omega)]
            refine ih _ _ loPage (by omega) lower (by omega) loBound (fun r trim => ?_) (by omega) (by omega)
            obtain ⟨first, last⟩ := around r trim
            have page := trim.stop_page
            have room := trim.behind
            exact ⟨first, by omega⟩
          · rw [if_neg tight]
            refine ⟨some ⟨lo, hi - lo⟩, largest (by omega) (by omega), ?_⟩
            rw [trimOutcome, trimEdit, range, if_neg whole]
            rfl
    · rw [if_neg pages]
      refine ⟨none, fun r trim => ?_, rfl⟩
      obtain ⟨first, last⟩ := around r trim
      have some_ := trim.positive
      rw [stop] at last
      omega

theorem trimChunk_spec (list : AlignedList theheap (left ++ e :: right))
    (at_ : FreeListAt theheap m (left ++ e :: right)) (ends : e.stop + 8192 < 2^32) :
    trimChunk theheap m (node e) = some (trimOutcome theheap m e (trimmed e)) := by
  have member : e ∈ left ++ e :: right := by simp
  have chunk := list.chunk e member
  have length : e.stop = e.start + e.len := rfl
  have power : pageSize.toNat.isPowerOfTwo := ⟨12, rfl⟩
  have page : pageSize.toNat = 4096 := rfl
  have startWord : (node e).toNat = e.start := toNat_node chunk
  have last : (node e + chunkLen m (node e) : Word) = BitVec.ofNat 32 e.stop := by
    rw [at_.lens e member, node, ← BitVec.ofNat_add]
    rfl
  have up : roundUp (node e) pageSize = BitVec.ofNat 32 ((e.start + 4095) / 4096 * 4096) := by
    rw [← BitVec.toNat_inj, toNat_roundUp _ _ power (by omega), page, startWord, toNat_ofNat_word (by omega)]
  have down : roundDown (BitVec.ofNat 32 e.stop) pageSize = BitVec.ofNat 32 (e.stop / 4096 * 4096) := by
    rw [← BitVec.toNat_inj, toNat_roundDown _ _ power, page, toNat_ofNat_word (by omega), toNat_ofNat_word (by omega)]
  have around : ∀ r, Trimmable e r → (e.start + 4095) / 4096 * 4096 ≤ r.start ∧ r.stop ≤ e.stop / 4096 * 4096 := by
    intro r trim
    have startPage := trim.start_page
    have stopPage := trim.stop_page
    obtain ⟨lower, upper⟩ := trim.within
    omega
  have enough : e.stop / 4096 * 4096 < (e.start + 4095) / 4096 * 4096 + 4096 * entryLimit := by
    unfold entryLimit
    omega
  obtain ⟨range, largest, run⟩ := trimRetry_spec theheap m ends entryLimit _ _ (by omega) (by omega)
    (by omega) (by omega) (by omega) around (by decide) enough
  have same := largest.unique (largestTrim_trimmed chunk.large)
  unfold trimChunk
  dsimp only
  rw [last, up, down, run, same]

/-! ### The whole list -/

theorem total_kept (large : 12 ≤ e.len) : total (kept e) + total (trimmed e).toList = e.len := by
  have length : e.stop = e.start + e.len := rfl
  unfold kept
  cases range : trimmed e with
  | none => simp [total]
  | some r =>
    obtain ⟨⟨lower, upper⟩, positive, -, -, -, -⟩ := trimmed_trimmable large range
    have lengthR : r.stop = r.start + r.len := rfl
    simp only [aside, total_append, Option.toList, total_cons, total_nil]
    split
    · split
      · simp only [total_cons, total_nil]
        omega
      · simp only [total_cons, total_nil]
        omega
    · split
      · simp only [total_cons, total_nil]
        omega
      · simp only [total_nil]
        omega

theorem total_kept_all (large : ∀ e ∈ free, 12 ≤ e.len) :
    total (free.flatMap kept) + total (free.filterMap trimmed) = total free := by
  induction free with
  | nil => rfl
  | cons e free ih =>
    have here := total_kept (large e List.mem_cons_self)
    have rest := ih fun c member => large c (List.mem_cons_of_mem _ member)
    rw [List.flatMap_cons, total_append, total_cons]
    cases range : trimmed e with
    | none =>
      rw [range, Option.toList, total_nil] at here
      rw [List.filterMap_cons_none range]
      omega
    | some r =>
      rw [range, Option.toList, total_cons, total_nil] at here
      rw [List.filterMap_cons_some range, total_cons]
      omega

/-- A range in what is left would have made the trimmed one larger. -/
theorem trimmed_of_kept (chunk : IsChunk region e) {c : Extent} (member : c ∈ kept e) : trimmed c = none := by
  have piece := (kept_chunks chunk).chunk c member
  have largestC := largestTrim_trimmed piece.large
  have largestE := largestTrim_trimmed chunk.large
  have length : e.stop = e.start + e.len := rfl
  unfold kept at member
  cases range : trimmed e with
  | none =>
    rw [range] at member
    rw [List.mem_singleton.mp member, range]
  | some r =>
    rw [range] at member largestE
    obtain ⟨trim, most⟩ := largestE
    obtain ⟨⟨lower, upper⟩, positive, startPage, stopPage, before, behind⟩ := trim
    have lengthR : r.stop = r.start + r.len := rfl
    cases found : trimmed c with
    | none => rfl
    | some q =>
      rw [found] at largestC
      obtain ⟨⟨lowerQ, upperQ⟩, positiveQ, startQ, stopQ, beforeQ, behindQ⟩ := largestC.1
      have lengthQ : q.stop = q.start + q.len := rfl
      rcases List.mem_append.mp member with left | right
      · split at left
        · rw [List.mem_singleton.mp left] at lowerQ upperQ beforeQ
          have last : stop ⟨e.start, r.start - e.start⟩ = e.start + (r.start - e.start) := rfl
          have ends : stop ⟨q.start, r.stop - q.start⟩ = r.stop := by
            show q.start + (r.stop - q.start) = r.stop
            omega
          have longer : Trimmable e ⟨q.start, r.stop - q.start⟩ := by
            constructor
            case within => exact ⟨lowerQ, by rw [ends]; exact upper⟩
            case positive => dsimp only; omega
            case start_page => exact startQ
            case stop_page => rw [ends]; exact stopPage
            case before => exact beforeQ
            case behind => rw [ends]; exact behind
          have within := (most _ longer).1
          dsimp only at within
          omega
        · cases left
      · split at right
        · rw [List.mem_singleton.mp right] at lowerQ upperQ behindQ
          have last : stop ⟨r.stop, e.stop - r.stop⟩ = r.stop + (e.stop - r.stop) := rfl
          rw [last] at upperQ behindQ
          dsimp only at lowerQ
          have ends : stop ⟨r.start, q.stop - r.start⟩ = q.stop := by
            show r.start + (q.stop - r.start) = q.stop
            omega
          have longer : Trimmable e ⟨r.start, q.stop - r.start⟩ := by
            constructor
            case within => exact ⟨lower, by rw [ends]; omega⟩
            case positive => dsimp only; omega
            case start_page => exact startPage
            case stop_page => rw [ends]; exact stopQ
            case before => exact before
            case behind => rw [ends]; omega
          have within := (most _ longer).2
          rw [ends] at within
          omega
        · cases right

theorem remaining_trimEdit (list : AlignedList theheap (left ++ e :: right))
    (at_ : FreeListAt theheap m (left ++ e :: right)) (bound : e.stop < 2^32) (trim : Trimmable e r) :
    remaining theheap (trimEdit m e r) = remaining theheap m := by
  have room := list.room
  have address : (theheap + 8#32).toNat = theheap.toNat + 8 := toNat_theheap_add room (by decide)
  apply Changes.load32 (trimEdit_spec list at_ bound trim).2
  · omega
  · intro i small
    exact CutFoot.off_globals list.toPlacedList (by omega)

structure Trimming (theheap : Word) (free : List Extent) (m : Memory) (todo : List Extent)
    (m' : Memory) (calls : List PageFree) (seen : List Extent) : Prop where
  split : free = seen ++ todo
  chunks : AlignedFree theheap (seen.flatMap kept ++ todo)
  list : FreeListAt theheap m' (seen.flatMap kept ++ todo)
  calls : calls = (seen.filterMap trimmed).map pageFree
  remaining : remaining theheap m' = remaining theheap m - BitVec.ofNat 32 (total (seen.filterMap trimmed))

theorem Trimming.step {m' : Memory} {calls : List PageFree} {seen todo : List Extent}
    (trimming : Trimming theheap free m (e :: todo) m' calls seen) (ends : e.stop + 8192 < 2^32) :
    ∃ call m'', trimChunk theheap m' (node e) = some (call, m'') ∧
      Trimming theheap free m todo m'' (calls ++ call.toList) (seen ++ [e]) := by
  have chunks := trimming.chunks
  have list := chunks.list
  have chunk := list.self (e := e) (by simp)
  have bound : e.stop < 2^32 := by omega
  have run := trimChunk_spec list trimming.list ends
  have after : (seen ++ [e]).flatMap kept = seen.flatMap kept ++ kept e := by simp
  have chunks' := chunks.replace (kept_chunks chunk)
  cases range : trimmed e with
  | none =>
    have same : kept e = [e] := by simp only [kept, range]
    have gone : (seen ++ [e]).filterMap trimmed = seen.filterMap trimmed := by simp [range]
    rw [range] at run
    refine ⟨none, m', run, ?_⟩
    constructor
    case split => simp [trimming.split]
    case chunks => rw [after]; exact chunks'
    case list => simpa [same] using trimming.list
    case calls => simp [trimming.calls, gone]
    case remaining => rw [gone]; exact trimming.remaining
  | some r =>
    have trim := trimmed_trimmable chunk.large range
    obtain ⟨⟨lower, upper⟩, positive, -, -, -, -⟩ := id trim
    have lengthR : r.stop = r.start + r.len := rfl
    have same : kept e = aside e r := by simp only [kept, range]
    have grown : (seen ++ [e]).filterMap trimmed = seen.filterMap trimmed ++ [r] := by simp [range]
    have bytes : (BitVec.ofNat 32 r.stop - node r : Word) = BitVec.ofNat 32 r.len := by
      rw [node, BitVec.ofNat_sub_ofNat_of_le _ _ (by omega) (by omega)]
      congr 1
      omega
    have call : (⟨node r, (BitVec.ofNat 32 r.stop - node r) / pageSize⟩ : PageFree) = pageFree r := by
      rw [pageFree, bytes]
      congr 1
      rw [← BitVec.toNat_inj, BitVec.toNat_udiv, toNat_ofNat_word (by omega), toNat_ofNat_word (by omega)]
      rfl
    obtain ⟨edited, -⟩ := trimEdit_spec list trimming.list bound trim
    rw [range, trimOutcome, trimFree, call] at run
    refine ⟨some (pageFree r), _, run, ?_⟩
    rw [same] at chunks'
    constructor
    case split => simp [trimming.split]
    case chunks => rw [after, same]; exact chunks'
    case list =>
      rw [after, same]
      exact edited.setRemaining chunks'.list.toPlacedList _
    case calls => simp [trimming.calls, grown]
    case remaining =>
      rw [grown, total_append, total_cons, total_nil, remaining_trimEdit list trimming.list bound trim, bytes,
        trimming.remaining, Nat.add_zero, BitVec.ofNat_add]
      have read (m : Memory) (v : Word) : Heap.remaining theheap (setRemaining theheap m v) = v := load32_store32 m _ v
      rw [read]
      generalize BitVec.ofNat 32 (total (seen.filterMap trimmed)) = a
      generalize BitVec.ofNat 32 r.len = b
      rw [BitVec.sub_sub]

/-- `miniheap_trim` gives back the largest range of every chunk, keeps the rest, and leaves nothing to give back. -/
theorem miniheapTrim_run (chunks : AlignedFree theheap free)
    (at_ : FreeListAt theheap m free) (ends : ∀ e ∈ free, e.stop + 8192 < 2^32) :
    ∃ m', miniheapTrim theheap m = some (m', (free.filterMap trimmed).map pageFree) ∧
      AlignedFree theheap (free.flatMap kept) ∧ FreeListAt theheap m' (free.flatMap kept) ∧
      remaining theheap m' = remaining theheap m - BitVec.ofNat 32 (total (free.filterMap trimmed)) := by
  have short := chunks.length_lt
  have start : Trimming theheap free m free m [] [] := by
    constructor
    case split => rfl
    case chunks => exact chunks
    case list => exact at_
    case calls => rfl
    case remaining => simp [total]
  have run : ∃ m' calls, miniheapTrim theheap m = some (m', calls) ∧ ∃ seen, Trimming theheap free m [] m' calls seen := by
    rw [miniheapTrim, ring_next_head at_.ring]
    refine ring_safe (freeList theheap) _ node (fun todo m' calls => ∃ seen, Trimming theheap free m todo m' calls seen)
      ?_ ?_ free m [] entryLimit ⟨[], start⟩ short
    · rintro todo m' calls ⟨seen, trimming⟩
      exact ⟨(seen.flatMap kept).map node, by simpa using trimming.list.ring⟩
    · rintro e todo m' calls ⟨seen, trimming⟩
      obtain ⟨call, m'', ran, after⟩ := trimming.step (ends e (by rw [trimming.split]; simp))
      exact ⟨m'', _, by rw [ran]; rfl, _, after⟩
  obtain ⟨m', calls, run, seen, last⟩ := run
  have whole : free = seen := by simpa using last.split
  subst whole
  have final := last.list
  have finalChunks := last.chunks
  rw [List.append_nil] at final finalChunks
  refine ⟨m', ?_, finalChunks, final, last.remaining⟩
  rw [run, last.calls]

structure Trimmed (theheap : Word) (m : Memory) (free : List Extent) (m' : Memory)
    (calls : List PageFree) : Prop where
  largest : ∀ e ∈ free, LargestTrim e (trimmed e)
  calls : calls = (free.filterMap trimmed).map pageFree
  chunks : AlignedFree theheap (free.flatMap kept)
  list : FreeListAt theheap m' (free.flatMap kept)
  bytes : total (free.flatMap kept) + total (free.filterMap trimmed) = total free
  remaining : remaining theheap m' = remaining theheap m - BitVec.ofNat 32 (total (free.filterMap trimmed))

/-- `miniheap_trim` returns, gives back the largest range of whole pages of every chunk, keeps the rest as a
    well-formed list, and leaves nothing for a second call. -/
theorem miniheap_trim_maximal (chunks : AlignedFree theheap free)
    (at_ : FreeListAt theheap m free) (ends : ∀ e ∈ free, e.stop < 2^32 - 8192) :
    ∃ m' calls, miniheapTrim theheap m = some (m', calls) ∧ Trimmed theheap m free m' calls ∧
      ∃ m'', miniheapTrim theheap m' = some (m'', []) := by
  have large : ∀ e ∈ free, 12 ≤ e.len := fun e member => (chunks.chunk e member).large
  obtain ⟨m', run, chunks', list', remaining'⟩ := miniheapTrim_run chunks at_ fun e member => by
    have bound := ends e member
    omega
  have endsKept : ∀ c ∈ free.flatMap kept, c.stop + 8192 < 2^32 := by
    intro c member
    obtain ⟨e, inside, piece⟩ := List.mem_flatMap.mp member
    have upper := ((kept_chunks (chunks.list.self inside)).chunk c piece).upper
    have bound := ends e inside
    omega
  obtain ⟨m'', again, -⟩ := miniheapTrim_run chunks' list' endsKept
  have nothing : (free.flatMap kept).filterMap trimmed = [] := by
    rw [List.filterMap_eq_nil_iff]
    intro c member
    obtain ⟨e, inside, piece⟩ := List.mem_flatMap.mp member
    exact trimmed_of_kept (chunks.list.self inside) piece
  rw [nothing] at again
  refine ⟨m', _, run, ?_, m'', again⟩
  constructor
  case largest => exact fun e member => largestTrim_trimmed (large e member)
  case calls => rfl
  case chunks => exact chunks'
  case list => exact list'
  case bytes => exact total_kept_all large
  case remaining => exact remaining'

/-- Below `theheap` a chunk too small for a page and one whose ends are both too close to one, above it two whole pages. -/
def threeChunks : List Extent := [⟨1024, 16⟩, ⟨4092, 12300⟩, ⟨131072, 8192⟩]

theorem threeChunks_aligned : AlignedFree 65536#32 threeChunks := by
  constructor
  case aligned => decide
  case toPlacedFree =>
    constructor
    case room => decide
    case gapped => unfold Gapped; decide
    case chunk =>
      intro e member
      simp only [threeChunks, List.mem_cons, List.not_mem_nil, or_false] at member
      rcases member with rfl | rfl | rfl
      all_goals
        constructor
        all_goals decide

theorem threeChunks_listed : ∃ m, FreeListAt 65536#32 m threeChunks := by
  have place {e : Extent} (member : e ∈ threeChunks) : Placed 65536#32 e := threeChunks_aligned.chunk e member
  obtain ⟨empty, -⟩ := cleared_inv (show (65536#32 : Word).toNat + 24 ≤ 2^32 by decide) (fun _ => 0#8) 0#32 0#32
  obtain ⟨m1, -, -, -, one⟩ := empty.inserted (place (e := ⟨1024, 16⟩) (by decide)) (by simp) (by simp [HeapState.chunks])
  have first : BlocksInv 65536#32 ⟨m1, []⟩ [⟨1024, 16⟩] := one
  obtain ⟨m2, -, -, -, two⟩ :=
    first.inserted (place (e := ⟨4092, 12300⟩) (by decide)) (by simp [Apart, stop]) (by simp [HeapState.chunks])
  have second : BlocksInv 65536#32 ⟨m2, []⟩ [⟨1024, 16⟩, ⟨4092, 12300⟩] := two
  obtain ⟨m3, -, -, -, three⟩ :=
    second.inserted (place (e := ⟨131072, 8192⟩) (by decide)) (by simp [Apart, stop]) (by simp [HeapState.chunks])
  exact ⟨m3, three.list⟩

/-- Of the middle chunk one page goes, with a piece kept on either side; the last one goes whole. -/
theorem miniheap_trim_maximal_three : ∃ m m', FreeListAt 65536#32 m threeChunks ∧
    miniheapTrim 65536#32 m = some (m', [⟨8192#32, 1#32⟩, ⟨131072#32, 2#32⟩]) ∧
    FreeListAt 65536#32 m' [⟨1024, 16⟩, ⟨4092, 4100⟩, ⟨12288, 4104⟩] ∧
    ∃ m'', miniheapTrim 65536#32 m' = some (m'', []) := by
  obtain ⟨m, listed⟩ := threeChunks_listed
  obtain ⟨m', calls, run, after, again⟩ := miniheap_trim_maximal threeChunks_aligned listed (by decide)
  have same : calls = [⟨8192#32, 1#32⟩, ⟨131072#32, 2#32⟩] := after.calls
  rw [same] at run
  exact ⟨m, m', listed, run, after.list, again⟩

end

end ThreeX86.Heap
