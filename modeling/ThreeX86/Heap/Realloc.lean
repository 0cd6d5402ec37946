import ThreeX86.Heap.Guarantees

/-!
`miniheap_realloc`: what the new block holds, and where its bytes come from.
-/

namespace ThreeX86.Heap

open Machine Machine.Memory ThreeX86.Lists Linked Extents Extent

/-! ### The allocator does not look at payloads -/

section

variable {theheap : Word} {e : Extent} {left right chunks : List Extent} {m v : Memory} {S : Nat → Prop}
  [DecidablePred S] {next s : Word}

theorem commutes_overlay (list : PlacedList theheap chunks)
    (off : ∀ x, S x → ¬ PointerFoot theheap chunks x) : Commutes (overlay S v) (IsNode theheap chunks) := by
  have words (x : Word) (isNode : IsNode theheap chunks x) : x.toNat + 4 ≤ 2^32 ∧ (x + 4#32).toNat + 4 ≤ 2^32 ∧
      (∀ i < 4, ¬ S (x.toNat + i)) ∧ ∀ i < 4, ¬ S ((x + 4#32).toNat + i) := by
    have room := isNode.room list
    have next := isNode.toNat_next list
    refine ⟨by omega, by omega, ?_, ?_⟩
    · intro i small inside
      exact off _ inside (isNode.pointers list (by omega))
    · intro i small inside
      rw [next, Nat.add_assoc] at inside
      exact off _ inside (isNode.pointers list (by omega))
  constructor
  case prev =>
    intro m x isNode
    obtain ⟨room, _, clear, _⟩ := words x isNode
    exact overlay_load32 room clear
  case next =>
    intro m x isNode
    obtain ⟨_, room, _, clear⟩ := words x isNode
    exact overlay_load32 room clear
  case setPrev =>
    intro m x w isNode
    obtain ⟨room, _, clear, _⟩ := words x isNode
    exact overlay_store32 w room clear
  case setNext =>
    intro m x w isNode
    obtain ⟨_, room, _, clear⟩ := words x isNode
    exact overlay_store32 w room clear

theorem chunkLen_overlay (chunk : Placed theheap e)
    (off : ∀ x, S x → ¬ (e.start + 8 ≤ x ∧ x < e.start + 12)) :
    chunkLen (overlay S v m) (node e) = chunkLen m (node e) := by
  apply Changes.chunkLen (changes_overlay v m) chunk
  intro i small inside
  exact off _ inside (by omega)

theorem setChunkLen_overlay (chunk : Placed theheap e)
    (off : ∀ x, S x → ¬ (e.start + 8 ≤ x ∧ x < e.start + 12)) (w : Word) :
    setChunkLen (overlay S v m) (node e) w = overlay S v (setChunkLen m (node e) w) := by
  have bound := chunk.bound
  have large := chunk.large
  have address := toNat_chunkLen_address chunk
  apply overlay_store32
  · simp only [stop] at bound
    omega
  · intro i small inside
    exact off _ inside (by omega)

theorem listDelete_overlay (list : PlacedList theheap chunks) (member : e ∈ chunks)
    (ring : Ring m (freeList theheap) (chunks.map node)) (off : ∀ x, S x → ¬ PointerFoot theheap chunks x) :
    listDelete (overlay S v m) (node e) = overlay S v (listDelete m (node e)) := by
  have here : IsNode theheap chunks (node e) := List.mem_cons_of_mem _ (List.mem_map_of_mem member)
  exact listDelete_commutes (independent list) (commutes_overlay list off) here (ring.prev_mem here)
    (ring.next_mem here)

theorem splitChunk_overlay (list : PlacedList theheap (left ++ e :: right))
    (ring : Ring m (freeList theheap) ((left ++ right).map node)) (room : s.toNat + 12 < e.len) (isNext : IsNext theheap next right)
    (off : ∀ x, S x → ¬ CutFoot theheap e (left ++ right) x) :
    splitChunk theheap (overlay S v m) (node e) next s = overlay S v (splitChunk theheap m (node e) next s) := by
  have chunk := list.chunk e (by simp)
  have restChunk := tailPart_chunk chunk room
  have restList := tailPart_list list room
  have sub : (left ++ right).Sublist (left ++ e :: right) := (List.sublist_cons_self e right).append_left left
  have offE : ∀ x, S x → ¬ (e.start + 8 ≤ x ∧ x < e.start + 12) := by
    intro x inside header
    have large := chunk.large
    refine off x inside (Or.inr ?_)
    simp only [Contains, stop]
    omega
  have offRest : ∀ x, S x → ¬ ((tailPart e s).start + 8 ≤ x ∧ x < (tailPart e s).start + 12) := by
    intro x inside header
    refine off x inside (Or.inr ?_)
    simp only [tailPart, Contains, stop] at header ⊢
    omega
  have offPointers : ∀ x, S x → ¬ PointerFoot theheap (left ++ tailPart e s :: right) x := by
    intro x inside pointer
    exact off x inside (cut_foot_of_tail room pointer)
  have lens : splitLens (overlay S v m) e s = overlay S v (splitLens m e s) := by
    unfold splitLens
    rw [chunkLen_overlay chunk offE, setChunkLen_overlay restChunk offRest,
      setChunkLen_overlay chunk offE]
  have changes : Changes e.Contains m (splitLens m e s) := changes_splitLens chunk room
  have kept := Changes.ring changes (list.sublist sub) ring
    fun x inside foot => off_headers list inside (HeaderFoot.of_pointer foot)
  have commutes := commutes_overlay (v := v) restList offPointers
  have fields := independent restList
  have isNode (x : Word) (member : x ∈ freeList theheap :: (left ++ right).map node) :
      IsNode theheap (left ++ tailPart e s :: right) x := by
    rcases List.mem_cons.mp member with rfl | member
    · exact List.mem_cons_self
    · apply List.mem_cons_of_mem
      simp only [List.map_append, List.map_cons, List.mem_append, List.mem_cons] at member ⊢
      tauto
  have newNode : IsNode theheap (left ++ tailPart e s :: right) (node (tailPart e s)) := by simp [IsNode]
  have nodup := nodes_nodup restList
  rw [splitChunk_eq isNext, splitChunk_eq isNext, lens]
  cases right with
  | nil =>
    have head : freeList theheap ∈ freeList theheap :: (left ++ []).map node := List.mem_cons_self
    rw [List.map_nil, List.headD_nil, if_neg (by simp), if_neg (by simp)]
    exact listAddTail_commutes fields commutes (isNode _ head) (isNode _ (kept.prev_mem head)) newNode
      (node_ne_freeList list.room restChunk)
  | cons n right =>
    have notHead : node n ≠ freeList theheap := node_ne_freeList list.room (list.chunk n (by simp))
    have member : node n ∈ freeList theheap :: (left ++ n :: right).map node := by simp
    have differ : node (tailPart e s) ≠ node n := by
      intro same
      rw [List.map_append, List.map_cons, List.map_cons, List.nodup_cons, List.nodup_append, List.nodup_cons] at nodup
      apply nodup.2.2.1.1
      rw [same]
      exact List.mem_cons_self
    rw [List.map_cons, List.headD_cons, if_pos notHead, if_pos notHead]
    exact listAddTail_commutes fields commutes (isNode _ member) (isNode _ (kept.prev_mem member)) newNode differ

theorem cutChunk_overlay (list : PlacedList theheap (left ++ e :: right))
    (at_ : FreeListAt theheap m (left ++ e :: right)) (fits : s.toNat ≤ e.len)
    (off : ∀ x, S x → ¬ CutFoot theheap e (left ++ right) x) :
    cutChunk theheap (overlay S v m) (node e) s = overlay S v (cutChunk theheap m (node e) s) := by
  have member : e ∈ left ++ e :: right := by simp
  have chunk := list.chunk e member
  have large := chunk.large
  have offPointers : ∀ x, S x → ¬ PointerFoot theheap (left ++ e :: right) x := by
    intro x inside pointer
    exact off x inside (cut_foot_of_pointers large pointer)
  have offE : ∀ x, S x → ¬ (e.start + 8 ≤ x ∧ x < e.start + 12) := by
    intro x inside header
    refine off x inside (Or.inr ?_)
    simp only [Contains, stop]
    omega
  have here : IsNode theheap (left ++ e :: right) (node e) := List.mem_cons_of_mem _ (List.mem_map_of_mem member)
  have next : listNext (overlay S v m) (freeList theheap) (node e) = listNext m (freeList theheap) (node e) := by
    unfold listNext
    rw [(commutes_overlay list offPointers).next m (node e) here]
  obtain ⟨unlinked, -⟩ := at_.unlink list
  obtain ⟨-, test⟩ := cut_test list at_ fits
  unfold cutChunk
  dsimp only
  rw [next, listDelete_overlay list member at_.ring offPointers, chunkLen_overlay chunk offE]
  by_cases room : s.toNat + 12 < e.len
  · rw [if_pos (test.mpr room), if_pos (test.mpr room)]
    exact splitChunk_overlay list unlinked.ring room (isNext_listNext list at_.ring) off
  · rw [if_neg (mt test.mp room), if_neg (mt test.mp room)]

theorem recordChunk_overlay (room : theheap.toNat + 24 ≤ 2^32) {ptr : Word} (chunk size : Word) (lower : 8 ≤ ptr.toNat)
    (off : ∀ x, S x → ¬ (ptr.toNat ≤ x + 8 ∧ x < ptr.toNat) ∧ ¬ (theheap.toNat + 8 ≤ x ∧ x < theheap.toNat + 16)) :
    recordChunk theheap (overlay S v m) ptr chunk size = overlay S v (recordChunk theheap m ptr chunk size) := by
  have bound := ptr.isLt
  obtain ⟨as, asSize⟩ := toNat_record lower
  have counter : (theheap + 8#32).toNat = theheap.toNat + 8 := toNat_theheap_add room (by decide)
  have mark : (theheap + 12#32).toNat = theheap.toNat + 12 := toNat_theheap_add room (by decide)
  have store (k : Memory) (a w : Word) (near : (ptr.toNat ≤ a.toNat + 8 ∧ a.toNat + 4 ≤ ptr.toNat) ∨
      theheap.toNat + 8 ≤ a.toNat ∧ a.toNat + 4 ≤ theheap.toNat + 16) :
      (overlay S v k).store32 a w = overlay S v (k.store32 a w) := by
    apply overlay_store32
    · omega
    · intro i small inside
      have apart := off _ inside
      omega
  have load (k : Memory) (a : Word) (near : theheap.toNat + 8 ≤ a.toNat ∧ a.toNat + 4 ≤ theheap.toNat + 16) :
      (overlay S v k).load32 a = k.load32 a := by
    apply overlay_load32
    · omega
    · intro i small inside
      have apart := off _ inside
      omega
  have count (k : Memory) : remaining theheap (overlay S v k) = remaining theheap k := load k _ (by omega)
  have least (k : Memory) : lowWatermark theheap (overlay S v k) = lowWatermark theheap k := load k _ (by omega)
  have setCount (k : Memory) (w : Word) : setRemaining theheap (overlay S v k) w = overlay S v (setRemaining theheap k w) :=
    store k _ w (by omega)
  have setLeast (k : Memory) (w : Word) :
      setLowWatermark theheap (overlay S v k) w = overlay S v (setLowWatermark theheap k w) := store k _ w (by omega)
  unfold recordChunk
  dsimp only
  rw [store m _ chunk (by omega), store _ _ size (by omega), count, setCount, count, least, setLeast]
  split
  · rfl
  · rfl

theorem takeChunk_overlay (list : PlacedList theheap (left ++ e :: right))
    (at_ : FreeListAt theheap m (left ++ e :: right)) (large : 12 ≤ s.toNat)
    (fits : s.toNat ≤ e.len) (off : ∀ x, S x → ¬ AllocFoot theheap e (left ++ right) x) :
    takeChunk theheap (overlay S v m) (node e) s 0#32 =
      ((takeChunk theheap m (node e) s 0#32).1, (takeChunk theheap m (node e) s 0#32).2.1,
        overlay S v (takeChunk theheap m (node e) s 0#32).2.2) := by
  have chunk := list.chunk e (by simp)
  have bound := chunk.bound
  have offCut : ∀ x, S x → ¬ CutFoot theheap e (left ++ right) x := fun x inside foot => off x inside (Or.inl foot)
  have offE : ∀ x, S x → ¬ (e.start + 8 ≤ x ∧ x < e.start + 12) := by
    intro x inside header
    refine offCut x inside (Or.inr ?_)
    simp only [Contains, stop]
    omega
  have pointer : (alignPtr (node e) 0#32).toNat = e.start + 8 := by
    show (node e + 8#32).toNat = e.start + 8
    exact toNat_chunkLen_address chunk
  unfold takeChunk
  dsimp only
  rw [cutChunk_overlay list at_ fits offCut, chunkLen_overlay chunk offE,
    recordChunk_overlay list.room _ _ (by omega)]
  intro x inside
  constructor
  · intro header
    refine offCut x inside (Or.inr ?_)
    simp only [Contains, stop]
    omega
  · exact fun global => off x inside (Or.inr global)

/-- An allocation does the same in two memories that differ in bytes it does not keep books in. -/
theorem miniheapAlloc_overlay (chunks : PlacedFree theheap (left ++ e :: right))
    (at_ : FreeListAt theheap m (left ++ e :: right)) {size : Word} (room : NonWrapping size 0#32)
    (small : ∀ r ∈ left, r.len < need size.toNat 0) (fits : need size.toNat 0 ≤ e.len)
    (off : ∀ x, S x → ¬ AllocFoot theheap e (left ++ right) x ∧ ¬ HeaderFoot theheap (left ++ e :: right) x) :
    ∃ m', miniheapAlloc theheap m size 0#32 = some (node e + 8#32, m') ∧
      miniheapAlloc theheap (overlay S v m) size 0#32 = some (node e + 8#32, overlay S v m') := by
  have valid : (0#32 : Word) = 0#32 ∨ (0#32 : Word).toNat.isPowerOfTwo := Or.inl rfl
  have size_eq : (chunkSize size 0#32).toNat = need size.toNat 0 := toNat_chunkSize size 0#32 room valid
  have least := twelve_le_need size.toNat 0
  rw [← size_eq] at least small fits
  have list := chunks.list
  have at' : FreeListAt theheap (overlay S v m) (left ++ e :: right) :=
    at_.kept list (changes_overlay v m) fun x inside => (off x inside).2
  have first := allocPass_first chunks at_ 0#32 small fits
  have second := allocPass_first chunks at' 0#32 small fits
  rw [takeChunk_overlay list at_ least fits fun x inside => (off x inside).1] at second
  exact ⟨_, miniheapAlloc_of_pass valid first, miniheapAlloc_of_pass valid second⟩

end

/-! ### What the copy reads -/

/-- The copy of `size` bytes from `src` up to `dest` reads the byte at `x`, and not one that it stored there. -/
def CopyReads (src dest size x : Word) : Prop := offset src x < size.toNat ∧ offset src x < offset src dest

instance (src dest size x : Word) : Decidable (CopyReads src dest size x) := inferInstanceAs (Decidable (_ ∧ _))

instance (b : Block) : DecidablePred b.Payload := fun _ => inferInstanceAs (Decidable (_ ∧ _))

/-- Whatever the block `r` holds, `miniheap_realloc` returns the same pointer with the same bytes. -/
def Isolated (theheap : Word) (s : HeapState) (ptr size : Word) (r : Block) : Prop :=
  ∀ m', Changes r.Payload s.mem m' → ∃ q m1 m2, miniheapRealloc theheap s.mem ptr size = some (q, m1) ∧
    miniheapRealloc theheap m' ptr size = some (q, m2) ∧
    (q ≠ 0#32 → ∀ i < size.toNat, m1 (q + BitVec.ofNat 32 i) = m2 (q + BitVec.ofNat 32 i))

section

variable {theheap : Word} {region e : Extent} {left right free : List Extent} {s : HeapState} {b r : Block} {size : Word}

theorem HeapInv.realloc_copy (layout : Layout theheap region) (inv : HeapInv theheap region s free) (held : b ∈ s.live)
    (room : NonWrapping size 0#32) (nonzero : size ≠ 0#32) {q : Word} {m1 : Memory} (fresh : q ≠ 0#32)
    (allocated : miniheapAlloc theheap s.mem size 0#32 = some (q, m1)) :
    ∃ m2, miniheapRealloc theheap s.mem b.ptr size = some (q, m2) ∧
      ∀ i < size.toNat, m2 (q + BitVec.ofNat 32 i) = memcpy m1 q b.ptr size (q + BitVec.ofNat 32 i) := by
  obtain ⟨left, right, split⟩ := List.append_of_mem held
  rcases inv.alloc layout room with failed | ⟨ptr, m, free1, served, -, inv1, -⟩
  · rw [failed] at allocated
    cases allocated
    exact absurd rfl fresh
  · rw [served] at allocated
    cases allocated
    obtain ⟨inv2, -⟩ := inv1.copied layout b.ptr
    have split2 : (⟨q, size⟩ : Block) :: s.live = (⟨q, size⟩ :: left) ++ b :: right := by rw [split]; rfl
    obtain ⟨m2, released, -, kept, -⟩ := inv2.freed layout split2
    dsimp only at released kept
    have notNull := (inv.blocks layout).not_null held
    refine ⟨m2, ?_, ?_⟩
    · simp only [miniheapRealloc, notNull, nonzero, served, fresh, released, ite_false, Option.bind_eq_bind,
        Option.bind_some]
      rfl
    · intro i inside
      have new : LiveBlock region (recorded (memcpy m1 q b.ptr size) q) ⟨q, size⟩ :=
        inv2.live ⟨q, size⟩ List.mem_cons_self
      have lower : (recorded (memcpy m1 q b.ptr size) q).start + 8 ≤ q.toNat := new.lower
      have upper : q.toNat + size.toNat ≤ (recorded (memcpy m1 q b.ptr size) q).stop := new.upper
      have last := new.chunk.bound layout
      have target : (q + BitVec.ofNat 32 i).toNat = q.toNat + i := by
        rw [BitVec.toNat_add, BitVec.toNat_ofNat]
        omega
      apply kept ⟨q, size⟩ (by simp)
      exact ⟨by rw [target]; dsimp only; omega, by rw [target]; dsimp only; omega⟩

/-- The bytes of a live block are none that an allocation looks at. -/
theorem HeapInv.payload_off_books (layout : Layout theheap region) (inv : HeapInv theheap region s (left ++ e :: right))
    (held : r ∈ s.live) {x : Nat} (inside : r.Payload x) :
    ¬ AllocFoot theheap e (left ++ right) x ∧ ¬ HeaderFoot theheap (left ++ e :: right) x := by
  have block := inv.live r held
  have contains := block.payload_inside inside
  have across := fun a ha => inv.partition.across a ha _ (List.mem_map_of_mem held)
  have headers := headers_apart (layout.placed block.chunk) (inv.blocks layout).chunk across contains
  refine ⟨?_, headers⟩
  rintro ((pointer | within) | global)
  · have sub := ((List.sublist_cons_self e right).append_left left).subset
    exact headers (HeaderFoot.mono sub (HeaderFoot.of_pointer pointer))
  · exact (across e (by simp)).disjoint x ⟨within, contains⟩
  · have off := (layout.placed block.chunk).off_theheap contains
    omega

theorem HeapInv.two_runs (layout : Layout theheap region) (inv : HeapInv theheap region s (left ++ e :: right))
    (held : b ∈ s.live) (other : r ∈ s.live) (room : NonWrapping size 0#32) (nonzero : size ≠ 0#32)
    (small : ∀ r ∈ left, r.len < need size.toNat 0) (fits : need size.toNat 0 ≤ e.len) {m' : Memory}
    (changes : Changes r.Payload s.mem m') :
    ∃ m m1 m2, miniheapRealloc theheap s.mem b.ptr size = some (node e + 8#32, m1) ∧
      miniheapRealloc theheap m' b.ptr size = some (node e + 8#32, m2) ∧ node e + 8#32 ≠ 0#32 ∧
      (∀ x, r.Payload x.toNat → m x = s.mem x) ∧
      ∀ i < size.toNat,
        m1 (node e + 8#32 + BitVec.ofNat 32 i) =
          memcpy m (node e + 8#32) b.ptr size (node e + 8#32 + BitVec.ofNat 32 i) ∧
        m2 (node e + 8#32 + BitVec.ofNat 32 i) =
          memcpy (overlay r.Payload m' m) (node e + 8#32) b.ptr size (node e + 8#32 + BitVec.ofNat 32 i) := by
  have chunk := inv.chunk e (by simp)
  have fresh : node e + 8#32 ≠ 0#32 := by
    intro null
    have value := toNat_chunkLen_address (layout.placed chunk)
    rw [null, BitVec.toNat_ofNat] at value
    omega
  obtain ⟨m, first, second⟩ := miniheapAlloc_overlay (inv.free_chunks.placed layout) inv.list room small fits
    (v := m') fun x inside => inv.payload_off_books layout other inside
  rw [overlay_changes changes] at second
  have inv' : HeapInv theheap region ⟨m', s.live⟩ (left ++ e :: right) :=
    inv.write layout (changes.mono fun x inside => ⟨r, other, inside⟩)
  obtain ⟨m1, run1, bytes1⟩ := inv.realloc_copy layout held room nonzero fresh first
  obtain ⟨m2, run2, bytes2⟩ := inv'.realloc_copy layout held room nonzero fresh second
  refine ⟨m, m1, m2, run1, run2, fresh, ?_, fun i inside => ⟨bytes1 i inside, bytes2 i inside⟩⟩
  intro x inside
  rcases inv.alloc layout room with failed | ⟨ptr, m0, free1, served, -, -, kept, -⟩
  · have same := Option.some.inj (failed.symm.trans first)
    exact absurd (congrArg Prod.fst same).symm fresh
  · have same := Option.some.inj (served.symm.trans first)
    have stored : m0 = m := congrArg Prod.snd same
    rw [← stored]
    exact kept r other x ((inv.live r other).payload_inside inside)

theorem BlocksInv.live_unique (inv : BlocksInv theheap s free) {a : Block} (ha : a ∈ s.live) (hb : b ∈ s.live)
    (same : a.ptr = b.ptr) : a = b := by
  by_contra different
  obtain ⟨left, right, split⟩ := List.append_of_mem hb
  have apart := inv.live_apart split a (mem_others_of_split split ha different)
  rw [same] at apart
  have chunk := (inv.live b hb).chunk
  have start : (recorded s.mem b.ptr).Contains (recorded s.mem b.ptr).start := by
    have large := chunk.large
    simp only [Contains, stop]
    omega
  exact apart.disjoint _ ⟨start, start⟩

theorem HeapInv.fresh_ptr (layout : Layout theheap region) (inv : HeapInv theheap region s (left ++ e :: right))
    (held : b ∈ s.live) : node e + 8#32 ≠ b.ptr := by
  intro same
  have chunk := inv.chunk e (by simp)
  have value := toNat_chunkLen_address (layout.placed chunk)
  have block := inv.live b held
  have lower := block.lower
  have upper := block.upper
  have large := chunk.large
  rw [same] at value
  refine (inv.partition.across e (by simp) _ (List.mem_map_of_mem held)).disjoint e.start ⟨?_, ?_⟩
  · simp only [Contains, stop]
    omega
  · simp only [Contains]
    omega

/-- The first free chunk that is long enough for `size` bytes. -/
def firstFit (free : List Extent) (size : Word) : Option Extent := free.find? fun e => need size.toNat 0 ≤ e.len

theorem firstFit_some (found : firstFit free size = some e) : ∃ left right, free = left ++ e :: right ∧
    (∀ r ∈ left, r.len < need size.toNat 0) ∧ need size.toNat 0 ≤ e.len := by
  obtain ⟨fits, left, right, split, small⟩ := List.find?_eq_some_iff_append.mp found
  refine ⟨left, right, split, fun r member => ?_, by simpa using fits⟩
  simpa using small r member

theorem firstFit_none (missing : firstFit free size = none) : ∀ e ∈ free, e.len < need size.toNat 0 := by
  intro e member
  simpa using List.find?_eq_none.mp missing e member

/-- Without a byte of `r` among those copied, `r` has no influence. -/
theorem HeapInv.isolated (layout : Layout theheap region) (inv : HeapInv theheap region s free) (held : b ∈ s.live)
    (other : r ∈ s.live) (room : NonWrapping size 0#32) (nonzero : size ≠ 0#32)
    (clear : ∀ e, firstFit free size = some e →
      ∀ x : Word, r.Payload x.toNat → ¬ CopyReads b.ptr (node e + 8#32) size x) :
    Isolated theheap s b.ptr size r := by
  intro m' changes
  cases search : firstFit free size with
  | none =>
    have small := firstFit_none search
    have notNull := (inv.blocks layout).not_null held
    have inv' : HeapInv theheap region ⟨m', s.live⟩ free :=
      inv.write layout (changes.mono fun x inside => ⟨r, other, inside⟩)
    have first := miniheapAlloc_none (inv.free_chunks.placed layout) inv.list (Or.inl rfl) room small
    have second := miniheapAlloc_none (inv'.free_chunks.placed layout) inv'.list (Or.inl rfl) room small
    refine ⟨0#32, s.mem, m', ?_, ?_, fun absent => absurd rfl absent⟩
    · simp only [miniheapRealloc, notNull, nonzero, first, ite_false, ite_true, Option.bind_eq_bind, Option.bind_some]
      rfl
    · simp only [miniheapRealloc, notNull, nonzero, second, ite_false, ite_true, Option.bind_eq_bind, Option.bind_some]
      rfl
  | some e =>
    obtain ⟨left, right, rfl, small, fits⟩ := firstFit_some search
    have unread := clear e search
    obtain ⟨m, m1, m2, run1, run2, -, kept, bytes⟩ := inv.two_runs layout held other room nonzero small fits changes
    refine ⟨_, m1, m2, run1, run2, fun _ i inside => ?_⟩
    obtain ⟨byte1, byte2⟩ := bytes i inside
    rw [byte1, byte2]
    have bound := size.isLt
    have apart : 0 < offset b.ptr (node e + 8#32) := by
      apply Nat.pos_of_ne_zero
      intro zero
      have same := add_offset b.ptr (node e + 8#32)
      rw [zero, BitVec.add_zero] at same
      exact inv.fresh_ptr layout held same.symm
    refine moveBytes_agree (by omega) apart (fun j copied early => ?_) i inside
    have away : ¬ r.Payload (b.ptr + BitVec.ofNat 32 j).toNat := by
      intro inR
      refine unread _ inR ⟨?_, ?_⟩
      · rw [offset_add _ (by omega)]
        exact copied
      · rw [offset_add _ (by omega)]
        exact early
    exact (if_neg away).symm

/-- A byte of `r` among those copied shows in the new block. -/
theorem HeapInv.leaks (layout : Layout theheap region) (inv : HeapInv theheap region s free) (held : b ∈ s.live)
    (other : r ∈ s.live) (room : NonWrapping size 0#32) (nonzero : size ≠ 0#32) (found : firstFit free size = some e)
    {x : Word} (inside : r.Payload x.toNat) (reads : CopyReads b.ptr (node e + 8#32) size x) :
    ¬ Isolated theheap s b.ptr size r := by
  intro isolated
  obtain ⟨left, right, rfl, small, fits⟩ := firstFit_some found
  have changes : Changes r.Payload s.mem (s.mem.store8 x (s.mem x + 1#8)) := by
    apply (changes_store8 s.mem x _).mono
    rintro y rfl
    exact inside
  obtain ⟨m, m1, m2, run1, run2, fresh, kept, bytes⟩ :=
    inv.two_runs layout held other room nonzero small fits changes
  obtain ⟨q, k1, k2, same1, same2, agree⟩ := isolated _ changes
  have first := Option.some.inj (run1.symm.trans same1)
  have second := Option.some.inj (run2.symm.trans same2)
  have pointer : node e + 8#32 = q := congrArg Prod.fst first
  have memory1 : m1 = k1 := congrArg Prod.snd first
  have memory2 : m2 = k2 := congrArg Prod.snd second
  subst pointer memory1 memory2
  obtain ⟨copied, early⟩ := reads
  have bound := size.isLt
  have equal := agree fresh _ copied
  obtain ⟨byte1, byte2⟩ := bytes _ copied
  have here (k : Memory) :
      memcpy k (node e + 8#32) b.ptr size (node e + 8#32 + BitVec.ofNat 32 (offset b.ptr x)) = k x := by
    rw [memcpy, moveBytes_inside k _ _ _ _ copied (by omega) (Or.inl early), add_offset]
  have new : overlay r.Payload (s.mem.store8 x (s.mem x + 1#8)) m x = s.mem x + 1#8 := by
    rw [overlay, if_pos inside, store8_same]
  rw [byte1, byte2, here, here, new, kept x inside] at equal
  generalize s.mem x = v at equal
  revert v
  decide

theorem nonWrapping_unaligned (room : size.toNat + 11 < 2^32) : NonWrapping size 0#32 := by
  have none : slack (0#32 : Word).toNat = 0 := rfl
  rw [NonWrapping, none]
  omega

/-- An allocation without alignment takes the first bytes behind the chunk's header. -/
theorem HeapInv.first_bytes (layout : Layout theheap region) (inv : HeapInv theheap region s (left ++ e :: right))
    (room : NonWrapping size 0#32) (small : ∀ r ∈ left, r.len < need size.toNat 0) (fits : need size.toNat 0 ≤ e.len) :
    ∃ m', miniheapAlloc theheap s.mem size 0#32 = some (node e + 8#32, m') ∧
      HeapInv theheap region ⟨m', ⟨node e + 8#32, size⟩ :: s.live⟩ (left ++ leftover e (need size.toNat 0) ++ right) := by
  obtain ⟨m', first, -⟩ := miniheapAlloc_overlay (inv.free_chunks.placed layout) inv.list room small fits
    (S := fun _ => False) (v := s.mem) fun x inside => inside.elim
  obtain ⟨ptr, m1, allocated, served, -, lower, upper, -⟩ :=
    miniheapAlloc_first (inv.free_chunks.placed layout) inv.list (Or.inl rfl) room small fits
  have same := Option.some.inj (first.symm.trans allocated)
  have pointer : node e + 8#32 = ptr := congrArg Prod.fst same
  have memory : m' = m1 := congrArg Prod.snd same
  subst pointer memory
  obtain ⟨-, -, inv'⟩ := inv.served layout size (need_four (Or.inl rfl)) (twelve_le_need _ _) fits served lower upper
  exact ⟨m', first, inv'⟩

theorem two_blocks : ∃ s, Reachable 4096#32 ⟨8192, 16384⟩ s ∧ s.live = [⟨8212#32, 4#32⟩, ⟨8200#32, 4#32⟩] ∧
    HeapInv 4096#32 ⟨8192, 16384⟩ s [⟨8216, 16360⟩] := by
  obtain ⟨m0, initialised, inv0, -⟩ := miniheapInit_spec layout_example fun _ => 0#8
  have start : Reachable 4096#32 ⟨8192, 16384⟩ ⟨m0, []⟩ := .init initialised
  have whole : HeapInv 4096#32 ⟨8192, 16384⟩ ⟨m0, []⟩ ([] ++ ⟨8192, 16384⟩ :: []) := inv0
  have room : NonWrapping 4#32 0#32 := by decide
  obtain ⟨m1, first, inv1⟩ := whole.first_bytes layout_example room (by simp) (by decide)
  have one : Reachable 4096#32 ⟨8192, 16384⟩ ⟨m1, [⟨8200#32, 4#32⟩]⟩ := by
    refine start.step (show HeapState.Allowed ⟨m0, []⟩ (.alloc 4#32 0#32) from room) ?_
    simp only [HeapState.step, first]
    rfl
  have rest : HeapInv 4096#32 ⟨8192, 16384⟩ ⟨m1, [⟨8200#32, 4#32⟩]⟩ ([] ++ ⟨8204, 16372⟩ :: []) := inv1
  obtain ⟨m2, second, inv2⟩ := rest.first_bytes layout_example room (by simp) (by decide)
  refine ⟨⟨m2, [⟨8212#32, 4#32⟩, ⟨8200#32, 4#32⟩]⟩, ?_, rfl, inv2⟩
  refine one.step (show HeapState.Allowed ⟨m1, [⟨8200#32, 4#32⟩]⟩ (.alloc 4#32 0#32) from room) ?_
  simp only [HeapState.step, second]
  rfl

/-- `miniheap_realloc` keeps the old bytes, up to the shorter of the two lengths, and every other block. -/
theorem realloc_preserves (layout : Layout theheap region) (reachable : Reachable theheap region s) (held : b ∈ s.live)
    (nonzero : size ≠ 0#32) (room : size.toNat + 11 < 2^32) :
    ∃ q m', miniheapRealloc theheap s.mem b.ptr size = some (q, m') ∧
      (q = 0#32 → m' = s.mem) ∧
      (q ≠ 0#32 → Moved s m' b (s.release b.ptr) q size ∧
        (recorded m' q).start + 8 ≤ q.toNat ∧ q.toNat + size.toNat ≤ (recorded m' q).stop ∧
        ∃ free', Represents theheap region ⟨m', ⟨q, size⟩ :: s.release b.ptr⟩ free' ∧
          ∀ x, (recorded s.mem b.ptr).Contains x → Covers free' x) := by
  obtain ⟨free, inv⟩ := reachable.inv layout
  obtain ⟨left, a, right, split, same, rest⟩ := release_split (show ∃ c ∈ s.live, c.ptr = b.ptr from ⟨b, held, rfl⟩)
  have unique : a = b := (inv.blocks layout).live_unique (by simp [split]) held same
  subst unique
  rw [rest]
  rcases inv.realloc layout split (nonWrapping_unaligned room) nonzero with failed | ⟨q, m', free', served, fresh, inv', moved⟩
  · exact ⟨0#32, s.mem, failed, fun _ => rfl, fun absent => absurd rfl absent⟩
  · have new := inv'.live ⟨q, size⟩ List.mem_cons_self
    refine ⟨q, m', served, fun null => absurd null fresh, fun _ => ⟨moved, new.lower, new.upper, _,
      inv'.represents layout, ?_⟩⟩
    intro x inside
    exact (covers_insertExtent free' _ x).mpr (Or.inr inside)

theorem realloc_preserves_two : ∃ s m', Reachable 4096#32 ⟨8192, 16384⟩ s ∧ s.live = [⟨8212#32, 4#32⟩, ⟨8200#32, 4#32⟩] ∧
    miniheapRealloc 4096#32 s.mem 8200#32 100#32 = some (8224#32, m') ∧
    Moved s m' ⟨8200#32, 4#32⟩ (s.release 8200#32) 8224#32 100#32 := by
  obtain ⟨s, reachable, live, inv⟩ := two_blocks
  have held : (⟨8200#32, 4#32⟩ : Block) ∈ s.live := by simp [live]
  have whole : HeapInv 4096#32 ⟨8192, 16384⟩ s ([] ++ ⟨8216, 16360⟩ :: []) := inv
  obtain ⟨m1, allocated, -⟩ := whole.first_bytes layout_example (show NonWrapping 100#32 0#32 by decide) (by simp) (by decide)
  have pointer : node ⟨8216, 16360⟩ + 8#32 = 8224#32 := rfl
  rw [pointer] at allocated
  obtain ⟨q, m', served, -, moved⟩ :=
    realloc_preserves layout_example reachable held (show 100#32 ≠ 0#32 by decide) (by decide)
  have same : q = 8224#32 := by
    simp only [miniheapRealloc, allocated, Option.bind_eq_bind, Option.bind_some] at served
    rw [if_neg (by decide), if_neg (by decide), if_neg (by decide), Option.bind_eq_some_iff] at served
    obtain ⟨m2, -, result⟩ := served
    exact (congrArg Prod.fst (Option.some.inj result)).symm
  subst same
  exact ⟨s, m', reachable, live, served, (moved (by decide)).1⟩

/-- Another block's bytes stay out of the new block exactly when none of them is among the `size` bytes copied. -/
theorem realloc_isolated_iff (layout : Layout theheap region) (reachable : Reachable theheap region s)
    (held : b ∈ s.live) (other : r ∈ s.live) (nonzero : size ≠ 0#32) (room : size.toNat + 11 < 2^32) :
    ∃ free, Represents theheap region s free ∧
      (Isolated theheap s b.ptr size r ↔ ∀ e, firstFit free size = some e →
        ∀ x : Word, r.Payload x.toNat → ¬ CopyReads b.ptr (node e + 8#32) size x) := by
  obtain ⟨free, inv⟩ := reachable.inv layout
  have wraps := nonWrapping_unaligned room
  refine ⟨free, inv.represents layout, fun isolated e found x inside reads => ?_, fun clear => ?_⟩
  · exact inv.leaks layout held other wraps nonzero found inside reads isolated
  · exact inv.isolated layout held other wraps nonzero clear

theorem realloc_isolated_iff_two : ∃ s free, Reachable 4096#32 ⟨8192, 16384⟩ s ∧
    Represents 4096#32 ⟨8192, 16384⟩ s free ∧
    (Isolated 4096#32 s 8200#32 100#32 ⟨8212#32, 4#32⟩ ↔ ∀ e, firstFit free 100#32 = some e →
      ∀ x : Word, Block.Payload ⟨8212#32, 4#32⟩ x.toNat → ¬ CopyReads 8200#32 (node e + 8#32) 100#32 x) := by
  obtain ⟨s, reachable, live, -⟩ := two_blocks
  have held : (⟨8200#32, 4#32⟩ : Block) ∈ s.live := by simp [live]
  have other : (⟨8212#32, 4#32⟩ : Block) ∈ s.live := by simp [live]
  obtain ⟨free, represents, equivalence⟩ :=
    realloc_isolated_iff layout_example reachable held other (show 100#32 ≠ 0#32 by decide) (by decide)
  exact ⟨s, free, reachable, represents, equivalence⟩

/-- `realloc` of the lower of two blocks of four bytes to 100 bytes copies the upper one's bytes too. -/
theorem not_isolated_two : ∃ s, Reachable 4096#32 ⟨8192, 16384⟩ s ∧ s.live = [⟨8212#32, 4#32⟩, ⟨8200#32, 4#32⟩] ∧
    ¬ Isolated 4096#32 s 8200#32 100#32 ⟨8212#32, 4#32⟩ := by
  obtain ⟨s, reachable, live, inv⟩ := two_blocks
  have held : (⟨8200#32, 4#32⟩ : Block) ∈ s.live := by simp [live]
  have other : (⟨8212#32, 4#32⟩ : Block) ∈ s.live := by simp [live]
  refine ⟨s, reachable, live, ?_⟩
  apply inv.leaks layout_example held other (e := ⟨8216, 16360⟩) (x := 8212#32) (by decide) (by decide) (by decide)
  · exact ⟨by decide, by decide⟩
  · exact ⟨by decide, by decide⟩

end

end ThreeX86.Heap
