import ThreeX86.Heap.Guarantees
import ThreeX86.Machine.Run

/-!
The heap with a page allocator behind it: `heap_grow` puts region after region on the free list, and
`theheap.base` and `theheap.len` are to span them all.
-/

namespace ThreeX86.Heap

open Machine Machine.Memory ThreeX86.Lists Linked Extents Extent Transition

/-- A heap, and the regions that `miniheap_init` and `page_alloc` gave it. -/
structure GrownState extends HeapState where
  regions : List Extent

/-- The calls, the one to `page_alloc` being answered by `pages`, and the clients' stores. -/
inductive GrowOp where
  | alloc (size alignment : Word) (pages : Word → Word)
  | free (ptr : Word)
  | write (mem : Memory)

/-- The number of pages `miniheap_alloc` asks `page_alloc` for, when it gets that far. -/
def pagesAsked (theheap : Word) (m : Memory) (size alignment : Word) : Option Word := do
  if alignment &&& (alignment - 1#32) ≠ 0#32 then none
  else
    let (ptr, size, _) ← allocPass theheap m (chunkSize size alignment) (clampAlignment alignment)
    if ptr = 0#32 then some (roundUp size pageSize / pageSize) else none

/-- The region that arrives. -/
def arrival (theheap : Word) (m : Memory) (size alignment : Word) (pages : Word → Word) : Option Extent := do
  let n ← pagesAsked theheap m size alignment
  if pages n = 0#32 then none else some ⟨(pages n).toNat, n.toNat * 4096⟩

/-- What `page_alloc` may give: whole pages off `theheap` and off the regions it gave before. -/
structure Granted (theheap : Word) (regions : List Extent) (r : Extent) : Prop where
  page : r.start % 4096 = 0
  placed : Placed theheap r
  fresh : ∀ q ∈ regions, q.Apart r

def GrownState.Allowed (theheap : Word) (s : GrownState) : GrowOp → Prop
  | .alloc size alignment pages =>
    NonWrapping size alignment ∧ ∀ r, arrival theheap s.mem size alignment pages = some r → Granted theheap s.regions r
  | .free ptr => ptr = 0#32 ∨ ∃ b ∈ s.live, b.ptr = ptr
  | .write mem => Changes (fun x => ∃ b ∈ s.live, b.Payload x) s.mem mem

/-- The interval from `theheap.base` that is `theheap.len` bytes long. -/
def span (theheap : Word) (m : Memory) : Extent := ⟨(heapBase theheap m).toNat, (heapLen theheap m).toNat⟩

/-- A region arrives at or above `theheap.base`, and neither its end nor the heap's is the end of memory. -/
def GrownState.Upward (theheap : Word) (s : GrownState) : GrowOp → Prop
  | .alloc size alignment pages => ∀ r, arrival theheap s.mem size alignment pages = some r →
      (heapBase theheap s.mem).toNat ≤ r.start ∧ r.stop < 2^32 ∧ (span theheap s.mem).stop < 2^32
  | .free _ => True
  | .write _ => True

def GrownState.step (theheap : Word) (s : GrownState) : GrowOp → Option GrownState
  | .alloc size alignment pages => do
    let (p, mem) ← miniheapAllocFrom theheap pages s.mem size alignment
    return ⟨⟨mem, if p = 0#32 then s.live else ⟨p, size⟩ :: s.live⟩,
      (arrival theheap s.mem size alignment pages).toList ++ s.regions⟩
  | .free ptr => do
    let mem ← miniheapFree theheap s.mem ptr
    return ⟨⟨mem, s.release ptr⟩, s.regions⟩
  | .write mem => some ⟨⟨mem, s.live⟩, s.regions⟩

/-- `miniheap_init` with a region off `theheap`, or with none. -/
inductive Started (theheap : Word) : GrownState → Prop
  | region (m m' : Memory) (r : Extent) (placed : Placed theheap r)
      (h : miniheapInit theheap m (node r) (BitVec.ofNat 32 r.len) = some m') : Started theheap ⟨⟨m', []⟩, [r]⟩
  | none (m m' : Memory) (h : miniheapInit theheap m 0#32 0#32 = some m') : Started theheap ⟨⟨m', []⟩, []⟩

/-- A call that its caller, the client and `page_alloc` play by the rules. -/
def GrownState.Calls (theheap : Word) (s : GrownState) (op : GrowOp) (s' : GrownState) : Prop :=
  s.Allowed theheap op ∧ s.step theheap op = some s'

/-- The interval that `miniheap_get_stats` reports holds every free chunk and every live chunk. -/
def SpanSound (theheap : Word) (s : GrownState) : Prop :=
  ∃ free stats, PlacedFree theheap free ∧ FreeListAt theheap s.mem free ∧
    miniheapGetStats theheap s.mem = some stats ∧
    ∀ e ∈ free ++ s.chunks, e.Within ⟨stats.heapStart.toNat, stats.heapLen.toNat⟩

section

variable {theheap : Word} {free : List Extent} {m m' : Memory} {h : HeapState} {s s' : GrownState} {r : Extent}
  {size alignment : Word} {pages : Word → Word}

theorem miniheapGetStats_span {stats : MiniheapStats} (reported : miniheapGetStats theheap m = some stats) :
    (⟨stats.heapStart.toNat, stats.heapLen.toNat⟩ : Extent) = span theheap m := by
  simp only [miniheapGetStats, Option.bind_eq_bind, Option.bind_eq_some_iff] at reported
  obtain ⟨walk, -, same⟩ := reported
  cases same
  rfl

/-! ### `heap_grow` -/

/-- The part of `heap_grow` that changes the start and the length of the heap. -/
def stretch (theheap : Word) (m : Memory) (ptr size : Word) : Memory :=
  let m := if ptr < heapBase theheap m ∨ heapBase theheap m = 0#32 then setHeapBase theheap m ptr else m
  let endptr := ptr + size
  if endptr > heapBase theheap m + heapLen theheap m then setHeapLen theheap m (endptr - heapBase theheap m) else m

/-- The start and the length in `m'`, after those in `m` and a region at `ptr`. -/
structure Stretched (theheap : Word) (m m' : Memory) (ptr size : Word) : Prop where
  base : heapBase theheap m' = if ptr < heapBase theheap m ∨ heapBase theheap m = 0#32 then ptr else heapBase theheap m
  len : heapLen theheap m' = if ptr + size > heapBase theheap m' + heapLen theheap m then
    ptr + size - heapBase theheap m' else heapLen theheap m

theorem Stretched.congr {m1 m2 : Memory} {ptr size : Word} (stretched : Stretched theheap m m' ptr size)
    (before : heapBase theheap m = heapBase theheap m1 ∧ heapLen theheap m = heapLen theheap m1)
    (after : heapBase theheap m2 = heapBase theheap m' ∧ heapLen theheap m2 = heapLen theheap m') :
    Stretched theheap m1 m2 ptr size := by
  have ⟨base, len⟩ := stretched
  rw [before.1] at base
  rw [before.2] at len
  constructor
  · rw [after.1, base]
  · rw [after.1, after.2, len]

theorem stretch_spec (room : theheap.toNat + 24 ≤ 2^32) (m : Memory) (ptr size : Word) :
    Stretched theheap m (stretch theheap m ptr size) ptr size ∧
      Changes (fun x => theheap.toNat ≤ x ∧ x < theheap.toNat + 8) m (stretch theheap m ptr size) := by
  have address : (theheap + 4#32).toNat = theheap.toNat + 4 := toNat_theheap_add room (by decide)
  generalize first : (if ptr < heapBase theheap m ∨ heapBase theheap m = 0#32 then setHeapBase theheap m ptr else m) = m1
  have base : heapBase theheap m1 =
      (if ptr < heapBase theheap m ∨ heapBase theheap m = 0#32 then ptr else heapBase theheap m) := by
    rw [← first]
    split
    · exact load32_store32 m theheap ptr
    · rfl
  have changes1 : Changes (fun x => theheap.toNat ≤ x ∧ x < theheap.toNat + 4) m m1 := by
    rw [← first]
    split
    · exact changes_store32 m theheap ptr (by omega)
    · exact Changes.refl _ _
  have len : heapLen theheap m1 = heapLen theheap m := changes1.load32 (by omega) fun i small => by omega
  have whole : stretch theheap m ptr size =
      if ptr + size > heapBase theheap m1 + heapLen theheap m then
        setHeapLen theheap m1 (ptr + size - heapBase theheap m1) else m1 := by
    rw [← len]
    simp only [stretch, first]
  have changes2 (v : Word) : Changes (fun x => theheap.toNat + 4 ≤ x ∧ x < theheap.toNat + 8) m1 (setHeapLen theheap m1 v) :=
    changes_global room (show 4 < 13 by decide) m1 v
  have same : heapBase theheap (stretch theheap m ptr size) = heapBase theheap m1 := by
    rw [whole]
    split
    · exact (changes2 _).load32 (by omega) fun i small => by omega
    · rfl
  refine ⟨⟨same.trans base, ?_⟩, ?_⟩
  · rw [same, whole]
    split
    · exact load32_store32 m1 _ _
    · exact len
  · rw [whole]
    have before := changes1.mono (T := fun x => theheap.toNat ≤ x ∧ x < theheap.toNat + 8) fun x inside => by omega
    split
    · exact before.trans ((changes2 _).mono fun x inside => by omega)
    · exact before

/-- Whole pages: the region that arrives is as long as `heap_grow` takes it to be. -/
theorem toNat_pages (size : Word) :
    (roundUp size pageSize).toNat = (roundUp size pageSize / pageSize).toNat * 4096 := by
  have power : pageSize.toNat = 2^12 := rfl
  rw [BitVec.toNat_udiv, power, roundUp, toNat_and_not_mask _ pageSize 12 power]
  omega

theorem BlocksInv.grown (inv : BlocksInv theheap h free) (placed : Placed theheap r) (offFree : ∀ e ∈ free, e.Apart r)
    (offLive : ∀ a ∈ h.chunks, r.Apart a) (at_ : pages (roundUp size pageSize / pageSize) = node r)
    (len : roundUp size pageSize = BitVec.ofNat 32 r.len) :
    ∃ m', heapGrow theheap pages h.mem size = some (BitVec.ofNat 32 r.len, m') ∧
      BlocksInv theheap ⟨m', h.live⟩ (insertExtent free r) ∧
      (∀ b ∈ h.live, recorded m' b.ptr = recorded h.mem b.ptr) ∧
      Stretched theheap h.mem m' (node r) (BitVec.ofNat 32 r.len) := by
  obtain ⟨m1, inserted, changes, untouched, inv1⟩ := inv.inserted placed offFree offLive
  have all : ∀ e ∈ r :: free, Placed theheap e := by
    intro e he
    rcases List.mem_cons.mp he with rfl | he
    · exact placed
    · exact inv.chunk e he
  have kept {k : Nat} (bound : k ≤ 4 ∨ k = 12) := global_inserted inv.room all changes bound
  have base1 : heapBase theheap m1 = heapBase theheap h.mem := by
    have same := kept (k := 0) (by decide)
    rw [BitVec.add_zero] at same
    exact same
  have len1 : heapLen theheap m1 = heapLen theheap h.mem := kept (k := 4) (by decide)
  obtain ⟨stretched, globals⟩ := stretch_spec inv.room m1 (node r) (BitVec.ofNat 32 r.len)
  obtain ⟨records, inv2⟩ := inv1.off globals
    (fun x inside => HeaderFoot.off_globals inv1.chunk (by omega))
    (fun b hb x lower upper inside => by
      have block := inv1.live b hb
      have last := block.upper
      have off := block.chunk.off_theheap (x := x) ⟨lower, by omega⟩
      omega)
    (fun x lower upper inside => by omega)
  refine ⟨_, ?_, inv2, ?_, stretched.congr ⟨base1, len1⟩ ⟨rfl, rfl⟩⟩
  · have some : node r ≠ 0#32 := node_ne_zero placed
    rw [len] at at_
    simp only [heapGrow, at_, some, ite_false, len, inserted, Option.bind_eq_bind, Option.bind_some]
    rfl
  · intro b hb
    rw [records b hb]
    exact recorded_untouched (inv.live b hb) (untouched b hb)

/-! ### What every run keeps -/

/-- The chunks lie in the regions, and the regions between `theheap.base` and the end of `theheap.len`. -/
structure GrownInv (theheap : Word) (s : GrownState) (free : List Extent) : Prop where
  blocks : BlocksInv theheap s.toHeapState free
  inside : ∀ x, Covers free x ∨ Covers s.chunks x → Covers s.regions x
  spanned : ∀ r ∈ s.regions, r.Within (span theheap s.mem)
  top : (span theheap s.mem).stop ≤ 2^32
  empty : heapBase theheap s.mem = 0#32 → s.regions = [] ∧ heapLen theheap s.mem = 0#32

theorem GrownInv.covered (inv : GrownInv theheap s free) {e : Extent} (member : e ∈ free ++ s.chunks) {x : Nat}
    (contains : e.Contains x) : Covers s.regions x := by
  apply inv.inside
  rcases List.mem_append.mp member with member | member
  · exact .inl ⟨e, member, contains⟩
  · exact .inr ⟨e, member, contains⟩

theorem GrownInv.positive (inv : GrownInv theheap s free) {e : Extent} (member : e ∈ free ++ s.chunks) : 0 < e.len := by
  rcases List.mem_append.mp member with member | member
  · exact inv.blocks.free_chunks.positive e member
  · exact inv.blocks.live_positive e member

theorem GrownInv.within (inv : GrownInv theheap s free) {e : Extent} (member : e ∈ free ++ s.chunks) :
    e.Within (span theheap s.mem) := by
  have positive := inv.positive member
  obtain ⟨q, hq, atFirst⟩ := inv.covered member (x := e.start) (by simp only [Contains, stop]; omega)
  obtain ⟨r, hr, atLast⟩ := inv.covered member (x := e.stop - 1) (by simp only [Contains, stop]; omega)
  have lower := (inv.spanned q hq).1
  have upper := (inv.spanned r hr).2
  simp only [Contains, Within, stop] at *
  omega

theorem GrownInv.sound (inv : GrownInv theheap s free) : SpanSound theheap s := by
  obtain ⟨stats, reported, -⟩ := miniheapGetStats_spec inv.blocks.free_chunks inv.blocks.list
  refine ⟨free, stats, inv.blocks.free_chunks, inv.blocks.list, reported, fun e member => ?_⟩
  rw [miniheapGetStats_span reported]
  exact inv.within member

theorem GrownInv.off_chunks (inv : GrownInv theheap s free) (granted : Granted theheap s.regions r) {e : Extent}
    (member : e ∈ free ++ s.chunks) : e.Apart r := by
  apply apart_of_disjoint (inv.positive member) granted.placed.len_positive
  rintro x ⟨contains, arrived⟩
  obtain ⟨q, hq, earlier⟩ := inv.covered member contains
  exact (granted.fresh q hq).disjoint x ⟨earlier, arrived⟩

/-- An operation that gets no new region and leaves the two words alone. -/
theorem GrownInv.next (inv : GrownInv theheap s free) {h' : HeapState} {free' : List Extent}
    (blocks : BlocksInv theheap h' free')
    (inside : ∀ x, Covers free' x ∨ Covers h'.chunks x → Covers free x ∨ Covers s.chunks x)
    (same : heapBase theheap h'.mem = heapBase theheap s.mem ∧ heapLen theheap h'.mem = heapLen theheap s.mem) :
    GrownInv theheap ⟨h', s.regions⟩ free' := by
  have kept : span theheap h'.mem = span theheap s.mem := by rw [span, span, same.1, same.2]
  constructor
  case blocks => exact blocks
  case inside => exact fun x covered => inv.inside x (inside x covered)
  case spanned =>
    intro r member
    rw [kept]
    exact inv.spanned r member
  case top =>
    rw [kept]
    exact inv.top
  case empty =>
    intro zero
    rw [same.1] at zero
    rw [same.2]
    exact inv.empty zero

theorem span_kept {S : Nat → Prop} (room : theheap.toNat + 24 ≤ 2^32) (changes : Changes S m m')
    (off : ∀ x, theheap.toNat ≤ x → x < theheap.toNat + 8 → ¬ S x) :
    heapBase theheap m' = heapBase theheap m ∧ heapLen theheap m' = heapLen theheap m := by
  have address : (theheap + 4#32).toNat = theheap.toNat + 4 := toNat_theheap_add room (by decide)
  constructor
  · exact changes.load32 (by omega) fun i small => off _ (by omega) (by omega)
  · exact changes.load32 (by omega) fun i small => off _ (by omega) (by omega)

theorem Served.span {left right : List Extent} {e : Extent} {n : Nat} {ptr : Word}
    (chunks : PlacedFree theheap (left ++ e :: right)) (served : Served theheap m m' left e right n ptr) :
    heapBase theheap m' = heapBase theheap m ∧ heapLen theheap m' = heapLen theheap m := by
  apply span_kept chunks.room served.changes
  intro x lower upper foot
  rcases foot with cut | global
  · exact CutFoot.off_globals chunks.list (by omega) cut
  · omega

/-- The interval holds the old one and the region, when the region is not below the old one. -/
theorem stretch_holds {ptr size base len base' len' : Word} (above : base.toNat ≤ ptr.toNat) (some : ptr ≠ 0#32)
    (positive : 0 < size.toNat) (top : ptr.toNat + size.toNat < 2^32) (oldTop : base.toNat + len.toNat < 2^32)
    (empty : base = 0#32 → len = 0#32) (baseIs : base' = if ptr < base ∨ base = 0#32 then ptr else base)
    (lenIs : len' = if ptr + size > base' + len then ptr + size - base' else len) :
    base'.toNat + len'.toNat < 2^32 ∧ base' ≠ 0#32 ∧
      (base'.toNat ≤ ptr.toNat ∧ ptr.toNat + size.toNat ≤ base'.toNat + len'.toNat) ∧
      (base = 0#32 ∨ base' = base ∧ base.toNat + len.toNat ≤ base'.toNat + len'.toNat) := by
  have endptr : (ptr + size).toNat = ptr.toNat + size.toNat := by
    rw [BitVec.toNat_add]
    exact Nat.mod_eq_of_lt top
  have notBelow : ¬ ptr < base := by
    rw [BitVec.lt_def]
    omega
  simp only [notBelow, false_or] at baseIs
  by_cases zero : base = 0#32
  · rw [if_pos zero] at baseIs
    subst base'
    have longer : ptr + size > ptr + len := by
      rw [empty zero, BitVec.add_zero, gt_iff_lt, BitVec.lt_def, endptr]
      omega
    rw [if_pos longer] at lenIs
    have value : len'.toNat = size.toNat := by
      rw [lenIs, BitVec.toNat_sub, endptr]
      omega
    exact ⟨by omega, some, ⟨by omega, by omega⟩, .inl zero⟩
  · rw [if_neg zero] at baseIs
    subst base'
    have sum : (base + len).toNat = base.toNat + len.toNat := by
      rw [BitVec.toNat_add]
      exact Nat.mod_eq_of_lt oldTop
    have test : ptr + size > base + len ↔ base.toNat + len.toNat < ptr.toNat + size.toNat := by
      rw [gt_iff_lt, BitVec.lt_def, endptr, sum]
    by_cases longer : ptr + size > base + len
    · rw [if_pos longer] at lenIs
      have value : len'.toNat = ptr.toNat + size.toNat - base.toNat := by
        rw [lenIs, BitVec.toNat_sub, endptr]
        omega
      have order := test.mp longer
      exact ⟨by omega, zero, ⟨above, by omega⟩, .inr ⟨rfl, by omega⟩⟩
    · rw [if_neg longer] at lenIs
      subst len'
      exact ⟨oldTop, zero, ⟨above, Nat.not_lt.mp (mt test.mpr longer)⟩, .inr ⟨rfl, Nat.le_refl _⟩⟩

/-- An operation that gets the region `r`, at or above the old start. -/
theorem GrownInv.stretched (inv : GrownInv theheap s free) (granted : Granted theheap s.regions r)
    (above : (heapBase theheap s.mem).toNat ≤ r.start) (top : r.stop < 2^32)
    (oldTop : (span theheap s.mem).stop < 2^32) {h' : HeapState} {free' : List Extent} (blocks : BlocksInv theheap h' free')
    (inside : ∀ x, Covers free' x ∨ Covers h'.chunks x → r.Contains x ∨ Covers free x ∨ Covers s.chunks x)
    (stretched : Stretched theheap s.mem h'.mem (node r) (BitVec.ofNat 32 r.len)) :
    GrownInv theheap ⟨h', r :: s.regions⟩ free' := by
  have first := toNat_node granted.placed
  have word : (BitVec.ofNat 32 r.len).toNat = r.len := toNat_ofNat_word (by simp only [stop] at top; omega)
  have positive := granted.placed.len_positive
  obtain ⟨newTop, notZero, bounds, old⟩ := stretch_holds (by omega) (node_ne_zero granted.placed) (by omega)
    (by rw [first, word]; exact top) oldTop (fun zero => (inv.empty zero).2) stretched.base stretched.len
  rw [first, word] at bounds
  constructor
  case blocks => exact blocks
  case inside =>
    intro x covered
    rw [covers_cons]
    exact (inside x covered).imp_right (inv.inside x)
  case spanned =>
    intro q member
    rcases List.mem_cons.mp member with rfl | member
    · exact bounds
    · rcases old with zero | ⟨same, longer⟩
      · rw [(inv.empty zero).1] at member
        cases member
      · have before := inv.spanned q member
        simp only [span, Within, stop] at before ⊢
        rw [same] at longer ⊢
        omega
  case top => exact newTop.le
  case empty => exact fun zero => absurd zero notZero

/-! ### The operations -/

theorem BlocksInv.pass (inv : BlocksInv theheap h free) (valid : alignment = 0#32 ∨ alignment.toNat.isPowerOfTwo)
    (room : NonWrapping size alignment) :
    allocPass theheap h.mem (chunkSize size alignment) (clampAlignment alignment) =
        some (0#32, chunkSize size alignment, h.mem) ∨
      ∃ ptr len m' free', allocPass theheap h.mem (chunkSize size alignment) (clampAlignment alignment) =
          some (ptr, len, m') ∧ ptr ≠ 0#32 ∧ BlocksInv theheap ⟨m', ⟨ptr, size⟩ :: h.live⟩ free' ∧
        (∀ b ∈ h.live, recorded m' b.ptr = recorded h.mem b.ptr) ∧
        (∀ x, Covers free' x ∨ Covers (HeapState.chunks ⟨m', ⟨ptr, size⟩ :: h.live⟩) x →
          Covers free x ∨ Covers h.chunks x) ∧
        (heapBase theheap m' = heapBase theheap h.mem ∧ heapLen theheap m' = heapLen theheap h.mem) := by
  rcases first_fit free (need size.toNat alignment.toNat) with small | ⟨left, e, right, rfl, small, fits⟩
  · rw [← toNat_chunkSize size alignment room valid] at small
    exact .inl (allocPass_none inv.free_chunks inv.list _ small)
  · right
    obtain ⟨ptr, len, m', passed, served, -, lower, upper, -⟩ :=
      allocPass_served inv.free_chunks inv.list valid room small fits
    have least := twelve_le_need size.toNat alignment.toNat
    obtain ⟨-, records, chunks_eq, inv'⟩ := inv.served size least fits served lower upper
    refine ⟨ptr, len, m', _, passed, ?_, inv', records, ?_, ?_⟩
    · intro null
      rw [null, BitVec.toNat_ofNat] at lower
      omega
    · intro x covered
      rw [chunks_eq, covers_cons] at covered
      rw [covers_leftover (n := need size.toNat alignment.toNat)]
      tauto
    · exact served.span inv.free_chunks

/-- After a pass without success `heap_grow` decides whether there is another. -/
theorem miniheapAllocFrom_grow (pages : Word → Word) (valid : alignment = 0#32 ∨ alignment.toNat.isPowerOfTwo)
    (failed : allocPass theheap m (chunkSize size alignment) (clampAlignment alignment) =
      some (0#32, chunkSize size alignment, m)) :
    miniheapAllocFrom theheap pages m size alignment =
        (heapGrow theheap pages m (chunkSize size alignment)).bind (fun grown =>
          if 0 ≤ grown.1.toInt then
            (allocPass theheap grown.2 (chunkSize size alignment) (clampAlignment alignment)).bind fun passed =>
              some (passed.1, passed.2.2)
          else some (0#32, grown.2)) ∧
      pagesAsked theheap m size alignment = some (roundUp (chunkSize size alignment) pageSize / pageSize) := by
  have accepted : ¬ alignment &&& (alignment - 1#32) ≠ 0#32 := not_not.mpr ((power_test alignment).mpr valid)
  constructor
  · rw [miniheapAllocFrom, if_neg accepted, failed]
    rfl
  · rw [pagesAsked, if_neg accepted, failed]
    rfl

theorem miniheapAllocFrom_pass {ptr len : Word} (pages : Word → Word)
    (valid : alignment = 0#32 ∨ alignment.toNat.isPowerOfTwo)
    (fresh : ptr ≠ 0#32)
    (passed : allocPass theheap m (chunkSize size alignment) (clampAlignment alignment) = some (ptr, len, m')) :
    miniheapAllocFrom theheap pages m size alignment = some (ptr, m') ∧ arrival theheap m size alignment pages = none := by
  have accepted : ¬ alignment &&& (alignment - 1#32) ≠ 0#32 := not_not.mpr ((power_test alignment).mpr valid)
  constructor
  · rw [miniheapAllocFrom, if_neg accepted, passed]
    simp only [Option.bind_eq_bind, Option.bind_some, if_neg fresh]
    rfl
  · rw [arrival, pagesAsked, if_neg accepted, passed]
    simp [fresh]

theorem miniheapAllocFrom_invalid (theheap : Word) (m : Memory) (size : Word) (pages : Word → Word)
    (invalid : ¬ (alignment = 0#32 ∨ alignment.toNat.isPowerOfTwo)) :
    miniheapAllocFrom theheap pages m size alignment = some (0#32, m) ∧ arrival theheap m size alignment pages = none := by
  have refused : alignment &&& (alignment - 1#32) ≠ 0#32 := fun h => invalid ((power_test alignment).mp h)
  constructor
  · rw [miniheapAllocFrom, if_pos refused]
    rfl
  · rw [arrival, pagesAsked, if_pos refused]
    rfl

/-- The block a call hands out, if any, in front of the others. -/
def handed (p size : Word) (live : List Block) : List Block := if p = 0#32 then live else ⟨p, size⟩ :: live

/-- An allocation for which the heap grows by the region `r`, whether the second pass succeeds or not. -/
theorem BlocksInv.alloc_grown (inv : BlocksInv theheap h free) (valid : alignment = 0#32 ∨ alignment.toNat.isPowerOfTwo)
    (room : NonWrapping size alignment)
    (failed : allocPass theheap h.mem (chunkSize size alignment) (clampAlignment alignment) =
      some (0#32, chunkSize size alignment, h.mem))
    (placed : Placed theheap r) (offFree : ∀ e ∈ free, e.Apart r) (offLive : ∀ a ∈ h.chunks, r.Apart a)
    (at_ : pages (roundUp (chunkSize size alignment) pageSize / pageSize) = node r)
    (pageLen : roundUp (chunkSize size alignment) pageSize = BitVec.ofNat 32 r.len) :
    ∃ p m' free', miniheapAllocFrom theheap pages h.mem size alignment = some (p, m') ∧
      BlocksInv theheap ⟨m', handed p size h.live⟩ free' ∧
      (∀ b ∈ h.live, recorded m' b.ptr = recorded h.mem b.ptr) ∧
      (∀ x, Covers free' x ∨ Covers (HeapState.chunks ⟨m', handed p size h.live⟩) x →
        r.Contains x ∨ Covers free x ∨ Covers h.chunks x) ∧
      Stretched theheap h.mem m' (node r) (BitVec.ofNat 32 r.len) := by
  obtain ⟨m1, grown, inv1, records1, stretched⟩ := inv.grown placed offFree offLive at_ pageLen
  have inside1 (x : Nat) (covered : Covers (insertExtent free r) x ∨ Covers (HeapState.chunks ⟨m1, h.live⟩) x) :
      r.Contains x ∨ Covers free x ∨ Covers h.chunks x := by
    rw [covers_insertExtent, chunks_kept (m := h.mem) records1] at covered
    tauto
  rw [(miniheapAllocFrom_grow pages valid failed).1, grown, Option.bind_some]
  split
  · rcases inv1.pass valid room with failed' | ⟨ptr, len', m', free', passed, fresh, inv2, records2, inside2, same⟩
    · dsimp only at failed' ⊢
      exact ⟨0#32, m1, _, by rw [failed']; rfl, inv1, records1, inside1, stretched⟩
    · dsimp only at passed records2 same ⊢
      refine ⟨ptr, m', free', by rw [passed]; rfl, ?_, ?_, ?_, stretched.congr ⟨rfl, rfl⟩ same⟩
      · rw [handed, if_neg fresh]
        exact inv2
      · exact fun b hb => (records2 b hb).trans (records1 b hb)
      · rw [handed, if_neg fresh]
        exact fun x covered => inside1 x (inside2 x covered)
  · exact ⟨0#32, m1, _, rfl, inv1, records1, inside1, stretched⟩

theorem GrownInv.alloc (inv : GrownInv theheap s free) (room : NonWrapping size alignment)
    (granted : ∀ r, arrival theheap s.mem size alignment pages = some r → Granted theheap s.regions r)
    (upward : ∀ r, arrival theheap s.mem size alignment pages = some r →
      (heapBase theheap s.mem).toNat ≤ r.start ∧ r.stop < 2^32 ∧ (span theheap s.mem).stop < 2^32) :
    ∃ p m' free', miniheapAllocFrom theheap pages s.mem size alignment = some (p, m') ∧
      GrownInv theheap ⟨⟨m', handed p size s.live⟩,
        (arrival theheap s.mem size alignment pages).toList ++ s.regions⟩ free' := by
  by_cases valid : alignment = 0#32 ∨ alignment.toNat.isPowerOfTwo
  · rcases inv.blocks.pass valid room with failed | ⟨ptr, len, m', free', passed, fresh, blocks, -, inside, same⟩
    · obtain ⟨calls, asked⟩ := miniheapAllocFrom_grow pages valid failed
      generalize number : roundUp (chunkSize size alignment) pageSize / pageSize = n at asked
      by_cases null : pages n = 0#32
      · have nothing : arrival theheap s.mem size alignment pages = none := by
          rw [arrival, asked]
          simp [null]
        have refused : heapGrow theheap pages s.mem (chunkSize size alignment) = some (-1#32, s.mem) := by
          simp only [heapGrow, number, null, ite_true]
          rfl
        refine ⟨0#32, s.mem, free, ?_, ?_⟩
        · rw [calls, refused]
          rfl
        · rw [nothing]
          exact inv
      · have arrived : arrival theheap s.mem size alignment pages = some ⟨(pages n).toNat, n.toNat * 4096⟩ := by
          rw [arrival, asked]
          simp [null]
        have whole := toNat_pages (chunkSize size alignment)
        rw [number] at whole
        have legal := granted _ arrived
        obtain ⟨above, top, oldTop⟩ := upward _ arrived
        obtain ⟨p, m', free', served, blocks, -, inside, stretched⟩ := inv.blocks.alloc_grown valid room failed legal.placed
            (fun e he => inv.off_chunks legal (List.mem_append_left _ he))
            (fun a ha => (inv.off_chunks legal (List.mem_append_right _ ha)).symm)
            (by rw [number, node, ofNat_toNat_word]) (by rw [← whole, ofNat_toNat_word])
        refine ⟨p, m', free', served, ?_⟩
        rw [arrived]
        exact inv.stretched legal above top oldTop blocks inside stretched
    · obtain ⟨calls, nothing⟩ := miniheapAllocFrom_pass pages valid fresh passed
      refine ⟨ptr, m', free', calls, ?_⟩
      rw [nothing, handed, if_neg fresh]
      exact inv.next blocks inside same
  · obtain ⟨calls, nothing⟩ := miniheapAllocFrom_invalid theheap s.mem size pages valid
    refine ⟨0#32, s.mem, free, calls, ?_⟩
    rw [nothing]
    exact inv

theorem BlocksInv.release_null (inv : BlocksInv theheap h free) : h.release 0#32 = h.live := by
  apply List.eraseP_of_forall_not
  intro b hb
  simpa using inv.not_null hb

theorem GrownInv.step {op : GrowOp} (inv : GrownInv theheap s free) (allowed : s.Allowed theheap op)
    (upward : s.Upward theheap op) : ∃ s' free', s.step theheap op = some s' ∧ GrownInv theheap s' free' := by
  cases op with
  | alloc size alignment pages =>
    obtain ⟨p, m', free', calls, inv'⟩ := inv.alloc allowed.1 allowed.2 upward
    exact ⟨_, free', by simp only [GrownState.step, calls]; rfl, inv'⟩
  | free ptr =>
    rcases allowed with rfl | held
    · exact ⟨_, free, by simp [GrownState.step, miniheapFree, inv.blocks.release_null], inv⟩
    obtain ⟨left, b, right, split, rfl, rest⟩ := release_split held
    obtain ⟨m', released, freed⟩ := inv.blocks.freed split
    have all := inv.blocks.placed_cons (b := b) (by simp [split])
    refine ⟨⟨⟨m', left ++ right⟩, s.regions⟩, _, by simp [GrownState.step, released, rest],
      inv.next freed.blocks (fun x => (freed.cover x).mp) ?_⟩
    apply span_kept inv.blocks.room freed.changes
    intro x lower upper foot
    rcases foot with header | global
    · exact HeaderFoot.off_globals all (by omega) header
    · omega
  | write mem =>
    have writes : Changes (fun x => ∃ b ∈ s.live, b.Payload x) s.mem mem := allowed
    obtain ⟨kept, blocks⟩ := inv.blocks.write writes
    refine ⟨_, free, rfl, inv.next blocks ?_ ?_⟩
    · rw [chunks_kept (m := s.mem) kept]
      exact fun x covered => covered
    · apply span_kept inv.blocks.room writes
      rintro x lower upper ⟨b, hb, inside⟩
      have off := (inv.blocks.live b hb).chunk.off_theheap ((inv.blocks.live b hb).payload_inside inside)
      omega

/-! ### Runs -/

theorem Started.inv (room : theheap.toNat + 24 ≤ 2^32) (started : Started theheap s) : ∃ free, GrownInv theheap s free := by
  cases started with
  | region m m' r placed h =>
    obtain ⟨m'', initialised, blocks, base, len, -⟩ := miniheapInit_placed room placed m
    rw [initialised] at h
    cases h
    have word : (BitVec.ofNat 32 r.len).toNat = r.len := toNat_ofNat_word (by
      have ⟨_, positive, bound, _⟩ := placed
      simp only [stop] at bound
      omega)
    have whole : span theheap m' = r := by rw [span, base, len, toNat_node placed, word]
    refine ⟨[r], ?_⟩
    constructor
    case blocks => exact blocks
    case inside => simp [HeapState.chunks, Covers]
    case spanned =>
      intro q member
      rw [List.mem_singleton.mp member, whole]
      exact ⟨Nat.le_refl _, Nat.le_refl _⟩
    case top => rw [whole]; exact placed.bound
    case empty => exact fun zero => absurd (base.symm.trans zero) (node_ne_zero placed)
  | none m m' h =>
    obtain ⟨blocks, base, len, -⟩ := cleared_inv room m 0#32 0#32
    have same : m' = cleared theheap m 0#32 0#32 := (Option.some.inj h).symm
    subst m'
    refine ⟨[], ?_⟩
    constructor
    case blocks => exact blocks
    case inside => simp [HeapState.chunks, Covers]
    case spanned => simp
    case top =>
      rw [span, base, len]
      decide
    case empty => exact fun _ => ⟨rfl, len⟩

/-- As long as the regions arrive at or above `theheap.base`, base and length span every chunk. -/
theorem span_sound_of_upward (room : theheap.toNat + 24 ≤ 2^32) (started : Started theheap s) {ops : List GrowOp}
    (run : Run (fun s op s' => s.Calls theheap op s' ∧ s.Upward theheap op) s ops s') :
    SpanSound theheap s' ∧
      ∀ op, s'.Allowed theheap op → s'.Upward theheap op → ∃ s'', s'.step theheap op = some s'' := by
  have inv : ∃ free, GrownInv theheap s' free := by
    apply run.invariant (fun s => ∃ free, GrownInv theheap s free) (started.inv room)
    rintro s op s' - ⟨free, inv⟩ ⟨⟨allowed, stepped⟩, upward⟩
    obtain ⟨s'', free', stepped', inv'⟩ := inv.step allowed upward
    rw [stepped'] at stepped
    cases stepped
    exact ⟨free', inv'⟩
  obtain ⟨free, inv⟩ := inv
  refine ⟨inv.sound, fun op allowed upward => ?_⟩
  obtain ⟨s'', -, stepped, -⟩ := inv.step allowed upward
  exact ⟨s'', stepped⟩

theorem BlocksInv.arrival_eq (inv : BlocksInv theheap h free) (valid : alignment = 0#32 ∨ alignment.toNat.isPowerOfTwo)
    (room : NonWrapping size alignment) (small : ∀ e ∈ free, e.len < need size.toNat alignment.toNat)
    (given : pages (roundUp (chunkSize size alignment) pageSize / pageSize) ≠ 0#32) :
    arrival theheap h.mem size alignment pages =
      some ⟨(pages (roundUp (chunkSize size alignment) pageSize / pageSize)).toNat,
        (roundUp (chunkSize size alignment) pageSize / pageSize).toNat * 4096⟩ := by
  rw [← toNat_chunkSize size alignment room valid] at small
  have failed := allocPass_none inv.free_chunks inv.list (clampAlignment alignment) small
  obtain ⟨-, asked⟩ := miniheapAllocFrom_grow pages valid failed
  rw [arrival, asked]
  simp [given]

theorem region_example {start len : Nat} (h : start = 65536 ∧ len = 8192 ∨ start = 131072 ∧ len = 12288 ∨
    start = 16384 ∧ len = 12288) : Placed 4096#32 ⟨start, len⟩ := by
  constructor
  all_goals simp only [stop, BitVec.toNat_ofNat]
  all_goals omega

/-- Two pages at first, and three more above them. -/
theorem span_sound_twoRegions : ∃ s s', Started 4096#32 s ∧ s'.regions = [⟨131072, 12288⟩, ⟨65536, 8192⟩] ∧
    Run (fun s op s' => s.Calls 4096#32 op s' ∧ s.Upward 4096#32 op) s [.alloc 8192#32 0#32 fun _ => 131072#32] s' ∧
    SpanSound 4096#32 s' := by
  have room : (4096#32 : Word).toNat + 24 ≤ 2^32 := by decide
  have placed : Placed 4096#32 ⟨65536, 8192⟩ := region_example (by simp)
  obtain ⟨m, initialised, blocks, base, len, -⟩ := miniheapInit_placed room placed fun _ => 0#8
  have started : Started 4096#32 ⟨⟨m, []⟩, [⟨65536, 8192⟩]⟩ := .region _ m _ placed initialised
  have arrived : arrival 4096#32 m 8192#32 0#32 (fun _ => 131072#32) = some ⟨131072, 12288⟩ :=
    blocks.arrival_eq (.inl rfl) (by decide) (by simp [need, slack]) (by decide)
  have allowed : GrownState.Allowed 4096#32 ⟨⟨m, []⟩, [⟨65536, 8192⟩]⟩ (.alloc 8192#32 0#32 fun _ => 131072#32) := by
    refine ⟨by decide, fun r found => ?_⟩
    rw [arrived] at found
    cases found
    exact ⟨rfl, region_example (by simp), by simp [Apart, stop]⟩
  have upward : GrownState.Upward 4096#32 ⟨⟨m, []⟩, [⟨65536, 8192⟩]⟩ (.alloc 8192#32 0#32 fun _ => 131072#32) := by
    intro r found
    rw [arrived] at found
    cases found
    dsimp only
    rw [span, base, len]
    decide
  have inits : Run (fun s op s' => s.Calls 4096#32 op s' ∧ s.Upward 4096#32 op)
    (⟨⟨m, []⟩, [⟨65536, 8192⟩]⟩ : GrownState) [] ⟨⟨m, []⟩, [⟨65536, 8192⟩]⟩ := .nil _
  obtain ⟨s', stepped⟩ := (span_sound_of_upward room started inits).2 _ allowed upward
  have run := inits.snoc ⟨⟨allowed, stepped⟩, upward⟩
  refine ⟨_, s', started, ?_, run, (span_sound_of_upward room started run).1⟩
  simp only [GrownState.step, Option.bind_eq_bind, Option.bind_eq_some_iff] at stepped
  obtain ⟨_, -, same⟩ := stepped
  rw [← Option.some.inj same, arrived]
  rfl

/-! ### A region below the heap -/

theorem not_sound_of_live {b : Block} (live : b ∈ s.live)
    (outside : ¬ (recorded s.mem b.ptr).Within (span theheap s.mem)) : ¬ SpanSound theheap s := by
  rintro ⟨free, stats, -, -, reported, all⟩
  rw [miniheapGetStats_span reported] at all
  exact outside (all _ (List.mem_append_right _ (List.mem_map_of_mem live)))

/-- The start moves down to the region and the length does not grow by the distance: a live chunk behind is lost. -/
theorem BlocksInv.alloc_below (inv : BlocksInv theheap h free) (pages : Word → Word)
    (valid : alignment = 0#32 ∨ alignment.toNat.isPowerOfTwo) (room : NonWrapping size alignment) (small : ∀ e ∈ free, e.len < need size.toNat alignment.toNat)
    (placed : Placed theheap r) (offFree : ∀ e ∈ free, e.Apart r) (offLive : ∀ a ∈ h.chunks, r.Apart a)
    (at_ : pages (roundUp (chunkSize size alignment) pageSize / pageSize) = node r)
    (pageLen : roundUp (chunkSize size alignment) pageSize = BitVec.ofNat 32 r.len)
    (below : r.start < (heapBase theheap h.mem).toNat) {b : Block} (live : b ∈ h.live)
    (behind : r.start + max r.len (heapLen theheap h.mem).toNat < (recorded h.mem b.ptr).stop) :
    ∃ p m', miniheapAllocFrom theheap pages h.mem size alignment = some (p, m') ∧
      ∀ regions, ¬ SpanSound theheap ⟨⟨m', handed p size h.live⟩, regions⟩ := by
  rw [← toNat_chunkSize size alignment room valid] at small
  have failed := allocPass_none inv.free_chunks inv.list (clampAlignment alignment) small
  obtain ⟨p, m', free', served, -, records, -, baseIs, lenIs⟩ :=
    inv.alloc_grown valid room failed placed offFree offLive at_ pageLen
  refine ⟨p, m', served, fun regions => ?_⟩
  have moved : node r < heapBase theheap h.mem := by
    rw [BitVec.lt_def, toNat_node placed]
    exact below
  rw [if_pos (.inl moved)] at baseIs
  have short : (heapLen theheap m').toNat ≤ max r.len (heapLen theheap h.mem).toNat := by
    rw [lenIs]
    split
    · have distance : node r + BitVec.ofNat 32 r.len - heapBase theheap m' = BitVec.ofNat 32 r.len := by
        rw [baseIs, BitVec.add_comm, BitVec.add_sub_cancel]
      rw [distance, BitVec.toNat_ofNat]
      exact (Nat.mod_le _ _).trans (Nat.le_max_left _ _)
    · exact Nat.le_max_right _ _
  have member : b ∈ handed p size h.live := by
    rw [handed]
    split
    · exact live
    · exact List.mem_cons_of_mem _ live
  apply not_sound_of_live member
  rintro ⟨-, upper⟩
  dsimp only at upper
  rw [records b live, span, baseIs, toNat_node placed] at upper
  simp only [stop] at upper behind
  omega

/-- Two pages at first with a block at their start, then three pages below them: the block is outside. -/
theorem not_span_sound : ∃ s ops s', Started 4096#32 s ∧ Run (fun s op s' => s.Calls 4096#32 op s') s ops s' ∧
    ¬ SpanSound 4096#32 s' := by
  have room : (4096#32 : Word).toNat + 24 ≤ 2^32 := by decide
  have placed : Placed 4096#32 ⟨65536, 8192⟩ := region_example (by simp)
  obtain ⟨m, initialised, blocks, base, len, -⟩ := miniheapInit_placed room placed fun _ => 0#8
  have started : Started 4096#32 ⟨⟨m, []⟩, [⟨65536, 8192⟩]⟩ := .region _ m _ placed initialised
  -- the block
  have valid : (0#32 : Word) = 0#32 ∨ (0#32 : Word).toNat.isPowerOfTwo := .inl rfl
  have needed : need (4#32 : Word).toNat (0#32 : Word).toNat = 12 := by decide
  obtain ⟨ptr, size, m1, passed, served, -, lower, upper, -⟩ := @allocPass_served _ _ [] [] _ blocks.free_chunks
    blocks.list 4#32 0#32 valid (by decide) (by simp) (by decide)
  rw [needed] at served upper
  obtain ⟨record, -, -, blocks1⟩ := @BlocksInv.served _ _ _ [] [] _ 12 ptr 4#32 blocks (Nat.le_refl 12) (by decide)
    served lower upper
  have fresh : ptr ≠ 0#32 := by
    intro null
    rw [null, BitVec.toNat_ofNat] at lower
    omega
  obtain ⟨calls, nothing⟩ := miniheapAllocFrom_pass (fun _ => 0#32) valid fresh passed
  obtain ⟨base1, len1⟩ := served.span blocks.free_chunks
  rw [base] at base1
  rw [len] at len1
  have first : GrownState.Calls 4096#32 ⟨⟨m, []⟩, [⟨65536, 8192⟩]⟩ (.alloc 4#32 0#32 fun _ => 0#32)
      ⟨⟨m1, [⟨ptr, 4#32⟩]⟩, [⟨65536, 8192⟩]⟩ := by
    refine ⟨⟨by decide, fun r found => ?_⟩, ?_⟩
    · rw [nothing] at found
      cases found
    · simp [GrownState.step, calls, nothing, fresh]
  -- the region below
  have given : (16384#32 : Word) ≠ 0#32 := by decide
  have small : ∀ e ∈ [] ++ leftover ⟨65536, 8192⟩ 12 ++ [], e.len < need (8192#32 : Word).toNat (0#32 : Word).toNat := by
    decide
  have arrived : arrival 4096#32 m1 8192#32 0#32 (fun _ => 16384#32) = some ⟨16384, 12288⟩ :=
    blocks1.arrival_eq valid (by decide) small given
  have apart : Apart ⟨65536, 8192⟩ ⟨16384, 12288⟩ := by simp [Apart, stop]
  have legal : Granted 4096#32 [⟨65536, 8192⟩] ⟨16384, 12288⟩ := ⟨rfl, region_example (by simp), by simpa using apart⟩
  have offFree : ∀ e ∈ [] ++ leftover ⟨65536, 8192⟩ 12 ++ [], e.Apart ⟨16384, 12288⟩ := by
    simp [leftover, Apart, stop]
  have offLive : ∀ a ∈ HeapState.chunks ⟨m1, [⟨ptr, 4#32⟩]⟩, Apart ⟨16384, 12288⟩ a := by
    simp [HeapState.chunks, record, carved, Apart, stop]
  obtain ⟨p, m2, calls2, lost⟩ := blocks1.alloc_below (fun _ => 16384#32) valid (by decide) small legal.placed
    offFree offLive rfl rfl (by rw [base1]; decide) List.mem_cons_self (by rw [len1, record]; decide)
  have second : GrownState.Calls 4096#32 ⟨⟨m1, [⟨ptr, 4#32⟩]⟩, [⟨65536, 8192⟩]⟩ (.alloc 8192#32 0#32 fun _ => 16384#32)
      ⟨⟨m2, handed p 8192#32 [⟨ptr, 4#32⟩]⟩, [⟨16384, 12288⟩, ⟨65536, 8192⟩]⟩ := by
    refine ⟨⟨by decide, fun r found => ?_⟩, ?_⟩
    · rw [arrived] at found
      cases found
      exact legal
    · simp only [GrownState.step, calls2, arrived]
      rfl
  exact ⟨_, _, _, started, ((Run.nil _).snoc first).snoc second, lost _⟩

end

end ThreeX86.Heap
