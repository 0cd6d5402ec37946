import ThreeX86.Heap.Runs

namespace ThreeX86.Heap

open Machine Machine.Memory ThreeX86.Lists Linked Extents Extent

/-! What the clients of the heap can rely on in every run. -/

/-- The free list and the live chunks divide the region between them. -/
structure Represents (theheap : Word) (region : Extent) (s : HeapState) (free : List Extent) : Prop where
  list : FreeListAt theheap s.mem free
  ascending : free.Pairwise fun a b => a.stop < b.start
  disjoint : (free ++ s.chunks).Pairwise Apart
  cover : ∀ x, region.Contains x ↔ Covers (free ++ s.chunks) x
  gaps : ∀ e, e ∈ free ↔ MaximalGap (fun x => region.Contains x ∧ ¬ Covers s.chunks x) e
  lengths : ∀ e ∈ free ++ s.chunks, e.len % 4 = 0 ∧ 12 ≤ e.len
  remaining : (remaining theheap s.mem).toNat = total free

section

variable {theheap : Word} {region : Extent} {free : List Extent} {s : HeapState} {m : Memory}

theorem HeapInv.represents (layout : Layout theheap region) (inv : HeapInv theheap region s free) :
    Represents theheap region s free := by
  have chunks := inv.free_chunks
  constructor
  case list => exact inv.list
  case ascending => exact inv.partition.gapped
  case disjoint =>
    rw [List.pairwise_append]
    exact ⟨chunks.list.ordered.imp fun order => .inl order, inv.partition.apart, inv.partition.across⟩
  case cover =>
    intro x
    rw [inv.partition.cover, covers_append]
  case gaps => exact inv.partition.mem_iff_gap chunks.positive
  case lengths =>
    intro e member
    rcases List.mem_append.mp member with member | member
    · exact ⟨(inv.chunk e member).len_aligned, (inv.chunk e member).large⟩
    · exact ⟨(inv.live_chunk e member).len_aligned, (inv.live_chunk e member).large⟩
  case remaining => rw [inv.remaining, toNat_ofNat_word (chunks.placed layout).total_lt]

/-- `miniheap_init` succeeds, every call a client may make returns, and after each of them the free
    list and the live chunks divide the region. -/
theorem heap_representation (layout : Layout theheap region) :
    (∀ m, ∃ m', miniheapInit theheap m (BitVec.ofNat 32 region.start) (BitVec.ofNat 32 region.len) = some m') ∧
      ∀ s, Reachable theheap region s →
        (∃ free, Represents theheap region s free) ∧ ∀ op, s.Allowed op → ∃ s', s.step theheap op = some s' := by
  constructor
  · intro m
    obtain ⟨m', initialised, -⟩ := miniheapInit_spec layout m
    exact ⟨m', initialised⟩
  · intro s reachable
    obtain ⟨free, inv⟩ := reachable.inv layout
    refine ⟨⟨free, inv.represents layout⟩, fun op allowed => ?_⟩
    obtain ⟨s', -, stepped, -⟩ := inv.step layout allowed
    exact ⟨s', stepped⟩

theorem layout_example : Layout 4096#32 ⟨8192, 16384⟩ := by
  constructor
  all_goals decide

/-- Two requests, the first of them given back: a free chunk on either side of the block that is left. -/
theorem two_holes : ∃ s q, Reachable 4096#32 ⟨8192, 16384⟩ s ∧ s.live = [⟨q, 4#32⟩] ∧
    HeapInv 4096#32 ⟨8192, 16384⟩ s [⟨8192, 140⟩, ⟨8344, 16232⟩] := by
  obtain ⟨m, initialised, inv, -⟩ := miniheapInit_spec layout_example fun _ => 0#8
  have whole : HeapInv 4096#32 ⟨8192, 16384⟩ ⟨m, []⟩ ([] ++ ⟨8192, 16384⟩ :: []) := inv
  obtain ⟨p, s1, reachable1, live1, record1, -, inv1⟩ := (Reachable.init initialised).served layout_example whole
    (show (32#32 : Word) = 0#32 ∨ (32#32 : Word).toNat.isPowerOfTwo from .inr ⟨5, rfl⟩)
    (show NonWrapping 100#32 32#32 by decide) (by simp) (by decide)
  have rest : HeapInv 4096#32 ⟨8192, 16384⟩ s1 ([] ++ ⟨8332, 16244⟩ :: []) := inv1
  obtain ⟨q, s2, reachable2, live2, record2, kept, inv2⟩ :=
    reachable1.served layout_example rest (.inl rfl) (show NonWrapping 4#32 0#32 by decide) (by simp) (by decide)
  have first : recorded s2.mem p = ⟨8192, 140⟩ := (kept ⟨p, 100#32⟩ (by simp [live1])).trans record1
  have second : recorded s2.mem q = ⟨8332, 12⟩ := record2
  have unlike : q ≠ p := by
    intro same
    rw [same, first] at second
    cases second
  have split : s2.live = [⟨q, 4#32⟩] ++ ⟨p, 100#32⟩ :: [] := by rw [live2, live1]; rfl
  obtain ⟨s3, reachable3, live3, inv3⟩ := reachable2.freed layout_example inv2 split (by simpa using unlike)
  rw [first] at inv3
  exact ⟨s3, q, reachable3, live3, inv3⟩

theorem heap_representation_twoHoles : ∃ s q, Reachable 4096#32 ⟨8192, 16384⟩ s ∧ s.live = [⟨q, 4#32⟩] ∧
    ∃ free, Represents 4096#32 ⟨8192, 16384⟩ s free := by
  obtain ⟨s, q, reachable, live, -⟩ := two_holes
  exact ⟨s, q, reachable, live, ((heap_representation layout_example).2 s reachable).1⟩

/-! ### `miniheap_get_stats` -/

def largest (extents : List Extent) : Nat := extents.foldr (fun e most => max e.len most) 0

theorem largest_lt {n : Nat} (positive : 0 < n) : largest free < n ↔ ∀ e ∈ free, e.len < n := by
  induction free with
  | nil => simpa [largest] using positive
  | cons e free ih =>
    have split : largest (e :: free) = max e.len (largest free) := rfl
    rw [split, List.forall_mem_cons, ← ih]
    omega

theorem statsFold (lens : ∀ e ∈ free, chunkLen m (node e) = BitVec.ofNat 32 e.len)
    (short : ∀ e ∈ free, e.len < 2^32) (sum : Word) (most : Nat) (bound : most < 2^32) :
    (free.map node).foldl (fun (acc : Word × Word) chunk =>
        (acc.1 + chunkLen m chunk, if chunkLen m chunk > acc.2 then chunkLen m chunk else acc.2))
        (sum, BitVec.ofNat 32 most) =
      (sum + BitVec.ofNat 32 (total free), BitVec.ofNat 32 (max most (largest free))) := by
  induction free generalizing sum most with
  | nil => simp [largest]
  | cons e free ih =>
    have headLen := short e List.mem_cons_self
    have step : (if chunkLen m (node e) > BitVec.ofNat 32 most then chunkLen m (node e) else BitVec.ofNat 32 most) =
        BitVec.ofNat 32 (max most e.len) := by
      have greater : BitVec.ofNat 32 e.len > BitVec.ofNat 32 most ↔ most < e.len := by
        rw [gt_iff_lt, BitVec.lt_def, toNat_ofNat_word bound, toNat_ofNat_word headLen]
      simp only [lens e List.mem_cons_self, greater]
      split
      · rw [Nat.max_eq_right (by omega)]
      · rw [Nat.max_eq_left (by omega)]
    have split : largest (e :: free) = max e.len (largest free) := rfl
    rw [List.map_cons, List.foldl_cons]
    simp only [step]
    rw [ih (fun a ha => lens a (List.mem_cons_of_mem _ ha)) (fun a ha => short a (List.mem_cons_of_mem _ ha)) _ _
      (by omega), lens e List.mem_cons_self, split, total_cons, BitVec.ofNat_add, BitVec.add_assoc, Nat.max_assoc]

theorem miniheapGetStats_spec (chunks : PlacedFree theheap free)
    (at_ : FreeListAt theheap m free) : ∃ stats, miniheapGetStats theheap m = some stats ∧
      stats.heapFree.toNat = total free ∧ stats.heapMaxChunk.toNat = largest free := by
  have ring : Ring m (freeList theheap) ([] ++ free.map node) := at_.ring
  have enough : (free.map node).length < entryLimit := by
    rw [List.length_map]
    exact chunks.length_lt
  have short : ∀ e ∈ free, e.len < 2^32 := fun e member => by
    have ⟨_, positive, bound, _⟩ := chunks.chunk e member
    simp only [stop] at bound
    omega
  have walk := ring_fold ring (fun (acc : Word × Word) chunk =>
    (acc.1 + chunkLen m chunk, if chunkLen m chunk > acc.2 then chunkLen m chunk else acc.2)) entryLimit enough
    (0#32, BitVec.ofNat 32 0)
  rw [statsFold at_.lens short 0#32 0 (by decide), ← ring_next_head at_.ring] at walk
  have most : largest free < 2^32 := (largest_lt (by decide)).mpr short
  refine ⟨_, by simp only [miniheapGetStats]; rw [walk]; rfl, ?_, ?_⟩
  · rw [BitVec.zero_add, toNat_ofNat_word chunks.total_lt]
  · rw [Nat.zero_max, toNat_ofNat_word most]

/-! ### `miniheap_alloc` -/

/-- The bytes the allocator keeps its books in: `theheap`, the free chunks' headers and the
    `alloc_struct_begin` below each live pointer. -/
def Metadata (theheap : Word) (free : List Extent) (live : List Block) (x : Nat) : Prop :=
  (theheap.toNat ≤ x ∧ x < theheap.toNat + 24) ∨ (∃ e ∈ free, e.start ≤ x ∧ x < e.start + 12) ∨
    ∃ b ∈ live, b.ptr.toNat ≤ x + 8 ∧ x < b.ptr.toNat

theorem HeapInv.payload_off_metadata (layout : Layout theheap region) (inv : HeapInv theheap region s free) {x : Nat}
    (books : Metadata theheap free s.live x) {b : Block} (member : b ∈ s.live) : ¬ b.Payload x := by
  intro inside
  have block := inv.live b member
  have contains := block.payload_inside inside
  rcases books with global | ⟨e, he, header⟩ | ⟨a, ha, header⟩
  · have off := (layout.placed block.chunk).off_theheap contains
    omega
  · have large := (inv.chunk e he).large
    refine (inv.partition.across e he _ (List.mem_map_of_mem member)).disjoint x ⟨?_, contains⟩
    simp only [Contains, stop]
    omega
  · have lower := (inv.live a ha).lower
    exact (inv.blocks layout).payload_off_header ha member (by omega) header.2 inside

/-- Where an allocation of `size` bytes at `p` came from and what it kept; `free` and `free'` are what is not live
    of the region, before and after. -/
structure Sound (theheap : Word) (region : Extent) (s : HeapState) (m' : Memory) (size alignment p : Word)
    (free free' : List Extent) (e : Extent) : Prop where
  before : Represents theheap region s free
  after : Represents theheap region ⟨m', ⟨p, size⟩ :: s.live⟩ free'
  aligned : if alignment = 0#32 then 4 ∣ p.toNat else max alignment.toNat 16 ∣ p.toNat
  member : e ∈ free
  fits : need size.toNat alignment.toNat ≤ e.len
  first : ∀ a ∈ free, need size.toNat alignment.toNat ≤ a.len → e.start ≤ a.start
  chunk : (recorded m' p).Within e
  header : (recorded m' p).start + 8 ≤ p.toNat
  payload : p.toNat + size.toNat ≤ (recorded m' p).stop
  live : ∀ b ∈ s.live, recorded m' b.ptr = recorded s.mem b.ptr ∧ (recorded m' p).Apart (recorded m' b.ptr)
  free_apart : ∀ r ∈ free', r.Apart (recorded m' p)
  untouched : ∀ b ∈ s.live, ∀ x : Word, (recorded s.mem b.ptr).Contains x.toNat → m' x = s.mem x
  metadata : ∀ m'', Changes (fun x => ∃ b ∈ (⟨p, size⟩ : Block) :: s.live, b.Payload x) m' m'' →
    ∀ x : Word, Metadata theheap free' (⟨p, size⟩ :: s.live) x.toNat → m'' x = m' x

theorem HeapInv.sound (layout : Layout theheap region) {left right : List Extent} {e : Extent}
    {size alignment : Word} (inv : HeapInv theheap region s (left ++ e :: right))
    (valid : alignment = 0#32 ∨ alignment.toNat.isPowerOfTwo) (room : NonWrapping size alignment)
    (small : ∀ r ∈ left, r.len < need size.toNat alignment.toNat) (fits : need size.toNat alignment.toNat ≤ e.len) :
    ∃ p m' free', miniheapAlloc theheap s.mem size alignment = some (p, m') ∧ p ≠ 0#32 ∧
      Sound theheap region s m' size alignment p (left ++ e :: right) free' e := by
  obtain ⟨p, m', allocated, served, -, lower, upper, four, multiple⟩ :=
    miniheapAlloc_first (inv.free_chunks.placed layout) inv.list valid room small fits
  have least := twelve_le_need size.toNat alignment.toNat
  obtain ⟨record, kept, inv'⟩ := inv.served layout size (need_four valid) least fits served lower upper
  have start := carved_start e (need size.toNat alignment.toNat)
  have bounds := carved_bounds fits
  have member : e ∈ left ++ e :: right := by simp
  have apart' := List.pairwise_cons.mp inv'.partition.apart
  refine ⟨p, m', left ++ leftover e (need size.toNat alignment.toNat) ++ right, allocated, ?_, ?_⟩
  · intro null
    rw [null, BitVec.toNat_ofNat] at lower
    omega
  · constructor
    case before => exact inv.represents layout
    case after => exact inv'.represents layout
    case aligned =>
      split
      · exact Nat.dvd_of_mod_eq_zero (four (inv.chunk e member).start_aligned)
      · exact multiple ‹_›
    case member => exact member
    case fits => exact fits
    case first =>
      intro a ha enough
      rcases List.mem_append.mp ha with ha | ha
      · have short := small a ha
        omega
      · rcases List.mem_cons.mp ha with rfl | ha
        · exact Nat.le_refl _
        · have order := (gapped_middle.mp inv.partition.gapped).2.2 a ha
          simp only [stop] at order
          omega
    case chunk =>
      rw [record]
      simp only [Within, stop]
      omega
    case header => rw [record]; omega
    case payload => rw [record]; simp only [stop]; omega
    case live =>
      intro b hb
      refine ⟨kept b hb, ?_⟩
      exact apart'.1 (recorded m' b.ptr) (List.mem_map_of_mem hb)
    case free_apart =>
      intro r hr
      exact inv'.partition.across r hr _ List.mem_cons_self
    case untouched =>
      intro b hb x inside
      exact (inv.blocks layout).served_untouched served hb inside
    case metadata =>
      intro m'' writes x books
      apply writes
      intro written
      obtain ⟨b, hb, inside⟩ := written
      exact inv'.payload_off_metadata layout books hb inside

/-- `miniheap_alloc` fails exactly when it must, then without a trace, and otherwise hands out a
    block inside the first free chunk that fits. -/
theorem alloc_sound_complete (layout : Layout theheap region) (reachable : Reachable theheap region s)
    {size alignment : Word} (room : NonWrapping size alignment) :
    ∃ stats p m', miniheapGetStats theheap s.mem = some stats ∧
      miniheapAlloc theheap s.mem size alignment = some (p, m') ∧
      (p = 0#32 ↔ ¬ (alignment = 0#32 ∨ alignment.toNat.isPowerOfTwo) ∨
        stats.heapMaxChunk.toNat < need size.toNat alignment.toNat) ∧
      (p = 0#32 → m' = s.mem) ∧
      (p ≠ 0#32 → ∃ free free' e, Sound theheap region s m' size alignment p free free' e) := by
  obtain ⟨free, inv⟩ := reachable.inv layout
  obtain ⟨stats, reported, -, most⟩ := miniheapGetStats_spec (inv.free_chunks.placed layout) inv.list
  have least := twelve_le_need size.toNat alignment.toNat
  have exhausted : stats.heapMaxChunk.toNat < need size.toNat alignment.toNat ↔
      ∀ e ∈ free, e.len < need size.toNat alignment.toNat := by
    rw [most]
    exact largest_lt (by omega)
  by_cases valid : alignment = 0#32 ∨ alignment.toNat.isPowerOfTwo
  · rcases first_fit free (need size.toNat alignment.toNat) with small | ⟨left, e, right, rfl, small, fits⟩
    · have failed := miniheapAlloc_none (inv.free_chunks.placed layout) inv.list valid room small
      refine ⟨stats, 0#32, s.mem, reported, failed, ?_, fun _ => rfl, fun h => absurd rfl h⟩
      simp only [true_iff]
      exact .inr (exhausted.mpr small)
    · obtain ⟨p, m', free', allocated, fresh, sound⟩ := inv.sound layout valid room small fits
      refine ⟨stats, p, m', reported, allocated, ?_, fun null => absurd null fresh, fun _ => ⟨_, free', e, sound⟩⟩
      have available : ¬ stats.heapMaxChunk.toNat < need size.toNat alignment.toNat := by
        rw [exhausted]
        intro all
        have short := all e (by simp)
        omega
      simp only [fresh, valid, not_true_eq_false, available, or_self]
  · have failed : miniheapAlloc theheap s.mem size alignment = _ := miniheapAlloc_invalid s.mem valid
    refine ⟨stats, 0#32, s.mem, reported, failed, ?_, fun _ => rfl, fun h => absurd rfl h⟩
    simp only [valid, not_false_eq_true, true_or]

/-- The lower hole is too short for the request, and the upper one serves it. -/
theorem alloc_sound_complete_twoHoles : ∃ s p m' free free' e, Reachable 4096#32 ⟨8192, 16384⟩ s ∧
    miniheapAlloc 4096#32 s.mem 200#32 16#32 = some (p, m') ∧ p ≠ 0#32 ∧
    Sound 4096#32 ⟨8192, 16384⟩ s m' 200#32 16#32 p free free' e := by
  obtain ⟨s, q, reachable, -, inv⟩ := two_holes
  obtain ⟨stats, p, m', reported, allocated, fails, -, sound⟩ :=
    alloc_sound_complete layout_example reachable (show NonWrapping 200#32 16#32 by decide)
  obtain ⟨stats', reported', -, most⟩ := miniheapGetStats_spec (inv.free_chunks.placed layout_example) inv.list
  cases reported.symm.trans reported'
  have served : p ≠ 0#32 := by
    rw [ne_eq, fails, not_or, not_not, most]
    exact ⟨.inr ⟨4, rfl⟩, by decide⟩
  obtain ⟨free, free', e, holds⟩ := sound served
  exact ⟨s, p, m', free, free', e, reachable, allocated, served, holds⟩

end

end ThreeX86.Heap
