import ThreeX86.Heap.Trim

/-!
The heap between its clients and the page allocator: what `miniheap_trim` writes to, and how the region is
divided once pages have gone back.
-/

namespace ThreeX86.Heap

open Machine Machine.Memory ThreeX86.Lists Linked Extents Extent

/-- The range of a call of `page_free`. -/
def PageFree.range (call : PageFree) : Extent := ⟨call.ptr.toNat, call.pages.toNat * 4096⟩

/-- What `miniheap_trim` may write to: `theheap` and the free chunks. -/
def TrimFoot (theheap : Word) (free : List Extent) (x : Nat) : Prop :=
  (theheap.toNat ≤ x ∧ x < theheap.toNat + 24) ∨ Covers free x

section

variable {theheap : Word} {region e r : Extent} {left right free gone : List Extent} {m m' : Memory}

/-! ### The two parts of a chunk -/

theorem covers_kept (large : 12 ≤ e.len) (x : Nat) : e.Contains x ↔ Covers (kept e) x ∨ Covers (trimmed e).toList x := by
  have length : e.stop = e.start + e.len := rfl
  unfold kept
  cases range : trimmed e with
  | none => simp [Covers]
  | some r =>
    obtain ⟨⟨lower, upper⟩, positive, -, -, -, -⟩ := trimmed_trimmable large range
    have lengthR : r.stop = r.start + r.len := rfl
    simp only [aside, covers_append, Option.toList, covers_cons, covers_nil, or_false]
    split
    · split
      · simp only [covers_cons, covers_nil, or_false, Contains, stop]
        omega
      · simp only [covers_cons, covers_nil, or_false, Contains, stop]
        omega
    · split
      · simp only [covers_cons, covers_nil, or_false, false_or, Contains, stop]
        omega
      · simp only [covers_nil, or_false, false_or, Contains, stop]
        omega

theorem kept_off_trimmed (large : 12 ≤ e.len) {x : Nat} (covered : Covers (kept e) x) : ¬ Covers (trimmed e).toList x := by
  unfold kept at covered
  cases range : trimmed e with
  | none => simp [Covers]
  | some r =>
    obtain ⟨⟨lower, upper⟩, positive, -, -, -, -⟩ := trimmed_trimmable large range
    rw [range] at covered
    simp only [aside, covers_append] at covered
    simp only [Option.toList, covers_cons, covers_nil, or_false]
    rcases covered with before | behind
    · split at before
      · simp only [covers_cons, covers_nil, or_false, Contains, stop] at *
        omega
      · exact absurd before (covers_nil x)
    · split at behind
      · simp only [covers_cons, covers_nil, or_false, Contains, stop] at *
        omega
      · exact absurd behind (covers_nil x)

theorem covers_kept_all (large : ∀ e ∈ free, 12 ≤ e.len) (x : Nat) :
    Covers free x ↔ Covers (free.flatMap kept) x ∨ Covers (free.filterMap trimmed) x := by
  induction free with
  | nil => simp [Covers]
  | cons e free ih =>
    have here := covers_kept (large e List.mem_cons_self) x
    have rest := ih fun c member => large c (List.mem_cons_of_mem _ member)
    rw [List.flatMap_cons, covers_cons, covers_append]
    cases range : trimmed e with
    | none =>
      rw [range] at here
      rw [List.filterMap_cons_none range]
      simp only [Option.toList, covers_nil, or_false] at here
      tauto
    | some r =>
      rw [range] at here
      rw [List.filterMap_cons_some range, covers_cons]
      simp only [Option.toList, covers_cons, covers_nil, or_false] at here
      tauto

theorem trimmed_within (large : 12 ≤ e.len) (range : trimmed e = some r) : r.Within e :=
  (trimmed_trimmable large range).within

theorem kept_off_trimmed_all (large : ∀ e ∈ free, 12 ≤ e.len) (gapped : Gapped free) {x : Nat}
    (covered : Covers (free.flatMap kept) x) : ¬ Covers (free.filterMap trimmed) x := by
  rintro ⟨r, member, inside⟩
  obtain ⟨b, hb, range⟩ := List.mem_filterMap.mp member
  obtain ⟨c, piece, contains⟩ := covered
  obtain ⟨a, ha, piece⟩ := List.mem_flatMap.mp piece
  have inB : b.Contains x := (covers_kept (large b hb) x).mpr (.inr ⟨r, by rw [range]; simp, inside⟩)
  have inA : a.Contains x := (covers_kept (large a ha) x).mpr (.inl ⟨c, piece, contains⟩)
  by_cases same : a = b
  · subst same
    exact kept_off_trimmed (large a ha) ⟨c, piece, contains⟩ ⟨r, by rw [range]; simp, inside⟩
  · have ordered : free.Pairwise Apart := gapped.imp fun order => .inl (Nat.le_of_lt order)
    have symmetric : Std.Symm Apart := ⟨fun _ _ => Apart.symm⟩
    exact (ordered.forall ha hb same).disjoint x ⟨inA, inB⟩

/-- The ranges given back are apart, and each is made of whole pages. -/
theorem trimmed_apart (large : ∀ e ∈ free, 12 ≤ e.len) (gapped : Gapped free) : (free.filterMap trimmed).Pairwise Apart := by
  rw [List.pairwise_filterMap]
  refine gapped.imp_of_mem fun {a b} ha hb order p first q second => .inl ?_
  obtain ⟨-, upper⟩ := trimmed_within (large a ha) first
  obtain ⟨lower, -⟩ := trimmed_within (large b hb) second
  omega

theorem range_pageFree (large : 12 ≤ e.len) (bound : e.stop < 2^32) (range : trimmed e = some r) :
    (pageFree r).range = r := by
  obtain ⟨⟨lower, upper⟩, positive, startPage, stopPage, -, -⟩ := trimmed_trimmable large range
  have lengthR : r.stop = r.start + r.len := rfl
  rw [pageFree, PageFree.range, node, toNat_ofNat_word (by omega), toNat_ofNat_word (by omega),
    Nat.div_mul_cancel (Nat.dvd_of_mod_eq_zero (by omega))]

/-! ### The bytes `miniheap_trim` writes to -/

theorem trimOutcome_changes (list : AlignedList theheap (left ++ e :: right))
    (at_ : FreeListAt theheap m (left ++ e :: right)) (bound : e.stop < 2^32) :
    Changes (TrimFoot theheap (left ++ e :: right)) m (trimOutcome theheap m e (trimmed e)).2 := by
  cases range : trimmed e with
  | none => exact Changes.refl _ m
  | some r =>
    have room := list.room
    have address : (theheap + 8#32).toNat = theheap.toNat + 8 := toNat_theheap_add room (by decide)
    have edited := (trimEdit_spec list at_ bound (trimmed_trimmable (list.chunk e (by simp)).large range)).2
    have counted := changes_store32 (trimEdit m e r) (theheap + 8#32)
      (remaining theheap (trimEdit m e r) - (BitVec.ofNat 32 r.stop - node r)) (by omega)
    refine (edited.mono fun x foot => ?_).trans (counted.mono fun x inside => .inl (by omega))
    rcases foot with (head | ⟨c, member, lower, upper⟩) | inside
    · exact .inl (by omega)
    · have large := (list.chunk c (by
        simp only [List.mem_append, List.mem_cons] at member ⊢
        tauto)).large
      refine .inr ⟨c, ?_, lower, ?_⟩
      · simp only [List.mem_append, List.mem_cons] at member ⊢
        tauto
      · simp only [stop]
        omega
    · exact .inr ⟨e, by simp, inside⟩

theorem miniheapTrim_changes (chunks : AlignedFree theheap free)
    (at_ : FreeListAt theheap m free) (ends : ∀ e ∈ free, e.stop + 8192 < 2^32) {calls : List PageFree}
    (run : miniheapTrim theheap m = some (m', calls)) : Changes (TrimFoot theheap free) m m' := by
  have large : ∀ e ∈ free, 12 ≤ e.len := fun e member => (chunks.chunk e member).large
  have start : Trimming theheap free m free m [] [] := ⟨rfl, chunks, at_, rfl, by simp [total]⟩
  have walk : ∃ m' calls, miniheapTrim theheap m = some (m', calls) ∧ Changes (TrimFoot theheap free) m m' ∧
      ∃ seen, Trimming theheap free m [] m' calls seen := by
    rw [miniheapTrim, ring_next_head at_.ring]
    refine ring_safe (freeList theheap) _ node
      (fun todo m' calls => Changes (TrimFoot theheap free) m m' ∧ ∃ seen, Trimming theheap free m todo m' calls seen)
      ?_ ?_ free m [] entryLimit ⟨Changes.refl _ m, [], start⟩ chunks.length_lt
    · rintro todo m' calls ⟨-, seen, trimming⟩
      exact ⟨(seen.flatMap kept).map node, by simpa using trimming.list.ring⟩
    · rintro e todo m1 calls ⟨changes, seen, trimming⟩
      have last := ends e (by rw [trimming.split]; simp)
      obtain ⟨call, m2, ran, after⟩ := trimming.step last
      refine ⟨m2, _, by rw [ran]; rfl, changes.trans ?_, _, after⟩
      have outcome := trimOutcome_changes trimming.chunks.list trimming.list (by omega)
      rw [trimChunk_spec trimming.chunks.list trimming.list last] at ran
      have same := congrArg Prod.snd (Option.some.inj ran)
      dsimp only at same
      rw [← same]
      refine outcome.mono fun x foot => foot.imp_right fun covered => ?_
      rw [trimming.split, covers_append]
      rw [covers_append] at covered
      refine covered.imp_left fun covered => ?_
      exact (covers_kept_all (fun c member => large c (by rw [trimming.split]; simp [member])) x).mpr (.inl covered)
  obtain ⟨m2, calls', ran, changes, -⟩ := walk
  rw [run] at ran
  cases ran
  exact changes

end

/-! ### The region divided in three -/

/-- Free chunks, live chunks and the pages given back divide the region. -/
structure PoolInv (theheap : Word) (region : Extent) (s : HeapState) (gone free : List Extent) : Prop where
  blocks : BlocksInv theheap s free
  chunk : ∀ e ∈ free, IsChunk region e
  live : ∀ b ∈ s.live, IsChunk region (recorded s.mem b.ptr)
  cover : ∀ x, region.Contains x ↔ Covers free x ∨ Covers s.chunks x ∨ Covers gone x
  off : ∀ x, Covers gone x → ¬ Covers free x ∧ ¬ Covers s.chunks x
  apart : gone.Pairwise Apart
  pages : ∀ g ∈ gone, g.start % 4096 = 0 ∧ g.len % 4096 = 0 ∧ 0 < g.len

section

variable {theheap size alignment : Word} {region : Extent} {free gone : List Extent} {s : HeapState} {m' : Memory}

theorem PoolInv.free_chunks (inv : PoolInv theheap region s gone free) : FreeChunks region free :=
  ⟨inv.chunk, inv.blocks.separate.gapped⟩

/-- The clients' own business: the region stays divided as long as free and live chunks cover what they covered. -/
theorem PoolInv.next (inv : PoolInv theheap region s gone free) {s' : HeapState} {free' : List Extent}
    (blocks : BlocksInv theheap s' free') (chunk : ∀ e ∈ free', IsChunk region e)
    (live : ∀ b ∈ s'.live, IsChunk region (recorded s'.mem b.ptr))
    (cover : ∀ x, Covers free' x ∨ Covers s'.chunks x ↔ Covers free x ∨ Covers s.chunks x) :
    PoolInv theheap region s' gone free' := by
  constructor
  case blocks => exact blocks
  case chunk => exact chunk
  case live => exact live
  case cover =>
    intro x
    have same := cover x
    rw [inv.cover x]
    tauto
  case off =>
    intro x given
    have same := cover x
    have before := inv.off x given
    tauto
  case apart => exact inv.apart
  case pages => exact inv.pages

theorem PoolInv.init (layout : Layout theheap region) (m : Memory) :
    ∃ m', miniheapInit theheap m (BitVec.ofNat 32 region.start) (BitVec.ofNat 32 region.len) = some m' ∧
      PoolInv theheap region ⟨m', []⟩ [] [region] := by
  obtain ⟨m', initialised, inv, -⟩ := miniheapInit_spec layout m
  refine ⟨m', initialised, inv.blocks layout, inv.chunk, by simp, fun x => ?_, by simp [Covers], List.Pairwise.nil, by simp⟩
  rw [inv.partition.cover x]
  simp [Covers]

theorem PoolInv.write (inv : PoolInv theheap region s gone free)
    (writes : Changes (fun x => ∃ b ∈ s.live, b.Payload x) s.mem m') : PoolInv theheap region ⟨m', s.live⟩ gone free := by
  obtain ⟨kept, blocks⟩ := inv.blocks.write writes
  apply inv.next blocks inv.chunk
  · intro b member
    have chunk := inv.live b member
    rwa [← kept b member] at chunk
  · intro x
    rw [chunks_kept (m := s.mem) kept]

/-- What the heap and its clients may write to. -/
def PoolFoot (theheap : Word) (s : HeapState) (free : List Extent) (x : Nat) : Prop :=
  (theheap.toNat ≤ x ∧ x < theheap.toNat + 24) ∨ Covers free x ∨ Covers s.chunks x

theorem header_covered {chunks : List Extent} (large : ∀ e ∈ chunks, 12 ≤ e.len) {x : Nat} (foot : HeaderFoot theheap chunks x) :
    (theheap.toNat ≤ x ∧ x < theheap.toNat + 24) ∨ Covers chunks x := by
  rcases foot with head | ⟨e, member, lower, upper⟩
  · exact .inl (by omega)
  · have room := large e member
    exact .inr ⟨e, member, lower, by simp only [stop]; omega⟩

theorem PoolInv.payload_foot (inv : PoolInv theheap region s gone free) {x : Nat} (inside : ∃ b ∈ s.live, b.Payload x) :
    PoolFoot theheap s free x := by
  obtain ⟨b, member, payload⟩ := inside
  exact .inr (.inr ⟨_, List.mem_map_of_mem member, (inv.blocks.live b member).payload_inside payload⟩)

/-- The pages given back are none of the heap's business any more. -/
theorem PoolInv.gone_kept (layout : Layout theheap region) (inv : PoolInv theheap region s gone free)
    (changes : Changes (PoolFoot theheap s free) s.mem m') {x : Word} (given : Covers gone x.toNat) : m' x = s.mem x := by
  apply changes
  obtain ⟨offFree, offLive⟩ := inv.off x.toNat given
  have inside : region.Contains x.toNat := (inv.cover x.toNat).mpr (.inr (.inr given))
  have apart := layout.apart
  rintro (global | free | live)
  · simp only [Contains] at inside
    omega
  · exact offFree free
  · exact offLive live

theorem PoolInv.alloc (inv : PoolInv theheap region s gone free) (room : NonWrapping size alignment) :
    miniheapAlloc theheap s.mem size alignment = some (0#32, s.mem) ∨
      ∃ ptr m' free', miniheapAlloc theheap s.mem size alignment = some (ptr, m') ∧ ptr ≠ 0#32 ∧
        PoolInv theheap region ⟨m', ⟨ptr, size⟩ :: s.live⟩ gone free' ∧ Changes (PoolFoot theheap s free) s.mem m' ∧
        ∀ b ∈ s.live, ∀ x : Word, (recorded s.mem b.ptr).Contains x.toNat → m' x = s.mem x := by
  have blocks := inv.blocks
  by_cases valid : alignment = 0#32 ∨ alignment.toNat.isPowerOfTwo
  · rcases first_fit free (need size.toNat alignment.toNat) with small | ⟨left, e, right, rfl, small, fits⟩
    · exact .inl (miniheapAlloc_none blocks.free_chunks blocks.list valid room small)
    · obtain ⟨ptr, m', allocated, served, -, lower, upper, -⟩ :=
        miniheapAlloc_first blocks.free_chunks blocks.list valid room small fits
      have least := twelve_le_need size.toNat alignment.toNat
      obtain ⟨record, kept, chunks_eq, blocks'⟩ := blocks.served size least fits served lower upper
      have aligned : need size.toNat alignment.toNat % 4 = 0 := need_four valid
      have sub : ∀ c ∈ left ++ right, c ∈ left ++ e :: right := ((List.sublist_cons_self e right).append_left left).subset
      have foot (x : Nat) (touched : AllocFoot theheap e (left ++ right) x) : PoolFoot theheap s (left ++ e :: right) x := by
        rcases touched with (pointer | contains) | global
        · have large : ∀ c ∈ left ++ e :: right, 12 ≤ c.len := fun c member => (inv.chunk c member).large
          rcases header_covered large (HeaderFoot.mono sub (HeaderFoot.of_pointer pointer)) with head | covered
          · exact .inl head
          · exact .inr (.inl covered)
        · exact .inr (.inl ⟨e, by simp, contains⟩)
        · exact .inl (by omega)
      refine .inr ⟨ptr, m', _, allocated, ?_, inv.next blocks' (inv.free_chunks.carve aligned).chunk ?_ ?_,
        served.changes.mono foot, fun b member x inside => blocks.served_untouched served member inside⟩
      · intro null
        rw [null, BitVec.toNat_ofNat] at lower
        omega
      · intro b member
        rcases List.mem_cons.mp member with rfl | member
        · rw [record]
          exact (inv.chunk e (by simp)).carve aligned least
        · have chunk := inv.live b member
          rwa [← kept b member] at chunk
      · intro x
        rw [chunks_eq, covers_leftover (n := need size.toNat alignment.toNat), covers_cons]
        tauto
  · exact .inl (miniheapAlloc_invalid s.mem valid)

theorem PoolInv.freed (inv : PoolInv theheap region s gone free) {left right : List Block} {b : Block}
    (split : s.live = left ++ b :: right) :
    ∃ m', miniheapFree theheap s.mem b.ptr = some m' ∧
      PoolInv theheap region ⟨m', left ++ right⟩ gone (insertExtent free (recorded s.mem b.ptr)) ∧
      Changes (PoolFoot theheap s free) s.mem m' ∧
      ∀ a ∈ left ++ right, ∀ x : Word, (recorded s.mem a.ptr).Contains x.toNat → m' x = s.mem x := by
  have member : b ∈ s.live := by simp [split]
  obtain ⟨m', released, freed⟩ := inv.blocks.freed split
  refine ⟨m', released, inv.next freed.blocks ?_ ?_ freed.cover, freed.changes.mono fun x foot => ?_, freed.untouched⟩
  · exact forall_insertExtent (fun a b ha hb meet => ha.join hb meet) inv.chunk (inv.live b member)
  · intro a ha
    have chunk := inv.live a (mem_live_of_split split a ha)
    rwa [← freed.kept a ha] at chunk
  · rcases foot with header | global
    · have large : ∀ e ∈ recorded s.mem b.ptr :: free, 12 ≤ e.len := fun e he => (inv.blocks.placed_cons member e he).large
      rcases header_covered large header with head | covered
      · exact .inl head
      · rcases (covers_cons _ _ x).mp covered with own | covered
        · exact .inr (.inr ⟨_, List.mem_map_of_mem member, own⟩)
        · exact .inr (.inl covered)
    · exact .inl (by omega)

/-- The pages go, the live blocks do not notice, and what is left is a heap again. -/
theorem PoolInv.trim (layout : Layout theheap region) (low : region.stop + 8192 < 2^32)
    (inv : PoolInv theheap region s gone free) :
    ∃ m' calls, miniheapTrim theheap s.mem = some (m', calls) ∧
      PoolInv theheap region ⟨m', s.live⟩ (gone ++ calls.map PageFree.range) (free.flatMap kept) ∧
      Changes (PoolFoot theheap s free) s.mem m' ∧
      ∀ b ∈ s.live, ∀ x : Word, (recorded s.mem b.ptr).Contains x.toNat → m' x = s.mem x := by
  have chunks := inv.free_chunks.aligned layout
  have large : ∀ e ∈ free, 12 ≤ e.len := fun e member => (inv.chunk e member).large
  have ends : ∀ e ∈ free, e.stop + 8192 < 2^32 := by
    intro e member
    have upper := (inv.chunk e member).upper
    omega
  obtain ⟨m', run, chunks', list', remaining'⟩ := miniheapTrim_run chunks inv.blocks.list ends
  have changes := miniheapTrim_changes chunks inv.blocks.list ends run
  have ranges : ((free.filterMap trimmed).map pageFree).map PageFree.range = free.filterMap trimmed := by
    rw [List.map_map]
    refine (List.map_congr_left fun r member => ?_).trans (List.map_id _)
    obtain ⟨e, inside, range⟩ := List.mem_filterMap.mp member
    exact range_pageFree (large e inside) ((inv.chunk e inside).bound layout) range
  have divided (x : Nat) := covers_kept_all large x
  have untouched (b : Block) (member : b ∈ s.live) (x : Word) (inside : (recorded s.mem b.ptr).Contains x.toNat) :
      m' x = s.mem x := by
    apply changes
    rintro (global | ⟨e, ha, contains⟩)
    · have off := (inv.blocks.live b member).chunk.off_theheap inside
      omega
    · exact (inv.blocks.separate.across e ha _ (List.mem_map_of_mem member)).disjoint x.toNat ⟨contains, inside⟩
  have kept' : ∀ b ∈ s.live, recorded m' b.ptr = recorded s.mem b.ptr := fun b member =>
    recorded_untouched (inv.blocks.live b member) (untouched b member)
  have same : HeapState.chunks ⟨m', s.live⟩ = s.chunks := chunks_kept kept'
  have inFree {x : Nat} (covered : Covers (free.flatMap kept) x ∨ Covers (free.filterMap trimmed) x) :
      ¬ Covers s.chunks x := by
    obtain ⟨e, member, contains⟩ := (divided x).mpr covered
    rintro ⟨c, live, inside⟩
    exact (inv.blocks.separate.across e member c live).disjoint x ⟨contains, inside⟩
  have positive {r : Extent} (member : r ∈ free.filterMap trimmed) :
      r.start % 4096 = 0 ∧ r.len % 4096 = 0 ∧ 0 < r.len := by
    obtain ⟨e, inside, range⟩ := List.mem_filterMap.mp member
    have trim := trimmed_trimmable (large e inside) range
    have stopPage := trim.stop_page
    have startPage := trim.start_page
    have length := trim.positive
    rw [stop] at stopPage
    omega
  refine ⟨m', _, run, ?_, changes.mono fun x foot => foot.imp_right .inl, untouched⟩
  rw [ranges]
  constructor
  case blocks =>
    constructor
    case room => exact inv.blocks.room
    case list => exact list'
    case chunk => exact chunks'.chunk
    case live =>
      intro b member
      have block := inv.blocks.live b member
      rwa [← kept' b member] at block
    case separate =>
      rw [same]
      refine ⟨chunks'.gapped, inv.blocks.separate.apart, fun e member c live => ?_⟩
      apply apart_of_disjoint (chunks'.positive e member) (inv.blocks.live_positive c live)
      rintro x ⟨contains, inside⟩
      exact inFree (.inl ⟨e, member, contains⟩) ⟨c, live, inside⟩
    case remaining =>
      have whole := total_kept_all large
      rw [remaining', inv.blocks.remaining, ← whole, BitVec.ofNat_add, BitVec.add_sub_cancel]
  case chunk =>
    intro c member
    obtain ⟨e, inside, piece⟩ := List.mem_flatMap.mp member
    have chunk := inv.chunk e inside
    exact chunk.inner ((kept_chunks chunk).chunk c piece)
  case live =>
    intro b member
    have chunk := inv.live b member
    rwa [← kept' b member] at chunk
  case cover =>
    intro x
    rw [inv.cover x, divided x, same, covers_append]
    tauto
  case off =>
    intro x given
    rw [same]
    rcases (covers_append gone _ x).mp given with old | new
    · have before := inv.off x old
      rw [divided x] at before
      exact ⟨fun covered => before.1 (.inl covered), before.2⟩
    · exact ⟨fun covered => kept_off_trimmed_all large chunks.gapped covered new, inFree (.inr new)⟩
  case apart =>
    rw [List.pairwise_append]
    refine ⟨inv.apart, trimmed_apart large chunks.gapped, fun g old r new => ?_⟩
    apply apart_of_disjoint (inv.pages g old).2.2 (positive new).2.2
    rintro x ⟨inOld, inNew⟩
    exact (inv.off x ⟨g, old, inOld⟩).1 ((divided x).mpr (.inr ⟨r, new, inNew⟩))
  case pages =>
    intro g member
    rcases List.mem_append.mp member with old | new
    · exact inv.pages g old
    · exact positive new

end

end ThreeX86.Heap
