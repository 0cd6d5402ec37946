import Mathlib.Order.Bounds.Basic
import ThreeX86.Heap.Realloc

namespace ThreeX86.Heap

open Machine Machine.Memory ThreeX86.Lists Linked Extents Extent

/-! The low watermark against the states of a whole run. -/

/-- The sum of the free chunk lengths, as `miniheap_get_stats` adds it up. -/
def freeBytes (theheap : Word) (m : Memory) : Option Nat :=
  (miniheapGetStats theheap m).map fun stats => stats.heapFree.toNat

def freeCounts (theheap : Word) (passed : List Memory) : Set Nat := {n | ∃ m ∈ passed, freeBytes theheap m = some n}

def HeapState.mark (theheap : Word) (s : HeapState) : Nat := (lowWatermark theheap s.mem).toNat

/-- The state inside a call: `miniheap_realloc` has allocated and not freed yet. -/
def HeapState.between (theheap : Word) (s : HeapState) : HeapOp → List Memory
  | .realloc ptr size =>
    if ptr = 0#32 ∨ size = 0#32 then [] else ((miniheapAlloc theheap s.mem size 0#32).map Prod.snd).toList
  | _ => []

/-- A heap with the memories it has passed, the last one first. -/
structure Passing where
  passed : List Memory
  heap : HeapState

/-- A call of a client, or one that changes nothing: a request of any size that is refused, or `miniheap_free` of a
    null pointer. -/
def Passing.Step (theheap : Word) (s : Passing) (op : Option HeapOp) (s' : Passing) : Prop :=
  match op with
  | none => s' = ⟨s.heap.mem :: s.passed, s.heap⟩
  | some op => s.heap.Step theheap op s'.heap ∧ s'.passed = s'.heap.mem :: s.heap.between theheap op ++ s.passed

/-- A run from `s` to `u` with the memories it passed. -/
def HeapRun (theheap : Word) (s : HeapState) (passed : List Memory) (u : HeapState) : Prop :=
  ∃ ops, Transition.Run (Passing.Step theheap) ⟨[s.mem], s⟩ ops ⟨passed, u⟩

/-- `heap_low_watermark` is the least number of free bytes in the memories passed. -/
def ReportsLeast (theheap : Word) (passed : List Memory) (m : Memory) : Prop :=
  (∀ m ∈ passed, (freeBytes theheap m).isSome) ∧
    ∃ stats, miniheapGetStats theheap m = some stats ∧ IsLeast (freeCounts theheap passed) stats.heapLowWatermark.toNat

section

variable {theheap : Word} {region : Extent} {free : List Extent} {s : HeapState} {m m' : Memory}

theorem isLeast_chain {S T : Set Nat} {a b c : Nat} (first : IsLeast (insert a S) b) (second : IsLeast (insert b T) c) :
    IsLeast (insert a (T ∪ S)) c := by
  have below : c ≤ b := second.2 (Set.mem_insert b T)
  constructor
  · rcases second.1 with rfl | inside
    · rcases first.1 with rfl | inside
      · exact Set.mem_insert _ _
      · exact .inr (.inr inside)
    · exact .inr (.inl inside)
  · intro n member
    rcases member with rfl | inside | inside
    · exact Nat.le_trans below (first.2 (Set.mem_insert _ _))
    · exact second.2 (.inr inside)
    · exact Nat.le_trans below (first.2 (.inr inside))

theorem freeCounts_append (left right : List Memory) :
    freeCounts theheap (left ++ right) = freeCounts theheap left ∪ freeCounts theheap right := by
  ext n
  simp only [freeCounts, List.mem_append, or_and_right, exists_or, Set.mem_ofPred_eq, Set.mem_union]

theorem HeapInv.freeBytes_eq (layout : Layout theheap region) (inv : HeapInv theheap region s free) :
    freeBytes theheap s.mem = some (total free) := by
  obtain ⟨stats, reported, sum, -⟩ := miniheapGetStats_spec (inv.free_chunks.placed layout) inv.list
  rw [freeBytes, reported, Option.map_some, sum]

theorem HeapInv.toNat_remaining (layout : Layout theheap region) (inv : HeapInv theheap region s free) :
    (Heap.remaining theheap s.mem).toNat = total free := by
  rw [inv.remaining, toNat_ofNat_word (inv.free_chunks.placed layout).total_lt]

/-- No byte is free when `list_is_empty` holds of the free list, and otherwise some are. -/
theorem HeapInv.listIsEmpty_iff (layout : Layout theheap region) (inv : HeapInv theheap region s free) :
    listIsEmpty s.mem (freeList theheap) = true ↔ total free = 0 := by
  have first := ring_next_head inv.list.ring
  cases free with
  | nil => simpa [listIsEmpty] using first
  | cons e free =>
    have large := (inv.chunk e List.mem_cons_self).large
    have other : node e ≠ freeList theheap := node_ne_freeList layout.room (layout.placed (inv.chunk e List.mem_cons_self))
    have counted : ¬ total (e :: free) = 0 := by
      rw [total_cons]
      omega
    have listed : NodeStore.next s.mem (freeList theheap) = node e := first
    rw [listIsEmpty, listed, if_neg other]
    simp only [Bool.false_eq_true, false_iff]
    exact counted

theorem isLeast_step {live : List Block} {n : Nat} (count : freeBytes theheap m' = some n)
    (mark : HeapState.mark theheap ⟨m', live⟩ = min n (s.mark theheap)) :
    IsLeast (insert (s.mark theheap) (freeCounts theheap [m'])) (HeapState.mark theheap ⟨m', live⟩) := by
  have only : freeCounts theheap [m'] = {n} := by
    ext k
    simp only [freeCounts, List.mem_singleton, exists_eq_left, count, Option.some.injEq, Set.mem_ofPred_eq,
      Set.mem_singleton_iff]
    exact eq_comm
  rw [only, mark, Nat.min_comm]
  exact isLeast_pair

theorem HeapInv.alloc_marks (layout : Layout theheap region) (inv : HeapInv theheap region s free)
    {size alignment : Word} (room : NonWrapping size alignment) :
    miniheapAlloc theheap s.mem size alignment = some (0#32, s.mem) ∨
      ∃ ptr m' free', miniheapAlloc theheap s.mem size alignment = some (ptr, m') ∧ ptr ≠ 0#32 ∧
        HeapInv theheap region ⟨m', ⟨ptr, size⟩ :: s.live⟩ free' ∧
        HeapState.mark theheap ⟨m', ⟨ptr, size⟩ :: s.live⟩ = min (total free') (s.mark theheap) := by
  rcases inv.alloc layout room with failed | ⟨ptr, m', free', allocated, fresh, inv', -, mark⟩
  · exact .inl failed
  · refine .inr ⟨ptr, m', free', allocated, fresh, inv', ?_⟩
    have count := inv'.toNat_remaining layout
    simp only [HeapState.mark] at count ⊢
    rw [mark]
    simp only [BitVec.lt_def, count]
    split
    · rw [count]; omega
    · omega

theorem HeapInv.write_mark (layout : Layout theheap region) (inv : HeapInv theheap region s free)
    (writes : Changes (fun x => ∃ b ∈ s.live, b.Payload x) s.mem m') :
    lowWatermark theheap m' = lowWatermark theheap s.mem := by
  have room := layout.room
  have address : (theheap + 12#32).toNat = theheap.toNat + 12 := toNat_theheap_add room (by decide)
  apply writes.load32
  · omega
  · intro i small written
    obtain ⟨b, hb, inside⟩ := written
    have off := (layout.placed (inv.live b hb).chunk).off_theheap ((inv.live b hb).payload_inside inside)
    omega

/-- What a step of the run keeps: the states inside and after it are heaps again, and the mark is the
    least of what it was and their free bytes. -/
structure Accounted (theheap : Word) (region : Extent) (s : HeapState) (passed : List Memory) (u : HeapState) : Prop where
  inv : ∃ free, HeapInv theheap region u free ∧ u.mark theheap ≤ total free
  counted : ∀ m ∈ passed, ∃ live free, HeapInv theheap region ⟨m, live⟩ free
  least : IsLeast (insert (s.mark theheap) (freeCounts theheap passed)) (u.mark theheap)

theorem Accounted.one (layout : Layout theheap region) {u : HeapState} (inv : HeapInv theheap region u free)
    (mark : u.mark theheap = min (total free) (s.mark theheap)) : Accounted theheap region s [u.mem] u := by
  refine ⟨⟨free, inv, by omega⟩, ?_, isLeast_step (inv.freeBytes_eq layout) mark⟩
  intro m member
  rw [List.mem_singleton.mp member]
  exact ⟨u.live, free, inv⟩

theorem Accounted.trans {t u : HeapState} {passed later : List Memory} (first : Accounted theheap region s passed t)
    (second : Accounted theheap region t later u) : Accounted theheap region s (later ++ passed) u := by
  refine ⟨second.inv, ?_, ?_⟩
  · intro m member
    rcases List.mem_append.mp member with member | member
    · exact second.counted m member
    · exact first.counted m member
  · rw [freeCounts_append]
    exact isLeast_chain first.least second.least

theorem HeapInv.freed_accounts (layout : Layout theheap region) {left right : List Block} {b : Block}
    (inv : HeapInv theheap region s free) (low : s.mark theheap ≤ total free) (split : s.live = left ++ b :: right) :
    ∃ m', miniheapFree theheap s.mem b.ptr = some m' ∧
      Accounted theheap region s [m'] ⟨m', left ++ right⟩ := by
  obtain ⟨m', released, inv', -, mark⟩ := inv.freed layout split
  refine ⟨m', released, Accounted.one layout inv' ?_⟩
  rw [total_insertExtent, HeapState.mark, mark]
  simp only [HeapState.mark] at low ⊢
  omega

theorem HeapInv.write_accounts (layout : Layout theheap region) (inv : HeapInv theheap region s free)
    (low : s.mark theheap ≤ total free) (writes : Changes (fun x => ∃ b ∈ s.live, b.Payload x) s.mem m') :
    Accounted theheap region s [m'] ⟨m', s.live⟩ := by
  apply Accounted.one layout (inv.write layout writes)
  rw [HeapState.mark, inv.write_mark layout writes]
  simp only [HeapState.mark] at low ⊢
  omega

theorem Accounted.unchanged (layout : Layout theheap region) (inv : HeapInv theheap region s free)
    (low : s.mark theheap ≤ total free) : Accounted theheap region s [s.mem] s :=
  Accounted.one layout inv (by omega)

theorem HeapInv.realloc_accounts (layout : Layout theheap region) (inv : HeapInv theheap region s free)
    {left right : List Block} {b : Block} (split : s.live = left ++ b :: right)
    {size : Word} (room : NonWrapping size 0#32) (nonzero : size ≠ 0#32) :
    (miniheapAlloc theheap s.mem size 0#32 = some (0#32, s.mem) ∧
        miniheapRealloc theheap s.mem b.ptr size = some (0#32, s.mem)) ∨
      ∃ ptr m1 m', miniheapAlloc theheap s.mem size 0#32 = some (ptr, m1) ∧
        miniheapRealloc theheap s.mem b.ptr size = some (ptr, m') ∧ ptr ≠ 0#32 ∧
        Accounted theheap region s [m', m1] ⟨m', ⟨ptr, size⟩ :: (left ++ right)⟩ := by
  have held : b ∈ s.live := by simp [split]
  have notNull := (inv.blocks layout).not_null held
  rcases inv.alloc_marks layout room with failed | ⟨ptr, m1, free1, allocated, fresh, inv1, mark1⟩
  · refine .inl ⟨failed, ?_⟩
    simp only [miniheapRealloc, notNull, nonzero, failed, ite_false, ite_true, Option.bind_eq_bind, Option.bind_some]
    rfl
  · have grown : Accounted theheap region s [m1] ⟨m1, ⟨ptr, size⟩ :: s.live⟩ := Accounted.one layout inv1 mark1
    obtain ⟨inv2, -⟩ := inv1.copied layout b.ptr
    -- the copy changes the new payload only, so the mark stands
    have same := inv1.write_mark layout (inv1.copies layout b.ptr)
    have copied : HeapState.mark theheap ⟨memcpy m1 ptr b.ptr size, ⟨ptr, size⟩ :: s.live⟩ =
        HeapState.mark theheap ⟨m1, ⟨ptr, size⟩ :: s.live⟩ := congrArg BitVec.toNat same
    have split2 : (⟨ptr, size⟩ : Block) :: s.live = (⟨ptr, size⟩ :: left) ++ b :: right := by rw [split]; rfl
    obtain ⟨m', released, freed⟩ := inv2.freed_accounts layout (by rw [copied]; omega) split2
    refine .inr ⟨ptr, m1, m', allocated, ?_, fresh, ?_⟩
    · dsimp only at released
      simp only [miniheapRealloc, notNull, nonzero, allocated, fresh, released, ite_false, Option.bind_eq_bind,
        Option.bind_some]
      rfl
    · exact grown.trans ⟨freed.inv, freed.counted, copied ▸ freed.least⟩

theorem HeapInv.step_accounts (layout : Layout theheap region) (inv : HeapInv theheap region s free)
    (low : s.mark theheap ≤ total free) {op : HeapOp} {u : HeapState} (allowed : s.Allowed op)
    (h : s.step theheap op = some u) : Accounted theheap region s (u.mem :: s.between theheap op) u := by
  cases op with
  | alloc size alignment =>
    have inside : s.between theheap (.alloc size alignment) = [] := rfl
    rw [inside]
    rcases inv.alloc_marks layout allowed with failed | ⟨ptr, m', free', allocated, fresh, inv', mark⟩
    · have same : u = s := by simpa [HeapState.step, failed] using h.symm
      rw [same]
      exact Accounted.unchanged layout inv low
    · have next : u = ⟨m', ⟨ptr, size⟩ :: s.live⟩ := by simpa [HeapState.step, allocated, fresh] using h.symm
      rw [next]
      exact Accounted.one layout inv' mark
  | realloc ptr size =>
    obtain ⟨room, held⟩ := allowed
    obtain ⟨left, b, right, split, rfl, rest⟩ := release_split held
    have notNull := (inv.blocks layout).not_null (show b ∈ s.live by simp [split])
    by_cases zero : size = 0#32
    · obtain ⟨m', released, freed⟩ := inv.freed_accounts layout low split
      have next : u = ⟨m', left ++ right⟩ := by
        simpa [HeapState.step, miniheapRealloc, notNull, zero, released, rest] using h.symm
      have inside : s.between theheap (.realloc b.ptr size) = [] := if_pos (.inr zero)
      rw [inside, next]
      exact freed
    · have inside : s.between theheap (.realloc b.ptr size) =
          ((miniheapAlloc theheap s.mem size 0#32).map Prod.snd).toList := if_neg (by simp [notNull, zero])
      rw [inside]
      rcases inv.realloc_accounts layout split room zero with
        ⟨refused, failed⟩ | ⟨ptr, m1, m', allocated, moved, fresh, accounted⟩
      · have same : u = s := by simpa [HeapState.step, failed, zero] using h.symm
        rw [refused, same]
        have once := Accounted.unchanged layout inv low
        exact once.trans once
      · have next : u = ⟨m', ⟨ptr, size⟩ :: (left ++ right)⟩ := by
          simpa [HeapState.step, moved, fresh, zero, rest] using h.symm
        rw [allocated, next]
        exact accounted
  | free ptr =>
    obtain ⟨left, b, right, split, rfl, rest⟩ := release_split allowed
    obtain ⟨m', released, freed⟩ := inv.freed_accounts layout low split
    have next : u = ⟨m', left ++ right⟩ := by simpa [HeapState.step, released, rest] using h.symm
    rw [next]
    exact freed
  | write m' =>
    have next : u = ⟨m', s.live⟩ := by simpa [HeapState.step] using h.symm
    rw [next]
    exact inv.write_accounts layout low allowed

theorem Accounted.step (layout : Layout theheap region) {t u : Passing} {op : Option HeapOp}
    (accounted : Accounted theheap region s t.passed t.heap) (step : t.Step theheap op u) :
    Accounted theheap region s u.passed u.heap := by
  obtain ⟨free', inv', low'⟩ := accounted.inv
  cases op with
  | none =>
    have next : u = ⟨t.heap.mem :: t.passed, t.heap⟩ := step
    rw [next]
    exact accounted.trans (Accounted.unchanged layout inv' low')
  | some op =>
    obtain ⟨⟨allowed, stepped⟩, passed⟩ := step
    rw [passed]
    exact accounted.trans (inv'.step_accounts layout low' allowed stepped)

/-- Over a run the mark becomes the least of what it was and the free bytes of the states passed. -/
theorem HeapRun.accounts (layout : Layout theheap region) (inv : HeapInv theheap region s free)
    (low : s.mark theheap ≤ total free) {passed : List Memory} {u : HeapState} (run : HeapRun theheap s passed u) :
    Accounted theheap region s passed u := by
  obtain ⟨ops, run⟩ := run
  exact run.invariant (fun t => Accounted theheap region s t.passed t.heap) (Accounted.unchanged layout inv low)
    fun t op u _ accounted step => accounted.step layout step

theorem HeapRun.start_passed {passed : List Memory} {u : HeapState} (run : HeapRun theheap s passed u) :
    s.mem ∈ passed := by
  obtain ⟨ops, run⟩ := run
  refine run.invariant (fun t => s.mem ∈ t.passed) (List.mem_singleton_self _) ?_
  intro t op u _ member step
  cases op with
  | none =>
    have next : u = ⟨t.heap.mem :: t.passed, t.heap⟩ := step
    rw [next]
    exact List.mem_cons_of_mem _ member
  | some op =>
    rw [step.2]
    exact List.mem_append_right _ member

theorem Accounted.reports_iff (layout : Layout theheap region) {passed : List Memory} {u : HeapState}
    (accounted : Accounted theheap region s passed u) :
    ReportsLeast theheap passed u.mem ↔ IsLeast (freeCounts theheap passed) (u.mark theheap) := by
  obtain ⟨free', inv', -⟩ := accounted.inv
  obtain ⟨stats, reported, -⟩ := miniheapGetStats_spec (inv'.free_chunks.placed layout) inv'.list
  have field : stats.heapLowWatermark = lowWatermark theheap u.mem := by
    simp only [miniheapGetStats, Option.bind_eq_bind, Option.bind_eq_some_iff] at reported
    obtain ⟨sums, -, built⟩ := reported
    cases built
    rfl
  have all : ∀ m ∈ passed, (freeBytes theheap m).isSome := by
    intro m member
    obtain ⟨live, free, inv⟩ := accounted.counted m member
    have count := inv.freeBytes_eq layout
    dsimp only at count
    rw [count]
    rfl
  constructor
  · intro law
    obtain ⟨-, stats', reported', least⟩ := law
    cases reported.symm.trans reported'
    rw [field] at least
    exact least
  · intro least
    exact ⟨all, stats, reported, by rw [field]; exact least⟩

/-- From a state whose mark is its own free bytes the law holds in every run. -/
theorem HeapRun.reports_least (layout : Layout theheap region) (inv : HeapInv theheap region s free)
    (marked : s.mark theheap = total free) {passed : List Memory} {u : HeapState} (run : HeapRun theheap s passed u) :
    ReportsLeast theheap passed u.mem := by
  have accounted := run.accounts layout inv (Nat.le_of_eq marked)
  have first : s.mark theheap ∈ freeCounts theheap passed :=
    ⟨s.mem, run.start_passed, by rw [inv.freeBytes_eq layout, marked]⟩
  have least := accounted.least
  rw [Set.insert_eq_of_mem first] at least
  exact (accounted.reports_iff layout).mpr least

/-- `miniheap_init` starts the mark at 0, where it stays: the law holds in exactly the runs that at
    some point had no byte free. -/
theorem reports_least_iff (layout : Layout theheap region)
    (initialised : miniheapInit theheap m (BitVec.ofNat 32 region.start) (BitVec.ofNat 32 region.len) = some m')
    {passed : List Memory} {u : HeapState} (run : HeapRun theheap ⟨m', []⟩ passed u) :
    ReportsLeast theheap passed u.mem ↔ ∃ m ∈ passed, listIsEmpty m (freeList theheap) = true := by
  obtain ⟨m'', initialised', inv, zero⟩ := miniheapInit_spec layout m
  cases initialised.symm.trans initialised'
  have start : HeapState.mark theheap ⟨m', []⟩ = 0 := congrArg BitVec.toNat zero
  have accounted := run.accounts layout inv (by omega)
  have bottom : u.mark theheap = 0 := by
    have below := accounted.least.2 (Set.mem_insert _ _)
    omega
  rw [accounted.reports_iff layout, bottom]
  constructor
  · intro least
    obtain ⟨m, member, count⟩ := least.1
    obtain ⟨live, free, inv⟩ := accounted.counted m member
    have counted := inv.freeBytes_eq layout
    dsimp only at counted
    exact ⟨m, member, (inv.listIsEmpty_iff layout).mpr (Option.some.inj (counted.symm.trans count))⟩
  · intro exhausted
    obtain ⟨m, member, empty⟩ := exhausted
    obtain ⟨live, free, inv⟩ := accounted.counted m member
    have none : total free = 0 := (inv.listIsEmpty_iff layout).mp empty
    have counted := inv.freeBytes_eq layout
    rw [none] at counted
    exact ⟨⟨m, member, counted⟩, fun n _ => Nat.zero_le n⟩

/-- A region of one chunk, all of it allocated. -/
theorem reports_least_exhausted : ∃ m m' passed u, miniheapInit 4096#32 m 8192#32 12#32 = some m' ∧
    HeapRun 4096#32 ⟨m', []⟩ passed u ∧ u.live = [⟨8200#32, 4#32⟩] ∧ ReportsLeast 4096#32 passed u.mem := by
  have layout : Layout 4096#32 ⟨8192, 12⟩ := by
    constructor
    all_goals decide
  obtain ⟨m', initialised, inv, -⟩ := miniheapInit_spec layout fun _ => 0#8
  have whole : HeapInv 4096#32 ⟨8192, 12⟩ ⟨m', []⟩ ([] ++ ⟨8192, 12⟩ :: []) := inv
  obtain ⟨m1, first, inv1⟩ := whole.first_bytes layout (show NonWrapping 4#32 0#32 by decide) (by simp) (by decide)
  have taken : miniheapAlloc 4096#32 m' 4#32 0#32 = some (8200#32, m1) := first
  have step : Passing.Step 4096#32 ⟨[m'], ⟨m', []⟩⟩ (some (.alloc 4#32 0#32)) ⟨[m1, m'], ⟨m1, [⟨8200#32, 4#32⟩]⟩⟩ :=
    ⟨⟨(by decide : NonWrapping 4#32 0#32), by simp [HeapState.step, taken]⟩, rfl⟩
  have run : HeapRun 4096#32 ⟨m', []⟩ [m1, m'] ⟨m1, [⟨8200#32, 4#32⟩]⟩ := ⟨_, (Transition.Run.nil _).snoc step⟩
  refine ⟨_, m', _, _, initialised, run, rfl, (reports_least_iff layout initialised run).mpr ⟨m1, by simp, ?_⟩⟩
  exact (inv1.listIsEmpty_iff layout).mpr (by decide)

/-- A fresh heap reports 0 with 16384 bytes free. -/
theorem not_reports_least : ∃ m m' u, miniheapInit 4096#32 m 8192#32 16384#32 = some m' ∧
    HeapRun 4096#32 ⟨m', []⟩ [m'] u ∧ ¬ ReportsLeast 4096#32 [m'] u.mem := by
  obtain ⟨m', initialised, inv, zero⟩ := miniheapInit_spec layout_example fun _ => 0#8
  have whole : total [⟨8192, 16384⟩] = 16384 := rfl
  have count := inv.freeBytes_eq layout_example
  rw [whole] at count
  have bottom : HeapState.mark 4096#32 ⟨m', []⟩ = 0 := congrArg BitVec.toNat zero
  have run : HeapRun 4096#32 ⟨m', []⟩ [m'] ⟨m', []⟩ := ⟨[], .nil _⟩
  have accounted := run.accounts layout_example inv (by omega)
  refine ⟨_, m', _, initialised, run, fun law => ?_⟩
  obtain ⟨m, member, counted⟩ := ((accounted.reports_iff layout_example).mp law).1
  rw [List.mem_singleton.mp member, count, bottom] at counted
  cases counted

end

end ThreeX86.Heap
