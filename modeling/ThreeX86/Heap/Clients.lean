import ThreeX86.Heap.Pages
import ThreeX86.Heap.Calloc
import ThreeX86.Heap.Growth
import ThreeX86.Heap.Realloc
import ThreeX86.Machine.Run

/-!
The clients of `heap.c`: sessions of calls and stores, with what the clients know of their bytes and where the
pages of `miniheap_trim` went.
-/

namespace ThreeX86.Heap

open Machine Machine.Memory ThreeX86.Lists Linked Extents Extent Transition

/-- A client knows a byte of its block once it stored it, or got it from `calloc` or `realloc`. -/
structure Session extends HeapState where
  known : Word → Nat → Option Byte
  gone : List Extent

inductive ClientOp where
  | malloc (size : Word)
  | memalign (boundary size : Word)
  | calloc (count size : Word)
  | realloc (ptr size : Word)
  | free (ptr : Word)
  | trim
  | store (ptr : Word) (i : Nat) (v : Byte)

def Session.Holds (s : Session) (ptr : Word) : Prop := ∃ b ∈ s.live, b.ptr = ptr

/-- Sizes do not wrap, null or a live pointer is given back, and stores stay inside a live block. -/
def Session.Allowed (s : Session) : ClientOp → Prop
  | .malloc size => NonWrapping size 0#32
  | .memalign boundary size => NonWrapping size boundary
  | .calloc count size => count.toNat * size.toNat + 11 < 2^32
  | .realloc ptr size => NonWrapping size 0#32 ∧ (ptr = 0#32 ∨ s.Holds ptr)
  | .free ptr => ptr = 0#32 ∨ s.Holds ptr
  | .trim => True
  | .store ptr i _ => ∃ b ∈ s.live, b.ptr = ptr ∧ i < b.size.toNat

/-- A new block for `size` bytes, of which the client knows `content`. -/
def Session.hold (s : Session) (ptr size : Word) (mem : Memory) (content : Nat → Option Byte) : Session :=
  ⟨⟨mem, ⟨ptr, size⟩ :: s.live⟩, Function.update s.known ptr content, s.gone⟩

def Session.handOut (s : Session) (ptr size : Word) (mem : Memory) (content : Nat → Option Byte) : Session :=
  if ptr = 0#32 then { s with mem := mem } else s.hold ptr size mem content

def Session.takeBack (s : Session) (ptr : Word) (mem : Memory) : Session :=
  ⟨⟨mem, s.release ptr⟩, Function.update s.known ptr fun _ => none, s.gone⟩

def Session.step (theheap : Word) (s : Session) : ClientOp → Option Session
  | .malloc size => do
    let (p, mem) ← Heap.malloc theheap s.mem size
    return s.handOut p size mem fun _ => none
  | .memalign boundary size => do
    let (p, mem) ← Heap.memalign theheap s.mem boundary size
    return s.handOut p size mem fun _ => none
  | .calloc count size => do
    let (p, mem) ← Heap.calloc theheap s.mem count size
    return s.handOut p (count * size) mem fun i => if i < count.toNat * size.toNat then some 0#8 else none
  | .realloc ptr size => do
    let (p, mem) ← miniheapRealloc theheap s.mem ptr size
    if ptr ≠ 0#32 ∧ size = 0#32 then return s.takeBack ptr mem
    else if p = 0#32 then return { s with mem := mem }
    else return (s.handOut p size mem fun i => if i < size.toNat then s.known ptr i else none).takeBack ptr mem
  | .free ptr => do
    let mem ← miniheapFree theheap s.mem ptr
    return s.takeBack ptr mem
  | .trim => do
    let (mem, calls) ← miniheapTrim theheap s.mem
    return { s with mem := mem, gone := s.gone ++ calls.map PageFree.range }
  | .store ptr i v => some { s with
      mem := s.mem.store8 (ptr + BitVec.ofNat 32 i) v
      known := Function.update s.known ptr (Function.update (s.known ptr) i (some v)) }

/-- `heap_init` on the region. -/
def Session.Fresh (theheap : Word) (region : Extent) (s : Session) : Prop :=
  ∃ m m', miniheapInit theheap m (BitVec.ofNat 32 region.start) (BitVec.ofNat 32 region.len) = some m' ∧
    s = ⟨⟨m', []⟩, fun _ _ => none, []⟩

def Session.Step (theheap : Word) (s : Session) (op : ClientOp) (s' : Session) : Prop :=
  s.Allowed op ∧ s.step theheap op = some s'

/-- What the clients know is what a load finds. -/
def Session.Reads (s : Session) : Prop :=
  ∀ p i v, s.known p i = some v → ∃ b ∈ s.live, b.ptr = p ∧ i < b.size.toNat ∧ s.mem (p + BitVec.ofNat 32 i) = v

structure SessionInv (theheap : Word) (region : Extent) (s : Session) (free : List Extent) : Prop where
  pool : PoolInv theheap region s.toHeapState s.gone free
  reads : s.Reads

section

variable {theheap ptr size alignment : Word} {region : Extent} {free free' gone : List Extent} {h : HeapState} {s s' : Session}
  {m' : Memory} {b : Block}

theorem PlacedBlock.address {c : Extent} (block : PlacedBlock theheap c b) {i : Nat} (inside : i < b.size.toNat) :
    (b.ptr + BitVec.ofNat 32 i).toNat = b.ptr.toNat + i := by
  have upper := block.upper
  have bound := block.chunk.bound
  rw [BitVec.toNat_add, BitVec.toNat_ofNat]
  omega

theorem PlacedBlock.contains {c : Extent} (block : PlacedBlock theheap c b) {i : Nat} (inside : i < b.size.toNat) :
    c.Contains (b.ptr + BitVec.ofNat 32 i).toNat := by
  apply block.payload_inside
  rw [block.address inside]
  exact ⟨Nat.le_add_right _ _, Nat.add_lt_add_left inside _⟩

theorem SessionInv.known_null (inv : SessionInv theheap region s free) (i : Nat) : s.known 0#32 i = none := by
  cases found : s.known 0#32 i with
  | none => rfl
  | some v =>
    obtain ⟨b, live, null, -⟩ := inv.reads _ _ _ found
    exact absurd null (inv.pool.blocks.not_null live)

/-- A pointer handed out is no live one. -/
theorem PoolInv.fresh (pool : PoolInv theheap region ⟨m', ⟨ptr, size⟩ :: h.live⟩ gone free) (live : b ∈ h.live) :
    b.ptr ≠ ptr := by
  intro same
  have split : (⟨ptr, size⟩ : Block) :: h.live = [] ++ ⟨ptr, size⟩ :: h.live := rfl
  have apart := pool.blocks.live_apart split b live
  have new := pool.blocks.live ⟨ptr, size⟩ List.mem_cons_self
  have large := new.chunk.large
  dsimp only at apart new large
  rw [same] at apart
  refine apart.disjoint (recorded m' ptr).start ⟨?_, ?_⟩ <;>
  · simp only [Contains, stop]
    omega

/-! ### One call -/

/-- The bytes of the pages given back are as they were. -/
def Session.Given (s : Session) (m' : Memory) : Prop := ∀ x : Word, Covers s.gone x.toNat → m' x = s.mem x

theorem SessionInv.given (layout : Layout theheap region) (inv : SessionInv theheap region s free)
    (changes : Changes (PoolFoot theheap s.toHeapState free) s.mem m') : s.Given m' := fun _ given =>
  inv.pool.gone_kept layout changes given

/-- A block the client writes to, and knows as `content` from now on. -/
def Session.learn (s : Session) (ptr : Word) (mem : Memory) (content : Nat → Option Byte) : Session :=
  ⟨⟨mem, s.live⟩, Function.update s.known ptr content, s.gone⟩

/-- What is known of one pointer changes; the blocks of the others are still there, their chunks untouched. -/
theorem SessionInv.reads_update (inv : SessionInv theheap region s free) {live : List Block} {content : Nat → Option Byte}
    (own : ∀ i v, content i = some v → ∃ b ∈ live, b.ptr = ptr ∧ i < b.size.toNat ∧ m' (ptr + BitVec.ofNat 32 i) = v)
    (others : ∀ a ∈ s.live, a.ptr ≠ ptr →
      a ∈ live ∧ ∀ x : Word, (recorded s.mem a.ptr).Contains x.toNat → m' x = s.mem x) :
    Session.Reads ⟨⟨m', live⟩, Function.update s.known ptr content, s.gone⟩ := by
  intro p i v known
  by_cases same : p = ptr
  · subst same
    simp only [Function.update_self] at known
    exact own i v known
  · simp only [Function.update_of_ne same] at known
    obtain ⟨a, member, rfl, inside, value⟩ := inv.reads p i v known
    obtain ⟨still, kept⟩ := others a member same
    have untouched := kept _ ((inv.pool.blocks.live a member).contains inside)
    exact ⟨a, still, rfl, inside, untouched.trans value⟩

theorem SessionInv.learn (layout : Layout theheap region) (inv : SessionInv theheap region s free) (live : b ∈ s.live)
    (writes : Changes b.Payload s.mem m') {content : Nat → Option Byte}
    (holds : ∀ i v, content i = some v → i < b.size.toNat ∧ m' (b.ptr + BitVec.ofNat 32 i) = v) :
    SessionInv theheap region (s.learn b.ptr m' content) free ∧ s.Given m' := by
  have inside : Changes (fun x => ∃ b ∈ s.live, b.Payload x) s.mem m' := writes.mono fun x payload => ⟨b, live, payload⟩
  obtain ⟨left, right, split⟩ := List.append_of_mem live
  constructor
  · refine ⟨inv.pool.write inside, inv.reads_update ?_ ?_⟩
    · intro i v known
      exact ⟨b, live, rfl, holds i v known⟩
    · intro a member other
      refine ⟨member, fun x contains => writes x fun payload => ?_⟩
      have rest : a ∈ left ++ right := mem_others_of_split split member fun equal => other (by rw [equal])
      have apart := inv.pool.blocks.live_apart split a rest
      exact apart.disjoint _ ⟨contains, (inv.pool.blocks.live b live).payload_inside payload⟩
  · exact inv.given layout (inside.mono fun x payload => inv.pool.payload_foot payload)

/-- A block for `size` bytes: the client knows nothing of it yet. -/
theorem SessionInv.alloc (layout : Layout theheap region) (inv : SessionInv theheap region s free)
    (room : NonWrapping size alignment) :
    miniheapAlloc theheap s.mem size alignment = some (0#32, s.mem) ∨
      ∃ p m' free', miniheapAlloc theheap s.mem size alignment = some (p, m') ∧ p ≠ 0#32 ∧
        SessionInv theheap region (s.hold p size m' fun _ => none) free' ∧ s.Given m' := by
  rcases inv.pool.alloc room with failed | ⟨p, m', free', served, fresh, pool, changes, kept⟩
  · exact .inl failed
  · refine .inr ⟨p, m', free', served, fresh, ?_, inv.given layout changes⟩
    exact ⟨pool, inv.reads_update (by simp) fun a member _ => ⟨List.mem_cons_of_mem _ member, kept a member⟩⟩

theorem SessionInv.release (layout : Layout theheap region) (inv : SessionInv theheap region s free) (held : s.Holds ptr) :
    ∃ m' free', miniheapFree theheap s.mem ptr = some m' ∧ SessionInv theheap region (s.takeBack ptr m') free' ∧
      s.Given m' := by
  obtain ⟨left, b, right, split, rfl, rest⟩ := release_split held
  obtain ⟨m', released, pool, changes, kept⟩ := inv.pool.freed split
  refine ⟨m', insertExtent free (recorded s.mem b.ptr), released, ?_, inv.given layout changes⟩
  rw [Session.takeBack, rest]
  refine ⟨pool, inv.reads_update (by simp) fun a member other => ?_⟩
  have still : a ∈ left ++ right := mem_others_of_split split member fun equal => other (by rw [equal])
  exact ⟨still, kept a still⟩

/-- The new block takes on what the client knew of the old one. -/
theorem SessionInv.copied (layout : Layout theheap region) (inv : SessionInv theheap region s free) (live : b ∈ s.live)
    (other : ptr ≠ b.ptr) :
    SessionInv theheap region (s.learn b.ptr (memcpy s.mem b.ptr ptr b.size) fun i =>
      if i < b.size.toNat then s.known ptr i else none) free ∧ s.Given (memcpy s.mem b.ptr ptr b.size) := by
  have block := inv.pool.blocks.live b live
  have lower := block.lower
  have upper := block.upper
  have bound := block.chunk.bound
  refine inv.learn layout live (changes_moveBytes s.mem b.ptr ptr b.size.toNat (by omega)) fun i v content => ?_
  split at content
  case isFalse => cases content
  case isTrue below =>
    obtain ⟨a, member, rfl, inside, value⟩ := inv.reads ptr i v content
    obtain ⟨left, right, split⟩ := List.append_of_mem live
    have apart := inv.pool.blocks.live_apart split a (mem_others_of_split split member fun equal => other (by rw [equal]))
    have lowerA := (inv.pool.blocks.live a member).lower
    have upperA := (inv.pool.blocks.live a member).upper
    have boundA := (inv.pool.blocks.live a member).chunk.bound
    -- the new block starts in front of the old one or behind its last known byte
    have clear : i < offset a.ptr b.ptr := by
      simp only [offset, BitVec.toNat_sub]
      simp only [Apart] at apart
      omega
    exact ⟨below, Eq.trans (moveBytes_inside s.mem b.ptr a.ptr b.size.toNat i below (by omega) (.inl clear)) value⟩

theorem SessionInv.trim (layout : Layout theheap region) (low : region.stop + 8192 < 2^32)
    (inv : SessionInv theheap region s free) : ∃ m' calls free', miniheapTrim theheap s.mem = some (m', calls) ∧
      SessionInv theheap region ⟨⟨m', s.live⟩, s.known, s.gone ++ calls.map PageFree.range⟩ free' ∧ s.Given m' := by
  obtain ⟨m', calls, run, pool, changes, kept⟩ := inv.pool.trim layout low
  refine ⟨m', calls, _, run, ⟨pool, fun p i v known => ?_⟩, inv.given layout changes⟩
  obtain ⟨a, member, rfl, inside, value⟩ := inv.reads p i v known
  have untouched := kept a member _ ((inv.pool.blocks.live a member).contains inside)
  exact ⟨a, member, rfl, inside, untouched.trans value⟩

/-! ### Sessions -/

theorem SessionInv.init (layout : Layout theheap region) (fresh : s.Fresh theheap region) :
    ∃ free, SessionInv theheap region s free := by
  obtain ⟨m, m', initialised, rfl⟩ := fresh
  obtain ⟨m'', ran, pool⟩ := PoolInv.init layout m
  rw [initialised] at ran
  cases ran
  exact ⟨_, pool, by simp [Session.Reads]⟩

/-- `free(NULL)` takes nothing back. -/
theorem SessionInv.takeBack_null (inv : SessionInv theheap region s free) : s.takeBack 0#32 s.mem = s := by
  have unknown : Function.update s.known 0#32 (fun _ => none) = s.known := by
    rw [Function.update_eq_self_iff]
    funext i
    exact (inv.known_null i).symm
  rw [Session.takeBack, inv.pool.blocks.release_null, unknown]

theorem hold_learn {content content' : Nat → Option Byte} {m : Memory} :
    (s.hold ptr size m content).learn ptr m' content' = s.hold ptr size m' content' := by
  simp [Session.hold, Session.learn]

theorem SessionInv.calloc (layout : Layout theheap region) (inv : SessionInv theheap region s free) {count : Word}
    (room : count.toNat * size.toNat + 11 < 2^32) :
    Heap.calloc theheap s.mem count size = some (0#32, s.mem) ∨
      ∃ p m' free', Heap.calloc theheap s.mem count size = some (p, m') ∧ p ≠ 0#32 ∧
        SessionInv theheap region (s.hold p (count * size) m' fun i =>
          if i < count.toNat * size.toNat then some 0#8 else none) free' ∧ s.Given m' := by
  have product : (count * size).toNat = count.toNat * size.toNat := by
    rw [BitVec.toNat_mul, Nat.mod_eq_of_lt (by omega)]
  have nonWrapping : NonWrapping (count * size) 0#32 := nonWrapping_unaligned (by omega)
  rcases inv.alloc layout nonWrapping with failed | ⟨p, m1, free1, served, fresh, inv1, given1⟩
  · exact .inl (calloc_null failed)
  · have new : (⟨p, count * size⟩ : Block) ∈ (s.hold p (count * size) m1 fun _ => none).live := List.mem_cons_self
    have bound := (inv1.pool.blocks.live _ new).chunk.bound
    have upper : p.toNat + (count * size).toNat ≤ (recorded m1 p).stop := (inv1.pool.blocks.live _ new).upper
    have inside : p.toNat + (count * size).toNat ≤ 2^32 := upper.trans bound
    have writes : Changes (Block.Payload ⟨p, count * size⟩) m1 (memset m1 p 0#32 (count * size)) :=
      changes_fillBytes m1 p _ (count * size).toNat inside
    have zero (i : Nat) (v : Byte) (content : (if i < count.toNat * size.toNat then some 0#8 else none) = some v) :
        i < (count * size).toNat ∧ memset m1 p 0#32 (count * size) (p + BitVec.ofNat 32 i) = v := by
      rw [← product] at content
      split at content
      case isFalse => cases content
      case isTrue below =>
        cases content
        exact ⟨below, fillBytes_inside m1 p _ (count * size).toNat i below (by omega)⟩
    obtain ⟨inv2, given2⟩ := inv1.learn layout new writes zero
    rw [hold_learn] at inv2
    exact .inr ⟨p, _, free1, calloc_served served fresh, fresh, inv2, fun x given => (given2 x given).trans (given1 x given)⟩

theorem SessionInv.realloc (layout : Layout theheap region) (inv : SessionInv theheap region s free)
    (room : NonWrapping size 0#32) (nonzero : size ≠ 0#32) (held : s.Holds ptr) :
    miniheapRealloc theheap s.mem ptr size = some (0#32, s.mem) ∨
      ∃ p m' free', miniheapRealloc theheap s.mem ptr size = some (p, m') ∧ p ≠ 0#32 ∧
        SessionInv theheap region ((s.hold p size m' fun i =>
          if i < size.toNat then s.known ptr i else none).takeBack ptr m') free' ∧ s.Given m' := by
  obtain ⟨b, member, rfl⟩ := held
  have notNull := inv.pool.blocks.not_null member
  rcases inv.alloc layout room with failed | ⟨p, m1, free1, served, fresh, inv1, given1⟩
  · left
    simp only [miniheapRealloc, notNull, nonzero, failed, ite_false, ite_true, Option.bind_eq_bind, Option.bind_some]
    rfl
  · right
    have new : (⟨p, size⟩ : Block) ∈ (s.hold p size m1 fun _ => none).live := List.mem_cons_self
    have other : b.ptr ≠ p := inv1.pool.fresh member
    obtain ⟨inv2, given2⟩ := inv1.copied layout new other
    have content : (s.hold p size m1 fun _ => none).known b.ptr = s.known b.ptr := Function.update_of_ne other _ _
    rw [hold_learn, content] at inv2
    have held : Session.Holds (s.hold p size (memcpy m1 p b.ptr size) fun i =>
        if i < size.toNat then s.known b.ptr i else none) b.ptr := ⟨b, List.mem_cons_of_mem _ member, rfl⟩
    obtain ⟨m', free', released, inv3, given3⟩ := inv2.release layout held
    refine ⟨p, m', free', ?_, fresh, inv3, fun x given => ?_⟩
    · have freed : miniheapFree theheap (memcpy m1 p b.ptr size) b.ptr = some m' := released
      simp only [miniheapRealloc, notNull, nonzero, served, fresh, freed, ite_false, Option.bind_eq_bind, Option.bind_some]
      rfl
    · rw [given3 x given, ← given1 x given]
      exact given2 x given

theorem SessionInv.step (layout : Layout theheap region) (low : region.stop + 8192 < 2^32)
    (inv : SessionInv theheap region s free) {op : ClientOp} (allowed : s.Allowed op) :
    ∃ s' free', s.step theheap op = some s' ∧ SessionInv theheap region s' free' ∧ s.gone <+: s'.gone ∧ s.Given s'.mem := by
  have still : s.Given s.mem := fun _ _ => rfl
  cases op with
  | malloc size =>
    rcases inv.alloc layout allowed with failed | ⟨p, m', free', served, fresh, inv', given⟩
    · exact ⟨s, free, by simp [Session.step, Heap.malloc, failed, Session.handOut], inv, List.prefix_rfl, still⟩
    · exact ⟨_, free', by simp [Session.step, Heap.malloc, served, Session.handOut, fresh], inv', List.prefix_rfl, given⟩
  | memalign boundary size =>
    rcases inv.alloc layout allowed with failed | ⟨p, m', free', served, fresh, inv', given⟩
    · exact ⟨s, free, by simp [Session.step, Heap.memalign, failed, Session.handOut], inv, List.prefix_rfl, still⟩
    · exact ⟨_, free', by simp [Session.step, Heap.memalign, served, Session.handOut, fresh], inv', List.prefix_rfl, given⟩
  | calloc count size =>
    rcases inv.calloc layout allowed with failed | ⟨p, m', free', served, fresh, inv', given⟩
    · exact ⟨s, free, by simp [Session.step, failed, Session.handOut], inv, List.prefix_rfl, still⟩
    · exact ⟨_, free', by simp [Session.step, served, Session.handOut, fresh], inv', List.prefix_rfl, given⟩
  | realloc ptr size =>
    obtain ⟨room, rfl | held⟩ := allowed
    · -- `realloc(NULL, size)` is `malloc(size)`
      rcases inv.alloc layout room with failed | ⟨p, m', free', served, fresh, inv', given⟩
      · exact ⟨s, free, by simp [Session.step, miniheapRealloc, failed], inv, List.prefix_rfl, still⟩
      · have unknown : (fun i => if i < size.toNat then s.known 0#32 i else none) = fun _ => none := by
          funext i
          rw [inv.known_null, ite_self]
        have nothing : (s.hold p size m' fun _ => none).takeBack 0#32 m' = s.hold p size m' fun _ => none :=
          inv'.takeBack_null
        exact ⟨_, free', by simp [Session.step, miniheapRealloc, served, Session.handOut, fresh, unknown, nothing], inv',
          List.prefix_rfl, given⟩
    · have notNull : ptr ≠ 0#32 := by
        obtain ⟨b, member, rfl⟩ := held
        exact inv.pool.blocks.not_null member
      by_cases zero : size = 0#32
      · obtain ⟨m', free', released, inv', given⟩ := inv.release layout held
        exact ⟨_, free', by simp [Session.step, miniheapRealloc, notNull, zero, released], inv', List.prefix_rfl, given⟩
      · rcases inv.realloc layout room zero held with failed | ⟨p, m', free', moved, fresh, inv', given⟩
        · exact ⟨s, free, by simp [Session.step, failed, zero], inv, List.prefix_rfl, still⟩
        · exact ⟨_, free', by simp [Session.step, moved, zero, fresh, Session.handOut], inv', List.prefix_rfl, given⟩
  | free ptr =>
    rcases allowed with rfl | held
    · exact ⟨s, free, by simp [Session.step, miniheapFree, inv.takeBack_null], inv, List.prefix_rfl, still⟩
    · obtain ⟨m', free', released, inv', given⟩ := inv.release layout held
      exact ⟨_, free', by simp [Session.step, released], inv', List.prefix_rfl, given⟩
  | trim =>
    obtain ⟨m', calls, free', run, inv', given⟩ := inv.trim layout low
    exact ⟨_, free', by simp [Session.step, run], inv', List.prefix_append _ _, given⟩
  | store ptr i v =>
    obtain ⟨b, live, rfl, inside⟩ := allowed
    have address := (inv.pool.blocks.live b live).address inside
    have writes : Changes b.Payload s.mem (s.mem.store8 (b.ptr + BitVec.ofNat 32 i) v) :=
      (changes_store8 s.mem (b.ptr + BitVec.ofNat 32 i) v).mono fun x same => ⟨by omega, by omega⟩
    have holds (j : Nat) (w : Byte) (content : Function.update (s.known b.ptr) i (some v) j = some w) :
        j < b.size.toNat ∧ s.mem.store8 (b.ptr + BitVec.ofNat 32 i) v (b.ptr + BitVec.ofNat 32 j) = w := by
      by_cases same : j = i
      · subst same
        rw [Function.update_self] at content
        cases content
        exact ⟨inside, store8_same _ _ _⟩
      · rw [Function.update_of_ne same] at content
        obtain ⟨a, member, equal, below, value⟩ := inv.reads _ j w content
        obtain rfl := inv.pool.blocks.live_unique member live equal
        have apart := (inv.pool.blocks.live a member).address below
        refine ⟨below, (store8_outside s.mem v fun equal => ?_).trans value⟩
        rw [equal] at apart
        omega
    obtain ⟨inv', given⟩ := inv.learn layout live writes holds
    exact ⟨_, free, rfl, inv', List.prefix_rfl, given⟩

/-- The sessions that start with `heap_init`. -/
def Session.Reached (theheap : Word) (region : Extent) (s : Session) : Prop :=
  Transition.Reachable (Session.Fresh theheap region) (Session.Step theheap) s

theorem SessionInv.next (layout : Layout theheap region) (low : region.stop + 8192 < 2^32)
    (inv : SessionInv theheap region s free) {op : ClientOp} (next : s.Step theheap op s') :
    ∃ free', SessionInv theheap region s' free' ∧ s.gone <+: s'.gone ∧ s.Given s'.mem := by
  obtain ⟨allowed, ran⟩ := next
  obtain ⟨s'', free', step, inv', grown, given⟩ := inv.step layout low allowed
  rw [step] at ran
  cases ran
  exact ⟨free', inv', grown, given⟩

theorem Session.Reached.inv (layout : Layout theheap region) (low : region.stop + 8192 < 2^32)
    (reached : Session.Reached theheap region s) : ∃ free, SessionInv theheap region s free := by
  apply Transition.Reachable.invariant reached fun s => ∃ free, SessionInv theheap region s free
  · intro s fresh
    exact SessionInv.init layout fresh
  · intro s op s' before next
    obtain ⟨free, inv⟩ := before
    obtain ⟨free', inv', -⟩ := inv.next layout low next
    exact ⟨free', inv'⟩

/-- Every call comes back, and whatever the clients do, each finds in its block what it left there. -/
theorem client_memory (layout : Layout theheap region) (low : region.stop + 8192 < 2^32)
    (reached : Session.Reached theheap region s) :
    (∀ op, s.Allowed op → ∃ s', s.step theheap op = some s') ∧
    (∀ b ∈ s.live, b.ptr ≠ 0#32 ∧ region.start + 8 ≤ b.ptr.toNat ∧ b.ptr.toNat + b.size.toNat ≤ region.stop) ∧
    (s.live.Pairwise fun a b => a.ptr ≠ b.ptr ∧ ∀ x, ¬ (a.Payload x ∧ b.Payload x)) ∧
    ∀ p i v, s.known p i = some v → s.mem (p + BitVec.ofNat 32 i) = v := by
  obtain ⟨free, inv⟩ := reached.inv layout low
  have blocks := inv.pool.blocks
  refine ⟨fun op allowed => ?_, fun b live => ?_, ?_, fun p i v known => ?_⟩
  · obtain ⟨s', -, ran, -⟩ := inv.step layout low allowed
    exact ⟨s', ran⟩
  · obtain ⟨-, lower, upper⟩ := blocks.live b live
    have chunk := inv.pool.live b live
    have first := chunk.lower
    have last := chunk.upper
    exact ⟨blocks.not_null live, by omega, by omega⟩
  · have apart : s.live.Pairwise fun a b => (recorded s.mem a.ptr).Apart (recorded s.mem b.ptr) :=
      List.pairwise_map.mp blocks.separate.apart
    refine apart.imp_of_mem fun {a b} ha hb order => ⟨fun same => ?_, fun x inside => ?_⟩
    · have large := (blocks.live b hb).chunk.large
      rw [same] at order
      simp only [Apart, stop] at order
      omega
    · exact order.disjoint x ⟨(blocks.live a ha).payload_inside inside.1, (blocks.live b hb).payload_inside inside.2⟩
  · obtain ⟨b, -, rfl, -, value⟩ := inv.reads p i v known
    exact value

theorem client_memory_stored : ∃ s p, Session.Reached 4096#32 ⟨8192, 16384⟩ s ∧ s.known p 0 = some 7#8 ∧
    s.mem (p + BitVec.ofNat 32 0) = 7#8 := by
  obtain ⟨m, initialised, inv, -⟩ := miniheapInit_spec layout_example fun _ => 0#8
  have whole : HeapInv 4096#32 ⟨8192, 16384⟩ ⟨m, []⟩ ([] ++ ⟨8192, 16384⟩ :: []) := inv
  obtain ⟨p, m', served, pointer⟩ := whole.alloc_at layout_example 4#32 (by simp) (by decide)
  have fresh : p ≠ 0#32 := by
    intro null
    rw [null] at pointer
    contradiction
  let s : Session := ⟨⟨m', [⟨p, 4#32⟩]⟩, Function.update (fun _ _ => none) p fun _ => none, []⟩
  have reached : Session.Reached 4096#32 ⟨8192, 16384⟩ s := by
    refine (Reachable.base ⟨_, m, initialised, rfl⟩).next (a := .malloc 4#32) ⟨show NonWrapping 4#32 0#32 by decide, ?_⟩
    have called : Heap.malloc 4096#32 m 4#32 = some (p, m') := served
    simp [Session.step, called, Session.handOut, fresh, Session.hold, s]
  have stored : s.Step 4096#32 (.store p 0 7#8) _ := ⟨⟨⟨p, 4#32⟩, List.mem_cons_self, rfl, show 0 < (4#32 : Word).toNat by decide⟩, rfl⟩
  have known : (Function.update s.known p (Function.update (s.known p) 0 (some 7#8))) p 0 = some 7#8 := by
    rw [Function.update_self, Function.update_self]
  exact ⟨_, p, reached.next stored, known,
    (client_memory layout_example (by decide) (reached.next stored)).2.2.2 p 0 7#8 known⟩

theorem PoolInv.total (pool : PoolInv theheap region h gone free) :
    (free ++ h.chunks ++ gone).Pairwise Apart ∧ total free + total h.chunks + total gone = region.len := by
  have separate := pool.blocks.separate
  have positive : ∀ e ∈ free ++ h.chunks, 0 < e.len := by
    intro e member
    rcases List.mem_append.mp member with member | member
    · exact (pool.blocks.chunk e member).len_positive
    · exact pool.blocks.live_positive e member
  have apart : (free ++ h.chunks ++ gone).Pairwise Apart := by
    rw [List.pairwise_append, List.pairwise_append]
    refine ⟨⟨?_, separate.apart, separate.across⟩, pool.apart, fun e he g hg => ?_⟩
    · exact separate.gapped.imp fun order => .inl (Nat.le_of_lt order)
    · apply apart_of_disjoint (positive e he) (pool.pages g hg).2.2
      rintro x ⟨inside, given⟩
      obtain ⟨offFree, offLive⟩ := pool.off x ⟨g, hg, given⟩
      rcases List.mem_append.mp he with member | member
      · exact offFree ⟨e, member, inside⟩
      · exact offLive ⟨e, member, inside⟩
  refine ⟨apart, ?_⟩
  rw [← total_of_cover apart fun x => ?_]
  · simp only [total_append]
  · rw [pool.cover x, covers_append, covers_append, or_assoc]

/-- Pages go back once and stay away: the heap divides the region with its clients and with them, byte for byte, and
    nobody writes to them again. -/
theorem pages_once (layout : Layout theheap region) (low : region.stop + 8192 < 2^32)
    (reached : Session.Reached theheap region s) :
    (∃ free, FreeListAt theheap s.mem free ∧ (free ++ s.chunks ++ s.gone).Pairwise Apart ∧
      (∀ x, region.Contains x ↔ Covers (free ++ s.chunks ++ s.gone) x) ∧
      total free + total s.chunks + total s.gone = region.len ∧ (remaining theheap s.mem).toNat = total free) ∧
    (∀ g ∈ s.gone, g.start % 4096 = 0 ∧ g.len % 4096 = 0 ∧ 0 < g.len) ∧
    ∀ ops s', Run (Session.Step theheap) s ops s' → s.gone <+: s'.gone ∧
      ∀ x : Word, Covers s.gone x.toNat → s'.mem x = s.mem x := by
  obtain ⟨free, inv⟩ := reached.inv layout low
  obtain ⟨apart, whole⟩ := inv.pool.total
  refine ⟨⟨free, inv.pool.blocks.list, apart, fun x => ?_, whole, ?_⟩, inv.pool.pages, fun ops s' run => ?_⟩
  · rw [inv.pool.cover x, covers_append, covers_append, or_assoc]
  · have bound := layout.bound
    have short : region.len ≤ region.stop := Nat.le_add_left _ _
    rw [inv.pool.blocks.remaining, toNat_ofNat_word (by omega)]
  · -- one step at a time: the pages of the start are among those of every later state
    have later : (∃ free', SessionInv theheap region s' free') ∧ s.gone <+: s'.gone ∧ s.Given s'.mem := by
      refine run.invariant (fun u => (∃ free', SessionInv theheap region u free') ∧ s.gone <+: u.gone ∧ s.Given u.mem)
        ⟨⟨free, inv⟩, List.prefix_rfl, fun _ _ => rfl⟩ ?_
      intro u op u' _ before next
      obtain ⟨⟨free1, inv1⟩, grown, kept⟩ := before
      obtain ⟨free2, inv2, more, given⟩ := inv1.next layout low next
      refine ⟨⟨free2, inv2⟩, grown.trans more, fun x covered => ?_⟩
      have still : Covers u.gone x.toNat := by
        obtain ⟨g, member, inside⟩ := covered
        exact ⟨g, grown.subset member, inside⟩
      exact (given x still).trans (kept x covered)
    exact later.2

/-- All four pages of the fresh heap go back. -/
theorem pages_once_fresh : ∃ s, Session.Reached 4096#32 ⟨8192, 16384⟩ s ∧ s.gone = [⟨8192, 16384⟩] ∧
    (remaining 4096#32 s.mem).toNat = 0 := by
  obtain ⟨m, initialised, pool⟩ := PoolInv.init layout_example fun _ => 0#8
  have ends : ∀ e ∈ [(⟨8192, 16384⟩ : Extent)], e.stop + 8192 < 2^32 := by decide
  obtain ⟨m', run, -⟩ := miniheapTrim_run (pool.free_chunks.aligned layout_example) pool.blocks.list ends
  have pages : ([(⟨8192, 16384⟩ : Extent)].filterMap trimmed).map pageFree = [⟨8192#32, 4#32⟩] := rfl
  rw [pages] at run
  let s : Session := ⟨⟨m', []⟩, fun _ _ => none, [⟨8192, 16384⟩]⟩
  have reached : Session.Reached 4096#32 ⟨8192, 16384⟩ s := by
    refine (Reachable.base ⟨_, m, initialised, rfl⟩).next (a := .trim) ⟨trivial, ?_⟩
    simp only [Session.step, run, s]
    rfl
  obtain ⟨⟨free, -, -, -, whole, left⟩, -⟩ := pages_once layout_example (by decide) reached
  refine ⟨s, reached, rfl, ?_⟩
  have gone : total s.gone = 16384 := rfl
  dsimp only at whole
  omega

end

end ThreeX86.Heap
