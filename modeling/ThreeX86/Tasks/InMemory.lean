import ThreeX86.Heap.FreeList
import ThreeX86.Lists.Embedding
import ThreeX86.Tasks.Kernel
import ThreeX86.Tasks.Scheduler

/-!
The scheduler's state found in memory: what each statement of `task.c` does there is what the function
of the same name does to the state.
-/

namespace ThreeX86.Tasks

open Machine Machine.Memory ThreeX86.Lists Linked Extents Extent

/-- The fields of a `struct task` behind its node. -/
structure TaskAt (m : Memory) (a : Word) (v : Task) : Prop where
  state : m.load32 (a + 8#32) = v.state.code
  count : m.load32 (a + 12#32) = BitVec.ofInt 32 v.criticalSectionCount
  entry : m.load32 (a + 16#32) = v.entry
  arg : m.load32 (a + 20#32) = v.arg
  stack : m.load32 (a + 24#32) = v.stack
  stackSize : m.load32 (a + 28#32) = v.stackSize

section

variable {m m' : Memory} {a : Word} {v : Task} {S : Nat → Prop}

theorem TaskAt.kept (at_ : TaskAt m a v) (room : a.toNat + 36 ≤ 2^32) (changes : Changes S m m')
    (off : ∀ x, a.toNat + 8 ≤ x → x < a.toNat + 32 → ¬ S x) : TaskAt m' a v := by
  have word (k : Nat) (low : 8 ≤ k) (high : k + 4 ≤ 32) :
      m'.load32 (a + BitVec.ofNat 32 k) = m.load32 (a + BitVec.ofNat 32 k) := by
    have address := toNat_add_word (a := a) (k := k) (by omega)
    apply changes.load32
    · omega
    · intro i small
      exact off _ (by omega) (by omega)
  constructor
  case state => exact (word 8 (by decide) (by decide)).trans at_.state
  case count => exact (word 12 (by decide) (by decide)).trans at_.count
  case entry => exact (word 16 (by decide) (by decide)).trans at_.entry
  case arg => exact (word 20 (by decide) (by decide)).trans at_.arg
  case stack => exact (word 24 (by decide) (by decide)).trans at_.stack
  case stackSize => exact (word 28 (by decide) (by decide)).trans at_.stackSize

theorem task_addresses (room : a.toNat + 36 ≤ 2^32) :
    (a + 4#32).toNat = a.toNat + 4 ∧ (a + 8#32).toNat = a.toNat + 8 ∧ (a + 12#32).toNat = a.toNat + 12 ∧
      (a + 16#32).toNat = a.toNat + 16 ∧ (a + 20#32).toNat = a.toNat + 20 ∧ (a + 24#32).toNat = a.toNat + 24 ∧
      (a + 28#32).toNat = a.toNat + 28 ∧ (a + 32#32).toNat = a.toNat + 32 :=
  ⟨toNat_add_word (by omega), toNat_add_word (by omega), toNat_add_word (by omega), toNat_add_word (by omega),
    toNat_add_word (by omega), toNat_add_word (by omega), toNat_add_word (by omega), toNat_add_word (by omega)⟩

theorem TaskAt.setState (at_ : TaskAt m a v) (room : a.toNat + 36 ≤ 2^32) (state : TaskState) :
    TaskAt (m.store32 (a + 8#32) state.code) a { v with state := state } := by
  obtain ⟨-, eight, twelve, sixteen, twenty, twentyFour, twentyEight, -⟩ := task_addresses room
  constructor
  case state => exact load32_store32 m _ _
  case count => rw [load32_store32_apart m _ (by omega) (by omega) (by omega)]; exact at_.count
  case entry => rw [load32_store32_apart m _ (by omega) (by omega) (by omega)]; exact at_.entry
  case arg => rw [load32_store32_apart m _ (by omega) (by omega) (by omega)]; exact at_.arg
  case stack => rw [load32_store32_apart m _ (by omega) (by omega) (by omega)]; exact at_.stack
  case stackSize => rw [load32_store32_apart m _ (by omega) (by omega) (by omega)]; exact at_.stackSize

theorem TaskAt.setCount (at_ : TaskAt m a v) (room : a.toNat + 36 ≤ 2^32) (count : Int) :
    TaskAt (m.store32 (a + 12#32) (BitVec.ofInt 32 count)) a { v with criticalSectionCount := count } := by
  obtain ⟨-, eight, twelve, sixteen, twenty, twentyFour, twentyEight, -⟩ := task_addresses room
  constructor
  case state => rw [load32_store32_apart m _ (by omega) (by omega) (by omega)]; exact at_.state
  case count => exact load32_store32 m _ _
  case entry => rw [load32_store32_apart m _ (by omega) (by omega) (by omega)]; exact at_.entry
  case arg => rw [load32_store32_apart m _ (by omega) (by omega) (by omega)]; exact at_.arg
  case stack => rw [load32_store32_apart m _ (by omega) (by omega) (by omega)]; exact at_.stack
  case stackSize => rw [load32_store32_apart m _ (by omega) (by omega) (by omega)]; exact at_.stackSize

theorem TaskState.code_inj {s t : TaskState} (same : s.code = t.code) : s = t := by
  cases s <;> cases t <;> first | rfl | exact absurd same (by decide)

end

namespace KernelLayout

variable {τ : Type} {L : KernelLayout τ}

/-- The words that hold pointers of the run queue. -/
def IsNode (L : KernelLayout τ) (a : Word) : Prop := a = L.runQueue ∨ ∃ t, a = L.task t

/-- What the functions of `task.c` write themselves; `saved_sp` is the business of the switch. -/
def Owned (L : KernelLayout τ) (x : Nat) : Prop :=
  L.queueExtent.Contains x ∨ L.currentExtent.Contains x ∨ ∃ t, (L.task t).toNat ≤ x ∧ x < (L.task t).toNat + 32

theorem Separate.room (separate : L.Separate) (t : τ) : (L.task t).toNat + 36 ≤ 2^32 := separate.taskRoom t

theorem Separate.nodesApart (separate : L.Separate) : Heap.NodesApart L.IsNode := by
  have queueRoom := separate.queueRoom
  simp only [queueExtent, stop] at queueRoom
  rintro x y (rfl | ⟨t, rfl⟩) (rfl | ⟨u, rfl⟩)
  · exact ⟨queueRoom, .inl rfl⟩
  · have apart := separate.taskQueue u
    simp only [Apart, taskExtent, queueExtent, stop, sizeofTask] at apart
    exact ⟨queueRoom, by omega⟩
  · have apart := separate.taskQueue t
    have room := separate.room t
    simp only [Apart, taskExtent, queueExtent, stop, sizeofTask] at apart
    exact ⟨by omega, by omega⟩
  · have room := separate.room t
    refine ⟨by omega, ?_⟩
    by_cases same : t = u
    · exact .inl (by rw [same])
    · have apart := separate.taskTask t u same
      simp only [Apart, taskExtent, stop, sizeofTask] at apart
      omega

theorem Separate.task_inj (separate : L.Separate) {t u : τ} (same : L.task t = L.task u) : t = u := by
  by_contra ne
  have apart := separate.taskTask t u ne
  simp only [Apart, taskExtent, stop, sizeofTask, same] at apart
  omega

theorem Separate.task_ne_queue (separate : L.Separate) (t : τ) : L.task t ≠ L.runQueue := by
  intro same
  have apart := separate.taskQueue t
  simp only [Apart, taskExtent, queueExtent, stop, sizeofTask, same] at apart
  omega

end KernelLayout

/-- The nodes whose pointers the kernel may follow: the queue's head and those of the tasks in `live`. -/
def Live {τ : Type} (live : τ → Prop) : NodePtr τ → Prop
  | .null => False
  | .runQueue => True
  | .task t => live t

section

variable {τ : Type} [DecidableEq τ] {L : KernelLayout τ} {live : τ → Prop}

theorem KernelLayout.Separate.addressing (separate : L.Separate) (live : τ → Prop) :
    Addressing (Sched τ) Memory L.address (Live live) L.IsNode := by
  constructor
  case source =>
    have fields := independent (τ := τ)
    exact ⟨fun s x v _ => fields.prev_setPrev_same s x v trivial,
      fun s x y v _ _ => fields.prev_setPrev_other s x y v trivial trivial,
      fun s x y v _ _ => fields.prev_setNext s x y v trivial trivial,
      fun s x v _ => fields.next_setNext_same s x v trivial,
      fun s x y v _ _ => fields.next_setNext_other s x y v trivial trivial,
      fun s x y v _ _ => fields.next_setPrev s x y v trivial trivial⟩
  case target => exact separate.nodesApart.independent
  case inside =>
    intro x inside
    cases x with
    | null => cases inside
    | runQueue => exact .inl rfl
    | task t => exact .inr ⟨t, rfl⟩
  case distinct =>
    intro x y inX inY same
    cases x with
    | null => cases inX
    | runQueue =>
      cases y with
      | null => cases inY
      | runQueue => rfl
      | task u => exact absurd same.symm (separate.task_ne_queue u)
    | task t =>
      cases y with
      | null => cases inY
      | runQueue => exact absurd same (separate.task_ne_queue t)
      | task u => rw [separate.task_inj same]

/-- The state of the scheduler, as far as the code looks at it, is in the kernel's memory. -/
structure Represents (L : KernelLayout τ) (live : τ → Prop) (k : Kernel) (s : Sched τ) : Prop where
  nodes : Embeds L.address (Live live) s k.cpu.mem
  fields : ∀ t, live t → TaskAt k.cpu.mem (L.task t) (s.tasks t)
  current : k.currentTask L.toGlobals = L.task s.currentTask
  flag : k.interruptFlag = s.interruptFlag

/-- Statements of the kernel that lead to `s'`: they write to the kernel's own variables, and the registers a
    task counts on are as before. -/
structure Follows (L : KernelLayout τ) (live : τ → Prop) (k k' : Kernel) (s' : Sched τ) : Prop where
  represents : Represents L live k' s'
  changes : Changes L.Owned k.cpu.mem k'.cpu.mem
  context : contextOf k'.cpu = contextOf k.cpu

variable {k k' k'' : Kernel} {s s' s'' : Sched τ} {t : τ} {queue : List τ}

theorem Represents.follows (represents : Represents L live k s) : Follows L live k k s :=
  ⟨represents, Changes.refl _ _, rfl⟩

theorem Follows.trans (first : Follows L live k k' s') (second : Follows L live k' k'' s'') : Follows L live k k'' s'' :=
  ⟨second.represents, first.changes.trans second.changes, second.context.trans first.context⟩

/-- The state's other fields are not in memory. -/
theorem Represents.congr (represents : Represents L live k s) (prevs : s'.prevOf = s.prevOf) (nexts : s'.nextOf = s.nextOf)
    (tasks : s'.tasks = s.tasks) (current : s'.currentTask = s.currentTask) (flag : s'.interruptFlag = s.interruptFlag) :
    Represents L live k s' := by
  constructor
  case nodes =>
    constructor
    · intro x inside
      show NodeStore.prev k.cpu.mem (L.address x) = L.address (s'.prevOf x)
      rw [prevs]
      exact represents.nodes.backward x inside
    · intro x inside
      show NodeStore.next k.cpu.mem (L.address x) = L.address (s'.nextOf x)
      rw [nexts]
      exact represents.nodes.forward x inside
  case fields =>
    intro t alive
    rw [tasks]
    exact represents.fields t alive
  case current => rw [current]; exact represents.current
  case flag => rw [flag]; exact represents.flag

/-! ### Fields and variables -/

theorem KernelLayout.Separate.node_kept {m m' : Memory} {S : Nat → Prop} (separate : L.Separate) (changes : Changes S m m')
    (off : ∀ n, Live live n → ∀ x, (L.address n).toNat ≤ x → x < (L.address n).toNat + 8 → ¬ S x)
    (embeds : Embeds L.address (Live live) s m) : Embeds L.address (Live live) s m' := by
  apply embeds.kept
  intro x inside
  have isNode := (separate.addressing live).inside x inside
  have room := (separate.nodesApart _ _ isNode isNode).1
  have next := separate.nodesApart.toNat_next isNode
  constructor
  · apply changes.load32 (by omega)
    intro i small
    exact off x inside _ (by omega) (by omega)
  · apply changes.load32 (by omega)
    intro i small
    exact off x inside _ (by omega) (by omega)

omit [DecidableEq τ] in
theorem KernelLayout.Separate.field_off_node (separate : L.Separate) (t : τ) {a : Word} (isNode : L.IsNode a) {x : Nat}
    (lower : a.toNat ≤ x) (upper : x < a.toNat + 8) : ¬ ((L.task t).toNat + 8 ≤ x ∧ x < (L.task t).toNat + 32) := by
  rcases isNode with rfl | ⟨u, rfl⟩
  · have apart := separate.taskQueue t
    simp only [Apart, KernelLayout.taskExtent, KernelLayout.queueExtent, stop, sizeofTask] at apart
    omega
  · by_cases same : t = u
    · rw [same]
      omega
    · have apart := separate.taskTask t u same
      simp only [Apart, KernelLayout.taskExtent, stop, sizeofTask] at apart
      omega

omit [DecidableEq τ] in
theorem KernelLayout.Separate.current_kept {m m' : Memory} {S : Nat → Prop} (separate : L.Separate)
    (changes : Changes S m m') (off : ∀ x, L.currentExtent.Contains x → ¬ S x) :
    m'.load32 L.currentTask = m.load32 L.currentTask := by
  apply changes.load32 separate.currentRoom
  intro i small
  apply off
  simp only [Contains, KernelLayout.currentExtent, stop]
  omega

theorem Represents.setTask {m : Memory} {v : Task} (separate : L.Separate) (represents : Represents L live k s)
    (changes : Changes (fun x => (L.task t).toNat + 8 ≤ x ∧ x < (L.task t).toNat + 32) k.cpu.mem m)
    (at_ : TaskAt m (L.task t) v) : Follows L live k (k.setMem m) (s.setTask t v) := by
  constructor
  case represents =>
    constructor
    case nodes =>
      have inside := (separate.addressing live).inside
      have kept := separate.node_kept changes (fun n alive x => separate.field_off_node t (inside n alive)) represents.nodes
      exact ⟨kept.backward, kept.forward⟩
    case fields =>
      intro u alive
      by_cases same : u = t
      · subst same
        have new : (s.setTask u v).tasks u = v := by simp only [Sched.setTask, Function.update_self]
        rw [new]
        exact at_
      · have old : (s.setTask t v).tasks u = s.tasks u := by
          simp only [Sched.setTask, Function.update_of_ne same]
        rw [old]
        apply (represents.fields u alive).kept (separate.room u) changes
        intro x lower upper inside
        have apart := separate.taskTask u t same
        simp only [Apart, KernelLayout.taskExtent, stop, sizeofTask] at apart
        omega
    case current =>
      refine (separate.current_kept changes fun x contains inside => ?_).trans represents.current
      have apart := separate.taskCurrent t
      simp only [Apart, Contains, KernelLayout.taskExtent, KernelLayout.currentExtent, stop, sizeofTask] at apart contains
      omega
    case flag => exact represents.flag
  case changes =>
    apply changes.mono
    intro x inside
    exact .inr (.inr ⟨t, by omega, inside.2⟩)
  case context => rfl

theorem Represents.setState (separate : L.Separate) (represents : Represents L live k s) (alive : live t) (v : TaskState) :
    Follows L live k (k.setState (L.task t) v) (s.setState t v) := by
  have room := separate.room t
  have address := (task_addresses room).2.1
  apply represents.setTask separate
  · apply (changes_store32 k.cpu.mem (L.task t + 8#32) v.code (by omega)).mono
    intro x inside
    omega
  · exact (represents.fields t alive).setState room v

theorem Represents.setCount (separate : L.Separate) (represents : Represents L live k s) (alive : live t) (n : Int) :
    Follows L live k (k.setCriticalSectionCount (L.task t) (BitVec.ofInt 32 n)) (s.setCount t n) := by
  have room := separate.room t
  have address := (task_addresses room).2.2.1
  apply represents.setTask separate
  · apply (changes_store32 k.cpu.mem (L.task t + 12#32) (BitVec.ofInt 32 n) (by omega)).mono
    intro x inside
    omega
  · exact (represents.fields t alive).setCount room n

theorem Represents.setCurrent (separate : L.Separate) (represents : Represents L live k s) (t : τ) :
    Follows L live k (k.store L.currentTask (L.task t)) { s with currentTask := t } := by
  have room := separate.currentRoom
  have changes : Changes L.currentExtent.Contains k.cpu.mem (k.cpu.mem.store32 L.currentTask (L.task t)) :=
    changes_store32 k.cpu.mem L.currentTask (L.task t) room
  constructor
  case represents =>
    constructor
    case nodes =>
      have off (n : NodePtr τ) (alive : Live live n) (x : Nat) (lower : (L.address n).toNat ≤ x)
          (upper : x < (L.address n).toNat + 8) : ¬ L.currentExtent.Contains x := by
        simp only [Contains, KernelLayout.currentExtent, stop]
        rcases (separate.addressing live).inside n alive with same | ⟨u, same⟩
        · have apart := separate.queueCurrent
          simp only [Apart, KernelLayout.queueExtent, KernelLayout.currentExtent, stop] at apart
          rw [same] at lower upper
          omega
        · have apart := separate.taskCurrent u
          simp only [Apart, KernelLayout.taskExtent, KernelLayout.currentExtent, stop, sizeofTask] at apart
          rw [same] at lower upper
          omega
      have kept := separate.node_kept changes off represents.nodes
      exact ⟨kept.backward, kept.forward⟩
    case fields =>
      intro u alive
      apply (represents.fields u alive).kept (separate.room u) changes
      intro x lower upper inside
      have apart := separate.taskCurrent u
      simp only [Apart, Contains, KernelLayout.taskExtent, KernelLayout.currentExtent, stop, sizeofTask] at apart inside
      omega
    case current => exact load32_store32 k.cpu.mem L.currentTask (L.task t)
    case flag => exact represents.flag
  case changes => exact changes.mono fun x inside => .inr (.inl inside)
  case context => rfl

theorem Represents.x86Cli (represents : Represents L live k s) : Follows L live k k.x86Cli (Tasks.x86Cli s) :=
  ⟨⟨⟨represents.nodes.backward, represents.nodes.forward⟩, represents.fields, represents.current, rfl⟩, Changes.refl _ _, rfl⟩

theorem Represents.x86Sti (represents : Represents L live k s) : Follows L live k k.x86Sti (Tasks.x86Sti s) :=
  ⟨⟨⟨represents.nodes.backward, represents.nodes.forward⟩, represents.fields, represents.current, rfl⟩, Changes.refl _ _, rfl⟩

/-! ### The run queue -/

/-- A list operation: the two words of some nodes change, the tasks' other fields do not. -/
theorem Represents.relink {m : Memory} (separate : L.Separate) (represents : Represents L live k s)
    (nodes : Embeds L.address (Live live) s' m)
    (bytes : ∀ x : Word, Insulated (fun m : Memory => m x) L.IsNode → m x = k.cpu.mem x) (tasks : s'.tasks = s.tasks)
    (current : s'.currentTask = s.currentTask) (flag : s'.interruptFlag = s.interruptFlag) :
    Follows L live k (k.setMem m) s' := by
  have changes : Changes (fun x => ∃ a, L.IsNode a ∧ a.toNat ≤ x ∧ x < a.toNat + 8) k.cpu.mem m := by
    intro x outside
    apply bytes
    apply separate.nodesApart.insulated
    intro a isNode
    by_contra inside
    exact outside ⟨a, isNode, by omega, by omega⟩
  constructor
  case represents =>
    constructor
    case nodes => exact nodes
    case fields =>
      intro u alive
      rw [tasks]
      apply (represents.fields u alive).kept (separate.room u) changes
      rintro x lower upper ⟨a, isNode, low, high⟩
      exact separate.field_off_node u isNode low high ⟨lower, by omega⟩
    case current =>
      rw [current, ← represents.current]
      apply separate.current_kept changes
      rintro x inside ⟨a, isNode, low, high⟩
      simp only [Contains, KernelLayout.currentExtent, stop] at inside
      rcases isNode with rfl | ⟨u, rfl⟩
      · have apart := separate.queueCurrent
        simp only [Apart, KernelLayout.queueExtent, KernelLayout.currentExtent, stop] at apart
        omega
      · have apart := separate.taskCurrent u
        simp only [Apart, KernelLayout.taskExtent, KernelLayout.currentExtent, stop, sizeofTask] at apart
        omega
    case flag => rw [flag]; exact represents.flag
  case changes =>
    apply changes.mono
    rintro x ⟨a, isNode, low, high⟩
    rcases isNode with rfl | ⟨u, rfl⟩
    · exact .inl ⟨low, high⟩
    · exact .inr (.inr ⟨u, low, by omega⟩)
  case context => rfl

theorem queue_live (ring : QueueIs s queue) (all : ∀ u ∈ queue, live u) {x : NodePtr τ}
    (member : x ∈ NodePtr.runQueue :: queue.map NodePtr.task) : Live live x ∧ Live live (s.nextOf x) ∧ Live live (s.prevOf x) := by
  have inside {y : NodePtr τ} (member : y ∈ NodePtr.runQueue :: queue.map NodePtr.task) : Live live y := by
    rcases List.mem_cons.mp member with rfl | member
    · trivial
    · obtain ⟨u, queued, rfl⟩ := List.mem_map.mp member
      exact all u queued
  obtain ⟨forward, backward⟩ := ring.closed x member
  exact ⟨inside member, inside forward, inside backward⟩

theorem Represents.addHead (separate : L.Separate) (represents : Represents L live k s) (ring : QueueIs s queue)
    (all : ∀ u ∈ queue, live u) (alive : live t) :
    Follows L live k (k.setMem (listAddHead k.cpu.mem L.runQueue (L.task t))) (listAddHead s .runQueue (.task t)) := by
  have addressing := separate.addressing live
  obtain ⟨inList, inNext, -⟩ := queue_live ring all List.mem_cons_self
  have nodes := embeds_addHead represents.nodes addressing inList inNext (show Live live (.task t) from alive) (by simp)
  refine represents.relink separate nodes ?_ rfl rfl rfl
  intro x quiet
  have next : L.IsNode (NodeStore.next k.cpu.mem L.runQueue) := by
    have forward : NodeStore.next k.cpu.mem L.runQueue = _ := represents.nodes.forward .runQueue inList
    rw [forward]
    exact addressing.inside _ inNext
  exact listAddHead_frame addressing.target (.inl rfl) (.inr ⟨t, rfl⟩) (separate.task_ne_queue t) quiet (.inl rfl) next
    (.inr ⟨t, rfl⟩)

theorem Represents.addTail (separate : L.Separate) (represents : Represents L live k s) (ring : QueueIs s queue)
    (all : ∀ u ∈ queue, live u) (alive : live t) :
    Follows L live k (k.setMem (listAddTail k.cpu.mem L.runQueue (L.task t))) (listAddTail s .runQueue (.task t)) := by
  have addressing := separate.addressing live
  obtain ⟨inList, -, inPrev⟩ := queue_live ring all List.mem_cons_self
  have nodes := embeds_addTail represents.nodes addressing inList inPrev (show Live live (.task t) from alive) (by simp)
  refine represents.relink separate nodes ?_ rfl rfl rfl
  intro x quiet
  have prev : L.IsNode (NodeStore.prev k.cpu.mem L.runQueue) := by
    have backward : NodeStore.prev k.cpu.mem L.runQueue = _ := represents.nodes.backward .runQueue inList
    rw [backward]
    exact addressing.inside _ inPrev
  exact listAddTail_frame addressing.target (.inl rfl) (.inr ⟨t, rfl⟩) (separate.task_ne_queue t) quiet (.inl rfl) prev
    (.inr ⟨t, rfl⟩)

theorem Represents.delete (separate : L.Separate) (represents : Represents L live k s) (ring : QueueIs s (t :: queue))
    (all : ∀ u ∈ t :: queue, live u) :
    Follows L live k (k.setMem (listDelete k.cpu.mem (L.task t))) (listDelete s (.task t)) := by
  have addressing := separate.addressing live
  obtain ⟨inItem, inNext, inPrev⟩ := queue_live ring all (x := .task t) (by simp)
  have nodes := embeds_delete represents.nodes addressing rfl inItem inPrev inNext
  refine represents.relink separate nodes ?_ rfl rfl rfl
  intro x quiet
  have forward : NodeStore.next k.cpu.mem (L.task t) = _ := represents.nodes.forward (.task t) inItem
  have backward : NodeStore.prev k.cpu.mem (L.task t) = _ := represents.nodes.backward (.task t) inItem
  have whole : Ring s .runQueue ([] ++ NodePtr.task t :: queue.map NodePtr.task) := ring
  have other : NodePtr.task t ≠ s.nextOf (.task t) := by
    have next : s.nextOf (.task t) = (queue.map NodePtr.task).headD .runQueue := ring_next whole
    rw [next]
    intro same
    have member := headD_mem NodePtr.runQueue (queue.map NodePtr.task)
    rw [← same] at member
    exact fresh_node (List.nodup_cons.mp ring.nodup).1 member
  refine listDelete_frame addressing.target (.inr ⟨t, rfl⟩) ?_ ?_ quiet (.inr ⟨t, rfl⟩) ?_ ?_
  · rw [forward]; exact addressing.inside _ inNext
  · rw [forward]; exact addressing.ne inItem inNext other
  · rw [backward]; exact addressing.inside _ inPrev
  · rw [forward]; exact addressing.inside _ inNext

/-! ### The functions of `task.c` -/

theorem ofInt_succ (n : Int) : BitVec.ofInt 32 n + 1#32 = BitVec.ofInt 32 (n + 1) := by
  have one : BitVec.ofInt 32 1 = 1#32 := by decide
  rw [BitVec.ofInt_add, one]

theorem ofInt_pred (n : Int) : BitVec.ofInt 32 n - 1#32 = BitVec.ofInt 32 (n - 1) := by
  have whole := ofInt_succ (n - 1)
  rw [Int.sub_add_cancel] at whole
  rw [← whole, BitVec.add_sub_cancel]

theorem Represents.criticalSectionCount (represents : Represents L live k s) (alive : live t) :
    k.criticalSectionCount (L.task t) = BitVec.ofInt 32 (s.count t) := (represents.fields t alive).count

theorem Represents.count_iff (represents : Represents L live k s) (alive : live s.currentTask) (w : Word)
    (low : 0 ≤ s.count s.currentTask) (high : s.count s.currentTask < 2^31) :
    k.criticalSectionCount (k.currentTask L.toGlobals) = w ↔ s.count s.currentTask = w.toInt := by
  have count : (BitVec.ofInt 32 (s.count s.currentTask)).toInt = s.count s.currentTask := by
    rw [BitVec.toInt_ofInt]
    exact Int.bmod_eq_of_le (by omega) (by omega)
  rw [represents.current, represents.criticalSectionCount alive, ← BitVec.toInt_inj, count]

theorem Represents.enterCriticalSection (separate : L.Separate) (represents : Represents L live k s)
    (alive : live s.currentTask) (low : 0 ≤ s.count s.currentTask) (high : s.count s.currentTask + 1 < 2^31) :
    Follows L live k (k.enterCriticalSection L.toGlobals) (Tasks.enterCriticalSection s) := by
  have counted := represents.setCount separate alive (s.count s.currentTask + 1)
  have value : (s.setCount s.currentTask (s.count s.currentTask + 1)).count
      (s.setCount s.currentTask (s.count s.currentTask + 1)).currentTask = s.count s.currentTask + 1 :=
    (count_setCount s _ _ _).trans (if_pos rfl)
  have test := counted.represents.count_iff alive 1#32 (by omega) (by omega)
  unfold Kernel.enterCriticalSection Tasks.enterCriticalSection
  simp only [represents.current, represents.criticalSectionCount alive, ofInt_succ]
  by_cases one : (s.setCount s.currentTask (s.count s.currentTask + 1)).count
      (s.setCount s.currentTask (s.count s.currentTask + 1)).currentTask = 1
  · rw [if_pos (test.mpr one), if_pos one]
    exact counted.trans counted.represents.x86Cli
  · rw [if_neg (mt test.mp one), if_neg one]
    exact counted

theorem Represents.exitCriticalSection (separate : L.Separate) (represents : Represents L live k s)
    (alive : live s.currentTask) (low : 1 ≤ s.count s.currentTask) (high : s.count s.currentTask < 2^31) :
    Follows L live k (k.exitCriticalSection L.toGlobals) (Tasks.exitCriticalSection s) := by
  have counted := represents.setCount separate alive (s.count s.currentTask - 1)
  have value : (s.setCount s.currentTask (s.count s.currentTask - 1)).count
      (s.setCount s.currentTask (s.count s.currentTask - 1)).currentTask = s.count s.currentTask - 1 :=
    (count_setCount s _ _ _).trans (if_pos rfl)
  have test := counted.represents.count_iff alive 0#32 (by omega) (by omega)
  unfold Kernel.exitCriticalSection Tasks.exitCriticalSection
  simp only [represents.current, represents.criticalSectionCount alive, ofInt_pred]
  by_cases zero : (s.setCount s.currentTask (s.count s.currentTask - 1)).count
      (s.setCount s.currentTask (s.count s.currentTask - 1)).currentTask = 0
  · rw [if_pos (test.mpr zero), if_pos zero]
    exact counted.trans counted.represents.x86Sti
  · rw [if_neg (mt test.mp zero), if_neg zero]
    exact counted

theorem Represents.state_iff (represents : Represents L live k s) (alive : live t) (v : TaskState) :
    k.state (L.task t) = v.code ↔ s.state t = v := by
  have code : k.state (L.task t) = (s.state t).code := (represents.fields t alive).state
  rw [code]
  constructor
  · exact TaskState.code_inj
  · intro same
    rw [same]

theorem Represents.requeueCurrent (separate : L.Separate) (represents : Represents L live k s) (ring : QueueIs s queue)
    (all : ∀ u ∈ queue, live u) (alive : live s.currentTask) :
    Follows L live k (k.requeueCurrent L.toGlobals) (Tasks.requeueCurrent s) := by
  unfold Kernel.requeueCurrent Tasks.requeueCurrent
  rw [represents.current]
  by_cases running : s.state s.currentTask = .running
  · rw [if_pos ((represents.state_iff alive .running).mpr running), if_pos running]
    have moved := represents.setState separate alive .ready
    have ring' : QueueIs (s.setState s.currentTask .ready) queue := ring.same rfl rfl
    have queued := moved.represents.addTail separate ring' all alive
    simp only [moved.represents.current]
    exact moved.trans queued
  · rw [if_neg (mt (represents.state_iff alive .running).mp running), if_neg running]
    exact represents.follows

/-- The node `list_remove_head` returns is the task picked. -/
theorem Represents.pickNext (separate : L.Separate) (represents : Represents L live k s) (ring : QueueIs s queue)
    (all : ∀ u ∈ queue, live u) :
    (k.pickNext L.toGlobals).1 = L.task (Tasks.pickNext L.idle s).1 ∧
      Follows L live k (k.pickNext L.toGlobals).2 (Tasks.pickNext L.idle s).2 := by
  have first : NodeStore.next k.cpu.mem L.runQueue = L.address (s.nextOf .runQueue) :=
    represents.nodes.forward .runQueue trivial
  cases queue with
  | nil =>
    have next : s.nextOf .runQueue = .runQueue := ring_next_head ring
    have none : listRemoveHead k.cpu.mem L.runQueue = (0#32, k.cpu.mem) := by
      unfold listRemoveHead
      rw [first, next]
      exact if_neg (not_not.mpr rfl)
    simp only [Kernel.pickNext, none, if_true, pickNext_empty L.idle ring]
    exact ⟨separate.idle.symm, represents.follows⟩
  | cons t queue =>
    have next : s.nextOf .runQueue = .task t := ring_next_head ring
    have some : listRemoveHead k.cpu.mem L.runQueue = (L.task t, listDelete k.cpu.mem (L.task t)) := by
      unfold listRemoveHead
      rw [first, next]
      exact if_pos (separate.task_ne_queue t)
    simp only [Kernel.pickNext, some, if_neg (separate.taskNull t), pickNext_cons L.idle ring]
    exact ⟨trivial, represents.delete separate ring all⟩

/-- The task `task_reschedule` goes on with, made the current one. -/
def chooseTask (idleTask : τ) (s : Sched τ) : τ × Sched τ :=
  let (nextTask, s) := Tasks.pickNext idleTask (Tasks.requeueCurrent (Tasks.enterCriticalSection s))
  (nextTask, { s with currentTask := nextTask }.setState nextTask .running)

theorem Represents.chooseTask (separate : L.Separate) (represents : Represents L live k s) (ring : QueueIs s queue)
    (all : ∀ u ∈ queue, live u) (absent : s.state s.currentTask = .running → s.currentTask ∉ queue)
    (alive : live s.currentTask) (idle : live L.idle) (low : 0 ≤ s.count s.currentTask)
    (high : s.count s.currentTask + 1 < 2^31) :
    (k.chooseTask L.toGlobals).1 = L.task s.currentTask ∧
      (k.chooseTask L.toGlobals).2.1 = L.task (Tasks.chooseTask L.idle s).1 ∧
      Follows L live k (k.chooseTask L.toGlobals).2.2 (Tasks.chooseTask L.idle s).2 := by
  have same := enter_same s
  have entered := represents.enterCriticalSection separate alive low high
  have alive' : live (Tasks.enterCriticalSection s).currentTask := same.currentTask ▸ alive
  have ring' : QueueIs (Tasks.enterCriticalSection s) queue := ring.same same.prevOf same.nextOf
  have requeued := entered.represents.requeueCurrent separate ring' all alive'
  have ring'' := requeueCurrent_spec ring' (by
    rw [same.state, same.currentTask]
    exact absent)
  have all' : ∀ u ∈ waiting (Tasks.enterCriticalSection s) queue, live u := by
    intro u member
    simp only [waiting] at member
    split at member
    · rcases List.mem_append.mp member with queued | own
      · exact all u queued
      · rw [List.mem_singleton.mp own]
        exact alive'
    · exact all u member
  obtain ⟨node, picked⟩ := requeued.represents.pickNext separate ring'' all'
  have next : live (Tasks.pickNext L.idle (Tasks.requeueCurrent (Tasks.enterCriticalSection s))).1 := by
    obtain ⟨s', found, -⟩ := pickNext_spec L.idle ring''
    rw [found]
    rcases headD_cases (waiting (Tasks.enterCriticalSection s) queue) L.idle with member | ⟨-, none⟩
    · exact all' _ member
    · rw [none]
      exact idle
  have made := picked.represents.setCurrent separate (Tasks.pickNext L.idle (Tasks.requeueCurrent (Tasks.enterCriticalSection s))).1
  have running := made.represents.setState separate next .running
  simp only [Kernel.chooseTask, Tasks.chooseTask, node, made.represents.current]
  exact ⟨entered.represents.current.trans (congrArg L.task same.currentTask), trivial,
    (((entered.trans requeued).trans picked).trans made).trans running⟩

/-- Which of the three places control goes on in makes no difference in memory. -/
theorem Represents.resumeAt (separate : L.Separate) (represents : Represents L live k s) (alive : live s.currentTask)
    (low : 1 ≤ s.count s.currentTask) (high : s.count s.currentTask < 2^31) (r : Resume) :
    Follows L live k (k.exitCriticalSection L.toGlobals) (Tasks.resumeAt s r) := by
  have left := represents.exitCriticalSection separate alive low high
  cases r with
  | trampoline => exact left
  | afterSwitch caller =>
    cases caller with
    | yield => exact left
    | exit => exact ⟨left.represents.congr rfl rfl rfl rfl rfl, left.changes, left.context⟩

theorem Represents.taskStart (separate : L.Separate) (represents : Represents L live k s) (ring : QueueIs s queue)
    (all : ∀ u ∈ queue, live u) (current : live s.currentTask) (alive : live t) (low : 0 ≤ s.count s.currentTask)
    (high : s.count s.currentTask + 1 < 2^31) :
    (k.taskStart L.toGlobals (L.task t)).1 = (Tasks.taskStart s t).1 ∧
      Follows L live k (k.taskStart L.toGlobals (L.task t)).2 (Tasks.taskStart s t).2 := by
  have same := enter_same s
  have entered := represents.enterCriticalSection separate current low high
  have current' : live (Tasks.enterCriticalSection s).currentTask := same.currentTask ▸ current
  have ring' : QueueIs (Tasks.enterCriticalSection s) queue := ring.same same.prevOf same.nextOf
  have count : (Tasks.enterCriticalSection s).count (Tasks.enterCriticalSection s).currentTask =
      s.count s.currentTask + 1 := by
    rw [count_enter, same.currentTask, if_pos rfl]
  have test := entered.represents.state_iff alive .initial
  unfold Kernel.taskStart Tasks.taskStart
  by_cases fresh : (Tasks.enterCriticalSection s).state t = .initial
  · have readied := entered.represents.setState separate alive .ready
    have ring'' : QueueIs ((Tasks.enterCriticalSection s).setState t .ready) queue := ring'.same rfl rfl
    have queued := readied.represents.addHead separate ring'' all alive
    have counts : (listAddHead ((Tasks.enterCriticalSection s).setState t .ready) .runQueue (.task t)).count
        (Tasks.enterCriticalSection s).currentTask = s.count s.currentTask + 1 :=
      (count_setState (Tasks.enterCriticalSection s) t _ .ready).trans count
    have left := queued.represents.exitCriticalSection separate current' (by
      show 1 ≤ Sched.count _ (Tasks.enterCriticalSection s).currentTask
      omega) (by
      show Sched.count _ (Tasks.enterCriticalSection s).currentTask < 2^31
      omega)
    simp only [ne_eq, test.mpr fresh, fresh, not_true_eq_false, if_false]
    exact ⟨trivial, ((entered.trans readied).trans queued).trans left⟩
  · have left := entered.represents.exitCriticalSection separate current' (by omega) (by omega)
    have refused := mt test.mp fresh
    simp only [ne_eq, refused, fresh, not_false_eq_true, if_true]
    exact ⟨trivial, entered.trans left⟩

end

end ThreeX86.Tasks
