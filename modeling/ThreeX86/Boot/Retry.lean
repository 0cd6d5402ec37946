import ThreeX86.Boot.Load

/-!
Reads that fail, and what `load_floppy` asks for when it tries again.
-/

namespace ThreeX86.Boot

open Machine Machine.Memory

def reads (log : List Request) : Nat := log.countP fun r => r.function = 2#8

/-- The read number `i` fails if `fails i`, and all others are those of a disk service that always succeeds. -/
structure Unreliable (fails : Nat → Bool) (reliable : Cpu → Cpu) (int13 : List Request → Cpu → Cpu) : Prop where
  success : ∀ history c, (Request.of c).function = 2#8 → fails (reads history) = false → int13 history c = reliable c
  failure : ∀ history c, (Request.of c).function = 2#8 → fails (reads history) = true →
    (int13 history c).cf = true ∧ SameRegs c (int13 history c)
  reset : ∀ history c, (Request.of c).function = 0#8 → lo16 (int13 history c).ebx = lo16 c.ebx ∧
    lo16 (int13 history c).ecx = lo16 c.ecx ∧ lo16 (int13 history c).edx = lo16 c.edx

/-- The two requests read the same sectors to the same buffer. -/
structure Request.SameRead (r r' : Request) : Prop where
  cylinder : r'.cylinder = r.cylinder
  sector : r'.sector = r.sector
  head : r'.head = r.head
  count : r'.count = r.count
  buffer : r'.buffer = r.buffer

/-- Behind a read that fails come a reset and the same read again. -/
def RetriesRepeat (fails : Nat → Bool) (log : List Request) : Prop :=
  ∀ i r r', log[i]? = some r → r.function = 2#8 → fails (reads (log.take i)) = true → log[i + 2]? = some r' →
    r.SameRead r'

def passes (sector left : Nat) : Nat := 1 + (left - share sector left + 17) / 18

theorem passes_next {sector left : Nat} (more : share sector left < left) :
    passes sector left = 1 + passes 1 (left - share sector left) := by
  unfold passes
  have rest : share 1 (left - share sector left) = min 18 (left - share sector left) := rfl
  omega

theorem passes_last {sector left : Nat} (last : ¬ share sector left < left) : passes sector left = 1 := by
  unfold passes
  omega

/-- The registers that `readSectors` calls the disk service with. -/
def readRegisters (c : Cpu) : Cpu :=
  let c := sectorCount c
  let c := { c with ecx := setLo16 c.ecx (lo16 c.ebx) }
  let c := { c with ebx := setLo16 c.ebx 0x8000#16 }
  { c with eax := setHi8 c.eax 2#8 }

theorem readSectors_eq (bios : Bios) (s : State) :
    readSectors bios s = int13 bios ⟨readRegisters s.cpu, s.requests⟩ := rfl

def Exit.requests : Exit → List Request
  | .ret s => s.requests
  | .reboot s => s.requests

section

variable {bios : Bios} {labels : Labels}

/-! ### The code behind a read -/

def countFailure (labels : Labels) (s : State) : State :=
  let retrycnt := s.cpu.mem (labels.retrycnt.zeroExtend 32) - 1#8
  { s with cpu := { s.cpu with mem := s.cpu.mem.store8 (labels.retrycnt.zeroExtend 32) retrycnt } }

def resetDisk (bios : Bios) (s : State) : State :=
  int13 bios { s with cpu := { s.cpu with eax := setHi8 s.cpu.eax 0#8 } }

theorem tryagain_failed (bios : Bios) (labels : Labels) {fuel : Nat} {s : State}
    (failed : (readSectors bios s).cpu.cf = true) :
    tryagain bios labels (fuel + 1) s =
      if (readSectors bios s).cpu.mem (labels.retrycnt.zeroExtend 32) - 1#8 = 0#8 then
        fail bios labels fuel (countFailure labels (readSectors bios s))
      else tryagain bios labels fuel (resetDisk bios (countFailure labels (readSectors bios s))) := by
  rw [tryagain]
  exact if_pos failed

theorem tryagain_read (bios : Bios) (labels : Labels) {fuel : Nat} {s : State}
    (success : (readSectors bios s).cpu.cf = false) :
    tryagain bios labels (fuel + 1) s = (okok bios labels fuel (readSectors bios s).cpu).bind fun p =>
      if p.1 then tryagain bios labels fuel { readSectors bios s with cpu := savePosition p.2 }
      else some (.ret { readSectors bios s with cpu := p.2.ret16 }) := by
  rw [tryagain]
  simp only [success, Bool.false_eq_true, if_false]
  cases okok bios labels fuel (readSectors bios s).cpu with
  | none => rfl
  | some p => rfl

theorem tryagain_cases {fuel : Nat} {s : State} {e : Exit} (run : tryagain bios labels (fuel + 1) s = some e) :
    let after := readSectors bios s
    (after.cpu.cf = true ∧ ∃ c, e = .reboot { after with cpu := c }) ∨
    (after.cpu.cf = true ∧ tryagain bios labels fuel (resetDisk bios (countFailure labels after)) = some e) ∨
    (after.cpu.cf = false ∧ ∃ c, okok bios labels fuel after.cpu = some (true, c) ∧
      tryagain bios labels fuel { after with cpu := savePosition c } = some e) ∨
    (after.cpu.cf = false ∧ ∃ c, okok bios labels fuel after.cpu = some (false, c) ∧
      e = .ret { after with cpu := c.ret16 }) := by
  intro after
  cases flag : after.cpu.cf with
  | true =>
    rw [tryagain_failed bios labels flag] at run
    split at run
    · obtain ⟨c, printed, rfl⟩ := Option.map_eq_some_iff.mp run
      exact Or.inl ⟨rfl, c, rfl⟩
    · exact Or.inr (Or.inl ⟨rfl, run⟩)
  | false =>
    rw [tryagain_read bios labels flag] at run
    obtain ⟨⟨more, c⟩, copied, next⟩ := Option.bind_eq_some_iff.mp run
    cases more with
    | true => exact Or.inr (Or.inr (Or.inl ⟨rfl, c, copied, next⟩))
    | false => exact Or.inr (Or.inr (Or.inr ⟨rfl, c, copied, (Option.some.inj next).symm⟩))

/-! ### The log only grows -/

theorem readSectors_requests (bios : Bios) (s : State) :
    (readSectors bios s).requests = s.requests ++ [Request.of (readRegisters s.cpu)] := rfl

theorem tryagain_prefix {fuel : Nat} {s : State} {e : Exit} (run : tryagain bios labels fuel s = some e) :
    s.requests <+: e.requests := by
  induction fuel generalizing s with
  | zero => cases run
  | succ fuel ih =>
    have asked : s.requests <+: (readSectors bios s).requests := List.prefix_append _ _
    obtain ⟨_, c, rfl⟩ | ⟨_, next⟩ | ⟨_, c, _, next⟩ | ⟨_, c, _, rfl⟩ := tryagain_cases run
    · exact asked
    · exact (asked.trans (List.prefix_append _ _)).trans (ih next)
    · have rest := ih next
      exact asked.trans rest
    · exact asked

theorem tryagain_requests {fuel : Nat} {s : State} {e : Exit} (run : tryagain bios labels (fuel + 1) s = some e) :
    (readSectors bios s).requests <+: e.requests := by
  obtain ⟨_, c, rfl⟩ | ⟨_, next⟩ | ⟨_, c, _, next⟩ | ⟨_, c, _, rfl⟩ := tryagain_cases run
  · exact List.prefix_refl _
  · have rest := tryagain_prefix next
    exact (List.prefix_append _ _).trans rest
  · have rest := tryagain_prefix next
    exact rest
  · exact List.prefix_refl _

/-! ### A failing read -/

variable {top : Word} {ra : BitVec 16} {length n dest k : Nat} {c : Cpu} {h : List Request} {fails : Nat → Bool}
  {reliable : Cpu → Cpu}

theorem reads_all (all : ∀ r ∈ h, r.function = 2#8) : reads h = h.length := by
  unfold reads
  rw [List.countP_eq_length]
  intro r member
  exact decide_eq_true (all r member)

theorem sectorCount_ebx (c : Cpu) : (sectorCount c).ebx = c.ebx := by
  unfold sectorCount
  dsimp only
  split <;> rfl

/-- With the buffer address in `bx`, a read starts at sector 0. -/
theorem readRegisters_sector {c : Cpu} (bx : lo16 c.ebx = 0x8000#16) : (Request.of (readRegisters c)).sector = 0#8 := by
  show lo8 (setLo16 (sectorCount c).ecx (lo16 (sectorCount c).ebx)) = 0#8
  apply BitVec.eq_of_toNat_eq
  rw [toNat_lo8_setLo16, sectorCount_ebx, bx]
  rfl

theorem resetDisk_bx (unreliable : Unreliable fails reliable bios.int13) (s : State) :
    lo16 (resetDisk bios s).cpu.ebx = lo16 s.cpu.ebx :=
  (unreliable.reset s.requests { s.cpu with eax := setHi8 s.cpu.eax 0#8 } (hi8_setHi8 _ _)).1

theorem Loading.retry_differs {s : State} {fuel : Nat} (unreliable : Unreliable fails reliable bios.int13)
    (setting : Setting labels top length n dest) (loading : Loading labels top ra length n dest k c) (more : k < n)
    (all : ∀ r ∈ h, r.function = 2#8) (failed : fails h.length = true)
    (run : Boot.tryagain bios labels fuel ⟨savePosition c, h⟩ = some (.ret s)) : ¬ RetriesRepeat fails s.requests := by
  obtain ⟨asked, call, request, -⟩ := loading.asked (h := h) bios setting more
  have number := reads_all all
  have function : (Request.of asked).function = 2#8 := by rw [request]; rfl
  obtain ⟨flag, same⟩ := unreliable.failure h asked function (by rw [number]; exact failed)
  have after : readSectors bios ⟨savePosition c, h⟩ = ⟨bios.int13 h asked, h ++ [Request.of asked]⟩ := call
  cases fuel with
  | zero => cases run
  | succ fuel =>
    obtain ⟨_, c', exit⟩ | ⟨_, next⟩ | ⟨success, _⟩ | ⟨success, _⟩ := tryagain_cases run
    · cases exit
    · rw [after] at next
      cases fuel with
      | zero => cases next
      | succ fuel =>
        have log := tryagain_requests next
        rw [readSectors_requests] at log
        obtain ⟨rest, whole⟩ := log
        -- the registers at the second try
        have bx : lo16 asked.ebx = 0x8000#16 := congrArg Request.buffer request
        have kept : lo16 (bios.int13 h asked).ebx = 0x8000#16 := by rw [same.ebx, bx]
        have back := resetDisk_bx unreliable (countFailure labels ⟨bios.int13 h asked, h ++ [Request.of asked]⟩)
        have retried := readRegisters_sector (back.trans kept)
        generalize Request.of (readRegisters _) = retry at whole retried
        have first : s.requests[h.length]? = some (Request.of asked) := by
          rw [← show _ = s.requests from whole]
          simp [resetDisk, int13, countFailure]
        have third : s.requests[h.length + 2]? = some retry := by
          rw [← show _ = s.requests from whole]
          simp [resetDisk, int13, countFailure]
        have before : s.requests.take h.length = h := by
          rw [← show _ = s.requests from whole]
          simp [resetDisk, int13, countFailure]
        intro repeated
        have same := (repeated h.length _ _ first function (by rw [before, number]; exact failed) third).sector
        rw [retried, request] at same
        have zero : 0 = (lo8 c.ebx).toNat := congrArg BitVec.toNat same
        have sector := loading.sector
        omega
    · rw [after] at success
      rw [flag] at success
      cases success
    · rw [after] at success
      rw [flag] at success
      cases success

/-! ### No failing read -/

theorem printLoop_int10 {bios' : Bios} (same : bios'.int10 = bios.int10) : printLoop bios' = printLoop bios := by
  funext fuel
  induction fuel with
  | zero => rfl
  | succ fuel ih =>
    funext c
    simp only [printLoop, same, ih]

theorem okok_int10 {bios' : Bios} (same : bios'.int10 = bios.int10) : okok bios' labels = okok bios labels := by
  funext fuel c
  unfold okok print
  rw [printLoop_int10 same]

/-- A load whose reads all succeed is the one on a disk service without failures. -/
theorem tryagain_reliable {s s' : State} {fuel : Nat} (unreliable : Unreliable fails reliable bios.int13)
    (serves : ∀ c, (Request.of c).function = 2#8 → Served c (reliable c))
    (run : tryagain bios labels fuel s = some (.ret s')) (all : ∀ r ∈ s'.requests, r.function = 2#8)
    (never : ∀ i < s'.requests.length, fails i = false) :
    tryagain ⟨bios.int10, fun _ => reliable⟩ labels fuel s = some (.ret s') := by
  induction fuel generalizing s with
  | zero => cases run
  | succ fuel ih =>
    have log : _ <+: s'.requests := tryagain_requests run
    rw [readSectors_requests] at log
    have shorter := log.length_le
    rw [List.length_append, List.length_singleton] at shorter
    have function : (Request.of (readRegisters s.cpu)).function = 2#8 := hi8_setHi8 _ _
    have number : reads s.requests = s.requests.length := by
      apply reads_all
      intro r member
      exact all r (log.subset (List.mem_append_left _ member))
    have served := unreliable.success s.requests (readRegisters s.cpu) function
      (by rw [number]; exact never _ (by omega))
    have after : readSectors ⟨bios.int10, fun _ => reliable⟩ s = readSectors bios s := by
      rw [readSectors_eq, readSectors_eq]
      unfold int13
      rw [served]
    have success : (readSectors bios s).cpu.cf = false := by
      show (bios.int13 s.requests (readRegisters s.cpu)).cf = false
      rw [served]
      exact (serves _ function).success
    rw [tryagain_read bios labels success] at run
    rw [tryagain_read _ labels (by rw [after]; exact success), after,
      okok_int10 (show (⟨bios.int10, fun _ => reliable⟩ : Bios).int10 = bios.int10 from rfl)]
    cases copied : okok bios labels fuel (readSectors bios s).cpu with
    | none =>
      rw [copied] at run
      cases run
    | some p =>
      obtain ⟨more, c⟩ := p
      rw [copied, Option.bind_some] at run
      rw [Option.bind_some]
      cases more with
      | true =>
        rw [if_pos rfl] at run ⊢
        exact ih run
      | false =>
        rw [if_neg Bool.false_ne_true] at run ⊢
        exact run

theorem Loading.next {fuel : Nat} (unreliable : Unreliable fails reliable bios.int13)
    (serves : ∀ c, (Request.of c).function = 2#8 → Served c (reliable c)) (teletype : Teletype bios.int10)
    (setting : Setting labels top length n dest) (loading : Loading labels top ra length n dest k c) (more : k < n)
    (all : ∀ r ∈ h, r.function = 2#8) (first : fails h.length = false) (enough : length < fuel) :
    ∃ k' c' h' s', k < k' ∧ h'.length = h.length + 1 ∧ (∀ r ∈ h', r.function = 2#8) ∧
      Loading labels top ra length n dest k' c' ∧ s'.requests = h' ∧
      passes (lo8 c.ebx).toNat (n - k) = (if k' < n then 1 + passes (lo8 c'.ebx).toNat (n - k') else 1) ∧
      Boot.tryagain bios labels (fuel + 1) ⟨savePosition c, h⟩ =
        if k' < n then Boot.tryagain bios labels fuel ⟨savePosition c', h'⟩ else some (.ret s') := by
  have number := reads_all all
  have served (asked : Cpu) (request : Request.of asked = requestAt c (share (lo8 c.ebx).toNat (n - k))) :
      Served asked (bios.int13 h asked) := by
    have function : (Request.of asked).function = 2#8 := by rw [request]; rfl
    rw [unreliable.success h asked function (by rw [number]; exact first)]
    exact serves asked function
  obtain ⟨asked, c', request, some, small, amount, next, passed, run⟩ :=
    loading.tryagain teletype setting more served enough
  refine ⟨k + share (lo8 c.ebx).toNat (n - k), c', h ++ [requestAt c (share (lo8 c.ebx).toNat (n - k))], _, by omega,
    by simp, ?_, next, rfl, ?_, run⟩
  · intro r member
    rcases List.mem_append.mp member with member | member
    · exact all r member
    · rw [List.mem_singleton.mp member]
      rfl
  · by_cases rest : k + share (lo8 c.ebx).toNat (n - k) < n
    · have bl : (lo8 c'.ebx).toNat = 1 := by rw [passed.bl]; rfl
      rw [if_pos rest, bl, passes_next (by omega), Nat.sub_add_eq]
    · rw [if_neg rest, passes_last (by omega)]

theorem Loading.loads (unreliable : Unreliable fails reliable bios.int13)
    (serves : ∀ c, (Request.of c).function = 2#8 → Served c (reliable c)) (teletype : Teletype bios.int10)
    (setting : Setting labels top length n dest) (left : Nat) : ∀ {k : Nat} {c : Cpu} {h : List Request} {fuel : Nat},
      n - k = left → k < n → Loading labels top ra length n dest k c → (∀ r ∈ h, r.function = 2#8) →
      (∀ i < passes (lo8 c.ebx).toNat left, fails (h.length + i) = false) → left + length < fuel →
      ∃ s, Boot.tryagain bios labels fuel ⟨savePosition c, h⟩ = some (.ret s) ∧ (∀ r ∈ s.requests, r.function = 2#8) ∧
        s.requests.length = h.length + passes (lo8 c.ebx).toNat left := by
  induction left using Nat.strong_induction_on with
  | h left ih =>
    intro k c h fuel remaining more loading all never enough
    obtain ⟨fuel, rfl⟩ : ∃ f, fuel = f + 1 := ⟨fuel - 1, by omega⟩
    have first := never 0 (by unfold passes; omega)
    obtain ⟨k', c', h', s, later, longer, all', next, requests, count, run⟩ :=
      loading.next unreliable serves teletype setting more all first (show length < fuel by omega)
    rw [remaining] at count
    rw [run]
    by_cases rest : k' < n
    · rw [if_pos rest] at count ⊢
      obtain ⟨s, done, allDone, total⟩ := ih (n - k') (by omega) rfl rest next all' (by
        intro i inside
        rw [longer, Nat.add_assoc]
        exact never (1 + i) (by omega)) (show n - k' + length < fuel by omega)
      exact ⟨s, done, allDone, by omega⟩
    · rw [if_neg rest] at count ⊢
      refine ⟨s, rfl, ?_, ?_⟩
      · rw [requests]
        exact all'
      · rw [requests, longer, count]

theorem Loading.fails_differs (unreliable : Unreliable fails reliable bios.int13)
    (serves : ∀ c, (Request.of c).function = 2#8 → Served c (reliable c)) (teletype : Teletype bios.int10)
    (setting : Setting labels top length n dest) {s : State} (left : Nat) :
    ∀ {k : Nat} {c : Cpu} {h : List Request} {fuel i : Nat},
      n - k = left → k < n → Loading labels top ra length n dest k c → (∀ r ∈ h, r.function = 2#8) →
      i < passes (lo8 c.ebx).toNat left → fails (h.length + i) = true → left + length < fuel →
      Boot.tryagain bios labels fuel ⟨savePosition c, h⟩ = some (.ret s) → ¬ RetriesRepeat fails s.requests := by
  induction left using Nat.strong_induction_on with
  | h left ih =>
    intro k c h fuel i remaining more loading all inside failed enough run
    obtain ⟨fuel, rfl⟩ : ∃ f, fuel = f + 1 := ⟨fuel - 1, by omega⟩
    cases now : fails h.length with
    | true => exact loading.retry_differs unreliable setting more all now run
    | false =>
      obtain ⟨k', c', h', s', later, longer, all', next, requests, count, step⟩ :=
        loading.next unreliable serves teletype setting more all now (show length < fuel by omega)
      cases i with
      | zero =>
        rw [Nat.add_zero, now] at failed
        cases failed
      | succ i =>
        rw [remaining] at count
        have rest : k' < n := by
          by_contra last
          rw [if_neg last] at count
          omega
        rw [if_pos rest] at count
        rw [step, if_pos rest] at run
        exact ih (n - k') (by omega) rfl rest next all' (show i < _ by omega)
          (by rw [longer, Nat.add_assoc, Nat.add_comm 1]; exact failed) (show n - k' + length < fuel by omega) run

/-! ### Retries -/

/-- The load returns, retries repeat the read that failed, and what is loaded is what would be without failures. -/
def RepeatsRead (bios : Bios) (labels : Labels) (fails : Nat → Bool) (reliable : Cpu → Cpu) (n dest : Nat) (c : Cpu) :
    Prop :=
  ∃ enough, ∀ fuel ≥ enough, ∃ s s₀,
    loadFloppy bios labels fuel ⟨c, []⟩ = some (.ret s) ∧
    loadFloppy ⟨bios.int10, fun _ => reliable⟩ labels fuel ⟨c, []⟩ = some (.ret s₀) ∧
    RetriesRepeat fails s.requests ∧
    ∀ i < 512 * n, s.cpu.mem (BitVec.ofNat 32 (dest + i)) = s₀.cpu.mem (BitVec.ofNat 32 (dest + i))

theorem fails_not_repeatsRead (unreliable : Unreliable fails reliable bios.int13)
    (serves : ∀ c, (Request.of c).function = 2#8 → Served c (reliable c)) (teletype : Teletype bios.int10)
    (setting : Setting labels top length n dest) (loading : Loading labels top ra length n dest 0 c) (some : 1 ≤ n)
    {i : Nat} (inside : i < passes (lo8 c.ebx).toNat n) (failed : fails i = true) :
    ¬ RepeatsRead bios labels fails reliable n dest c := by
  rintro ⟨enough, loads⟩
  obtain ⟨s, s₀, run, _, repeated, _⟩ := loads (enough + n + length + 1) (by omega)
  have differs := Loading.fails_differs (h := []) unreliable serves teletype setting n (Nat.sub_zero n) some loading
    (by simp) inside (by rw [List.length_nil, Nat.zero_add]; exact failed) (by omega) run
  exact differs repeated

/-- A retry never repeats the read: the load is as without failures exactly when none of its reads fails. -/
theorem retries_repeat_iff (unreliable : Unreliable fails reliable bios.int13)
    (serves : ∀ c, (Request.of c).function = 2#8 → Served c (reliable c)) (teletype : Teletype bios.int10)
    (setting : Setting labels top length n dest) (loading : Loading labels top ra length n dest 0 c) (some : 1 ≤ n) :
    RepeatsRead bios labels fails reliable n dest c ↔ ∀ i < passes (lo8 c.ebx).toNat n, fails i = false := by
  constructor
  · intro repeats i inside
    by_contra failed
    rw [Bool.not_eq_false] at failed
    exact fails_not_repeatsRead unreliable serves teletype setting loading some inside failed repeats
  · intro never
    refine ⟨n + length + 1, ?_⟩
    intro fuel enough
    obtain ⟨s, run, all, count⟩ := Loading.loads (h := []) unreliable serves teletype setting n (Nat.sub_zero n) some
      loading (by simp) (by
        intro i inside
        rw [List.length_nil, Nat.zero_add]
        exact never i inside) (show n + length < fuel by omega)
    rw [List.length_nil, Nat.zero_add] at count
    refine ⟨s, s, run, tryagain_reliable unreliable serves run all (by rw [count]; exact never), ?_, fun _ _ => rfl⟩
    -- no read of the log fails
    intro i r r' there function failed _
    have index : i < s.requests.length := (List.getElem?_eq_some_iff.mp there).1
    have number : reads (s.requests.take i) = i := by
      rw [reads_all fun r member => all r (List.mem_of_mem_take member), List.length_take]
      omega
    rw [number, never i (by omega)] at failed
    cases failed

end

/-! One sector, read from the third of the disk. -/

/-- A disk service whose read number `i` fails if `fails i`. -/
def failingService (fails : Nat → Bool) (history : List Request) (c : Cpu) : Cpu :=
  if (Request.of c).function = 2#8 then
    if fails (reads history) then { c with cf := true } else diskService (fun _ => 0#8) [] c
  else { c with cf := false }

theorem failingService_unreliable (fails : Nat → Bool) :
    Unreliable fails (diskService (fun _ => 0#8) []) (failingService fails) := by
  constructor
  case success =>
    intro history c function success
    unfold failingService
    rw [if_pos function, success, if_neg Bool.false_ne_true]
  case failure =>
    intro history c function failure
    unfold failingService
    rw [if_pos function, failure, if_pos rfl]
    exact ⟨rfl, rfl, rfl, rfl, rfl, rfl, rfl, rfl⟩
  case reset =>
    intro history c function
    have other : (Request.of c).function ≠ 2#8 := by
      rw [function]
      decide
    unfold failingService
    rw [if_neg other]
    exact ⟨rfl, rfl, rfl⟩

def thirdSector : Cpu :=
  { smallCpu with
    ebx := 3#32
    ecx := 1#32
    edi := 0x100000#32
    esp := 0x7bfe#32
    mem := fun x => if x = 0x7ffe#32 then 0x2e#8 else if x = 0x7c04#32 then 3#8 else 0#8 }

theorem thirdSector_setting : Setting smallLabels 0x7bfe#32 1 1 0x100000 := by
  constructor <;> decide

theorem thirdSector_loading : Loading smallLabels 0x7bfe#32 0#16 1 1 0x100000 0 thirdSector := by
  constructor
  case dot =>
    constructor
    case text =>
      intro i inside
      obtain rfl : i = 0 := by omega
      decide
    all_goals decide
  all_goals decide

/-- 40 sectors from the same place on, in three reads. -/
def threeTracks : Cpu := { thirdSector with ecx := 40#32 }

theorem threeTracks_setting : Setting smallLabels 0x7bfe#32 1 40 0x100000 := by
  constructor <;> decide

theorem threeTracks_loading : Loading smallLabels 0x7bfe#32 0#16 1 40 0x100000 0 threeTracks := by
  constructor
  case cx => decide
  case esp => exact thirdSector_loading.esp
  case edi => exact thirdSector_loading.edi
  case sector => exact thirdSector_loading.sector
  case returnAddress => exact thirdSector_loading.returnAddress
  case dot => exact thirdSector_loading.dot

theorem retries_repeat_iff_threeTracks :
    RepeatsRead ⟨id, failingService fun i => i = 3⟩ smallLabels (fun i => i = 3) (diskService (fun _ => 0#8) []) 40
      0x100000 threeTracks ∧
    ¬ RepeatsRead ⟨id, failingService fun i => i = 2⟩ smallLabels (fun i => i = 2) (diskService (fun _ => 0#8) []) 40
      0x100000 threeTracks := by
  have repeats_iff (failing : Nat) : RepeatsRead ⟨id, failingService fun i => i = failing⟩ smallLabels (fun i => i = failing)
      (diskService (fun _ => 0#8) []) 40 0x100000 threeTracks ↔
        ∀ i < passes (lo8 threeTracks.ebx).toNat 40, decide (i = failing) = false :=
    retries_repeat_iff (failingService_unreliable _) (fun c _ => diskService_served _ [] c) id_teletype
      threeTracks_setting threeTracks_loading (by decide)
  refine ⟨(repeats_iff 3).mpr (by decide), fun repeats => ?_⟩
  exact absurd ((repeats_iff 2).mp repeats 2 (by decide)) (by decide)

/-- The first read fails, and the second try asks for other sectors. -/
theorem not_repeatsRead_thirdSector :
    ¬ RepeatsRead ⟨id, failingService fun i => i = 0⟩ smallLabels (fun i => i = 0) (diskService (fun _ => 0#8) []) 1
      0x100000 thirdSector :=
  fails_not_repeatsRead (failingService_unreliable _) (fun c _ => diskService_served _ [] c) id_teletype
    thirdSector_setting thirdSector_loading (by decide) (show 0 < _ by decide) (by decide)

end ThreeX86.Boot
