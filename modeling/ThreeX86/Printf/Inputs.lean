import ThreeX86.Printf.Format

namespace ThreeX86.Printf

open Machine Machine.Memory Numerals

/-! What `_printf_engine` reads: the format up to its NUL, the arguments, and the strings they point to. -/

/-- The conversions of a format, each with what its directive has said before it; `none` is the text in between. -/
def scan : Option Format → List Byte → List (Byte × Format)
  | _, [] => []
  | none, b :: text => if b = char '%' then scan (some {}) text else scan none text
  | some f, b :: text =>
    match modifier b f with
    | some f => scan (some f) text
    | none => (b, f) :: scan none text

def directives (text : List Byte) : List (Byte × Format) := scan none text

def integerSize (flags : Flags) : Nat :=
  if flags.longlong then 8
  else if flags.long ∨ flags.halfhalf ∨ flags.half ∨ flags.sizet then 4
  else if flags.intmax then 8
  else 4

/-- The characters that `switch` has a case for, apart from the modifiers and the NUL. -/
def conversions : List Byte :=
  [char '%', char 'c', char 's', char 'i', char 'd', char 'u', char 'p', char 'X', char 'x', char 'n']

/-- The bytes of arguments that a conversion takes. -/
def argumentSize (c : Byte) (flags : Flags) : Nat :=
  if c = char 'c' ∨ c = char 's' ∨ c = char 'n' then 4
  else if c = char 'i' ∨ c = char 'd' ∨ c = char 'u' ∨ c = char 'X' ∨ c = char 'x' then integerSize flags
  else if c = char 'p' then integerSize { flags with long := true }
  else 0

/-- The bytes that `%n` stores. -/
def countSize (flags : Flags) : Nat :=
  if flags.longlong then 8 else if flags.long then 4 else if flags.halfhalf then 1 else if flags.half then 2 else 4

section

variable {σ : Type} {out : Out σ} {S : Word → Prop} {m m' : Memory} {ap fmt p : Word} {c : Byte} {flags : Flags} {f : Format}
  {text : List Byte} {r r' : Run σ}

/-- Where the arguments end. -/
def afterArguments : List (Byte × Format) → Word → Word
  | [], ap => ap
  | (c, f) :: rest, ap => afterArguments rest (ap + BitVec.ofNat 32 (argumentSize c f.flags))

def AgreeOn (S : Word → Prop) (m m' : Memory) : Prop := ∀ x, S x → m' x = m x

/-- The `n` bytes from `p` up are in `S`. -/
def Spans (S : Word → Prop) (p : Word) (n : Nat) : Prop := ∀ i < n, S (p + BitVec.ofNat 32 i)

/-- What one conversion takes is in `S`: its argument, and the string that one for `%s` points to, with its NUL. What `%n`
    stores is not. -/
structure ArgumentIn (S : Word → Prop) (m : Memory) (ap : Word) (c : Byte) (flags : Flags) : Prop where
  argument : Spans S ap (argumentSize c flags)
  string : c = char 's' → m.load32 ap ≠ 0#32 → ∃ s, BytesAt m (m.load32 ap) (s ++ [0#8]) ∧ (∀ b ∈ s, b ≠ 0#8) ∧
    Spans S (m.load32 ap) (s.length + 1)
  count : c = char 'n' → ∀ i < countSize flags, ¬ S (m.load32 ap + BitVec.ofNat 32 i)

def ArgumentsIn (S : Word → Prop) (m : Memory) : List (Byte × Format) → Word → Prop
  | [], _ => True
  | (c, f) :: rest, ap =>
    ArgumentIn S m ap c f.flags ∧ ArgumentsIn S m rest (ap + BitVec.ofNat 32 (argumentSize c f.flags))

/-- A format, NUL-terminated, and arguments for it, all in `S`. -/
structure Inputs (S : Word → Prop) (m : Memory) (fmt ap : Word) (text : List Byte) : Prop where
  format : BytesAt m fmt (text ++ [0#8])
  nonzero : ∀ b ∈ text, b ≠ 0#8
  inside : Spans S fmt (text.length + 1)
  arguments : ArgumentsIn S m (directives text) ap

/-! ### Agreement -/

theorem AgreeOn.refl (S : Word → Prop) (m : Memory) : AgreeOn S m m := fun _ _ => rfl

theorem AgreeOn.trans {m'' : Memory} (first : AgreeOn S m m') (second : AgreeOn S m' m'') : AgreeOn S m m'' :=
  fun x inside => (second x inside).trans (first x inside)

theorem Spans.mono {k n : Nat} (spans : Spans S p n) (le : k ≤ n) : Spans S p k :=
  fun i small => spans i (Nat.lt_of_lt_of_le small le)

theorem Spans.shift {k n : Nat} (spans : Spans S p (k + n)) : Spans S (p + BitVec.ofNat 32 k) n := by
  intro i small
  rw [BitVec.add_assoc, ← BitVec.ofNat_add]
  exact spans (k + i) (by omega)

theorem AgreeOn.bytesAt (agree : AgreeOn S m m') {l : List Byte} (spans : Spans S p l.length) (at_ : BytesAt m p l) :
    BytesAt m' p l := by
  apply bytesAt_of_get
  intro i inside
  rw [agree _ (spans i inside), at_.get inside]

theorem AgreeOn.load32 (agree : AgreeOn S m m') (spans : Spans S p 4) : m'.load32 p = m.load32 p :=
  load32_congr fun i small => agree _ (spans i small)

theorem ArgumentIn.congr (agree : AgreeOn S m m') (inputs : ArgumentIn S m ap c flags) : ArgumentIn S m' ap c flags := by
  have pointer (four : argumentSize c flags = 4) : m'.load32 ap = m.load32 ap := by
    apply agree.load32
    rw [← four]
    exact inputs.argument
  constructor
  case argument => exact inputs.argument
  case string =>
    rintro rfl
    rw [pointer rfl]
    intro some_
    obtain ⟨s, at_, nonzero, spans⟩ := inputs.string rfl some_
    exact ⟨s, agree.bytesAt (by simpa using spans) at_, nonzero, spans⟩
  case count =>
    rintro rfl
    rw [pointer rfl]
    exact inputs.count rfl

theorem ArgumentsIn.congr (agree : AgreeOn S m m') {convs : List (Byte × Format)} (inputs : ArgumentsIn S m convs ap) :
    ArgumentsIn S m' convs ap := by
  induction convs generalizing ap with
  | nil => trivial
  | cons conv convs ih => exact ⟨inputs.1.congr agree, ih inputs.2⟩

/-! ### The arguments -/

/-- `arg` reads one word and converts it, or reads two. -/
def ReadsInteger (arg : Memory → Word → BitVec 64 × Word) (size : Nat) : Prop :=
  (size = 8 ∧ arg = vaArg64) ∨
    (size = 4 ∧ ∃ f : Word → BitVec 64, arg = fun m ap => (f (vaArg32 m ap).1, (vaArg32 m ap).2))

theorem ReadsInteger.agrees {arg : Memory → Word → BitVec 64 × Word} {size : Nat} (reads : ReadsInteger arg size)
    (agree : AgreeOn S m m') (spans : Spans S ap size) :
    arg m' ap = arg m ap ∧ (arg m ap).2 = ap + BitVec.ofNat 32 size := by
  rcases reads with ⟨rfl, rfl⟩ | ⟨rfl, f, rfl⟩
  · have low : m'.load32 ap = m.load32 ap := agree.load32 (spans.mono (by decide))
    have high : m'.load32 (ap + 4#32) = m.load32 (ap + 4#32) :=
      agree.load32 (show Spans S (ap + BitVec.ofNat 32 4) 4 from spans.shift)
    unfold vaArg64
    rw [low, high]
    exact ⟨rfl, rfl⟩
  · have low : m'.load32 ap = m.load32 ap := agree.load32 spans
    refine ⟨?_, rfl⟩
    simp only [vaArg32, low]

/-- Both argument functions choose by the flags, `longlong` first. -/
theorem readsInteger_flags (flags : Flags) {arg : Memory → Word → BitVec 64 × Word} (byte half word : Word → BitVec 64)
    (is : arg = fun m ap => if flags.longlong then vaArg64 m ap
      else if flags.long then (word (vaArg32 m ap).1, (vaArg32 m ap).2)
      else if flags.halfhalf then (byte (vaArg32 m ap).1, (vaArg32 m ap).2)
      else if flags.half then (half (vaArg32 m ap).1, (vaArg32 m ap).2)
      else if flags.sizet then (word (vaArg32 m ap).1, (vaArg32 m ap).2)
      else if flags.intmax then vaArg64 m ap
      else if flags.ptrdiff then (word (vaArg32 m ap).1, (vaArg32 m ap).2)
      else (word (vaArg32 m ap).1, (vaArg32 m ap).2)) : ReadsInteger arg (integerSize flags) := by
  unfold ReadsInteger integerSize
  subst is
  by_cases longlong : flags.longlong = true
  · exact .inl (by simp [longlong])
  by_cases long : flags.long = true
  · exact .inr ⟨by simp [longlong, long], word, by simp [longlong, long]⟩
  by_cases halfhalf : flags.halfhalf = true
  · exact .inr ⟨by simp [longlong, halfhalf], byte, by simp [longlong, long, halfhalf]⟩
  by_cases half' : flags.half = true
  · exact .inr ⟨by simp [longlong, half'], half, by simp [longlong, long, halfhalf, half']⟩
  by_cases sizet : flags.sizet = true
  · exact .inr ⟨by simp [longlong, sizet], word, by simp [longlong, long, halfhalf, half', sizet]⟩
  by_cases intmax : flags.intmax = true
  · exact .inl (by simp [longlong, long, halfhalf, half', sizet, intmax])
  · exact .inr ⟨by simp [longlong, intmax], word, by simp [longlong, long, halfhalf, half', sizet, intmax]⟩

theorem signedArg_agrees (agree : AgreeOn S m m') (spans : Spans S ap (integerSize flags)) :
    signedArg m' ap flags = signedArg m ap flags ∧ (signedArg m ap flags).2 = ap + BitVec.ofNat 32 (integerSize flags) :=
  (readsInteger_flags flags (fun v => (v.setWidth 8).signExtend 64) (fun v => (v.setWidth 16).signExtend 64)
    (fun v => v.signExtend 64) rfl).agrees agree spans

theorem unsignedArg_agrees (agree : AgreeOn S m m') (spans : Spans S ap (integerSize flags)) :
    unsignedArg m' ap flags = unsignedArg m ap flags ∧
      (unsignedArg m ap flags).2 = ap + BitVec.ofNat 32 (integerSize flags) :=
  (readsInteger_flags flags (fun v => (v.setWidth 8).setWidth 64) (fun v => (v.setWidth 16).setWidth 64)
    (fun v => v.setWidth 64) rfl).agrees agree spans

/-- Memories that agree on what a conversion takes give it the same argument. -/
structure SameFetch (m m' : Memory) (ap : Word) (c : Byte) (flags : Flags) : Prop where
  same : fetch m' ap c flags = fetch m ap c flags
  next : ∃ action, fetch m ap c flags = some (action, ap + BitVec.ofNat 32 (argumentSize c flags)) ∧
    ∀ ptr, action = .count ptr → c = char 'n' ∧ ptr = m.load32 ap

theorem sameFetch_signed (agree : AgreeOn S m m') (signed : c = char 'i' ∨ c = char 'd')
    (spans : Spans S ap (argumentSize c flags)) : SameFetch m m' ap c flags := by
  have size : argumentSize c flags = integerSize flags := by rcases signed with rfl | rfl <;> rfl
  rw [size] at spans
  obtain ⟨same, next⟩ := signedArg_agrees agree spans
  have read (m : Memory) : fetch m ap c flags = (decimalAction (signedArg m ap flags).1 { flags with signed := true }).bind
      fun action => some (action, (signedArg m ap flags).2) := by
    rcases signed with rfl | rfl <;> rfl
  constructor
  case same => rw [read, read, same]
  case next =>
    rw [read, decimalAction_eq, next, size]
    exact ⟨_, rfl, nofun⟩

theorem sameFetch_unsigned (agree : AgreeOn S m m') (spans : Spans S ap (argumentSize (char 'u') flags)) :
    SameFetch m m' ap (char 'u') flags := by
  have size : argumentSize (char 'u') flags = integerSize flags := rfl
  rw [size] at spans
  obtain ⟨same, next⟩ := unsignedArg_agrees agree spans
  have read (m : Memory) : fetch m ap (char 'u') flags = (decimalAction (unsignedArg m ap flags).1 flags).bind
      fun action => some (action, (unsignedArg m ap flags).2) := rfl
  constructor
  case same => rw [read, read, same]
  case next =>
    rw [read, decimalAction_eq, next, size]
    exact ⟨_, rfl, nofun⟩

theorem sameFetch_hex (agree : AgreeOn S m m') (conv : Conv) (set : Flags → Flags)
    (case_ : conv = .x ∧ set = id ∨ conv = .X ∧ set = (fun flags => { flags with caps := true }) ∨
      conv = .p ∧ set = fun flags => { flags with long := true, alt := true })
    (spans : Spans S ap (argumentSize conv.byte flags)) : SameFetch m m' ap conv.byte flags := by
  have size : argumentSize conv.byte flags = integerSize (set flags) := by
    rcases case_ with ⟨rfl, rfl⟩ | ⟨rfl, rfl⟩ | ⟨rfl, rfl⟩ <;> rfl
  rw [size] at spans
  obtain ⟨same, next⟩ := unsignedArg_agrees agree spans
  constructor
  case same => rw [fetch_hex conv set case_, fetch_hex conv set case_, same]
  case next =>
    rw [fetch_hex conv set case_, next, size]
    exact ⟨_, rfl, nofun⟩

theorem sameFetch_string (agree : AgreeOn S m m') (inputs : ArgumentIn S m ap (char 's') flags) :
    SameFetch m m' ap (char 's') flags := by
  have four : argumentSize (char 's') flags = 4 := rfl
  have spans := inputs.argument
  rw [four] at spans
  have pointer : m'.load32 ap = m.load32 ap := agree.load32 spans
  have text : ∃ s, TextAt m (m.load32 ap) s ∧ TextAt m' (m'.load32 ap) s := by
    by_cases null : m.load32 ap = 0#32
    · exact ⟨_, .null null, .null (pointer.trans null)⟩
    · obtain ⟨s, at_, nonzero, inside⟩ := inputs.string rfl null
      have at' := agree.bytesAt (by simpa using inside) at_
      refine ⟨s, .string null s at_ nonzero, ?_⟩
      rw [pointer]
      exact .string null s at' nonzero
  obtain ⟨s, here, there⟩ := text
  constructor
  case same => rw [fetch_string here, fetch_string there]
  case next =>
    rw [fetch_string here]
    exact ⟨_, rfl, nofun⟩

theorem sameFetch_chars (zero : argumentSize c flags = 0) (s : List Byte)
    (read : ∀ m, fetch m ap c flags = some (.chars s, ap)) : SameFetch m m' ap c flags := by
  constructor
  case same => rw [read, read]
  case next =>
    rw [read, zero, BitVec.add_zero]
    exact ⟨_, rfl, nofun⟩

theorem sameFetch_character (agree : AgreeOn S m m') (spans : Spans S ap (argumentSize (char 'c') flags)) :
    SameFetch m m' ap (char 'c') flags := by
  have word : m'.load32 ap = m.load32 ap := agree.load32 spans
  have read (m : Memory) : fetch m ap (char 'c') flags = some (.chars [(m.load32 ap).setWidth 8], ap + 4#32) := rfl
  constructor
  case same => rw [read, read, word]
  case next =>
    rw [read]
    exact ⟨_, rfl, nofun⟩

theorem sameFetch_count (agree : AgreeOn S m m') (spans : Spans S ap (argumentSize (char 'n') flags)) :
    SameFetch m m' ap (char 'n') flags := by
  have word : m'.load32 ap = m.load32 ap := agree.load32 spans
  have read (m : Memory) : fetch m ap (char 'n') flags = some (.count (m.load32 ap), ap + 4#32) := rfl
  constructor
  case same => rw [read, read, word]
  case next =>
    rw [read]
    refine ⟨_, rfl, fun ptr same => ⟨rfl, ?_⟩⟩
    cases same
    rfl

theorem fetch_unknown (unknown : c ∉ conversions) (m : Memory) (ap : Word) (flags : Flags) :
    fetch m ap c flags = some (.chars [char '%', c], ap) := by
  simp only [conversions, List.mem_cons, List.not_mem_nil, or_false, not_or] at unknown
  obtain ⟨percent, character, string, i, d, u, p, X, x, n⟩ := unknown
  unfold fetch
  rw [if_neg percent, if_neg character, if_neg string, if_neg (not_or.mpr ⟨i, d⟩), if_neg u, if_neg p, if_neg X, if_neg x,
    if_neg n]

theorem argumentSize_unknown (unknown : c ∉ conversions) (flags : Flags) : argumentSize c flags = 0 := by
  simp only [conversions, List.mem_cons, List.not_mem_nil, or_false, not_or] at unknown
  obtain ⟨_, character, string, i, d, u, p, X, x, n⟩ := unknown
  unfold argumentSize
  rw [if_neg (not_or.mpr ⟨character, not_or.mpr ⟨string, n⟩⟩),
    if_neg (not_or.mpr ⟨i, not_or.mpr ⟨d, not_or.mpr ⟨u, not_or.mpr ⟨X, x⟩⟩⟩⟩), if_neg p]

theorem ArgumentIn.fetch (agree : AgreeOn S m m') (inputs : ArgumentIn S m ap c flags) : SameFetch m m' ap c flags := by
  have spans := inputs.argument
  by_cases known : c ∈ conversions
  · simp only [conversions, List.mem_cons, List.not_mem_nil, or_false] at known
    rcases known with rfl | rfl | rfl | rfl | rfl | rfl | rfl | rfl | rfl | rfl
    · exact sameFetch_chars rfl [char '%'] fun m => rfl
    · exact sameFetch_character agree spans
    · exact sameFetch_string agree inputs
    · exact sameFetch_signed agree (.inl rfl) spans
    · exact sameFetch_signed agree (.inr rfl) spans
    · exact sameFetch_unsigned agree spans
    · have same := sameFetch_hex agree .p _ (.inr (.inr ⟨rfl, rfl⟩)) spans
      exact same
    · have same := sameFetch_hex agree .X _ (.inr (.inl ⟨rfl, rfl⟩)) spans
      exact same
    · have same := sameFetch_hex agree .x _ (.inl ⟨rfl, rfl⟩) spans
      exact same
    · exact sameFetch_count agree spans
  · exact sameFetch_chars (argumentSize_unknown known flags) [char '%', c] fun m => fetch_unknown known m ap flags

/-! ### The format -/

theorem scan_modifiers {mods : List Byte} {g : Format} (reads : modify f mods = some g) (rest : List Byte) :
    scan (some f) (mods ++ rest) = scan (some g) rest := by
  induction mods generalizing f with
  | nil =>
    cases reads
    rfl
  | cons b mods ih =>
    rw [modify] at reads
    cases stepped : modifier b f with
    | none =>
      rw [stepped] at reads
      cases reads
    | some f' =>
      rw [stepped, Option.bind_some] at reads
      rw [List.cons_append, scan, stepped]
      exact ih reads

/-- A directive ends with the format, or with a conversion. -/
theorem modify_cases (f : Format) (text : List Byte) :
    (∃ g, modify f text = some g) ∨ ∃ mods c rest g, text = mods ++ c :: rest ∧ modify f mods = some g ∧ modifier c g = none := by
  induction text generalizing f with
  | nil => exact .inl ⟨f, rfl⟩
  | cons b text ih =>
    cases stepped : modifier b f with
    | none => exact .inr ⟨[], b, text, f, rfl, rfl, stepped⟩
    | some f' =>
      have front (cs : List Byte) : modify f (b :: cs) = modify f' cs := by rw [modify, stepped, Option.bind_some]
      rcases ih f' with ⟨g, reads⟩ | ⟨mods, c, rest, g, rfl, reads, stops⟩
      · exact .inl ⟨g, by rw [front, reads]⟩
      · exact .inr ⟨b :: mods, c, rest, g, rfl, by rw [front, reads], stops⟩

theorem scan_plain {lits : List Byte} (plain : ∀ b ∈ lits, b ≠ 0#8 ∧ b ≠ char '%') (rest : List Byte) :
    scan none (lits ++ rest) = scan none rest := by
  induction lits with
  | nil => rfl
  | cons b lits ih =>
    rw [List.cons_append, scan, if_neg (plain b List.mem_cons_self).2]
    exact ih fun b member => plain b (List.mem_cons_of_mem _ member)

theorem plain_cases (nonzero : ∀ b ∈ text, b ≠ 0#8) :
    (∀ b ∈ text, b ≠ 0#8 ∧ b ≠ char '%') ∨
      ∃ lits rest, text = lits ++ char '%' :: rest ∧ ∀ b ∈ lits, b ≠ 0#8 ∧ b ≠ char '%' := by
  by_cases percent : char '%' ∈ text
  · obtain ⟨lits, rest, rfl, before⟩ := List.eq_append_cons_of_mem percent
    refine .inr ⟨lits, rest, rfl, fun b member => ⟨nonzero b (List.mem_append_left _ member), ?_⟩⟩
    rintro rfl
    exact before member
  · exact .inl fun b member => ⟨nonzero b member, fun same => percent (same ▸ member)⟩

theorem Inputs.literal {lits rest : List Byte} (inputs : Inputs S m fmt ap (lits ++ char '%' :: rest)) :
    BytesAt m fmt (lits ++ [char '%']) ∧ BytesAt m (fmt + BitVec.ofNat 32 (lits.length + 1)) (rest ++ [0#8]) := by
  have format := inputs.format
  rw [List.append_assoc, List.cons_append] at format
  exact bytesAt_cut format

theorem Inputs.length_lt (inputs : Inputs S m fmt ap text) : text.length < byteLimit :=
  inputs.format.length_lt inputs.nonzero

theorem Inputs.congr (agree : AgreeOn S m m') (inputs : Inputs S m fmt ap text) : Inputs S m' fmt ap text where
  format := agree.bytesAt (by simpa using inputs.inside) inputs.format
  nonzero := inputs.nonzero
  inside := inputs.inside
  arguments := inputs.arguments.congr agree

theorem directives_plain (plain : ∀ b ∈ text, b ≠ 0#8 ∧ b ≠ char '%') : directives text = [] := by
  have scanned := scan_plain plain []
  rwa [List.append_nil] at scanned

theorem directives_truncated {lits rest : List Byte} {g : Format} (plain : ∀ b ∈ lits, b ≠ 0#8 ∧ b ≠ char '%')
    (reads : modify {} rest = some g) : directives (lits ++ char '%' :: rest) = [] := by
  have scanned := scan_modifiers reads []
  rw [List.append_nil] at scanned
  unfold directives
  rw [scan_plain plain, scan, if_pos rfl, scanned]
  rfl

theorem directives_conversion {lits mods : List Byte} {g : Format} (plain : ∀ b ∈ lits, b ≠ 0#8 ∧ b ≠ char '%')
    (reads : modify {} mods = some g) (stops : modifier c g = none) (rest : List Byte) :
    directives (lits ++ char '%' :: (mods ++ c :: rest)) = (c, g) :: directives rest := by
  unfold directives
  rw [scan_plain plain, scan, if_pos rfl, scan_modifiers reads, scan, stops]

theorem Inputs.rest {lits mods rest : List Byte} {g : Format} (plain : ∀ b ∈ lits, b ≠ 0#8 ∧ b ≠ char '%')
    (reads : modify {} mods = some g) (stops : modifier c g = none)
    (inputs : Inputs S m fmt ap (lits ++ char '%' :: (mods ++ c :: rest))) :
    ArgumentIn S m ap c g.flags ∧
      Inputs S m (fmt + BitVec.ofNat 32 (lits.length + 1) + BitVec.ofNat 32 (mods.length + 1))
        (ap + BitVec.ofNat 32 (argumentSize c g.flags)) rest := by
  have arguments := inputs.arguments
  rw [directives_conversion plain reads stops] at arguments
  have behind := (inputs.literal).2
  rw [List.append_assoc, List.cons_append] at behind
  have spans := inputs.inside
  rw [show (lits ++ char '%' :: (mods ++ c :: rest)).length + 1 = lits.length + 1 + (mods.length + 1 + (rest.length + 1)) by
    simp only [List.length_append, List.length_cons]
    omega] at spans
  refine ⟨arguments.1, (bytesAt_cut behind).2, fun b member => ?_, spans.shift.shift, arguments.2⟩
  exact inputs.nonzero b (by simp [member])

/-! ### Two runs -/

/-- Two runs that differ in what their memories hold outside `S`, with the arguments left from `ap` up. -/
structure Twins (S : Word → Prop) (m : Memory) (ap : Word) (r r' : Run σ) : Prop where
  here : AgreeOn S m r.mem
  there : AgreeOn S m r'.mem
  arguments : r.ap = ap
  arguments' : r'.ap = ap
  err : r'.err = r.err
  charsWritten : r'.charsWritten = r.charsWritten
  state : r'.state = r.state

theorem Results.both {x x' : Except (Run σ) (Run σ)} {R : Run σ → Run σ → Prop} (results : Results R (fun _ _ => False) x x') :
    ∃ q q', x = .ok q ∧ x' = .ok q' ∧ R q q' := by
  cases results with
  | ok related => exact ⟨_, _, rfl, rfl, related⟩
  | error stopped => exact stopped.elim

theorem twins_answers (never : ∀ st s, ¬ (out st s).1.toInt < 0) :
    Answers (fun _ => True) out out (Twins S m ap) fun _ _ => False := by
  constructor
  case err => exact fun r r' twins => twins.err.symm
  case output =>
    intro r r' s _ twins
    unfold outputString
    dsimp only
    rw [twins.state, twins.charsWritten, if_neg (never r.state s), if_neg (never r.state s)]
    refine Results.ok ?_
    exact ⟨twins.here, twins.there, twins.arguments, twins.arguments', rfl, rfl, rfl⟩

theorem spans_offset {n : Nat} {x : Word} (free : Spans (fun x => ¬ S x) p n) (inside : S x) : n ≤ offset p x := by
  by_contra within
  have outside := free (offset p x) (Nat.lt_of_not_le within)
  rw [add_offset] at outside
  exact outside inside

theorem storeCount_agrees (free : Spans (fun x => ¬ S x) p (countSize flags)) (charsWritten : Word) :
    AgreeOn S m (storeCount m p flags charsWritten) := by
  intro x inside
  have off := spans_offset free inside
  have upper (eight : countSize flags = 8) : 4 ≤ offset (p + 4#32) x := by
    rw [eight] at free
    exact spans_offset (show Spans (fun x => ¬ S x) (p + BitVec.ofNat 32 4) 4 from free.shift) inside
  unfold storeCount
  unfold countSize at off upper
  split_ifs at off upper ⊢
  · rw [store32_outside _ _ _ _ (upper rfl), store32_outside _ _ _ _ (by omega)]
  · exact store32_outside _ _ _ _ off
  · refine store8_outside _ _ ?_
    rintro rfl
    simp [offset] at off
  · exact store16_outside _ _ _ _ off
  · exact store32_outside _ _ _ _ off
  · exact store32_outside _ _ _ _ off

theorem Twins.perform (never : ∀ st s, ¬ (out st s).1.toInt < 0) (twins : Twins S m ap r r') (f : Format) (action : Action)
    (free : ∀ ptr, action = .count ptr → Spans (fun x => ¬ S x) ptr (countSize f.flags)) :
    ∃ q q', Printf.perform out f r action = .ok q ∧ Printf.perform out f r' action = .ok q' ∧ Twins S m ap q q' := by
  refine ((twins_answers never).perform f action action.pieces_true ?_ twins).both
  rintro ptr rfl
  refine .ok ⟨twins.here.trans ?_, twins.there.trans ?_, twins.arguments, twins.arguments', twins.err, twins.charsWritten, twins.state⟩
  · exact storeCount_agrees (free ptr rfl) _
  · exact storeCount_agrees (free ptr rfl) _

theorem Twins.directive (never : ∀ st s, ¬ (out st s).1.toInt < 0) (twins : Twins S m ap r r') {mods : List Byte} {g : Format}
    (at_ : BytesAt m fmt (mods ++ [c])) (inside : Spans S fmt (mods.length + 1)) (reads : modify {} mods = some g)
    (stops : modifier c g = none) (nonzero : c ≠ 0#8) (inputs : ArgumentIn S m ap c g.flags) :
    ∃ q q', Printf.directive out fmt r = some (.next (fmt + BitVec.ofNat 32 (mods.length + 1)) q) ∧
      Printf.directive out fmt r' = some (.next (fmt + BitVec.ofNat 32 (mods.length + 1)) q') ∧
      Twins S m (ap + BitVec.ofNat 32 (argumentSize c g.flags)) q q' := by
  have spans : Spans S fmt (mods ++ [c]).length := by rwa [List.length_append, List.length_singleton]
  have here := inputs.fetch twins.here
  have there := inputs.fetch twins.there
  obtain ⟨action, fetched, counts⟩ := here.next
  have free (ptr : Word) (count : action = .count ptr) : Spans (fun x => ¬ S x) ptr (countSize g.flags) := by
    obtain ⟨conversion, pointer⟩ := counts ptr count
    rw [pointer]
    exact inputs.count conversion
  have moved : Twins S m (ap + BitVec.ofNat 32 (argumentSize c g.flags))
      { r with ap := ap + BitVec.ofNat 32 (argumentSize c g.flags) } { r' with ap := ap + BitVec.ofNat 32 (argumentSize c g.flags) } :=
    ⟨twins.here, twins.there, rfl, rfl, twins.err, twins.charsWritten, twins.state⟩
  obtain ⟨q, q', performed, performed', after⟩ := moved.perform never g action free
  refine ⟨q, q', ?_, ?_, after⟩
  · rw [directive_fetched (twins.here.bytesAt spans at_) reads stops nonzero
      (by rw [twins.arguments, here.same, fetched]), performed, Flow.after]
  · rw [directive_fetched (twins.there.bytesAt spans at_) reads stops nonzero
      (by rw [twins.arguments', there.same, fetched]), performed', Flow.after]

/-- Both runs read the same and put out the same, up to the NUL. -/
theorem Twins.loop (never : ∀ st s, ¬ (out st s).1.toInt < 0) (twins : Twins S m ap r r') (inputs : Inputs S m fmt ap text)
    (fuel : Nat) (enough : text.length < fuel) :
    ∃ q q', engineLoop out fuel fmt r = some q ∧ engineLoop out fuel fmt r' = some q' ∧
      Twins S m (afterArguments (directives text) ap) q q' := by
  induction fuel generalizing fmt ap text r r' with
  | zero => simp at enough
  | succ fuel ih =>
    have format := (inputs.congr twins.here).format
    have format' := (inputs.congr twins.there).format
    have short := inputs.length_lt
    rcases plain_cases inputs.nonzero with plain | ⟨lits, rest, rfl, plain⟩
    · obtain ⟨q, q', put, put', after⟩ := ((twins_answers never).output r r' text trivial twins).both
      rw [engineLoop_literal out format plain (.inl rfl) short, engineLoop_literal out format' plain (.inl rfl) short, put, put',
        directives_plain plain]
      exact ⟨q, q', rfl, rfl, after⟩
    · obtain ⟨q, q', put, put', after⟩ := ((twins_answers never).output r r' lits trivial twins).both
      have front : lits.length < 2^32 := by
        rw [List.length_append] at short
        exact Nat.lt_of_le_of_lt (Nat.le_add_right _ _) short
      obtain ⟨upTo, behind⟩ := inputs.literal
      rw [engineLoop_literal out (inputs.congr twins.here).literal.1 plain (.inr rfl) front,
        engineLoop_literal out (inputs.congr twins.there).literal.1 plain (.inr rfl) front, put, put']
      dsimp only
      rw [if_neg (by decide), if_neg (by decide)]
      rcases modify_cases {} rest with ⟨g, reads⟩ | ⟨mods, c, rest, g, rfl, reads, stops⟩
      · have inside := (inputs.congr after.here).literal.2
        have inside' := (inputs.congr after.there).literal.2
        rw [directive_nul inside reads, directive_nul inside' reads, directives_truncated plain reads]
        exact ⟨q, q', rfl, rfl, after⟩
      · obtain ⟨argument, others⟩ := inputs.rest plain reads stops
        have conversion : BytesAt m (fmt + BitVec.ofNat 32 (lits.length + 1)) (mods ++ [c]) := by
          rw [List.append_assoc, List.cons_append] at behind
          exact (bytesAt_cut behind).1
        have spans : Spans S (fmt + BitVec.ofNat 32 (lits.length + 1)) (mods.length + 1) := by
          refine Spans.shift (inputs.inside.mono ?_)
          simp only [List.length_append, List.length_cons]
          omega
        obtain ⟨q, q', turn, turn', after⟩ := after.directive never conversion spans reads stops
          (inputs.nonzero c (by simp)) argument
        have shorter : rest.length < fuel := by
          simp only [List.length_append, List.length_cons] at enough
          omega
        rw [turn, turn', directives_conversion plain reads stops, Option.bind_some, Option.bind_some]
        exact ih after others shorter

theorem outputChars_never (never : ∀ st s, ¬ (out st s).1.toInt < 0) (r : Run σ) (cs : List Byte) :
    ∃ q, outputChars out r cs = .ok q := by
  have twins : Twins (fun _ => False) r.mem r.ap r r := ⟨nofun, nofun, rfl, rfl, rfl, rfl, rfl⟩
  obtain ⟨q, _, put, -, -⟩ := ((twins_answers never).chars cs (fun _ _ => trivial) twins).both
  exact ⟨q, put⟩

theorem directive_unknown (never : ∀ st s, ¬ (out st s).1.toInt < 0) {mods : List Byte} {g : Format}
    (at_ : BytesAt r.mem fmt (mods ++ [c])) (reads : modify {} mods = some g) (stops : modifier c g = none) (nonzero : c ≠ 0#8)
    (unknown : c ∉ conversions) :
    ∃ q, outputChars out r [char '%', c] = .ok q ∧
      directive out fmt r = some (.next (fmt + BitVec.ofNat 32 (mods.length + 1)) q) := by
  obtain ⟨q, put⟩ := outputChars_never never r [char '%', c]
  refine ⟨q, put, ?_⟩
  have performed : perform out g { r with ap := r.ap } (.chars [char '%', c]) = .ok q := put
  rw [directive_fetched at_ reads stops nonzero (fetch_unknown unknown r.mem r.ap g.flags), performed, Flow.after]

/-- The pieces passed to `out`, beside its own state. -/
def logging (out : Out σ) : Out (σ × List (List Byte)) :=
  fun st s => ((out st.1 s).1, (out st.1 s).2, st.2 ++ [s])

/-- With an output function that never fails the engine returns, and memories that agree on the format, up to its NUL, and
    on the arguments give the same outputs, arguments and value. -/
theorem engine_reads_inputs (never : ∀ st s, ¬ (out st s).1.toInt < 0) (start : σ) :
    (∀ S m m' fmt ap text, Inputs S m fmt ap text → AgreeOn S m m' →
      ∃ v q q', printfEngine (logging out) (start, []) m fmt ap = some (v, q) ∧
        printfEngine (logging out) (start, []) m' fmt ap = some (v, q') ∧ q'.state = q.state ∧
        q.ap = afterArguments (directives text) ap ∧ q'.ap = q.ap) ∧
    ∀ (r : Run σ) fmt mods c g, BytesAt r.mem fmt (mods ++ [c]) → modify {} mods = some g → modifier c g = none →
      c ≠ 0#8 → c ∉ conversions →
      ∃ q, outputChars out r [char '%', c] = .ok q ∧
        directive out fmt r = some (.next (fmt + BitVec.ofNat 32 (mods.length + 1)) q) := by
  constructor
  · intro S m m' fmt ap text inputs agree
    have never' : ∀ st s, ¬ (logging out st s).1.toInt < 0 := fun st s => never st.1 s
    have twins : Twins S m ap (⟨m, ap, 0#32, 0#32, start, []⟩ : Run (σ × List (List Byte))) ⟨m', ap, 0#32, 0#32, start, []⟩ :=
      ⟨.refl S m, agree, rfl, rfl, rfl, rfl, rfl⟩
    obtain ⟨q, q', loop, loop', after⟩ := twins.loop never' inputs byteLimit inputs.length_lt
    have result : q'.result = q.result := by
      unfold Run.result
      rw [after.err, after.charsWritten]
    refine ⟨q.result, q, q', ?_, ?_, after.state, after.arguments, by rw [after.arguments, after.arguments']⟩
    · unfold printfEngine
      rw [loop]
      rfl
    · unfold printfEngine
      rw [loop', ← result]
      rfl
  · intro r fmt mods c g at_ reads stops nonzero unknown
    exact directive_unknown never at_ reads stops nonzero unknown

theorem engine_reads_inputs_decimal : ∃ v q q',
    printfEngine (logging fun (n : Nat) s => (0#32, n + s.length)) (0, []) (firstRun "%d" 42#32).mem 4096#32 8192#32 = some (v, q) ∧
      printfEngine (logging fun (n : Nat) s => (0#32, n + s.length)) (0, []) ((firstRun "%d" 42#32).mem.store8 4099#32 (char 'b'))
        4096#32 8192#32 = some (v, q') ∧ q'.state = q.state ∧ q.ap = 8196#32 ∧ q'.ap = q.ap := by
  have argument : ArgumentIn (fun x => x ≠ 4099#32) (firstRun "%d" 42#32).mem 8192#32 (char 'd') {} :=
    ⟨by unfold Spans; decide, fun string => absurd string (by decide), fun count => absurd count (by decide)⟩
  have inputs : Inputs (fun x => x ≠ 4099#32) (firstRun "%d" 42#32).mem 4096#32 8192#32 [char '%', char 'd'] :=
    ⟨⟨rfl, rfl, rfl, trivial⟩, by decide, by unfold Spans; decide, argument, trivial⟩
  exact (@engine_reads_inputs Nat (fun n s => (0#32, n + s.length)) (fun _ _ => show ¬ (0#32 : Word).toInt < 0 by decide) 0).1
    _ _ _ _ _ _ inputs fun _ inside => store8_outside _ _ inside

/-- `%n` may store into the NUL of its own format, and then the bytes behind it are read as well. -/
theorem not_engine_reads_inputs : BytesAt (firstRun "a%hhn" 4101#32).mem 4096#32 ("a%hhn".toList.map char ++ [0#8]) ∧
    AgreeOn (fun x => x ≠ 4102#32) (firstRun "a%hhn" 4101#32).mem ((firstRun "a%hhn" 4101#32).mem.store8 4102#32 (char 'b')) ∧
    printed (firstRun "a%hhn" 4101#32).mem 4096#32 8192#32 = some [char 'a', 1#8] ∧
    printed ((firstRun "a%hhn" 4101#32).mem.store8 4102#32 (char 'b')) 4096#32 8192#32 = some [char 'a', 1#8, char 'b'] :=
  ⟨⟨rfl, rfl, rfl, rfl, rfl, rfl, trivial⟩, fun _ inside => store8_outside _ _ inside, rfl, rfl⟩

end

end ThreeX86.Printf
