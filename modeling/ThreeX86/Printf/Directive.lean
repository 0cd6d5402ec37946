import ThreeX86.Printf.Convert

/-!
The directives a format is made of: how they are written, what the engine reads out of them, and the C types
of their arguments on i386.
-/

namespace ThreeX86.Printf

open Machine Machine.Memory Numerals

inductive Flag where
  | minus | zero | plus | blank | alt
  deriving DecidableEq

inductive Length where
  | none | h | hh | l | ll | z | j | t
  deriving DecidableEq

inductive Conv where
  | d | i | u | x | X | s | p
  deriving DecidableEq

/-- A directive; a width of zero is an empty width. -/
structure Directive where
  flags : List Flag
  width : Nat
  length : Length
  conv : Conv

def Flag.byte : Flag → Byte
  | .minus => char '-'
  | .zero => char '0'
  | .plus => char '+'
  | .blank => char ' '
  | .alt => char '#'

def Length.bytes : Length → List Byte
  | .none => []
  | .h => [char 'h']
  | .hh => [char 'h', char 'h']
  | .l => [char 'l']
  | .ll => [char 'l', char 'l']
  | .z => [char 'z']
  | .j => [char 'j']
  | .t => [char 't']

def Conv.byte : Conv → Byte
  | .d => char 'd'
  | .i => char 'i'
  | .u => char 'u'
  | .x => char 'x'
  | .X => char 'X'
  | .s => char 's'
  | .p => char 'p'

def widthBytes (width : Nat) : List Byte := if width = 0 then [] else decimal width

def Directive.modifiers (d : Directive) : List Byte :=
  d.flags.map Flag.byte ++ widthBytes d.width ++ d.length.bytes

def Directive.bytes (d : Directive) : List Byte := d.modifiers ++ [d.conv.byte]

/-! ### The arguments -/

/-- The bytes a 32-bit or 64-bit argument takes. -/
def Length.size : Length → Word
  | .ll | .j => 8#32
  | _ => 4#32

/-- The value of a signed argument, of the C type that the length modifier names. -/
def Length.signedValue (length : Length) (m : Memory) (ap : Word) : Int :=
  match length with
  | .hh => ((m.load32 ap).setWidth 8).toInt
  | .h => ((m.load32 ap).setWidth 16).toInt
  | .ll | .j => (m.load32 (ap + 4#32) ++ m.load32 ap).toInt
  | .none | .l | .z | .t => (m.load32 ap).toInt

def Length.unsignedValue (length : Length) (m : Memory) (ap : Word) : Nat :=
  match length with
  | .hh => ((m.load32 ap).setWidth 8).toNat
  | .h => ((m.load32 ap).setWidth 16).toNat
  | .ll | .j => (m.load32 (ap + 4#32) ++ m.load32 ap).toNat
  | .none | .l | .z | .t => (m.load32 ap).toNat

/-- The type of the argument: `%p` takes a `long` whatever else is said, unless `ll` is, and `%s` a pointer. -/
def Directive.argLength (d : Directive) : Length :=
  match d.conv, d.length with
  | .p, .ll => .ll
  | .p, _ => .l
  | .s, _ => .none
  | _, length => length

/-- The text of a string argument; a null pointer has one too. -/
inductive TextAt (m : Memory) (p : Word) : List Byte → Prop
  | null (h : p = 0#32) : TextAt m p ("<null>".toList.map char)
  | string (h : p ≠ 0#32) (text : List Byte) (at_ : BytesAt m p (text ++ [0#8])) (nonzero : ∀ b ∈ text, b ≠ 0#8) : TextAt m p text

/-! ### Reading the modifiers -/

def Flags.add (f : Flags) : Flag → Flags
  | .minus => { f with leftformat := true }
  | .zero => { f with leadzero := true }
  | .plus => { f with showsign := true }
  | .blank => { f with blankpos := true }
  | .alt => { f with alt := true }

def Length.set (length : Length) (f : Flags) : Flags :=
  match length with
  | .none => f
  | .h => { f with half := true }
  | .hh => { f with half := true, halfhalf := true }
  | .l => { f with long := true }
  | .ll => { f with long := true, longlong := true }
  | .z => { f with sizet := true }
  | .j => { f with intmax := true }
  | .t => { f with ptrdiff := true }

def flagSet (flags : List Flag) : Flags :=
  { alt := decide (.alt ∈ flags)
    showsign := decide (.plus ∈ flags)
    leftformat := decide (.minus ∈ flags)
    leadzero := decide (.zero ∈ flags)
    blankpos := decide (.blank ∈ flags) }

def widthDigits (width : Nat) : List Nat := (Nat.digits 10 width).reverse

/-- The number `n` with more digits behind it. -/
def runOn (n : Nat) (digits : List Nat) : Nat := digits.foldl (fun n d => n * 10 + d) n

/-- A digit `0` comes while the number in front of it is zero in 32 bits. -/
def zeroRead (n : Nat) : List Nat → Bool
  | [] => false
  | d :: digits => (decide (d = 0) && decide (n % 2^32 = 0)) || zeroRead (n * 10 + d) digits

/-- How a turn ends after its output. -/
def Flow.after {σ : Type} (fmt : Word) : Except (Run σ) (Run σ) → Flow σ
  | .error r => .exit r
  | .ok r => .next fmt r

def modify (f : Format) : List Byte → Option Format
  | [] => some f
  | c :: cs => (modifier c f).bind fun f => modify f cs

section

variable {m : Memory} {fmt : Word} {f f' : Format} {cs : List Byte} {c : Byte} {n : Nat} {fs : Flags}

theorem modify_append (f : Format) (cs cs' : List Byte) :
    modify f (cs ++ cs') = (modify f cs).bind fun f => modify f cs' := by
  induction cs generalizing f with
  | nil => rfl
  | cons c cs ih =>
    simp only [List.cons_append, modify]
    cases modifier c f with
    | none => rfl
    | some f => exact ih f

theorem nextFormat_eq (at_ : BytesAt m fmt (cs ++ [c])) (reads : modify f cs = some f') (last : ∀ f, modifier c f = none)
    (fuel : Nat) (enough : cs.length < fuel) :
    nextFormat m fuel fmt f = some (c, fmt + BitVec.ofNat 32 (cs.length + 1), f') := by
  induction cs generalizing fmt f fuel with
  | nil =>
    cases fuel with
    | zero => simp at enough
    | succ fuel =>
      have here : m fmt = c := at_.1
      cases reads
      rw [nextFormat, here, last]
      rfl
  | cons b cs ih =>
    cases fuel with
    | zero => simp at enough
    | succ fuel =>
      have here : m fmt = b := at_.1
      rw [modify] at reads
      cases stepped : modifier b f with
      | none => rw [stepped] at reads; cases reads
      | some g =>
        rw [stepped, Option.bind_some] at reads
        rw [nextFormat, here, stepped]
        dsimp only
        rw [ih at_.2 reads fuel (by simpa using enough), add_length_cons, List.length_cons]

theorem modifier_none (stops : modifier c f = none) (g : Format) : modifier c g = none := by
  have skip {p : Prop} [Decidable p] (a : Format) (x : Option Format) :
      (if p then some a else x) = none ↔ ¬p ∧ x = none := by
    by_cases h : p <;> simp [h]
  unfold modifier at stops ⊢
  dsimp only at stops ⊢
  simp only [skip] at stops ⊢
  exact stops

theorem modifiers_of_modify {mods : List Byte} {g : Format} (reads : modify f mods = some g) :
    ∀ b ∈ mods, ∀ h, modifier b h ≠ none := by
  induction mods generalizing f with
  | nil => nofun
  | cons b mods ih =>
    rw [modify] at reads
    cases stepped : modifier b f with
    | none =>
      rw [stepped] at reads
      cases reads
    | some f' =>
      rw [stepped, Option.bind_some] at reads
      intro x member h stops
      rcases List.mem_cons.mp member with rfl | later
      · rw [modifier_none stops] at stepped
        cases stepped
      · exact ih reads x later h stops

theorem nextFormat_modifiers {mods : List Byte} {g : Format} (at_ : BytesAt m fmt (mods ++ [c]))
    (reads : modify {} mods = some g) (stops : modifier c g = none) :
    nextFormat m byteLimit fmt {} = some (c, fmt + BitVec.ofNat 32 (mods.length + 1), g) := by
  have other : ∀ b ∈ mods, b ≠ c := by
    rintro b member rfl
    exact modifiers_of_modify reads b member g stops
  exact nextFormat_eq at_ reads (modifier_none stops) byteLimit (at_.length_lt other)

theorem directive_nul {σ : Type} {out : Out σ} {r : Run σ} {mods : List Byte} {g : Format} (at_ : BytesAt r.mem fmt (mods ++ [0#8])) (reads : modify {} mods = some g) :
    directive out fmt r = some (.exit r) := by
  unfold directive
  rw [nextFormat_modifiers at_ reads rfl, Option.bind_eq_bind, Option.bind_some]
  dsimp only
  rw [if_pos rfl]
  rfl

theorem directive_fetched {σ : Type} {out : Out σ} {r : Run σ} {mods : List Byte} {g : Format} {action : Action} {ap' : Word}
    (at_ : BytesAt r.mem fmt (mods ++ [c])) (reads : modify {} mods = some g) (stops : modifier c g = none) (nonzero : c ≠ 0#8)
    (fetched : fetch r.mem r.ap c g.flags = some (action, ap')) :
    directive out fmt r = some (Flow.after (fmt + BitVec.ofNat 32 (mods.length + 1)) (perform out g { r with ap := ap' } action)) := by
  unfold directive
  rw [nextFormat_modifiers at_ reads stops, Option.bind_eq_bind, Option.bind_some]
  dsimp only
  rw [if_neg nonzero, fetched, Option.bind_eq_bind, Option.bind_some]
  dsimp only
  cases perform out g { r with ap := ap' } action <;> rfl

theorem modifier_flag (fs : Flags) (flag : Flag) : modifier flag.byte ⟨fs, 0#32⟩ = some ⟨fs.add flag, 0#32⟩ := by
  cases flag <;> rfl

theorem modify_flags (fs : Flags) (flags : List Flag) :
    modify ⟨fs, 0#32⟩ (flags.map Flag.byte) = some ⟨flags.foldl Flags.add fs, 0#32⟩ := by
  induction flags generalizing fs with
  | nil => rfl
  | cons flag flags ih => rw [List.map_cons, modify, modifier_flag, Option.bind_some, ih, List.foldl_cons]

theorem add_flagSet (seen : List Flag) (flag : Flag) : (flagSet seen).add flag = flagSet (seen ++ [flag]) := by
  cases flag <;> simp [flagSet, Flags.add]

theorem foldl_flagSet (seen flags : List Flag) : flags.foldl Flags.add (flagSet seen) = flagSet (seen ++ flags) := by
  induction flags generalizing seen with
  | nil => simp
  | cons flag flags ih => rw [List.foldl_cons, add_flagSet, ih, List.append_assoc, List.singleton_append]

theorem runOn_nil (n : Nat) : runOn n [] = n := rfl

theorem runOn_cons (n d : Nat) (digits : List Nat) : runOn n (d :: digits) = runOn (n * 10 + d) digits := rfl

theorem widthDigits_lt (width : Nat) : ∀ d ∈ widthDigits width, d < 10 :=
  fun _ member => Nat.digits_lt_base (by decide) (List.mem_reverse.mp member)

theorem widthBytes_eq (width : Nat) : widthBytes width = (widthDigits width).map decimalDigit := by
  unfold widthBytes decimal numeral widthDigits
  split
  · next zero => rw [zero, Nat.digits_zero, List.reverse_nil, List.map_nil]
  · rfl

theorem widthDigits_step {n : Nat} (positive : 0 < n) : widthDigits n = widthDigits (n / 10) ++ [n % 10] := by
  unfold widthDigits
  rw [Nat.digits_def' (by decide) positive, List.reverse_cons]

theorem runOn_append (n : Nat) (digits digits' : List Nat) : runOn n (digits ++ digits') = runOn (runOn n digits) digits' :=
  List.foldl_append

theorem runOn_width (n : Nat) : runOn 0 (widthDigits n) = n := by
  induction n using Nat.strong_induction_on with
  | h n ih =>
    by_cases zero : n = 0
    · rw [zero]
      rfl
    · rw [widthDigits_step (Nat.pos_of_ne_zero zero), runOn_append, ih (n / 10) (by omega), runOn_cons, runOn_nil]
      omega

theorem zeroRead_append (n : Nat) (digits digits' : List Nat) :
    zeroRead n (digits ++ digits') = (zeroRead n digits || zeroRead (runOn n digits) digits') := by
  induction digits generalizing n with
  | nil => rfl
  | cons d digits ih => rw [List.cons_append, zeroRead, zeroRead, ih, Bool.or_assoc, runOn_cons]

theorem zeroRead_width (small : n < 2^32) : zeroRead 0 (widthDigits n) = false := by
  induction n using Nat.strong_induction_on with
  | h n ih =>
    by_cases zero : n = 0
    · rw [zero]
      rfl
    · have last : ¬ (n % 10 = 0 ∧ n / 10 % 2^32 = 0) := by omega
      rw [widthDigits_step (Nat.pos_of_ne_zero zero), zeroRead_append, ih (n / 10) (by omega) (by omega), runOn_width, zeroRead,
        zeroRead, ← Bool.decide_and, decide_eq_false last]
      rfl

theorem decimalDigit_bounds {d : Nat} (small : d < 10) : char '0' ≤ decimalDigit d ∧ decimalDigit d ≤ char '9' ∧
    (decimalDigit d = char '0' ↔ d = 0) ∧ (decimalDigit d - char '0').setWidth 32 = BitVec.ofNat 32 d := by
  interval_cases d <;> decide

theorem modifier_digit {d : Nat} (small : d < 10) (f : Format) :
    modifier (decimalDigit d) f =
      some ⟨if d = 0 ∧ f.formatNum = 0#32 then { f.flags with leadzero := true } else f.flags,
        f.formatNum * 10#32 + BitVec.ofNat 32 d⟩ := by
  obtain ⟨lower, upper, zero, value⟩ := decimalDigit_bounds small
  unfold modifier
  rw [if_pos ⟨lower, upper⟩, value]
  simp only [zero]

/-- Only a width too large for `format_num` can set `LEADZEROFLAG`, when it wraps to zero in front of a `0`. -/
def Flags.wrapped (fs : Flags) (z : Bool) : Flags := { fs with leadzero := fs.leadzero || z }

theorem wrapped_false (fs : Flags) : fs.wrapped false = fs := by simp [Flags.wrapped]

theorem wrapped_wrapped (fs : Flags) (z z' : Bool) : (fs.wrapped z).wrapped z' = fs.wrapped (z || z') := by
  simp [Flags.wrapped, Bool.or_assoc]

/-- `format_num` holds what the digits run on to, modulo `2^32`. -/
theorem modify_digits (fs : Flags) (n : Nat) {digits : List Nat} (small : ∀ d ∈ digits, d < 10) :
    modify ⟨fs, BitVec.ofNat 32 n⟩ (digits.map decimalDigit) =
      some ⟨fs.wrapped (zeroRead n digits), BitVec.ofNat 32 (runOn n digits)⟩ := by
  induction digits generalizing fs n with
  | nil => rw [zeroRead, wrapped_false, runOn_nil, List.map_nil, modify]
  | cons d digits ih =>
    have sum : BitVec.ofNat 32 n * 10#32 + BitVec.ofNat 32 d = BitVec.ofNat 32 (n * 10 + d) := by
      rw [BitVec.ofNat_add, BitVec.ofNat_mul]
    have zero : BitVec.ofNat 32 n = 0#32 ↔ n % 2^32 = 0 := by
      rw [← BitVec.toNat_inj, BitVec.toNat_ofNat]
      rfl
    have read : (if d = 0 ∧ BitVec.ofNat 32 n = 0#32 then { fs with leadzero := true } else fs) =
        fs.wrapped (decide (d = 0) && decide (n % 2^32 = 0)) := by
      rw [← Bool.decide_and]
      by_cases both : d = 0 ∧ n % 2^32 = 0
      · rw [if_pos ⟨both.1, zero.mpr both.2⟩, decide_eq_true both]
        simp [Flags.wrapped]
      · rw [if_neg fun other => both ⟨other.1, zero.mp other.2⟩, decide_eq_false both, wrapped_false]
    rw [List.map_cons, modify, modifier_digit (small d List.mem_cons_self), Option.bind_some]
    dsimp only
    rw [read, sum, ih _ _ fun x member => small x (List.mem_cons_of_mem _ member), wrapped_wrapped, zeroRead, runOn_cons]

theorem modify_width (fs : Flags) (width : Nat) : modify ⟨fs, 0#32⟩ (widthBytes width) =
    some ⟨fs.wrapped (zeroRead 0 (widthDigits width)), BitVec.ofNat 32 width⟩ := by
  have digits := modify_digits fs 0 (widthDigits_lt width)
  rwa [← widthBytes_eq, runOn_width] at digits

theorem modify_length (length : Length) (flags : List Flag) (z : Bool) (formatNum : Word) :
    modify ⟨(flagSet flags).wrapped z, formatNum⟩ length.bytes =
      some ⟨length.set ((flagSet flags).wrapped z), formatNum⟩ := by
  cases length <;> rfl

theorem modify_directive (d : Directive) : modify {} d.modifiers =
    some ⟨d.length.set ((flagSet d.flags).wrapped (zeroRead 0 (widthDigits d.width))), BitVec.ofNat 32 d.width⟩ := by
  have start : ({} : Format) = ⟨flagSet [], 0#32⟩ := rfl
  unfold Directive.modifiers
  rw [modify_append, modify_append, start, modify_flags, foldl_flagSet, List.nil_append, Option.bind_some,
    modify_width, Option.bind_some, modify_length]

theorem modifier_conv (conv : Conv) (f : Format) : modifier conv.byte f = none := by cases conv <;> rfl

theorem conv_ne_nul (conv : Conv) : conv.byte ≠ 0#8 := by cases conv <;> decide

theorem signedArg_eq (length : Length) (flags : List Flag) (z : Bool) (m : Memory) (ap : Word) :
    (signedArg m ap (length.set ((flagSet flags).wrapped z))).1.toInt = length.signedValue m ap ∧
      (signedArg m ap (length.set ((flagSet flags).wrapped z))).2 = ap + length.size := by
  have widen {w : Nat} (v : BitVec w) (h : w ≤ 64) : (v.signExtend 64).toInt = v.toInt := BitVec.toInt_signExtend_of_le h
  cases length
  all_goals refine ⟨?_, rfl⟩
  case ll => rfl
  case j => rfl
  all_goals exact widen _ (by decide)

theorem unsignedArg_eq (length : Length) (flags : List Flag) (z : Bool) (m : Memory) (ap : Word) :
    (unsignedArg m ap (length.set ((flagSet flags).wrapped z))).1.toNat = length.unsignedValue m ap ∧
      (unsignedArg m ap (length.set ((flagSet flags).wrapped z))).2 = ap + length.size := by
  have widen {w : Nat} (v : BitVec w) (h : w ≤ 64) : (v.setWidth 64).toNat = v.toNat := by
    rw [BitVec.toNat_setWidth]
    exact Nat.mod_eq_of_lt (Nat.lt_of_lt_of_le v.isLt (Nat.pow_le_pow_right (by decide) h))
  cases length
  all_goals refine ⟨?_, rfl⟩
  case ll => rfl
  case j => rfl
  all_goals exact widen _ (by decide)

def Directive.digits (d : Directive) (m : Memory) (ap : Word) : List Byte :=
  match d.conv with
  | .d | .i => decimal (d.argLength.signedValue m ap).natAbs
  | .u => decimal (d.argLength.unsignedValue m ap)
  | .X => hexadecimal true (d.argLength.unsignedValue m ap)
  | .x | .p | .s => hexadecimal false (d.argLength.unsignedValue m ap)

def Directive.Body (d : Directive) (m : Memory) (ap : Word) (s : List Byte) : Prop :=
  match d.conv with
  | .s => TextAt m (m.load32 ap) s
  | _ => s = d.digits m ap

/-- `signchar`: also `%u` has one. -/
def Directive.signchar (d : Directive) (m : Memory) (ap : Word) : Byte :=
  match d.conv with
  | .d | .i => signByte (decide (d.argLength.signedValue m ap < 0)) (flagSet d.flags)
  | .u => signByte false (flagSet d.flags)
  | _ => 0#8

def Directive.leading (d : Directive) : List Byte :=
  match d.conv with
  | .x => if .alt ∈ d.flags then [char '0', char 'x'] else []
  | .X => if .alt ∈ d.flags then [char '0', char 'X'] else []
  | .p => [char '0', char 'x']
  | _ => []

theorem TextAt.length_lt {p : Word} {s : List Byte} (text : TextAt m p s) : s.length < 2^32 := by
  cases text with
  | null => decide
  | string _ _ at_ nonzero => exact at_.length_lt nonzero

theorem stringArg_eq {p : Word} {s : List Byte} (text : TextAt m p s) : stringArg m p = some s := by
  unfold stringArg
  cases text with
  | null h => rw [if_pos h]
  | string h text at_ nonzero => rw [if_neg h, stringAt_eq at_ nonzero]

theorem signByte_set (length : Length) (negative : Bool) (flags : List Flag) (z : Bool) :
    signByte negative (length.set ((flagSet flags).wrapped z)) = signByte negative (flagSet flags) := by
  cases length <;> rfl

theorem fetch_signed (conv : Conv) (signed : conv = .d ∨ conv = .i) (m : Memory) (ap : Word) (flags : Flags) :
    fetch m ap conv.byte flags =
      some (.text [] (decimal (signedArg m ap flags).1.toInt.natAbs)
        (signByte (decide ((signedArg m ap flags).1.toInt < 0)) flags) { flags with signed := true },
        (signedArg m ap flags).2) := by
  have unfolded : fetch m ap conv.byte flags = (decimalAction (signedArg m ap flags).1 { flags with signed := true }).bind
      fun action => some (action, (signedArg m ap flags).2) := by
    rcases signed with rfl | rfl <;> rfl
  rw [unfolded, decimalAction_eq]
  rfl

theorem fetch_unsigned (m : Memory) (ap : Word) (flags : Flags) (unsigned : flags.signed = false) :
    fetch m ap (char 'u') flags =
      some (.text [] (decimal (unsignedArg m ap flags).1.toNat) (signByte false flags) flags, (unsignedArg m ap flags).2) := by
  have unfolded : fetch m ap (char 'u') flags = (decimalAction (unsignedArg m ap flags).1 flags).bind
      fun action => some (action, (unsignedArg m ap flags).2) := rfl
  rw [unfolded, decimalAction_eq, magnitude, isNegative, unsigned]
  rfl

/-- The three hexadecimal conversions, by what each sets before the label `hex`. -/
theorem fetch_hex (conv : Conv) (set : Flags → Flags)
    (case_ : conv = .x ∧ set = id ∨ conv = .X ∧ set = (fun flags => { flags with caps := true }) ∨
      conv = .p ∧ set = fun flags => { flags with long := true, alt := true }) (m : Memory) (ap : Word) (flags : Flags) :
    fetch m ap conv.byte flags =
      some (.text (prefixOf (set flags)) (hexadecimal (set flags).caps (unsignedArg m ap (set flags)).1.toNat) 0#8 (set flags),
        (unsignedArg m ap (set flags)).2) := by
  have unfolded : fetch m ap conv.byte flags = (hexAction (unsignedArg m ap (set flags)).1 (set flags)).bind
      fun action => some (action, (unsignedArg m ap (set flags)).2) := by
    rcases case_ with ⟨rfl, rfl⟩ | ⟨rfl, rfl⟩ | ⟨rfl, rfl⟩ <;> rfl
  rw [unfolded, hexAction_eq]
  rfl

theorem fetch_string {ap : Word} {s : List Byte} (text : TextAt m (m.load32 ap) s) (flags : Flags) :
    fetch m ap (char 's') flags = some (.text [] s 0#8 { flags with leadzero := false }, ap + 4#32) := by
  have unfolded : fetch m ap (char 's') flags =
      (stringArg m (m.load32 ap)).bind fun s => some (.text [] s 0#8 { flags with leadzero := false }, ap + 4#32) := rfl
  rw [unfolded, stringArg_eq text, Option.bind_some]

theorem set_leftformat (length : Length) (flags : List Flag) (z : Bool) :
    (length.set ((flagSet flags).wrapped z)).leftformat = decide (.minus ∈ flags) := by cases length <;> rfl

theorem set_leadzero (length : Length) (flags : List Flag) (z : Bool) :
    (length.set ((flagSet flags).wrapped z)).leadzero = (decide (.zero ∈ flags) || z) := by cases length <;> rfl

theorem set_plain (length : Length) (flags : List Flag) (z : Bool) :
    (length.set ((flagSet flags).wrapped z)).signed = false ∧ (length.set ((flagSet flags).wrapped z)).caps = false ∧
      (length.set ((flagSet flags).wrapped z)).alt = decide (.alt ∈ flags) := by cases length <;> exact ⟨rfl, rfl, rfl⟩

theorem unsignedArg_long {flags : Flags} (long : flags.long = true) (m : Memory) (ap : Word) :
    unsignedArg m ap flags =
      if flags.longlong then vaArg64 m ap else ((vaArg32 m ap).1.setWidth 64, (vaArg32 m ap).2) := by
  simp only [unsignedArg, long, ite_true]

/-- `%p` reads its argument as a directive with its own length would. -/
theorem unsignedArg_pointer (d : Directive) (pointer : d.conv = .p) (z : Bool) (m : Memory) (ap : Word) :
    unsignedArg m ap { d.length.set ((flagSet d.flags).wrapped z) with long := true, alt := true } =
      unsignedArg m ap (d.argLength.set ((flagSet d.flags).wrapped z)) := by
  obtain ⟨flags, width, length, conv⟩ := d
  cases pointer
  rw [unsignedArg_long rfl]
  cases length
  all_goals rw [unsignedArg_long rfl]
  all_goals rfl

theorem fetch_directive (d : Directive) (z : Bool) {ap : Word} {s : List Byte} (body : d.Body m ap s) :
    ∃ flags : Flags, flags.leftformat = decide (.minus ∈ d.flags) ∧
      flags.leadzero = ((decide (.zero ∈ d.flags) || z) && decide (d.conv ≠ .s)) ∧
      fetch m ap d.conv.byte (d.length.set ((flagSet d.flags).wrapped z)) =
        some (.text d.leading s (d.signchar m ap) flags, ap + d.argLength.size) := by
  have left := set_leftformat d.length d.flags z
  have zero := set_leadzero d.length d.flags z
  obtain ⟨unsigned, lower, alt⟩ := set_plain d.length d.flags z
  obtain ⟨signedValue, signedNext⟩ := signedArg_eq d.length d.flags z m ap
  obtain ⟨unsignedValue, unsignedNext⟩ := unsignedArg_eq d.argLength d.flags z m ap
  have pointer := fun h => unsignedArg_pointer d h z m ap
  have signs := fun negative => signByte_set d.length negative d.flags z
  obtain ⟨flags, width, length, conv⟩ := d
  dsimp only at left zero unsigned lower alt signedValue signedNext signs pointer ⊢
  cases conv
  case d =>
    refine ⟨{ length.set ((flagSet flags).wrapped z) with signed := true }, left, by simpa using zero, ?_⟩
    rw [fetch_signed .d (Or.inl rfl), signedValue, signedNext, signs, body]
    rfl
  case i =>
    refine ⟨{ length.set ((flagSet flags).wrapped z) with signed := true }, left, by simpa using zero, ?_⟩
    rw [fetch_signed .i (Or.inr rfl), signedValue, signedNext, signs, body]
    rfl
  case u =>
    have value : (unsignedArg m ap (length.set ((flagSet flags).wrapped z))).1.toNat = length.unsignedValue m ap := unsignedValue
    have next : (unsignedArg m ap (length.set ((flagSet flags).wrapped z))).2 = ap + length.size := unsignedNext
    refine ⟨length.set ((flagSet flags).wrapped z), left, by simpa using zero, ?_⟩
    rw [show Conv.byte .u = char 'u' from rfl, fetch_unsigned m ap _ unsigned, value, next, signs, body]
    rfl
  case x =>
    have value : (unsignedArg m ap (length.set ((flagSet flags).wrapped z))).1.toNat = length.unsignedValue m ap := unsignedValue
    have next : (unsignedArg m ap (length.set ((flagSet flags).wrapped z))).2 = ap + length.size := unsignedNext
    refine ⟨length.set ((flagSet flags).wrapped z), left, by simpa using zero, ?_⟩
    rw [fetch_hex .x id (Or.inl ⟨rfl, rfl⟩), id, value, next, prefixOf, alt, lower, body]
    simp only [decide_eq_true_eq]
    rfl
  case X =>
    have value : (unsignedArg m ap { length.set ((flagSet flags).wrapped z) with caps := true }).1.toNat =
      length.unsignedValue m ap := unsignedValue
    have next : (unsignedArg m ap { length.set ((flagSet flags).wrapped z) with caps := true }).2 = ap + length.size :=
      unsignedNext
    refine ⟨{ length.set ((flagSet flags).wrapped z) with caps := true }, left, by simpa using zero, ?_⟩
    rw [fetch_hex .X _ (Or.inr (Or.inl ⟨rfl, rfl⟩)), value, next, prefixOf, body]
    dsimp only
    rw [alt]
    simp only [decide_eq_true_eq]
    rfl
  case s =>
    refine ⟨{ length.set ((flagSet flags).wrapped z) with leadzero := false }, left, by simp, ?_⟩
    exact fetch_string body _
  case p =>
    refine ⟨{ length.set ((flagSet flags).wrapped z) with long := true, alt := true }, left, by simpa using zero, ?_⟩
    rw [fetch_hex .p _ (Or.inr (Or.inr ⟨rfl, rfl⟩)), pointer rfl, unsignedValue, unsignedNext, prefixOf, body]
    dsimp only
    rw [lower]
    rfl

end

end ThreeX86.Printf
