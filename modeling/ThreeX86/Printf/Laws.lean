import Mathlib.Data.List.DropRight
import ThreeX86.Printf.Emission

namespace ThreeX86.Printf

open Machine Machine.Memory Numerals

/-! The sign law and the width law of the directives, and where `_printf_engine` breaks them. -/

def Flow.run {σ : Type} : Flow σ → Run σ
  | .exit r => r
  | .next _ r => r

/-- `T` goes out for the directive at `fmt`, to an output function that takes all bytes. -/
def Emits (r : Run (List Byte)) (fmt : Word) (T : List Byte) : Prop :=
  ∃ flow, directive collect fmt r = some flow ∧ flow.run.state = r.state ++ T

/-! ### Reading a number back -/

def strip (T : List Byte) : List Byte := (T.rdropWhile (· = char ' ')).dropWhile (· = char ' ')

def readDigits (T : List Byte) : Option Nat :=
  if T ≠ [] ∧ ∀ b ∈ T, char '0' ≤ b ∧ b ≤ char '9' then some (value 10 (T.map fun b => (b - char '0').toNat)) else none

/-- The integer that a text stands for, once the padding is stripped. -/
def parse (T : List Byte) : Option Int :=
  match strip T with
  | [] => none
  | c :: rest =>
    if c = char '-' then (readDigits rest).map fun n => -(n : Int)
    else if c = char '+' then (readDigits rest).map fun n => (n : Int)
    else (readDigits (c :: rest)).map fun n => (n : Int)

def Directive.sign (d : Directive) (m : Memory) (ap : Word) : List Byte :=
  match d.conv with
  | .d | .i =>
    if d.argLength.signedValue m ap < 0 then [char '-']
    else if .plus ∈ d.flags then [char '+']
    else if .blank ∈ d.flags then [char ' ']
    else []
  | _ => []

/-- The digits behind their sign, in no more padding than the width asks for. Without `blanks`, a blank on the left
    is not padding. -/
def Signed (width : Nat) (blanks : Prop) (sign digits T : List Byte) : Prop :=
  ∃ a b c, T = List.replicate a (char ' ') ++ (sign ++
      (List.replicate b (char '0') ++ (digits ++ List.replicate c (char ' ')))) ∧
    T.length ≤ max width (sign.length + digits.length) ∧ (¬ blanks → a = 0)

/-- The text of an integer directive has the sign that C asks for, and a decimal text reads back as the argument. -/
def SignLaw (d : Directive) (m : Memory) (ap : Word) (T : List Byte) : Prop :=
  Signed d.width (.minus ∉ d.flags ∧ .zero ∉ d.flags) (d.sign m ap) (d.digits m ap) T ∧
    (d.conv = .d ∨ d.conv = .i → parse T = some (d.argLength.signedValue m ap))

def Directive.SignKept (d : Directive) (m : Memory) (ap : Word) : Prop :=
  match d.conv with
  | .d | .i => .minus ∉ d.flags ∨ (0 ≤ d.argLength.signedValue m ap ∧ .plus ∉ d.flags ∧ .blank ∉ d.flags)
  | .u => .minus ∈ d.flags ∨
      (.plus ∉ d.flags ∧ (.blank ∉ d.flags ∨ (.zero ∉ d.flags ∧ (d.digits m ap).length < d.width)))
  | _ => True

section

variable {r : Run (List Byte)} {fmt : Word} {T s : List Byte} {m : Memory} {ap : Word}

theorem Emits.unique {T' : List Byte} (emits : Emits r fmt T) (emits' : Emits r fmt T') : T = T' := by
  obtain ⟨flow, turn, state⟩ := emits
  obtain ⟨flow', turn', state'⟩ := emits'
  cases turn.symm.trans turn'
  exact List.append_cancel_left (state.symm.trans state')

theorem emits_short (d : Directive) (running : ¬ r.err.toInt < 0) (at_ : BytesAt r.mem fmt d.bytes)
    (body : d.Body r.mem r.ap s) (short : s.length < 2^31) :
    ∃ z, (d.width < 2^32 → z = false) ∧ Emits r fmt (d.output z r.mem r.ap s) := by
  obtain ⟨z, exact_, err, -, turn⟩ := directive_next d running at_ body short
  exact ⟨z, exact_, _, turn, rfl⟩

theorem emits_modified (d : Directive) {formatNum : Word} {mods : List Byte} {z : Bool} (running : ¬ r.err.toInt < 0)
    (at_ : BytesAt r.mem fmt (mods ++ [d.conv.byte]))
    (reads : modify {} mods = some ⟨d.length.set ((flagSet d.flags).wrapped z), formatNum⟩) (body : d.Body r.mem r.ap s)
    (bound : s.length < 2^32) :
    Emits r fmt (d.leading ++ fieldEmitted (decide (.minus ∈ d.flags)) ((decide (.zero ∈ d.flags) || z) && decide (d.conv ≠ .s))
      formatNum.toNat (d.signchar r.mem r.ap) s) := by
  obtain ⟨flags, left, zero, err, positive, turn⟩ := directive_modified d running at_ reads body
  rw [← left, ← zero]
  by_cases short : s.length < 2^31
  · obtain ⟨err', positive', performed⟩ := puts_text (r := Run.put { r with ap := r.ap + d.argLength.size } err d.leading) flags
      formatNum (d.signchar r.mem r.ap) positive short
    rw [performed, put_put] at turn
    refine ⟨_, turn, ?_⟩
    rw [fieldEmitted, if_neg fun both => Nat.not_le_of_lt short both.2]
    rfl
  · obtain ⟨r', failed, state⟩ := text_error (r := Run.put { r with ap := r.ap + d.argLength.size } err d.leading) flags formatNum
      (d.signchar r.mem r.ap) positive (Nat.le_of_not_lt short) bound
    rw [failed] at turn
    refine ⟨_, turn, ?_⟩
    rw [← List.append_assoc]
    exact state

theorem emits_output (d : Directive) (running : ¬ r.err.toInt < 0) (at_ : BytesAt r.mem fmt d.bytes)
    (body : d.Body r.mem r.ap s) (bound : s.length < 2^32) (small : d.width < 2^31) :
    Emits r fmt (d.output false r.mem r.ap s) := by
  have emits := emits_modified d running at_ (modify_directive d) body bound
  have width : (BitVec.ofNat 32 d.width).toNat = d.width := toNat_ofNat_word (by omega)
  rw [zeroRead_width (by omega)] at emits
  unfold Directive.output
  unfold fieldEmitted at emits
  split at emits
  · next long =>
    -- no width below `2^31` asks for padding here
    rw [long.1, width, fieldText, if_pos rfl, Nat.sub_eq_zero_of_le (by omega), List.replicate_zero, List.append_nil]
    exact emits
  · exact emits

/-! ### The numbers -/

theorem unsignedValue_lt (length : Length) (m : Memory) (ap : Word) : length.unsignedValue m ap < 2^64 := by
  have narrow {w : Nat} (v : BitVec w) (h : w ≤ 64) : v.toNat < 2^64 :=
    Nat.lt_of_lt_of_le v.isLt (Nat.pow_le_pow_right (by decide) h)
  cases length <;> exact narrow _ (by decide)

theorem signedValue_natAbs_lt (length : Length) (m : Memory) (ap : Word) : (length.signedValue m ap).natAbs < 2^64 := by
  have narrow {w : Nat} (v : BitVec w) (h : w ≤ 64) : v.toInt.natAbs < 2^64 := by
    have bound : 2^w ≤ 2^64 := Nat.pow_le_pow_right (by decide) h
    have isLt := v.isLt
    rw [BitVec.toInt_eq_toNat_cond]
    split <;> omega
  cases length <;> exact narrow _ (by decide)

theorem digits_short (d : Directive) (m : Memory) (ap : Word) : (d.digits m ap).length < 2^31 := by
  have decimals {n : Nat} (small : n < 2^64) : (decimal n).length < 2^31 :=
    Nat.lt_of_le_of_lt (numeral_length_le (by decide) (by decide) (Nat.lt_trans small (by decide : 2^64 < 10^20))) (by decide)
  have hexadecimals {caps : Bool} {n : Nat} (small : n < 2^64) : (hexadecimal caps n).length < 2^31 :=
    Nat.lt_of_le_of_lt (numeral_length_le (by decide) (by decide) (Nat.lt_trans small (by decide : 2^64 < 16^20))) (by decide)
  have unsigned := unsignedValue_lt d.argLength m ap
  unfold Directive.digits
  cases d.conv with
  | d => exact decimals (signedValue_natAbs_lt d.argLength m ap)
  | i => exact decimals (signedValue_natAbs_lt d.argLength m ap)
  | u => exact decimals unsigned
  | x => exact hexadecimals unsigned
  | X => exact hexadecimals unsigned
  | s => exact hexadecimals unsigned
  | p => exact hexadecimals unsigned

/-! ### Reading a number back -/

theorem dropWhile_spaces (a : Nat) (X : List Byte) :
    (List.replicate a (char ' ') ++ X).dropWhile (· = char ' ') = X.dropWhile (· = char ' ') := by
  induction a with
  | zero => rfl
  | succ a ih => rw [List.replicate_succ, List.cons_append, List.dropWhile_cons_of_pos (by simp), ih]

theorem dropWhile_text {X : List Byte} (nonempty : X ≠ []) (text : ∀ b ∈ X, b ≠ char ' ') (Z : List Byte) :
    (X ++ Z).dropWhile (· = char ' ') = X ++ Z := by
  cases X with
  | nil => exact absurd rfl nonempty
  | cons x X =>
    have first := text x List.mem_cons_self
    rw [List.cons_append, List.dropWhile_cons_of_neg (by simpa using first)]

theorem strip_padded {X : List Byte} (nonempty : X ≠ []) (text : ∀ b ∈ X, b ≠ char ' ') (a c : Nat) :
    strip (List.replicate a (char ' ') ++ (X ++ List.replicate c (char ' '))) = X := by
  have backwards : X.reverse ≠ [] := by simpa using nonempty
  have reversed : ∀ b ∈ X.reverse, b ≠ char ' ' := fun b member => text b (List.mem_reverse.mp member)
  have front := dropWhile_text nonempty text []
  rw [List.append_nil] at front
  unfold strip
  rw [List.rdropWhile, List.reverse_append, List.reverse_append, List.reverse_replicate, List.reverse_replicate,
    List.append_assoc, dropWhile_spaces, dropWhile_text backwards reversed, List.reverse_append, List.reverse_reverse,
    List.reverse_replicate, dropWhile_spaces, front]

theorem strip_text {X : List Byte} (nonempty : X ≠ []) (text : ∀ b ∈ X, b ≠ char ' ') : strip X = X := by
  have bare := strip_padded nonempty text 0 0
  rwa [List.replicate_zero, List.nil_append, List.append_nil] at bare

theorem parse_padded {X : List Byte} (nonempty : X ≠ []) (text : ∀ b ∈ X, b ≠ char ' ') (a c : Nat) :
    parse (List.replicate a (char ' ') ++ (X ++ List.replicate c (char ' '))) = parse X := by
  unfold parse
  rw [strip_padded nonempty text, strip_text nonempty text]

theorem readDigits_bytes {X : List Byte} {n : Nat} (reads : readDigits X = some n) :
    X ≠ [] ∧ ∀ b ∈ X, char '0' ≤ b ∧ b ≤ char '9' := by
  unfold readDigits at reads
  split at reads
  · next bytes => exact bytes
  · cases reads

theorem readDigits_zeros (b n : Nat) : readDigits (List.replicate b (char '0') ++ decimal n) = some n := by
  have bytes : ∀ x ∈ List.replicate b (char '0') ++ decimal n, char '0' ≤ x ∧ x ≤ char '9' := by
    intro x member
    rcases List.mem_append.mp member with zero | digit
    · rw [List.eq_of_mem_replicate zero]
      decide
    · obtain ⟨i, small, rfl⟩ := mem_numeral (by decide) digit
      have bounds := decimalDigit_bounds small
      exact ⟨bounds.1, bounds.2.1⟩
  have nonempty : List.replicate b (char '0') ++ decimal n ≠ [] :=
    List.append_ne_nil_of_right_ne_nil _ (numeral_ne_nil 10 decimalDigit n)
  have reads : ∀ i < 10, (decimalDigit i - char '0').toNat = i := by decide
  have zero : (char '0' - char '0').toNat = 0 := rfl
  have whole : value 10 ((decimal n).map fun b => (b - char '0').toNat) = n :=
    value_numeral (by decide) (fun b => (b - char '0').toNat) reads n
  unfold readDigits
  rw [if_pos ⟨nonempty, bytes⟩, List.map_append, List.map_replicate, zero, value_zeros, whole]

theorem parse_digits {X : List Byte} {n : Nat} (reads : readDigits X = some n) : parse X = some (n : Int) := by
  obtain ⟨nonempty, bytes⟩ := readDigits_bytes reads
  have text : ∀ b ∈ X, b ≠ char ' ' := by
    rintro b member rfl
    exact absurd (bytes _ member).1 (by decide)
  unfold parse
  rw [strip_text nonempty text]
  cases X with
  | nil => exact absurd rfl nonempty
  | cons c rest =>
    have lower := (bytes c List.mem_cons_self).1
    have notMinus : c ≠ char '-' := by rintro rfl; exact absurd lower (by decide)
    have notPlus : c ≠ char '+' := by rintro rfl; exact absurd lower (by decide)
    dsimp only
    rw [if_neg notMinus, if_neg notPlus, reads]
    rfl

theorem parse_sign {X : List Byte} {n : Nat} (reads : readDigits X = some n) {c : Byte} (sign : c = char '-' ∨ c = char '+') :
    parse (c :: X) = some (if c = char '-' then -(n : Int) else n) := by
  obtain ⟨nonempty, bytes⟩ := readDigits_bytes reads
  have text : ∀ b ∈ c :: X, b ≠ char ' ' := by
    intro b member
    rcases List.mem_cons.mp member with rfl | digit
    · rcases sign with rfl | rfl <;> decide
    · rintro rfl
      exact absurd (bytes _ digit).1 (by decide)
  unfold parse
  rw [strip_text (List.cons_ne_nil c X) text]
  dsimp only
  rw [reads]
  rcases sign with rfl | rfl
  · rfl
  · rfl

theorem parse_number {sign : List Byte} (v : Int) (blank : Prop) [Decidable blank] (plus : Prop) [Decidable plus]
    (same : sign = if v < 0 then [char '-'] else if plus then [char '+'] else if blank then [char ' '] else []) (a b c : Nat) :
    parse (List.replicate a (char ' ') ++ (sign ++ (List.replicate b (char '0') ++ (decimal v.natAbs ++
      List.replicate c (char ' '))))) = some v := by
  have reads := readDigits_zeros b v.natAbs
  obtain ⟨nonempty, bytes⟩ := readDigits_bytes reads
  have digits : ∀ x ∈ List.replicate b (char '0') ++ decimal v.natAbs, x ≠ char ' ' := by
    rintro x member rfl
    exact absurd (bytes _ member).1 (by decide)
  have signed {x : Byte} (other : x ≠ char ' ') : ∀ y ∈ x :: (List.replicate b (char '0') ++ decimal v.natAbs), y ≠ char ' ' := by
    intro y member
    rcases List.mem_cons.mp member with rfl | digit
    · exact other
    · exact digits y digit
  rw [← List.append_assoc (List.replicate b _)]
  generalize List.replicate b (char '0') ++ decimal v.natAbs = number at reads nonempty digits signed ⊢
  rw [same]
  split
  · next negative =>
    rw [← List.append_assoc [char '-'], List.singleton_append, parse_padded (List.cons_ne_nil _ _) (signed (by decide)),
      parse_sign reads (Or.inl rfl), if_pos rfl]
    congr 1
    omega
  · next positive =>
    have value : (v.natAbs : Int) = v := by omega
    split
    · rw [← List.append_assoc [char '+'], List.singleton_append, parse_padded (List.cons_ne_nil _ _) (signed (by decide)),
        parse_sign reads (Or.inr rfl), if_neg (by decide), value]
    · split
      · rw [← List.append_assoc, ← List.replicate_succ', parse_padded nonempty digits, parse_digits reads, value]
      · rw [List.nil_append, parse_padded nonempty digits, parse_digits reads, value]

/-! ### The sign -/

variable {width formatNum : Nat} {blanks : Prop} {sign digits : List Byte} {signchar : Byte}

theorem fieldText_zeros (formatNum : Nat) (signchar : Byte) (s : List Byte) :
    ∃ n, fieldText false true formatNum signchar s = signText signchar ++ (List.replicate n (char '0') ++ s) := ⟨_, rfl⟩

theorem fieldText_blanks (formatNum : Nat) (signchar : Byte) (s : List Byte) :
    ∃ n, fieldText false false formatNum signchar s = List.replicate n (char ' ') ++ (signText signchar ++ s) := ⟨_, rfl⟩

theorem signed_right (zero : Bool) (padded : zero = false → blanks) (fits : formatNum ≤ width) :
    Signed width blanks (signText signchar) digits (fieldText false zero formatNum signchar digits) := by
  have length := length_fieldText false zero formatNum signchar digits
  rw [if_neg Bool.false_ne_true] at length
  have bound : (fieldText false zero formatNum signchar digits).length ≤
      max width ((signText signchar).length + digits.length) := by omega
  cases zero with
  | true =>
    obtain ⟨n, text⟩ := fieldText_zeros formatNum signchar digits
    exact ⟨0, n, 0, by simp [text], bound, fun _ => rfl⟩
  | false =>
    obtain ⟨n, text⟩ := fieldText_blanks formatNum signchar digits
    exact ⟨n, 0, 0, by simp [text], bound, fun none => absurd (padded rfl) none⟩

theorem signed_left (zero : Bool) (fits : formatNum ≤ width) :
    Signed width blanks [] digits (fieldText true zero formatNum signchar digits) := by
  have length := length_fieldText true zero formatNum signchar digits
  rw [if_pos rfl] at length
  refine ⟨0, 0, formatNum - digits.length, ?_, ?_, fun _ => rfl⟩
  · simp [fieldText]
  · rw [length, List.length_nil]
    omega

/-- A blank in place of a padding blank does not show. -/
theorem signed_blank (zero : Bool) (padded : blanks) (fits : formatNum ≤ width) (room : digits.length < width) :
    Signed width blanks [] digits (fieldText false zero formatNum (char ' ') digits) := by
  have whole : Signed width blanks [char ' '] digits (fieldText false zero formatNum (char ' ') digits) :=
    signed_right zero (fun _ => padded) fits
  obtain ⟨a, b, c, text, -, -⟩ := whole
  have length := length_fieldText false zero formatNum (char ' ') digits
  rw [if_neg Bool.false_ne_true, length_signText, if_neg (by decide)] at length
  refine ⟨a + 1, b, c, ?_, ?_, fun none => absurd padded none⟩
  · rw [text, List.replicate_succ', List.append_assoc]
    rfl
  · rw [length, List.length_nil]
    omega

theorem not_signed_left (zero : Bool) (left : ¬ blanks) (nonempty : digits ≠ []) {c : Byte} (other : c ∉ digits) :
    ¬ Signed width blanks [c] digits (fieldText true zero formatNum signchar digits) := by
  rintro ⟨a, b, k, text, -, padding⟩
  rw [padding left] at text
  cases digits with
  | nil => exact nonempty rfl
  | cons x digits =>
    have first : x = c := by
      simp only [fieldText, ite_true, List.cons_append, List.replicate_zero, List.nil_append, List.cons.injEq] at text
      exact text.1
    exact other (first ▸ List.mem_cons_self)

theorem mem_fieldText_sign (zero : Bool) (some_ : signchar ≠ 0#8) :
    signchar ∈ fieldText false zero formatNum signchar digits := by
  rw [fieldText_right, fieldFront, signText, if_neg some_]
  cases zero <;> simp

theorem not_signed_plus (zero : Bool) (other : char '+' ∉ digits) :
    ¬ Signed width blanks [] digits (fieldText false zero formatNum (char '+') digits) := by
  rintro ⟨a, b, c, text, -, -⟩
  have member : char '+' ∈ fieldText false zero formatNum (char '+') digits := mem_fieldText_sign zero (by decide)
  rw [text] at member
  simp only [List.mem_append, List.mem_replicate, List.not_mem_nil, false_or] at member
  rcases member with ⟨-, blank⟩ | ⟨-, nought⟩ | digit | ⟨-, blank⟩
  · exact absurd blank (by decide)
  · exact absurd nought (by decide)
  · exact other digit
  · exact absurd blank (by decide)

theorem not_signed_zeros (left : ¬ blanks) (nonempty : digits ≠ []) (other : char ' ' ∉ digits) :
    ¬ Signed width blanks [] digits (fieldText false true formatNum (char ' ') digits) := by
  rintro ⟨a, b, c, text, -, padding⟩
  obtain ⟨n, zeros⟩ := fieldText_zeros formatNum (char ' ') digits
  have sign : signText (char ' ') = [char ' '] := rfl
  rw [zeros, sign, padding left] at text
  simp only [List.cons_append, List.replicate_zero, List.nil_append] at text
  cases b with
  | zero =>
    cases digits with
    | nil => exact nonempty rfl
    | cons x digits =>
      simp only [List.replicate_zero, List.nil_append, List.cons_append, List.cons.injEq] at text
      exact other (text.1 ▸ List.mem_cons_self)
  | succ b =>
    rw [List.replicate_succ, List.cons_append, List.cons.injEq] at text
    exact absurd text.1 (by decide)

theorem not_signed_narrow (zero : Bool) (narrow : width ≤ digits.length) :
    ¬ Signed width blanks [] digits (fieldText false zero formatNum (char ' ') digits) := by
  rintro ⟨a, b, c, -, bound, -⟩
  have length := length_fieldText false zero formatNum (char ' ') digits
  rw [if_neg Bool.false_ne_true, length_signText, if_neg (by decide)] at length
  rw [length, List.length_nil] at bound
  omega

/-! ### The sign law -/

theorem decimal_lacks {n : Nat} {c : Byte} (other : c < char '0') : c ∉ decimal n := by
  intro member
  obtain ⟨i, small, rfl⟩ := mem_numeral (by decide) member
  have bounds := decimalDigit_bounds small
  exact absurd other (BitVec.not_lt.mpr bounds.1)

structure SignedConv (d : Directive) (m : Memory) (ap : Word) : Prop where
  sign : d.sign m ap = if d.argLength.signedValue m ap < 0 then [char '-']
    else if .plus ∈ d.flags then [char '+'] else if .blank ∈ d.flags then [char ' '] else []
  signchar : signText (d.signchar m ap) = d.sign m ap
  digits : d.digits m ap = decimal (d.argLength.signedValue m ap).natAbs
  kept : d.SignKept m ap ↔
    (.minus ∉ d.flags ∨ (0 ≤ d.argLength.signedValue m ap ∧ .plus ∉ d.flags ∧ .blank ∉ d.flags))

theorem signedConv {d : Directive} (signed : d.conv = .d ∨ d.conv = .i) (m : Memory) (ap : Word) : SignedConv d m ap := by
  have sign : d.sign m ap = if d.argLength.signedValue m ap < 0 then [char '-']
      else if .plus ∈ d.flags then [char '+'] else if .blank ∈ d.flags then [char ' '] else [] := by
    rcases signed with conv | conv <;> simp [Directive.sign, conv]
  have signchar : d.signchar m ap = signByte (decide (d.argLength.signedValue m ap < 0)) (flagSet d.flags) := by
    rcases signed with conv | conv <;> simp [Directive.signchar, conv]
  constructor
  case sign => exact sign
  case signchar =>
    rw [signchar, sign]
    simp only [signByte, flagSet, decide_eq_true_eq]
    split
    · rfl
    · split
      · rfl
      · split <;> rfl
  case digits => rcases signed with conv | conv <;> simp [Directive.digits, conv]
  case kept => rcases signed with conv | conv <;> simp [Directive.SignKept, conv]

variable {d : Directive}

theorem padded_blanks {flags : List Flag} {z : Bool} (minus : .minus ∉ flags)
    (noZero : (decide (.zero ∈ flags) || z) = false) : .minus ∉ flags ∧ .zero ∉ flags := by
  rw [Bool.or_eq_false_iff, decide_eq_false_iff_not] at noZero
  exact ⟨minus, noZero.1⟩

theorem signed_field (signed : d.conv = .d ∨ d.conv = .i) (z : Bool) (fits : formatNum ≤ d.width) :
    Signed d.width (.minus ∉ d.flags ∧ .zero ∉ d.flags) (d.sign m ap) (d.digits m ap)
      (fieldText (decide (.minus ∈ d.flags)) (decide (.zero ∈ d.flags) || z) formatNum (d.signchar m ap) (d.digits m ap)) ↔
    d.SignKept m ap := by
  have conv := signedConv signed m ap
  rw [conv.kept]
  by_cases minus : .minus ∈ d.flags
  · rw [decide_eq_true minus]
    have left : ¬ (Flag.minus ∉ d.flags ∧ Flag.zero ∉ d.flags) := fun right => right.1 minus
    constructor
    · intro law
      refine Or.inr ?_
      have lost {c : Byte} (below : c < char '0') (asked : d.sign m ap = [c]) : False := by
        rw [asked, conv.digits] at law
        exact not_signed_left _ left (numeral_ne_nil _ _ _) (decimal_lacks below) law
      have sign := conv.sign
      by_contra kept
      split at sign
      · exact lost (by decide) sign
      · next positive =>
        split at sign
        · exact lost (by decide) sign
        · next noPlus =>
          split at sign
          · exact lost (by decide) sign
          · next noBlank => exact kept ⟨Int.not_lt.mp positive, noPlus, noBlank⟩
    · rintro (right | ⟨positive, noPlus, noBlank⟩)
      · exact absurd minus right
      · rw [conv.sign, if_neg (Int.not_lt.mpr positive), if_neg noPlus, if_neg noBlank]
        exact signed_left _ fits
  · rw [decide_eq_false minus, ← conv.signchar]
    exact iff_of_true (signed_right _ (padded_blanks minus) fits) (Or.inl minus)

theorem unsigned_field (conv : d.conv = .u) (z : Bool) (fits : formatNum ≤ d.width) :
    Signed d.width (.minus ∉ d.flags ∧ .zero ∉ d.flags) (d.sign m ap) (d.digits m ap)
      (fieldText (decide (.minus ∈ d.flags)) (decide (.zero ∈ d.flags) || z) formatNum (d.signchar m ap) (d.digits m ap)) ↔
    d.SignKept m ap := by
  have sign : d.sign m ap = [] := by simp [Directive.sign, conv]
  have digits : d.digits m ap = decimal (d.argLength.unsignedValue m ap) := by simp [Directive.digits, conv]
  have signchar : d.signchar m ap = signByte false (flagSet d.flags) := by simp [Directive.signchar, conv]
  have kept : d.SignKept m ap ↔ .minus ∈ d.flags ∨
      (.plus ∉ d.flags ∧ (.blank ∉ d.flags ∨ (.zero ∉ d.flags ∧ (d.digits m ap).length < d.width))) := by
    simp [Directive.SignKept, conv]
  have nonempty : d.digits m ap ≠ [] := by
    rw [digits]
    exact numeral_ne_nil _ _ _
  rw [sign, kept]
  by_cases minus : .minus ∈ d.flags
  · rw [decide_eq_true minus]
    exact iff_of_true (signed_left _ fits) (Or.inl minus)
  · rw [decide_eq_false minus]
    have right : ∀ {P : Prop}, (Flag.minus ∈ d.flags ∨ P) ↔ P := or_iff_right minus
    rw [right]
    by_cases plus : .plus ∈ d.flags
    · have byte : d.signchar m ap = char '+' := by simp [signchar, signByte, flagSet, plus]
      rw [byte]
      refine iff_of_false (not_signed_plus _ ?_) fun law => law.1 plus
      rw [digits]
      exact decimal_lacks (by decide)
    · by_cases blank : .blank ∈ d.flags
      · have byte : d.signchar m ap = char ' ' := by simp [signchar, signByte, flagSet, plus, blank]
        rw [byte]
        have lacks : char ' ' ∉ d.digits m ap := by
          rw [digits]
          exact decimal_lacks (by decide)
        constructor
        · intro law
          refine ⟨plus, Or.inr ⟨fun zero => ?_, ?_⟩⟩
          · rw [decide_eq_true zero, Bool.true_or] at law
            exact not_signed_zeros (fun padded => padded.2 zero) nonempty lacks law
          · by_contra narrow
            exact not_signed_narrow _ (Nat.le_of_not_lt narrow) law
        · rintro ⟨-, noBlank | ⟨noZero, room⟩⟩
          · exact absurd blank noBlank
          · exact signed_blank _ ⟨minus, noZero⟩ fits room
      · have byte : d.signchar m ap = 0#8 := by simp [signchar, signByte, flagSet, plus, blank]
        have noSign : signText 0#8 = [] := rfl
        rw [byte, ← noSign]
        exact iff_of_true (signed_right _ (padded_blanks minus) fits) ⟨plus, Or.inl blank⟩

theorem hex_field (conv : d.conv = .x ∨ d.conv = .X) (z : Bool) (fits : formatNum ≤ d.width) :
    Signed d.width (.minus ∉ d.flags ∧ .zero ∉ d.flags) (d.sign m ap) (d.digits m ap)
      (fieldText (decide (.minus ∈ d.flags)) (decide (.zero ∈ d.flags) || z) formatNum (d.signchar m ap) (d.digits m ap)) ↔
    d.SignKept m ap := by
  have sign : d.sign m ap = [] := by rcases conv with conv | conv <;> simp [Directive.sign, conv]
  have byte : d.signchar m ap = 0#8 := by rcases conv with conv | conv <;> simp [Directive.signchar, conv]
  have kept : d.SignKept m ap := by rcases conv with conv | conv <;> simp [Directive.SignKept, conv]
  have noSign : signText 0#8 = [] := rfl
  refine iff_of_true ?_ kept
  by_cases minus : .minus ∈ d.flags
  · rw [sign, decide_eq_true minus]
    exact signed_left _ fits
  · rw [sign, byte, decide_eq_false minus, ← noSign]
    exact signed_right _ (padded_blanks minus) fits

theorem signLaw_field (integer : d.conv ∈ [.d, .i, .u, .x, .X]) (z : Bool) (fits : formatNum ≤ d.width) :
    SignLaw d m ap
      (fieldText (decide (.minus ∈ d.flags)) (decide (.zero ∈ d.flags) || z) formatNum (d.signchar m ap) (d.digits m ap)) ↔
    d.SignKept m ap := by
  unfold SignLaw
  by_cases signed : d.conv = .d ∨ d.conv = .i
  · rw [← signed_field signed z fits]
    refine and_iff_left_of_imp fun law _ => ?_
    obtain ⟨a, b, c, text, -, -⟩ := law
    have conv := signedConv signed m ap
    rw [text, conv.digits]
    exact parse_number _ _ _ conv.sign a b c
  · refine (and_iff_left fun other => absurd other signed).trans ?_
    by_cases unsigned : d.conv = .u
    · exact unsigned_field unsigned z fits
    · refine hex_field ?_ z fits
      cases conv : d.conv <;> simp_all

theorem body_digits (number : d.conv ≠ .s) (m : Memory) (ap : Word) : d.Body m ap (d.digits m ap) := by
  unfold Directive.Body
  cases conv : d.conv with
  | s => exact absurd conv number
  | _ => rfl

theorem emits_integer (integer : d.conv ∈ [.d, .i, .u, .x, .X]) (plain : .alt ∉ d.flags) (running : ¬ r.err.toInt < 0)
    (at_ : BytesAt r.mem fmt d.bytes) :
    ∃ z, Emits r fmt (fieldText (decide (.minus ∈ d.flags)) (decide (.zero ∈ d.flags) || z) (BitVec.ofNat 32 d.width).toNat
      (d.signchar r.mem r.ap) (d.digits r.mem r.ap)) := by
  have text : d.conv ≠ .s := by rintro conv; simp [conv] at integer
  have bare : d.leading = [] := by
    unfold Directive.leading
    cases conv : d.conv <;> simp_all
  obtain ⟨z, -, emits⟩ := emits_short d running at_ (body_digits text r.mem r.ap) (digits_short d r.mem r.ap)
  unfold Directive.output at emits
  rw [bare, List.nil_append, decide_eq_true text, Bool.and_true] at emits
  exact ⟨z, emits⟩

/-- The sign law holds of the right-justified signed conversions, of the hexadecimal ones, and of `%u` where no sign
    is asked for: left-justified, the engine drops the sign, and `%u` has one if it is asked for. -/
theorem sign_law_iff (integer : d.conv ∈ [.d, .i, .u, .x, .X]) (plain : .alt ∉ d.flags) (running : ¬ r.err.toInt < 0)
    (at_ : BytesAt r.mem fmt d.bytes) :
    (∃ T, Emits r fmt T ∧ SignLaw d r.mem r.ap T) ↔ d.SignKept r.mem r.ap := by
  obtain ⟨z, emits⟩ := emits_integer integer plain running at_
  have fits : (BitVec.ofNat 32 d.width).toNat ≤ d.width := by
    rw [BitVec.toNat_ofNat]
    exact Nat.mod_le _ _
  rw [← signLaw_field integer z fits]
  constructor
  · rintro ⟨T, emits', law⟩
    rwa [emits'.unique emits] at law
  · intro law
    exact ⟨_, emits, law⟩

/-- A run at its first directive: the format lies at 4096, a single argument at 8192. -/
def firstRun (format : String) (argument : Word) : Run (List Byte) where
  mem := Memory.store32 (fun x => (format.toList.map char).getD (x.toNat - 4096) 0#8) 8192#32 argument
  ap := 8192#32
  err := 0#32
  charsWritten := 0#32
  state := []

theorem sign_law_plus : ∃ T, Emits (firstRun "%+d" 42#32) 4097#32 T ∧
    SignLaw ⟨[.plus], 0, .none, .d⟩ (firstRun "%+d" 42#32).mem 8192#32 T :=
  (sign_law_iff (d := ⟨[.plus], 0, .none, .d⟩) (r := firstRun "%+d" 42#32) (by decide) (by decide) (by decide)
    ⟨rfl, rfl, trivial⟩).mpr (Or.inl (by decide))

/-- `%-d` prints `-5` as `5`. -/
theorem not_sign_law_minus : BytesAt (firstRun "%-d" (-5#32)).mem 4097#32 (Directive.bytes ⟨[.minus], 0, .none, .d⟩) ∧
    ¬ ∃ T, Emits (firstRun "%-d" (-5#32)) 4097#32 T ∧
      SignLaw ⟨[.minus], 0, .none, .d⟩ (firstRun "%-d" (-5#32)).mem 8192#32 T := by
  refine ⟨⟨rfl, rfl, trivial⟩, ?_⟩
  rintro ⟨T, emits, -, reads⟩
  have five : Emits (firstRun "%-d" (-5#32)) 4097#32 [char '5'] := ⟨_, rfl, rfl⟩
  rw [emits.unique five] at reads
  exact absurd (reads (Or.inl rfl)) (by decide)

/-! ### The width law -/

def Directive.bare (d : Directive) : Directive := { d with width := 0 }

theorem length_output (d : Directive) (m : Memory) (ap : Word) (s : List Byte) (small : d.width < 2^32) :
    (d.output false m ap s).length = d.leading.length +
      max d.width (s.length + if .minus ∈ d.flags then 0 else (signText (d.signchar m ap)).length) := by
  unfold Directive.output
  rw [List.length_append, length_fieldText, toNat_ofNat_word small]
  simp only [decide_eq_true_eq]

theorem conv_of_leading (prefixed : d.leading ≠ []) : d.conv = .x ∨ d.conv = .X ∨ d.conv = .p := by
  unfold Directive.leading at prefixed
  cases conv : d.conv <;> simp [conv] at prefixed ⊢

theorem exists_body (text : d.conv = .s → ∃ s, TextAt m (m.load32 ap) s) :
    ∃ s, d.Body m ap s ∧ s.length < 2^32 ∧ (d.conv ≠ .s → s = d.digits m ap) := by
  by_cases conv : d.conv = .s
  · obtain ⟨s, at_⟩ := text conv
    refine ⟨s, ?_, at_.length_lt, fun other => absurd conv other⟩
    unfold Directive.Body
    rw [conv]
    exact at_
  · exact ⟨_, body_digits conv m ap, Nat.lt_trans (digits_short d m ap) (by decide), fun _ => rfl⟩

/-- Only a prefix breaks the width law: the width is that of what comes behind it. -/
theorem width_law_iff (small : d.width < 2^31) (running : ¬ r.err.toInt < 0) {fmt' : Word}
    (at_ : BytesAt r.mem fmt d.bytes) (bare : BytesAt r.mem fmt' d.bare.bytes)
    (text : d.conv = .s → ∃ s, TextAt r.mem (r.mem.load32 r.ap) s) :
    (∃ T T', Emits r fmt T ∧ Emits r fmt' T' ∧ T.length = max d.width T'.length) ↔
      (d.leading ≠ [] → d.width ≤ (d.digits r.mem r.ap).length) := by
  obtain ⟨s, body, bound, number⟩ := exists_body text
  have emits := emits_output d running at_ body bound small
  have emits' : Emits r fmt' (d.bare.output false r.mem r.ap s) :=
    emits_output d.bare running bare body bound (by decide : 0 < 2^31)
  have length := length_output d r.mem r.ap s (by omega)
  have length' := length_output d.bare r.mem r.ap s (by decide : 0 < 2^32)
  have leading : d.bare.leading = d.leading := rfl
  have signchar : d.bare.signchar r.mem r.ap = d.signchar r.mem r.ap := rfl
  have width : d.bare.width = 0 := rfl
  have flags : d.bare.flags = d.flags := rfl
  rw [leading, signchar, width, flags] at length'
  have law : (∃ T T', Emits r fmt T ∧ Emits r fmt' T' ∧ T.length = max d.width T'.length) ↔
      (d.output false r.mem r.ap s).length = max d.width (d.bare.output false r.mem r.ap s).length := by
    constructor
    · rintro ⟨T, T', first, second, law⟩
      rwa [first.unique emits, second.unique emits'] at law
    · intro law
      exact ⟨_, _, emits, emits', law⟩
  rw [law, length, length']
  by_cases none : d.leading = []
  · rw [none, List.length_nil]
    refine iff_of_true ?_ fun some_ => absurd rfl some_
    rw [Nat.zero_add, Nat.zero_add, Nat.zero_max]
  · have prefixed := conv_of_leading none
    have noSign : (signText (d.signchar r.mem r.ap)).length = 0 := by
      rcases prefixed with conv | conv | conv <;> simp [Directive.signchar, conv, signText]
    have digits : s = d.digits r.mem r.ap := number (by rcases prefixed with conv | conv | conv <;> simp [conv])
    have positive : 0 < d.leading.length := List.length_pos_iff.mpr none
    rw [noSign, ite_self, digits]
    constructor
    · intro law _
      omega
    · intro wide
      have bound := wide none
      omega

theorem widthBytes_nine : widthBytes 9 = [char '9'] := by
  have digit : decimal 9 = [decimalDigit 9] := numeral_small (by decide)
  rw [widthBytes, if_neg (by decide), digit]
  rfl

theorem width_law_nine : ∃ T T', Emits (firstRun "%9d%d" 42#32) 4097#32 T ∧ Emits (firstRun "%9d%d" 42#32) 4100#32 T' ∧
    T.length = max 9 T'.length := by
  have bytes : Directive.bytes ⟨[], 9, .none, .d⟩ = [char '9', char 'd'] := by
    rw [Directive.bytes, Directive.modifiers, widthBytes_nine]
    rfl
  have at_ : BytesAt (firstRun "%9d%d" 42#32).mem 4097#32 (Directive.bytes ⟨[], 9, .none, .d⟩) := by
    rw [bytes]
    exact ⟨rfl, rfl, trivial⟩
  exact (width_law_iff (d := ⟨[], 9, .none, .d⟩) (by decide) (by decide) at_ ⟨rfl, trivial⟩ nofun).mpr
    fun prefixed => absurd rfl prefixed

/-- `%#9x` prints 255 in eleven characters. -/
theorem not_width_law_prefix : BytesAt (firstRun "%#9x%#x" 255#32).mem 4097#32 (Directive.bytes ⟨[.alt], 9, .none, .x⟩) ∧
    BytesAt (firstRun "%#9x%#x" 255#32).mem 4101#32 (Directive.bytes ⟨[.alt], 0, .none, .x⟩) ∧
    ¬ ∃ T T', Emits (firstRun "%#9x%#x" 255#32) 4097#32 T ∧ Emits (firstRun "%#9x%#x" 255#32) 4101#32 T' ∧
      T.length = max 9 T'.length := by
  refine ⟨?_, ⟨rfl, rfl, trivial⟩, ?_⟩
  · rw [Directive.bytes, Directive.modifiers, widthBytes_nine]
    exact ⟨rfl, rfl, rfl, trivial⟩
  · rintro ⟨T, T', emits, emits', law⟩
    have wide : Emits (firstRun "%#9x%#x" 255#32) 4097#32 ("0x       ff".toList.map char) := ⟨_, rfl, rfl⟩
    have bare : Emits (firstRun "%#9x%#x" 255#32) 4101#32 ("0xff".toList.map char) := ⟨_, rfl, rfl⟩
    rw [emits.unique wide, emits'.unique bare] at law
    exact absurd law (by decide)

end

end ThreeX86.Printf
