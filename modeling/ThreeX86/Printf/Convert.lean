import ThreeX86.Printf.Engine
import ThreeX86.Printf.Numerals

namespace ThreeX86.Printf

open Machine Machine.Memory Numerals

/-! What the number conversions leave in their buffer, and what `strlen` finds there. -/

def decimalDigit (d : Nat) : Byte := BitVec.ofNat 8 (48 + d)

def hexDigit (caps : Bool) (d : Nat) : Byte := (if caps then hextableCaps else hextable).getD d 0#8

def decimal (n : Nat) : List Byte := numeral 10 decimalDigit n

def hexadecimal (caps : Bool) (n : Nat) : List Byte := numeral 16 (hexDigit caps) n

/-- The value that `longlong_to_string` prints: the magnitude when the number is signed. -/
def magnitude (n : BitVec 64) (flags : Flags) : Nat := if flags.signed then n.toInt.natAbs else n.toNat

def isNegative (n : BitVec 64) (flags : Flags) : Bool := flags.signed && decide (n.toInt < 0)

def signByte (negative : Bool) (flags : Flags) : Byte :=
  if negative then char '-' else if flags.showsign then char '+' else if flags.blankpos then char ' ' else 0#8

/-- Digits stored from `pos` down, at least one. -/
def storeDigits (base : Nat) (digit : Nat → Byte) : Nat → Memory → Word → Nat → Memory × Word
  | 0, buf, pos, _ => (buf, pos)
  | fuel + 1, buf, pos, n =>
    let pos := pos - 1#32
    let buf := buf.store8 pos (digit (n % base))
    if n / base = 0 then (buf, pos) else storeDigits base digit fuel buf pos (n / base)

section

variable {base : Nat} {digit : Nat → Byte} {buf m : Memory} {pos s : Word} {tail l : List Byte} {n : Nat}

theorem sub_ofNat_succ (pos : Word) (i : Nat) : pos - 1#32 - BitVec.ofNat 32 i = pos - BitVec.ofNat 32 (i + 1) := by
  rw [BitVec.sub_sub, Nat.add_comm, BitVec.ofNat_add]

/-- The numeral ends up in front of what lies at `pos`, and nothing else changes. -/
theorem storeDigits_spec (digit : Nat → Byte) (large : 1 < base) (fuel : Nat) (positive : 0 < fuel) (enough : n < base ^ fuel)
    (at_ : BytesAt buf pos tail) (short : tail.length + fuel < 2^32) :
    (storeDigits base digit fuel buf pos n).2 = pos - BitVec.ofNat 32 (numeral base digit n).length ∧
      BytesAt (storeDigits base digit fuel buf pos n).1 (storeDigits base digit fuel buf pos n).2
        (numeral base digit n ++ tail) ∧
      ∀ x, (∀ i < (numeral base digit n).length, x ≠ pos - BitVec.ofNat 32 (i + 1)) →
        (storeDigits base digit fuel buf pos n).1 x = buf x := by
  induction fuel generalizing buf pos tail n with
  | zero => omega
  | succ fuel ih =>
    have front := at_.store8_before (by omega) (digit (n % base))
    unfold storeDigits
    dsimp only
    split
    · next last =>
      have small : n < base := (Nat.div_eq_zero_iff_lt (by omega)).mp last
      rw [Nat.mod_eq_of_lt small] at front ⊢
      rw [numeral_small small]
      refine ⟨rfl, front, fun x off => store8_outside buf _ ?_⟩
      simpa using off 0 (by simp)
    · next more =>
      have many : base ≤ n := Nat.le_of_not_lt fun less => more (Nat.div_eq_of_lt less)
      have quotient : n / base < base ^ fuel := by
        apply Nat.div_lt_of_lt_mul
        rw [Nat.mul_comm, ← Nat.pow_succ]
        exact enough
      have fuelPositive : 0 < fuel := by
        rcases Nat.eq_zero_or_pos fuel with none | some_
        · rw [none, Nat.pow_zero] at quotient
          exact absurd (Nat.lt_one_iff.mp quotient) more
        · exact some_
      obtain ⟨position, text, frame⟩ := ih fuelPositive quotient front (by rw [List.length_cons]; omega)
      rw [numeral_step large many, List.length_append, List.length_singleton, List.append_assoc, List.singleton_append]
      refine ⟨?_, text, fun x off => ?_⟩
      · rw [position, sub_ofNat_succ]
      · rw [frame x]
        · refine store8_outside buf _ ?_
          simpa using off 0 (by omega)
        · intro i inside
          rw [sub_ofNat_succ]
          exact off (i + 1) (by omega)

/-! ### The loops store a numeral -/

theorem decimalDigit_eq (n : BitVec 64) : n.setWidth 8 + char '0' = decimalDigit n.toNat := by
  apply BitVec.eq_of_toNat_eq
  rw [decimalDigit, BitVec.toNat_add, BitVec.toNat_setWidth, BitVec.toNat_ofNat, BitVec.toNat_ofNat]
  show (n.toNat % 256 + 48) % 256 = (48 + n.toNat) % 256
  omega

theorem decimalLoop_stores (buf : Memory) (pos : Word) (n : BitVec 64) (fuel : Nat) (enough : n.toNat < 10 ^ (fuel + 1)) :
    ((decimalLoop buf pos n fuel).1.store8 ((decimalLoop buf pos n fuel).2.1 - 1#32)
        ((decimalLoop buf pos n fuel).2.2.setWidth 8 + char '0'), (decimalLoop buf pos n fuel).2.1 - 1#32) =
      storeDigits 10 decimalDigit (fuel + 1) buf pos n.toNat := by
  induction fuel generalizing buf pos n with
  | zero =>
    have small : n.toNat < 10 := by simpa using enough
    have last : n.toNat / 10 = 0 := Nat.div_eq_of_lt small
    unfold decimalLoop storeDigits
    dsimp only
    rw [decimalDigit_eq n, if_pos last, Nat.mod_eq_of_lt small]
  | succ fuel ih =>
    unfold decimalLoop storeDigits
    by_cases many : n ≥ 10#64
    · have atLeast : 10 ≤ n.toNat := BitVec.le_def.mp many
      have digit : (n % 10#64).setWidth 8 + char '0' = decimalDigit (n.toNat % 10) := by
        rw [decimalDigit_eq, BitVec.toNat_umod]
        rfl
      have quotient : (n / 10#64).toNat = n.toNat / 10 := BitVec.toNat_udiv
      have more : n.toNat / 10 ≠ 0 := by omega
      have less : (n / 10#64).toNat < 10 ^ (fuel + 1) := by
        rw [quotient]
        omega
      dsimp only
      rw [if_pos many, if_neg more, digit, ← quotient]
      exact ih _ _ _ less
    · have small : n.toNat < 10 := by
        have below := BitVec.not_le.mp many
        exact BitVec.lt_def.mp below
      have last : n.toNat / 10 = 0 := Nat.div_eq_of_lt small
      dsimp only
      rw [if_neg many, decimalDigit_eq n, if_pos last, Nat.mod_eq_of_lt small]

theorem hexLoop_stores (caps : Bool) (buf : Memory) (pos : Word) (u : BitVec 64) (fuel : Nat) :
    hexLoop (if caps then hextableCaps else hextable) buf pos u fuel = storeDigits 16 (hexDigit caps) fuel buf pos u.toNat := by
  induction fuel generalizing buf pos u with
  | zero => rfl
  | succ fuel ih =>
    have quotient : (u / 16#64).toNat = u.toNat / 16 := BitVec.toNat_udiv
    have digit : (u % 16#64).toNat = u.toNat % 16 := BitVec.toNat_umod
    have test : u / 16#64 = 0#64 ↔ u.toNat / 16 = 0 := by rw [← BitVec.toNat_inj, quotient]; rfl
    unfold hexLoop storeDigits
    dsimp only
    rw [ih, quotient, digit, hexDigit]
    by_cases last : u.toNat / 16 = 0
    · rw [if_neg (not_not.mpr (test.mpr last)), if_pos last]
    · rw [if_pos (fun zero => last (test.mp zero)), if_neg last]

theorem toNat_magnitude (n : BitVec 64) (flags : Flags) :
    (if isNegative n flags then -n else n).toNat = magnitude n flags := by
  unfold isNegative magnitude
  cases flags.signed with
  | false => rfl
  | true =>
    have bound := n.isLt
    simp only [Bool.true_and, decide_eq_true_eq, ite_true]
    split
    · next negative =>
      rw [BitVec.toInt_eq_toNat_cond] at negative ⊢
      rw [BitVec.toNat_neg]
      split at negative
      · omega
      · next high =>
        rw [if_neg high]
        omega
    · next positive =>
      rw [BitVec.toInt_eq_toNat_cond] at positive ⊢
      split at positive
      · next low =>
        rw [if_pos low]
        omega
      · omega

theorem longlongToString_eq (buf : Memory) (n : BitVec 64) (len : Word) (flags : Flags) :
    longlongToString buf n len flags =
      let stored := storeDigits 10 decimalDigit (digitLimit + 1) (buf.store8 (len - 1#32) 0#8) (len - 1#32) (magnitude n flags)
      (stored.1, stored.2, signByte (isNegative n flags) flags) := by
  have value := toNat_magnitude n flags
  have bound : (if isNegative n flags then -n else n).toNat < 10 ^ (digitLimit + 1) :=
    Nat.lt_trans (BitVec.isLt _) (by decide)
  have stores := decimalLoop_stores (buf.store8 (len - 1#32) 0#8) (len - 1#32) _ _ bound
  rw [value] at stores
  unfold longlongToString
  generalize digitLimit = limit at stores ⊢
  rw [← stores]
  rfl

theorem longlongToHexstring_eq (buf : Memory) (u : BitVec 64) (len : Word) (flags : Flags) :
    longlongToHexstring buf u len flags =
      storeDigits 16 (hexDigit flags.caps) digitLimit (buf.store8 (len - 1#32) 0#8) (len - 1#32) u.toNat :=
  hexLoop_stores flags.caps _ _ u digitLimit

/-- The digits and a NUL at the end of a buffer of `len` bytes, from `pos` on. -/
structure Filled (buf buf' : Memory) (pos len : Word) (digits : List Byte) : Prop where
  position : pos = len - BitVec.ofNat 32 (digits.length + 1)
  text : BytesAt buf' pos (digits ++ [0#8])
  frame : ∀ x, (∀ i < digits.length + 1, x ≠ len - BitVec.ofNat 32 (i + 1)) → buf' x = buf x

theorem storeDigits_filled (buf : Memory) (len : Word) (large : 1 < base) {fuel : Nat} (positive : 0 < fuel)
    (enough : n < base ^ fuel) (short : fuel < 2^32 - 1) :
    Filled buf (storeDigits base digit fuel (buf.store8 (len - 1#32) 0#8) (len - 1#32) n).1
      (storeDigits base digit fuel (buf.store8 (len - 1#32) 0#8) (len - 1#32) n).2 len (numeral base digit n) := by
  have nul : BytesAt (buf.store8 (len - 1#32) 0#8) (len - 1#32) [0#8] := ⟨store8_same .., trivial⟩
  obtain ⟨position, text, frame⟩ := storeDigits_spec digit large fuel positive enough nul
    (by rw [List.length_singleton]; omega)
  constructor
  case position => rw [position, sub_ofNat_succ]
  case text => exact text
  case frame =>
    intro x off
    rw [frame x fun i inside => ?_]
    · refine store8_outside buf 0#8 ?_
      simpa using off 0 (by omega)
    · rw [sub_ofNat_succ]
      exact off (i + 1) (by omega)

/-- `longlong_to_string` leaves the digits of the magnitude and a NUL at the end of its buffer. -/
theorem longlongToString_filled (buf : Memory) (n : BitVec 64) (len : Word) (flags : Flags) :
    Filled buf (longlongToString buf n len flags).1 (longlongToString buf n len flags).2.1 len (decimal (magnitude n flags)) := by
  rw [longlongToString_eq]
  apply storeDigits_filled buf len (by decide) (by decide) _ (by decide)
  rw [← toNat_magnitude]
  exact Nat.lt_trans (BitVec.isLt _) (by decide)

theorem longlongToHexstring_filled (buf : Memory) (u : BitVec 64) (len : Word) (flags : Flags) :
    Filled buf (longlongToHexstring buf u len flags).1 (longlongToHexstring buf u len flags).2 len
      (hexadecimal flags.caps u.toNat) := by
  rw [longlongToHexstring_eq]
  exact storeDigits_filled buf len (by decide) (by decide) (Nat.lt_trans u.isLt (by decide)) (by decide)

/-! ### `strlen` -/

theorem strlenLoop_spec (at_ : BytesAt m (s + BitVec.ofNat 32 n) (l ++ [0#8])) (text : ∀ b ∈ l, b ≠ 0#8) (fuel : Nat)
    (enough : l.length < fuel) :
    strlenLoop m s fuel (BitVec.ofNat 32 n) = some (BitVec.ofNat 32 (n + l.length)) := by
  induction l generalizing n fuel with
  | nil =>
    cases fuel with
    | zero => simp at enough
    | succ fuel =>
      have nul : m (s + BitVec.ofNat 32 n) = 0#8 := at_.1
      simp [strlenLoop, nul]
  | cons b l ih =>
    cases fuel with
    | zero => simp at enough
    | succ fuel =>
      have first : m (s + BitVec.ofNat 32 n) = b := at_.1
      have nonzero := text b List.mem_cons_self
      have next : BytesAt m (s + BitVec.ofNat 32 (n + 1)) (l ++ [0#8]) := by
        rw [BitVec.ofNat_add, ← BitVec.add_assoc]
        exact at_.2
      have rest := ih next (fun c member => text c (List.mem_cons_of_mem _ member)) fuel (by simpa using enough)
      rw [strlenLoop, first, if_pos nonzero, ← BitVec.ofNat_add, rest, List.length_cons, Nat.add_assoc, Nat.add_comm 1]

theorem stringAt_eq (at_ : BytesAt m s (l ++ [0#8])) (text : ∀ b ∈ l, b ≠ 0#8) : stringAt m s = some l := by
  have short := at_.length_lt text
  have start : BytesAt m (s + BitVec.ofNat 32 0) (l ++ [0#8]) := by rwa [BitVec.add_zero]
  have length := strlenLoop_spec start text byteLimit short
  rw [Nat.zero_add] at length
  rw [stringAt, strlen, length, Option.bind_eq_bind, Option.bind_some, toNat_ofNat_word short,
    (bytesAt_append.mp at_).1.loadBytes]
  rfl

theorem decimalDigit_ne_zero {d : Nat} (small : d < 10) : decimalDigit d ≠ 0#8 := by
  interval_cases d <;> decide

theorem hexDigit_ne_zero (caps : Bool) {d : Nat} (small : d < 16) : hexDigit caps d ≠ 0#8 := by
  cases caps <;> interval_cases d <;> decide

theorem decimal_text : ∀ b ∈ decimal n, b ≠ 0#8 := by
  intro b member
  obtain ⟨d, small, rfl⟩ := mem_numeral (by decide) member
  exact decimalDigit_ne_zero small

theorem hexadecimal_text (caps : Bool) : ∀ b ∈ hexadecimal caps n, b ≠ 0#8 := by
  intro b member
  obtain ⟨d, small, rfl⟩ := mem_numeral (by decide) member
  exact hexDigit_ne_zero caps small

theorem decimalAction_eq (n : BitVec 64) (flags : Flags) :
    decimalAction n flags = some (.text [] (decimal (magnitude n flags)) (signByte (isNegative n flags) flags) flags) := by
  have text := (longlongToString_filled numBuffer n sizeofNumBuffer flags).text
  have sign : (longlongToString numBuffer n sizeofNumBuffer flags).2.2 = signByte (isNegative n flags) flags := by
    rw [longlongToString_eq]
  unfold decimalAction
  generalize longlongToString numBuffer n sizeofNumBuffer flags = result at text sign
  obtain ⟨buf, s, signchar⟩ := result
  dsimp only at text sign ⊢
  rw [stringAt_eq text decimal_text, sign]
  rfl

def prefixOf (flags : Flags) : List Byte :=
  if flags.alt then [char '0', if flags.caps then char 'X' else char 'x'] else []

theorem hexAction_eq (u : BitVec 64) (flags : Flags) :
    hexAction u flags = some (.text (prefixOf flags) (hexadecimal flags.caps u.toNat) 0#8 flags) := by
  have text := (longlongToHexstring_filled numBuffer u sizeofNumBuffer flags).text
  unfold hexAction
  generalize longlongToHexstring numBuffer u sizeofNumBuffer flags = result at text
  obtain ⟨buf, s⟩ := result
  dsimp only at text ⊢
  rw [stringAt_eq text (hexadecimal_text _)]
  rfl

end

/-! ### What the conversions are for -/

/-- A digit as it is printed, in upper case where `caps` says so. -/
def digitChar (caps : Bool) (d : Nat) : Byte :=
  if d < 10 then char '0' + BitVec.ofNat 8 d
  else (if caps then char 'A' else char 'a') + BitVec.ofNat 8 (d - 10)

/-- A NUL-terminated numeral of `n` at `pos`, at the end of a buffer of `len` bytes. -/
structure NumberString (base : Nat) (caps : Bool) (n : Nat) (buf buf' : Memory) (pos len : Word) : Prop where
  string : ∃ digits, Canonical digits ∧ (∀ d ∈ digits, d < base) ∧ value base digits = n ∧
    pos.toNat + digits.length + 1 = len.toNat ∧ BytesAt buf' pos (digits.map (digitChar caps) ++ [0#8])
  frame : ∀ x : Word, x.toNat < pos.toNat ∨ len.toNat ≤ x.toNat → buf' x = buf x

theorem decimalDigit_eq_digitChar {d : Nat} (small : d < 10) : decimalDigit d = digitChar false d := by
  interval_cases d <;> decide

theorem hexDigit_eq_digitChar (caps : Bool) {d : Nat} (small : d < 16) : hexDigit caps d = digitChar caps d := by
  cases caps <;> interval_cases d <;> decide

section

variable {base k n : Nat} {digit : Nat → Byte} {caps : Bool} {buf buf' : Memory} {pos len : Word}

theorem Filled.numberString (filled : Filled buf buf' pos len (numeral base digit n)) (large : 1 < base)
    (symbols : ∀ d < base, digit d = digitChar caps d) (positive : 0 < k) (small : n < base ^ k)
    (room : k + 1 ≤ len.toNat) : NumberString base caps n buf buf' pos len := by
  have short := (numeral_length_le large positive small : (numeral base digit n).length ≤ k)
  have bound := len.isLt
  have back (i : Nat) (inside : i ≤ len.toNat) : (len - BitVec.ofNat 32 i).toNat = len.toNat - i := by
    have width := toNat_ofNat_word (show i < 2^32 by omega)
    rw [BitVec.toNat_sub_of_le (BitVec.le_def.mpr (by omega)), width]
  have start : pos.toNat = len.toNat - ((numeral base digit n).length + 1) := by
    rw [filled.position, back _ (by omega)]
  have below : ∀ d ∈ numeral base id n, d < base := by
    intro d member
    obtain ⟨i, inside, rfl⟩ := mem_numeral large member
    exact inside
  have symbols' : (numeral base id n).map (digitChar caps) = numeral base digit n := by
    rw [numeral_map digit]
    exact List.map_congr_left fun d member => (symbols d (below d member)).symm
  constructor
  case string =>
    refine ⟨numeral base id n, numeral_canonical base n, below, ?_, ?_, ?_⟩
    · have reads := value_numeral large id (fun d _ => rfl) n
      rwa [List.map_id] at reads
    · rw [← List.length_map (digitChar caps), symbols']
      omega
    · rw [symbols']
      exact filled.text
  case frame =>
    intro x outside
    refine filled.frame x fun i inside same => ?_
    have address := back (i + 1) (by omega)
    rw [← same] at address
    omega

end

theorem magnitude_eq (n : BitVec 64) (flags : Flags) :
    magnitude n flags = if flags.signed = true ∧ n.toInt < 0 then n.toInt.natAbs else n.toNat := by
  unfold magnitude
  cases flags.signed with
  | false => rw [if_neg (by decide), if_neg (fun signed => Bool.false_ne_true signed.1)]
  | true =>
    rw [if_pos rfl]
    split
    · rfl
    · next positive =>
      have large : 0 ≤ n.toInt := Int.not_lt.mp fun negative => positive ⟨rfl, negative⟩
      have same := BitVec.toInt_eq_toNat_cond n
      have bound := n.isLt
      split at same <;> omega

theorem signByte_eq (n : BitVec 64) (flags : Flags) :
    signByte (isNegative n flags) flags = if flags.signed = true ∧ n.toInt < 0 then char '-'
      else if flags.showsign then char '+' else if flags.blankpos then char ' ' else 0#8 := by
  unfold signByte isNegative
  simp only [Bool.and_eq_true, decide_eq_true_eq]

theorem magnitude_lt (n : BitVec 64) (flags : Flags) : magnitude n flags < 10 ^ 20 := by
  rw [← toNat_magnitude]
  exact Nat.lt_trans (BitVec.isLt _) (by decide)

/-- Both conversions are exact, and write nothing outside their string. -/
theorem conversion_exact (buf : Memory) (n : BitVec 64) (len : Word) (flags : Flags) :
    (21 ≤ len.toNat →
      let (buf', pos, signchar) := longlongToString buf n len flags
      let negative := flags.signed = true ∧ n.toInt < 0
      NumberString 10 false (if negative then n.toInt.natAbs else n.toNat) buf buf' pos len ∧
      signchar = if negative then char '-' else if flags.showsign then char '+' else if flags.blankpos then char ' ' else 0#8) ∧
    (17 ≤ len.toNat →
      let (buf', pos) := longlongToHexstring buf n len flags
      NumberString 16 flags.caps n.toNat buf buf' pos len) := by
  constructor
  · intro room
    have filled := longlongToString_filled buf n len flags
    have sign : (longlongToString buf n len flags).2.2 = signByte (isNegative n flags) flags := by
      rw [longlongToString_eq]
    rw [signByte_eq] at sign
    refine ⟨?_, sign⟩
    rw [← magnitude_eq]
    exact filled.numberString (by decide) (fun d small => decimalDigit_eq_digitChar small) (k := 20) (by decide)
      (magnitude_lt n flags) room
  · intro room
    have filled := longlongToHexstring_filled buf n len flags
    exact filled.numberString (by decide) (fun d small => hexDigit_eq_digitChar flags.caps small) (k := 16) (by decide)
      (Nat.lt_of_lt_of_le n.isLt (by decide)) room

/-- The smallest signed number, in the smallest buffers. -/
theorem conversion_exact_min :
    let signed : Flags := { signed := true }
    let r := longlongToString (fun _ => 0xff#8) 0x8000000000000000#64 21#32 signed
    let hex := longlongToHexstring (fun _ => 0xff#8) 0x8000000000000000#64 17#32 signed
    (NumberString 10 false (2^63) (fun _ => 0xff#8) r.1 r.2.1 21#32 ∧ r.2.2 = char '-') ∧
      NumberString 16 false (2^63) (fun _ => 0xff#8) hex.1 hex.2 17#32 :=
  ⟨(conversion_exact (fun _ => 0xff#8) 0x8000000000000000#64 21#32 { signed := true }).1 (by decide),
    (conversion_exact (fun _ => 0xff#8) 0x8000000000000000#64 17#32 { signed := true }).2 (by decide)⟩

end ThreeX86.Printf
