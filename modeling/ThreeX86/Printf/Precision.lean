import ThreeX86.Printf.Laws

namespace ThreeX86.Printf

open Machine Machine.Memory Numerals

/-! A precision, whose digits go where those of the width go. -/

/-- The modifiers of a directive with a `.` and digits between its width and its length. -/
def Directive.preciseModifiers (d : Directive) (digits : List Nat) : List Byte :=
  d.flags.map Flag.byte ++ widthBytes d.width ++ (char '.' :: digits.map decimalDigit) ++ d.length.bytes

def Directive.preciseBytes (d : Directive) (digits : List Nat) : List Byte := d.preciseModifiers digits ++ [d.conv.byte]

/-- What the text takes up with its sign, which the engine leaves out of a left-justified field. -/
def Directive.extent (d : Directive) (m : Memory) (ap : Word) (s : List Byte) : Nat :=
  s.length + if .minus ∈ d.flags then 0 else (signText (d.signchar m ap)).length

/-- The width run on into the digits, in 32 bits, asks for as much padding as the width does, and for the same character.
    A string too long for an `int` is never padded on the right. -/
def Directive.Eaten (d : Directive) (digits : List Nat) (m : Memory) (ap : Word) (s : List Byte) : Prop :=
  (.minus ∈ d.flags ∧ 2^31 ≤ s.length) ∨
    (max (runOn d.width digits % 2^32) (d.extent m ap s) = max (d.width % 2^32) (d.extent m ap s) ∧
      (d.width % 2^32 ≤ d.extent m ap s ∨ .minus ∈ d.flags ∨ .zero ∈ d.flags ∨ d.conv = .s ∨
        zeroRead 0 (widthDigits d.width) = true ∨ zeroRead d.width digits = false))

section

variable {r : Run (List Byte)} {fmt fmt' : Word} {d : Directive} {digits : List Nat} {s : List Byte} {signchar : Byte}
  {zero zero' left : Bool} {n n' k : Nat}

/-! ### Two fields -/

theorem front_ne (k : Nat) (signchar : Byte) :
    signText signchar ++ List.replicate (k + 1) (char '0') ≠ List.replicate (k + 1) (char ' ') ++ signText signchar := by
  intro same
  have member : char '0' ∈ signText signchar ++ List.replicate (k + 1) (char '0') :=
    List.mem_append_right _ (List.mem_replicate.mpr ⟨Nat.succ_ne_zero k, rfl⟩)
  rw [same] at member
  rcases List.mem_append.mp member with blank | sign
  · exact absurd (List.eq_of_mem_replicate blank) (by decide)
  · unfold signText at same sign
    split at sign
    · cases sign
    · next some_ =>
      rw [if_neg some_, List.replicate_succ, List.replicate_succ, List.singleton_append, List.cons_append,
        ← List.mem_singleton.mp sign] at same
      exact absurd (List.cons.inj same).1 (by decide)

theorem fieldText_left_iff : fieldText true zero n signchar s = fieldText true zero' n' signchar s ↔
    max n s.length = max n' s.length := by
  unfold fieldText
  rw [if_pos rfl, if_pos rfl, List.append_cancel_left_eq, List.replicate_inj]
  simp only [or_true, and_true]
  omega

theorem front_mixed_iff (k k' : Nat) (signchar : Byte) :
    signText signchar ++ List.replicate k (char '0') = List.replicate k' (char ' ') ++ signText signchar ↔ k = 0 ∧ k' = 0 := by
  constructor
  · intro same
    have length := congrArg List.length same
    rw [List.length_append, List.length_append, List.length_replicate, List.length_replicate, Nat.add_comm] at length
    cases k with
    | zero => exact ⟨rfl, by omega⟩
    | succ k =>
      have equal : k' = k + 1 := by omega
      rw [equal] at same
      exact absurd same (front_ne k signchar)
  · intro none
    rw [none.1, none.2, List.replicate_zero, List.replicate_zero, List.append_nil, List.nil_append]

theorem fieldText_right_iff : fieldText false zero n signchar s = fieldText false zero' n' signchar s ↔
    max n (s.length + (signText signchar).length) = max n' (s.length + (signText signchar).length) ∧
      (n' ≤ s.length + (signText signchar).length ∨ zero = zero') := by
  have room (n : Nat) : (if signchar = 0#8 then n else n - 1) - s.length = n - (s.length + (signText signchar).length) := by
    rw [length_signText]
    split
    · omega
    · omega
  rw [fieldText_right, fieldText_right, List.append_cancel_right_eq]
  unfold fieldFront
  dsimp only
  rw [room, room]
  generalize s.length + (signText signchar).length = extent
  cases zero with
  | true =>
    cases zero' with
    | true =>
      simp only [ite_true]
      rw [List.append_cancel_left_eq, List.replicate_inj]
      simp only [or_true, and_true]
      omega
    | false =>
      simp only [ite_true, Bool.false_eq_true, ite_false, front_mixed_iff, Bool.true_eq_false, or_false]
      omega
  | false =>
    cases zero' with
    | true =>
      simp only [ite_true, Bool.false_eq_true, ite_false, eq_comm.trans (front_mixed_iff _ _ signchar), or_false]
      omega
    | false =>
      simp only [Bool.false_eq_true, ite_false]
      rw [List.append_cancel_right_eq, List.replicate_inj]
      simp only [or_true, and_true]
      omega

/-! ### The directive -/

theorem modify_precise (d : Directive) (small : ∀ x ∈ digits, x < 10) : modify {} (d.preciseModifiers digits) =
    some ⟨d.length.set ((flagSet d.flags).wrapped (zeroRead 0 (widthDigits d.width) || zeroRead d.width digits)),
      BitVec.ofNat 32 (runOn d.width digits)⟩ := by
  have start : ({} : Format) = ⟨flagSet [], 0#32⟩ := rfl
  have point (f : Format) : modifier (char '.') f = some f := rfl
  unfold Directive.preciseModifiers
  rw [modify_append, modify_append, modify_append, start, modify_flags, foldl_flagSet, List.nil_append, Option.bind_some,
    modify_width, Option.bind_some, modify, point, Option.bind_some, modify_digits _ _ small, Option.bind_some,
    wrapped_wrapped, modify_length]

theorem fieldEmitted_iff : fieldEmitted left zero n signchar s = fieldEmitted left zero' n' signchar s ↔
    (left = true ∧ 2^31 ≤ s.length) ∨
      (max n (s.length + if left then 0 else (signText signchar).length) =
          max n' (s.length + if left then 0 else (signText signchar).length) ∧
        (left = true ∨ n' ≤ s.length + (if left then 0 else (signText signchar).length) ∨ zero = zero')) := by
  unfold fieldEmitted
  by_cases long : left = true ∧ 2^31 ≤ s.length
  · rw [if_pos long, if_pos long]
    exact iff_of_true rfl (.inl long)
  · rw [if_neg long, if_neg long]
    cases left with
    | true =>
      rw [fieldText_left_iff]
      simp_all
    | false =>
      rw [fieldText_right_iff]
      simp

theorem Emits.same_iff {T T' : List Byte} (emits : Emits r fmt T) (emits' : Emits r fmt' T') :
    (∃ U, Emits r fmt U ∧ Emits r fmt' U) ↔ T = T' := by
  constructor
  · intro both
    obtain ⟨U, first, second⟩ := both
    exact (emits.unique first).trans (second.unique emits')
  · intro same
    exact ⟨T, emits, same ▸ emits'⟩

theorem leadzero_iff (given wrapped read number : Bool) :
    ((given || (wrapped || read)) && number) = ((given || wrapped) && number) ↔
      given = true ∨ number = false ∨ wrapped = true ∨ read = false := by
  cases given <;> cases wrapped <;> cases read <;> cases number <;> decide

theorem Body.length_lt (body : d.Body r.mem r.ap s) : s.length < 2^32 := by
  by_cases conv : d.conv = .s
  · unfold Directive.Body at body
    rw [conv] at body
    exact body.length_lt
  · have digits : s = d.digits r.mem r.ap := by
      unfold Directive.Body at body
      cases other : d.conv <;> simp_all
    rw [digits]
    exact Nat.lt_trans (digits_short d r.mem r.ap) (by decide)

/-- A precision makes no difference exactly when its digits ask for no other padding than the width alone. -/
theorem precision_eaten_iff (running : ¬ r.err.toInt < 0) (small : ∀ x ∈ digits, x < 10)
    (at_ : BytesAt r.mem fmt (d.preciseBytes digits)) (bare : BytesAt r.mem fmt' d.bytes) (body : d.Body r.mem r.ap s) :
    (∃ T, Emits r fmt T ∧ Emits r fmt' T) ↔ d.Eaten digits r.mem r.ap s := by
  have emits := emits_modified d running at_ (modify_precise d small) body (Body.length_lt body)
  have emits' := emits_modified d running bare (modify_directive d) body (Body.length_lt body)
  rw [emits.same_iff emits', List.append_cancel_left_eq, fieldEmitted_iff, leadzero_iff, BitVec.toNat_ofNat, BitVec.toNat_ofNat]
  unfold Directive.Eaten Directive.extent
  simp only [decide_eq_true_eq, decide_eq_false_iff_not, ne_eq, Decidable.not_not]
  generalize s.length + (if Flag.minus ∈ d.flags then 0 else (signText (d.signchar r.mem r.ap)).length) = extent
  exact or_congr_right (and_congr_right fun _ => or_left_comm)

theorem precision_eaten_null : ∃ T, Emits (firstRun "%.3s%s" 0#32) 4097#32 T ∧ Emits (firstRun "%.3s%s" 0#32) 4101#32 T :=
  (precision_eaten_iff (d := ⟨[], 0, .none, .s⟩) (r := firstRun "%.3s%s" 0#32) (by decide) (show ∀ x ∈ [3], x < 10 by decide)
    ⟨rfl, rfl, rfl, trivial⟩ ⟨rfl, trivial⟩ (.null rfl)).mpr (.inr ⟨by decide, .inl (by decide)⟩)

/-- `%.5d` prints 42 in five characters. -/
theorem not_precision_eaten : BytesAt (firstRun "%.5d%d" 42#32).mem 4097#32 (Directive.preciseBytes ⟨[], 0, .none, .d⟩ [5]) ∧
    BytesAt (firstRun "%.5d%d" 42#32).mem 4101#32 (Directive.bytes ⟨[], 0, .none, .d⟩) ∧
    ¬ ∃ T, Emits (firstRun "%.5d%d" 42#32) 4097#32 T ∧ Emits (firstRun "%.5d%d" 42#32) 4101#32 T := by
  refine ⟨⟨rfl, rfl, rfl, trivial⟩, ⟨rfl, trivial⟩, ?_⟩
  intro both
  obtain ⟨T, precise, bare⟩ := both
  have wide : Emits (firstRun "%.5d%d" 42#32) 4097#32 ("   42".toList.map char) := ⟨_, rfl, rfl⟩
  have narrow : Emits (firstRun "%.5d%d" 42#32) 4101#32 ("42".toList.map char) := ⟨_, rfl, rfl⟩
  exact absurd ((wide.unique precise).trans (bare.unique narrow)) (by decide)

end

end ThreeX86.Printf
