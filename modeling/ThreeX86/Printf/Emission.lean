import ThreeX86.Printf.Directive
import ThreeX86.Printf.Sinks

namespace ThreeX86.Printf

open Machine Machine.Memory Numerals

/-! What the engine puts out for a directive. -/

/-- The run after `s` went out, with the last answer in `err`. -/
def Run.put (r : Run (List Byte)) (err : Word) (s : List Byte) : Run (List Byte) :=
  { r with err, charsWritten := r.charsWritten + BitVec.ofNat 32 s.length, state := r.state ++ s }

/-- `s` goes out without an error. -/
def Puts (x : Except (Run (List Byte)) (Run (List Byte))) (r : Run (List Byte)) (s : List Byte) : Prop :=
  ∃ err, ¬ err.toInt < 0 ∧ x = .ok (r.put err s)

def signText (signchar : Byte) : List Byte := if signchar = 0#8 then [] else [signchar]

/-- A field as `_output_string` fills it. -/
def fieldText (left zero : Bool) (formatNum : Nat) (signchar : Byte) (s : List Byte) : List Byte :=
  if left then s ++ List.replicate (formatNum - s.length) (char ' ')
  else
    let formatNum := if signchar = 0#8 then formatNum else formatNum - 1
    if zero then signText signchar ++ (List.replicate (formatNum - s.length) (char '0') ++ s)
    else List.replicate (formatNum - s.length) (char ' ') ++ (signText signchar ++ s)

/-- What goes out for a field: the engine leaves before the padding behind a string too long for an `int`. -/
def fieldEmitted (left zero : Bool) (formatNum : Nat) (signchar : Byte) (s : List Byte) : List Byte :=
  if left ∧ 2^31 ≤ s.length then s else fieldText left zero formatNum signchar s

section

variable {r : Run (List Byte)} {s t : List Byte} {x : Except (Run (List Byte)) (Run (List Byte))}
  {f : Run (List Byte) → Except (Run (List Byte)) (Run (List Byte))}

theorem put_put (r : Run (List Byte)) (err err' : Word) (s t : List Byte) :
    (r.put err s).put err' t = r.put err' (s ++ t) := by
  simp [Run.put, BitVec.ofNat_add, BitVec.add_assoc]

theorem put_nil (r : Run (List Byte)) : r.put r.err [] = r := by simp [Run.put]

theorem Puts.nil (err : ¬ r.err.toInt < 0) : Puts (.ok r) r [] := ⟨r.err, err, by rw [put_nil]⟩

theorem Puts.bind (first : Puts x r s) (next : ∀ err, ¬ err.toInt < 0 → Puts (f (r.put err s)) (r.put err s) t) :
    Puts (x >>= f) r (s ++ t) := by
  obtain ⟨err, positive, rfl⟩ := first
  obtain ⟨err', positive', same⟩ := next err positive
  exact ⟨err', positive', same.trans (by rw [put_put])⟩

theorem outputString_ok (r : Run (List Byte)) (short : s.length < 2^31) :
    outputString collect r s = .ok (r.put (BitVec.ofNat 32 s.length) s) := by
  unfold outputString collect
  dsimp only
  rw [if_neg (toInt_length short)]
  rfl

theorem puts_string (short : s.length < 2^31) : Puts (outputString collect r s) r s :=
  ⟨_, toInt_length short, outputString_ok r short⟩

/-- A string too long for an `int` still goes out, and then the engine leaves. -/
theorem outputString_error (r : Run (List Byte)) (long : 2^31 ≤ s.length) (bound : s.length < 2^32) :
    ∃ r', outputString collect r s = .error r' ∧ r'.state = r.state ++ s := by
  have negative : (BitVec.ofNat 32 s.length).toInt < 0 := by
    rw [BitVec.toInt_eq_toNat_cond, toNat_ofNat_word bound, if_neg (by omega)]
    omega
  unfold outputString collect
  dsimp only
  rw [if_pos negative]
  exact ⟨_, rfl, rfl⟩

theorem puts_chars (positive : ¬ r.err.toInt < 0) (s : List Byte) : Puts (outputChars collect r s) r s := by
  induction s generalizing r with
  | nil => exact Puts.nil positive
  | cons c s ih =>
    rw [← List.singleton_append]
    exact (puts_string (by simp)).bind fun err positive => ih positive

theorem puts_padding (positive : ¬ r.err.toInt < 0) (c : Byte) (written : Word) (formatNum : Nat) :
    Puts (outputPadding collect c written r formatNum) r (List.replicate (formatNum - written.toNat) c) := by
  induction formatNum generalizing r with
  | zero =>
    rw [Nat.zero_sub]
    exact Puts.nil positive
  | succ formatNum ih =>
    unfold outputPadding
    by_cases more : formatNum + 1 > written.toNat
    · have count : formatNum + 1 - written.toNat = 1 + (formatNum - written.toNat) := by omega
      rw [if_pos more, count, List.replicate_add]
      exact (puts_string (by simp)).bind fun err positive => ih positive
    · have count : formatNum + 1 - written.toNat = 0 := by omega
      rw [if_neg more, count]
      exact Puts.nil positive

/-! ### A field -/

theorem signText_nonzero (flag : Prop) [Decidable flag] (signchar : Byte) (set : flag) :
    (if flag ∧ signchar ≠ 0#8 then [signchar] else []) = signText signchar := by
  unfold signText
  by_cases none : signchar = 0#8
  · rw [if_pos none, if_neg fun both => both.2 none]
  · rw [if_neg none, if_pos ⟨set, none⟩]

/-- The width left for sign and padding when the sign takes one byte of it. -/
theorem toNat_formatNum (formatNum : Word) (signchar : Byte) :
    (if signchar ≠ 0#8 ∧ formatNum > 0#32 then formatNum - 1#32 else formatNum).toNat =
      if signchar = 0#8 then formatNum.toNat else formatNum.toNat - 1 := by
  have bound := formatNum.isLt
  have positive : formatNum > 0#32 ↔ 0 < formatNum.toNat := by rw [gt_iff_lt, BitVec.lt_def]; rfl
  by_cases none : signchar = 0#8
  · rw [if_pos none, if_neg fun both => both.1 none]
  · rw [if_neg none]
    split
    · next both =>
      have some_ := positive.mp both.2
      rw [BitVec.toNat_sub, BitVec.toNat_ofNat]
      omega
    · next empty =>
      have zero : ¬ 0 < formatNum.toNat := fun some_ => empty ⟨none, positive.mpr some_⟩
      omega

def fieldFront (zero : Bool) (formatNum : Nat) (signchar : Byte) (n : Nat) : List Byte :=
  let padding := List.replicate ((if signchar = 0#8 then formatNum else formatNum - 1) - n) (char (if zero then '0' else ' '))
  if zero then signText signchar ++ padding else padding ++ signText signchar

theorem fieldText_right (zero : Bool) (formatNum : Nat) (signchar : Byte) (s : List Byte) :
    fieldText false zero formatNum signchar s = fieldFront zero formatNum signchar s.length ++ s := by
  cases zero <;> simp [fieldText, fieldFront]

theorem right_front (flags : Flags) (right : flags.leftformat = false) (formatNum : Word) (signchar : Byte)
    (positive : ¬ r.err.toInt < 0) (bound : s.length < 2^32) :
    ∃ err, ¬ err.toInt < 0 ∧ outputText collect flags formatNum signchar r s =
      outputString collect (r.put err (fieldFront flags.leadzero formatNum.toNat signchar s.length)) s := by
  have width := toNat_formatNum formatNum signchar
  have length : (BitVec.ofNat 32 s.length).toNat = s.length := toNat_ofNat_word bound
  unfold outputText fieldFront
  dsimp only
  rw [right, if_neg Bool.false_ne_true]
  generalize (if signchar ≠ 0#8 ∧ formatNum > 0#32 then formatNum - 1#32 else formatNum) = room at width ⊢
  rw [← width]
  cases flags.leadzero with
  | true =>
    obtain ⟨err1, positive1, sign⟩ := puts_chars positive (signText signchar)
    obtain ⟨err2, positive2, zeros⟩ := puts_padding (r := r.put err1 (signText signchar)) positive1 (char '0')
      (BitVec.ofNat 32 s.length) room.toNat
    refine ⟨err2, positive2, ?_⟩
    rw [put_put, length] at zeros
    rw [signText_nonzero _ signchar rfl, if_pos rfl, if_neg (fun both => both.1 rfl)]
    simp only [sign, bind, Except.bind, zeros, outputChars, ite_true]
  | false =>
    obtain ⟨err1, positive1, spaces⟩ := puts_padding positive (char ' ') (BitVec.ofNat 32 s.length) room.toNat
    rw [length] at spaces
    obtain ⟨err2, positive2, sign⟩ := puts_chars (r := r.put err1 (List.replicate (room.toNat - s.length) (char ' '))) positive1
      (signText signchar)
    rw [put_put] at sign
    refine ⟨err2, positive2, ?_⟩
    rw [signText_nonzero _ signchar Bool.false_ne_true, if_neg (fun both => Bool.false_ne_true both.1),
      if_neg Bool.false_ne_true]
    simp only [bind, Except.bind, spaces, outputChars, sign, Bool.false_eq_true, ite_false]

theorem puts_text (flags : Flags) (formatNum : Word) (signchar : Byte) (positive : ¬ r.err.toInt < 0)
    (short : s.length < 2^31) :
    Puts (outputText collect flags formatNum signchar r s) r
      (fieldText flags.leftformat flags.leadzero formatNum.toNat signchar s) := by
  cases left : flags.leftformat with
  | true =>
    have written : (BitVec.ofNat 32 s.length).toNat = s.length := toNat_ofNat_word (by omega)
    obtain ⟨err, positive', padding⟩ := puts_padding (r := r.put (BitVec.ofNat 32 s.length) s) (toInt_length short)
      (char ' ') (BitVec.ofNat 32 s.length) formatNum.toNat
    refine ⟨err, positive', ?_⟩
    unfold outputText fieldText
    dsimp only
    rw [left, if_pos rfl, if_pos rfl, outputString_ok r short]
    rw [put_put, written] at padding
    exact padding
  | false =>
    obtain ⟨err, positive', front⟩ := right_front flags left formatNum signchar positive (show s.length < 2^32 by omega)
    rw [fieldText_right, front]
    refine ⟨BitVec.ofNat 32 s.length, toInt_length short, ?_⟩
    rw [outputString_ok _ short, put_put]

/-- With a string too long for an `int`, which leaves no padding behind it. -/
theorem text_error (flags : Flags) (formatNum : Word) (signchar : Byte) (positive : ¬ r.err.toInt < 0)
    (long : 2^31 ≤ s.length) (bound : s.length < 2^32) :
    ∃ r', outputText collect flags formatNum signchar r s = .error r' ∧
      r'.state = r.state ++ fieldEmitted flags.leftformat flags.leadzero formatNum.toNat signchar s := by
  unfold fieldEmitted
  cases left : flags.leftformat with
  | true =>
    obtain ⟨r', failed, state⟩ := outputString_error r long bound
    refine ⟨r', ?_, ?_⟩
    · unfold outputText
      dsimp only
      rw [left, if_pos rfl, failed]
      rfl
    · rw [if_pos ⟨rfl, long⟩, state]
  | false =>
    obtain ⟨err, positive', front⟩ := right_front flags left formatNum signchar positive bound
    obtain ⟨r', failed, state⟩ := outputString_error
      (r.put err (fieldFront flags.leadzero formatNum.toNat signchar s.length)) long bound
    refine ⟨r', front.trans failed, ?_⟩
    rw [if_neg fun both => Bool.false_ne_true both.1, state, fieldText_right, ← List.append_assoc]
    rfl

theorem length_signText (signchar : Byte) : (signText signchar).length = if signchar = 0#8 then 0 else 1 := by
  unfold signText
  split <;> rfl

theorem length_fieldText (left zero : Bool) (formatNum : Nat) (signchar : Byte) (s : List Byte) :
    (fieldText left zero formatNum signchar s).length =
      max formatNum (s.length + if left then 0 else (signText signchar).length) := by
  cases left with
  | true =>
    simp only [fieldText, ite_true, List.length_append, List.length_replicate]
    omega
  | false =>
    rw [fieldText_right, List.length_append, fieldFront, length_signText]
    by_cases none : signchar = 0#8
    · cases zero <;> simp [none, signText] <;> omega
    · cases zero <;> simp [none, signText] <;> omega

/-! ### A directive -/

/-- Everything that goes out for a directive with the text `s` in its field; `z` is a `LEADZEROFLAG` that an
    oversized width has set. -/
def Directive.output (d : Directive) (z : Bool) (m : Memory) (ap : Word) (s : List Byte) : List Byte :=
  d.leading ++ fieldText (decide (.minus ∈ d.flags)) ((decide (.zero ∈ d.flags) || z) && decide (d.conv ≠ .s))
    (BitVec.ofNat 32 d.width).toNat (d.signchar m ap) s

/-- The turn for the conversion of `d` behind any modifiers that leave its flags, `formatNum` and perhaps `LEADZEROFLAG`. -/
theorem directive_modified (d : Directive) {fmt formatNum : Word} {mods : List Byte} {z : Bool} (positive : ¬ r.err.toInt < 0)
    (at_ : BytesAt r.mem fmt (mods ++ [d.conv.byte]))
    (reads : modify {} mods = some ⟨d.length.set ((flagSet d.flags).wrapped z), formatNum⟩) (body : d.Body r.mem r.ap s) :
    ∃ flags : Flags, flags.leftformat = decide (.minus ∈ d.flags) ∧
      flags.leadzero = ((decide (.zero ∈ d.flags) || z) && decide (d.conv ≠ .s)) ∧
      ∃ err, ¬ err.toInt < 0 ∧ directive collect fmt r = some (Flow.after (fmt + BitVec.ofNat 32 (mods.length + 1))
        (outputText collect flags formatNum (d.signchar r.mem r.ap)
          (Run.put { r with ap := r.ap + d.argLength.size } err d.leading) s)) := by
  obtain ⟨flags, left, zero, fetched⟩ := fetch_directive d z body
  obtain ⟨err, positive', leading⟩ := puts_chars (r := { r with ap := r.ap + d.argLength.size }) positive d.leading
  refine ⟨flags, left, zero, err, positive', ?_⟩
  rw [directive_fetched at_ reads (modifier_conv d.conv _) (conv_ne_nul d.conv) fetched]
  dsimp only [perform]
  rw [leading]
  rfl

theorem directive_next (d : Directive) {fmt : Word} (positive : ¬ r.err.toInt < 0) (at_ : BytesAt r.mem fmt d.bytes)
    (body : d.Body r.mem r.ap s) (short : s.length < 2^31) : ∃ z, (d.width < 2^32 → z = false) ∧
    ∃ err, ¬ err.toInt < 0 ∧ directive collect fmt r = some (.next (fmt + BitVec.ofNat 32 d.bytes.length)
      (Run.put { r with ap := r.ap + d.argLength.size } err (d.output z r.mem r.ap s))) := by
  obtain ⟨flags, left, zero, err, positive', turn⟩ := directive_modified d positive at_ (modify_directive d) body
  obtain ⟨err', positive'', performed⟩ := puts_text (r := Run.put { r with ap := r.ap + d.argLength.size } err d.leading) flags
    (BitVec.ofNat 32 d.width) (d.signchar r.mem r.ap) positive' short
  rw [left, zero] at performed
  refine ⟨zeroRead 0 (widthDigits d.width), zeroRead_width, err', positive'', ?_⟩
  rw [turn, performed, put_put]
  unfold Directive.bytes
  rw [List.length_append, List.length_singleton]
  rfl

end

end ThreeX86.Printf
