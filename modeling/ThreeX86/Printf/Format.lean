import ThreeX86.Printf.Laws

namespace ThreeX86.Printf

open Machine Machine.Memory Numerals

/-! Whole formats of right-justified directives, and the text that C gives them. -/

/-- A directive that is never left-justified and has no prefix; a sign is asked for only where the number has one. -/
structure Directive.RightJustified (d : Directive) : Prop where
  conv : d.conv ≠ .p
  flags : ∀ flag ∈ d.flags, flag = .zero ∨ ((flag = .plus ∨ flag = .blank) ∧ (d.conv = .d ∨ d.conv = .i))
  width : d.width < 2^31

inductive Item where
  | byte (b : Byte) (plain : b ≠ 0#8 ∧ b ≠ char '%')
  | percent
  | directive (d : Directive) (right : d.RightJustified)

def Item.bytes : Item → List Byte
  | .byte b _ => [b]
  | .percent => [char '%', char '%']
  | .directive d _ => char '%' :: d.bytes

section

variable {r : Run (List Byte)} {m : Memory} {fmt ap : Word} {d : Directive} {s lits text : List Byte} {c : Byte}
  {items : List Item}

/-! ### A directive -/

theorem literalLoop_eq (at_ : BytesAt m fmt (lits ++ [c])) (plain : ∀ b ∈ lits, b ≠ 0#8 ∧ b ≠ char '%')
    (stop : c = 0#8 ∨ c = char '%') (fuel : Nat) (enough : lits.length < fuel) (stringLen : Word) :
    literalLoop m fuel fmt stringLen =
      some (c, fmt + BitVec.ofNat 32 (lits.length + 1), stringLen + BitVec.ofNat 32 lits.length) := by
  induction lits generalizing fmt fuel stringLen with
  | nil =>
    cases fuel with
    | zero => simp at enough
    | succ fuel =>
      have here : m fmt = c := at_.1
      rw [literalLoop, here]
      rcases stop with rfl | rfl <;> simp
  | cons b lits ih =>
    cases fuel with
    | zero => simp at enough
    | succ fuel =>
      have here : m fmt = b := at_.1
      have other := plain b List.mem_cons_self
      have rest := ih at_.2 (fun b member => plain b (List.mem_cons_of_mem _ member)) fuel (by simpa using enough)
        (stringLen + 1#32)
      rw [literalLoop, here]
      rw [if_pos other.1, if_neg other.2, rest, add_length_cons, add_length_cons, List.length_cons]

theorem engineLoop_literal {σ : Type} (out : Out σ) {r : Run σ} (at_ : BytesAt r.mem fmt (lits ++ [c]))
    (plain : ∀ b ∈ lits, b ≠ 0#8 ∧ b ≠ char '%') (stop : c = 0#8 ∨ c = char '%') (short : lits.length < 2^32) (fuel : Nat) :
    engineLoop out (fuel + 1) fmt r =
      match outputString out r lits with
      | .error r => some r
      | .ok r =>
        if c = 0#8 then some r
        else (directive out (fmt + BitVec.ofNat 32 (lits.length + 1)) r).bind fun flow => match flow with
          | .exit r => some r
          | .next fmt r => engineLoop out fuel fmt r := by
  have literal := literalLoop_eq at_ plain stop byteLimit short 0#32
  have length : (BitVec.ofNat 32 lits.length).toNat = lits.length := toNat_ofNat_word short
  rw [BitVec.zero_add] at literal
  rw [engineLoop, literal, Option.bind_eq_bind, Option.bind_some]
  dsimp only
  rw [length, (bytesAt_append.mp at_).1.loadBytes]
  cases outputString out r lits with
  | error r => rfl
  | ok r =>
    dsimp only
    by_cases nul : c = 0#8
    · rw [if_pos nul, if_pos nul]
      rfl
    · rw [if_neg nul, if_neg nul]
      cases directive out (fmt + BitVec.ofNat 32 (lits.length + 1)) r with
      | none => rfl
      | some flow => cases flow <;> rfl

theorem engineLoop_turn (at_ : BytesAt r.mem fmt (lits ++ [c])) (plain : ∀ b ∈ lits, b ≠ 0#8 ∧ b ≠ char '%')
    (stop : c = 0#8 ∨ c = char '%') (short : lits.length < 2^31) (fuel : Nat) :
    engineLoop collect (fuel + 1) fmt r =
      if c = 0#8 then some (r.put (BitVec.ofNat 32 lits.length) lits)
      else (directive collect (fmt + BitVec.ofNat 32 (lits.length + 1)) (r.put (BitVec.ofNat 32 lits.length) lits)).bind
        fun flow => match flow with
          | .exit r => some r
          | .next fmt r => engineLoop collect fuel fmt r := by
  rw [engineLoop_literal collect at_ plain stop (Nat.lt_trans short (by decide)), outputString_ok r short]
  dsimp only
  split
  · rfl
  · cases directive collect (fmt + BitVec.ofNat 32 (lits.length + 1)) (r.put (BitVec.ofNat 32 lits.length) lits) with
    | none => rfl
    | some flow => cases flow <;> rfl

/-! ### The format -/

theorem bytesAt_cut {rest : List Byte} (at_ : BytesAt m fmt (lits ++ c :: rest)) :
    BytesAt m fmt (lits ++ [c]) ∧ BytesAt m (fmt + BitVec.ofNat 32 (lits.length + 1)) rest := by
  rw [List.append_cons] at at_
  have parts := bytesAt_append.mp at_
  rwa [List.length_append, List.length_singleton] at parts

/-- A format without a `%` is its own text. -/
theorem printed_plain (at_ : BytesAt m fmt (lits ++ [0#8])) (plain : ∀ b ∈ lits, b ≠ 0#8 ∧ b ≠ char '%')
    (short : lits.length < 2^31) : printed m fmt ap = some lits := by
  have turns : byteLimit = (2^32 - 1) + 1 := rfl
  have turn := engineLoop_turn (r := ⟨m, ap, 0#32, 0#32, []⟩) at_ plain (Or.inl rfl) short (2^32 - 1)
  rw [if_pos rfl] at turn
  unfold printed printfEngine
  rw [turns, turn]
  rfl

end

end ThreeX86.Printf
