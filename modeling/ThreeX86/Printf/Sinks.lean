import ThreeX86.Printf.Engine

namespace ThreeX86.Printf

open Machine Machine.Memory

/-! Output functions that answer alike make the engine do alike. -/

section Simulations

variable {σ τ : Type}

/-- What the engine sees of a run. -/
structure Run.Same (r : Run σ) (r' : Run τ) : Prop where
  mem : r.mem = r'.mem
  ap : r.ap = r'.ap
  err : r.err = r'.err
  charsWritten : r.charsWritten = r'.charsWritten

inductive Results (R E : Run σ → Run τ → Prop) : Except (Run σ) (Run σ) → Except (Run τ) (Run τ) → Prop
  | ok {r : Run σ} {r' : Run τ} (related : R r r') : Results R E (.ok r) (.ok r')
  | error {r : Run σ} {r' : Run τ} (stopped : E r r') : Results R E (.error r) (.error r')

/-- Related runs stay related over the output of a piece in `P`; `E` relates those that an error ends. -/
structure Answers (P : List Byte → Prop) (out : Out σ) (out' : Out τ) (R E : Run σ → Run τ → Prop) : Prop where
  err : ∀ r r', R r r' → r.err = r'.err
  output : ∀ r r' s, P s → R r r' → Results R E (outputString out r s) (outputString out' r' s)

/-- Related runs stay related over an output; `E` relates those that an error ends. -/
structure Simulation (out : Out σ) (out' : Out τ) (R E : Run σ → Run τ → Prop) : Prop where
  same : ∀ r r', R r r' → r.Same r'
  output : ∀ r r' s, R r r' → Results R E (outputString out r s) (outputString out' r' s)
  arguments : ∀ r r' ap, R r r' → R { r with ap } { r' with ap }
  store : ∀ r r' mem, R r r' → R { r with mem } { r' with mem }

inductive Flows (R E : Run σ → Run τ → Prop) : Flow σ → Flow τ → Prop
  | exit {r : Run σ} {r' : Run τ} (stopped : R r r' ∨ E r r') : Flows R E (.exit r) (.exit r')
  | next {r : Run σ} {r' : Run τ} (fmt : Word) (related : R r r') : Flows R E (.next fmt r) (.next fmt r')

/-- Every piece that an action puts out is in `P`. -/
def Action.Pieces (P : List Byte → Prop) : Action → Prop
  | .chars s => ∀ c ∈ s, P [c]
  | .text leading s signchar _ =>
    (∀ c ∈ leading, P [c]) ∧ P s ∧ P [char ' '] ∧ P [char '0'] ∧ (signchar ≠ 0#8 → P [signchar])
  | .count _ => True

variable {P : List Byte → Prop} {out : Out σ} {out' : Out τ} {R E : Run σ → Run τ → Prop} {r : Run σ} {r' : Run τ}

theorem Results.bind {x : Except (Run σ) (Run σ)} {x' : Except (Run τ) (Run τ)} {f : Run σ → Except (Run σ) (Run σ)}
    {f' : Run τ → Except (Run τ) (Run τ)} (results : Results R E x x')
    (next : ∀ r r', R r r' → Results R E (f r) (f' r')) : Results R E (x >>= f) (x' >>= f') := by
  cases results with
  | ok related => exact next _ _ related
  | error stopped => exact .error stopped

theorem Action.pieces_true (action : Action) : action.Pieces fun _ => True := by cases action <;> simp [Action.Pieces]

theorem Run.Same.count (same : r.Same r') (stored : ∀ mem, R { r with mem } { r' with mem }) (f : Format) (ptr : Word) :
    Results R E (perform out f r (.count ptr)) (perform out' f r' (.count ptr)) := by
  have count : storeCount r'.mem ptr f.flags r'.charsWritten = storeCount r.mem ptr f.flags r.charsWritten := by
    rw [same.mem, same.charsWritten]
  unfold perform
  dsimp only
  rw [count]
  exact .ok (stored _)

namespace Answers

theorem chars (ans : Answers P out out' R E) (cs : List Byte) (pieces : ∀ c ∈ cs, P [c]) (related : R r r') :
    Results R E (outputChars out r cs) (outputChars out' r' cs) := by
  induction cs generalizing r r' with
  | nil => exact .ok related
  | cons c cs ih =>
    refine (ans.output r r' [c] (pieces c List.mem_cons_self) related).bind fun r r' related => ?_
    exact ih (fun c member => pieces c (List.mem_cons_of_mem _ member)) related

theorem padding (ans : Answers P out out' R E) (c : Byte) (piece : P [c]) (written : Word) (formatNum : Nat)
    (related : R r r') :
    Results R E (outputPadding out c written r formatNum) (outputPadding out' c written r' formatNum) := by
  induction formatNum generalizing r r' with
  | zero => exact .ok related
  | succ formatNum ih =>
    unfold outputPadding
    split
    · exact (ans.output r r' [c] piece related).bind fun r r' related => ih related
    · exact .ok related

theorem text (ans : Answers P out out' R E) (flags : Flags) (formatNum : Word) (signchar : Byte) (s : List Byte)
    (piece : P s) (blank : P [char ' ']) (zero : P [char '0']) (sign : signchar ≠ 0#8 → P [signchar])
    (related : R r r') :
    Results R E (outputText out flags formatNum signchar r s) (outputText out' flags formatNum signchar r' s) := by
  have signs (flag : Prop) [Decidable flag] : ∀ c ∈ (if flag ∧ signchar ≠ 0#8 then [signchar] else []), P [c] := by
    intro c member
    split at member
    · next both =>
      rw [List.mem_singleton.mp member]
      exact sign both.2
    · cases member
  have pad : P [if flags.leadzero then char '0' else char ' '] := by
    split
    · exact zero
    · exact blank
  unfold outputText
  dsimp only
  split
  · refine (ans.output r r' s piece related).bind fun r r' related => ?_
    rw [ans.err r r' related]
    exact ans.padding _ blank _ _ related
  · refine (ans.chars _ (signs _) related).bind fun r r' related => ?_
    refine (ans.padding _ pad _ _ related).bind fun r r' related => ?_
    refine (ans.chars _ (signs _) related).bind fun r r' related => ?_
    exact ans.output r r' s piece related

theorem perform (ans : Answers P out out' R E) (f : Format) (action : Action) (pieces : action.Pieces P)
    (store : ∀ ptr, action = .count ptr → Results R E (Printf.perform out f r action) (Printf.perform out' f r' action))
    (related : R r r') : Results R E (Printf.perform out f r action) (Printf.perform out' f r' action) := by
  cases action with
  | chars s => exact ans.chars s pieces related
  | text leading s signchar flags =>
    obtain ⟨front, body, blank, zero, sign⟩ := pieces
    refine (ans.chars leading front related).bind fun r r' related => ?_
    exact ans.text flags f.formatNum signchar s body blank zero sign related
  | count ptr => exact store ptr rfl

end Answers

namespace Simulation

theorem answers (sim : Simulation out out' R E) : Answers (fun _ => True) out out' R E :=
  ⟨fun r r' related => (sim.same r r' related).err, fun r r' s _ related => sim.output r r' s related⟩

theorem perform (sim : Simulation out out' R E) (f : Format) (action : Action) (related : R r r') :
    Results R E (Printf.perform out f r action) (Printf.perform out' f r' action) := by
  refine sim.answers.perform f action action.pieces_true ?_ related
  rintro ptr rfl
  exact (sim.same r r' related).count (fun mem => sim.store r r' mem related) f ptr

theorem directive (sim : Simulation out out' R E) (fmt : Word) (related : R r r') :
    Option.Rel (Flows R E) (Printf.directive out fmt r) (Printf.directive out' fmt r') := by
  have same := sim.same r r' related
  unfold Printf.directive
  rw [← same.mem, ← same.ap]
  cases nextFormat r.mem byteLimit fmt {} with
  | none => exact .none
  | some parsed =>
    obtain ⟨c, after, f⟩ := parsed
    simp only [Option.bind_eq_bind, Option.bind_some]
    split
    · exact .some (.exit (Or.inl related))
    · cases fetch r.mem r.ap c f.flags with
      | none => exact .none
      | some fetched =>
        obtain ⟨action, ap⟩ := fetched
        have performed := sim.perform f action (sim.arguments r r' ap related)
        rw [← same.mem] at performed
        simp only [Option.bind_some]
        generalize Printf.perform out f _ action = x at performed
        generalize Printf.perform out' f _ action = x' at performed
        cases performed with
        | ok related => exact Option.Rel.some (Flows.next after related)
        | error stopped => exact Option.Rel.some (Flows.exit (Or.inr stopped))

/-- Turn by turn, the engine does the same with both output functions. -/
theorem loop (sim : Simulation out out' R E) (fuel : Nat) (fmt : Word) (related : R r r') :
    Option.Rel (fun r r' => R r r' ∨ E r r') (engineLoop out fuel fmt r) (engineLoop out' fuel fmt r') := by
  induction fuel generalizing fmt r r' with
  | zero => exact .none
  | succ fuel ih =>
    have same := sim.same r r' related
    unfold engineLoop
    rw [← same.mem]
    cases literalLoop r.mem byteLimit fmt 0#32 with
    | none => exact .none
    | some literal =>
      obtain ⟨c, after, stringLen⟩ := literal
      have output := sim.output r r' (r.mem.loadBytes fmt stringLen.toNat) related
      simp only [Option.bind_eq_bind, Option.bind_some]
      generalize outputString out r _ = x at output
      generalize outputString out' r' _ = x' at output
      cases output with
      | error stopped => exact .some (Or.inr stopped)
      | @ok r r' related =>
        dsimp only
        split
        · exact .some (Or.inl related)
        · have turn := sim.directive after related
          generalize Printf.directive out after r = y at turn
          generalize Printf.directive out' after r' = y' at turn
          cases turn with
          | none => exact .none
          | some flows =>
            simp only [Option.bind_some]
            cases flows with
            | exit stopped => exact .some stopped
            | next fmt related => exact ih fmt related

end Simulation

theorem invariant_simulation {I : σ → Prop} (keeps : ∀ st s, I st → I (out st s).2) :
    Simulation out out (fun r r' => r = r' ∧ I r.state) fun r r' => r = r' ∧ I r.state := by
  constructor
  case same =>
    intro r r' related
    cases related.1
    exact ⟨rfl, rfl, rfl, rfl⟩
  case arguments =>
    intro r r' ap related
    cases related.1
    exact ⟨rfl, related.2⟩
  case store =>
    intro r r' mem related
    cases related.1
    exact ⟨rfl, related.2⟩
  case output =>
    intro r r' s related
    cases related.1
    unfold outputString
    dsimp only
    split
    · exact .error ⟨rfl, keeps _ s related.2⟩
    · exact .ok ⟨rfl, keeps _ s related.2⟩

/-- What every output keeps true of the output function's state, the engine does. -/
theorem loop_invariant {I : σ → Prop} (keeps : ∀ st s, I st → I (out st s).2) {q : Run σ} {fuel : Nat} {fmt : Word}
    (holds : I r.state) (loop : engineLoop out fuel fmt r = some q) : I q.state := by
  have both := (invariant_simulation keeps).loop fuel fmt (show r = r ∧ I r.state from ⟨rfl, holds⟩)
  rw [loop] at both
  cases both with
  | some related => exact related.elim And.right And.right

end Simulations

/-! ### Output functions that take all bytes -/

def collect : Out (List Byte) := fun log s => (BitVec.ofNat 32 s.length, log ++ s)

/-- What the engine passes to an output function that takes all bytes. -/
def printed (m : Memory) (fmt ap : Word) : Option (List Byte) :=
  (printfEngine collect [] m fmt ap).map fun result => result.2.state

section Accepting

variable {τ : Type} {out : Out τ} {Rel : List Byte → τ → Prop}

/-- `out` takes all bytes and stays related to the list of them. -/
def Accepts (out : Out τ) (Rel : List Byte → τ → Prop) : Prop :=
  ∀ log st s, Rel log st → (out st s).1 = BitVec.ofNat 32 s.length ∧ Rel (log ++ s) (out st s).2

/-- As many bytes counted as passed on. -/
structure Counted (Rel : List Byte → τ → Prop) (r : Run (List Byte)) (r' : Run τ) : Prop where
  same : r.Same r'
  state : Rel r.state r'.state
  count : r.charsWritten = BitVec.ofNat 32 r.state.length
  err : ¬ r.err.toInt < 0

/-- A single output too long for an `int`. -/
structure Overlong (Rel : List Byte → τ → Prop) (r : Run (List Byte)) (r' : Run τ) : Prop where
  state : Rel r.state r'.state
  long : 2^31 ≤ r.state.length

theorem toInt_length {n : Nat} (short : n < 2^31) : ¬ (BitVec.ofNat 32 n).toInt < 0 := by
  rw [BitVec.toInt_eq_toNat_cond, toNat_ofNat_word (by omega), if_pos (by omega)]
  omega

theorem Counted.arguments {r : Run (List Byte)} {r' : Run τ} (counted : Counted Rel r r') (ap : Word) :
    Counted Rel { r with ap } { r' with ap } :=
  ⟨⟨counted.same.mem, rfl, counted.same.err, counted.same.charsWritten⟩, counted.state, counted.count, counted.err⟩

theorem Counted.store {r : Run (List Byte)} {r' : Run τ} (counted : Counted Rel r r') (mem : Memory) :
    Counted Rel { r with mem } { r' with mem } :=
  ⟨⟨rfl, counted.same.ap, counted.same.err, counted.same.charsWritten⟩, counted.state, counted.count, counted.err⟩

theorem Counted.output {r : Run (List Byte)} {r' : Run τ} {s : List Byte} (counted : Counted Rel r r')
    (answer : (out r'.state s).1 = BitVec.ofNat 32 s.length) (state : Rel (r.state ++ s) (out r'.state s).2) :
    Results (Counted Rel) (Overlong Rel) (outputString collect r s) (outputString out r' s) := by
  have same := counted.same
  unfold outputString collect
  dsimp only
  rw [answer]
  by_cases negative : (BitVec.ofNat 32 s.length).toInt < 0
  · rw [if_pos negative, if_pos negative]
    refine .error ⟨state, ?_⟩
    by_contra short
    rw [List.length_append] at short
    exact toInt_length (by omega) negative
  · rw [if_neg negative, if_neg negative]
    refine .ok ⟨⟨same.mem, same.ap, rfl, ?_⟩, state, ?_, negative⟩
    · rw [same.charsWritten]
    · dsimp only
      rw [counted.count, List.length_append, BitVec.ofNat_add]

theorem accepting_simulation (accepts : Accepts out Rel) : Simulation collect out (Counted Rel) (Overlong Rel) := by
  constructor
  case same => exact fun r r' related => related.same
  case arguments => exact fun r r' ap related => related.arguments ap
  case store => exact fun r r' mem related => related.store mem
  case output =>
    intro r r' s related
    obtain ⟨answer, state⟩ := accepts r.state r'.state s related.state
    exact related.output answer state

theorem counted_start {st : τ} (start : Rel [] st) (m : Memory) (ap : Word) :
    Counted Rel ⟨m, ap, 0#32, 0#32, []⟩ ⟨m, ap, 0#32, 0#32, st⟩ :=
  ⟨⟨rfl, rfl, rfl, rfl⟩, start, rfl, (by decide : ¬ (0#32 : Word).toInt < 0)⟩

theorem Counted.result {r : Run (List Byte)} {r' : Run τ} (counted : Counted Rel r r') :
    r'.result = BitVec.ofNat 32 r.state.length := by
  unfold Run.result
  rw [← counted.same.err, if_neg counted.err, ← counted.same.charsWritten, counted.count]

/-- An output function that takes all bytes gets what is printed, and the engine returns how many there were. -/
theorem printfEngine_accepting {st : τ} {m : Memory} {fmt ap : Word} {s : List Byte} (accepts : Accepts out Rel)
    (start : Rel [] st) (full : printed m fmt ap = some s) (short : s.length < 2^31) :
    ∃ r, printfEngine out st m fmt ap = some (BitVec.ofNat 32 s.length, r) ∧ Rel s r.state := by
  have alike := (accepting_simulation accepts).loop byteLimit fmt (counted_start start m ap)
  unfold printed printfEngine at full
  unfold printfEngine
  generalize engineLoop collect byteLimit fmt _ = x at full alike
  generalize engineLoop out byteLimit fmt _ = x' at alike
  cases alike with
  | none => cases full
  | @some r r' related =>
    have text : r.state = s := Option.some.inj full
    subst text
    rcases related with counted | overlong
    · refine ⟨r', ?_, counted.state⟩
      rw [← counted.result]
      rfl
    · exact absurd overlong.long (Nat.not_le_of_lt short)

end Accepting

end ThreeX86.Printf
