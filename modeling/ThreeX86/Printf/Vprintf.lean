import ThreeX86.Console.Write
import ThreeX86.Printf.Inputs
import ThreeX86.Printf.Vsnprintf

/-!
`_vprintf`: the console as the engine's output function, beside `vsnprintf`.
-/

namespace ThreeX86.Printf

open Machine Machine.Memory Console

/-- The bytes that `console_write` has taken, and the console they went to. -/
structure Screen (σ : Type) where
  accepted : List Byte
  console : σ

/-- `console_write` with `crlf` set; `behind` is what lies behind a piece in memory. -/
def consoleOut {σ : Type} (putchar : σ → Byte → σ) (behind : Nat → Byte) : Out (Screen σ) := fun screen s =>
  let (count, written) := consoleWrite putchar true (fun i => s.getD i (behind i)) screen.console (BitVec.ofNat 32 s.length)
  (BitVec.ofInt 32 count, ⟨screen.accepted ++ s.take written.count, written.console⟩)

/-- `_vprintf`: the returned `int`, and the console afterwards. -/
def vprintf {σ : Type} (putchar : σ → Byte → σ) (behind : Nat → Byte) (m : Memory) (console : σ) (fmt ap : Word) :
    Option (Word × Screen σ) := do
  let (value, r) ← printfEngine (consoleOut putchar behind) ⟨[], console⟩ m fmt ap
  return (value, r.state)

/-- A piece without a NUL, of a length that a `size_t` holds. -/
def Whole (s : List Byte) : Prop := 0#8 ∉ s ∧ s.length < 2^32

section

variable {σ : Type} {putchar : σ → Byte → σ} {behind : Nat → Byte} {m : Memory} {fmt ap ap' : Word} {c b : Byte} {flags : Flags}
  {action : Action} {s : List Byte} {r q : Run (List Byte)} {fuel : Nat}

/-! ### The console -/

theorem buffer_take (s : List Byte) (behind : Nat → Byte) {n : Nat} (inside : n ≤ s.length) :
    buffer (fun i => s.getD i (behind i)) n = s.take n := by
  unfold buffer
  apply List.ext_getElem
  · rw [List.length_map, List.length_range, List.length_take]
    omega
  · intro i h h'
    rw [List.length_take] at h'
    rw [List.getElem_map, List.getElem_range, List.getElem_take, List.getD_eq_getElem?_getD, List.getElem?_eq_getElem (by omega),
      Option.getD_some]

theorem consoleOut_eq (putchar : σ → Byte → σ) (behind : Nat → Byte) (screen : Screen σ) (s : List Byte) :
    consoleOut putchar behind screen s =
      (BitVec.ofNat 32 (upToNul (s.take (s.length % 2^32))).length,
        ⟨screen.accepted ++ upToNul (s.take (s.length % 2^32)),
          (expand true (upToNul (s.take (s.length % 2^32)))).foldl putchar screen.console⟩) := by
  have inside : s.length % 2^32 ≤ s.length := Nat.mod_le _ _
  have text := buffer_take s behind inside
  have count := upToNul_length (fun i => s.getD i (behind i)) (s.length % 2^32)
  have taken : s.take (upToNul (s.take (s.length % 2^32))).length = upToNul (s.take (s.length % 2^32)) := by
    have front : upToNul (s.take (s.length % 2^32)) <+: s := (List.takeWhile_prefix _).trans (List.take_prefix _ _)
    exact (List.prefix_iff_eq_take.mp front).symm
  rw [text] at count
  unfold consoleOut
  rw [consoleWrite_eq, BitVec.toNat_ofNat, ← count, text]
  dsimp only
  rw [BitVec.ofInt_toInt, taken]

/-- All bytes of the text went to the console, each newline behind a carriage return. -/
def Shown (putchar : σ → Byte → σ) (start : σ) (text : List Byte) (screen : Screen σ) : Prop :=
  screen.accepted = text ∧ screen.console = (expand true text).foldl putchar start

theorem consoleOut_whole {start : σ} {log : List Byte} {screen : Screen σ} (whole : Whole s)
    (shown : Shown putchar start log screen) :
    (consoleOut putchar behind screen s).1 = BitVec.ofNat 32 s.length ∧
      Shown putchar start (log ++ s) (consoleOut putchar behind screen s).2 := by
  have all : upToNul (s.take (s.length % 2^32)) = s := by
    rw [Nat.mod_eq_of_lt whole.2, List.take_length]
    unfold upToNul
    rw [List.takeWhile_eq_self_iff]
    intro b member
    have other : b ≠ 0#8 := fun nul => whole.1 (nul ▸ member)
    exact decide_eq_true other
  have parts : expand true (log ++ s) = expand true log ++ expand true s := List.flatMap_append ..
  rw [consoleOut_eq, all]
  refine ⟨rfl, by rw [← shown.1], ?_⟩
  rw [parts, List.foldl_append, ← shown.2]

/-! ### The pieces -/

theorem strlenLoop_free {p i j : Word} (found : strlenLoop m p fuel i = some j) :
    ∃ n, j = i + BitVec.ofNat 32 n ∧ ∀ k < n, m (p + (i + BitVec.ofNat 32 k)) ≠ 0#8 := by
  induction fuel generalizing i with
  | zero => cases found
  | succ fuel ih =>
    rw [strlenLoop] at found
    split at found
    · next other =>
      obtain ⟨n, last, free⟩ := ih found
      refine ⟨n + 1, last.trans (add_length_cons i n), fun k small => ?_⟩
      cases k with
      | zero => rwa [BitVec.add_zero]
      | succ k =>
        have later := free k (Nat.lt_of_succ_lt_succ small)
        rwa [add_length_cons] at later
    · cases found
      exact ⟨0, (BitVec.add_zero _).symm, fun k small => absurd small (Nat.not_lt_zero k)⟩

theorem stringAt_whole {p : Word} (read : stringAt m p = some s) : Whole s := by
  unfold stringAt strlen at read
  cases found : strlenLoop m p byteLimit 0#32 with
  | none =>
    rw [found] at read
    cases read
  | some n =>
    rw [found] at read
    cases read
    obtain ⟨k, rfl, free⟩ := strlenLoop_free found
    constructor
    · intro member
      obtain ⟨i, small, nul⟩ := mem_loadBytes member
      rw [BitVec.zero_add, BitVec.toNat_ofNat] at small
      have other := free i (Nat.lt_of_lt_of_le small (Nat.mod_le _ _))
      rw [BitVec.zero_add] at other
      exact other nul
    · rw [length_loadBytes]
      exact BitVec.isLt _

theorem whole_single (other : b ≠ 0#8) : Whole [b] :=
  ⟨fun member => other (List.mem_singleton.mp member).symm, by rw [List.length_singleton]; decide⟩

theorem chars_whole (free : 0#8 ∉ s) : (Action.chars s).Pieces Whole :=
  fun _ member => whole_single fun nul => free (nul ▸ member)

theorem text_whole (leading : List Byte) (free : 0#8 ∉ leading) (whole : Whole s) (signchar : Byte) (flags : Flags) :
    (Action.text leading s signchar flags).Pieces Whole :=
  ⟨fun _ member => whole_single fun nul => free (nul ▸ member), whole, whole_single (by decide), whole_single (by decide),
    whole_single⟩

theorem decimalAction_whole {n : BitVec 64} (read : decimalAction n flags = some action) : action.Pieces Whole := by
  unfold decimalAction at read
  dsimp only at read
  generalize longlongToString numBuffer n sizeofNumBuffer flags = result at read
  cases text : stringAt result.1 result.2.1 with
  | none =>
    rw [text] at read
    cases read
  | some s =>
    rw [text] at read
    cases read
    exact text_whole [] List.not_mem_nil (stringAt_whole text) _ _

theorem hexAction_whole {n : BitVec 64} (read : hexAction n flags = some action) : action.Pieces Whole := by
  unfold hexAction at read
  dsimp only at read
  generalize longlongToHexstring numBuffer n sizeofNumBuffer flags = result at read
  cases text : stringAt result.1 result.2 with
  | none =>
    rw [text] at read
    cases read
  | some s =>
    rw [text] at read
    cases read
    refine text_whole _ ?_ (stringAt_whole text) _ _
    split
    · split
      · decide
      · decide
    · exact List.not_mem_nil

/-- Only `%c` has a NUL to put out. -/
theorem fetch_whole (nonzero : c ≠ 0#8) (fetched : fetch m ap c flags = some (action, ap')) :
    action.Pieces Whole ∨ action = .chars [0#8] := by
  have decimal_ {n : BitVec 64} {f : Flags} {next : Word}
      (read : (decimalAction n f).bind (fun action => some (action, next)) = some (action, ap')) : action.Pieces Whole := by
    obtain ⟨_, converted, same⟩ := Option.bind_eq_some_iff.mp read
    cases same
    exact decimalAction_whole converted
  have hex {n : BitVec 64} {f : Flags} {next : Word}
      (read : (hexAction n f).bind (fun action => some (action, next)) = some (action, ap')) : action.Pieces Whole := by
    obtain ⟨_, converted, same⟩ := Option.bind_eq_some_iff.mp read
    cases same
    exact hexAction_whole converted
  unfold fetch at fetched
  by_cases percent : c = char '%'
  · rw [if_pos percent] at fetched
    cases fetched
    exact .inl (chars_whole (by decide))
  rw [if_neg percent] at fetched
  by_cases character : c = char 'c'
  · rw [if_pos character] at fetched
    cases fetched
    by_cases nul : (vaArg32 m ap).1.setWidth 8 = 0#8
    · rw [nul]
      exact .inr rfl
    · exact .inl (chars_whole fun member => nul (List.mem_singleton.mp member).symm)
  rw [if_neg character] at fetched
  by_cases string : c = char 's'
  · rw [if_pos string] at fetched
    obtain ⟨s, read, same⟩ := Option.bind_eq_some_iff.mp fetched
    cases same
    refine .inl (text_whole [] List.not_mem_nil ?_ _ _)
    unfold stringArg at read
    split at read
    · cases read
      exact ⟨by decide, by decide⟩
    · exact stringAt_whole read
  rw [if_neg string] at fetched
  by_cases signed : c = char 'i' ∨ c = char 'd'
  · rw [if_pos signed] at fetched
    exact .inl (decimal_ fetched)
  rw [if_neg signed] at fetched
  by_cases unsigned : c = char 'u'
  · rw [if_pos unsigned] at fetched
    exact .inl (decimal_ fetched)
  rw [if_neg unsigned] at fetched
  by_cases pointer : c = char 'p'
  · rw [if_pos pointer] at fetched
    exact .inl (hex fetched)
  rw [if_neg pointer] at fetched
  by_cases upper : c = char 'X'
  · rw [if_pos upper] at fetched
    exact .inl (hex fetched)
  rw [if_neg upper] at fetched
  by_cases lower : c = char 'x'
  · rw [if_pos lower] at fetched
    exact .inl (hex fetched)
  rw [if_neg lower] at fetched
  by_cases count : c = char 'n'
  · rw [if_pos count] at fetched
    cases fetched
    exact .inl trivial
  · rw [if_neg count] at fetched
    cases fetched
    refine .inl (chars_whole fun member => ?_)
    rcases List.mem_cons.mp member with escape | last
    · exact absurd escape (by decide)
    · exact nonzero (List.mem_singleton.mp last).symm

/-! ### The engine -/

theorem collect_keeps (b : Byte) (log s : List Byte) (member : b ∈ log) : b ∈ (collect log s).2 :=
  List.mem_append_left s member

theorem directive_keeps {flow : Flow (List Byte)} (member : b ∈ r.state) (turn : directive collect fmt r = some flow) :
    b ∈ flow.run.state := by
  have both := (invariant_simulation (collect_keeps b)).directive fmt (show r = r ∧ b ∈ r.state from ⟨rfl, member⟩)
  rw [turn] at both
  cases both with
  | some flows =>
    cases flows with
    | exit stopped => exact stopped.elim And.right And.right
    | next _ related => exact related.2

theorem output_state (put : outputString collect r s = .ok q ∨ outputString collect r s = .error q) : q.state = r.state ++ s := by
  unfold outputString collect at put
  dsimp only at put
  split at put
  · rcases put with ok | error
    · cases ok
    · cases error
      rfl
  · rcases put with ok | error
    · cases ok
      rfl
    · cases error

theorem perform_nul (f : Format) (r : Run (List Byte)) : ∃ q, perform collect f r (.chars [0#8]) = .ok q ∧ 0#8 ∈ q.state := by
  have single : perform collect f r (.chars [0#8]) = outputString collect r [0#8] >>= fun r => .ok r := rfl
  have put := outputString_ok r (show [0#8].length < 2^31 by decide)
  refine ⟨r.put 1#32 [0#8], ?_, List.mem_append_right _ List.mem_cons_self⟩
  rw [single, put]
  rfl

section

variable {τ : Type} {out : Out τ} {Rel : List Byte → τ → Prop} {r' : Run τ}

/-- `out` takes each piece without a NUL, and stays related to the list of all bytes. -/
def TakesWhole (out : Out τ) (Rel : List Byte → τ → Prop) : Prop :=
  ∀ log st s, Whole s → Rel log st → (out st s).1 = BitVec.ofNat 32 s.length ∧ Rel (log ++ s) (out st s).2

theorem TakesWhole.answers (takes : TakesWhole out Rel) : Answers Whole collect out (Counted Rel) (Overlong Rel) := by
  constructor
  case err => exact fun r r' counted => counted.same.err
  case output =>
    intro r r' s whole counted
    obtain ⟨answer, state⟩ := takes _ _ s whole counted.state
    exact counted.output answer state

theorem TakesWhole.directive (takes : TakesWhole out Rel) (counted : Counted Rel r r') {flow : Flow (List Byte)}
    (turn : Printf.directive collect fmt r = some flow) (free : 0#8 ∉ flow.run.state) :
    ∃ flow', Printf.directive out fmt r' = some flow' ∧ Flows (Counted Rel) (Overlong Rel) flow flow' := by
  unfold Printf.directive at turn ⊢
  rw [← counted.same.mem, ← counted.same.ap]
  cases parsed : nextFormat r.mem byteLimit fmt {} with
  | none =>
    rw [parsed] at turn
    cases turn
  | some conversion =>
    obtain ⟨c, after, f⟩ := conversion
    rw [parsed] at turn
    simp only [Option.bind_eq_bind, Option.bind_some] at turn ⊢
    by_cases nul : c = 0#8
    · rw [if_pos nul] at turn
      cases turn
      rw [if_pos nul]
      exact ⟨_, rfl, .exit (.inl counted)⟩
    · rw [if_neg nul] at turn
      rw [if_neg nul]
      cases fetched : fetch r.mem r.ap c f.flags with
      | none =>
        rw [fetched] at turn
        cases turn
      | some argument =>
        obtain ⟨action, ap⟩ := argument
        rw [fetched] at turn
        simp only [Option.bind_some] at turn ⊢
        rcases fetch_whole nul fetched with whole | rfl
        · have performed := takes.answers.perform f action whole
            (fun ptr count => count ▸ (counted.arguments ap).same.count (counted.arguments ap).store f ptr) (counted.arguments ap)
          rw [← counted.same.mem] at performed
          generalize perform collect f _ action = x at performed turn
          generalize perform out f _ action = x' at performed ⊢
          cases performed with
          | ok related =>
            cases turn
            exact ⟨_, rfl, .next _ related⟩
          | error stopped =>
            cases turn
            exact ⟨_, rfl, .exit (.inr stopped)⟩
        · obtain ⟨q, put, member⟩ := perform_nul f { r with ap }
          rw [put] at turn
          cases turn
          exact absurd member free

theorem TakesWhole.literal (takes : TakesWhole out Rel) (counted : Counted Rel r r') (short : s.length < 2^32)
    (put : outputString collect r s = .ok q ∨ outputString collect r s = .error q) (free : 0#8 ∉ q.state) :
    Results (Counted Rel) (Overlong Rel) (outputString collect r s) (outputString out r' s) := by
  rw [output_state put] at free
  exact takes.answers.output r r' s ⟨fun member => free (List.mem_append_right _ member), short⟩ counted

/-- An output function that takes each piece without a NUL whole does as `collect` does, unless a NUL goes out. -/
theorem TakesWhole.loop (takes : TakesWhole out Rel) (counted : Counted Rel r r')
    (loop : engineLoop collect fuel fmt r = some q) (free : 0#8 ∉ q.state) :
    ∃ q', engineLoop out fuel fmt r' = some q' ∧ (Counted Rel q q' ∨ Overlong Rel q q') := by
  induction fuel generalizing fmt r r' with
  | zero => cases loop
  | succ fuel ih =>
    unfold engineLoop at loop ⊢
    rw [← counted.same.mem]
    cases scanned : literalLoop r.mem byteLimit fmt 0#32 with
    | none =>
      rw [scanned] at loop
      cases loop
    | some literal =>
      obtain ⟨c, after, stringLen⟩ := literal
      rw [scanned] at loop
      simp only [Option.bind_eq_bind, Option.bind_some] at loop ⊢
      have short : (r.mem.loadBytes fmt stringLen.toNat).length < 2^32 := by
        rw [length_loadBytes]
        exact stringLen.isLt
      generalize r.mem.loadBytes fmt stringLen.toNat = lits at loop short ⊢
      cases output : outputString collect r lits with
      | error r1 =>
        rw [output] at loop
        cases loop
        have results := takes.literal counted short (.inr output) free
        rw [output] at results
        generalize outputString out r' lits = x at results ⊢
        cases results with
        | error stopped => exact ⟨_, rfl, .inr stopped⟩
      | ok r1 =>
        rw [output] at loop
        dsimp only at loop
        by_cases nul : c = 0#8
        · rw [if_pos nul] at loop
          cases loop
          have results := takes.literal counted short (.inl output) free
          rw [output] at results
          generalize outputString out r' lits = x at results ⊢
          cases results with
          | ok related =>
            dsimp only
            rw [if_pos nul]
            exact ⟨_, rfl, .inl related⟩
        · rw [if_neg nul] at loop
          cases turn : Printf.directive collect after r1 with
          | none =>
            rw [turn] at loop
            cases loop
          | some flow =>
            rw [turn, Option.bind_some] at loop
            have kept : 0#8 ∉ flow.run.state := by
              cases flow with
              | exit r2 =>
                cases loop
                exact free
              | next fmt r2 => exact fun member => free (loop_invariant (collect_keeps 0#8) member loop)
            have results := takes.literal counted short (.inl output) fun member => kept (directive_keeps member turn)
            rw [output] at results
            generalize outputString out r' lits = x at results ⊢
            cases results with
            | ok related =>
              obtain ⟨flow', turn', flows⟩ := takes.directive related turn kept
              dsimp only
              rw [if_neg nul, turn', Option.bind_some]
              cases flows with
              | exit stopped =>
                cases loop
                exact ⟨_, rfl, stopped⟩
              | next fmt related => exact ih related loop

end

/-! ### The two sinks -/

/-- The console and a buffer of `len` bytes get the same bytes and give the same value. -/
def SinksAgree (putchar : σ → Byte → σ) (behind : Nat → Byte) (m : Memory) (console : σ) (buf : Memory) (len fmt ap : Word) :
    Prop :=
  ∃ value screen buf' m', vprintf putchar behind m console fmt ap = some (value, screen) ∧
    vsnprintf m buf len fmt ap = some (value, buf', m') ∧ buf'.loadBytes 0#32 value.toNat = screen.accepted ∧
    screen.console = (expand true screen.accepted).foldl putchar console

theorem consoleOut_free (screen : Screen σ) (s : List Byte) (free : 0#8 ∉ screen.accepted) :
    0#8 ∉ (consoleOut putchar behind screen s).2.accepted := by
  rw [consoleOut_eq]
  intro member
  rcases List.mem_append.mp member with before | taken
  · exact free before
  · unfold upToNul at taken
    have other := List.mem_takeWhile_imp taken
    simp at other

theorem vprintf_spec (putchar : σ → Byte → σ) (behind : Nat → Byte) (console : σ) (full : printed m fmt ap = some s) (short : s.length < 2^31)
    (free : 0#8 ∉ s) : ∃ screen, vprintf putchar behind m console fmt ap = some (BitVec.ofNat 32 s.length, screen) ∧
      Shown putchar console s screen := by
  have takes : TakesWhole (consoleOut putchar behind) (Shown putchar console) :=
    fun _ _ _ whole shown => consoleOut_whole whole shown
  have start : Shown putchar console [] (⟨[], console⟩ : Screen σ) := ⟨rfl, rfl⟩
  unfold printed printfEngine at full
  cases loop : engineLoop collect byteLimit fmt ⟨m, ap, 0#32, 0#32, []⟩ with
  | none =>
    rw [loop] at full
    cases full
  | some q =>
    rw [loop] at full
    cases full
    obtain ⟨q', loop', either⟩ := takes.loop (counted_start start m ap) loop free
    rcases either with counted | overlong
    · refine ⟨q'.state, ?_, counted.state⟩
      unfold vprintf printfEngine
      rw [loop', ← counted.result]
      rfl
    · exact absurd overlong.long (Nat.not_le_of_lt short)

/-- The console and the buffer agree exactly when no byte of the output is a NUL. -/
theorem sinks_agree_iff (full : printed m fmt ap = some s) (short : s.length < 2^31) {len : Word} (fits : s.length < len.toNat)
    (putchar : σ → Byte → σ) (behind : Nat → Byte) (console : σ) (buf : Memory) :
    SinksAgree putchar behind m console buf len fmt ap ↔ 0#8 ∉ s := by
  have nonempty : len ≠ 0#32 := by
    rintro rfl
    exact absurd fits (Nat.not_lt_zero _)
  have length : (BitVec.ofNat 32 s.length).toNat = s.length := toNat_ofNat_word (by omega)
  obtain ⟨m', run⟩ := vsnprintf_spec buf len full short
  have text := (terminated_text nonempty buf s).1
  rw [List.take_of_length_le (by omega)] at text
  have bytes := (bytesAt_append.mp text).1.loadBytes
  constructor
  · intro agree
    obtain ⟨value, screen, buf', m'', shown, stored, same, -⟩ := agree
    rw [run] at stored
    cases stored
    rw [length, bytes] at same
    rw [same]
    unfold vprintf printfEngine at shown
    cases loop : engineLoop (consoleOut putchar behind) byteLimit fmt ⟨m, ap, 0#32, 0#32, [], console⟩ with
    | none =>
      rw [loop] at shown
      cases shown
    | some q =>
      rw [loop] at shown
      have state : q.state = screen := congrArg Prod.snd (Option.some.inj shown)
      rw [← state]
      exact loop_invariant (I := fun screen : Screen σ => 0#8 ∉ screen.accepted) consoleOut_free List.not_mem_nil loop
  · intro free
    obtain ⟨screen, shown, accepted, console'⟩ := vprintf_spec putchar behind console full short free
    refine ⟨_, screen, _, m', shown, run, ?_, ?_⟩
    · rw [length, bytes, accepted]
    · rw [accepted, console']

end

theorem sinks_agree_note : SinksAgree (fun out c => out ++ [c]) (fun _ => 0#8) noteMemory [] (fun _ => 255#8) 4#32 4096#32 8192#32 :=
  (sinks_agree_iff printed_note (by decide) (by decide) _ _ _ _).mpr (by decide)

/-- `printf("%c", 0)` returns 0, and `snprintf` 1. -/
theorem not_sinks_agree_nul : ¬ SinksAgree (fun out c => out ++ [c]) (fun _ => 0#8) (firstRun "%c" 0#32).mem []
    (fun _ => 255#8) 2#32 4096#32 8192#32 := by
  intro agree
  obtain ⟨value, screen, buf', m', shown, stored, -, -⟩ := agree
  have none_ : vprintf (fun out c => out ++ [c]) (fun _ => 0#8) (firstRun "%c" 0#32).mem [] 4096#32 8192#32 =
    some (0#32, ⟨[], []⟩) := rfl
  have one : (vsnprintf (firstRun "%c" 0#32).mem (fun _ => 255#8) 2#32 4096#32 8192#32).map Prod.fst = some 1#32 := rfl
  rw [none_] at shown
  rw [stored] at one
  cases shown
  exact absurd (Option.some.inj one) (show ¬ (0#32 : Word) = 1#32 by decide)

end ThreeX86.Printf
