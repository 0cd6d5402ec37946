import ThreeX86.Printf.Sinks

/-!
`vsnprintf` and its wrappers. The caller's buffer is an object of its own: a byte for each index, also beyond its end.
-/

namespace ThreeX86.Printf

open Machine Machine.Memory

/-- `struct _output_args` -/
structure OutputArgs where
  outstr : Memory
  len : Word
  pos : Word

def vsnprintfOutputLoop (args : OutputArgs) (count : Word) : List Byte → Word × OutputArgs
  | [] => (count, args)
  | c :: str =>
    let args :=
      if args.pos < args.len then { args with outstr := args.outstr.store8 args.pos c, pos := args.pos + 1#32 } else args
    vsnprintfOutputLoop args (count + 1#32) str

def vsnprintfOutput : Out OutputArgs := fun args str => vsnprintfOutputLoop args 0#32 str

/-- The returned `int`, the buffer, and the memory that `%n` may have changed. -/
def vsnprintf (m str : Memory) (len fmt ap : Word) : Option (Word × Memory × Memory) := do
  let (wlen, r) ← printfEngine vsnprintfOutput ⟨str, len, 0#32⟩ m fmt ap
  let args := r.state
  let str := if args.pos ≥ len then args.outstr.store8 (len - 1#32) 0#8 else args.outstr.store8 wlen 0#8
  return (wlen, str, r.mem)

def snprintf (m str : Memory) (len fmt ap : Word) : Option (Word × Memory × Memory) := vsnprintf m str len fmt ap

def vsprintf (m str : Memory) (fmt ap : Word) : Option (Word × Memory × Memory) := vsnprintf m str 0x7fffffff#32 fmt ap

def sprintf (m str : Memory) (fmt ap : Word) : Option (Word × Memory × Memory) := vsprintf m str fmt ap

section

variable {m buf : Memory} {fmt ap len : Word} {log s : List Byte}

/-- The bytes of `log` that fit, over the buffer's first contents. -/
def stored (buf : Memory) (len : Word) (log : List Byte) : Memory :=
  fun x => if x.toNat < min log.length len.toNat then log.getD x.toNat 0#8 else buf x

def argsAfter (buf : Memory) (len : Word) (log : List Byte) : OutputArgs :=
  ⟨stored buf len log, len, BitVec.ofNat 32 (min log.length len.toNat)⟩

theorem toNat_pos (len : Word) (n : Nat) : (BitVec.ofNat 32 (min n len.toNat)).toNat = min n len.toNat := by
  have bound := len.isLt
  exact toNat_ofNat_word (by omega)

theorem stored_push (buf : Memory) (c : Byte) (room : log.length < len.toNat) :
    (stored buf len log).store8 (BitVec.ofNat 32 (min log.length len.toNat)) c = stored buf len (log ++ [c]) := by
  have position := toNat_pos len log.length
  funext x
  unfold store8 stored
  rw [List.length_append, List.length_singleton]
  by_cases here : x = BitVec.ofNat 32 (min log.length len.toNat)
  · have value : x.toNat = log.length := by rw [here]; omega
    rw [if_pos here, if_pos (by omega), value, List.getD_eq_getElem?_getD, List.getElem?_concat_length]
    rfl
  · have other : x.toNat ≠ log.length := by
      intro same
      exact here (BitVec.eq_of_toNat_eq (by omega))
    rw [if_neg here]
    by_cases before : x.toNat < log.length
    · rw [if_pos (by omega), if_pos (by omega), List.getD_eq_getElem?_getD, List.getD_eq_getElem?_getD,
        List.getElem?_append_left before]
    · rw [if_neg (by omega), if_neg (by omega)]

theorem stored_full (buf : Memory) (c : Byte) (full : len.toNat ≤ log.length) :
    stored buf len (log ++ [c]) = stored buf len log := by
  funext x
  unfold stored
  rw [List.length_append, List.length_singleton]
  by_cases inside : x.toNat < len.toNat
  · rw [if_pos (by omega), if_pos (by omega), List.getD_eq_getElem?_getD, List.getD_eq_getElem?_getD,
      List.getElem?_append_left (by omega)]
  · rw [if_neg (by omega), if_neg (by omega)]

theorem argsAfter_push (buf : Memory) (len : Word) (log : List Byte) (c : Byte) :
    (if (argsAfter buf len log).pos < (argsAfter buf len log).len then
      { argsAfter buf len log with
        outstr := (argsAfter buf len log).outstr.store8 (argsAfter buf len log).pos c
        pos := (argsAfter buf len log).pos + 1#32 }
    else argsAfter buf len log) = argsAfter buf len (log ++ [c]) := by
  have position := toNat_pos len log.length
  unfold argsAfter
  dsimp only
  by_cases room : log.length < len.toNat
  · have less : BitVec.ofNat 32 (min log.length len.toNat) < len := by rw [BitVec.lt_def]; omega
    have next : BitVec.ofNat 32 (min log.length len.toNat) + 1#32 = BitVec.ofNat 32 (min (log.length + 1) len.toNat) := by
      rw [← BitVec.ofNat_add]
      congr 1
      omega
    rw [if_pos less, stored_push buf c room, next, List.length_append, List.length_singleton]
  · have notLess : ¬ BitVec.ofNat 32 (min log.length len.toNat) < len := by rw [BitVec.lt_def]; omega
    have same : min (log ++ [c]).length len.toNat = min log.length len.toNat := by
      rw [List.length_append]
      omega
    rw [if_neg notLess, stored_full buf c (by omega), same]

theorem vsnprintfOutputLoop_spec (buf : Memory) (len : Word) (log s : List Byte) (count : Word) :
    vsnprintfOutputLoop (argsAfter buf len log) count s = (count + BitVec.ofNat 32 s.length, argsAfter buf len (log ++ s)) := by
  induction s generalizing log count with
  | nil => rw [vsnprintfOutputLoop, List.append_nil, List.length_nil, BitVec.add_zero]
  | cons c s ih =>
    rw [vsnprintfOutputLoop, argsAfter_push, ih, add_length_cons, List.length_cons, List.append_assoc,
      List.singleton_append]

theorem vsnprintfOutput_accepts (buf : Memory) (len : Word) :
    Accepts vsnprintfOutput fun log args => args = argsAfter buf len log := by
  rintro log args s rfl
  unfold vsnprintfOutput
  rw [vsnprintfOutputLoop_spec]
  exact ⟨BitVec.zero_add _, rfl⟩

/-- Where the terminator goes: the index is `-1` for an empty buffer. -/
def terminator (n : Nat) (len : Word) : Word := if n < len.toNat then BitVec.ofNat 32 n else len - 1#32

theorem vsnprintf_spec (buf : Memory) (len : Word) (full : printed m fmt ap = some s) (short : s.length < 2^31) :
    ∃ m', vsnprintf m buf len fmt ap =
      some (BitVec.ofNat 32 s.length, (stored buf len s).store8 (terminator s.length len) 0#8, m') := by
  have start : (⟨buf, len, 0#32⟩ : OutputArgs) = argsAfter buf len [] := by
    have empty : stored buf len [] = buf := by
      funext x
      simp [stored]
    unfold argsAfter
    rw [empty, List.length_nil, Nat.zero_min]
  obtain ⟨r, run, state⟩ := printfEngine_accepting (vsnprintfOutput_accepts buf len) start full short
  have position := toNat_pos len s.length
  refine ⟨r.mem, ?_⟩
  unfold vsnprintf
  rw [run, Option.bind_eq_bind, Option.bind_some]
  dsimp only
  rw [state]
  unfold argsAfter terminator
  dsimp only
  by_cases fits : s.length < len.toNat
  · have notFull : ¬ BitVec.ofNat 32 (min s.length len.toNat) ≥ len := by rw [ge_iff_le, BitVec.le_def]; omega
    rw [if_neg notFull, if_pos fits]
    rfl
  · have isFull : BitVec.ofNat 32 (min s.length len.toNat) ≥ len := by rw [ge_iff_le, BitVec.le_def]; omega
    rw [if_pos isFull, if_neg fits]
    rfl

/-- The buffer holds what fits of the text, with a NUL behind it, and is otherwise untouched. -/
theorem terminated_text (nonempty : len ≠ 0#32) (buf : Memory) (s : List Byte) :
    BytesAt ((stored buf len s).store8 (terminator s.length len) 0#8) 0#32 (s.take (len.toNat - 1) ++ [0#8]) ∧
      ∀ x : Word, min s.length (len.toNat - 1) < x.toNat →
        (stored buf len s).store8 (terminator s.length len) 0#8 x = buf x := by
  have bound := len.isLt
  have positive : 0 < len.toNat := by
    apply Nat.pos_of_ne_zero
    intro zero
    exact nonempty (BitVec.eq_of_toNat_eq zero)
  have last : (terminator s.length len).toNat = min s.length (len.toNat - 1) := by
    unfold terminator
    split
    · rw [toNat_ofNat_word (by omega)]
      omega
    · rw [BitVec.toNat_sub, BitVec.toNat_ofNat]
      omega
  constructor
  · apply bytesAt_of_get
    intro i inside
    rw [List.length_append, List.length_take, List.length_singleton] at inside
    rw [BitVec.zero_add]
    have index : (BitVec.ofNat 32 i).toNat = i := toNat_ofNat_word (by omega)
    by_cases text : i < min s.length (len.toNat - 1)
    · have before : i < (s.take (len.toNat - 1)).length := by
        rw [List.length_take]
        omega
      rw [store8_outside, List.getElem_append_left before, List.getElem_take]
      · unfold stored
        rw [index, if_pos (by omega), List.getD_eq_getElem?_getD, List.getElem?_eq_getElem (by omega)]
        rfl
      · intro same
        have values := congrArg BitVec.toNat same
        omega
    · have here : BitVec.ofNat 32 i = terminator s.length len := BitVec.eq_of_toNat_eq (by omega)
      rw [here, store8_same, List.getElem_append_right (by rw [List.length_take]; omega), List.getElem_singleton]
  · intro x beyond
    rw [store8_outside]
    · unfold stored
      rw [if_neg]
      omega
    · rintro rfl
      omega

/-- `vsnprintf` returns the length of the whole output and stores what fits of it, always with a NUL. -/
theorem vsnprintf_truncates (full : printed m fmt ap = some s) (short : s.length < 2^31) (nonempty : len ≠ 0#32)
    (buf : Memory) : ∃ buf' m', vsnprintf m buf len fmt ap = some (BitVec.ofNat 32 s.length, buf', m') ∧
      BytesAt buf' 0#32 (s.take (len.toNat - 1) ++ [0#8]) ∧
      ∀ x : Word, min s.length (len.toNat - 1) < x.toNat → buf' x = buf x := by
  obtain ⟨m', run⟩ := vsnprintf_spec buf len full short
  exact ⟨_, m', run, terminated_text nonempty buf s⟩

theorem sprintf_whole (full : printed m fmt ap = some s) (short : s.length < 2^31 - 1) (buf : Memory) :
    ∃ buf' m', sprintf m buf fmt ap = some (BitVec.ofNat 32 s.length, buf', m') ∧ BytesAt buf' 0#32 (s ++ [0#8]) ∧
      ∀ x : Word, s.length < x.toNat → buf' x = buf x := by
  obtain ⟨m', run⟩ := vsnprintf_spec buf 0x7fffffff#32 full (by omega)
  obtain ⟨text, frame⟩ := terminated_text (show 0x7fffffff#32 ≠ 0#32 by decide) buf s
  have limit : (0x7fffffff#32 : Word).toNat - 1 = 2^31 - 2 := rfl
  rw [limit, List.take_of_length_le (by omega)] at text
  refine ⟨_, m', run, text, fun x beyond => frame x ?_⟩
  omega

/-- The format `n=%d` at 4096, and arguments that are all zero from 8192 on. -/
def noteMemory : Memory := fun x => ("n=%d".toList.map char).getD (x.toNat - 4096) 0#8

theorem printed_note : printed noteMemory 4096#32 8192#32 = some ("n=0".toList.map char) := rfl

theorem vsnprintf_truncates_note : ∃ buf' m',
    vsnprintf noteMemory (fun _ => 255#8) 3#32 4096#32 8192#32 = some (3#32, buf', m') ∧
      BytesAt buf' 0#32 ("n=".toList.map char ++ [0#8]) := by
  obtain ⟨buf', m', run, text, -⟩ :=
    vsnprintf_truncates printed_note (by decide) (show 3#32 ≠ 0#32 by decide) fun _ => 255#8
  exact ⟨buf', m', run, text⟩

/-- The property asked of `vsnprintf` at one length: the same return value as for every other, and no byte
    outside the buffer changed. -/
def StaysInside (m : Memory) (fmt ap len : Word) (n : Nat) : Prop :=
  ∀ buf, ∃ buf' m', vsnprintf m buf len fmt ap = some (BitVec.ofNat 32 n, buf', m') ∧
    ∀ x : Word, len.toNat ≤ x.toNat → buf' x = buf x

/-- With `len = 0` the terminator is stored at index `-1`. -/
theorem measuring_writes (full : printed m fmt ap = some s) (short : s.length < 2^31) :
    ¬ StaysInside m fmt ap 0#32 s.length := by
  intro inside
  obtain ⟨buf', m', run, kept⟩ := inside fun _ => 1#8
  obtain ⟨m'', spec⟩ := vsnprintf_spec (fun _ => 1#8) 0#32 full short
  have same : buf' = (stored (fun _ => 1#8) 0#32 s).store8 (0#32 - 1#32) 0#8 := by
    rw [run] at spec
    exact congrArg (fun result => result.2.1) (Option.some.inj spec)
  have unchanged := kept (0#32 - 1#32) (Nat.zero_le _)
  rw [same, store8_same] at unchanged
  exact absurd unchanged (by decide)

/-- `snprintf(buf, 0, "n=%d", 0)` stores a NUL in front of the buffer. -/
theorem not_staysInside_note : printed noteMemory 4096#32 8192#32 = some ("n=0".toList.map char) ∧
    ¬ StaysInside noteMemory 4096#32 8192#32 0#32 3 :=
  ⟨printed_note, measuring_writes printed_note (by decide)⟩

/-- `vsnprintf` stays inside its buffer exactly when there is one. -/
theorem vsnprintf_inside_iff (full : printed m fmt ap = some s) (short : s.length < 2^31) (len : Word) :
    StaysInside m fmt ap len s.length ↔ len ≠ 0#32 := by
  constructor
  · rintro inside rfl
    exact measuring_writes full short inside
  · intro nonempty buf
    obtain ⟨m', run⟩ := vsnprintf_spec buf len full short
    have positive : len.toNat ≠ 0 := fun zero => nonempty (BitVec.eq_of_toNat_eq zero)
    exact ⟨_, m', run, fun x beyond => (terminated_text nonempty buf s).2 x (by omega)⟩

theorem vsnprintf_inside_iff_note : StaysInside noteMemory 4096#32 8192#32 2#32 3 :=
  (vsnprintf_inside_iff printed_note (by decide) 2#32).mpr (by decide)

end

end ThreeX86.Printf
