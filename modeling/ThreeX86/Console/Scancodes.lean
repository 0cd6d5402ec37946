import Mathlib.Data.List.Induction
import ThreeX86.Console.Keyboard

/-!
`process_scode` over streams of scancodes, and the prefix byte of the extended ones.
-/

namespace ThreeX86.Console

open Machine

def extended : Byte := 0xe0#8

def Keyboard.initial : Keyboard := ⟨false, false, 0⟩

def keysAfter (stream : List Byte) : Keyboard :=
  stream.foldl (fun k scode => (processScode (fun s _ => s) k () scode).keyboard) Keyboard.initial

/-- Whether the next scancode is looked up in the tables for extended ones. -/
def Keyboard.multi (k : Keyboard) : Bool := k.lastCode = 0xe0

def characters (k : Keyboard) (scode : Byte) : List Byte := (processScode (fun out c => out ++ [c]) k [] scode).console

/-! ### Streams with prefixes -/

/-- Neither a prefix nor the byte behind it makes a character. -/
def PrefixesSilent (stream : List Byte) : Prop :=
  ∀ before b after, stream = before ++ b :: after → b = extended ∨ before.getLast? = some extended →
    characters (keysAfter before) b = []

/-- The bytes behind a prefix, and only they, are looked up in the tables for extended scancodes. -/
structure PrefixesDecoded (stream : List Byte) : Prop where
  multi : ∀ before b after, stream = before ++ b :: after → before.getLast? = some extended →
    (keysAfter before).multi = true
  single : ∀ before b after, stream = before ++ b :: after → before.getLast? ≠ some extended →
    (keysAfter before).multi = false
  silent : PrefixesSilent stream

/-! ### What the decoder does -/

/-- The last event of the key in the stream is a make. -/
def held (key : Byte) (stream : List Byte) : Bool :=
  match stream.reverse.find? fun b => b &&& 0x7f#8 = key with
  | some b => b &&& 0x80#8 = 0#8
  | none => false

/-- The character of the single-byte tables for `b`, if any, with the shift keys as `before` and `b` leave them. -/
def singleCharacters (before : List Byte) (b : Byte) : List Byte :=
  let shift := held scancodeLshift (before ++ [b]) || held scancodeRshift (before ++ [b])
  let key := (if shift then keyCodeSingleUpper else keyCodeSingleLower).getD (b &&& 0x7f#8).toNat (-1)
  if key ≠ -1 ∧ b &&& 0x80#8 = 0#8 then [BitVec.ofInt 8 key] else []

theorem held_append (key : Byte) (stream : List Byte) (b : Byte) :
    held key (stream ++ [b]) = if b &&& 0x7f#8 = key then decide (b &&& 0x80#8 = 0#8) else held key stream := by
  unfold held
  rw [List.reverse_append, List.reverse_singleton, List.singleton_append, List.find?_cons]
  by_cases same : b &&& 0x7f#8 = key
  · rw [if_pos same, decide_eq_true same]
  · rw [if_neg same, decide_eq_false same]

theorem keysAfter_append (stream : List Byte) (b : Byte) :
    keysAfter (stream ++ [b]) = (processScode (fun s _ => s) (keysAfter stream) () b).keyboard := by
  unfold keysAfter
  rw [List.foldl_append, List.foldl_cons, List.foldl_nil]

theorem shiftKeys_lshift (k : Keyboard) (scode keyUpBit : Byte) :
    (k.shiftKeys scode keyUpBit).keyLshift = if scode = scancodeLshift then decide (keyUpBit = 0#8) else k.keyLshift := by
  unfold Keyboard.shiftKeys
  dsimp only
  split <;> split <;> rfl

theorem shiftKeys_rshift (k : Keyboard) (scode keyUpBit : Byte) :
    (k.shiftKeys scode keyUpBit).keyRshift = if scode = scancodeRshift then decide (keyUpBit = 0#8) else k.keyRshift := by
  unfold Keyboard.shiftKeys
  dsimp only
  split <;> split <;> rfl

/-- The shift keys are those held, and the last code has lost the bit that makes it a prefix. -/
theorem keysAfter_eq (stream : List Byte) :
    (keysAfter stream).keyLshift = held scancodeLshift stream ∧
    (keysAfter stream).keyRshift = held scancodeRshift stream ∧ (keysAfter stream).multi = false := by
  induction stream using List.reverseRecOn with
  | nil => exact ⟨rfl, rfl, rfl⟩
  | append_singleton stream b ih =>
    obtain ⟨left, right, _⟩ := ih
    rw [keysAfter_append, held_append, held_append, ← left, ← right]
    refine ⟨shiftKeys_lshift _ _ _, shiftKeys_rshift _ _ _, ?_⟩
    have masked : (b &&& 0x7f#8).toNat ≤ 0x7f := by
      rw [BitVec.toNat_and]
      exact Nat.and_le_right
    have last : ((b &&& 0x7f#8).toNat : Int) ≠ 0xe0 := by omega
    exact decide_eq_false last

theorem characters_eq (before : List Byte) (b : Byte) :
    characters (keysAfter before) b = singleCharacters before b := by
  obtain ⟨left, right, single⟩ := keysAfter_eq before
  unfold characters singleCharacters processScode
  dsimp only
  rw [show decide ((keysAfter before).lastCode = 0xe0) = false from single]
  unfold Keyboard.keyCode Keyboard.keyTable
  rw [shiftKeys_lshift, shiftKeys_rshift, left, right, ← held_append, ← held_append]
  split
  · rfl
  · rfl

theorem singleCharacters_extended (before : List Byte) : singleCharacters before extended = [] := by
  unfold singleCharacters
  dsimp only
  rw [if_neg]
  rintro ⟨_, make⟩
  exact absurd make (by decide)

/-- A prefix is never recognised: the tables are right exactly when nothing follows a prefix, and no wrong
    character comes of it exactly when no byte behind a prefix has one in the single-byte tables. -/
theorem prefixes_decoded_iff (stream : List Byte) :
    (PrefixesDecoded stream ↔ ∀ before after, stream = before ++ extended :: after → after = []) ∧
    (PrefixesSilent stream ↔ ∀ before b after, stream = before ++ extended :: b :: after →
      singleCharacters (before ++ [extended]) b = []) := by
  have silent : PrefixesSilent stream ↔ ∀ before b after, stream = before ++ extended :: b :: after →
      singleCharacters (before ++ [extended]) b = [] := by
    constructor
    · intro silent before b after whole
      rw [← characters_eq]
      apply silent (before ++ [extended]) b after
      · rw [whole, List.append_assoc, List.singleton_append]
      · exact Or.inr List.getLast?_concat
    · intro none before b after whole place
      rw [characters_eq]
      rcases place with rfl | last
      · exact singleCharacters_extended before
      · obtain ⟨before, rfl⟩ := List.getLast?_eq_some_iff.mp last
        apply none before b after
        rw [whole, List.append_assoc, List.singleton_append]
  refine ⟨?_, silent⟩
  constructor
  · intro decoded before after whole
    cases after with
    | nil => rfl
    | cons b after =>
      have multi := decoded.multi (before ++ [extended]) b after (by rw [whole, List.append_assoc, List.singleton_append])
        List.getLast?_concat
      rw [(keysAfter_eq _).2.2] at multi
      cases multi
  · intro last
    constructor
    case multi =>
      intro before b after whole place
      obtain ⟨before, rfl⟩ := List.getLast?_eq_some_iff.mp place
      have none := last before (b :: after) (by rw [whole, List.append_assoc, List.singleton_append])
      cases none
    case single =>
      intro before b after _ _
      exact (keysAfter_eq before).2.2
    case silent =>
      apply silent.mpr
      intro before b after whole
      cases last before (b :: after) whole

/-- The keypad's enter key is taken for the main one. -/
theorem not_prefixesDecoded_enter :
    ¬ PrefixesDecoded [0xe0#8, 0x1c#8] ∧ ¬ PrefixesSilent [0xe0#8, 0x1c#8] ∧
    characters (keysAfter [0xe0#8]) 0x1c#8 = [0x0a#8] := by
  have newline : characters (keysAfter [0xe0#8]) 0x1c#8 = [0x0a#8] := by decide
  have loud : ¬ PrefixesSilent [0xe0#8, 0x1c#8] := by
    intro silent
    have none := silent [0xe0#8] 0x1c#8 [] rfl (Or.inr rfl)
    rw [newline] at none
    cases none
  exact ⟨fun decoded => loud decoded.silent, loud, newline⟩

/-! ### Whole streams -/

/-- `process_scode` over a stream: the indices it reads its tables at and what it passes to `console_input`. -/
structure Typing where
  keyboard : Keyboard
  indices : List Nat
  typed : List Byte

def Typing.next (t : Typing) (scode : Byte) : Typing :=
  let decoded := processScode (fun out c => out ++ [c]) t.keyboard t.typed scode
  ⟨decoded.keyboard, t.indices ++ [decoded.index], decoded.console⟩

end ThreeX86.Console
