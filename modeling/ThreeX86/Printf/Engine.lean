import ThreeX86.Machine.Strings

/-!
The engine of `printf.c`. The format, the arguments and the strings they point to lie in one memory; the output
function keeps a state of its own.
-/

namespace ThreeX86.Printf

open Machine Machine.Memory

abbrev char (c : Char) : Byte := BitVec.ofNat 8 c.toNat

/-- The bits of `flags`: `LONGFLAG` to `BLANKPOSFLAG`. -/
structure Flags where
  long : Bool := false
  longlong : Bool := false
  half : Bool := false
  halfhalf : Bool := false
  sizet : Bool := false
  intmax : Bool := false
  ptrdiff : Bool := false
  alt : Bool := false
  caps : Bool := false
  showsign : Bool := false
  signed : Bool := false
  leftformat : Bool := false
  leadzero : Bool := false
  blankpos : Bool := false
  deriving DecidableEq

/-- What a directive has said so far. -/
structure Format where
  flags : Flags := {}
  formatNum : Word := 0#32
  deriving DecidableEq

/-- A loop over the bytes of a string that has not ended after one round of the address space never does. -/
def byteLimit : Nat := 2^32

/-! ### Numbers -/

/-- More than the digits of any 64-bit number. -/
def digitLimit : Nat := 64

/-- The loop of `longlong_to_string`, from the position `pos` down. -/
def decimalLoop (buf : Memory) (pos : Word) (n : BitVec 64) : Nat → Memory × Word × BitVec 64
  | 0 => (buf, pos, n)
  | fuel + 1 =>
    if n ≥ 10#64 then
      let digit := n % 10#64
      let n := n / 10#64
      let pos := pos - 1#32
      decimalLoop (buf.store8 pos (digit.setWidth 8 + char '0')) pos n fuel
    else (buf, pos, n)

/-- The buffer afterwards, where the string starts in it, and `*signchar`. -/
def longlongToString (buf : Memory) (n : BitVec 64) (len : Word) (flag : Flags) : Memory × Word × Byte :=
  let negative := flag.signed && decide (n.toInt < 0)
  let n := if negative then -n else n
  let pos := len - 1#32
  let buf := buf.store8 pos 0#8
  let (buf, pos, n) := decimalLoop buf pos n digitLimit
  let pos := pos - 1#32
  let buf := buf.store8 pos (n.setWidth 8 + char '0')
  let signchar :=
    if negative then char '-'
    else if flag.showsign then char '+'
    else if flag.blankpos then char ' '
    else 0#8
  (buf, pos, signchar)

def hextable : List Byte := "0123456789abcdef".toList.map char
def hextableCaps : List Byte := "0123456789ABCDEF".toList.map char

/-- The loop of `longlong_to_hexstring`, which stores a digit before it tests. -/
def hexLoop (table : List Byte) (buf : Memory) (pos : Word) (u : BitVec 64) : Nat → Memory × Word
  | 0 => (buf, pos)
  | fuel + 1 =>
    let digit := (u % 16#64).toNat
    let u := u / 16#64
    let pos := pos - 1#32
    let buf := buf.store8 pos (table.getD digit 0#8)
    if u ≠ 0#64 then hexLoop table buf pos u fuel else (buf, pos)

def longlongToHexstring (buf : Memory) (u : BitVec 64) (len : Word) (flag : Flags) : Memory × Word :=
  let table := if flag.caps then hextableCaps else hextable
  let pos := len - 1#32
  let buf := buf.store8 pos 0#8
  hexLoop table buf pos u digitLimit

/-! ### Strings and arguments -/

def strlenLoop (m : Memory) (s : Word) : Nat → Word → Option Word
  | 0, _ => none
  | fuel + 1, i => if m (s + i) ≠ 0#8 then strlenLoop m s fuel (i + 1#32) else some i

def strlen (m : Memory) (s : Word) : Option Word := strlenLoop m s byteLimit 0#32

def stringAt (m : Memory) (s : Word) : Option (List Byte) := do
  let stringLen ← strlen m s
  return m.loadBytes s stringLen.toNat

/-- `va_arg` at a 32-bit type. -/
def vaArg32 (m : Memory) (ap : Word) : Word × Word := (m.load32 ap, ap + 4#32)

/-- `va_arg` at a 64-bit type. -/
def vaArg64 (m : Memory) (ap : Word) : BitVec 64 × Word := (m.load32 (ap + 4#32) ++ m.load32 ap, ap + 8#32)

def signedArg (m : Memory) (ap : Word) (flags : Flags) : BitVec 64 × Word :=
  if flags.longlong then vaArg64 m ap
  else if flags.long then ((vaArg32 m ap).1.signExtend 64, (vaArg32 m ap).2)
  else if flags.halfhalf then (((vaArg32 m ap).1.setWidth 8).signExtend 64, (vaArg32 m ap).2)
  else if flags.half then (((vaArg32 m ap).1.setWidth 16).signExtend 64, (vaArg32 m ap).2)
  else if flags.sizet then ((vaArg32 m ap).1.signExtend 64, (vaArg32 m ap).2)
  else if flags.intmax then vaArg64 m ap
  else if flags.ptrdiff then ((vaArg32 m ap).1.signExtend 64, (vaArg32 m ap).2)
  else ((vaArg32 m ap).1.signExtend 64, (vaArg32 m ap).2)

def unsignedArg (m : Memory) (ap : Word) (flags : Flags) : BitVec 64 × Word :=
  if flags.longlong then vaArg64 m ap
  else if flags.long then ((vaArg32 m ap).1.setWidth 64, (vaArg32 m ap).2)
  else if flags.halfhalf then (((vaArg32 m ap).1.setWidth 8).setWidth 64, (vaArg32 m ap).2)
  else if flags.half then (((vaArg32 m ap).1.setWidth 16).setWidth 64, (vaArg32 m ap).2)
  else if flags.sizet then ((vaArg32 m ap).1.setWidth 64, (vaArg32 m ap).2)
  else if flags.intmax then vaArg64 m ap
  else if flags.ptrdiff then ((vaArg32 m ap).1.setWidth 64, (vaArg32 m ap).2)
  else ((vaArg32 m ap).1.setWidth 64, (vaArg32 m ap).2)

def stringArg (m : Memory) (s : Word) : Option (List Byte) :=
  if s = 0#32 then some ("<null>".toList.map char) else stringAt m s

/-! ### Output -/

/-- A `_printf_engine_output_func`: the returned `int` and the state afterwards. -/
abbrev Out (σ : Type) := σ → List Byte → Word × σ

/-- The engine's variables that last, and the state of the output function. -/
structure Run (σ : Type) where
  mem : Memory
  ap : Word
  err : Word
  charsWritten : Word
  state : σ

section Output

variable {σ : Type} (out : Out σ)

/-- `OUTPUT_STRING`; an error is the `goto exit`. -/
def outputString (r : Run σ) (s : List Byte) : Except (Run σ) (Run σ) :=
  let (err, state) := out r.state s
  let r := { r with err, state }
  if err.toInt < 0 then .error r else .ok { r with charsWritten := r.charsWritten + err }

/-- `OUTPUT_CHAR` for each byte. -/
def outputChars (r : Run σ) : List Byte → Except (Run σ) (Run σ)
  | [] => .ok r
  | c :: cs => do
    let r ← outputString out r [c]
    outputChars r cs

/-- `for (; format_num > written; format_num--)` -/
def outputPadding (c : Byte) (written : Word) (r : Run σ) : Nat → Except (Run σ) (Run σ)
  | 0 => .ok r
  | formatNum + 1 =>
    if formatNum + 1 > written.toNat then do
      let r ← outputString out r [c]
      outputPadding c written r formatNum
    else .ok r

/-- The label `_output_string`. -/
def outputText (flags : Flags) (formatNum : Word) (signchar : Byte) (r : Run σ) (s : List Byte) : Except (Run σ) (Run σ) :=
  let stringLen := BitVec.ofNat 32 s.length
  if flags.leftformat then do
    let r ← outputString out r s
    outputPadding out (char ' ') r.err r formatNum.toNat
  else do
    let formatNum := if signchar ≠ 0#8 ∧ formatNum > 0#32 then formatNum - 1#32 else formatNum
    let r ← outputChars out r (if flags.leadzero ∧ signchar ≠ 0#8 then [signchar] else [])
    let r ← outputPadding out (if flags.leadzero then char '0' else char ' ') stringLen r formatNum.toNat
    let r ← outputChars out r (if ¬ flags.leadzero ∧ signchar ≠ 0#8 then [signchar] else [])
    outputString out r s

def storeCount (m : Memory) (ptr : Word) (flags : Flags) (charsWritten : Word) : Memory :=
  if flags.longlong then (m.store32 ptr charsWritten).store32 (ptr + 4#32) 0#32
  else if flags.long then m.store32 ptr charsWritten
  else if flags.halfhalf then m.store8 ptr (charsWritten.setWidth 8)
  else if flags.half then m.store16 ptr (charsWritten.setWidth 16)
  else if flags.sizet then m.store32 ptr charsWritten
  else m.store32 ptr charsWritten

end Output

/-! ### Directives -/

/-- What a conversion character leads to. -/
inductive Action where
  | chars (s : List Byte)
  | text (leading s : List Byte) (signchar : Byte) (flags : Flags)
  | count (ptr : Word)

/-- The cases of the `switch` that go to `next_format`. -/
def modifier (c : Byte) (f : Format) : Option Format :=
  if char '0' ≤ c ∧ c ≤ char '9' then
    let flags := if c = char '0' ∧ f.formatNum = 0#32 then { f.flags with leadzero := true } else f.flags
    some ⟨flags, f.formatNum * 10#32 + (c - char '0').setWidth 32⟩
  else if c = char '.' then some f
  else if c = char '-' then some { f with flags := { f.flags with leftformat := true } }
  else if c = char '+' then some { f with flags := { f.flags with showsign := true } }
  else if c = char ' ' then some { f with flags := { f.flags with blankpos := true } }
  else if c = char '#' then some { f with flags := { f.flags with alt := true } }
  else if c = char 'l' then
    some { f with flags := { f.flags with longlong := f.flags.longlong || f.flags.long, long := true } }
  else if c = char 'h' then
    some { f with flags := { f.flags with halfhalf := f.flags.halfhalf || f.flags.half, half := true } }
  else if c = char 'z' then some { f with flags := { f.flags with sizet := true } }
  else if c = char 'j' then some { f with flags := { f.flags with intmax := true } }
  else if c = char 't' then some { f with flags := { f.flags with ptrdiff := true } }
  else none

/-- From the label `next_format` to a character that ends the directive. -/
def nextFormat (m : Memory) : Nat → Word → Format → Option (Byte × Word × Format)
  | 0, _, _ => none
  | fuel + 1, fmt, f =>
    let c := m fmt
    let fmt := fmt + 1#32
    match modifier c f with
    | some f => nextFormat m fuel fmt f
    | none => some (c, fmt, f)

/-- `num_buffer`, whose first contents do not matter. -/
def numBuffer : Memory := fun _ => 0#8

def sizeofNumBuffer : Word := 32#32

/-- `%d` and `%i` -/
def decimalAction (n : BitVec 64) (flags : Flags) : Option Action := do
  let (buf, s, signchar) := longlongToString numBuffer n sizeofNumBuffer flags
  let s ← stringAt buf s
  return .text [] s signchar flags

def hexAction (n : BitVec 64) (flags : Flags) : Option Action := do
  let (buf, s) := longlongToHexstring numBuffer n sizeofNumBuffer flags
  let s ← stringAt buf s
  let leading := if flags.alt then [char '0', if flags.caps then char 'X' else char 'x'] else []
  return .text leading s 0#8 flags

/-- The cases of the `switch` that end the directive: what to output, and the arguments left. -/
def fetch (m : Memory) (ap : Word) (c : Byte) (flags : Flags) : Option (Action × Word) :=
  if c = char '%' then some (.chars [char '%'], ap)
  else if c = char 'c' then some (.chars [(vaArg32 m ap).1.setWidth 8], (vaArg32 m ap).2)
  else if c = char 's' then do
    let s ← stringArg m (vaArg32 m ap).1
    return (.text [] s 0#8 { flags with leadzero := false }, (vaArg32 m ap).2)
  else if c = char 'i' ∨ c = char 'd' then do
    let flags' := { flags with signed := true }
    let action ← decimalAction (signedArg m ap flags).1 flags'
    return (action, (signedArg m ap flags).2)
  else if c = char 'u' then do
    let action ← decimalAction (unsignedArg m ap flags).1 flags
    return (action, (unsignedArg m ap flags).2)
  else if c = char 'p' then do
    let flags := { flags with long := true, alt := true }
    let action ← hexAction (unsignedArg m ap flags).1 flags
    return (action, (unsignedArg m ap flags).2)
  else if c = char 'X' then do
    let flags := { flags with caps := true }
    let action ← hexAction (unsignedArg m ap flags).1 flags
    return (action, (unsignedArg m ap flags).2)
  else if c = char 'x' then do
    let action ← hexAction (unsignedArg m ap flags).1 flags
    return (action, (unsignedArg m ap flags).2)
  else if c = char 'n' then some (.count (vaArg32 m ap).1, (vaArg32 m ap).2)
  else some (.chars [char '%', c], ap)

section Engine

variable {σ : Type} (out : Out σ)

def perform (f : Format) (r : Run σ) : Action → Except (Run σ) (Run σ)
  | .chars s => outputChars out r s
  | .text leading s signchar flags => do
    let r ← outputChars out r leading
    outputText out flags f.formatNum signchar r s
  | .count ptr => .ok { r with mem := storeCount r.mem ptr f.flags r.charsWritten }

/-- How a turn of the engine's loop ends. -/
inductive Flow (σ : Type) where
  | exit (r : Run σ)
  | next (fmt : Word) (r : Run σ)

/-- The engine's loop from the label `next_format`, after a `%`. -/
def directive (fmt : Word) (r : Run σ) : Option (Flow σ) := do
  let (c, fmt, f) ← nextFormat r.mem byteLimit fmt {}
  if c = 0#8 then return .exit r
  else
    let (action, ap) ← fetch r.mem r.ap c f.flags
    match perform out f { r with ap } action with
    | .error r => return .exit r
    | .ok r => return .next fmt r

/-- The loop over the characters that are not format related. -/
def literalLoop (m : Memory) : Nat → Word → Word → Option (Byte × Word × Word)
  | 0, _, _ => none
  | fuel + 1, fmt, stringLen =>
    let c := m fmt
    let fmt := fmt + 1#32
    if c ≠ 0#8 then
      if c = char '%' then some (c, fmt, stringLen) else literalLoop m fuel fmt (stringLen + 1#32)
    else some (c, fmt, stringLen)

def engineLoop : Nat → Word → Run σ → Option (Run σ)
  | 0, _, _ => none
  | fuel + 1, fmt, r => do
    let (c, after, stringLen) ← literalLoop r.mem byteLimit fmt 0#32
    match outputString out r (r.mem.loadBytes fmt stringLen.toNat) with
    | .error r => return r
    | .ok r =>
      if c = 0#8 then return r
      else
        match ← directive out after r with
        | .exit r => return r
        | .next fmt r => engineLoop fuel fmt r

/-- The label `exit`. -/
def Run.result (r : Run σ) : Word := if r.err.toInt < 0 then r.err else r.charsWritten

/-- The returned `int` and how the engine leaves things. -/
def printfEngine (state : σ) (m : Memory) (fmt ap : Word) : Option (Word × Run σ) := do
  let r ← engineLoop out byteLimit fmt ⟨m, ap, 0#32, 0#32, state⟩
  return (r.result, r)

end Engine

end ThreeX86.Printf
