import ThreeX86.Boot.Makeflop

/-!
The copy loop of `makeflop.c` over any sequence of results of `read`, which need not end.
-/

namespace ThreeX86.Boot

open Machine

/-- Where the copy loop is: before a `read`, at the end of the payload, or at its error exit. -/
inductive Copy where
  | copying (out : Output) (writtenBytes : Nat) (buf : List Byte)
  | copied (out : Output) (writtenBytes : Nat)
  | failed (out : Output)

section

variable (host : Host) (options : Options) (read : Nat → ReadResult)

/-- One turn of the copy loop. `read_size` is unsigned, and `buf` keeps what an earlier read left. -/
def turn (result : ReadResult) : Copy → Copy
  | .copying out writtenBytes buf =>
    let (readSize, buf) := match result with
      | .data bytes => (bytes.length, bytes ++ buf.drop bytes.length)
      | .eof => (0, buf)
      | .error => (2^64 - 1, buf)
    if readSize > 0 then
      let (written, out) := writeOut host out buf readSize
      if toSize written ≠ readSize then .failed out
      else .copying out ((writtenBytes + toSize written) % 2^64) buf
    else .copied out writtenBytes
  | left => left

def copyLoop (start : Copy) : Nat → Copy
  | 0 => start
  | n + 1 => turn host (read n) (copyLoop start n)

/-- What follows the copy loop, if it has ended. -/
def finish : Copy → Option (Int × Output)
  | .copying _ _ _ => none
  | .copied out writtenBytes =>
    match pad host out writtenBytes options.padding with
    | (false, out) => some (1, out)
    | (true, out) => some (0, out)
  | .failed out => some (1, out)

/-- `main` up to its first `write`: the patched boot block. -/
def prepare : Option (List Byte) :=
  match host.stat with
  | none => none
  | some size =>
    if ¬ host.openOutput then none
    else if ¬ host.openBootblock then none
    else if host.bootblock.length < 1024 ∨ host.bootblockSize ≠ 1024 then none
    else
      let bootsector := patchSize host.bootblock size
      some (if options.enableVesa then patchVesa options bootsector else bootsector)

/-- `main` up to the copy loop, or its exit before. -/
def beginCopy : Except (Int × Output) Copy :=
  match prepare host options with
  | none => .error (-1, ⟨[], []⟩)
  | some bootsector =>
    let (written, out) := writeOut host ⟨[], []⟩ bootsector 1024
    if toSize written ≠ 1024 then .error (1, out)
    else if ¬ host.openPayload then .error (-1, out)
    else .ok (.copying out (toSize written) [])

/-- The exit status of `main` and the output file, if it takes no more than `n` turns of its copy loop. -/
def makeflopTurns (n : Nat) : Option (Int × Output) :=
  match beginCopy host options with
  | .error exit => some exit
  | .ok start => finish host options (copyLoop host read start n)

end

/-! ### What it is for -/

def ReadResult.bytes : ReadResult → List Byte
  | .data bytes => bytes
  | _ => []

/-- What the first `n` reads delivered. -/
def payload (read : Nat → ReadResult) (n : Nat) : List Byte := (List.range n).flatMap fun i => (read i).bytes

def Copy.writes : Copy → List Nat
  | .copying out _ _ => out.writes
  | .copied out _ => out.writes
  | .failed out => out.writes

/-- The results that `read`, `write` and `atoi` have. -/
structure Valid (host : Host) (options : Options) (read : Nat → ReadResult) : Prop where
  read : ∀ n bytes, read n = .data bytes → 1 ≤ bytes.length ∧ bytes.length ≤ 512
  write : ∀ calls count, -1 ≤ host.write calls count ∧ host.write calls count ≤ count
  padding : options.padding < 2^31

/-- Every write so far took all it was asked for. -/
def Output.Complete (host : Host) (out : Output) : Prop := ∀ i count, out.writes[i]? = some count → host.write i count = count

/-- The payload is copied whole, or the exit status says so. -/
structure CopiesPayload (host : Host) (options : Options) (read : Nat → ReadResult) : Prop where
  /-- No write is asked for more than the read before it delivered. -/
  asked : ∀ start n count, beginCopy host options = .ok start →
    (copyLoop host read start (n + 1)).writes = (copyLoop host read start n).writes ++ [count] →
      count ≤ (read n).bytes.length
  /-- With status 0, every call did all it was asked for, and the image is complete. -/
  exits : ∀ n out, makeflopTurns host options read n = some (0, out) → ∃ boot k, prepare host options = some boot ∧
    (∀ i < k, ∃ bytes, read i = .data bytes) ∧ read k = .eof ∧
    out.image = boot.take 1024 ++ payload read k ++ List.replicate (padding options (1024 + (payload read k).length)) 0#8 ∧
    out.Complete host
  /-- A read that fails leads to another status. -/
  fails : ∀ start n out writtenBytes buf, beginCopy host options = .ok start →
    copyLoop host read start n = .copying out writtenBytes buf → read n = .error →
      ∃ m status out, makeflopTurns host options read m = some (status, out) ∧ status ≠ 0

/-- Every call up to the copy loop succeeds. -/
structure Begins (host : Host) : Prop where
  stat : host.stat ≠ none
  openOutput : host.openOutput = true
  openBootblock : host.openBootblock = true
  bootblock : 1024 ≤ host.bootblock.length
  bootblockSize : host.bootblockSize = 1024
  write : host.write 0 1024 = 1024
  openPayload : host.openPayload = true

/-- The first `n` reads deliver data and the writes of it take it all. -/
def CopiedUpTo (host : Host) (read : Nat → ReadResult) (n : Nat) : Prop :=
  ∀ i < n, ∃ bytes, read i = .data bytes ∧ host.write (i + 1) bytes.length = bytes.length

/-- The padding for the byte count modulo `2^64` is that for the byte count, or it cannot be written anyway. -/
def CountHolds (host : Host) (options : Options) (read : Nat → ReadResult) (n : Nat) : Prop :=
  let size := 1024 + (payload read n).length
  let towrite := padding options (size % 2^64)
  towrite = padding options size ∨ (towrite ≠ 0 ∧ host.write (n + 1) towrite ≠ towrite)

section

variable {host : Host} {options : Options} {read : Nat → ReadResult} {n k : Nat} {start : Copy} {boot buf : List Byte} {out : Output}

theorem toSize_iff {r : Int} (low : -1 ≤ r) (high : r ≤ n) (small : n < 2^64 - 1) : toSize r = n ↔ r = n := by
  unfold toSize
  omega

theorem patchVesa_length (options : Options) (bootsector : List Byte) :
    (patchVesa options bootsector).length = bootsector.length := by
  simp [patchVesa]

theorem prepare_some (prepared : prepare host options = some boot) : host.stat ≠ none ∧ host.openOutput = true ∧
    host.openBootblock = true ∧ 1024 ≤ host.bootblock.length ∧ host.bootblockSize = 1024 ∧
    boot.length = host.bootblock.length := by
  unfold prepare at prepared
  cases stat : host.stat with
  | none =>
    rw [stat] at prepared
    cases prepared
  | some size =>
    rw [stat] at prepared
    dsimp only at prepared
    split_ifs at prepared with output bootblock sizes vesa
    · cases prepared
      refine ⟨Option.some_ne_none size, by simpa using output, by simpa using bootblock, by omega, by omega, ?_⟩
      rw [patchVesa_length, patchSize_length]
    · cases prepared
      exact ⟨Option.some_ne_none size, by simpa using output, by simpa using bootblock, by omega, by omega, patchSize_length _ _⟩

theorem Begins.prepare (begins : Begins host) (options : Options) : ∃ boot, Boot.prepare host options = some boot := by
  unfold Boot.prepare
  cases stat : host.stat with
  | none => exact absurd stat begins.stat
  | some size =>
    have sizes := begins.bootblock
    dsimp only
    rw [if_neg (by simp [begins.openOutput]), if_neg (by simp [begins.openBootblock]), if_neg (by simp [begins.bootblockSize]; omega)]
    exact ⟨_, rfl⟩

theorem beginCopy_full (prepared : prepare host options = some boot) (write : host.write 0 1024 = 1024)
    (openPayload : host.openPayload = true) :
    beginCopy host options = .ok (.copying ⟨boot.take 1024, [1024]⟩ 1024 []) := by
  obtain ⟨-, -, -, long, -, length⟩ := prepare_some prepared
  have first : writeOut host ⟨[], []⟩ boot 1024 = ((1024 : Int), ⟨boot.take 1024, [1024]⟩) :=
    writeOut_full write (by omega)
  have all : toSize 1024 = 1024 := rfl
  unfold beginCopy
  rw [prepared]
  dsimp only
  rw [first]
  dsimp only
  rw [all, if_neg (fun other => other rfl), if_neg (by simp [openPayload])]

theorem beginCopy_error (out : Output) : beginCopy host options ≠ .error (0, out) := by
  intro early
  unfold beginCopy at early
  cases prepared : prepare host options with
  | none =>
    rw [prepared] at early
    cases early
  | some boot =>
    rw [prepared] at early
    dsimp only at early
    split_ifs at early
    · injection early with exit
      exact absurd (congrArg Prod.fst exit) (show ¬ (1 : Int) = 0 by decide)
    · injection early with exit
      exact absurd (congrArg Prod.fst exit) (show ¬ (-1 : Int) = 0 by decide)

theorem beginCopy_ok (valid : Valid host options read) (begun : beginCopy host options = .ok start) :
    Begins host ∧ ∃ boot, prepare host options = some boot ∧ start = .copying ⟨boot.take 1024, [1024]⟩ 1024 [] := by
  have unfolded := begun
  unfold beginCopy at unfolded
  cases prepared : prepare host options with
  | none =>
    rw [prepared] at unfolded
    cases unfolded
  | some boot =>
    rw [prepared] at unfolded
    dsimp only at unfolded
    split_ifs at unfolded with short payload
    have range := valid.write 0 1024
    have write : host.write 0 1024 = 1024 := (toSize_iff range.1 range.2 (by decide)).mp (by simpa [writeOut] using short)
    have openPayload : host.openPayload = true := by simpa using payload
    obtain ⟨stat, openOutput, openBootblock, long, size, -⟩ := prepare_some prepared
    rw [beginCopy_full prepared write openPayload] at begun
    cases begun
    exact ⟨⟨stat, openOutput, openBootblock, long, size, write, openPayload⟩, boot, rfl, rfl⟩

/-! ### The loop -/

theorem payload_succ (read : Nat → ReadResult) (n : Nat) : payload read (n + 1) = payload read n ++ (read n).bytes := by
  unfold payload
  rw [List.range_succ, List.flatMap_append, List.flatMap_singleton]

def sizes (read : Nat → ReadResult) (n : Nat) : List Nat := (List.range n).map fun i => (read i).bytes.length

theorem sizes_succ (read : Nat → ReadResult) (n : Nat) : sizes read (n + 1) = sizes read n ++ [(read n).bytes.length] := by
  unfold sizes
  rw [List.range_succ, List.map_append, List.map_singleton]

theorem CopiedUpTo.before (copied : CopiedUpTo host read (n + 1)) : CopiedUpTo host read n :=
  fun i small => copied i (Nat.lt_succ_of_lt small)

/-- The output file after the first `n` reads, if all of them were copied. -/
def copiedOut (boot : List Byte) (read : Nat → ReadResult) (n : Nat) : Output :=
  ⟨boot.take 1024 ++ payload read n, 1024 :: sizes read n⟩

/-- `written_bytes` then. -/
def writtenBytes (read : Nat → ReadResult) (n : Nat) : Nat := (1024 + (payload read n).length) % 2^64

theorem copiedOut_calls (boot : List Byte) (read : Nat → ReadResult) (n : Nat) : (copiedOut boot read n).writes.length = n + 1 := by
  simp [copiedOut, sizes]

theorem copiedOut_succ {bytes : List Byte} (data : read n = .data bytes) : copiedOut boot read (n + 1) =
    ⟨(copiedOut boot read n).image ++ bytes, (copiedOut boot read n).writes ++ [bytes.length]⟩ := by
  unfold copiedOut
  rw [payload_succ, sizes_succ, data, List.append_assoc]
  rfl

theorem writtenBytes_succ {bytes : List Byte} (data : read n = .data bytes) :
    writtenBytes read (n + 1) = (writtenBytes read n + bytes.length) % 2^64 := by
  unfold writtenBytes
  rw [payload_succ, data, List.length_append, show (ReadResult.data bytes).bytes = bytes from rfl]
  omega

theorem turn_data (boot buf : List Byte) {bytes : List Byte} (data : read n = .data bytes) (size : 1 ≤ bytes.length) (small : bytes.length ≤ 512)
    (range : -1 ≤ host.write (n + 1) bytes.length ∧ host.write (n + 1) bytes.length ≤ bytes.length) :
    (host.write (n + 1) bytes.length = bytes.length ∧ ∃ buf', turn host (read n)
        (.copying (copiedOut boot read n) (writtenBytes read n) buf) =
          .copying (copiedOut boot read (n + 1)) (writtenBytes read (n + 1)) buf') ∨
      (host.write (n + 1) bytes.length ≠ bytes.length ∧ ∃ out, turn host (read n)
        (.copying (copiedOut boot read n) (writtenBytes read n) buf) = .failed out ∧
          out.writes = (copiedOut boot read n).writes ++ [bytes.length]) := by
  have calls := copiedOut_calls boot read n
  have step : turn host (read n) (.copying (copiedOut boot read n) (writtenBytes read n) buf) =
      (let (written, out) := writeOut host (copiedOut boot read n) (bytes ++ buf.drop bytes.length) bytes.length
       if toSize written ≠ bytes.length then .failed out
       else .copying out ((writtenBytes read n + toSize written) % 2^64) (bytes ++ buf.drop bytes.length)) := by
    rw [data]
    unfold turn
    dsimp only
    rw [if_pos (by omega)]
  by_cases full : host.write (n + 1) bytes.length = bytes.length
  · left
    refine ⟨full, bytes ++ buf.drop bytes.length, ?_⟩
    have written := toSize_ofNat (n := bytes.length) (by omega)
    rw [step, writeOut_full (by rw [calls, full]) (by simp)]
    dsimp only
    rw [written, if_neg (fun other => other rfl), copiedOut_succ data, writtenBytes_succ data, List.take_left]
  · right
    have written : ¬ toSize (host.write (n + 1) bytes.length) = bytes.length :=
      fun same => full ((toSize_iff range.1 range.2 (by omega)).mp same)
    rw [step]
    unfold writeOut
    rw [calls]
    dsimp only
    rw [if_pos written]
    exact ⟨full, _, rfl, rfl⟩

theorem turn_eof (eof : read n = .eof) (writtenBytes : Nat) :
    turn host (read n) (.copying out writtenBytes buf) = .copied out writtenBytes := by
  rw [eof]
  rfl

/-- A failed read leaves `SIZE_MAX` in `read_size`, and so many bytes the loop asks `write` for. -/
theorem turn_error (error : read n = .error) (writtenBytes : Nat) :
    (turn host (read n) (.copying out writtenBytes buf)).writes = out.writes ++ [2^64 - 1] := by
  rw [error]
  unfold turn
  dsimp only
  rw [if_pos (by decide)]
  unfold writeOut
  dsimp only
  split_ifs
  · rfl
  · rfl

/-- The loop before read `n`, if it has met no read error. -/
inductive Reached (host : Host) (read : Nat → ReadResult) (boot : List Byte) (n : Nat) : Copy → Prop where
  | copying (buf : List Byte) (copied : CopiedUpTo host read n) :
      Reached host read boot n (.copying (copiedOut boot read n) (writtenBytes read n) buf)
  | copied (k : Nat) (before : k < n) (copied : CopiedUpTo host read k) (eof : read k = .eof) :
      Reached host read boot n (.copied (copiedOut boot read k) (writtenBytes read k))
  | failed (out : Output) : Reached host read boot n (.failed out)

theorem Reached.turn (valid : Valid host options read) (noError : CopiedUpTo host read n → read n ≠ .error) {copy : Copy}
    (reached : Reached host read boot n copy) : Reached host read boot (n + 1) (turn host (read n) copy) := by
  cases reached with
  | copying buf copied =>
    cases result : read n with
    | data bytes =>
      obtain ⟨size, small⟩ := valid.read n bytes result
      rw [← result]
      rcases turn_data boot buf result size small (valid.write _ _) with ⟨full, buf', step⟩ | ⟨-, out, step, -⟩
      · rw [step]
        apply Reached.copying
        intro i small
        by_cases last : i = n
        · subst last
          exact ⟨bytes, result, full⟩
        · exact copied i (by omega)
      · rw [step]
        exact .failed out
    | eof =>
      rw [← result, turn_eof result]
      exact .copied n (Nat.lt_succ_self n) copied result
    | error => exact absurd result (noError copied)
  | copied k before copied eof => exact .copied k (Nat.lt_succ_of_lt before) copied eof
  | failed out => exact .failed out

theorem Reached.copyLoop (boot : List Byte) (valid : Valid host options read) (noError : ∀ n, CopiedUpTo host read n → read n ≠ .error) (n : Nat) :
    Reached host read boot n (copyLoop host read (.copying ⟨boot.take 1024, [1024]⟩ 1024 []) n) := by
  induction n with
  | zero =>
    have start : Reached host read boot 0 _ := .copying [] fun i small => absurd small (Nat.not_lt_zero i)
    simpa [Boot.copyLoop, copiedOut, writtenBytes, payload, sizes] using start
  | succ n ih => exact ih.turn valid (noError n)

theorem copyLoop_copied (boot : List Byte) (valid : Valid host options read) (copied : CopiedUpTo host read n) : ∃ buf,
    copyLoop host read (.copying ⟨boot.take 1024, [1024]⟩ 1024 []) n = .copying (copiedOut boot read n) (writtenBytes read n) buf := by
  induction n with
  | zero => exact ⟨[], by simp [copyLoop, copiedOut, writtenBytes, payload, sizes]⟩
  | succ n ih =>
    obtain ⟨buf, reached⟩ := ih copied.before
    obtain ⟨bytes, data, full⟩ := copied n (Nat.lt_succ_self n)
    obtain ⟨size, small⟩ := valid.read n bytes data
    rcases turn_data boot buf data size small (valid.write _ _) with ⟨-, next⟩ | ⟨short, -⟩
    · unfold copyLoop
      rw [reached]
      exact next
    · exact absurd full short

/-! ### The padding -/

theorem pad_none (none : padding options n = 0) : pad host out n options.padding = (true, out) := by
  unfold padding at none
  unfold pad
  split_ifs at none with more
  · have rest := Nat.mod_lt n (Nat.pos_of_ne_zero more.1)
    omega
  · rw [if_neg more]

theorem pad_some (some : padding options n ≠ 0) : pad host out n options.padding =
    (let (written, out) := writeOut host out (List.replicate (padding options n) 0#8) (padding options n)
     (toSize written = padding options n, out)) := by
  unfold padding at some ⊢
  unfold pad
  split_ifs at some ⊢ with more
  · rfl
  · exact absurd rfl some

theorem padding_small (small : options.padding < 2^31) (n : Nat) : padding options n < 2^31 := by
  unfold padding
  split_ifs with more
  · omega
  · decide

theorem Output.Complete.append (complete : out.Complete host) (full : host.write out.writes.length n = n) (image : List Byte) :
    Complete host ⟨image, out.writes ++ [n]⟩ := by
  intro i count at_i
  dsimp only at at_i
  rw [List.getElem?_append] at at_i
  split_ifs at at_i with before
  · exact complete i count at_i
  · by_cases last : i = out.writes.length
    · subst last
      rw [Nat.sub_self] at at_i
      cases at_i
      exact full
    · rw [List.getElem?_eq_none (by simp; omega)] at at_i
      cases at_i

theorem copiedOut_complete (boot : List Byte) (first : host.write 0 1024 = 1024) (copied : CopiedUpTo host read n) :
    (copiedOut boot read n).Complete host := by
  induction n with
  | zero =>
    intro i count at_i
    cases i with
    | zero =>
      cases at_i
      exact first
    | succ i => cases at_i
  | succ n ih =>
    obtain ⟨bytes, data, full⟩ := copied n (Nat.lt_succ_self n)
    rw [copiedOut_succ data]
    apply (ih copied.before).append
    rw [copiedOut_calls]
    exact full

/-- The padding that is written in full, or none. -/
theorem pad_written (valid : Valid host options read) (complete : out.Complete host)
    (whole : padding options n = 0 ∨ host.write out.writes.length (padding options n) = padding options n) :
    ∃ out', pad host out n options.padding = (true, out') ∧
      out'.image = out.image ++ List.replicate (padding options n) 0#8 ∧ out'.Complete host := by
  by_cases none : padding options n = 0
  · rw [pad_none none, none]
    exact ⟨out, rfl, (List.append_nil _).symm, complete⟩
  · have full := whole.resolve_left none
    have small := padding_small valid.padding n
    have written : toSize (padding options n) = padding options n := toSize_ofNat (by omega)
    rw [pad_some none, writeOut_full full (by simp)]
    dsimp only
    rw [decide_eq_true written, List.take_of_length_le (by simp)]
    exact ⟨_, rfl, rfl, complete.append full _⟩

theorem pad_short (valid : Valid host options read) (some : padding options n ≠ 0)
    (short : host.write out.writes.length (padding options n) ≠ padding options n) :
    ∃ out', pad host out n options.padding = (false, out') := by
  have range := valid.write out.writes.length (padding options n)
  have small := padding_small valid.padding n
  have written : ¬ toSize (host.write out.writes.length (padding options n)) = padding options n :=
    fun same => short ((toSize_iff range.1 range.2 (by omega)).mp same)
  rw [pad_some some]
  unfold writeOut
  dsimp only
  rw [decide_eq_false written]
  exact ⟨_, rfl⟩

theorem finish_copied (boot : List Byte) (valid : Valid host options read) (first : host.write 0 1024 = 1024) (copied : CopiedUpTo host read k)
    (whole : padding options (writtenBytes read k) = 0 ∨
      host.write (k + 1) (padding options (writtenBytes read k)) = padding options (writtenBytes read k)) :
    ∃ out, finish host options (.copied (copiedOut boot read k) (writtenBytes read k)) = some (0, out) ∧
      out.image = boot.take 1024 ++ payload read k ++ List.replicate (padding options (writtenBytes read k)) 0#8 ∧
      out.Complete host := by
  rw [← copiedOut_calls boot read k] at whole
  obtain ⟨out, padded, image, complete⟩ := pad_written valid (copiedOut_complete boot first copied) whole
  unfold finish
  dsimp only
  rw [padded]
  exact ⟨out, rfl, image, complete⟩

theorem finish_short (boot : List Byte) (valid : Valid host options read) (some_ : padding options (writtenBytes read k) ≠ 0)
    (short : host.write (k + 1) (padding options (writtenBytes read k)) ≠ padding options (writtenBytes read k)) :
    ∃ out, finish host options (.copied (copiedOut boot read k) (writtenBytes read k)) = some (1, out) := by
  rw [← copiedOut_calls boot read k] at short
  obtain ⟨out, padded⟩ := pad_short valid some_ short
  unfold finish
  dsimp only
  rw [padded]
  exact ⟨out, rfl⟩

/-! ### The result -/

theorem eof_unique {m : Nat} (first : ∀ i < n, ∃ bytes, read i = .data bytes) (last : read n = .eof)
    (other : ∀ i < m, ∃ bytes, read i = .data bytes) (stop : read m = .eof) : n = m := by
  rcases Nat.lt_trichotomy n m with less | same | more
  · obtain ⟨bytes, data⟩ := other n less
    rw [last] at data
    cases data
  · exact same
  · obtain ⟨bytes, data⟩ := first m more
    rw [stop] at data
    cases data

theorem CopiedUpTo.data (copied : CopiedUpTo host read n) : ∀ i < n, ∃ bytes, read i = .data bytes := by
  intro i small
  obtain ⟨bytes, data, -⟩ := copied i small
  exact ⟨bytes, data⟩

theorem makeflopTurns_ok (begun : beginCopy host options = .ok start) (n : Nat) :
    makeflopTurns host options read n = finish host options (copyLoop host read start n) := by
  unfold makeflopTurns
  rw [begun]

/-- A read error is no end: the loop asks `write` for more than there is. -/
theorem CopiesPayload.noError (copies : CopiesPayload host options read) (valid : Valid host options read) (begins : Begins host)
    (copied : CopiedUpTo host read n) : read n ≠ .error := by
  intro error
  obtain ⟨boot, prepared⟩ := begins.prepare options
  have begun := beginCopy_full prepared begins.write begins.openPayload
  obtain ⟨buf, reached⟩ := copyLoop_copied boot valid copied
  have asked : 2^64 - 1 ≤ (read n).bytes.length := by
    apply copies.asked _ n _ begun
    rw [copyLoop, reached]
    exact turn_error error _
  rw [error] at asked
  exact absurd asked (by decide)

theorem CopiesPayload.countHolds (copies : CopiesPayload host options read) (valid : Valid host options read) (begins : Begins host)
    (copied : CopiedUpTo host read n) (eof : read n = .eof) : CountHolds host options read n := by
  obtain ⟨boot, prepared⟩ := begins.prepare options
  have begun := beginCopy_full prepared begins.write begins.openPayload
  obtain ⟨buf, reached⟩ := copyLoop_copied boot valid copied
  by_contra wrong
  obtain ⟨other, written⟩ := not_or.mp wrong
  have ended : makeflopTurns host options read (n + 1) =
      finish host options (.copied (copiedOut boot read n) (writtenBytes read n)) := by
    rw [makeflopTurns_ok begun, copyLoop, reached, turn_eof eof]
  obtain ⟨out, finished, image, -⟩ := finish_copied boot valid begins.write copied
    (or_iff_not_imp_left.mpr fun some => not_not.mp fun short => written ⟨some, short⟩)
  rw [finished] at ended
  obtain ⟨boot', m, prepared', data, last, image', -⟩ := copies.exits _ _ ended
  rw [prepared] at prepared'
  cases prepared'
  have same := eof_unique data last copied.data eof
  subst same
  rw [image] at image'
  have counts := congrArg List.length (List.append_cancel_left image')
  simp only [List.length_replicate] at counts
  exact other counts

theorem copiesPayload_of (valid : Valid host options read)
    (holds : Begins host → ∀ n, CopiedUpTo host read n → read n ≠ .error ∧ (read n = .eof → CountHolds host options read n)) :
    CopiesPayload host options read where
  asked := by
    intro start n count begun writes
    obtain ⟨begins, boot, prepared, rfl⟩ := beginCopy_ok valid begun
    have reached := Reached.copyLoop boot valid (fun n copied => (holds begins n copied).1) n
    rw [copyLoop] at writes
    generalize copyLoop host read (.copying ⟨boot.take 1024, [1024]⟩ 1024 []) n = copy at reached writes
    cases reached with
    | copying buf copied =>
      cases result : read n with
      | data bytes =>
        obtain ⟨size, small⟩ := valid.read n bytes result
        rcases turn_data boot buf result size small (valid.write _ _) with ⟨-, buf', step⟩ | ⟨-, out, step, asked⟩
        · rw [step] at writes
          have counts : (copiedOut boot read (n + 1)).writes = (copiedOut boot read n).writes ++ [count] := writes
          rw [copiedOut_succ result] at counts
          cases List.append_cancel_left counts
          exact Nat.le_refl _
        · rw [step] at writes
          cases List.append_cancel_left (asked.symm.trans writes)
          exact Nat.le_refl _
      | eof =>
        rw [turn_eof result] at writes
        exact absurd writes (by simp [Copy.writes])
      | error => exact absurd result (holds begins n copied).1
    | copied k before copied eof => exact absurd writes (by simp [turn, Copy.writes])
    | failed out => exact absurd writes (by simp [turn, Copy.writes])
  exits := by
    intro n out exit
    unfold makeflopTurns at exit
    cases begun : beginCopy host options with
    | error early =>
      rw [begun] at exit
      cases exit
      exact absurd begun (beginCopy_error out)
    | ok start =>
      rw [begun] at exit
      obtain ⟨begins, boot, prepared, rfl⟩ := beginCopy_ok valid begun
      have reached := Reached.copyLoop boot valid (fun n copied => (holds begins n copied).1) n
      dsimp only at exit
      generalize copyLoop host read (.copying ⟨boot.take 1024, [1024]⟩ 1024 []) n = copy at reached exit
      cases reached with
      | copying buf copied => cases exit
      | failed out => cases exit
      | copied k before copied eof =>
        refine ⟨boot, k, prepared, copied.data, eof, ?_⟩
        rcases (holds begins k copied).2 eof with same | short
        · by_cases whole : padding options (writtenBytes read k) = 0 ∨
              host.write (k + 1) (padding options (writtenBytes read k)) = padding options (writtenBytes read k)
          · obtain ⟨out', finished, image, complete⟩ := finish_copied boot valid begins.write copied whole
            rw [exit] at finished
            cases finished
            rw [← same]
            exact ⟨image, complete⟩
          · obtain ⟨some_, short⟩ := not_or.mp whole
            obtain ⟨out', finished⟩ := finish_short boot valid some_ short
            rw [exit] at finished
            cases finished
        · obtain ⟨out', finished⟩ := finish_short boot valid short.1 short.2
          rw [exit] at finished
          cases finished
  fails := by
    intro start n out writtenBytes buf begun copying error
    obtain ⟨begins, boot, prepared, rfl⟩ := beginCopy_ok valid begun
    have reached := Reached.copyLoop boot valid (fun n copied => (holds begins n copied).1) n
    rw [copying] at reached
    cases reached with
    | copying buf copied => exact absurd error (holds begins n copied).1

/-- The payload is copied whole or the exit status says so, exactly if no `read` fails where the writes before have not,
    and the number of bytes, where it passes `2^64`, asks for the same padding as what is left of it. -/
theorem copies_payload_iff (valid : Valid host options read) : CopiesPayload host options read ↔
    (Begins host → ∀ n, CopiedUpTo host read n → read n ≠ .error ∧ (read n = .eof → CountHolds host options read n)) := by
  constructor
  · intro copies begins n copied
    exact ⟨copies.noError valid begins copied, copies.countHolds valid begins copied⟩
  · exact copiesPayload_of valid

def threeBytes (n : Nat) : ReadResult := if n = 0 then .data [1#8, 2#8, 3#8] else .eof

/-- A disk with room, that answers `-1` to a count that is none. -/
def disk : Host where
  stat := some 4096
  openOutput := true
  openBootblock := true
  openPayload := true
  bootblock := List.replicate 1024 0#8
  bootblockSize := 1024
  reads := []
  write _ count := if count < 2^63 then count else -1
  beyond _ := 0#8

theorem disk_valid (sizes : ∀ n bytes, read n = .data bytes → 1 ≤ bytes.length ∧ bytes.length ≤ 512) :
    Valid disk ⟨0, false, 640, 480, 16⟩ read where
  read := sizes
  write := by
    intro calls count
    simp only [disk]
    split_ifs
    · omega
    · omega
  padding := by decide

theorem copies_payload_threeBytes : CopiesPayload disk ⟨0, false, 640, 480, 16⟩ threeBytes := by
  apply (copies_payload_iff (disk_valid ?_)).mpr
  · intro _ n copied
    cases n with
    | zero => exact ⟨ReadResult.noConfusion, fun eof => ReadResult.noConfusion eof⟩
    | succ n =>
      refine ⟨ReadResult.noConfusion, fun _ => .inl ?_⟩
      cases n with
      | zero => rfl
      | succ n =>
        obtain ⟨bytes, data, -⟩ := copied 1 (by omega)
        cases data
  · intro n bytes data
    cases n with
    | zero =>
      cases data
      decide
    | succ n => cases data

/-! ### A payload that cannot be read -/

/-- `write` refuses `SIZE_MAX` bytes, and the two errors compare equal. -/
theorem turn_refused (error : read n = .error) (refused : host.write out.writes.length (2^64 - 1) = -1) (writtenBytes : Nat) :
    turn host (read n) (.copying out writtenBytes buf) =
      .copying ⟨out.image, out.writes ++ [2^64 - 1]⟩ ((writtenBytes + (2^64 - 1)) % 2^64) buf := by
  have equal : toSize (-1) = 2^64 - 1 := by decide
  rw [error]
  unfold turn writeOut
  dsimp only
  rw [if_pos (by decide), refused, equal, if_neg (fun other => other rfl)]
  simp

theorem copyLoop_refused (errors : ∀ n, read n = .error) (refused : ∀ calls, host.write calls (2^64 - 1) = -1)
    (out : Output) (writtenBytes : Nat) (buf : List Byte) (n : Nat) :
    ∃ out' writtenBytes', copyLoop host read (.copying out writtenBytes buf) n = .copying out' writtenBytes' buf := by
  induction n with
  | zero => exact ⟨out, writtenBytes, rfl⟩
  | succ n ih =>
    obtain ⟨out', writtenBytes', reached⟩ := ih
    rw [copyLoop, reached]
    exact ⟨_, _, turn_refused (errors n) (refused _) writtenBytes'⟩

/-- `makeflop` does not end on a payload that opens but does not read, a directory say. -/
theorem makeflop_hangs (begins : Begins host) (errors : ∀ n, read n = .error)
    (refused : ∀ calls, host.write calls (2^64 - 1) = -1) (n : Nat) : makeflopTurns host options read n = none := by
  obtain ⟨boot, prepared⟩ := begins.prepare options
  rw [makeflopTurns_ok (beginCopy_full prepared begins.write begins.openPayload)]
  obtain ⟨out, writtenBytes, reached⟩ := copyLoop_refused errors refused ⟨boot.take 1024, [1024]⟩ 1024 [] n
  rw [reached]
  rfl

theorem disk_begins : Begins disk where
  stat := Option.some_ne_none _
  openOutput := rfl
  openBootblock := rfl
  bootblock := Nat.le_of_eq List.length_replicate.symm
  bootblockSize := rfl
  write := rfl
  openPayload := rfl

theorem not_copies_payload : Valid disk ⟨0, false, 640, 480, 16⟩ (fun _ => .error) ∧
    (∀ n, makeflopTurns disk ⟨0, false, 640, 480, 16⟩ (fun _ => .error) n = none) ∧
    ¬ CopiesPayload disk ⟨0, false, 640, 480, 16⟩ (fun _ => .error) := by
  refine ⟨disk_valid (fun n bytes data => by cases data), makeflop_hangs disk_begins (fun _ => rfl) (fun _ => rfl), ?_⟩
  intro copies
  obtain ⟨boot, prepared⟩ := disk_begins.prepare ⟨0, false, 640, 480, 16⟩
  have begun := beginCopy_full prepared disk_begins.write disk_begins.openPayload
  obtain ⟨m, status, out, exit, -⟩ := copies.fails _ 0 _ _ _ begun rfl rfl
  rw [makeflop_hangs disk_begins (fun _ => rfl) (fun _ => rfl)] at exit
  cases exit

/-! ### A payload that ends -/

theorem copyLoop_left (out : Output) (writtenBytes n : Nat) :
    copyLoop host read (.copied out writtenBytes) n = .copied out writtenBytes ∧
      copyLoop host read (.failed out) n = .failed out := by
  induction n with
  | zero => exact ⟨rfl, rfl⟩
  | succ n ih =>
    constructor
    · rw [copyLoop, ih.1]
      rfl
    · rw [copyLoop, ih.2]
      rfl

theorem copyLoop_succ (start : Copy) (n : Nat) :
    copyLoop host read start (n + 1) = copyLoop host (fun i => read (i + 1)) (turn host (read 0) start) n := by
  induction n with
  | zero => rfl
  | succ n ih =>
    rw [copyLoop, ih]
    rfl

/-- The copy loop over a list of results, as a state of the one that counts turns. -/
def copyResult : Option (Output × Nat) × Output → Copy
  | (some (out, writtenBytes), _) => .copied out writtenBytes
  | (none, out) => .failed out

theorem copyPayload_turns (host : Host) (results : List ReadResult) : ∀ (out : Output) (writtenBytes : Nat) (buf : List Byte),
    copyLoop host (fun n => results.getD n .eof) (.copying out writtenBytes buf) (results.length + 1) =
      copyResult (copyPayload host out writtenBytes buf results) := by
  induction results with
  | nil =>
    intro out writtenBytes buf
    rfl
  | cons result rest ih =>
    intro out writtenBytes buf
    have step : ∀ (readSize : Nat) (buf : List Byte),
        copyLoop host (fun n => rest.getD n .eof)
          (if readSize > 0 then
            let (written, out) := writeOut host out buf readSize
            if toSize written ≠ readSize then .failed out
            else .copying out ((writtenBytes + toSize written) % 2^64) buf
          else .copied out writtenBytes) (rest.length + 1) =
        copyResult (if readSize > 0 then
            let (written, out) := writeOut host out buf readSize
            if toSize written ≠ readSize then (none, out)
            else copyPayload host out ((writtenBytes + toSize written) % 2^64) buf rest
          else (some (out, writtenBytes), out)) := by
      intro readSize buf
      dsimp only
      split_ifs with more short
      · exact (copyLoop_left _ 0 _).2
      · exact ih _ _ _
      · exact (copyLoop_left _ _ _).1
    rw [List.length_cons, copyLoop_succ, copyPayload.eq_def]
    cases result with
    | data bytes => exact step _ _
    | eof => exact step 0 buf
    | error => exact step (2^64 - 1) buf

theorem finish_copyResult (options : Options) (result : Option (Output × Nat) × Output) :
    finish host options (copyResult result) = some (match result with
      | (none, out) => (1, out)
      | (some (out, writtenBytes), _) =>
        match pad host out writtenBytes options.padding with
        | (false, out) => (1, out)
        | (true, out) => (0, out)) := by
  obtain ⟨reached, left⟩ := result
  cases reached with
  | none => rfl
  | some copied =>
    unfold copyResult finish
    dsimp only
    generalize pad host copied.1 copied.2 options.padding = padded
    obtain ⟨whole, out⟩ := padded
    cases whole with
    | false => rfl
    | true => rfl

/-- The two models of `main` agree where the reads end. -/
theorem makeflop_turns (host : Host) (options : Options) :
    makeflopTurns host options (fun n => host.reads.getD n .eof) (host.reads.length + 1) = some (makeflop host options) := by
  unfold makeflopTurns beginCopy prepare makeflop
  cases host.stat with
  | none => rfl
  | some size =>
    dsimp only
    by_cases openOutput : ¬ host.openOutput
    · rw [if_pos openOutput, if_pos openOutput]
    rw [if_neg openOutput, if_neg openOutput]
    by_cases openBootblock : ¬ host.openBootblock
    · rw [if_pos openBootblock, if_pos openBootblock]
    rw [if_neg openBootblock, if_neg openBootblock]
    by_cases bootblock : host.bootblock.length < 1024 ∨ host.bootblockSize ≠ 1024
    · rw [if_pos bootblock, if_pos bootblock]
    rw [if_neg bootblock, if_neg bootblock]
    dsimp only
    generalize (if options.enableVesa then patchVesa options (patchSize host.bootblock size) else patchSize host.bootblock size) = boot
    by_cases short : toSize (writeOut host ⟨[], []⟩ boot 1024).1 ≠ 1024
    · rw [if_pos short, if_pos short]
    rw [if_neg short, if_neg short]
    by_cases openPayload : ¬ host.openPayload
    · rw [if_pos openPayload, if_pos openPayload]
    rw [if_neg openPayload, if_neg openPayload]
    dsimp only
    exact (congrArg (finish host options) (copyPayload_turns host host.reads _ _ [])).trans (finish_copyResult options _)

end

end ThreeX86.Boot
