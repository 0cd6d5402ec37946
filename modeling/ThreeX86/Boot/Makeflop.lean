import Mathlib.Tactic.Common
import ThreeX86.Machine.Memory

/-!
The image writer `makeflop.c`, with what the system calls return as data.
-/

namespace ThreeX86.Boot

open Machine

/-- What one `read` of the payload returns. -/
inductive ReadResult where
  | data (bytes : List Byte)
  | eof
  | error

/-- The files and the system calls; `-1` from a call is an error. -/
structure Host where
  /-- `st_size` of the payload, if `stat` succeeds. -/
  stat : Option Nat
  openOutput : Bool
  openBootblock : Bool
  openPayload : Bool
  /-- What `read` delivers of the boot block, and its size as `lseek` finds it. -/
  bootblock : List Byte
  bootblockSize : Int
  /-- The results of the reads of the payload; after them there is nothing left. -/
  reads : List ReadResult
  /-- The result of the `write` that is asked for `count` bytes after `calls` others. -/
  write : (calls : Nat) → (count : Nat) → Int
  /-- What lies in memory behind a buffer that `write` runs past. -/
  beyond : Nat → Byte

structure Options where
  padding : Nat
  enableVesa : Bool
  vesaX : Nat
  vesaY : Nat
  vesaBit : Nat

/-- The output file, and the byte counts asked for so far. -/
structure Output where
  image : List Byte
  writes : List Nat

def toSize (r : Int) : Nat := (r % 2^64).toNat

variable (host : Host)

def writeOut (out : Output) (buf : List Byte) (count : Nat) : Int × Output :=
  let r := host.write out.writes.length count
  (r, { image := out.image ++ (List.range r.toNat).map fun i => buf.getD i (host.beyond i)
        writes := out.writes ++ [count] })

/-- The number of sectors, as an `unsigned int`. -/
def blocks (size : Nat) : Nat := (if size % 512 ≠ 0 then size / 512 + 1 else size / 512) % 2^32

/-- The boot block with the number of sectors in bytes 2 and 3. -/
def patchSize (bootsector : List Byte) (size : Nat) : List Byte :=
  (bootsector.set 2 (BitVec.ofNat 8 (blocks size % 256))).set 3 (BitVec.ofNat 8 (blocks size / 256 % 256))

def patchVesa (options : Options) (bootsector : List Byte) : List Byte :=
  let bootsector := bootsector.set 512 1#8
  let bootsector := bootsector.set 513 (BitVec.ofNat 8 (options.vesaX % 256))
  let bootsector := bootsector.set 514 (BitVec.ofNat 8 (options.vesaX / 256 % 256))
  let bootsector := bootsector.set 515 (BitVec.ofNat 8 (options.vesaY % 256))
  let bootsector := bootsector.set 516 (BitVec.ofNat 8 (options.vesaY / 256 % 256))
  bootsector.set 517 (BitVec.ofNat 8 (options.vesaBit % 256))

/-- The copy loop; `none` is its error exit. `read_size` is unsigned, and `buf` keeps what an earlier read left. -/
def copyPayload (out : Output) (writtenBytes : Nat) (buf : List Byte) : List ReadResult → Option (Output × Nat) × Output
  | [] => (some (out, writtenBytes), out)
  | result :: rest =>
    let (readSize, buf) := match result with
      | .data bytes => (bytes.length, bytes ++ buf.drop bytes.length)
      | .eof => (0, buf)
      | .error => (2^64 - 1, buf)
    if readSize > 0 then
      let (written, out) := writeOut host out buf readSize
      if toSize written ≠ readSize then (none, out)
      else copyPayload out ((writtenBytes + toSize written) % 2^64) buf rest
    else (some (out, writtenBytes), out)

/-- The padding; `false` is its error exit. -/
def pad (out : Output) (writtenBytes padding : Nat) : Bool × Output :=
  if padding ≠ 0 ∧ writtenBytes % padding ≠ 0 then
    let towrite := padding - writtenBytes % padding
    let (written, out) := writeOut host out (List.replicate towrite 0#8) towrite
    (toSize written = towrite, out)
  else (true, out)

/-- `main` behind the options: the exit status and the output file. -/
def makeflop (options : Options) : Int × Output :=
  let out : Output := ⟨[], []⟩
  match host.stat with
  | none => (-1, out)
  | some size =>
    if ¬ host.openOutput then (-1, out)
    else if ¬ host.openBootblock then (-1, out)
    else if host.bootblock.length < 1024 ∨ host.bootblockSize ≠ 1024 then (-1, out)
    else
      let bootsector := patchSize host.bootblock size
      let bootsector := if options.enableVesa then patchVesa options bootsector else bootsector
      let (written, out) := writeOut host out bootsector 1024
      if toSize written ≠ 1024 then (1, out)
      else if ¬ host.openPayload then (-1, out)
      else
        match copyPayload host out (toSize written) [] host.reads with
        | (none, out) => (1, out)
        | (some (out, writtenBytes), _) =>
          match pad host out writtenBytes options.padding with
          | (false, out) => (1, out)
          | (true, out) => (0, out)

/-! ### All calls succeed -/

/-- A host on which every call succeeds, for this boot block and payload. -/
structure Succeeds (boot payload : List Byte) : Prop where
  stat : host.stat = some payload.length
  openOutput : host.openOutput = true
  openBootblock : host.openBootblock = true
  openPayload : host.openPayload = true
  bootblock : host.bootblock = boot
  bootblockSize : host.bootblockSize = 1024
  reads : ∃ chunks : List (List Byte), host.reads = chunks.map .data ∧ chunks.flatten = payload ∧
    ∀ chunk ∈ chunks, 1 ≤ chunk.length ∧ chunk.length ≤ 512
  write : ∀ calls count, host.write calls count = count

variable {host} {boot payload : List Byte}

theorem map_getD_range (buf : List Byte) (f : Nat → Byte) (n : Nat) (h : n ≤ buf.length) :
    ((List.range n).map fun i => buf.getD i (f i)) = buf.take n := by
  apply List.ext_getElem
  · simp [h]
  · intro i first second
    simp only [List.length_map, List.length_range] at first
    simp [List.getD_eq_getElem?_getD, List.getElem?_eq_getElem (show i < buf.length by omega)]

theorem writeOut_full {out : Output} {n : Nat} (full : host.write out.writes.length n = n) {buf : List Byte} (h : n ≤ buf.length) :
    writeOut host out buf n = ((n : Int), ⟨out.image ++ buf.take n, out.writes ++ [n]⟩) := by
  unfold writeOut
  rw [full]
  simp only [Int.toNat_natCast]
  rw [map_getD_range buf host.beyond n h]

theorem writeOut_all (write : ∀ calls count, host.write calls count = count) (out : Output) (buf : List Byte) (n : Nat)
    (h : n ≤ buf.length) :
    writeOut host out buf n = ((n : Int), ⟨out.image ++ buf.take n, out.writes ++ [n]⟩) :=
  writeOut_full (write _ _) h

theorem toSize_ofNat {n : Nat} (h : n < 2^64) : toSize n = n := by
  unfold toSize
  omega

theorem copyPayload_all (write : ∀ calls count, host.write calls count = count) (chunks : List (List Byte)) :
    ∀ (out : Output) (writtenBytes : Nat) (buf : List Byte),
      (∀ chunk ∈ chunks, 1 ≤ chunk.length ∧ chunk.length ≤ 512) → writtenBytes + chunks.flatten.length < 2^64 →
      ∃ out', copyPayload host out writtenBytes buf (chunks.map .data) =
          (some (out', writtenBytes + chunks.flatten.length), out') ∧
        out'.image = out.image ++ chunks.flatten := by
  induction chunks with
  | nil =>
    intro out writtenBytes buf sizes room
    exact ⟨out, rfl, (List.append_nil _).symm⟩
  | cons chunk rest ih =>
    intro out writtenBytes buf sizes room
    obtain ⟨some, small⟩ := sizes chunk (List.mem_cons_self)
    rw [List.flatten_cons, List.length_append] at room
    have all : (chunk ++ buf.drop chunk.length).take chunk.length = chunk := by simp
    have size := toSize_ofNat (n := chunk.length) (by omega)
    obtain ⟨out', run, image⟩ := ih ⟨out.image ++ chunk, out.writes ++ [chunk.length]⟩ (writtenBytes + chunk.length)
      (chunk ++ buf.drop chunk.length) (fun c member => sizes c (List.mem_cons_of_mem _ member)) (by omega)
    refine ⟨out', ?_, ?_⟩
    · rw [List.map_cons, copyPayload]
      simp only
      rw [if_pos (by omega), writeOut_all write out _ chunk.length (by simp), all]
      simp only [size]
      rw [if_neg (by simp), Nat.mod_eq_of_lt (by omega), run, List.flatten_cons, List.length_append, Nat.add_assoc]
    · rw [image, List.flatten_cons, List.append_assoc]

def padding (options : Options) (size : Nat) : Nat :=
  if options.padding ≠ 0 ∧ size % options.padding ≠ 0 then options.padding - size % options.padding else 0

theorem patchSize_length (bootsector : List Byte) (size : Nat) :
    (patchSize bootsector size).length = bootsector.length := by
  simp [patchSize]

theorem makeflop_image (succeeds : Succeeds host boot payload) (size : boot.length = 1024)
    (room : 1024 + payload.length < 2^64) (options : Options) (vesa : options.enableVesa = false)
    (small : options.padding < 2^64) :
    (makeflop host options).1 = 0 ∧
    (makeflop host options).2.image = patchSize boot payload.length ++ payload ++
      List.replicate (padding options (1024 + payload.length)) 0#8 := by
  obtain ⟨chunks, reads, whole, sizes⟩ := succeeds.reads
  subst whole
  have patched : (patchSize boot chunks.flatten.length).length = 1024 := by rw [patchSize_length, size]
  have head : (patchSize boot chunks.flatten.length).take 1024 = patchSize boot chunks.flatten.length := by
    rw [List.take_of_length_le (by omega)]
  obtain ⟨out, run, image⟩ := copyPayload_all succeeds.write chunks
    ⟨patchSize boot chunks.flatten.length, [1024]⟩ 1024 [] sizes room
  have first : writeOut host ⟨[], []⟩ (patchSize boot chunks.flatten.length) 1024 =
      ((1024 : Int), ⟨patchSize boot chunks.flatten.length, [1024]⟩) := by
    have all := writeOut_all succeeds.write ⟨[], []⟩ (patchSize boot chunks.flatten.length) 1024 (by omega)
    rw [head] at all
    exact all
  have written : toSize 1024 = 1024 := rfl
  have shape : makeflop host options =
      match pad host out (1024 + chunks.flatten.length) options.padding with
      | (false, out) => (1, out)
      | (true, out) => (0, out) := by
    unfold makeflop
    simp only [succeeds.stat, succeeds.openOutput, succeeds.openBootblock, succeeds.openPayload, succeeds.bootblock,
      succeeds.bootblockSize, size, vesa, reads, not_true_eq_false, if_false, Bool.false_eq_true, Nat.lt_irrefl, ne_eq,
      or_self, first, written, run]
  rw [shape]
  unfold pad padding
  by_cases more : options.padding ≠ 0 ∧ (1024 + chunks.flatten.length) % options.padding ≠ 0
  · have rest := Nat.mod_lt (1024 + chunks.flatten.length) (Nat.pos_of_ne_zero more.1)
    simp only [if_pos more]
    rw [writeOut_all succeeds.write out _ _ (by simp)]
    simp only [toSize_ofNat (show options.padding - (1024 + chunks.flatten.length) % options.padding < 2^64 by omega)]
    simp [image]
  · simp only [if_neg more]
    simp [image]

/-! ### The head of the image -/

theorem writeOut_extends (host : Host) (out : Output) (buf : List Byte) (count : Nat) :
    out.image <+: (writeOut host out buf count).2.image := List.prefix_append _ _

theorem copyPayload_extends (results : List ReadResult) (out : Output) (writtenBytes : Nat) (buf : List Byte) {out' : Output}
    {written : Nat} (copied : (copyPayload host out writtenBytes buf results).1 = some (out', written)) :
    out.image <+: out'.image := by
  induction results generalizing out writtenBytes buf with
  | nil =>
    obtain ⟨rfl, rfl⟩ := Prod.ext_iff.mp (Option.some.inj copied)
    exact List.prefix_refl _
  | cons result rest ih =>
    -- Whatever was read, the image grows by a write or not at all.
    have turn (readSize : Nat) (buf : List Byte)
        (copied : (if readSize > 0 then
            if toSize (writeOut host out buf readSize).1 ≠ readSize then (none, (writeOut host out buf readSize).2)
            else copyPayload host (writeOut host out buf readSize).2
              ((writtenBytes + toSize (writeOut host out buf readSize).1) % 2^64) buf rest
          else (some (out, writtenBytes), out)).1 = some (out', written)) : out.image <+: out'.image := by
      split at copied
      · split at copied
        · cases copied
        · exact (writeOut_extends host out buf readSize).trans (ih _ _ _ copied)
      · obtain ⟨rfl, rfl⟩ := Prod.ext_iff.mp (Option.some.inj copied)
        exact List.prefix_refl _
    cases result with
    | data bytes => exact turn bytes.length (bytes ++ buf.drop bytes.length) copied
    | eof => exact turn 0 buf copied
    | error => exact turn (2^64 - 1) buf copied

theorem pad_extends (host : Host) (out : Output) (writtenBytes padding : Nat) :
    out.image <+: (pad host out writtenBytes padding).2.image := by
  unfold pad
  split
  · exact writeOut_extends host out _ _
  · exact List.prefix_refl _

def patched (options : Options) (boot : List Byte) (size : Nat) : List Byte :=
  if options.enableVesa then patchVesa options (patchSize boot size) else patchSize boot size

theorem patched_length (options : Options) (boot : List Byte) (size : Nat) :
    (patched options boot size).length = boot.length := by
  unfold patched patchVesa
  split
  · simp only [List.length_set, patchSize_length]
  · exact patchSize_length boot size

theorem makeflop_extends (succeeds : Succeeds host boot payload) (size : boot.length = 1024) (options : Options)
    (status : (makeflop host options).1 = 0) :
    patched options boot payload.length <+: (makeflop host options).2.image := by
  have length := (patched_length options boot payload.length).trans size
  have first := writeOut_all succeeds.write ⟨[], []⟩ (patched options boot payload.length) 1024 (by omega)
  rw [List.take_of_length_le (by omega), List.nil_append, List.nil_append] at first
  have written : toSize 1024 = 1024 := rfl
  have shape : makeflop host options =
      match copyPayload host ⟨patched options boot payload.length, [1024]⟩ 1024 [] host.reads with
      | (none, out) => (1, out)
      | (some (out, writtenBytes), _) =>
        match pad host out writtenBytes options.padding with
        | (false, out) => (1, out)
        | (true, out) => (0, out) := by
    unfold makeflop
    simp only [succeeds.stat, succeeds.openOutput, succeeds.openBootblock, succeeds.openPayload, succeeds.bootblock,
      succeeds.bootblockSize, size, not_true_eq_false, if_false, Nat.lt_irrefl, ne_eq, or_self]
    rw [show (if options.enableVesa then patchVesa options (patchSize boot payload.length) else
      patchSize boot payload.length) = patched options boot payload.length from rfl, first]
    exact if_neg (not_not.mpr written)
  rw [shape] at status ⊢
  split at status
  · cases status
  · next out writtenBytes out' copied =>
    have image := copyPayload_extends host.reads _ 1024 [] (congrArg Prod.fst copied)
    have padded := pad_extends host out writtenBytes options.padding
    split
    · next unfinished =>
      rw [unfinished] at padded
      exact image.trans padded
    · next finished =>
      rw [finished] at padded
      exact image.trans padded

end ThreeX86.Boot
