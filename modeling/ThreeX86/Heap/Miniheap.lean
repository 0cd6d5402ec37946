import ThreeX86.Stdlib
import ThreeX86.Lists.List

/-!
The first-fit allocator of `miniheap.c`. The static `theheap` and everything the allocator keeps in
the heap itself live in one byte-addressed memory; every function takes the address of `theheap`.
-/

namespace ThreeX86.Heap

open Machine ThreeX86.Lists Linked

/-- A `struct list_node` in memory: `prev` at offset 0, `next` at offset 4. -/
instance : NodeStore Memory Word where
  null := 0#32
  prev m x := m.load32 x
  next m x := m.load32 (x + 4#32)
  setPrev m x v := m.store32 x v
  setNext m x v := m.store32 (x + 4#32) v

/-- A walk that has not come back to the list head after one step per address never does. -/
def entryLimit : Nat := 2^32

def sizeofPointer : Word := 4#32
def sizeofFreeHeapChunk : Word := 12#32
def sizeofAllocStructBegin : Word := 8#32
def pageSize : Word := 4096#32

/-! `struct free_heap_chunk`: the node, then `len` at offset 8. -/

def chunkLen (m : Memory) (chunk : Word) : Word := m.load32 (chunk + 8#32)
def setChunkLen (m : Memory) (chunk len : Word) : Memory := m.store32 (chunk + 8#32) len

section Theheap

/-! `struct heap`: the empty `lock` takes no space. -/

variable (theheap : Word)

def heapBase (m : Memory) : Word := m.load32 theheap
def heapLen (m : Memory) : Word := m.load32 (theheap + 4#32)
def remaining (m : Memory) : Word := m.load32 (theheap + 8#32)
def lowWatermark (m : Memory) : Word := m.load32 (theheap + 12#32)
def freeList : Word := theheap + 16#32

def setHeapBase (m : Memory) (v : Word) : Memory := m.store32 theheap v
def setHeapLen (m : Memory) (v : Word) : Memory := m.store32 (theheap + 4#32) v
def setRemaining (m : Memory) (v : Word) : Memory := m.store32 (theheap + 8#32) v
def setLowWatermark (m : Memory) (v : Word) : Memory := m.store32 (theheap + 12#32) v

def heapCreateFreeChunk (m : Memory) (ptr len : Word) : Memory := setChunkLen m ptr len

/-- `try_merge`, first half: the chunk joined to the list member before it. -/
def tryMergePrev (m : Memory) (chunk : Word) : Word × Memory :=
  let lastChunk := listPrev m (freeList theheap) chunk
  if lastChunk ≠ 0#32 then
    if lastChunk + chunkLen m lastChunk = chunk then
      let m := setChunkLen m lastChunk (chunkLen m lastChunk + chunkLen m chunk)
      let m := listDelete m chunk
      (lastChunk, m)
    else (chunk, m)
  else (chunk, m)

/-- `try_merge`, second half. After a walk off the end `nextChunk` is the list head in disguise. -/
def tryMergeNext (m : Memory) (chunk nextChunk : Word) : Memory :=
  if nextChunk ≠ 0#32 then
    if chunk + chunkLen m chunk = nextChunk then
      let m := setChunkLen m chunk (chunkLen m chunk + chunkLen m nextChunk)
      listDelete m nextChunk
    else m
  else m

def heapInsertFreeChunk (m : Memory) (chunk : Word) : Option (Word × Memory) := do
  let m := setRemaining theheap m (remaining theheap m + chunkLen m chunk)
  let nextChunk ← listForEveryEntryUntil m (freeList theheap) (fun nextChunk => decide (chunk < nextChunk))
    entryLimit (NodeStore.next m (freeList theheap))
  let m :=
    if nextChunk ≠ freeList theheap then listAddBefore m nextChunk chunk
    else listAddTail m (freeList theheap) chunk
  let (chunk, m) := tryMergePrev theheap m chunk
  let m := tryMergeNext m chunk nextChunk
  return (chunk, m)

/-- The chunk at the end of an allocated one that is too long: `chunk` is cut to `size` and the
    rest takes its place in the list, before `nextNode`. -/
def splitChunk (m : Memory) (chunk nextNode size : Word) : Memory :=
  let newchunk := chunk + size
  let m := heapCreateFreeChunk m newchunk (chunkLen m chunk - size)
  let m := setChunkLen m chunk (chunkLen m chunk - (chunkLen m chunk - size))
  if nextNode ≠ 0#32 then listAddBefore m nextNode newchunk
  else listAddTail m (freeList theheap) newchunk

/-- The chunk leaves the list; what it has beyond `size` stays if it makes a chunk of its own. -/
def cutChunk (m : Memory) (chunk size : Word) : Memory :=
  let nextNode := listNext m (freeList theheap) chunk
  let m := listDelete m chunk
  if chunkLen m chunk > size + sizeofFreeHeapChunk then splitChunk theheap m chunk nextNode size else m

def alignPtr (chunk alignment : Word) : Word :=
  let ptr := chunk + sizeofAllocStructBegin
  if alignment > 0#32 then roundUp ptr alignment else ptr

/-- The `alloc_struct_begin` below the pointer, and the accounting. -/
def recordChunk (m : Memory) (ptr chunk size : Word) : Memory :=
  let as := ptr - sizeofAllocStructBegin
  let m := m.store32 as chunk
  let m := m.store32 (as + 4#32) size
  let m := setRemaining theheap m (remaining theheap m - size)
  if remaining theheap m < lowWatermark theheap m then setLowWatermark theheap m (remaining theheap m)
  else m

/-- The body of the allocation loop for the first chunk that is long enough: the pointer handed out
    and the length of the chunk under it. -/
def takeChunk (m : Memory) (chunk size alignment : Word) : Word × Word × Memory :=
  let m := cutChunk theheap m chunk size
  let size := chunkLen m chunk
  let ptr := alignPtr chunk alignment
  (ptr, size, recordChunk theheap m ptr chunk size)

/-- One pass from the label `retry` to the end of the loop. -/
def allocPass (m : Memory) (size alignment : Word) : Option (Word × Word × Memory) := do
  let chunk ← listForEveryEntryUntil m (freeList theheap) (fun chunk => decide (chunkLen m chunk ≥ size))
    entryLimit (NodeStore.next m (freeList theheap))
  if chunk = freeList theheap then return (0#32, size, m)
  else return takeChunk theheap m chunk size alignment

def baseSize (size : Word) : Word :=
  let size := size + sizeofAllocStructBegin
  let size := if size < sizeofFreeHeapChunk then sizeofFreeHeapChunk else size
  roundUp size sizeofPointer

def clampAlignment (alignment : Word) : Word :=
  if alignment > 0#32 then if alignment < 16#32 then 16#32 else alignment else alignment

def chunkSize (size alignment : Word) : Word :=
  if alignment > 0#32 then baseSize size + clampAlignment alignment else baseSize size

/-- The stub `page_alloc`, which has no pages to give. -/
def pageAlloc (_pages : Word) : Word := 0#32

section Grow

variable (pages : Word → Word)

def heapGrow (m : Memory) (size : Word) : Option (Word × Memory) := do
  let size := roundUp size pageSize
  let ptr := pages (size / pageSize)
  if ptr = 0#32 then return (-1#32, m)
  else
    let m := heapCreateFreeChunk m ptr size
    let (_, m) ← heapInsertFreeChunk theheap m ptr
    let m :=
      if ptr < heapBase theheap m ∨ heapBase theheap m = 0#32 then setHeapBase theheap m ptr else m
    let endptr := ptr + size
    let m :=
      if endptr > heapBase theheap m + heapLen theheap m then
        setHeapLen theheap m (endptr - heapBase theheap m)
      else m
    return (size, m)

def miniheapAllocFrom (m : Memory) (size alignment : Word) : Option (Word × Memory) := do
  if alignment &&& (alignment - 1#32) ≠ 0#32 then return (0#32, m)
  else
    let (ptr, size, m) ← allocPass theheap m (chunkSize size alignment) (clampAlignment alignment)
    if ptr = 0#32 then
      let (err, m) ← heapGrow theheap pages m size
      if 0 ≤ err.toInt then
        let (ptr, _, m) ← allocPass theheap m size (clampAlignment alignment)
        return (ptr, m)
      else return (ptr, m)
    else return (ptr, m)

end Grow

def miniheapAlloc (m : Memory) (size alignment : Word) : Option (Word × Memory) :=
  miniheapAllocFrom theheap pageAlloc m size alignment

def miniheapFree (m : Memory) (ptr : Word) : Option Memory := do
  if ptr = 0#32 then return m
  else
    let as := ptr - sizeofAllocStructBegin
    let chunk := m.load32 as
    let m := heapCreateFreeChunk m chunk (m.load32 (as + 4#32))
    let (_, m) ← heapInsertFreeChunk theheap m chunk
    return m

def memcpy (m : Memory) (dest src count : Word) : Memory := m.moveBytes dest src count.toNat

def memset (m : Memory) (dest c count : Word) : Memory := m.fillBytes dest (c.setWidth 8) count.toNat

def miniheapRealloc (m : Memory) (ptr size : Word) : Option (Word × Memory) := do
  if ptr = 0#32 then miniheapAlloc theheap m size 0#32
  else if size = 0#32 then
    let m ← miniheapFree theheap m ptr
    return (0#32, m)
  else
    let (p, m) ← miniheapAlloc theheap m size 0#32
    if p = 0#32 then return (0#32, m)
    else
      let m := memcpy m p ptr size
      let m ← miniheapFree theheap m ptr
      return (p, m)

/-- A call of `page_free`, which is a stub. -/
structure PageFree where
  ptr : Word
  pages : Word

/-- From the test for a part behind the pages to the label `free_chunk`. -/
def trimCut (m : Memory) (chunk start end_ startPage endPage : Word) : Memory :=
  let (m, end_) :=
    if endPage < end_ then
      let newChunkSize := end_ - endPage
      let m := setChunkLen m chunk (chunkLen m chunk - newChunkSize)
      let m := heapCreateFreeChunk m endPage newChunkSize
      (listAddAfter m chunk endPage, endPage)
    else (m, end_)
  if startPage = start ∧ endPage = end_ then listDelete m chunk
  else setChunkLen m chunk (chunkLen m chunk - (endPage - startPage))

/-- The label `free_chunk`. -/
def trimFree (m : Memory) (startPage endPage : Word) : Option PageFree × Memory :=
  (some ⟨startPage, (endPage - startPage) / pageSize⟩,
    setRemaining theheap m (remaining theheap m - (endPage - startPage)))

/-- The loop's body from the label `retry`. -/
def trimRetry (m : Memory) (chunk start end_ : Word) : Nat → Word → Word → Option (Option PageFree × Memory)
  | 0, _, _ => none
  | fuel + 1, startPage, endPage =>
    if endPage > startPage then
      if startPage = start ∧ endPage = end_ then
        some (trimFree theheap (listDelete m chunk) startPage endPage)
      else if startPage ≠ start ∧ startPage - start < sizeofFreeHeapChunk then
        trimRetry m chunk start end_ fuel (startPage + pageSize) endPage
      else if endPage < end_ ∧ end_ - endPage < sizeofFreeHeapChunk then
        trimRetry m chunk start end_ fuel startPage (endPage - pageSize)
      else some (trimFree theheap (trimCut m chunk start end_ startPage endPage) startPage endPage)
    else some (none, m)

def trimChunk (m : Memory) (chunk : Word) : Option (Option PageFree × Memory) :=
  let start := chunk
  let end_ := start + chunkLen m chunk
  trimRetry theheap m chunk start end_ entryLimit (roundUp start pageSize) (roundDown end_ pageSize)

def miniheapTrim (m : Memory) : Option (Memory × List PageFree) :=
  listForEveryEntrySafe (freeList theheap)
    (fun m calls chunk => do
      let (call, m) ← trimChunk theheap m chunk
      return (m, calls ++ call.toList))
    entryLimit (NodeStore.next m (freeList theheap)) (NodeStore.next m (NodeStore.next m (freeList theheap))) m []

structure MiniheapStats where
  heapStart : Word
  heapLen : Word
  heapFree : Word
  heapMaxChunk : Word
  heapLowWatermark : Word

def miniheapGetStats (m : Memory) : Option MiniheapStats := do
  let (free, most) ← listForEveryEntryFold m (freeList theheap)
    (fun (free, most) chunk =>
      (free + chunkLen m chunk, if chunkLen m chunk > most then chunkLen m chunk else most))
    entryLimit (NodeStore.next m (freeList theheap)) (0#32, 0#32)
  return ⟨heapBase theheap m, Heap.heapLen theheap m, free, most, lowWatermark theheap m⟩

def miniheapInit (m : Memory) (ptr len : Word) : Option Memory := do
  let m := listInitialize m (freeList theheap)
  let m := setHeapBase theheap m ptr
  let m := setHeapLen theheap m len
  let m := setRemaining theheap m 0#32
  let m := setLowWatermark theheap m 0#32
  if len > 0#32 then
    let m := heapCreateFreeChunk m ptr len
    let (_, m) ← heapInsertFreeChunk theheap m ptr
    return m
  else return m

/-! The wrappers of `heap.c`. -/

def malloc (m : Memory) (size : Word) : Option (Word × Memory) := miniheapAlloc theheap m size 0#32

def memalign (m : Memory) (boundary size : Word) : Option (Word × Memory) :=
  miniheapAlloc theheap m size boundary

def calloc (m : Memory) (count size : Word) : Option (Word × Memory) := do
  let realsize := count * size
  let (ptr, m) ← miniheapAlloc theheap m realsize 0#32
  if ptr ≠ 0#32 then return (ptr, memset m ptr 0#32 realsize)
  else return (ptr, m)

end Theheap

end ThreeX86.Heap
