import NuttxRtos.Lib.Links
import NuttxRtos.Lib.Word

/-!
# The memory manager

The functions of `mm/mm_heap` on a byte-addressed memory, for a 32-bit target with
`CONFIG_MM_SMALL` off. Chunk headers, the links of free nodes, the bucket heads `mm_nodelist` and
the payloads share one memory, so a header write can hit a payload.

A function that a task runs while it holds the MM semaphore is a `…Section`. `size_t` and pointer
arithmetic wraps (`add32`, `sub32`), debug assertions are off. The pointer loops run on fuel: a walk
of more than `2 ^ 32` steps over 32-bit addresses of an unchanged memory never ends, and is `none`.
-/

namespace NuttxRtos.Heap

open Memory Word

/-! ## Chunk headers -/

def mmMinShift : ℕ := 4
def mmMaxShift : ℕ := 22
def mmMinChunk : ℕ := 1 <<< mmMinShift
def mmMaxChunk : ℕ := 1 <<< mmMaxShift
def mmNnodes : ℕ := mmMaxShift - mmMinShift + 1
def mmGranMask : ℕ := mmMinChunk - 1
def mmAllocBit : ℕ := 0x80000000
def sizeofMmAllocnode : ℕ := 8
def sizeofMmFreenode : ℕ := 16

def mmAlignUp (a : ℕ) : ℕ := add32 a mmGranMask &&& not32 mmGranMask

def mmAlignDown (a : ℕ) : ℕ := a &&& not32 mmGranMask

def size (m : Memory) (node : ℕ) : ℕ := load32 m node

def preceding (m : Memory) (node : ℕ) : ℕ := load32 m (node + 4)

def setSize (m : Memory) (node v : ℕ) : Memory := store32 m node v

def setPreceding (m : Memory) (node v : ℕ) : Memory := store32 m (node + 4) v

/-- `flink` and `blink` of `struct mm_freenode_s`. -/
def freenode : LinkFields where
  flink := 8
  blink := 12
  width := 16
  flink_le := by decide
  blink_le := by decide
  apart := by decide

def updatePreceding (m : Memory) (node size : ℕ) : Memory :=
  setPreceding m node (size ||| (preceding m node &&& mmAllocBit))

/-- The bound on the pointer loops. -/
def walkFuel : ℕ := 2 ^ 32

/-! ## The node list -/

/-- The shift loop of `mm_size2ndx`; a `size_t` is exhausted after 32 rounds. -/
def size2ndxLoop : ℕ → ℕ → ℕ → ℕ
  | 0, _, ndx => ndx
  | fuel + 1, size, ndx => if 1 < size then size2ndxLoop fuel (size >>> 1) (ndx + 1) else ndx

def mmSize2ndx (size : ℕ) : ℕ :=
  if mmMaxChunk ≤ size then mmNnodes - 1 else size2ndxLoop 32 (size >>> mmMinShift) 0

def bucketHead (nodelist ndx : ℕ) : ℕ := nodelist + sizeofMmFreenode * ndx

/-- The search loop of `mm_addfreechunk`: the place of a chunk of `bytes` bytes. -/
def addfreechunkLoop (m : Memory) (bytes : ℕ) : ℕ → ℕ → ℕ → Option (ℕ × ℕ)
  | 0, _, _ => none
  | fuel + 1, prev, next =>
    if next ≠ 0 ∧ size m next ≠ 0 ∧ size m next < bytes then
      addfreechunkLoop m bytes fuel next (freenode.next m next)
    else some (prev, next)

def mmAddfreechunk (nodelist : ℕ) (m : Memory) (node : ℕ) : Option Memory := do
  let head := bucketHead nodelist (mmSize2ndx (size m node))
  let (prev, next) ← addfreechunkLoop m (size m node) walkFuel head (freenode.next m head)
  return freenode.insert m prev node next

def mmShrinkchunk (nodelist : ℕ) (m : Memory) (node bytes : ℕ) : Option Memory :=
  let next := add32 node (size m node)
  if preceding m next &&& mmAllocBit = 0 then
    let andbeyond := add32 next (size m next)
    let m := freenode.unlink m next
    let newnode := add32 node bytes
    let m := setSize m newnode (sub32 (add32 (size m next) (size m node)) bytes)
    let m := setPreceding m newnode bytes
    let m := setSize m node bytes
    let m := updatePreceding m andbeyond (size m newnode)
    mmAddfreechunk nodelist m newnode
  else if add32 bytes sizeofMmFreenode ≤ size m node then
    let newnode := add32 node bytes
    let m := setSize m newnode (sub32 (size m node) bytes)
    let m := setPreceding m newnode bytes
    let m := setSize m node bytes
    let m := setPreceding m next (size m newnode ||| mmAllocBit)
    mmAddfreechunk nodelist m newnode
  else some m

/-! ## Allocating and freeing -/

def mallocLoop (m : Memory) (alignsize : ℕ) : ℕ → ℕ → Option ℕ
  | 0, _ => none
  | fuel + 1, node =>
    if node ≠ 0 ∧ size m node < alignsize then
      mallocLoop m alignsize fuel (freenode.next m node)
    else some node

/-- `mm_malloc` from the node it found: take it off the list, split it and mark it. -/
def mallocNode (nodelist : ℕ) (m : Memory) (node alignsize : ℕ) : Option (Memory × ℕ) := do
  let m := freenode.unlink m node
  let remaining := sub32 (size m node) alignsize
  let m ← (if sizeofMmFreenode ≤ remaining then
      let next := add32 node (size m node)
      let remainder := add32 node alignsize
      let m := setSize m remainder remaining
      let m := setPreceding m remainder alignsize
      let m := setSize m node alignsize
      let m := updatePreceding m next remaining
      mmAddfreechunk nodelist m remainder
    else some m)
  let m := setPreceding m node (preceding m node ||| mmAllocBit)
  return (m, add32 node sizeofMmAllocnode)

/-- What `mm_malloc` does while it holds the semaphore; the pointer is null on failure. -/
def mallocSection (nodelist : ℕ) (m : Memory) (alignsize : ℕ) : Option (Memory × ℕ) := do
  let ndx := if mmMaxChunk ≤ alignsize then mmNnodes - 1 else mmSize2ndx alignsize
  let node ← mallocLoop m alignsize walkFuel (freenode.next m (bucketHead nodelist ndx))
  if node ≠ 0 then mallocNode nodelist m node alignsize else return (m, 0)

/-- `mm_free` looks at the following node: merge it into `node` if it is free. The node behind the
result is returned. -/
def freeMergeNext (m : Memory) (node : ℕ) : Memory × ℕ :=
  let next := add32 node (size m node)
  if preceding m next &&& mmAllocBit = 0 then
    let andbeyond := add32 next (size m next)
    let m := freenode.unlink m next
    let m := setSize m node (add32 (size m node) (size m next))
    (updatePreceding m andbeyond (size m node), andbeyond)
  else (m, next)

def freeMergePrev (m : Memory) (node next : ℕ) : Memory × ℕ :=
  let prev := sub32 node (preceding m node)
  if preceding m prev &&& mmAllocBit = 0 then
    let m := freenode.unlink m prev
    let m := setSize m prev (add32 (size m prev) (size m node))
    (updatePreceding m next (size m prev), prev)
  else (m, node)

def freeSection (nodelist : ℕ) (m : Memory) (mem : ℕ) : Option Memory :=
  let node := sub32 mem sizeofMmAllocnode
  let m := setPreceding m node (preceding m node &&& not32 mmAllocBit)
  let merged := freeMergeNext m node
  let merged := freeMergePrev merged.1 node merged.2
  mmAddfreechunk nodelist merged.1 merged.2

/-! ## Resizing -/

/-- How many bytes `mm_realloc` takes from the preceding and from the following free chunk. -/
def reallocTake (needed prevsize nextsize : ℕ) : ℕ × ℕ :=
  if 0 < prevsize ∧ (prevsize ≤ nextsize ∨ nextsize < 1) then
    if prevsize < needed then (prevsize, sub32 needed prevsize) else (needed, 0)
  else if 0 < nextsize ∧ needed ≠ 0 then
    if nextsize < needed then (sub32 needed nextsize, nextsize) else (0, needed)
  else (0, 0)

/-- Extend `oldnode` by `takeprev` bytes into the preceding free chunk and move its contents
down; the new node and its payload are returned. -/
def reallocPrev (nodelist : ℕ) (m : Memory)
    (oldmem oldnode prev next oldsize prevsize takeprev : ℕ) : Option (Memory × ℕ × ℕ) := do
  let m := freenode.unlink m prev
  let newnode := sub32 oldnode takeprev
  let m ← (if takeprev < prevsize then
      let m := setSize m prev (sub32 (size m prev) takeprev)
      let m := setSize m newnode (add32 oldsize takeprev)
      let m := setPreceding m newnode (size m prev ||| mmAllocBit)
      let m := updatePreceding m next (size m newnode)
      mmAddfreechunk nodelist m prev
    else
      let m := setSize m newnode (add32 (size m newnode) oldsize)
      let m := setPreceding m newnode (preceding m newnode ||| mmAllocBit)
      some (updatePreceding m next (size m newnode)))
  let newmem := add32 newnode sizeofMmAllocnode
  return (memcpy m newmem oldmem (sub32 oldsize sizeofMmAllocnode), newnode, newmem)

/-- Extend `oldnode` by `takenext` bytes into the following free chunk. -/
def reallocNext (nodelist : ℕ) (m : Memory) (oldnode next oldsize nextsize takenext : ℕ) :
    Option Memory :=
  let andbeyond := add32 next nextsize
  let m := freenode.unlink m next
  let m := setSize m oldnode (add32 oldsize takenext)
  let newnode := add32 oldnode (size m oldnode)
  if takenext < nextsize then
    let m := setSize m newnode (sub32 nextsize takenext)
    let m := setPreceding m newnode (size m oldnode)
    let m := updatePreceding m andbeyond (size m newnode)
    mmAddfreechunk nodelist m newnode
  else some (updatePreceding m andbeyond (size m oldnode))

/-- How the first critical section of `mm_realloc` ends. -/
inductive ReallocResult where
  /-- The block was resized, perhaps at a new address. -/
  | done (newmem : ℕ)
  /-- The chunk of `oldsize` bytes cannot be extended. -/
  | move (oldsize : ℕ)
  deriving DecidableEq

def reallocSection (nodelist : ℕ) (m : Memory) (oldmem newsize : ℕ) :
    Option (Memory × ReallocResult) := do
  let oldnode := sub32 oldmem sizeofMmAllocnode
  let oldsize := size m oldnode
  if newsize ≤ oldsize then
    let m ← (if newsize < oldsize then mmShrinkchunk nodelist m oldnode newsize else some m)
    return (m, .done oldmem)
  let next := add32 oldnode (size m oldnode)
  let nextsize := if preceding m next &&& mmAllocBit = 0 then size m next else 0
  let prev := sub32 oldnode (preceding m oldnode &&& not32 mmAllocBit)
  let prevsize := if preceding m prev &&& mmAllocBit = 0 then size m prev else 0
  if newsize ≤ add32 (add32 nextsize prevsize) oldsize then
    let take := reallocTake (sub32 newsize oldsize) prevsize nextsize
    let (m, oldnode, newmem) ← (if take.1 ≠ 0 then
        reallocPrev nodelist m oldmem oldnode prev next oldsize prevsize take.1
      else some (m, oldnode, oldmem))
    let m ← (if take.2 ≠ 0 then
        reallocNext nodelist m oldnode next (size m oldnode) nextsize take.2
      else some m)
    return (m, .done newmem)
  else return (m, .move oldsize)

/-- `mm_memalign` splits off the fragment before the aligned address and lists it. The new node,
the aligned address and the size available there are returned. -/
def memalignSplit (nodelist : ℕ) (m : Memory) (node alignedchunk alignment : ℕ) :
    Option (Memory × ℕ × ℕ × ℕ) := do
  let next := add32 node (size m node)
  -- the second alignment point when the fragment cannot hold a free node
  let alignedchunk :=
    if sub32 (sub32 alignedchunk sizeofMmAllocnode) node < sizeofMmFreenode then
      add32 alignedchunk alignment else alignedchunk
  let newnode := sub32 alignedchunk sizeofMmAllocnode
  let precedingsize := sub32 newnode node
  let m := setSize m newnode (sub32 next newnode)
  let m := setPreceding m newnode (precedingsize ||| mmAllocBit)
  let m := setSize m node precedingsize
  let m := setPreceding m node (preceding m node &&& not32 mmAllocBit)
  let m := updatePreceding m next (size m newnode)
  let allocsize := sub32 (size m newnode) sizeofMmAllocnode
  let m ← mmAddfreechunk nodelist m node
  return (m, newnode, alignedchunk, allocsize)

/-- What `mm_memalign` does while it holds the semaphore: `rawchunk` was allocated with
`allocsize` bytes, `bytes` is the request rounded up to the granule. -/
def memalignSection (nodelist : ℕ) (m : Memory) (alignment bytes allocsize rawchunk : ℕ) :
    Option (Memory × ℕ) := do
  let mask := sub32 alignment 1
  let node := sub32 rawchunk sizeofMmAllocnode
  let alignedchunk := add32 rawchunk mask &&& not32 mask
  let (m, node, alignedchunk, allocsize) ← (if alignedchunk ≠ rawchunk then
      memalignSplit nodelist m node alignedchunk alignment
    else some (m, node, alignedchunk, allocsize))
  let bytes := mmAlignUp (add32 bytes sizeofMmAllocnode)
  let m ← (if bytes < allocsize then mmShrinkchunk nodelist m node bytes else some m)
  return (m, alignedchunk)

/-! ## The heap structure and the public functions -/

/-- `struct mm_heap_s`, with the memory it manages; `nodelist` is the address of `mm_nodelist`
and `mm_nregions` is the length of `heapstart`. -/
structure MmHeap where
  mem : Memory
  nodelist : ℕ
  heapsize : ℕ
  heapstart : List ℕ
  heapend : List ℕ
  delaylist : ℕ

/-- `mm_addregion` with `CONFIG_MM_REGIONS = maxRegions`. With more than one region the next table
entry is used, if there is one; a build with one region always writes its only entry. -/
def mmAddregion (maxRegions : ℕ) (h : MmHeap) (heapstart heapsize : ℕ) : Option MmHeap :=
  let idx := if 1 < maxRegions then h.heapstart.length else 0
  if 1 < maxRegions ∧ maxRegions ≤ idx then some h
  else do
    let heapbase := mmAlignUp heapstart
    let heapend := mmAlignDown (add32 heapstart heapsize)
    let heapsize := sub32 heapend heapbase
    let node := add32 heapbase sizeofMmAllocnode
    let last := sub32 heapend sizeofMmAllocnode
    let m := setSize h.mem heapbase sizeofMmAllocnode
    let m := setPreceding m heapbase mmAllocBit
    let m := setSize m node (sub32 heapsize (2 * sizeofMmAllocnode))
    let m := setPreceding m node sizeofMmAllocnode
    let m := setSize m last sizeofMmAllocnode
    let m := setPreceding m last (size m node ||| mmAllocBit)
    let m ← mmAddfreechunk h.nodelist m node
    return { h with
      mem := m
      heapsize := add32 h.heapsize heapsize
      heapstart := h.heapstart.take idx ++ heapbase :: h.heapstart.drop (idx + 1)
      heapend := h.heapend.take idx ++ last :: h.heapend.drop (idx + 1) }

/-- The link loop of `mm_initialize` over the bucket heads up to `n`. -/
def linkHeads (m : Memory) (nodelist : ℕ) : ℕ → Memory
  | 0 => m
  | n + 1 =>
    let m := linkHeads m nodelist n
    let m := freenode.setNext m (bucketHead nodelist n) (bucketHead nodelist (n + 1))
    freenode.setPrev m (bucketHead nodelist (n + 1)) (bucketHead nodelist n)

def mmInitialize (maxRegions : ℕ) (m : Memory) (nodelist heapstart heapsize : ℕ) : Option MmHeap :=
  let m := memset m nodelist 0 (sizeofMmFreenode * mmNnodes)
  let m := linkHeads m nodelist (mmNnodes - 1)
  mmAddregion maxRegions
    { mem := m, nodelist := nodelist, heapsize := 0, heapstart := [], heapend := [],
      delaylist := 0 } heapstart heapsize

def mmAddDelaylist (h : MmHeap) (mem : ℕ) : MmHeap :=
  { h with mem := store32 h.mem mem h.delaylist, delaylist := mem }

/-- `mm_free`. The call is `deferred` in an interrupt handler, and in a task that finds the
semaphore taken and is the idle task or has no valid pid. -/
def mmFree (h : MmHeap) (deferred : Bool) (mem : ℕ) : Option MmHeap :=
  if mem = 0 then some h
  else if deferred then some (mmAddDelaylist h mem)
  else do
    let m ← freeSection h.nodelist h.mem mem
    return { h with mem := m }

def freeDelaylistLoop : ℕ → MmHeap → ℕ → Option MmHeap
  | 0, _, _ => none
  | fuel + 1, h, tmp =>
    if tmp = 0 then some h
    else do
      let next := load32 h.mem tmp
      let h ← mmFree h false tmp
      freeDelaylistLoop fuel h next

def mmFreeDelaylist (h : MmHeap) : Option MmHeap :=
  freeDelaylistLoop walkFuel { h with delaylist := 0 } h.delaylist

def mmMalloc (h : MmHeap) (bytes : ℕ) : Option (MmHeap × ℕ) := do
  let h ← mmFreeDelaylist h
  if bytes < 1 then return (h, 0)
  let (m, ret) ← mallocSection h.nodelist h.mem (mmAlignUp (add32 bytes sizeofMmAllocnode))
  return ({ h with mem := m }, ret)

def mmZalloc (h : MmHeap) (bytes : ℕ) : Option (MmHeap × ℕ) := do
  let (h, alloc) ← mmMalloc h bytes
  if alloc ≠ 0 then return ({ h with mem := memset h.mem alloc 0 bytes }, alloc)
  return (h, alloc)

def mmCalloc (h : MmHeap) (n elemSize : ℕ) : Option (MmHeap × ℕ) :=
  if 0 < n ∧ 0 < elemSize then
    if n ≤ (2 ^ 32 - 1) / elemSize then mmZalloc h (n * elemSize % 2 ^ 32) else some (h, 0)
  else some (h, 0)

def mmMemalign (h : MmHeap) (alignment bytes : ℕ) : Option (MmHeap × ℕ) :=
  if alignment ≤ mmMinChunk then mmMalloc h bytes
  else do
    let bytes := mmAlignUp bytes
    let allocsize := add32 bytes (2 * alignment % 2 ^ 32)
    let (h, rawchunk) ← mmMalloc h allocsize
    if rawchunk = 0 then return (h, 0)
    let (m, alignedchunk) ← memalignSection h.nodelist h.mem alignment bytes allocsize rawchunk
    return ({ h with mem := m }, alignedchunk)

def mmRealloc (h : MmHeap) (oldmem bytes : ℕ) : Option (MmHeap × ℕ) :=
  if oldmem = 0 then mmMalloc h bytes
  else if bytes < 1 then do
    let h ← mmFree h false oldmem
    return (h, 0)
  else do
    let newsize := mmAlignUp (add32 bytes sizeofMmAllocnode)
    let (m, result) ← reallocSection h.nodelist h.mem oldmem newsize
    let h := { h with mem := m }
    match result with
    | .done newmem => return (h, newmem)
    | .move oldsize =>
      let (h, newmem) ← mmMalloc h bytes
      if newmem ≠ 0 then
        let h := { h with mem := memcpy h.mem newmem oldmem oldsize }
        let h ← mmFree h false oldmem
        return (h, newmem)
      return (h, newmem)

def mmExtend (h : MmHeap) (mem bytes region : ℕ) : Option MmHeap :=
  let blockend := add32 mem bytes
  let oldnode := h.heapend.getD region 0
  let m := setSize h.mem oldnode bytes
  let newnode := sub32 blockend sizeofMmAllocnode
  let m := setSize m newnode sizeofMmAllocnode
  let m := setPreceding m newnode (size m oldnode ||| mmAllocBit)
  mmFree { h with mem := m, heapend := h.heapend.set region newnode } false mem

/-! ## Heap information -/

structure Mallinfo where
  arena : ℕ
  ordblks : ℕ
  mxordblk : ℕ
  uordblks : ℕ
  fordblks : ℕ
  deriving DecidableEq

def mallinfoNode (m : Memory) (info : Mallinfo) (node : ℕ) : Mallinfo :=
  if preceding m node &&& mmAllocBit ≠ 0 then
    { info with uordblks := add32 info.uordblks (size m node) }
  else
    { info with
      ordblks := info.ordblks + 1
      fordblks := add32 info.fordblks (size m node)
      mxordblk := if info.mxordblk < size m node then size m node else info.mxordblk }

def mallinfoLoop (m : Memory) (last : ℕ) : ℕ → Mallinfo → ℕ → Option Mallinfo
  | 0, _, _ => none
  | fuel + 1, info, node =>
    if node < last then
      mallinfoLoop m last fuel (mallinfoNode m info node) (add32 node (size m node))
    else some info

/-- The regions in turn; each adds its tail node to `uordblks`. -/
def mallinfoRegions (m : Memory) : List (ℕ × ℕ) → Mallinfo → Option Mallinfo
  | [], info => some info
  | (start, last) :: regions, info => do
      let info ← mallinfoLoop m last walkFuel info start
      mallinfoRegions m regions
        { info with uordblks := add32 info.uordblks sizeofMmAllocnode }

def mmMallinfo (h : MmHeap) : Option Mallinfo := do
  let info ← mallinfoRegions h.mem (h.heapstart.zip h.heapend) ⟨0, 0, 0, 0, 0⟩
  return { info with arena := h.heapsize }

end NuttxRtos.Heap
