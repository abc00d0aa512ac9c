import OsesProject.Kernel.Memory
import OsesProject.Lib.While

/-!
# The heap (`mem.c`)

The small memory algorithm, on a memory of bytes: every block begins with a `struct heap_mem` of
twelve bytes, whose `next` and `prev` are offsets from `heap_ptr`, and the headers lie in the same
memory as what the blocks are used for. An address is a number, and so is a null pointer. Functions
are partial: `none` is a failed assertion, or a loop that does not end within the bound, which is
one more than the bytes of the heap.

Every function takes `heap_sem` before it looks at the heap and releases it at the end; a call here
is one such section. `rt_realloc`, when it moves a block, is several of them taken at once: what
comes in between is calls for other blocks, and the parts alone are `rt_malloc`, writes and
`rt_free`. The hooks, the messages and `rt_mem_setname`, which is for `RT_USING_MEMTRACE`, are left
out.
-/

namespace OsesProject

open ByteMemory

/-- `#define HEAP_MAGIC 0x1ea0`. -/
def heapMagic : ℕ := 0x1ea0

/-- `SIZEOF_STRUCT_MEM`. -/
def sizeofStructMem : ℕ := 12

/-- `MIN_SIZE`, and `MIN_SIZE_ALIGNED`, which is the same. -/
def minSize : ℕ := 12

/-- The difference of two numbers of 32 bits. -/
def sub32 (a b : ℕ) : ℕ := (a + 2 ^ 32 - b) % 2 ^ 32

/-- `RT_ALIGN(size, RT_ALIGN_SIZE)`, in 32 bits. -/
def rtAlign (size : ℕ) : ℕ := (size + 3) % 2 ^ 32 / 4 * 4

/-- `RT_ALIGN_DOWN(size, RT_ALIGN_SIZE)`. -/
def rtAlignDown (size : ℕ) : ℕ := size / 4 * 4

/-! ## `struct heap_mem`: the fields of the header at an address -/

namespace HeapMem

def magic (m : Mem) (p : ℕ) : ℕ := load m p 2

def used (m : Mem) (p : ℕ) : ℕ := load m (p + 2) 2

def next (m : Mem) (p : ℕ) : ℕ := load m (p + 4) 4

def prev (m : Mem) (p : ℕ) : ℕ := load m (p + 8) 4

def putMagic (m : Mem) (p v : ℕ) : Mem := store m p 2 v

def putUsed (m : Mem) (p v : ℕ) : Mem := store m (p + 2) 2 v

def putNext (m : Mem) (p v : ℕ) : Mem := store m (p + 4) 4 v

def putPrev (m : Mem) (p v : ℕ) : Mem := store m (p + 8) 4 v

end HeapMem

/-- The memory and the static variables of `mem.c`. -/
structure Heap where
  mem : Mem
  heapPtr : ℕ
  heapEnd : ℕ
  lfree : ℕ
  memSizeAligned : ℕ
  usedMem : ℕ
  maxMem : ℕ

namespace Heap

open HeapMem

/-- The static variables before the heap is initialised. -/
def boot (mem : Mem) : Heap := ⟨mem, 0, 0, 0, 0, 0, 0⟩

/-- The first half of `plug_holes`: a free block after `mem` becomes part of it. -/
def plugForward (h : Heap) (mem : ℕ) : Heap :=
  let nmem := h.heapPtr + next h.mem mem
  if mem ≠ nmem ∧ used h.mem nmem = 0 ∧ nmem ≠ h.heapEnd then
    let m := putNext h.mem mem (next h.mem nmem)
    { h with
      lfree := if h.lfree = nmem then mem else h.lfree
      mem := putPrev m (h.heapPtr + next m nmem) (mem - h.heapPtr) }
  else
    h

/-- The second half of `plug_holes`: `mem` becomes part of a free block before it. -/
def plugBackward (h : Heap) (mem : ℕ) : Heap :=
  let pmem := h.heapPtr + prev h.mem mem
  if pmem ≠ mem ∧ used h.mem pmem = 0 then
    let m := putNext h.mem pmem (next h.mem mem)
    { h with
      lfree := if h.lfree = mem then pmem else h.lfree
      mem := putPrev m (h.heapPtr + next m mem) (pmem - h.heapPtr) }
  else
    h

/-- `plug_holes`. -/
def plugHoles (h : Heap) (mem : ℕ) : Option Heap :=
  if h.heapPtr ≤ mem ∧ mem < h.heapEnd ∧ used h.mem mem = 0 then
    some ((h.plugForward mem).plugBackward mem)
  else
    none

/-- `rt_system_heap_init`. A region without room for two headers leaves the heap as it was. -/
def rtSystemHeapInit (h : Heap) (beginAddr endAddr : ℕ) : Heap :=
  let beginAlign := rtAlign beginAddr
  let endAlign := rtAlignDown endAddr
  if 2 * sizeofStructMem < endAlign ∧ beginAlign ≤ endAlign - 2 * sizeofStructMem then
    let size := endAlign - beginAlign - 2 * sizeofStructMem
    -- the start of the heap
    let m := putMagic h.mem beginAlign heapMagic
    let m := putNext m beginAlign (size + sizeofStructMem)
    let m := putPrev m beginAlign 0
    let m := putUsed m beginAlign 0
    -- the end of the heap
    let heapEnd := beginAlign + next m beginAlign
    let m := putMagic m heapEnd heapMagic
    let m := putUsed m heapEnd 1
    let m := putNext m heapEnd (size + sizeofStructMem)
    let m := putPrev m heapEnd (size + sizeofStructMem)
    { h with mem := m, heapPtr := beginAlign, heapEnd := heapEnd, lfree := beginAlign,
             memSizeAligned := size }
  else
    h

/-- The header of a free block at the offset `ptr2`, which takes over the end of the block at `ptr`:
`mem2`, and `mem->next`. -/
def makeRemainder (h : Heap) (ptr ptr2 : ℕ) : Heap :=
  let mem := h.heapPtr + ptr
  let mem2 := h.heapPtr + ptr2
  let m := putMagic h.mem mem2 heapMagic
  let m := putUsed m mem2 0
  let m := putNext m mem2 (next m mem)
  let m := putPrev m mem2 ptr
  { h with mem := putNext m mem ptr2 }

/-- The block after `mem2` is told of it, unless it is the end of the heap. -/
def linkRemainder (h : Heap) (ptr2 : ℕ) : Heap :=
  let mem2 := h.heapPtr + ptr2
  if next h.mem mem2 ≠ h.memSizeAligned + sizeofStructMem then
    { h with mem := putPrev h.mem (h.heapPtr + next h.mem mem2) ptr2 }
  else
    h

/-- `used_mem += size; if (max_mem < used_mem) max_mem = used_mem;` -/
def countUsed (h : Heap) (size : ℕ) : Heap :=
  let used := (h.usedMem + size) % 2 ^ 32
  { h with usedMem := used, maxMem := if h.maxMem < used then used else h.maxMem }

/-- The test of `rt_malloc` on a block, at the offset `ptr`: it is free and `size` bytes fit. -/
def Fits (h : Heap) (size ptr : ℕ) : Prop :=
  used h.mem (h.heapPtr + ptr) = 0 ∧
    size ≤ sub32 (next h.mem (h.heapPtr + ptr)) (ptr + sizeofStructMem)

instance (h : Heap) (size : ℕ) : DecidablePred (h.Fits size) := fun _ => by
  unfold Fits
  infer_instance

/-- The loop of `rt_malloc`: the offset at which it leaves, at a block that fits or past the last
place where one could begin. -/
def findFit (h : Heap) (size : ℕ) : Option ℕ :=
  While.run (fun ptr => ptr < sub32 h.memSizeAligned size ∧ ¬ h.Fits size ptr)
    (fun ptr => next h.mem (h.heapPtr + ptr)) (h.memSizeAligned + 1) (h.lfree - h.heapPtr)

/-- The next free block from `lfree` on, or the end of the heap. -/
def findFree (h : Heap) : Option ℕ :=
  While.run (fun p => used h.mem p ≠ 0 ∧ p ≠ h.heapEnd) (fun p => h.heapPtr + next h.mem p)
    (h.memSizeAligned + 1) h.lfree

/-- The block at the offset `ptr` becomes used, and what it has to spare a block of its own. -/
def markBlock (h : Heap) (ptr size : ℕ) : Heap :=
  let mem := h.heapPtr + ptr
  if size + sizeofStructMem + minSize ≤ sub32 (next h.mem mem) (ptr + sizeofStructMem) then
    let ptr2 := ptr + sizeofStructMem + size
    let h := h.makeRemainder ptr ptr2
    let h := { h with mem := putUsed h.mem mem 1 }
    (h.linkRemainder ptr2).countUsed (size + sizeofStructMem)
  else
    let h := { h with mem := putUsed h.mem mem 1 }
    h.countUsed (sub32 (next h.mem mem) (mem - h.heapPtr))

/-- What `rt_malloc` does to the block it has found, at the offset `ptr`. -/
def takeBlock (h : Heap) (ptr size : ℕ) : Heap :=
  let h := h.markBlock ptr size
  { h with mem := putMagic h.mem (h.heapPtr + ptr) heapMagic }

/-- `lfree` moves on when the block taken was the first free one. -/
def moveFree (h : Heap) (mem : ℕ) : Option Heap :=
  if mem = h.lfree then
    h.findFree >>= fun p =>
      if p = h.heapEnd ∨ used h.mem p = 0 then some { h with lfree := p } else none
  else
    some h

/-- `rt_malloc`. -/
def rtMalloc (h : Heap) (size : ℕ) : Option (ℕ × Heap) :=
  if size = 0 then
    some (0, h)
  else
    let size := rtAlign size
    if h.memSizeAligned < size then
      some (0, h)
    else
      let size := if size < minSize then minSize else size
      h.findFit size >>= fun ptr =>
        if ptr < sub32 h.memSizeAligned size then
          let mem := h.heapPtr + ptr
          (h.takeBlock ptr size).moveFree mem >>= fun h =>
            if mem + sizeofStructMem + size ≤ h.heapEnd ∧ (mem + sizeofStructMem) % 4 = 0 ∧
                mem % 4 = 0 then
              some (mem + sizeofStructMem, h)
            else
              none
        else
          some (0, h)

/-- `rt_free`. -/
def rtFree (h : Heap) (rmem : ℕ) : Option Heap :=
  if rmem = 0 then
    some h
  else if rmem % 4 = 0 ∧ h.heapPtr ≤ rmem ∧ rmem < h.heapEnd then
    let mem := rmem - sizeofStructMem
    if used h.mem mem ≠ 0 ∧ magic h.mem mem = heapMagic then
      let m := putMagic (putUsed h.mem mem 0) mem heapMagic
      let h := { h with
        mem := m
        lfree := if mem < h.lfree then mem else h.lfree
        usedMem := sub32 h.usedMem (sub32 (next m mem) (mem - h.heapPtr)) }
      h.plugHoles mem
    else
      none
  else
    none

/-- `rt_realloc`. -/
def rtRealloc (h : Heap) (rmem newsize : ℕ) : Option (ℕ × Heap) :=
  let newsize := rtAlign newsize
  if h.memSizeAligned < newsize then
    some (0, h)
  else if newsize = 0 then
    (h.rtFree rmem).map fun h => (0, h)
  else if rmem = 0 then
    h.rtMalloc newsize
  else if rmem < h.heapPtr ∨ h.heapEnd ≤ rmem then
    some (rmem, h)
  else
    let mem := rmem - sizeofStructMem
    let ptr := mem - h.heapPtr
    let size := sub32 (sub32 (next h.mem mem) ptr) sizeofStructMem
    if size = newsize then
      some (rmem, h)
    else if newsize + sizeofStructMem + minSize < size then
      -- split the block
      let h := { h with usedMem := sub32 h.usedMem (sub32 size newsize) }
      let ptr2 := ptr + sizeofStructMem + newsize
      let mem2 := h.heapPtr + ptr2
      let h := (h.makeRemainder ptr ptr2).linkRemainder ptr2
      let h := { h with lfree := if mem2 < h.lfree then mem2 else h.lfree }
      (h.plugHoles mem2).map fun h => (rmem, h)
    else
      -- another block
      h.rtMalloc newsize >>= fun (nmem, h) =>
        if nmem = 0 then
          some (nmem, h)
        else
          (rtFree { h with mem := rtMemcpy h.mem nmem rmem (min size newsize) } rmem).map fun h =>
            (nmem, h)

/-- `rt_calloc`. -/
def rtCalloc (h : Heap) (count size : ℕ) : Option (ℕ × Heap) :=
  let bytes := count * size % 2 ^ 32
  (h.rtMalloc bytes).map fun (p, h) =>
    (p, if p = 0 then h else { h with mem := rtMemset h.mem p 0 bytes })

end Heap

end OsesProject
