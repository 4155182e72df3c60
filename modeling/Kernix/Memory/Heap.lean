import Kernix.Machine
import Kernix.Lib.ByteMemory
import Kernix.Drivers.Memory

/-! The kernel heap of `heap.c`: a doubly linked list of blocks that tile one region of
memory. Headers live in byte memory at the offsets of `heap_block_t`, so a stray write can
reach them. In front of it stand the constants of `mem.h`, and behind it the manager of
`kernel_memory.c`, whose record sits at the start of the region that it manages, in the
same memory, and keeps a running account of the bytes in use. -/

namespace Kernix
open ByteMemory

abbrev pageSize : Nat := 4096
abbrev heapSize : Nat := 1024 * 1024 * 32
abbrev kernelMemorySizeSlab : Nat := 1024 * 1024 * 8
abbrev kernelMemorySizeIo : Nat := 1024 * 1024 * 4
abbrev kernelMemorySizeDma : Nat := 1024 * 1024 * 2
abbrev kernelMemorySizeNotheap : Nat :=
  pageSize + pageSize + kernelMemorySizeSlab + kernelMemorySizeIo + kernelMemorySizeDma
abbrev kernelMemorySizeHeap : Nat := heapSize - kernelMemorySizeNotheap
abbrev kernelMemoryOffsetSlabMeta : Nat := pageSize
abbrev kernelMemoryOffsetSlabData : Nat := kernelMemoryOffsetSlabMeta + pageSize
abbrev kernelMemoryOffsetIo : Nat := kernelMemoryOffsetSlabData + kernelMemorySizeSlab
abbrev kernelMemoryOffsetDma : Nat := kernelMemoryOffsetIo + kernelMemorySizeIo
abbrev kernelMemoryOffsetHeap : Nat := kernelMemoryOffsetDma + kernelMemorySizeDma

/-- `HEAP_START`, the address `_start` gives to `kernel_memory_init`. -/
abbrev heapStart : Nat := 0xFFFF800000000000

def frameFree : Nat := 0x00
def frameUsed : Nat := 0x01
def frameKernel : Nat := 0x02

def blockMagic : Nat := 0xDEADBEEF

/-- `sizeof(heap_block_t)`. -/
abbrev headerSize : Nat := 40

def sizeMax : Nat := 2 ^ 64 - 1

/-- No list has more nodes than there are addresses, so a traversal that runs
out of this fuel is in a cycle and the C loop does not end. -/
def addressSpace : Nat := 2 ^ 64

namespace HeapBlock

def magic (memory : Memory) (block : Nat) : Nat := load memory block 4
def size (memory : Memory) (block : Nat) : Nat := load memory (block + 8) 8
def next (memory : Memory) (block : Nat) : Nat := load memory (block + 16) 8
def prev (memory : Memory) (block : Nat) : Nat := load memory (block + 24) 8
def used (memory : Memory) (block : Nat) : Nat := load memory (block + 32) 1

def setMagic (memory : Memory) (block value : Nat) : Memory := store memory block 4 value
def setSize (memory : Memory) (block value : Nat) : Memory := store memory (block + 8) 8 value
def setNext (memory : Memory) (block value : Nat) : Memory := store memory (block + 16) 8 value
def setPrev (memory : Memory) (block value : Nat) : Memory := store memory (block + 24) 8 value
def setUsed (memory : Memory) (block value : Nat) : Memory := store memory (block + 32) 1 value

end HeapBlock

open HeapBlock

/-- The body of both loops of `heap_merge_free_blocks`: `left` swallows the
header and the payload of `right` and takes over its successor. -/
def absorb (memory : Memory) (left right : Nat) : Memory :=
  let memory := setSize memory left (u64 (size memory left + headerSize + size memory right))
  let memory := setNext memory left (next memory right)
  if next memory left ≠ 0 then
    if magic memory (next memory left) = blockMagic then setPrev memory (next memory left) left else memory
  else memory

/-- A neighbour that the merge loops take: present, free and with its magic intact. -/
def Mergeable (memory : Memory) (block : Nat) : Prop :=
  block ≠ 0 ∧ used memory block = 0 ∧ magic memory block = blockMagic

instance (memory : Memory) (block : Nat) : Decidable (Mergeable memory block) := by
  unfold Mergeable
  infer_instance

def mergeForward (current : Nat) : Nat → Memory → Nat → Option (Nat × Memory)
  | 0, _, _ => none
  | fuel + 1, memory, ret =>
    if Mergeable memory (next memory current) then
      mergeForward current fuel (absorb memory current (next memory current)) (ret + 1)
    else some (ret, memory)

def mergeBackward : Nat → Memory → Nat → Nat → Option (Nat × Memory)
  | 0, _, _, _ => none
  | fuel + 1, memory, current, ret =>
    if Mergeable memory (prev memory current) then
      mergeBackward fuel (absorb memory (prev memory current) current) (prev memory current) (ret + 1)
    else some (ret, memory)

/-- The number of neighbours merged, with the memory afterwards. -/
def heapMergeFreeBlocks (memory : Memory) (block : Nat) : Option (Nat × Memory) :=
  if magic memory block ≠ blockMagic then some (0, memory)
  else do
    let (ret, memory) ← mergeForward block addressSpace memory 0
    mergeBackward addressSpace memory block ret

/-- The best-fit search of `malloc`; an exact fit ends it early. -/
def findBestFit (memory : Memory) (request : Nat) : Nat → Nat → Nat → Nat → Option Nat
  | 0, _, _, _ => none
  | fuel + 1, current, bestFit, bestSize =>
    if current = 0 then some bestFit
    else if used memory current = 0 ∧ request ≤ size memory current ∧ size memory current < bestSize then
      if size memory current = request then some current
      else findBestFit memory request fuel (next memory current) current (size memory current)
    else findBestFit memory request fuel (next memory current) bestFit bestSize

/-- Cut the tail of a free block off as a new free block. -/
def splitBlock (memory : Memory) (bestFit request : Nat) : Memory :=
  let newBlock := u64 (bestFit + headerSize + request)
  let memory := setMagic memory newBlock blockMagic
  let memory := setSize memory newBlock (u64Sub (u64Sub (size memory bestFit) request) headerSize)
  let memory := setUsed memory newBlock 0
  let memory := setNext memory newBlock (next memory bestFit)
  let memory := setPrev memory newBlock bestFit
  let memory := if next memory bestFit ≠ 0 then setPrev memory (next memory bestFit) newBlock else memory
  let memory := setSize memory bestFit request
  setNext memory bestFit newBlock

/-- `(size + 15) & ~15` in `u64` arithmetic. -/
def roundUp (request : Nat) : Nat := u64 (request + 15) &&& 0xFFFFFFFFFFFFFFF0

/-- The payload pointer or `NULL`, with the memory afterwards. -/
def malloc (memory : Memory) (heap request : Nat) : Option (Nat × Memory) :=
  if heap = 0 ∨ request = 0 then some (0, memory)
  else
    let request := roundUp request
    match findBestFit memory request addressSpace heap 0 sizeMax with
    | none => none
    | some bestFit =>
      if bestFit = 0 then some (0, memory)
      else
        let memory :=
          if u64 (request + headerSize + 16) ≤ size memory bestFit then splitBlock memory bestFit request
          else memory
        some (u64 (bestFit + headerSize), setUsed memory bestFit 1)

/-- What `free` leaves behind: its return value, what it printed and the memory. -/
structure FreeResult where
  merged : Nat
  message : Option String
  memory : Memory

def free (memory : Memory) (ptr : Nat) : Option FreeResult :=
  if ptr = 0 then some ⟨0, none, memory⟩
  else
    let block := u64Sub ptr headerSize
    if magic memory block ≠ blockMagic then
      some ⟨0, some "\n\nERROR: kernel invalid blk! Doube free?\n", memory⟩
    else if used memory block = 0 then some ⟨0, some "\n WARNING: Block already freed\n", memory⟩
    -- The source compares `!size` with the truth value of `1 < 40`, so this is never taken.
    else if (if size memory block = 0 then 1 else 0) > (if 1 < 40 then 1 else 0) then
      some ⟨0, some "\n ERROR: implausible block size\n", memory⟩
    else do
      let (merged, memory) ← heapMergeFreeBlocks (setUsed memory block 0) block
      some ⟨merged, none, memory⟩

section Manager

namespace KernelMemory

def startHeap (memory : Memory) (kernelMemory : Nat) : Nat := load memory (kernelMemory + 32) 8
def totalHeap (memory : Memory) (kernelMemory : Nat) : Nat := load memory (kernelMemory + 96) 8
def usedHeap (memory : Memory) (kernelMemory : Nat) : Nat := load memory (kernelMemory + 104) 8

def setUsedHeap (memory : Memory) (kernelMemory value : Nat) : Memory :=
  store memory (kernelMemory + 104) 8 value

end KernelMemory

open KernelMemory HeapBlock

/-- `sizeof(slab_allocator_t)`: seven sizes of eight bytes. -/
abbrev slabAllocatorSize : Nat := 56

def slabInit (memory : Memory) (ptrSlab ptrSlabMeta ptrSlabData : Nat) : Except Stop Memory :=
  if ptrSlab = 0 then .error (.panic "\nInvalid ptr slab\n")
  else if ptrSlabMeta = 0 then .error (.panic "\nInvalid ptr slab meta\n")
  else if ptrSlabData = 0 then .error (.panic "\nInvalid ptr slab data\n")
  else .ok (memset memory ptrSlab 0 slabAllocatorSize)

def kernelMemoryInit (memory : Memory) (ptr size : Nat) : Except Stop (Nat × Memory) :=
  if ptr = 0 ∨ size < headerSize then .error (.panic "ERROR: Invalid kernel_memory initializing")
  else do
    let startSlabMeta := u64 (ptr + kernelMemoryOffsetSlabMeta)
    let startSlabData := u64 (ptr + kernelMemoryOffsetSlabData)
    let startHeap := u64 (ptr + kernelMemoryOffsetHeap)
    let totalHeap := kernelMemorySizeHeap - headerSize
    let memory := store memory ptr 8 startSlabMeta
    let memory := store memory (ptr + 8) 8 startSlabData
    let memory := store memory (ptr + 16) 8 (u64 (ptr + kernelMemoryOffsetIo))
    let memory := store memory (ptr + 24) 8 (u64 (ptr + kernelMemoryOffsetDma))
    let memory := store memory (ptr + 32) 8 startHeap
    let memory := store memory (ptr + 96) 8 totalHeap
    let memory := setUsedHeap memory ptr 0
    let memory := setMagic memory startHeap blockMagic
    let memory := setSize memory startHeap totalHeap
    let memory := setNext memory startHeap 0
    let memory := setPrev memory startHeap 0
    let memory := setUsed memory startHeap 0
    let memory ← slabInit memory (u64 (ptr + 40)) startSlabMeta startSlabData
    return (ptr, memory)

def kernelMemoryCreate (memory : Memory) (kernelMemory size : Nat) : Option (Nat × Memory) :=
  if kernelMemory = 0 ∨ size = 0 then some (0, memory)
  else do
    let (ptr, memory) ← malloc memory (startHeap memory kernelMemory) size
    if ptr = 0 then return (0, memory)
    let block := u64Sub ptr headerSize
    return (ptr, setUsedHeap memory kernelMemory
      (u64 (usedHeap memory kernelMemory + (HeapBlock.size memory block + headerSize))))

def kernelMemoryAlloc (memory : Memory) (kernelMemory size count : Nat) : Option (Nat × Memory) :=
  if kernelMemory = 0 ∨ size = 0 then some (0, memory)
  else do
    let total := u64 (count * size)
    let (ptr, memory) ← malloc memory (startHeap memory kernelMemory) total
    if ptr = 0 then return (0, memory)
    let memory := memset memory ptr 0 total
    let block := u64Sub ptr headerSize
    return (ptr, setUsedHeap memory kernelMemory
      (u64 (usedHeap memory kernelMemory + (HeapBlock.size memory block + headerSize))))

def kernelMemoryFree (memory : Memory) (kernelMemory ptr : Nat) : Option Memory :=
  if kernelMemory = 0 ∨ ptr = 0 then some memory
  else do
    let block := u64Sub ptr headerSize
    let memory := setUsedHeap memory kernelMemory
      (u64Sub (usedHeap memory kernelMemory) (HeapBlock.size memory block))
    let result ← free memory ptr
    return setUsedHeap result.memory kernelMemory
      (u64Sub (usedHeap result.memory kernelMemory) (headerSize * result.merged))

def kernelMemoryGetTotalSize (memory : Memory) (kernelMemory : Nat) : Nat := totalHeap memory kernelMemory

def kernelMemoryGetUsedSize (memory : Memory) (kernelMemory : Nat) : Nat := usedHeap memory kernelMemory

def kernelMemoryGetFreeSize (memory : Memory) (kernelMemory : Nat) : Nat :=
  u64Sub (totalHeap memory kernelMemory) (usedHeap memory kernelMemory)

end Manager

end Kernix
