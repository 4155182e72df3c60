import Kernix.Memory.Physmem
import Kernix.Drivers.Memory

/-! The four-level page tables of `paging.c`. Tables lie in physical memory and are
reached through the direct map: a pointer is a physical address plus the offset that the
boot loader reports. `map_region` maps a region page by page and then clears it through its
new addresses; what the processor makes of an address is a parameter of it: the physical
address of a store, or nothing where the store ends in an exception. -/

namespace Kernix
open ByteMemory

abbrev ptePresent : Nat := 1 <<< 0
abbrev pteWritable : Nat := 1 <<< 1
/-- The header defines it, and no walk tests it. -/
abbrev pteHuge : Nat := 1 <<< 7

/-- The bits of an entry that hold a physical address. -/
abbrev pteAddress : Nat := 0x000FFFFFFFFFF000

/-- Physical memory, the static `kernel_pml4`, and the frame allocator. -/
structure Paging where
  memory : Memory
  kernelPml4 : Nat
  physmem : Physmem

def physToVirt (offset physAddr : Nat) : Nat := u64 (physAddr + offset)

def virtToPhys (offset virtAddr : Nat) : Nat := u64Sub virtAddr offset

/-- `table->entries[index]`, read through the direct map. -/
def entries (offset : Nat) (memory : Memory) (table index : Nat) : Nat :=
  load memory (virtToPhys offset (u64 (table + 8 * index))) 8

def setEntries (offset : Nat) (memory : Memory) (table index value : Nat) : Memory :=
  store memory (virtToPhys offset (u64 (table + 8 * index))) 8 value

def pml4Index (virtualAddr : Nat) : Nat := (virtualAddr >>> 39) &&& 0x1FF
def pdpIndex (virtualAddr : Nat) : Nat := (virtualAddr >>> 30) &&& 0x1FF
def pdIndex (virtualAddr : Nat) : Nat := (virtualAddr >>> 21) &&& 0x1FF
def ptIndex (virtualAddr : Nat) : Nat := (virtualAddr >>> 12) &&& 0x1FF

/-- The block that `paging_map_page` repeats for each level: follow a present
entry, or allocate, link and zero the table it should point to. -/
def nextTable (offset : Nat) (paging : Paging) (table index : Nat) (message : String) : Except Stop (Nat × Paging) :=
  if entries offset paging.memory table index &&& ptePresent = 0 then do
    let (phys, physmem) ← physmemAllocTo paging.physmem 1
    if phys = 0 then .error (.panic message)
    else
      let memory := setEntries offset paging.memory table index ((phys &&& pteAddress) ||| ptePresent ||| pteWritable)
      let next := u64 (phys + offset)
      return (next, { paging with memory := memset memory (virtToPhys offset next) 0 pageSize, physmem })
  else
    let phys := entries offset paging.memory table index &&& pteAddress
    return (u64 (phys + offset), paging)

/-- `paging_map_page`. The final `invlpg` drops a cached translation and leaves memory alone. -/
def pagingMapPage (offset : Nat) (paging : Paging) (virtualAddr physicalAddr flags : Nat) : Except Stop Paging := do
  let (pdpt, paging) ← nextTable offset paging paging.kernelPml4 (pml4Index virtualAddr) "Could not allocate PDPT!"
  let (pd, paging) ← nextTable offset paging pdpt (pdpIndex virtualAddr) "Could not allocate PD!"
  let (pt, paging) ← nextTable offset paging pd (pdIndex virtualAddr) "Could not allocate PT!"
  return { paging with
    memory := setEntries offset paging.memory pt (ptIndex virtualAddr) ((physicalAddr &&& pteAddress) ||| flags) }

def isPageMapped (offset : Nat) (paging : Paging) (virtualAddr : Nat) : Bool :=
  let entry := entries offset paging.memory paging.kernelPml4 (pml4Index virtualAddr)
  if entry &&& ptePresent = 0 then false
  else
    let pdpt := u64 ((entry &&& pteAddress) + offset)
    let entry := entries offset paging.memory pdpt (pdpIndex virtualAddr)
    if entry &&& ptePresent = 0 then false
    else
      let pd := u64 ((entry &&& pteAddress) + offset)
      let entry := entries offset paging.memory pd (pdIndex virtualAddr)
      if entry &&& ptePresent = 0 then false
      else
        let pt := u64 ((entry &&& pteAddress) + offset)
        decide (entries offset paging.memory pt (ptIndex virtualAddr) &&& ptePresent ≠ 0)

section Regions

section stores
variable (writable : Paging → Nat → Option Nat)

/-- A store that stays inside a page. An exception ends in `initiate_fault_panic`, which
has no text for these vectors. -/
def storeThrough (paging : Paging) (address count value : Nat) : Except Stop Paging :=
  match writable paging address with
  | none => .error (.panic "")
  | some physical => .ok { paging with memory := store paging.memory physical count value }

/-- The first loop of `memset`, with the state, `p` and `n` it ends with. -/
def memsetHeadThrough (val : Nat) : Nat → Paging → Nat → Except Stop (Paging × Nat × Nat)
  | 0, paging, p => .ok (paging, p, 0)
  | n + 1, paging, p =>
    if p % 4 ≠ 0 then do
      let paging ← storeThrough writable paging p 1 val
      memsetHeadThrough val n paging (u64 (p + 1))
    else .ok (paging, p, n + 1)

/-- The loop over the words. -/
def memsetWordsThrough (val32 : Nat) : Nat → Paging → Nat → Except Stop (Paging × Nat)
  | 0, paging, p => .ok (paging, p)
  | n32 + 1, paging, p => do
    let paging ← storeThrough writable paging p 4 val32
    memsetWordsThrough val32 n32 paging (u64 (p + 4))

/-- The loop over the remaining bytes. -/
def memsetTailThrough (val : Nat) : Nat → Paging → Nat → Except Stop Paging
  | 0, paging, _ => .ok paging
  | n + 1, paging, p => do
    let paging ← storeThrough writable paging p 1 val
    memsetTailThrough val n paging (u64 (p + 1))

/-- `memset` of a range of virtual addresses. -/
def memsetThrough (paging : Paging) (ptr : Nat) (val : UInt8) (n : Nat) : Except Stop Paging := do
  let val := val.toNat
  let val32 := val ||| (val <<< 8) ||| (val <<< 16) ||| (val <<< 24)
  let (paging, p, n) ← memsetHeadThrough writable val n paging ptr
  let (paging, p) ← memsetWordsThrough writable val32 (n / 4) paging p
  memsetTailThrough writable val (n % 4) paging p

end stores

/-- The loop over the pages, from the one at `i` on. -/
def mapPages (offset phys virt : Nat) : Nat → Nat → Paging → Except Stop Paging
  | 0, _, paging => .ok paging
  | left + 1, i, paging => do
    let paging ← pagingMapPage offset paging (u64 (virt + i * pageSize)) (u64 (phys + i * pageSize))
      (ptePresent ||| pteWritable)
    mapPages offset phys virt left (i + 1) paging

def mapRegion (writable : Paging → Nat → Option Nat) (offset : Nat) (paging : Paging) (phys virt size : Nat) :
    Except Stop Paging := do
  let paging ← mapPages offset phys virt (size / pageSize) 0 paging
  memsetThrough writable paging virt 0 size

def mapRegionAlloc (writable : Paging → Nat → Option Nat) (offset : Nat) (paging : Paging) (virt size : Nat) :
    Except Stop (Nat × Paging) := do
  let physFrames := size / pageSize
  let (phys, physmem) ← physmemAllocTo paging.physmem physFrames
  if phys = 0 then .error (.panic "ERROR: Could not allocate physmem in lime request")
  else
    let paging ← mapRegion writable offset { paging with physmem } phys virt size
    return (phys, paging)

end Regions

end Kernix
