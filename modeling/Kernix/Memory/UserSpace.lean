import Kernix.Common.Array
import Kernix.Memory.Paging

/-! The processes of `user_space.c`: records in a pool that only grows, in a doubly
linked list, each with a stack and a heap in the window of the user space. The frames of
the two are mapped at the addresses that the record has for them. -/

namespace Kernix

/-- `GRAPHICS_SIZE`. -/
abbrev graphicsSize : Nat := 1024 * 1024 * 32
/-- `ULIME_START`. -/
abbrev ulimeStart : Nat := heapStart + heapSize + graphicsSize
/-- `ULIME_META_SIZE`. -/
abbrev ulimeMetaSize : Nat := 1024 * 1024 * 2
/-- `sizeof(user_space_t)`, with its table of 256 system calls. -/
abbrev userSpaceRecordSize : Nat := 2160
/-- `sizeof(user_space_proc_t)`. -/
abbrev userSpaceProcSize : Nat := 176

def procCreated : Nat := 1
def procReady : Nat := 2
def procRunning : Nat := 3
def procBlocked : Nat := 4
def procZombie : Nat := 5

/-- `user_space_proc_t`, with its pointers as addresses. -/
structure UserSpaceProc where
  pid : Nat
  name : Fin 64 → UInt8
  priority : Nat
  state : Nat
  ptrPagetable : Nat
  entryPoint : Nat
  heapBase : Nat
  heapSize : Nat
  stackBase : Nat
  stackSize : Nat
  physHeap : Nat
  physStack : Nat
  userSpace : Nat
  next : Nat
  prev : Nat

/-- What `memset` makes of a record. -/
def UserSpaceProc.zero : UserSpaceProc := ⟨0, fun _ => 0, 0, 0, 0, 0, 0, 0, 0, 0, 0, 0, 0, 0, 0⟩

/-- `user_space_t` without its system calls, and the records that pointers lead to. -/
structure UserSpace where
  ptrProcList : Nat
  ptrProcCurr : Nat
  ptrThread : Nat
  pidNext : Nat
  tidNext : Nat
  kernelMemory : Nat
  graphicsManager : Nat
  hpr : Nat
  internalPoolBase : Nat
  internalPoolSize : Nat
  internalPoolUsed : Nat
  userSpaceBase : Nat
  userSpaceSize : Nat
  userSpaceUsed : Nat
  procs : Nat → UserSpaceProc

/-- The user space lies at `ULIME_START`, in front of the pool. `NULL` is `none`. -/
def userSpaceInit (hpr kernelMemory graphicsManager : Nat) : Option UserSpace :=
  if kernelMemory = 0 ∨ graphicsManager = 0 then none
  else some {
    ptrProcList := 0
    ptrProcCurr := 0
    ptrThread := 0
    pidNext := 1
    tidNext := 1
    kernelMemory
    graphicsManager
    hpr
    internalPoolBase := ulimeStart + userSpaceRecordSize
    internalPoolSize := ulimeMetaSize - userSpaceRecordSize
    internalPoolUsed := 0
    userSpaceBase := 0x40000000
    userSpaceSize := 0xFFFFFFFF
    userSpaceUsed := 0x40000000
    procs := fun _ => .zero }

/-- A change of the record at an address. -/
def UserSpace.change (space : UserSpace) (address : Nat) (change : UserSpaceProc → UserSpaceProc) : UserSpace :=
  { space with procs := Function.update space.procs address (change (space.procs address)) }

/-- The new record, in front of the list. The name is copied byte by byte up to its
terminator; `user_space` is set in front of the `memset`, which takes it away again. -/
def newProc (space : UserSpace) (name : Fin 64 → UInt8) (entryPoint : Nat) : UserSpaceProc :=
  let heapBase := u64 (space.userSpaceUsed + 16 * 1024)
  { UserSpaceProc.zero with
    pid := space.pidNext
    name
    state := procCreated
    entryPoint
    stackBase := space.userSpaceUsed
    stackSize := 16 * 1024
    heapBase
    heapSize := 64 * 1024
    next := space.ptrProcList }

def userSpaceProcCreate (space : UserSpace) (name : List UInt8) (entryPoint : Nat) : Except Stop (Nat × UserSpace) := do
  if space.internalPoolSize < u64 (space.internalPoolUsed + userSpaceProcSize) then return (0, space)
  let proc := u64 (space.internalPoolBase + space.internalPoolUsed)
  let copied ← strCopy UserSpaceProc.zero.name name
  let created := newProc space copied entryPoint
  let space' := { space with
    internalPoolUsed := u64 (space.internalPoolUsed + userSpaceProcSize)
    pidNext := u64 (space.pidNext + 1)
    userSpaceUsed := u64 (created.heapBase + created.heapSize)
    procs := Function.update space.procs proc created }
  let linked := if space.ptrProcList ≠ 0 then space'.change space.ptrProcList ({ · with prev := proc }) else space'
  return (proc, { linked with ptrProcList := proc })

/-- `proc->user_space->graphics_manager`, as `sys_write` reads it. The only user space lies at `home`. -/
def sysWriteManager (space : UserSpace) (home proc : Nat) : Except Stop Nat :=
  if (space.procs proc).userSpace = home then .ok space.graphicsManager else .error .undefined

/-- The loop of `user_space_proc_kill`. More passes than the pool has records are in a cycle. -/
def killFrom (space : UserSpace) (pid : Nat) : Nat → Nat → Except Stop (Int × UserSpace)
  | 0, _ => .error .halted
  | fuel + 1, proc =>
    if proc = 0 then .ok (1, space)
    else if (space.procs proc).pid = pid then .ok (0, space.change proc ({ · with state := procZombie }))
    else killFrom space pid fuel (space.procs proc).next

def userSpaceProcKill (space : UserSpace) (pid : Nat) : Except Stop (Int × UserSpace) :=
  killFrom space pid (ulimeMetaSize / userSpaceProcSize) space.ptrProcList

def userSpaceSchedule (space : UserSpace) : UserSpace :=
  if space.ptrProcList = 0 then space
  else
    let ptrProcCurr :=
      if space.ptrProcCurr = 0 then space.ptrProcList
      else
        let next := (space.procs space.ptrProcCurr).next
        if next = 0 then space.ptrProcList else next
    let space := { space with ptrProcCurr }
    if (space.procs ptrProcCurr).state = procReady then space.change ptrProcCurr ({ · with state := procRunning })
    else space

/-- The user space, and the memory in which its processes are mapped. -/
structure UserMemory where
  space : UserSpace
  paging : Paging

def userSpaceProcMmap (writable : Paging → Nat → Option Nat) (offset : Nat) (state : UserMemory) (proc : Nat) :
    Except Stop (Int × UserMemory) := do
  let record := state.space.procs proc
  let physStackLen := record.stackSize / pageSize
  let (physStackPos, physmem) ← physmemAllocTo state.paging.physmem physStackLen
  let state := { state with paging := { state.paging with physmem } }
  if physStackPos = 0 then return (1, state)
  let physHeapLen := record.heapSize / pageSize
  let (physHeapPos, physmem) ← physmemAllocTo state.paging.physmem physHeapLen
  let state := { state with paging := { state.paging with physmem } }
  -- The frames of the stack stay taken.
  if physHeapPos = 0 then return (1, state)
  let paging ← mapRegion writable offset state.paging physStackPos record.stackBase record.stackSize
  let paging ← mapRegion writable offset paging physHeapPos record.heapBase record.heapSize
  let space := state.space.change proc ({ · with physStack := physStackPos, physHeap := physHeapPos })
  return (0, { space, paging })

end Kernix
