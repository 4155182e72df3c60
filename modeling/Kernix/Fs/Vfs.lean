import Kernix.Common.Array
import Kernix.Memory.Heap

/-! The objects of `vfs.h` and the parts of `vfs.c` that every file system uses.
Nodes, open files and the private records of the drivers lie on the kernel heap
and are found by their addresses; `NULL` is 0. The memory holds the headers of the
heap and the contents of the files. -/

namespace Kernix
open ByteMemory

abbrev fsMaxMnts : Nat := 20
abbrev fsMaxFds : Nat := 64
abbrev fsMaxPath : Nat := 200

def fsFile : UInt8 := 0x01
def fsDir : UInt8 := 0x02
def fsDev : UInt8 := 0x04

def oRdonly : Nat := 0x01
def oWronly : Nat := 0x02
def oCreat : Nat := 0x04

abbrev fsNodeSize : Nat := 128
abbrev fsFileSize : Nat := 24
abbrev tmpfsDataSize : Nat := 16
abbrev devfsDataSize : Nat := 16

/-- The tables of operations. A node of ext4 never gets one. -/
inductive FsOps where
  | tmpfs
  | devfs
  deriving DecidableEq, Repr

inductive FsType where
  | tmpfs
  | devfs
  | ext4
  deriving DecidableEq, Repr

def FsType.name : FsType → List UInt8
  | .tmpfs => literal "tmpfs"
  | .devfs => literal "devfs"
  | .ext4 => literal "ext4"

structure FsNode where
  name : Fin 64 → UInt8
  type : UInt8
  size : Nat
  ops : Option FsOps
  priv : Nat
  children : Nat
  next : Nat
  parent : Nat

structure FsFile where
  node : Nat
  pos : Nat
  flags : Nat

structure FsMnt where
  path : Fin fsMaxPath → UInt8
  type : Option FsType
  root : Nat
  priv : Nat
  active : Bool

structure TmpfsData where
  data : Nat
  cap : Nat

/-- What a device driver enrolls. Its hooks are its own; they may keep a state of
type `δ`, which all drivers share. -/
structure ComponentHandler (δ : Type) where
  attachmentPoint : List UInt8
  access : Option (List UInt8 → δ → Nat × δ)
  /-- The result, with the bytes that were put into the caller's buffer. -/
  retrieve : Option (Nat → Nat → δ → Int × List UInt8 × δ)
  store : Option (Nat → List UInt8 → δ → Int × δ)

structure DevfsData (δ : Type) where
  handler : Option (ComponentHandler δ)
  handle : Nat

structure FsState (δ : Type) where
  memory : Memory
  /-- `fs_kernel_memory`. -/
  kernelMemory : Nat
  mnts : Fin fsMaxMnts → FsMnt
  fds : Fin fsMaxFds → Nat
  types : List FsType
  nodes : Nat → FsNode
  files : Nat → FsFile
  tmpfsDatas : Nat → TmpfsData
  devfsDatas : Nat → DevfsData δ
  devfsRoot : Nat
  initBootLog : Int
  devices : δ

variable {δ : Type}

namespace FsState

def setMnt (state : FsState δ) (slot : Fin fsMaxMnts) (mnt : FsMnt) : FsState δ :=
  { state with mnts := Function.update state.mnts slot mnt }

def setFd (state : FsState δ) (fd : Fin fsMaxFds) (file : Nat) : FsState δ :=
  { state with fds := Function.update state.fds fd file }

def setNode (state : FsState δ) (address : Nat) (node : FsNode) : FsState δ :=
  { state with nodes := Function.update state.nodes address node }

def setFile (state : FsState δ) (address : Nat) (file : FsFile) : FsState δ :=
  { state with files := Function.update state.files address file }

def setTmpfsData (state : FsState δ) (address : Nat) (data : TmpfsData) : FsState δ :=
  { state with tmpfsDatas := Function.update state.tmpfsDatas address data }

def setDevfsData (state : FsState δ) (address : Nat) (data : DevfsData δ) : FsState δ :=
  { state with devfsDatas := Function.update state.devfsDatas address data }

/-- `kernel_memory_create` on the heap of the file systems. C takes it for granted
that such a loop ends. -/
def create (state : FsState δ) (size : Nat) : Except Stop (Nat × FsState δ) :=
  match kernelMemoryCreate state.memory state.kernelMemory size with
  | some (ptr, memory) => .ok (ptr, { state with memory })
  | none => .error .undefined

def free (state : FsState δ) (ptr : Nat) : Except Stop (FsState δ) :=
  match kernelMemoryFree state.memory state.kernelMemory ptr with
  | some memory => .ok { state with memory }
  | none => .error .undefined

end FsState

/-- The `int` of a descriptor as an index of `fds`. -/
def fdSlot (fd : Int) : Option (Fin fsMaxFds) :=
  if inside : 0 ≤ fd ∧ fd < fsMaxFds then some ⟨fd.toNat, by omega⟩ else none

/-- The body of the loop of `find_mnt`, with `best` and `best_len`. -/
def betterMnt (mnts : Fin fsMaxMnts → FsMnt) (path : List UInt8) (best : Option (Fin fsMaxMnts) × Nat)
    (slot : Fin fsMaxMnts) : Option (Fin fsMaxMnts) × Nat :=
  let mounted := text (mnts slot).path
  if !(mnts slot).active then best
  else if best.2 < mounted.length ∧ strStartsWith path mounted then (some slot, mounted.length)
  else best

def findMnt (mnts : Fin fsMaxMnts → FsMnt) (path : List UInt8) : Option (Fin fsMaxMnts) :=
  ((List.finRange fsMaxMnts).foldl (betterMnt mnts path) (none, 0)).1

def fsAllocFd (state : FsState δ) (file : Nat) : Int × FsState δ :=
  match (List.finRange fsMaxFds).find? fun fd => 3 ≤ fd.val && state.fds fd = 0 with
  | some fd => (fd.val, state.setFd fd file)
  | none => (-1, state)

def fsFreeFd (state : FsState δ) (fd : Int) : FsState δ :=
  match fdSlot fd with
  | some slot => state.setFd slot 0
  | none => state

def fsGetFile (state : FsState δ) (fd : Int) : Nat :=
  match fdSlot fd with
  | some slot => state.fds slot
  | none => 0

def fsMknode (state : FsState δ) (name : List UInt8) (type : UInt8) : Except Stop (Nat × FsState δ) := do
  let (node, state) ← state.create fsNodeSize
  if node = 0 then return (0, state)
  let name ← strCopy (fun _ => 0) name
  return (node, state.setNode node ⟨name, type, 0, none, 0, 0, 0, 0⟩)

def fsAddchild (state : FsState δ) (parent child : Nat) : Int × FsState δ :=
  if parent = 0 ∨ child = 0 then (-1, state)
  else
    let state := state.setNode child { state.nodes child with parent }
    let state := state.setNode child { state.nodes child with next := (state.nodes parent).children }
    let state := state.setNode parent { state.nodes parent with children := child }
    (0, state)

def seekSet : Int := 0
def seekCur : Int := 1
def seekEnd : Int := 2

def fsLseek (state : FsState δ) (fd offset whence : Int) : Int × FsState δ :=
  let file := fsGetFile state fd
  let current := state.files file
  let move (pos : Nat) : Int × FsState δ := (i64 pos, state.setFile file { current with pos })
  if file = 0 then (-1, state)
  else if whence = seekSet then move (u64OfInt offset)
  else if whence = seekCur then move (u64 (current.pos + u64OfInt offset))
  else if whence = seekEnd then move (u64 ((state.nodes current.node).size + u64OfInt offset))
  else (-1, state)

end Kernix
