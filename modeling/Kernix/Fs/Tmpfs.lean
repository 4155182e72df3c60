import Kernix.Fs.Vfs

/-! The file system in memory, `tmpfs.c`, and that of the devices, `devfs.c`. A file is one
buffer of the kernel heap, which is replaced by a larger one when a write needs it; the nodes
of devices pass every operation on to the handler of a driver. -/

namespace Kernix
open ByteMemory

variable {δ : Type}

def tmpfsOpen : Int := 0

def tmpfsClose : Int := 0

/-- The bytes of an object that an access covers. Past its end C leaves the access undefined. -/
def Within (index count bound : Nat) : Prop := count = 0 ∨ index + count ≤ bound

instance (index count bound : Nat) : Decidable (Within index count bound) := by
  unfold Within
  infer_instance

/-- The result of a read, with the bytes that `memcpy` put into the caller's buffer. -/
def tmpfsRead (state : FsState δ) (address cnt : Nat) : Except Stop (Int × List UInt8 × FsState δ) :=
  let file := state.files address
  let node := state.nodes file.node
  let data := state.tmpfsDatas node.priv
  if node.type ≠ fsFile then .ok (-1, [], state)
  else if node.priv = 0 ∨ data.data = 0 then .ok (0, [], state)
  else if node.size ≤ file.pos then .ok (0, [], state)
  else
    let toRead := if node.size < u64 (file.pos + cnt) then u64Sub node.size file.pos else cnt
    if Within file.pos toRead data.cap then
      let bytes := (List.range toRead).map (bytesFrom (data.data + file.pos) state.memory)
      .ok (i64 toRead, bytes, state.setFile address { file with pos := u64 (file.pos + toRead) })
    else .error .undefined

/-- The private record of a file, made at its first write; `NULL` when the heap is full. -/
def tmpfsRecord (state : FsState δ) (node : Nat) : Except Stop (Nat × FsState δ) :=
  if (state.nodes node).priv = 0 then do
    let (data, state) ← state.create tmpfsDataSize
    if data = 0 then return (0, state)
    let state := state.setTmpfsData data ⟨0, 0⟩
    return (data, state.setNode node { state.nodes node with priv := data })
  else .ok ((state.nodes node).priv, state)

/-- `(needed + 4095) & ~4095` -/
def pageRound (needed : Nat) : Nat := u64 (needed + 4095) &&& 0xFFFFFFFFFFFFF000

/-- Move a file to a buffer that holds `needed` bytes, unless its own does; `false`
when the heap has none. -/
def tmpfsGrow (state : FsState δ) (node data needed : Nat) : Except Stop (Bool × FsState δ) := do
  if needed ≤ (state.tmpfsDatas data).cap then return (true, state)
  let newCap := pageRound needed
  let (newData, state) ← state.create newCap
  if newData = 0 then return (false, state)
  let old := state.tmpfsDatas data
  let size := (state.nodes node).size
  if old.data ≠ 0 ∧ 0 < size then
    if ¬(Within 0 size old.cap ∧ Within 0 size newCap) then throw .undefined
    let state := { state with memory := memcpy state.memory newData (bytesFrom old.data) size }
    let state ← state.free old.data
    return (true, state.setTmpfsData data ⟨newData, newCap⟩)
  return (true, state.setTmpfsData data ⟨newData, newCap⟩)

/-- The end of a write, into a buffer that is large enough. -/
def tmpfsStore (state : FsState δ) (address data : Nat) (buf : List UInt8) : FsState δ :=
  let file := state.files address
  let start := (state.tmpfsDatas data).data + file.pos
  let state := { state with memory := memcpy state.memory start (bytesOf buf) buf.length }
  let file := { file with pos := u64 (file.pos + buf.length) }
  let state := state.setFile address file
  let node := state.nodes file.node
  if node.size < file.pos then state.setNode file.node { node with size := file.pos } else state

def tmpfsWrite (state : FsState δ) (address : Nat) (buf : List UInt8) : Except Stop (Int × FsState δ) := do
  let cnt := buf.length
  let node := (state.files address).node
  if (state.nodes node).type ≠ fsFile then return (-1, state)
  let (data, state) ← tmpfsRecord state node
  if data = 0 then return (-1, state)
  let (grown, state) ← tmpfsGrow state node data (u64 ((state.files address).pos + cnt))
  if !grown then return (-1, state)
  if ¬Within (state.files address).pos cnt (state.tmpfsDatas data).cap then throw .undefined
  return (i64 cnt, tmpfsStore state address data buf)

/-- `while (child)` of the two lookups. A list that never ends is undefined in C. -/
def findChild (nodes : Nat → FsNode) (name : List UInt8) : Nat → Nat → Except Stop Nat
  | 0, _ => .error .undefined
  | fuel + 1, child =>
    if child = 0 then .ok 0
    else if strEquals (text (nodes child).name) name then .ok child
    else findChild nodes name fuel (nodes child).next

def tmpfsLookup (state : FsState δ) (dir : Nat) (name : List UInt8) : Except Stop Nat :=
  if (state.nodes dir).type ≠ fsDir then .ok 0
  else findChild state.nodes name addressSpace (state.nodes dir).children

/-- `tmpfs_create` and `tmpfs_mkdir` differ in the type of the new node. -/
def tmpfsNew (state : FsState δ) (dir : Nat) (name : List UInt8) (type : UInt8) : Except Stop (Int × FsState δ) := do
  if (state.nodes dir).type ≠ fsDir then return (-1, state)
  let found ← tmpfsLookup state dir name
  if found ≠ 0 then return (-1, state)
  let (node, state) ← fsMknode state name type
  if node = 0 then return (-1, state)
  let state := state.setNode node { state.nodes node with ops := (state.nodes dir).ops }
  let (_, state) := fsAddchild state dir node
  return (0, state)

def tmpfsCreate (state : FsState δ) (dir : Nat) (name : List UInt8) : Except Stop (Int × FsState δ) :=
  tmpfsNew state dir name fsFile

def tmpfsMkdir (state : FsState δ) (dir : Nat) (name : List UInt8) : Except Stop (Int × FsState δ) :=
  tmpfsNew state dir name fsDir

def tmpfsMount (state : FsState δ) (slot : Fin fsMaxMnts) : Except Stop (Int × FsState δ) := do
  let (root, state) ← fsMknode state (literal "/") fsDir
  if root = 0 then return (-1, state)
  let state := state.setNode root { state.nodes root with ops := some .tmpfs }
  return (0, state.setMnt slot { state.mnts slot with root })

section Devices

def devfsOpen (state : FsState δ) (node : Nat) : Int × FsState δ :=
  let dev := (state.nodes node).priv
  if dev = 0 then (-1, state)
  else
    match (state.devfsDatas dev).handler with
    | none => (-1, state)
    | some handler =>
      match handler.access with
      | none => (0, state)
      | some access =>
        let (handle, devices) := access (text (state.nodes node).name) state.devices
        let state := { state with devices }
        let state := state.setDevfsData dev { state.devfsDatas dev with handle }
        (if handle = 0 then -1 else 0, state)

def devfsClose (state : FsState δ) (file : Nat) : Int × FsState δ :=
  let dev := (state.nodes (state.files file).node).priv
  if dev = 0 then (-1, state)
  else (0, state.setDevfsData dev { state.devfsDatas dev with handle := 0 })

def devfsRead (state : FsState δ) (file cnt : Nat) : Int × List UInt8 × FsState δ :=
  let dev := (state.nodes (state.files file).node).priv
  if dev = 0 then (-1, [], state)
  else
    match (state.devfsDatas dev).handler.bind ComponentHandler.retrieve with
    | none => (-1, [], state)
    | some retrieve =>
      let (ret, bytes, devices) := retrieve (state.devfsDatas dev).handle cnt state.devices
      (ret, bytes, { state with devices })

def devfsWrite (state : FsState δ) (file : Nat) (buf : List UInt8) : Int × FsState δ :=
  let dev := (state.nodes (state.files file).node).priv
  if dev = 0 then (-1, state)
  else
    match (state.devfsDatas dev).handler.bind ComponentHandler.store with
    | none => (-1, state)
    | some store =>
      let (ret, devices) := store (state.devfsDatas dev).handle buf state.devices
      (ret, { state with devices })

def devfsLookup (state : FsState δ) (dir : Nat) (name : List UInt8) : Except Stop Nat :=
  if (state.nodes dir).type ≠ fsDir then .ok 0
  else findChild state.nodes name addressSpace (state.nodes dir).children

def devfsMount (state : FsState δ) (slot : Fin fsMaxMnts) : Except Stop (Int × FsState δ) := do
  let (root, state) ← fsMknode state (literal "dev") fsDir
  if root = 0 then return (-1, state)
  let state := state.setNode root { state.nodes root with ops := some .devfs }
  let state := state.setMnt slot { state.mnts slot with root }
  return (0, { state with devfsRoot := root })

end Devices

end Kernix
