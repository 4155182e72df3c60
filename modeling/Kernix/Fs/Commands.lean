import Kernix.Fs.Tmpfs
import Kernix.Common.Array

/-! Paths and the calls of `commands.c`. A call goes through the table of the node it is
about; a table may lack an operation, and a node may lack a table. Behind them stand the
types, the mount table and the device nodes: `fs_register`, `fs_mount`, `fs_init` and
`devfs_register_device`. -/

namespace Kernix
open ByteMemory

variable {δ : Type}

/-- `ops->lookup`, which answers `NULL` for a node that has none. -/
def lookupIn (state : FsState δ) (dir : Nat) (name : List UInt8) : Except Stop Nat :=
  match (state.nodes dir).ops with
  | none => .ok 0
  | some .tmpfs => tmpfsLookup state dir name
  | some .devfs => devfsLookup state dir name

/-- `ops->create`, for a node that has it. -/
def createIn (state : FsState δ) (dir : Nat) : Option (List UInt8 → Except Stop (Int × FsState δ)) :=
  match (state.nodes dir).ops with
  | some .tmpfs => some (tmpfsCreate state dir)
  | _ => none

/-- `ops->mkdir`, for a node that has it. -/
def mkdirIn (state : FsState δ) (dir : Nat) : Option (List UInt8 → Except Stop (Int × FsState δ)) :=
  match (state.nodes dir).ops with
  | some .tmpfs => some (tmpfsMkdir state dir)
  | _ => none

def slash : UInt8 := 0x2F

/-- The loop of `fs_resolve`: the rest of the path, the node it has come to and the
component it is in. A component is cut off after 63 bytes. -/
def resolveFrom (state : FsState δ) : List UInt8 → Nat → List UInt8 → Except Stop Nat
  | [], cur, comp => if 0 < comp.length then lookupIn state cur comp else .ok cur
  | byte :: rel, cur, comp =>
    if byte = slash then
      if 0 < comp.length then do
        let cur ← lookupIn state cur comp
        if cur = 0 then return 0
        resolveFrom state rel cur []
      else resolveFrom state rel cur comp
    else resolveFrom state rel cur (if comp.length < 63 then comp ++ [byte] else comp)

/-- What is left of a path behind the target of its mount. -/
def relativePath (mounted path : List UInt8) : List UInt8 :=
  match path.drop mounted.length with
  | byte :: rel => if byte = slash then rel else byte :: rel
  | [] => []

def fsResolve (state : FsState δ) (path : List UInt8) : Except Stop Nat :=
  if path.head? ≠ some slash then .ok 0
  else
    match findMnt state.mnts path with
    | none => .ok 0
    | some slot =>
      if (state.mnts slot).root = 0 then .ok 0
      else resolveFrom state (relativePath (text (state.mnts slot).path) path) (state.mnts slot).root []

/-- `for (p = path; *p; p++) if (*p == '/') last = p;`, as positions in the path. -/
def lastSlash : List UInt8 → Nat → Nat → Nat
  | [], _, last => last
  | byte :: rest, p, last => lastSlash rest (p + 1) (if byte = slash then p else last)

/-- The parent and the last component of a path, as `fs_open` and `fs_mkdir` copy
them: the parent goes into an array of 200 bytes, which the terminator may miss,
and the component into one of 64. An empty path is read past its end. -/
def splitPath (path : List UInt8) : Except Stop (List UInt8 × List UInt8) := do
  let last := lastSlash path 0 0
  let plen := if i32 last = 0 then 1 else i32 last
  if plen < 0 ∨ fsMaxPath ≤ plen ∨ path = [] then throw .undefined
  let name : Fin 64 → UInt8 ← strCopy (fun _ => 0) (path.drop (last + 1))
  return (path.take plen.toNat, text name)

/-- The `O_CREAT` part of `fs_open`: create the file and resolve its path again. -/
def openCreating (state : FsState δ) (path : List UInt8) : Except Stop (Nat × FsState δ) := do
  let (ppath, fname) ← splitPath path
  let parent ← fsResolve state ppath
  if parent = 0 then return (0, state)
  match createIn state parent with
  | none => return (0, state)
  | some create =>
    let (_, state) ← create fname
    let node ← fsResolve state path
    return (node, state)

/-- `node->ops->open`, where there is one. -/
def openNode (state : FsState δ) (node : Nat) : Int × FsState δ :=
  match (state.nodes node).ops with
  | none => (0, state)
  | some .tmpfs => (tmpfsOpen, state)
  | some .devfs => devfsOpen state node

def fsOpen (state : FsState δ) (path : List UInt8) (flags : Nat) : Except Stop (Int × FsState δ) := do
  let node ← fsResolve state path
  let (node, state) ← if node = 0 ∧ flags &&& oCreat ≠ 0 then openCreating state path else .ok (node, state)
  if node = 0 then return (-1, state)
  let (file, state) ← state.create fsFileSize
  if file = 0 then return (-1, state)
  let state := state.setFile file ⟨node, 0, flags⟩
  let (opened, state) := openNode state node
  if opened ≠ 0 then
    let state ← state.free file
    return (-1, state)
  let (fd, state) := fsAllocFd state file
  if fd < 0 then
    let state ← state.free file
    return (-1, state)
  return (fd, state)

def fsClose (state : FsState δ) (fd : Int) : Except Stop (Int × FsState δ) := do
  let file := fsGetFile state fd
  if file = 0 then return (-1, state)
  let state :=
    match (state.nodes (state.files file).node).ops with
    | none => state
    | some .tmpfs => state
    | some .devfs => (devfsClose state file).2
  let state ← state.free file
  return (0, fsFreeFd state fd)

/-- The result, with the bytes that were put into the caller's buffer. -/
def fsRead (state : FsState δ) (fd : Int) (cnt : Nat) : Except Stop (Int × List UInt8 × FsState δ) :=
  let file := fsGetFile state fd
  if file = 0 then .ok (-1, [], state)
  else
    match (state.nodes (state.files file).node).ops with
    | none => .ok (-1, [], state)
    | some .tmpfs => tmpfsRead state file cnt
    | some .devfs => .ok (devfsRead state file cnt)

def fsWrite (state : FsState δ) (fd : Int) (buf : List UInt8) : Except Stop (Int × FsState δ) :=
  let file := fsGetFile state fd
  if file = 0 then .ok (-1, state)
  else
    match (state.nodes (state.files file).node).ops with
    | none => .ok (-1, state)
    | some .tmpfs => tmpfsWrite state file buf
    | some .devfs => .ok (devfsWrite state file buf)

/-- `SYSTEM_PRINT`, which keeps a copy of what it prints in the boot log. -/
def systemPrint (state : FsState δ) (msg : List UInt8) : Except Stop (FsState δ) :=
  if 0 ≤ state.initBootLog then (fsWrite state state.initBootLog msg).map Prod.snd else .ok state

def systemPrintAll (state : FsState δ) (msgs : List (List UInt8)) : Except Stop (FsState δ) :=
  msgs.foldlM systemPrint state

def fsMkdir (state : FsState δ) (path : List UInt8) : Except Stop (Int × FsState δ) := do
  let (ppath, dname) ← splitPath path
  let parent ← fsResolve state ppath
  if parent = 0 then return (-1, state)
  match mkdirIn state parent with
  | none => return (-1, state)
  | some mkdir =>
    let (ret, state) ← mkdir dname
    if ret ≠ 0 then return (ret, state)
    let state ← systemPrintAll state [literal "     ", literal "mkdir ", path, literal "\n"]
    return (ret, state)

/-- The arrays into which a path is split: `ppath`, and `fname` or `dname`. What strings
they hold is what `splitPath` returns. -/
structure PathBuffers where
  ppath : Fin fsMaxPath → UInt8
  fname : Fin 64 → UInt8

/-- `path[i]`, up to the terminator. -/
def pathByte (path : List UInt8) (i : Nat) : Except Stop UInt8 :=
  if i ≤ path.length then .ok (path.getD i 0) else .error .undefined

/-- `for (int i = 0; i < plen && i < FS_MAX_PATH - 1; i++) ppath[i] = path[i];`, with
`left` passes to the second bound. -/
def copyFront (path : List UInt8) (plen : Int) : Nat → Nat → (Fin fsMaxPath → UInt8) → Except Stop (Fin fsMaxPath → UInt8)
  | 0, _, ppath => .ok ppath
  | left + 1, i, ppath =>
    if (i : Int) < plen then do
      let byte ← pathByte path i
      let ppath ← setElement ppath i byte
      copyFront path plen left (i + 1) ppath
    else .ok ppath

/-- The terminator goes behind the copied bytes, wherever that is. Behind the
terminator of an empty path there is nothing to copy. -/
def splitBuffers (buffers : PathBuffers) (path : List UInt8) : Except Stop PathBuffers := do
  let last := lastSlash path 0 0
  let plen := if i32 last = 0 then 1 else i32 last
  let ppath ← copyFront path plen (fsMaxPath - 1) 0 buffers.ppath
  let ppath ← setElement ppath plen 0
  if path = [] then throw .undefined
  let fname ← strCopy buffers.fname (path.drop (last + 1))
  return ⟨ppath, fname⟩

section Mounts

/-- What `ext4_mount` makes of a disk: its result, the root and the private data
of the mount, and the heap and the nodes behind it. -/
structure Ext4Mounted where
  ret : Int
  root : Nat
  priv : Nat
  memory : Memory
  nodes : Nat → FsNode

/-- `ext4_mount`, from the source and the target of a mount. -/
abbrev Ext4Mount (δ : Type) :=
  FsState δ → Option (List UInt8) → List UInt8 → Except Stop Ext4Mounted

def fsRegister (state : FsState δ) (type : FsType) : Except Stop (Int × FsState δ) := do
  if 8 ≤ state.types.length then return (-1, state)
  let state := { state with types := state.types ++ [type] }
  let state ← systemPrintAll state [literal "[FS] ", literal "registered: ", type.name, literal "\n"]
  return (0, state)

def tmpfsRegister (state : FsState δ) : Except Stop (Int × FsState δ) := fsRegister state .tmpfs

def devfsRegister (state : FsState δ) : Except Stop (Int × FsState δ) := fsRegister state .devfs

def ext4Register (state : FsState δ) : Except Stop (Int × FsState δ) := fsRegister state .ext4

/-- `type->mount`. -/
def mountAs (ext4Mount : Ext4Mount δ) (state : FsState δ) (slot : Fin fsMaxMnts) (src : Option (List UInt8))
    (tgt : List UInt8) : FsType → Except Stop (Int × FsState δ)
  | .tmpfs => tmpfsMount state slot
  | .devfs => devfsMount state slot
  | .ext4 => do
    let mounted ← ext4Mount state src tgt
    let state := { state with memory := mounted.memory, nodes := mounted.nodes }
    return (mounted.ret, state.setMnt slot { state.mnts slot with root := mounted.root, priv := mounted.priv })

def fsMount (ext4Mount : Ext4Mount δ) (state : FsState δ) (src : Option (List UInt8)) (tgt typeName : List UInt8) :
    Except Stop (Int × FsState δ) := do
  match (List.finRange fsMaxMnts).find? fun slot => !(state.mnts slot).active with
  | none => return (-1, state)
  | some slot =>
    match state.types.find? fun type => strEquals type.name typeName with
    | none => return (-1, state)
    | some type =>
      let path ← strCopy (state.mnts slot).path tgt
      let state := state.setMnt slot { state.mnts slot with path, type, root := 0, priv := 0 }
      let (ret, state) ← mountAs ext4Mount state slot src tgt type
      if ret ≠ 0 then return (ret, state)
      let state := state.setMnt slot { state.mnts slot with active := true }
      let state ← systemPrintAll state
        [literal "[FS] ", literal "mount ", typeName, literal " to ", tgt, literal "\n"]
      return (0, state)

/-- The static data of `vfs.c` before `fs_init`, which C fills with zeros. -/
def fsStatic (memory : Memory) (kernelMemory : Nat) (devices : δ) : FsState δ where
  memory
  kernelMemory
  mnts _ := ⟨fun _ => 0, none, 0, 0, false⟩
  fds _ := 0
  types := []
  nodes _ := ⟨fun _ => 0, 0, 0, none, 0, 0, 0, 0⟩
  files _ := ⟨0, 0, 0⟩
  tmpfsDatas _ := ⟨0, 0⟩
  devfsDatas _ := ⟨none, 0⟩
  devfsRoot := 0
  initBootLog := -1
  devices

def fsInit (state : FsState δ) : Except Stop (FsState δ) := do
  let state ← systemPrintAll state [literal "[FS] ", literal "init generic VFS\n"]
  return { state with
    mnts := fun slot => { state.mnts slot with active := false }
    fds := fun _ => 0
    types := [] }

def devfsRegisterDevice (state : FsState δ) (handler : ComponentHandler δ) : Except Stop (Int × FsState δ) := do
  if state.devfsRoot = 0 then return (-1, state)
  let path := handler.attachmentPoint
  let name := if strStartsWith path (literal "/dev/") then path.drop 5 else path
  let found ← devfsLookup state state.devfsRoot name
  if found ≠ 0 then return (-1, state)
  let (node, state) ← fsMknode state name fsDev
  if node = 0 then return (-1, state)
  let (data, state) ← state.create devfsDataSize
  if data = 0 then
    let state ← state.free node
    return (-1, state)
  let state := state.setDevfsData data ⟨some handler, 0⟩
  let state := state.setNode node { state.nodes node with priv := data, ops := some .devfs }
  let state ← systemPrintAll state [literal "[DevFS] ", literal "registered ", name, literal "\n"]
  return (0, state)

end Mounts

end Kernix
