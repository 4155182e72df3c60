import Kernix.Drivers.Partitions
import Kernix.Fs.Commands
import Kernix.Fs.Ext4Layout

/-! The volumes of `ext4.c`. Its nodes and its buffers lie on the heap of the file
systems; a buffer that a call takes and gives back is a value of the call, and only
the heap remembers it. The blocks of a volume can be read and written over any ATA layer.
The source of a mount is an address: it leads to the name of a partition or to the image
itself. What `ext4_mount` prints is left out. -/

namespace Kernix
open ByteMemory

variable {δ : Type}

/-- `ext4_data`, without the fields that are never read. The array of descriptors is
kept with it: its address, the number of its elements and its bytes. -/
structure Ext4Data where
  device : Nat
  sb : Ext4Superblock
  gd : Nat
  gdCount : Nat
  gdBytes : Memory
  blockSize : Nat
  inodeSize : Nat
  partitionIndex : Int

structure Ext4State (δ : Type) where
  fs : FsState δ
  /-- The `inode` fields of the nodes. -/
  inodes : Nat → Nat
  datas : Nat → Ext4Data
  disk : Disk
  /-- What the stack holds where a call puts an inode, for one call after the other. -/
  stack : Nat → Ext4Inode
  frames : Nat

/-- `kernel_memory_alloc` of one object on the heap of the file systems. -/
def FsState.alloc (state : FsState δ) (size : Nat) : Except Stop (Nat × FsState δ) :=
  match kernelMemoryAlloc state.memory state.kernelMemory size 1 with
  | some (ptr, memory) => .ok (ptr, { state with memory })
  | none => .error .undefined

namespace Ext4State

def alloc (state : Ext4State δ) (size : Nat) : Except Stop (Nat × Ext4State δ) :=
  (state.fs.alloc size).map fun result => (result.1, { state with fs := result.2 })

def free (state : Ext4State δ) (ptr : Nat) : Except Stop (Ext4State δ) :=
  (state.fs.free ptr).map fun fs => { state with fs }

/-- `ext4_inode inode;`, which C does not initialize. -/
def localInode (state : Ext4State δ) : Ext4Inode × Ext4State δ :=
  (state.stack state.frames, { state with frames := state.frames + 1 })

end Ext4State

/-- What `ext4_read_block` does: its result, the bytes that it puts into the buffer,
and how many they are. -/
structure BlockRead where
  ret : Int
  bytes : Memory
  filled : Nat
  disk : Disk

/-- The loop over the sectors of a block, from the one at `i` on. -/
def readSectors (index : Int) (first : Nat) : Nat → Nat → Memory → Disk → BlockRead
  | 0, i, bytes, disk => ⟨0, bytes, i * sectorSize, disk⟩
  | left + 1, i, bytes, disk =>
    let (ret, sector, disk) := partitionsReadSector disk index (u64 (first + i))
    if ret ≠ 0 then ⟨-1, bytes, i * sectorSize, disk⟩
    else readSectors index first left (i + 1) (copy bytes (i * sectorSize) sectorSize (flat sector)) disk

def ext4ReadBlock (disk : Disk) (data : Ext4Data) (block : Nat) : Except Stop BlockRead :=
  if 0 ≤ data.partitionIndex then
    let sectorsPerBlock := data.blockSize / sectorSize
    .ok (readSectors data.partitionIndex (u64 (block * sectorsPerBlock)) sectorsPerBlock 0 (fun _ => 0) disk)
  else
    let offset := u64 (block * data.blockSize)
    if (disk.image data.device).size < offset + data.blockSize then .error .undefined
    else .ok ⟨0, fun i => (disk.image data.device).bytes (offset + i), data.blockSize, disk⟩

/-- The loop over the sectors of a block, from the one at `i` on. -/
def writeSectors (index : Int) (first : Nat) (buf : Memory) : Nat → Nat → Disk → Int × Disk
  | 0, _, disk => (0, disk)
  | left + 1, i, disk =>
    let (ret, disk) := partitionsWriteSector disk index (u64 (first + i)) fun offset => buf (i * sectorSize + offset)
    if ret ≠ 0 then (-1, disk) else writeSectors index first buf left (i + 1) disk

def ext4WriteBlock (disk : Disk) (data : Ext4Data) (block : Nat) (buf : Memory) : Except Stop (Int × Disk) :=
  if 0 ≤ data.partitionIndex then
    let sectorsPerBlock := data.blockSize / sectorSize
    .ok (writeSectors data.partitionIndex (u64 (block * sectorsPerBlock)) buf sectorsPerBlock 0 disk)
  else
    let offset := u64 (block * data.blockSize)
    let image := disk.image data.device
    if image.size < offset + data.blockSize then .error .undefined
    else
      let image := { image with bytes := copy image.bytes offset data.blockSize buf }
      .ok (0, { disk with images := Function.update disk.images data.device image })

/-- A field of `gd[group]`. -/
def Ext4Data.descField (data : Ext4Data) (group offset : Nat) : Except Stop Nat :=
  if group < data.gdCount then .ok (load data.gdBytes (ext4GroupDescSize * group + offset) 4) else .error .undefined

def Ext4Data.inodeBitmapLo (data : Ext4Data) (group : Nat) : Except Stop Nat := data.descField group 4

def Ext4Data.inodeTableLo (data : Ext4Data) (group : Nat) : Except Stop Nat := data.descField group 8

/-- The first four lines of `ext4_read_inode` and `ext4_write_inode`: the block of an
inode and its offset there, in `u32` arithmetic. -/
def inodePlace (data : Ext4Data) (inodeNum : Nat) : Except Stop (Nat × Nat) := do
  let number := (inodeNum + (2 ^ 32 - 1)) % 2 ^ 32
  if data.sb.inodesPerGroup = 0 then throw .undefined
  let group := number / data.sb.inodesPerGroup
  let index := number % data.sb.inodesPerGroup
  let table ← data.inodeTableLo group
  if data.blockSize = 0 then throw .undefined
  let position := index * data.inodeSize % 2 ^ 32
  return ((table + position / data.blockSize) % 2 ^ 32, position % data.blockSize)

/-- The result, and what is in `*inode` then. -/
def ext4ReadInode (state : Ext4State δ) (address inodeNum : Nat) (inode : Ext4Inode) :
    Except Stop (Int × Ext4Inode × Ext4State δ) := do
  let data := state.datas address
  let (block, offset) ← inodePlace data inodeNum
  let (buf, state) ← state.alloc data.blockSize
  if buf = 0 then return (-1, inode, state)
  let read ← ext4ReadBlock state.disk data block
  let state := { state with disk := read.disk }
  if read.ret < 0 then
    let state ← state.free buf
    return (-1, inode, state)
  let bytes : Fin data.blockSize → UInt8 := cut read.bytes
  let inode ← strCopyAt inode bytes offset
  let state ← state.free buf
  return (0, inode, state)

def ext4WriteInode (state : Ext4State δ) (address inodeNum : Nat) (inode : Ext4Inode) :
    Except Stop (Int × Ext4State δ) := do
  let data := state.datas address
  let (block, offset) ← inodePlace data inodeNum
  let (buf, state) ← state.alloc data.blockSize
  if buf = 0 then return (-1, state)
  let read ← ext4ReadBlock state.disk data block
  let state := { state with disk := read.disk }
  if read.ret < 0 then
    let state ← state.free buf
    return (-1, state)
  let bytes : Fin data.blockSize → UInt8 := cut read.bytes
  let text ← textAt inode 0
  let bytes ← strCopyFrom bytes offset text
  let (ret, disk) ← ext4WriteBlock state.disk data block (flat bytes)
  let state ← { state with disk }.free buf
  return (if ret < 0 then -1 else 0, state)

/-- The node of an inode; `NULL` when the inode cannot be read. -/
def ext4CreateNode (state : Ext4State δ) (address inodeNum : Nat) (name : List UInt8) :
    Except Stop (Nat × Ext4State δ) := do
  let (inode, state) := state.localInode
  let (ret, inode, state) ← ext4ReadInode state address inodeNum inode
  if ret < 0 then return (0, state)
  let (node, fs) ← fsMknode state.fs name (if inode.mode &&& 0x4000 ≠ 0 then fsDir else fsFile)
  if node = 0 then throw .undefined
  let fs := fs.setNode node { fs.nodes node with size := inode.sizeLo, priv := address }
  return (node, { state with fs, inodes := Function.update state.inodes node inodeNum })

/-- The loop of `ext4_read`. `buf` is the caller's memory from the buffer on, and
`base` is how far the pointer has moved. -/
def readLoop (address file : Nat) (inode : Ext4Inode) : Nat → Nat → Nat → Nat → Memory → Ext4State δ →
    Except Stop (Int × Memory × Ext4State δ)
  | 0, _, _, _, _, _ => .error .undefined
  | fuel + 1, cnt, read, base, buf, state =>
    if cnt = 0 then .ok (i64 read, buf, state)
    else do
      let data := state.datas address
      let current := state.fs.files file
      if data.blockSize = 0 then throw .undefined
      let block ← ext4GetBlockFromExtents inode (current.pos / data.blockSize)
      if block = 0 then return (i64 read, buf, state)
      let offset := current.pos % data.blockSize
      let toRead := min (data.blockSize - offset) cnt
      let (blockBuf, state) ← state.alloc data.blockSize
      if blockBuf = 0 then return (-1, buf, state)
      let result ← ext4ReadBlock state.disk data block
      let state := { state with disk := result.disk }
      if result.ret < 0 then
        let state ← state.free blockBuf
        return (-1, buf, state)
      let buf := copy buf (base + read) toRead fun i => result.bytes (offset + i)
      let state ← state.free blockBuf
      let fs := state.fs.setFile file { current with pos := u64 (current.pos + toRead) }
      readLoop address file inode fuel (cnt - toRead) (read + toRead) (base + toRead) buf { state with fs }

/-- The result, with the caller's memory from the buffer on. -/
def ext4Read (state : Ext4State δ) (file : Nat) (buf : Memory) (cnt : Nat) :
    Except Stop (Int × Memory × Ext4State δ) := do
  let node := (state.fs.files file).node
  let address := (state.fs.nodes node).priv
  let (inode, state) := state.localInode
  let (ret, inode, state) ← ext4ReadInode state address (state.inodes node) inode
  if ret < 0 then return (-1, buf, state)
  let pos := (state.fs.files file).pos
  if inode.sizeLo ≤ pos then return (0, buf, state)
  let cnt := if inode.sizeLo < u64 (pos + cnt) then inode.sizeLo - pos else cnt
  readLoop address file inode (cnt + 1) cnt 0 0 buf state

/-- The loop of `ext4_write`. `buf` is the caller's memory from the buffer on, and
`base` is how far the pointer has moved; `none` stands for an early return of -1. -/
def writeLoop (address file : Nat) (inode : Ext4Inode) (buf : Memory) : Nat → Nat → Nat → Nat → Ext4State δ →
    Except Stop (Option Nat × Ext4State δ)
  | 0, _, _, _, _ => .error .undefined
  | fuel + 1, cnt, written, base, state =>
    if cnt = 0 then .ok (some written, state)
    else do
      let data := state.datas address
      let current := state.fs.files file
      if data.blockSize = 0 then throw .undefined
      let block ← ext4GetBlockFromExtents inode (current.pos / data.blockSize)
      if block = 0 then return (some written, state)
      let offset := current.pos % data.blockSize
      let toWrite := min (data.blockSize - offset) cnt
      let (blockBuf, state) ← state.alloc data.blockSize
      if blockBuf = 0 then return (none, state)
      let result ← ext4ReadBlock state.disk data block
      let state := { state with disk := result.disk }
      if result.ret < 0 then
        let state ← state.free blockBuf
        return (none, state)
      let bytes := copy result.bytes offset toWrite fun i => buf (base + written + i)
      let (ret, disk) ← ext4WriteBlock state.disk data block bytes
      let state ← { state with disk }.free blockBuf
      if ret < 0 then return (none, state)
      let fs := state.fs.setFile file { current with pos := u64 (current.pos + toWrite) }
      writeLoop address file inode buf fuel (cnt - toWrite) (written + toWrite) (base + toWrite) { state with fs }

/-- `buf` is the caller's memory from the buffer on. -/
def ext4Write (state : Ext4State δ) (file : Nat) (buf : Memory) (cnt : Nat) : Except Stop (Int × Ext4State δ) := do
  let node := (state.fs.files file).node
  let address := (state.fs.nodes node).priv
  let (inode, state) := state.localInode
  let (ret, inode, state) ← ext4ReadInode state address (state.inodes node) inode
  if ret < 0 then return (-1, state)
  let (written, state) ← writeLoop address file inode buf (cnt + 1) cnt 0 0 state
  match written with
  | none => return (-1, state)
  | some written =>
    let pos := (state.fs.files file).pos
    if inode.sizeLo < pos then
      let (_, state) ← ext4WriteInode state address (state.inodes node) (inode.setSizeLo (pos % 2 ^ 32))
      return (i64 written, state)
    return (i64 written, state)

/-- The node of a name in a directory; `NULL` when there is none. -/
def ext4Lookup (state : Ext4State δ) (dir : Nat) (name : List UInt8) : Except Stop (Nat × Ext4State δ) := do
  let address := (state.fs.nodes dir).priv
  let data := state.datas address
  let (inode, state) := state.localInode
  let (ret, inode, state) ← ext4ReadInode state address (state.inodes dir) inode
  if ret < 0 then return (0, state)
  let (buf, state) ← state.alloc data.blockSize
  if buf = 0 then return (0, state)
  let read ← ext4ReadBlock state.disk data (inode.block 0)
  let state := { state with disk := read.disk }
  if read.ret < 0 then
    let state ← state.free buf
    return (0, state)
  let bytes : Fin data.blockSize → UInt8 := cut read.bytes
  let found ← findEntry bytes name (data.blockSize + 1) 0
  let state ← state.free buf
  match found with
  | none => return (0, state)
  | some inodeNum => ext4CreateNode state address inodeNum name

/-- The loop of `ext4_alloc_inode` over the numbers from `ino` on. -/
def allocInodeFrom (address : Nat) : Nat → Nat → Ext4State δ → Except Stop (Nat × Ext4State δ)
  | 0, _, state => .ok (0, state)
  | left + 1, ino, state => do
    let data := state.datas address
    if data.sb.inodesPerGroup = 0 then throw .undefined
    let index := (ino - 1) % data.sb.inodesPerGroup
    let bitmapBlock ← data.inodeBitmapLo ((ino - 1) / data.sb.inodesPerGroup)
    let (bitmap, state) ← state.alloc data.blockSize
    if bitmap = 0 then return (0, state)
    let read ← ext4ReadBlock state.disk data bitmapBlock
    let state := { state with disk := read.disk }
    if read.ret < 0 then
      let state ← state.free bitmap
      return (0, state)
    if data.blockSize ≤ index / 8 then throw .undefined
    let byte := (read.bytes (index / 8)).toNat
    let bit := 1 <<< (index % 8)
    if byte &&& bit = 0 then
      let (_, disk) ← ext4WriteBlock state.disk data bitmapBlock (store read.bytes (index / 8) 1 (byte ||| bit))
      let state ← { state with disk }.free bitmap
      return (ino, state)
    let state ← state.free bitmap
    allocInodeFrom address left (ino + 1) state

def ext4AllocInode (state : Ext4State δ) (address : Nat) : Except Stop (Nat × Ext4State δ) :=
  allocInodeFrom address ((state.datas address).sb.inodesCount - 12) 12 state

def ext4Create (state : Ext4State δ) (dir : Nat) (name : List UInt8) : Except Stop (Int × Ext4State δ) := do
  let address := (state.fs.nodes dir).priv
  let data := state.datas address
  let (newIno, state) ← ext4AllocInode state address
  if newIno = 0 then return (-1, state)
  let (_, state) ← ext4WriteInode state address newIno .fresh
  let (dirInode, state) := state.localInode
  let (ret, dirInode, state) ← ext4ReadInode state address (state.inodes dir) dirInode
  if ret < 0 then return (-1, state)
  let block ← ext4GetBlockFromExtents dirInode 0
  let (buf, state) ← state.alloc data.blockSize
  if buf = 0 then return (-1, state)
  let read ← ext4ReadBlock state.disk data block
  let state := { state with disk := read.disk }
  if read.ret < 0 then
    let state ← state.free buf
    return (-1, state)
  let bytes : Fin data.blockSize → UInt8 := cut read.bytes
  let entry ← entriesEnd bytes (data.blockSize + 1) 0
  let bytes ← appendEntry bytes entry name newIno
  let (ret, disk) ← ext4WriteBlock state.disk data block (flat bytes)
  let state ← { state with disk }.free buf
  if ret < 0 then return (-1, state)
  let (node, state) ← ext4CreateNode state address newIno name
  return (0, { state with fs := (fsAddchild state.fs dir node).2 })

def ext4Mkdir (state : Ext4State δ) (dir : Nat) (name : List UInt8) : Except Stop (Int × Ext4State δ) :=
  ext4Create state dir name

section Media

variable {σ : Type}

/-- `BlockRead`, with any device behind the partitions. -/
structure MediumRead (σ : Type) where
  ret : Int
  bytes : Memory
  filled : Nat
  medium : Medium σ

namespace AtaLayer
variable (layer : AtaLayer σ)

/-- The loop over the sectors of a block, from the one at `i` on. -/
def readSectors (index : Int) (first : Nat) : Nat → Nat → Memory → Medium σ → MediumRead σ
  | 0, i, bytes, medium => ⟨0, bytes, i * sectorSize, medium⟩
  | left + 1, i, bytes, medium =>
    let (ret, sector, medium) := layer.partitionsReadSector medium index (u64 (first + i))
    if ret ≠ 0 then ⟨-1, bytes, i * sectorSize, medium⟩
    else readSectors index first left (i + 1) (copy bytes (i * sectorSize) sectorSize (flat sector)) medium

def ext4ReadBlock (medium : Medium σ) (data : Ext4Data) (block : Nat) : Except Stop (MediumRead σ) :=
  if 0 ≤ data.partitionIndex then
    let sectorsPerBlock := data.blockSize / sectorSize
    .ok (layer.readSectors data.partitionIndex (u64 (block * sectorsPerBlock)) sectorsPerBlock 0 (fun _ => 0) medium)
  else
    let offset := u64 (block * data.blockSize)
    if (medium.image data.device).size < offset + data.blockSize then .error .undefined
    else .ok ⟨0, fun i => (medium.image data.device).bytes (offset + i), data.blockSize, medium⟩

/-- The loop over the sectors of a block, from the one at `i` on. -/
def writeSectors (index : Int) (first : Nat) (buf : Memory) : Nat → Nat → Medium σ → Int × Medium σ
  | 0, _, medium => (0, medium)
  | left + 1, i, medium =>
    let (ret, medium) :=
      layer.partitionsWriteSector medium index (u64 (first + i)) fun offset => buf (i * sectorSize + offset)
    if ret ≠ 0 then (-1, medium) else writeSectors index first buf left (i + 1) medium

def ext4WriteBlock (medium : Medium σ) (data : Ext4Data) (block : Nat) (buf : Memory) :
    Except Stop (Int × Medium σ) :=
  if 0 ≤ data.partitionIndex then
    let sectorsPerBlock := data.blockSize / sectorSize
    .ok (layer.writeSectors data.partitionIndex (u64 (block * sectorsPerBlock)) buf sectorsPerBlock 0 medium)
  else
    let offset := u64 (block * data.blockSize)
    let image := medium.image data.device
    if image.size < offset + data.blockSize then .error .undefined
    else
      let image := { image with bytes := copy image.bytes offset data.blockSize buf }
      .ok (0, { medium with images := Function.update medium.images data.device image })

end AtaLayer

end Media

section Mounts

/-- `str_starts_with`, which reads the bytes behind a pointer from the one at `i` on. -/
def startsWithAt (image : Image) : List UInt8 → Nat → Except Stop Bool
  | [], _ => .ok true
  | byte :: start, i =>
    if image.size ≤ i then .error .undefined
    else if image.bytes i = byte then startsWithAt image start (i + 1)
    else .ok false

/-- `data->device` and `data->partition_index`. The digit is a `char` with a sign. -/
def mountSource (disk : Disk) (src : Nat) : Except Stop (Nat × Int) := do
  if src = 0 then return (0, -1)
  let image := disk.image src
  if ← startsWithAt image (literal "ata") 0 then
    if image.size ≤ 5 then throw .undefined
    return (0, (BitVec.ofNat 8 (image.bytes 5).toNat).toInt - 0x30)
  return (src, -1)

/-- The part of a mount that fills `sb_buf`: of a partition it reads one sector. -/
def readSuperblock (disk : Disk) (data : Ext4Data) : Except Stop (Int × (Fin 1024 → UInt8) × Disk) :=
  if 0 ≤ data.partitionIndex then
    let (ret, sector, disk) := partitionsReadSector disk data.partitionIndex 2
    .ok (ret, cut (flat sector), disk)
  else
    let image := disk.image data.device
    if image.size < 2048 then .error .undefined
    else .ok (0, fun i => image.bytes (1024 + i), disk)

/-- How a mount goes on when it has come to the descriptors. -/
inductive MountHeader (δ : Type) where
  | failed (state : Ext4State δ)
  | described (dataPtr : Nat) (data : Ext4Data) (state : Ext4State δ)

/-- `ext4_mount` down to the array of descriptors. A shift counts modulo 32, as on x86. -/
def ext4MountHeader (state : Ext4State δ) (src : Nat) : Except Stop (MountHeader δ) := do
  let (dataPtr, state) ← state.alloc ext4DataSize
  if dataPtr = 0 then return .failed state
  let (device, partitionIndex) ← mountSource state.disk src
  let data : Ext4Data := ⟨device, fun _ => 0, 0, 0, fun _ => 0, 0, 0, partitionIndex⟩
  let (sbBuf, state) ← state.alloc 1024
  if sbBuf = 0 then
    let state ← state.free dataPtr
    return .failed state
  let (ret, bytes, disk) ← readSuperblock state.disk data
  let state := { state with disk }
  if ret ≠ 0 then
    let state ← state.free sbBuf
    let state ← state.free dataPtr
    return .failed state
  let sb : Ext4Superblock ← strCopyAt data.sb bytes 0
  let state ← state.free sbBuf
  if sb.magic ≠ ext4Magic then
    let state ← state.free dataPtr
    return .failed state
  let blockSize := 1024 * 2 ^ (sb.logBlockSize % 32) % 2 ^ 32
  if sb.blocksPerGroup = 0 then throw .undefined
  let gdBlocks := (sb.blocksCount + sb.blocksPerGroup + (2 ^ 32 - 1)) % 2 ^ 32 / sb.blocksPerGroup
  let (gd, state) ← state.alloc (gdBlocks * ext4GroupDescSize)
  if gd = 0 then
    let state ← state.free dataPtr
    return .failed state
  return .described dataPtr ⟨device, sb, gd, gdBlocks, fun _ => 0, blockSize, sb.inodeSize, partitionIndex⟩ state

/-- `gd_block`, in `u32` arithmetic. -/
def Ext4Data.gdBlock (data : Ext4Data) : Nat := (data.sb.firstDataBlock + 1) % 2 ^ 32

/-- The loop that reads a block for every group, from the one at `i` on. What it leaves of
the array, and the disk; a block that sticks out of the array is undefined. -/
def readDescriptors (data : Ext4Data) : Nat → Nat → Memory → Disk → Except Stop (Memory × Disk)
  | 0, _, bytes, disk => .ok (bytes, disk)
  | left + 1, i, bytes, disk => do
    let read ← ext4ReadBlock disk data (u64 (data.gdBlock + i))
    if ext4GroupDescSize * data.gdCount < ext4GroupDescSize * i + read.filled then throw .undefined
    readDescriptors data left (i + 1) (copy bytes (ext4GroupDescSize * i) read.filled read.bytes) read.disk

/-- The result, and the root and the private data of the mount. -/
def ext4Mount (state : Ext4State δ) (src : Nat) (tgt : List UInt8) : Except Stop (Int × Nat × Nat × Ext4State δ) := do
  match ← ext4MountHeader state src with
  | .failed state => return (-1, 0, 0, state)
  | .described dataPtr data state =>
    let (gdBytes, disk) ← readDescriptors data data.gdCount 0 data.gdBytes state.disk
    let state := { state with datas := Function.update state.datas dataPtr { data with gdBytes }, disk }
    let (root, state) ← ext4CreateNode state dataPtr 2 tgt
    return (0, root, dataPtr, state)

end Mounts

end Kernix
