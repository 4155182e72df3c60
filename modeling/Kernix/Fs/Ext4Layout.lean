import Kernix.Common.Array
import Kernix.Lib.ByteMemory

/-! The records of ext4 as they lie on the volume: arrays of bytes, with a function
for each field that the code uses. -/

namespace Kernix
open ByteMemory

/-- `sizeof(ext4_inode)`. -/
abbrev ext4InodeSize : Nat := 156
/-- `sizeof(ext4_superblock)`. -/
abbrev ext4SuperblockSize : Nat := 1024
/-- `sizeof(ext4_group_desc)`. -/
abbrev ext4GroupDescSize : Nat := 60
/-- `sizeof(ext4_data)`. -/
abbrev ext4DataSize : Nat := 1072

/-- An object as memory, with zeros behind its end. -/
def flat {size : Nat} (object : Fin size → UInt8) : Memory := fun position =>
  if inside : position < size then object ⟨position, inside⟩ else 0

/-- The first bytes of a memory as an object. -/
def cut {size : Nat} (memory : Memory) : Fin size → UInt8 := fun position => memory position.val

abbrev Ext4Inode := Fin ext4InodeSize → UInt8

abbrev Ext4Superblock := Fin ext4SuperblockSize → UInt8

namespace Ext4Superblock

def inodesCount (sb : Ext4Superblock) : Nat := load (flat sb) 0 4
def blocksCount (sb : Ext4Superblock) : Nat := load (flat sb) 4 4
def firstDataBlock (sb : Ext4Superblock) : Nat := load (flat sb) 20 4
def logBlockSize (sb : Ext4Superblock) : Nat := load (flat sb) 24 4
def blocksPerGroup (sb : Ext4Superblock) : Nat := load (flat sb) 32 4
def inodesPerGroup (sb : Ext4Superblock) : Nat := load (flat sb) 40 4
def magic (sb : Ext4Superblock) : Nat := load (flat sb) 56 2
def inodeSize (sb : Ext4Superblock) : Nat := load (flat sb) 88 2

end Ext4Superblock

namespace Ext4Inode

def mode (inode : Ext4Inode) : Nat := load (flat inode) 0 2
def sizeLo (inode : Ext4Inode) : Nat := load (flat inode) 4 4
def flags (inode : Ext4Inode) : Nat := load (flat inode) 32 4
/-- `i_block[index]`. -/
def block (inode : Ext4Inode) (index : Nat) : Nat := load (flat inode) (40 + 4 * index) 4

def setSizeLo (inode : Ext4Inode) (value : Nat) : Ext4Inode := cut (store (flat inode) 4 4 value)

/-- A field that a pointer into the record leads to. -/
def field (inode : Ext4Inode) (offset count : Nat) : Except Stop Nat :=
  if offset + count ≤ ext4InodeSize then .ok (load (flat inode) offset count) else .error .undefined

/-- `new_inode` of `ext4_create`: zeros, but for `i_mode` and `i_links_count`. -/
def fresh : Ext4Inode := cut (store (store (fun _ => 0) 0 2 0x81A4) 26 2 1)

end Ext4Inode

def ext4Magic : Nat := 0xEF53
def ext4ExtentsFl : Nat := 0x80000
def ext4ExtentMagic : Nat := 0xF30A

/-- The loop over the extents behind the header, from the one at `index` on. -/
def searchExtents (inode : Ext4Inode) (blockIndex : Nat) : Nat → Nat → Except Stop Nat
  | 0, _ => .ok 0
  | left + 1, index => do
    let eeBlock ← inode.field (52 + 12 * index) 4
    if eeBlock ≤ blockIndex then
      let eeLen ← inode.field (56 + 12 * index) 2
      if blockIndex < (eeBlock + eeLen) % 2 ^ 32 then
        let eeStartHi ← inode.field (58 + 12 * index) 2
        let eeStartLo ← inode.field (60 + 12 * index) 4
        return u64 ((eeStartLo ||| eeStartHi <<< 32) + (blockIndex - eeBlock))
      searchExtents inode blockIndex left (index + 1)
    else searchExtents inode blockIndex left (index + 1)

def ext4GetBlockFromExtents (inode : Ext4Inode) (blockIndex : Nat) : Except Stop Nat :=
  if inode.flags &&& ext4ExtentsFl = 0 then .ok (if blockIndex < 12 then inode.block blockIndex else 0)
  else if load (flat inode) 40 2 ≠ ext4ExtentMagic then .ok 0
  else searchExtents inode blockIndex (load (flat inode) 42 2) 0

/-- `*(u32*)` at a position of a buffer. -/
def numberAt {size : Nat} (buf : Fin size → UInt8) (position : Nat) : Except Stop Nat :=
  if position + 4 ≤ size then .ok (load (flat buf) position 4) else .error .undefined

/-- The loop of `ext4_lookup` over the entries of a directory, from the one at `entry`
on: the number of the inode behind a name. -/
def findEntry {size : Nat} (buf : Fin size → UInt8) (name : List UInt8) : Nat → Nat → Except Stop (Option Nat)
  | 0, _ => .error .undefined
  | fuel + 1, entry => do
    let found ← textAt buf entry
    if found = [] then return none
    if strEquals found name then
      let inodeNum ← numberAt buf (entry + found.length + 1)
      return some inodeNum
    findEntry buf name fuel (entry + found.length + 5)

/-- The loop of `ext4_create` to the end of the entries. -/
def entriesEnd {size : Nat} (buf : Fin size → UInt8) : Nat → Nat → Except Stop Nat
  | 0, _ => .error .undefined
  | fuel + 1, entry => do
    let found ← textAt buf entry
    if found = [] then return entry
    entriesEnd buf fuel (entry + found.length + 5)

/-- `str_copy(entry, name)` and the number behind the name. -/
def appendEntry {size : Nat} (buf : Fin size → UInt8) (entry : Nat) (name : List UInt8) (inodeNum : Nat) :
    Except Stop (Fin size → UInt8) := do
  let buf ← strCopyFrom buf entry name
  if size < entry + name.length + 5 then throw .undefined
  return cut (store (flat buf) (entry + name.length + 1) 4 inodeNum)

end Kernix
