import Kernix.Proofs.BlockStrings
import Kernix.Proofs.InodeTable

/-! The calls on directories, cut into their steps. A new entry costs three writes: the
bitmap, the table and the block of the directory, in this order. -/

namespace Kernix.Proofs
open ByteMemory

variable {δ : Type}

/-- Where the bit of an inode lies: its block, the byte and the bit. -/
structure BitmapBit (data : Ext4Data) (inodeNum block byte bit : Nat) : Prop where
  bitmap : data.inodeBitmapLo ((inodeNum - 1) / data.sb.inodesPerGroup) = .ok block
  position : byte = (inodeNum - 1) % data.sb.inodesPerGroup / 8
  mask : bit = 1 <<< ((inodeNum - 1) % data.sb.inodesPerGroup % 8)
  inside : byte < data.blockSize

/-- What a search for a free inode comes to. Its write may fail without notice. -/
structure InodeAllocated (before : Ext4State δ) (address inodeNum : Nat) (after : Ext4State δ) : Prop where
  touched : Touched before after
  layout : SameLayout before.disk after.disk
  onward : Onward before.disk after.disk
  none : inodeNum = 0 → SameContents before.disk after.disk
  some : inodeNum ≠ 0 → 12 ≤ inodeNum ∧ inodeNum < (before.datas address).sb.inodesCount ∧
    ∃ block byte bit, BitmapBit (before.datas address) inodeNum block byte bit ∧
      (∀ place, (∀ i < (before.datas address).blockSize, place ≠ blockPlace before.disk (before.datas address) block i) →
        byteAt after.disk place = byteAt before.disk place) ∧
      (byteAt before.disk (blockPlace before.disk (before.datas address) block byte)).toNat &&& bit = 0 ∧
      (Serves before.disk (before.datas address) block →
        byteAt after.disk (blockPlace before.disk (before.datas address) block byte) =
          UInt8.ofNat ((byteAt before.disk (blockPlace before.disk (before.datas address) block byte)).toNat ||| bit))

/-- Reads in front of a search change nothing about it. -/
private theorem InodeAllocated.behind {before middle after : Ext4State δ} {address inodeNum : Nat}
    (allocated : InodeAllocated middle address inodeNum after) (touched : Touched before middle)
    (contents : SameContents before.disk middle.disk) (onward : Onward before.disk middle.disk) :
    InodeAllocated before address inodeNum after := by
  have datas : middle.datas = before.datas := by
    obtain ⟨_, _, rfl⟩ := touched
    rfl
  refine ⟨touched.trans allocated.touched, contents.layout.trans allocated.layout, onward.trans allocated.onward,
    fun none => contents.trans (allocated.none none), fun given => ?_⟩
  obtain ⟨low, high, block, byte, bit, place, frame, clear, set⟩ := allocated.some given
  simp only [datas, contents.layout.blockPlace, contents.bytes] at high place frame clear set
  exact ⟨low, high, block, byte, bit, place, frame, clear, fun serves => set (serves.onward onward)⟩

private theorem allocInodeFrom_spec {before after : Ext4State δ} {address left ino inodeNum : Nat}
    (formatted : Formatted (before.datas address)) (low : 12 ≤ ino)
    (high : left = 0 ∨ ino + left ≤ (before.datas address).sb.inodesCount)
    (result : allocInodeFrom address left ino before = .ok (inodeNum, after)) :
    InodeAllocated before address inodeNum after := by
  induction left generalizing before ino with
  | zero =>
    cases result
    exact ⟨.refl _, .refl _, .refl _, fun _ => .refl _, fun given => (given rfl).elim⟩
  | succ left ih =>
    unfold allocInodeFrom at result
    dsimp only at result
    split at result
    next => cases result
    next =>
      obtain ⟨bitmapBlock, found, result⟩ := bind_ok result
      obtain ⟨⟨bitmap, held⟩, allocated, result⟩ := bind_ok result
      obtain ⟨touched, untouched⟩ := alloc_touched allocated
      dsimp only at result untouched
      split at result
      next =>
        cases result
        exact ⟨touched, untouched ▸ .refl _, untouched ▸ .refl _, fun _ => untouched ▸ .refl _,
          fun given => (given rfl).elim⟩
      next =>
        obtain ⟨read, reads, result⟩ := bind_ok result
        rw [untouched] at reads
        have onward := ext4ReadBlock_onward reads
        obtain ⟨contents, either, _⟩ := ext4ReadBlock_spec formatted reads
        split at result
        next =>
          obtain ⟨freed, frees, result⟩ := bind_ok result
          obtain ⟨touched', same⟩ := free_touched frees
          cases result
          exact ⟨touched.trans ((Touched.disk held read.disk).trans touched'), same ▸ contents.layout, same ▸ onward,
            fun _ => same ▸ contents, fun given => (given rfl).elim⟩
        next done =>
          have success : read.ret = 0 := returned_zero either done
          have bytes := ((ext4ReadBlock_spec formatted reads).2.2 success).2
          split at result
          next => cases result
          next inside =>
            have inside := not_le.mp inside
            split at result
            next clear =>
              obtain ⟨⟨ret, disk⟩, writes, result⟩ := bind_ok result
              obtain ⟨freed, frees, result⟩ := bind_ok result
              obtain ⟨touched', same⟩ := free_touched frees
              obtain ⟨layout, _, frame, _⟩ := ext4WriteBlock_spec formatted writes
              have later := ext4WriteBlock_onward formatted writes
              cases result
              dsimp only at same
              refine ⟨touched.trans ((Touched.disk held disk).trans touched'), same ▸ contents.layout.trans layout,
                same ▸ onward.trans later, fun none => by omega, fun _ => ⟨low, by omega, bitmapBlock, _, _,
                  ⟨found, rfl, rfl, inside⟩, fun place apart => ?_, ?_, fun serves => ?_⟩⟩
              · rw [same, frame place fun i within => by rw [contents.layout.blockPlace]; exact apart i within]
                exact contents.bytes place
              · rw [← bytes _ inside]
                exact clear
              · obtain ⟨_, wrote⟩ := (serves.onward onward).writes (store read.bytes
                  ((inodeNum - 1) % (before.datas address).sb.inodesPerGroup / 8) 1
                  ((read.bytes ((inodeNum - 1) % (before.datas address).sb.inodesPerGroup / 8)).toNat |||
                    1 <<< ((inodeNum - 1) % (before.datas address).sb.inodesPerGroup % 8)))
                cases wrote.symm.trans writes
                have stored := (ext4WriteBlock_spec formatted writes).2.2.2 rfl _ inside
                rw [contents.layout.blockPlace] at stored
                rw [same, stored, ← bytes _ inside]
                simp [store]
            next =>
              obtain ⟨freed, frees, result⟩ := bind_ok result
              obtain ⟨touched', same⟩ := free_touched frees
              have moved := touched.trans ((Touched.disk held read.disk).trans touched')
              have datas : freed.datas = before.datas := by
                obtain ⟨_, _, rfl⟩ := moved
                rfl
              have rest := ih (datas ▸ formatted) (by omega) (by rw [datas]; omega) result
              exact rest.behind moved (same ▸ contents) (same ▸ onward)

theorem ext4AllocInode_spec {before after : Ext4State δ} {address inodeNum : Nat}
    (formatted : Formatted (before.datas address))
    (result : ext4AllocInode before address = .ok (inodeNum, after)) : InodeAllocated before address inodeNum after :=
  allocInodeFrom_spec formatted (Nat.le_refl 12) (by omega) result

/-- `data` of a directory. -/
def dirData (state : Ext4State δ) (dir : Nat) : Ext4Data := state.datas (state.fs.nodes dir).priv

/-- The values and the states of `ext4_create` up to the point at which the block of the
directory lies in its buffer. -/
structure AppendStage (δ : Type) where
  newIno : Nat
  found : Ext4State δ
  stored : Ext4State δ
  inode : Ext4Inode
  opened : Ext4State δ
  block : Nat
  buf : Nat
  held : Ext4State δ
  read : BlockRead

/-- A call of `ext4_create` comes to this point. -/
structure AppendReached (before : Ext4State δ) (dir : Nat) (stage : AppendStage δ) : Prop where
  found : ext4AllocInode before (before.fs.nodes dir).priv = .ok (stage.newIno, stage.found)
  free : stage.newIno ≠ 0
  stored : ∃ ret, ext4WriteInode stage.found (before.fs.nodes dir).priv stage.newIno .fresh = .ok (ret, stage.stored)
  opened : ext4ReadInode stage.stored.localInode.2 (before.fs.nodes dir).priv (stage.stored.localInode.2.inodes dir)
    stage.stored.localInode.1 = .ok (0, stage.inode, stage.opened)
  block : ext4GetBlockFromExtents stage.inode 0 = .ok stage.block
  held : stage.opened.alloc (dirData before dir).blockSize = .ok (stage.buf, stage.held)
  buffer : stage.buf ≠ 0
  read : ext4ReadBlock stage.held.disk (dirData before dir) stage.block = .ok stage.read
  success : stage.read.ret = 0

/-- What `ext4_create` does from there on. -/
def appendRest (before : Ext4State δ) (dir : Nat) (name : List UInt8) (stage : AppendStage δ) :
    Except Stop (Int × Ext4State δ) := do
  let bytes : Fin (dirData before dir).blockSize → UInt8 := cut stage.read.bytes
  let entry ← entriesEnd bytes ((dirData before dir).blockSize + 1) 0
  let bytes ← appendEntry bytes entry name stage.newIno
  let (ret, disk) ← ext4WriteBlock stage.read.disk (dirData before dir) stage.block (flat bytes)
  let state ← { stage.held with disk }.free stage.buf
  if ret < 0 then return (-1, state)
  let (node, state) ← ext4CreateNode state (before.fs.nodes dir).priv stage.newIno name
  return (0, { state with fs := (fsAddchild state.fs dir node).2 })

theorem AppendReached.create {before : Ext4State δ} {dir : Nat} {stage : AppendStage δ}
    (reached : AppendReached before dir stage)
    (name : List UInt8) : ext4Create before dir name = appendRest before dir name stage := by
  obtain ⟨_, stored⟩ := reached.stored
  have opened := reached.opened
  have held := reached.held
  have read := reached.read
  unfold dirData at held read
  unfold ext4Create appendRest dirData
  dsimp only [bind, Except.bind]
  rw [reached.found]
  dsimp only
  rw [if_neg reached.free, stored]
  dsimp only
  rw [opened]
  dsimp only
  rw [if_neg (by decide), reached.block]
  dsimp only
  rw [held]
  dsimp only
  rw [if_neg reached.buffer, read]
  dsimp only
  rw [if_neg (by rw [reached.success]; decide)]

/-- An inode has been taken: its bit and its record have been written, as far as the disk let them. -/
def Taken (before : Ext4State δ) (dir newIno : Nat) (stored : Ext4State δ) : Prop :=
  ∃ found wrote, ext4AllocInode before (before.fs.nodes dir).priv = .ok (newIno, found) ∧ newIno ≠ 0 ∧
    ext4WriteInode found (before.fs.nodes dir).priv newIno .fresh = .ok (wrote, stored)

/-- How the read of the directory's inode ends. -/
def InodeOpened (before : Ext4State δ) (dir : Nat) (stored : Ext4State δ) (ret : Int) (inode : Ext4Inode)
    (opened : Ext4State δ) : Prop :=
  ext4ReadInode stored.localInode.2 (before.fs.nodes dir).priv (stored.localInode.2.inodes dir) stored.localInode.1 =
    .ok (ret, inode, opened)

/-- The directory cannot be brought into a buffer, and the call ends with that. -/
inductive Hindered (before : Ext4State δ) (dir : Nat) (stored after : Ext4State δ) : Prop where
  | inode {got : Ext4Inode} (opens : InodeOpened before dir stored (-1) got after)
  | buffer {inode : Ext4Inode} {opened : Ext4State δ} {block : Nat} (opens : InodeOpened before dir stored 0 inode opened)
      (blocks : ext4GetBlockFromExtents inode 0 = .ok block)
      (allocated : opened.alloc (dirData before dir).blockSize = .ok (0, after))
  | block {inode : Ext4Inode} {opened held : Ext4State δ} {block buf : Nat} {read : BlockRead}
      (opens : InodeOpened before dir stored 0 inode opened) (blocks : ext4GetBlockFromExtents inode 0 = .ok block)
      (allocated : opened.alloc (dirData before dir).blockSize = .ok (buf, held)) (given : buf ≠ 0)
      (reads : ext4ReadBlock held.disk (dirData before dir) block = .ok read) (failed : read.ret = -1)
      (frees : Ext4State.free { held with disk := read.disk } buf = .ok after)

/-- A call that is hindered fails. -/
theorem Hindered.create {before stored after : Ext4State δ} {dir newIno : Nat} (taken : Taken before dir newIno stored)
    (hindered : Hindered before dir stored after) (name : List UInt8) : ext4Create before dir name = .ok (-1, after) := by
  obtain ⟨found, wrote, allocates, free, writes⟩ := taken
  unfold ext4Create
  dsimp only [bind, Except.bind]
  rw [allocates]
  dsimp only
  rw [if_neg free, writes]
  dsimp only
  cases hindered with
  | inode opens =>
    unfold InodeOpened at opens
    rw [opens]
    rfl
  | buffer opens blocks allocated =>
    unfold InodeOpened at opens
    unfold dirData at allocated
    rw [opens]
    dsimp only
    rw [if_neg (by decide), blocks]
    dsimp only
    rw [allocated]
    rfl
  | block opens blocks allocated given reads failed frees =>
    unfold InodeOpened at opens
    unfold dirData at allocated reads
    rw [opens]
    dsimp only
    rw [if_neg (by decide), blocks]
    dsimp only
    rw [allocated]
    dsimp only
    rw [if_neg given, reads]
    dsimp only
    rw [if_pos (by rw [failed]; decide), frees]
    rfl

/-- A taken inode leaves the description of the volume alone. -/
theorem Taken.datas {before stored : Ext4State δ} {dir newIno : Nat} (formatted : Formatted (dirData before dir))
    (taken : Taken before dir newIno stored) : stored.datas = before.datas := by
  obtain ⟨found, wrote, allocates, _, writes⟩ := taken
  obtain ⟨_, _, sameFound⟩ := (ext4AllocInode_spec formatted allocates).touched
  have datas : found.datas = before.datas := by rw [sameFound]
  obtain ⟨_, _, sameStored⟩ := (ext4WriteInode_spec (datas ▸ formatted) writes).touched
  rw [sameStored, datas]

/-- Whoever is hindered has only read. -/
theorem Hindered.contents {before stored after : Ext4State δ} {dir newIno : Nat}
    (formatted : Formatted (dirData before dir))
    (taken : Taken before dir newIno stored) (hindered : Hindered before dir stored after) :
    SameContents stored.disk after.disk := by
  have formatted' : Formatted (stored.localInode.2.datas (before.fs.nodes dir).priv) := by
    have same : stored.datas = before.datas := taken.datas formatted
    change Formatted (stored.datas _)
    rw [same]
    exact formatted
  have opened {ret : Int} {inode : Ext4Inode} {opened : Ext4State δ}
    (opens : InodeOpened before dir stored ret inode opened) :
      SameContents stored.disk opened.disk := (ext4ReadInode_spec formatted' opens).contents
  cases hindered with
  | inode opens => exact opened opens
  | buffer opens _ allocated => exact (alloc_touched allocated).2 ▸ opened opens
  | block opens _ allocated _ reads _ frees =>
    have same := (ext4ReadBlock_spec formatted reads).1
    rw [(alloc_touched allocated).2] at same
    exact (free_touched frees).2 ▸ (opened opens).trans same

/-- A call of `ext4_create` that returns: it finds no inode, it is hindered, or it comes to the append. -/
theorem ext4Create_cases {before after : Ext4State δ} {dir : Nat} {name : List UInt8} {ret : Int}
    (formatted : Formatted (dirData before dir)) (result : ext4Create before dir name = .ok (ret, after)) :
    (ret = -1 ∧ ext4AllocInode before (before.fs.nodes dir).priv = .ok (0, after)) ∨
    (ret = -1 ∧ ∃ newIno stored, Taken before dir newIno stored ∧ Hindered before dir stored after) ∨
    ∃ stage, AppendReached before dir stage ∧ appendRest before dir name stage = .ok (ret, after) := by
  have whole := result
  unfold ext4Create at result
  obtain ⟨⟨newIno, found⟩, allocates, result⟩ := bind_ok result
  dsimp only at result
  split at result
  next none =>
    cases result
    subst none
    exact Or.inl ⟨rfl, allocates⟩
  next free =>
    obtain ⟨⟨wrote, stored⟩, writes, result⟩ := bind_ok result
    have taken : Taken before dir newIno stored := ⟨found, wrote, allocates, free, writes⟩
    obtain ⟨⟨opens, inode, opened⟩, reads, result⟩ := bind_ok result
    have formatted' : Formatted (stored.localInode.2.datas (before.fs.nodes dir).priv) := by
      have same : stored.datas = before.datas := taken.datas formatted
      change Formatted (stored.datas _)
      rw [same]
      exact formatted
    have either := (ext4ReadInode_spec formatted' reads).either
    dsimp only at result
    split at result
    next wrong =>
      have failed : opens = -1 := by
        rcases either with success | ⟨failed, _⟩
        · exact absurd wrong (by rw [success]; decide)
        · exact failed
      subst failed
      cases result
      exact Or.inr (Or.inl ⟨rfl, newIno, stored, taken, .inode reads⟩)
    next fine =>
      have success : opens = 0 := by
        rcases either with success | ⟨failed, _⟩
        · exact success
        · exact absurd (by rw [failed]; decide) fine
      subst success
      obtain ⟨block, blocks, result⟩ := bind_ok result
      obtain ⟨⟨buf, held⟩, allocated, result⟩ := bind_ok result
      dsimp only at result
      split at result
      next refused =>
        cases result
        subst refused
        exact Or.inr (Or.inl ⟨rfl, newIno, stored, taken, .buffer reads blocks allocated⟩)
      next given =>
        obtain ⟨read, blockReads, result⟩ := bind_ok result
        obtain ⟨_, ends, _⟩ := ext4ReadBlock_spec formatted blockReads
        split at result
        next wrong =>
          have failed : read.ret = -1 := ends.resolve_left fun success => absurd wrong (by rw [success]; decide)
          obtain ⟨freed, frees, result⟩ := bind_ok result
          cases result
          exact Or.inr (Or.inl ⟨rfl, newIno, stored, taken, .block reads blocks allocated given blockReads failed frees⟩)
        next done =>
          have success : read.ret = 0 := returned_zero ends done
          have reached : AppendReached before dir ⟨newIno, found, stored, inode, opened, block, buf, held, read⟩ :=
            ⟨allocates, free, ⟨wrote, writes⟩, reads, blocks, allocated, given, blockReads, success⟩
          exact Or.inr (Or.inr ⟨_, reached, (reached.create name).symm.trans whole⟩)

/-- What lies in the buffer is the block of the directory after the first two writes. -/
theorem AppendReached.bytes {before : Ext4State δ} {dir : Nat} {stage : AppendStage δ}
    (formatted : Formatted (dirData before dir))
    (reached : AppendReached before dir stage) :
    SameContents stage.stored.disk stage.read.disk ∧ stage.held.datas = before.datas ∧
      (stage.held.fs.nodes dir).priv = (before.fs.nodes dir).priv ∧
      (cut stage.read.bytes : Fin (dirData before dir).blockSize → UInt8) =
        blockBytes stage.stored.disk (dirData before dir) stage.block := by
  obtain ⟨_, stores⟩ := reached.stored
  obtain ⟨_, _, found⟩ := (ext4AllocInode_spec formatted reached.found).touched
  have datas : stage.found.datas = before.datas := by rw [found]
  have written := ext4WriteInode_spec (by rw [datas]; exact formatted) stores
  obtain ⟨_, _, stored⟩ := written.touched
  have datas' : stage.stored.localInode.2.datas = before.datas := by
    dsimp only [Ext4State.localInode]
    rw [stored, datas]
  have read := ext4ReadInode_spec (by rw [datas']; exact formatted) reached.opened
  have contents : SameContents stage.stored.disk stage.opened.disk := read.contents
  obtain ⟨_, _, opened⟩ := read.touched
  obtain ⟨⟨_, _, holds⟩, untouched⟩ := alloc_touched reached.held
  obtain ⟨same, _, _⟩ := ext4ReadBlock_spec formatted reached.read
  have earlier : SameContents stage.stored.disk stage.held.disk := untouched ▸ contents
  refine ⟨earlier.trans same, ?_, ?_, ?_⟩
  · rw [holds, opened]
    exact datas'
  · rw [holds, opened]
    dsimp only [Ext4State.localInode]
    rw [stored, found]
  · rw [ext4ReadBlock_bytes formatted reached.read reached.success, earlier.blockBytes]

/-- What the last write of `ext4_create` comes to. -/
structure EntryWritten (before : Ext4State δ) (dir : Nat) (name : List UInt8) (stage : AppendStage δ) (ret : Int)
    (after : Ext4State δ) (entry : Nat) (bytes : Fin (dirData before dir).blockSize → UInt8) : Prop where
  ends : entriesEnd (cut stage.read.bytes : Fin (dirData before dir).blockSize → UInt8)
    ((dirData before dir).blockSize + 1) 0 =
    .ok entry
  appended : appendEntry (cut stage.read.bytes) entry name stage.newIno = .ok bytes
  layout : SameLayout stage.read.disk after.disk
  either : ret = 0 ∨ ret = -1
  frame : ∀ place, (∀ i < (dirData before dir).blockSize,
    place ≠ blockPlace stage.read.disk (dirData before dir) stage.block i) → byteAt after.disk place = byteAt stage.read.disk place
  written : ret = 0 → blockBytes after.disk (dirData before dir) stage.block = bytes
  datas : after.datas = before.datas
  priv : (after.fs.nodes dir).priv = (before.fs.nodes dir).priv

private theorem fsAddchild_priv (fs : FsState δ) (parent child node : Nat) :
    ((fsAddchild fs parent child).2.nodes node).priv = (fs.nodes node).priv := by
  unfold fsAddchild
  split
  next => rfl
  next =>
    dsimp only [FsState.setNode]
    simp only [Function.update_apply]
    split <;> split <;> simp_all

theorem AppendReached.rest {before after : Ext4State δ} {dir : Nat} {name : List UInt8} {stage : AppendStage δ}
    {ret : Int}
    (formatted : Formatted (dirData before dir)) (reached : AppendReached before dir stage)
    (result : appendRest before dir name stage = .ok (ret, after)) :
    ∃ entry bytes, EntryWritten before dir name stage ret after entry bytes := by
  obtain ⟨_, datas, priv, _⟩ := reached.bytes formatted
  unfold appendRest at result
  dsimp only at result
  obtain ⟨entry, ends, result⟩ := bind_ok result
  obtain ⟨bytes, appended, result⟩ := bind_ok result
  obtain ⟨⟨wrote, disk⟩, writes, result⟩ := bind_ok result
  obtain ⟨layout, either, frame, _⟩ := ext4WriteBlock_spec formatted writes
  obtain ⟨freed, frees, rest⟩ := bind_ok result
  obtain ⟨memory, _, rfl⟩ := ext4Free_ok frees
  dsimp only at rest
  refine ⟨entry, bytes, ?_⟩
  split at rest
  next =>
    cases rest
    exact ⟨ends, appended, layout, Or.inr rfl, frame, fun success => absurd success (by decide), datas, priv⟩
  next fine =>
    have success : wrote = 0 := returned_zero either fine
    subst success
    obtain ⟨⟨node, made⟩, creates, rest⟩ := bind_ok rest
    have created := ext4CreateNode_spec (by dsimp only; rw [datas]; exact formatted) creates
    cases rest
    refine ⟨ends, appended, layout.trans created.contents.layout, Or.inl rfl, fun place apart => ?_, fun _ => ?_,
      created.datas.trans datas, ?_⟩
    · exact (created.contents.bytes place).trans (frame place apart)
    · dsimp only
      rw [created.contents.blockBytes]
      exact ext4WriteBlock_bytes formatted writes
    · dsimp only
      rw [fsAddchild_priv]
      by_cases none : node = 0
      · rw [(created.missing none).1]
        exact priv
      · obtain ⟨_, _, _, _, _, nodes, _⟩ := created.made none
        rw [nodes, Function.update_apply]
        split
        next => rfl
        next => exact priv

end Kernix.Proofs
