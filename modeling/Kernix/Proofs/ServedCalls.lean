import Kernix.Proofs.DirectoryCalls

/-! Calls that succeed. With a heap that has room for a block and a disk whose accesses end
well, no call of ext4 fails before it has done what it is for. -/

namespace Kernix.Proofs
open ByteMemory

variable {δ : Type}

/-- A state whose calls get their buffers. -/
structure Supplied (state : Ext4State δ) (address : Nat) (blocks : List Block) : Prop where
  formatted : Formatted (state.datas address)
  sized : 0 < (state.datas address).blockSize
  divided : Divided state.fs blocks
  fitting : ∃ block ∈ blocks, Fits (roundUp (state.datas address).blockSize) block

/-- The same after a call that has freed its buffers. -/
theorem Supplied.after {before after : Ext4State δ} {address : Nat} {blocks : List Block}
    (supplied : Supplied before address blocks)
    (datas : after.datas = before.datas) (divided : Divided after.fs blocks) : Supplied after address blocks :=
  ⟨datas ▸ supplied.formatted, datas ▸ supplied.sized, divided, datas ▸ supplied.fitting⟩

theorem Supplied.scratch {state : Ext4State δ} {address : Nat} {blocks : List Block}
    (supplied : Supplied state address blocks) :
    ∃ ptr memory memory', Scratch state.fs (state.datas address).blockSize ptr memory memory' ∧
      Divided { state.fs with memory := memory' } blocks :=
  supplied.divided.scratch supplied.sized supplied.formatted.small supplied.fitting

theorem ext4ReadInode_served {state : Ext4State δ} {address inodeNum block offset : Nat} {blocks : List Block}
    (inode : Ext4Inode)
    {text : List UInt8} (supplied : Supplied state address blocks)
    (place : inodePlace (state.datas address) inodeNum = .ok (block, offset))
    (serves : Serves state.disk (state.datas address) block)
    (lies : TextIs (blockBytes state.disk (state.datas address) block) offset text)
    (short : text.length < ext4InodeSize) :
    ∃ got after, ext4ReadInode state address inodeNum inode = .ok (0, got, after) ∧ Copied inode got 0 text ∧
      Divided after.fs blocks := by
  obtain ⟨ptr, memory, memory', scratch, divided⟩ := supplied.scratch
  obtain ⟨got, copies, copied⟩ := lies.copies inode short
  obtain ⟨disk, reads⟩ := ext4ReadInode_returns supplied.formatted place scratch serves copies
  exact ⟨got, _, reads, copied, divided⟩

theorem ext4WriteInode_served {state : Ext4State δ} {address inodeNum block offset : Nat} {blocks : List Block}
    {inode : Ext4Inode}
    {text : List UInt8} (supplied : Supplied state address blocks)
    (place : inodePlace (state.datas address) inodeNum = .ok (block, offset))
    (serves : Serves state.disk (state.datas address) block) (lies : TextIs inode 0 text)
    (fits : offset + text.length < (state.datas address).blockSize) :
    ∃ after, ext4WriteInode state address inodeNum inode = .ok (0, after) ∧ Divided after.fs blocks := by
  obtain ⟨ptr, memory, memory', scratch, divided⟩ := supplied.scratch
  obtain ⟨disk, writes⟩ := ext4WriteInode_returns supplied.formatted place scratch serves lies fits
  exact ⟨_, writes, divided⟩

/-- The first inode that may be given out is free. -/
theorem ext4AllocInode_served {state : Ext4State δ} {address block byte bit : Nat} {blocks : List Block}
    (supplied : Supplied state address blocks) (several : 12 < (state.datas address).sb.inodesCount)
    (grouped : (state.datas address).sb.inodesPerGroup ≠ 0) (place : BitmapBit (state.datas address) 12 block byte bit)
    (serves : Serves state.disk (state.datas address) block)
    (clear : (byteAt state.disk (blockPlace state.disk (state.datas address) block byte)).toNat &&& bit = 0) :
    ∃ after, ext4AllocInode state address = .ok (12, after) ∧ Divided after.fs blocks := by
  obtain ⟨ptr, memory, memory', scratch, divided⟩ := supplied.scratch
  obtain ⟨read, reads, success⟩ := serves.reads
  have bytes := ((ext4ReadBlock_spec supplied.formatted reads).2.2 success).2
  obtain ⟨disk, writes⟩ := (serves.onward (ext4ReadBlock_onward reads)).writes
    (store read.bytes byte 1 ((read.bytes byte).toNat ||| bit))
  obtain ⟨bitmap, rfl, rfl, inside⟩ := place
  obtain ⟨left, counted⟩ := Nat.exists_eq_add_of_lt several
  have steps : (state.datas address).sb.inodesCount - 12 = left + 1 := by omega
  refine ⟨{ state with fs := { state.fs with memory := memory' }, disk }, ?_, divided⟩
  unfold ext4AllocInode
  rw [steps, allocInodeFrom]
  dsimp only [bind, Except.bind]
  rw [if_neg grouped, bitmap]
  dsimp only
  rw [Ext4State.alloc, scratch.allocated]
  dsimp only [Except.map]
  rw [if_neg scratch.given, reads]
  dsimp only
  rw [if_neg (by rw [success]; decide), if_neg (not_le.mpr inside), if_pos (by rw [bytes _ inside]; exact clear), writes]
  dsimp only [Ext4State.free]
  rw [scratch.released]
  rfl

/-- A heap with room gives out a new object. -/
private theorem Divided.create {fs : FsState δ} {blocks : List Block} {size : Nat} (divided : Divided fs blocks)
    (asked : size ≠ 0)
    (room : ∃ block ∈ blocks, Fits (roundUp size) block) :
    ∃ ptr memory, ptr ≠ 0 ∧ fs.create size = .ok (ptr, { fs with memory }) := by
  obtain ⟨live, valid⟩ := divided
  rcases valid.create size with ⟨_, full⟩ | ⟨_, _, _, ptr, memory, _, given, _, _, result, _⟩
  · obtain ⟨block, member, fits⟩ := room
    exact (full asked block member fits).elim
  · refine ⟨ptr, memory, given, ?_⟩
    unfold FsState.create
    rw [result]

theorem ext4CreateNode_served {state : Ext4State δ} {address inodeNum block offset : Nat} {blocks : List Block}
    {text name : List UInt8} (supplied : Supplied state address blocks)
    (room : ∃ block ∈ blocks, Fits (roundUp fsNodeSize) block)
    (place : inodePlace (state.datas address) inodeNum = .ok (block, offset))
    (serves : Serves state.disk (state.datas address) block)
    (lies : TextIs (blockBytes state.disk (state.datas address) block) offset text) (short : text.length < ext4InodeSize)
    (fits : name.length < 64) :
    ∃ node after, ext4CreateNode state address inodeNum name = .ok (node, after) ∧ node ≠ 0 := by
  have supplied' : Supplied state.localInode.2 address blocks := supplied.after rfl supplied.divided
  obtain ⟨inode, opened, reads, _, divided⟩ := ext4ReadInode_served state.localInode.1 supplied' place serves lies short
  obtain ⟨ptr, memory, given, creates⟩ := divided.create (by decide) room
  obtain ⟨array, copies⟩ := strCopy_returns (fun _ => (0 : UInt8)) fits
  unfold ext4CreateNode fsMknode
  dsimp only [bind, Except.bind]
  rw [reads]
  dsimp only
  rw [if_neg (by decide), creates]
  dsimp only
  rw [if_neg given, copies]
  dsimp only [pure, Except.pure]
  rw [if_neg given]
  exact ⟨_, _, rfl, given⟩

/-- Two blocks of a volume that share no byte. -/
def BlocksApart (disk : Disk) (data : Ext4Data) (first second : Nat) : Prop :=
  ∀ i < data.blockSize, ∀ j < data.blockSize, blockPlace disk data first i ≠ blockPlace disk data second j

/-- A write to one block leaves the others alone. -/
theorem blockBytes_apart {before after : Disk} {data : Ext4Data} {written block : Nat} (layout : SameLayout before after)
    (frame : ∀ place, (∀ i < data.blockSize, place ≠
      blockPlace before data written i) → byteAt after place = byteAt before place)
    (apart : BlocksApart before data written block) : blockBytes after data block = blockBytes before data block := by
  funext j
  unfold blockBytes
  rw [layout.blockPlace]
  exact frame _ fun i inside same => apart i inside j j.isLt same.symm

theorem SameLayout.apart {before after : Disk} (layout : SameLayout before after) {data : Ext4Data} {first second : Nat} :
    BlocksApart after data first second ↔ BlocksApart before data first second := by
  unfold BlocksApart
  simp only [layout.blockPlace]

/-- Everything that a call of `ext4_create` needs to come to its append: buffers, a first
inode that is free, a directory that can be read, and blocks that share no bytes. -/
structure CreatePlan (state : Ext4State δ) (dir : Nat) where
  blocks : List Block
  bitmap : Nat
  byte : Nat
  bit : Nat
  table : Nat
  offset : Nat
  dirTable : Nat
  dirOffset : Nat
  text : List UInt8
  block : Nat
  supplied : Supplied state (state.fs.nodes dir).priv blocks
  several : 12 < (dirData state dir).sb.inodesCount
  grouped : (dirData state dir).sb.inodesPerGroup ≠ 0
  bitPlace : BitmapBit (dirData state dir) 12 bitmap byte bit
  clear : (byteAt state.disk (blockPlace state.disk (dirData state dir) bitmap byte)).toNat &&& bit = 0
  newPlace : inodePlace (dirData state dir) 12 = .ok (table, offset)
  newFits : offset + 2 < (dirData state dir).blockSize
  dirPlace : inodePlace (dirData state dir) (state.inodes dir) = .ok (dirTable, dirOffset)
  lies : TextIs (blockBytes state.disk (dirData state dir) dirTable) dirOffset text
  short : text.length < ext4InodeSize
  points : ∀ inode, Copied (state.stack state.frames) inode 0 text → ext4GetBlockFromExtents inode 0 = .ok block
  serves : ∀ number ∈ [bitmap, table, dirTable, block], Serves state.disk (dirData state dir) number
  bitmapApart : ∀ number ∈ [dirTable, block], BlocksApart state.disk (dirData state dir) bitmap number
  tableApart : ∀ number ∈ [dirTable, block], BlocksApart state.disk (dirData state dir) table number

/-- The record that `ext4_create` writes ends behind the mode. -/
theorem fresh_text : TextIs Ext4Inode.fresh 0 [0xA4, 0x81] := textAt_ok (by decide +kernel)

/-- What is known at the append. -/
structure CreatePlan.Carried {state : Ext4State δ} {dir : Nat} (plan : CreatePlan state dir) (stage : AppendStage δ) :
    Prop where
  reached : AppendReached state dir stage
  newIno : stage.newIno = 12
  block : stage.block = plan.block
  copied : Copied (state.stack state.frames) stage.inode 0 plan.text
  bytes : (cut stage.read.bytes : Fin (dirData state dir).blockSize → UInt8) =
    blockBytes state.disk (dirData state dir) plan.block
  onward : Onward state.disk stage.read.disk
  inode : TextIs (blockBytes stage.stored.disk (dirData state dir) plan.table) plan.offset [0xA4, 0x81]
  released : ∃ memory, FsState.free stage.held.fs stage.buf = .ok { stage.held.fs with memory } ∧
    Divided { stage.held.fs with memory } plan.blocks

theorem CreatePlan.reaches {state : Ext4State δ} {dir : Nat} (plan : CreatePlan state dir) :
    ∃ stage, plan.Carried stage := by
  have supplied := plan.supplied
  have formatted : Formatted (dirData state dir) := supplied.formatted
  obtain ⟨found, allocates, divided⟩ := ext4AllocInode_served supplied plan.several plan.grouped plan.bitPlace
    (plan.serves _ (by simp)) plan.clear
  have allocated := ext4AllocInode_spec formatted allocates
  obtain ⟨_, _, sameFound⟩ := allocated.touched
  have datas : found.datas = state.datas := by rw [sameFound]
  obtain ⟨stored, writes, divided'⟩ := ext4WriteInode_served (supplied.after datas divided) (by rw [datas]; exact plan.newPlace)
    (by rw [datas]; exact (plan.serves _ (by simp)).onward allocated.onward) fresh_text (by rw [datas]; exact plan.newFits)
  have written := ext4WriteInode_spec (datas ▸ formatted) writes
  obtain ⟨_, _, sameStored⟩ := written.touched
  have datas' : stored.datas = state.datas := by rw [sameStored, datas]
  have onward : Onward state.disk stored.disk := allocated.onward.trans written.onward
  have kept (number : Nat) (member : number ∈ [plan.dirTable, plan.block]) :
      blockBytes stored.disk (dirData state dir) number = blockBytes state.disk (dirData state dir) number := by
    obtain ⟨_, _, bitmap, byte, bit, place, frame, _⟩ := allocated.some (by decide)
    cases place.bitmap.symm.trans plan.bitPlace.bitmap
    obtain ⟨table, offset, newPlace, frame', _⟩ := written.frame
    rw [datas] at newPlace frame'
    cases newPlace.symm.trans plan.newPlace
    exact (blockBytes_apart written.layout frame' (allocated.layout.apart.mpr (plan.tableApart number member))).trans
      (blockBytes_apart allocated.layout frame (plan.bitmapApart number member))
  have local' : stored.localInode.2.datas (state.fs.nodes dir).priv = dirData state dir := by
    change stored.datas _ = _
    rw [datas']
    rfl
  have supplied' : Supplied stored.localInode.2 (state.fs.nodes dir).priv plan.blocks := supplied.after datas' divided'
  have place : inodePlace (stored.localInode.2.datas (state.fs.nodes dir).priv) (stored.localInode.2.inodes dir) =
      .ok (plan.dirTable, plan.dirOffset) := by
    rw [local', sameStored, sameFound]
    exact plan.dirPlace
  have serves : Serves stored.localInode.2.disk (stored.localInode.2.datas (state.fs.nodes dir).priv) plan.dirTable := by
    rw [local']
    exact (plan.serves _ (by simp)).onward onward
  have lies : TextIs (blockBytes stored.localInode.2.disk
    (stored.localInode.2.datas (state.fs.nodes dir).priv) plan.dirTable)
      plan.dirOffset plan.text := by
    rw [local']
    exact (kept plan.dirTable (by simp)).symm ▸ plan.lies
  obtain ⟨inode, opened, reads, copied, divided''⟩ :=
    ext4ReadInode_served stored.localInode.1 supplied' place serves lies plan.short
  have stack : stored.localInode.1 = state.stack state.frames := by
    dsimp only [Ext4State.localInode]
    rw [sameStored, sameFound]
  rw [stack] at copied
  have read := ext4ReadInode_spec (local' ▸ formatted) reads
  obtain ⟨_, _, sameOpened⟩ := read.touched
  have datas'' : opened.datas = state.datas := by
    rw [sameOpened]
    exact datas'
  obtain ⟨buf, memory, memory', scratch, divided'''⟩ := (supplied.after datas'' divided'').scratch
  rw [datas''] at scratch
  obtain ⟨block, blockReads, success⟩ := ((plan.serves plan.block (by simp)).onward (onward.trans read.onward)).reads
  have contents : SameContents stored.disk opened.disk := read.contents
  have held : opened.alloc (dirData state dir).blockSize =
    .ok (buf, { opened with fs := { opened.fs with memory } }) := by
    unfold Ext4State.alloc dirData
    rw [scratch.allocated]
    rfl
  have recorded : TextIs (blockBytes stored.disk (dirData state dir) plan.table) plan.offset [0xA4, 0x81] := by
    obtain ⟨table, offset, newPlace, _, records⟩ := written.frame
    rw [datas] at newPlace records
    cases newPlace.symm.trans plan.newPlace
    obtain ⟨text, found, copies⟩ := records rfl
    have same := (textAt_ok found).unique fresh_text
    subst same
    exact (strCopyFrom_copied fresh_text.clean copies).lies fresh_text.clean
  refine ⟨⟨12, found, stored, inode, opened, plan.block, buf, { opened with fs := { opened.fs with memory } }, block⟩,
    ⟨allocates, show 12 ≠ 0 by decide, ⟨0, writes⟩, reads, plan.points inode copied, held, scratch.given, blockReads,
      success⟩,
    rfl, rfl, copied, ?_, onward.trans (read.onward.trans (ext4ReadBlock_onward blockReads)), recorded,
    memory', scratch.released, divided'''⟩
  dsimp only
  rw [ext4ReadBlock_bytes formatted blockReads success, contents.blockBytes, kept plan.block (by simp)]

/-- What a call of `ext4_create` needs from there on. -/
structure EntryPlan {state : Ext4State δ} {dir : Nat} (plan : CreatePlan state dir) (name : List UInt8) where
  entry : Nat
  ends : entriesEnd (blockBytes state.disk (dirData state dir) plan.block)
    ((dirData state dir).blockSize + 1) 0 = .ok entry
  fits : entry + name.length + 5 ≤ (dirData state dir).blockSize
  short : name.length < 64
  room : ∃ block ∈ plan.blocks, Fits (roundUp fsNodeSize) block

theorem EntryPlan.creates {state : Ext4State δ} {dir : Nat} {plan : CreatePlan state dir} {name : List UInt8}
    (entry : EntryPlan plan name) : ∃ stage after, plan.Carried stage ∧ ext4Create state dir name = .ok (0, after) := by
  obtain ⟨stage, carried⟩ := plan.reaches
  have formatted : Formatted (dirData state dir) := plan.supplied.formatted
  have fits := entry.fits
  obtain ⟨contents, datas, priv, _⟩ := carried.reached.bytes formatted
  obtain ⟨copied, copies⟩ := strCopyFrom_returns (blockBytes state.disk (dirData state dir) plan.block)
    (show entry.entry + name.length < _ by omega)
  have serves := (plan.serves plan.block (by simp)).onward carried.onward
  obtain ⟨disk, writes⟩ := serves.writes
    (flat (cut (store (flat copied) (entry.entry + name.length + 1) 4 12) : Fin (dirData state dir).blockSize → UInt8))
  obtain ⟨layout, _, frame, _⟩ := ext4WriteBlock_spec formatted writes
  obtain ⟨memory, released, divided⟩ := carried.released
  let freed : Ext4State δ := { stage.held with fs := { stage.held.fs with memory }, disk }
  have known : freed.datas = state.datas := datas
  have table : blockBytes freed.disk (dirData state dir) plan.table =
    blockBytes stage.stored.disk (dirData state dir) plan.table := by
    have apart : BlocksApart stage.read.disk (dirData state dir) plan.block plan.table := fun i inside j within same =>
      carried.onward.layout.apart.mpr (plan.tableApart plan.block (by simp)) j within i inside same.symm
    exact (blockBytes_apart layout frame apart).trans (contents.blockBytes _ _)
  have again : (freed.datas (state.fs.nodes dir).priv) = dirData state dir := by rw [known]; rfl
  have lies : TextIs (blockBytes freed.disk (freed.datas (state.fs.nodes dir).priv) plan.table) plan.offset [0xA4,
    0x81] := by
    rw [again, table]
    exact carried.inode
  obtain ⟨node, made, creates, _⟩ := ext4CreateNode_served (plan.supplied.after known divided) entry.room
    (by rw [again]; exact plan.newPlace)
    (by rw [again]; exact (plan.serves plan.table (by simp)).onward (carried.onward.trans (ext4WriteBlock_onward formatted writes)))
    lies (show 2 < ext4InodeSize by decide) entry.short
  refine ⟨stage, { made with fs := (fsAddchild made.fs dir node).2 }, carried, ?_⟩
  rw [carried.reached.create, appendRest]
  unfold appendEntry
  dsimp only [bind, Except.bind]
  rw [carried.bytes, entry.ends]
  dsimp only
  rw [copies]
  dsimp only
  rw [if_neg (by omega), carried.newIno, carried.block]
  dsimp only [pure, Except.pure]
  rw [writes]
  dsimp only [Ext4State.free]
  rw [released]
  dsimp only [Except.map]
  rw [if_neg (by decide), creates]

/-- One group of 16 inodes on an image of 16 blocks: the bitmap in block 3, the table from
block 4 on. Everything else is zero. -/
def imageData : Ext4Data where
  device := 1
  sb := cut (store (store (fun _ => 0) 0 4 16) 40 4 16)
  gd := 1
  gdCount := 1
  gdBytes := store (store (fun _ => 0) 4 4 3) 8 4 4
  blockSize := 1024
  inodeSize := 256
  partitionIndex := -1

/-- The record of inode 2 is zero, so that it reads as what the stack holds, which may be the
inode of the call before. -/
def imageState (memory : Memory) (inode : Ext4Inode) (bytes : Nat → UInt8) : Ext4State Unit where
  fs := fsStatic memory heapStart ()
  inodes := fun _ => 2
  datas := fun _ => imageData
  disk := ⟨fun _ => ⟨16384, bytes⟩, [], ⟨fun _ _ => 0, fun _ => .done, 0⟩⟩
  stack := fun _ => inode
  frames := 0

theorem imageData_formatted : Formatted imageData := ⟨by decide, by decide⟩

private theorem imageState_apart {memory : Memory} {inode : Ext4Inode} {bytes : Nat → UInt8} {first second : Nat}
    (low : first < 16) (high : second < 16) (different : first ≠ second) :
    BlocksApart (imageState memory inode bytes).disk imageData first second := by
  intro i inside j within same
  have small (block : Nat) (few : block < 16) : u64 (block * 1024) = block * 1024 :=
    Nat.mod_eq_of_lt ((Nat.mul_lt_mul_of_pos_right few (by decide)).trans (by decide))
  have equal := (DiskPlace.image.inj same).2
  rw [show imageData.blockSize = 1024 from rfl] at inside within equal
  rw [small first low, small second high] at equal
  omega

theorem imageState_serves (memory : Memory) (inode : Ext4Inode) (bytes : Nat → UInt8) {block : Nat} (low : block < 16) :
    Serves (imageState memory inode bytes).disk imageData block := by
  refine ⟨fun _ => ?_, fun partition => ?_, fun partition => ?_⟩
  · change u64 (block * 1024) + 1024 ≤ 16384
    rw [u64_eq ((Nat.mul_lt_mul_of_pos_right low (by decide)).trans (by decide))]
    omega
  · exact absurd partition (by decide)
  · exact absurd partition (by decide)

/-- An inode whose record is empty reads as what was there before. -/
theorem copied_nothing {before after : Ext4Inode} (zero : before ⟨0, by decide⟩ = 0) (copied : Copied before after 0 []) :
    after = before := by
  funext index
  by_cases first : index.val = 0
  · have ends := copied.terminated
    rw [show index = ⟨0, by decide⟩ from Fin.ext first, zero]
    exact ends
  · exact copied.back index (by simpa using Nat.pos_of_ne_zero first)

/-- A directory whose block is block 9. -/
def imagePlan {memory : Memory} {inode : Ext4Inode} {bytes : Nat → UInt8}
    (divided : Divided (imageState memory inode bytes).fs [⟨heapTotal, false⟩])
    (points : ext4GetBlockFromExtents inode 0 = .ok 9) (zero : inode ⟨0, by decide⟩ = 0)
    (bitmap : bytes (3 * 1024 + 1) = 0)
    (record : bytes (4 * 1024 + 256) = 0) : CreatePlan (imageState memory inode bytes) 5 where
  blocks := [⟨heapTotal, false⟩]
  bitmap := 3
  byte := 1
  bit := 8
  table := 6
  offset := 768
  dirTable := 4
  dirOffset := 256
  text := []
  block := 9
  supplied := ⟨imageData_formatted, show 0 < 1024 by decide, divided, _, List.mem_singleton.mpr rfl, rfl,
    show roundUp 1024 ≤ heapTotal by decide⟩
  several := show 12 < imageData.sb.inodesCount by decide +kernel
  grouped := show imageData.sb.inodesPerGroup ≠ 0 by decide +kernel
  bitPlace := ⟨show imageData.inodeBitmapLo ((12 - 1) / imageData.sb.inodesPerGroup) = .ok 3 by decide +kernel,
    show 1 = (12 - 1) % imageData.sb.inodesPerGroup / 8 by decide +kernel,
    show 8 = 1 <<< ((12 - 1) % imageData.sb.inodesPerGroup % 8) by decide +kernel, show 1 < 1024 by decide⟩
  clear := by
    change (bytes (u64 (3 * 1024) + 1)).toNat &&& 8 = 0
    rw [show u64 (3 * 1024) + 1 = 3 * 1024 + 1 by decide, bitmap]
    rfl
  newPlace := show inodePlace imageData 12 = .ok (6, 768) by decide +kernel
  newFits := show 768 + 2 < 1024 by decide
  dirPlace := show inodePlace imageData 2 = .ok (4, 256) by decide +kernel
  lies := by
    refine ⟨show 256 + 0 < 1024 by decide, fun index inside => absurd inside (Nat.not_lt_zero index), ?_, by simp⟩
    change bytes (u64 (4 * 1024) + 256) = 0
    rw [show u64 (4 * 1024) + 256 = 4 * 1024 + 256 by decide, record]
  short := by decide
  points := by
    intro got copied
    rw [copied_nothing zero copied]
    exact points
  serves := by
    intro number member
    simp only [List.mem_cons, List.not_mem_nil, or_false] at member
    exact imageState_serves memory inode bytes (by omega)
  bitmapApart := by
    intro number member
    simp only [List.mem_cons, List.not_mem_nil, or_false] at member
    exact imageState_apart (by decide) (by omega) (by omega)
  tableApart := by
    intro number member
    simp only [List.mem_cons, List.not_mem_nil, or_false] at member
    exact imageState_apart (by decide) (by omega) (by omega)

/-- The heap as it is handed over has room for the buffers of such a volume. -/
theorem imageState_divided (inode : Ext4Inode) (bytes : Nat → UInt8) :
    ∃ memory, Divided (imageState memory inode bytes).fs [⟨heapTotal, false⟩] := by
  obtain ⟨memory, divided⟩ := divided_fresh (δ := Unit)
  exact ⟨memory, divided (imageState memory inode bytes).fs⟩

/-- An empty block has its end in front. -/
theorem entriesEnd_empty {size fuel : Nat} {buf : Fin size → UInt8} (sized : 0 < size) (empty : buf ⟨0, sized⟩ = 0) :
    entriesEnd buf (fuel + 1) 0 = .ok 0 := by
  have lies : TextIs buf 0 [] := ⟨sized, fun index inside => absurd inside (Nat.not_lt_zero index), empty, by simp⟩
  rw [entriesEnd, lies.ok]
  rfl

/-- A name of one byte goes into the empty block of an image. -/
def imageEntry {memory : Memory} {inode : Ext4Inode}
    {divided : Divided (imageState memory inode fun _ => 0).fs [⟨heapTotal, false⟩]}
    {points : ext4GetBlockFromExtents inode 0 = .ok 9} {zero : inode ⟨0, by decide⟩ = 0} :
    EntryPlan (imagePlan divided points zero rfl rfl) (literal "a") :=
  ⟨0, entriesEnd_empty (show 0 < 1024 by decide) rfl, show 0 + 1 + 5 ≤ 1024 by decide, by decide,
    _, List.mem_singleton.mpr rfl, rfl, show roundUp fsNodeSize ≤ heapTotal by decide⟩

end Kernix.Proofs
