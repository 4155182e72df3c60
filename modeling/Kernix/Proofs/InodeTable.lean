import Kernix.Proofs.BlockStrings
import Kernix.Proofs.FsFrames
import Kernix.Proofs.ScratchBuffers
import Kernix.Proofs.VolumeService

/-! Inodes on the volume. A record is copied in both directions as if it were a string, so
a record comes back only when its first zero byte is its last byte. Whoever makes a node of
ext4 leaves its table of operations empty. -/

namespace Kernix.Proofs
open ByteMemory

variable {δ : Type}

/-- A call that leaves everything alone but the disk and the memory of its buffers. -/
def Touched (before after : Ext4State δ) : Prop :=
  ∃ memory disk, after = { before with fs := { before.fs with memory }, disk }

namespace Touched
variable {first second third : Ext4State δ}

theorem refl (state : Ext4State δ) : Touched state state := ⟨state.fs.memory, state.disk, rfl⟩

theorem trans (left : Touched first second) (right : Touched second third) : Touched first third := by
  obtain ⟨_, _, rfl⟩ := left
  obtain ⟨memory, disk, rfl⟩ := right
  exact ⟨memory, disk, rfl⟩

theorem disk (state : Ext4State δ) (disk : Disk) : Touched state { state with disk } := ⟨state.fs.memory, disk, rfl⟩

end Touched

theorem alloc_ok {before after : Ext4State δ} {size ptr : Nat} (result : before.alloc size = .ok (ptr, after)) :
    ∃ memory, before.fs.alloc size = .ok (ptr, { before.fs with memory }) ∧
      after = { before with fs := { before.fs with memory } } := by
  unfold Ext4State.alloc at result
  obtain ⟨⟨ptr', fs⟩, allocated, same⟩ := map_ok result
  cases same
  have made := allocated
  unfold FsState.alloc at made
  split at made
  next memory _ =>
    cases made
    exact ⟨memory, allocated, rfl⟩
  next => cases made

theorem ext4Free_ok {before after : Ext4State δ} {ptr : Nat} (result : before.free ptr = .ok after) :
    ∃ memory, FsState.free before.fs ptr = .ok { before.fs with memory } ∧
      after = { before with fs := { before.fs with memory } } := by
  unfold Ext4State.free at result
  obtain ⟨fs, frees, same⟩ := map_ok result
  obtain ⟨memory, _, rfl⟩ := free_ok frees
  exact ⟨memory, frees, same.symm⟩

theorem alloc_touched {before after : Ext4State δ} {size ptr : Nat} (result : before.alloc size = .ok (ptr, after)) :
    Touched before after ∧ after.disk = before.disk := by
  obtain ⟨memory, _, rfl⟩ := alloc_ok result
  exact ⟨⟨memory, before.disk, rfl⟩, rfl⟩

theorem free_touched {before after : Ext4State δ} {ptr : Nat} (result : before.free ptr = .ok after) :
    Touched before after ∧ after.disk = before.disk := by
  obtain ⟨memory, _, rfl⟩ := ext4Free_ok result
  exact ⟨⟨memory, before.disk, rfl⟩, rfl⟩

/-- What a read of an inode comes to. -/
structure InodeRead (before : Ext4State δ) (address inodeNum : Nat) (inode : Ext4Inode) (ret : Int) (got : Ext4Inode)
    (after : Ext4State δ) : Prop where
  touched : Touched before after
  contents : SameContents before.disk after.disk
  onward : Onward before.disk after.disk
  either : ret = 0 ∨ ret = -1 ∧ got = inode
  copied : ret = 0 → ∃ block offset, inodePlace (before.datas address) inodeNum = .ok (block, offset) ∧
    strCopyAt inode (blockBytes before.disk (before.datas address) block) offset = .ok got

theorem ext4ReadInode_spec {before after : Ext4State δ} {address inodeNum : Nat} {inode got : Ext4Inode} {ret : Int}
    (formatted : Formatted (before.datas address))
    (result : ext4ReadInode before address inodeNum inode = .ok (ret, got, after)) :
    InodeRead before address inodeNum inode ret got after := by
  unfold ext4ReadInode at result
  obtain ⟨⟨block, offset⟩, place, result⟩ := bind_ok result
  obtain ⟨⟨buf, held⟩, allocated, result⟩ := bind_ok result
  obtain ⟨touched, untouched⟩ := alloc_touched allocated
  dsimp only at result untouched
  split at result
  next =>
    cases result
    exact ⟨touched, untouched ▸ .refl _, untouched ▸ .refl _, Or.inr ⟨rfl, rfl⟩, by simp⟩
  next =>
    obtain ⟨read, reads, result⟩ := bind_ok result
    rw [untouched] at reads
    have onward := ext4ReadBlock_onward reads
    obtain ⟨contents, either, _⟩ := ext4ReadBlock_spec formatted reads
    split at result
    next =>
      obtain ⟨freed, frees, result⟩ := bind_ok result
      obtain ⟨touched', same⟩ := free_touched frees
      cases result
      exact ⟨touched.trans ((Touched.disk held read.disk).trans touched'), same ▸ contents, same ▸ onward,
        Or.inr ⟨rfl, rfl⟩, by simp⟩
    next done =>
      obtain ⟨copied, copies, result⟩ := bind_ok result
      obtain ⟨freed, frees, result⟩ := bind_ok result
      obtain ⟨touched', same⟩ := free_touched frees
      cases result
      have success : read.ret = 0 := returned_zero either done
      rw [ext4ReadBlock_bytes formatted reads success] at copies
      exact ⟨touched.trans ((Touched.disk held read.disk).trans touched'), same ▸ contents, same ▸ onward,
        Or.inl rfl, fun _ => ⟨block, offset, place, copies⟩⟩

/-- What a write of an inode comes to. A failure can still have changed the block. -/
structure InodeWritten (before : Ext4State δ) (address inodeNum : Nat) (inode : Ext4Inode) (ret : Int)
    (after : Ext4State δ) : Prop where
  touched : Touched before after
  layout : SameLayout before.disk after.disk
  onward : Onward before.disk after.disk
  either : ret = 0 ∨ ret = -1
  frame : ∃ block offset, inodePlace (before.datas address) inodeNum = .ok (block, offset) ∧
    (∀ place, (∀ i < (before.datas address).blockSize, place ≠ blockPlace before.disk (before.datas address) block i) →
      byteAt after.disk place = byteAt before.disk place) ∧
    (ret = 0 → ∃ text, textAt inode 0 = .ok text ∧
      strCopyFrom (blockBytes before.disk (before.datas address) block) offset text =
        .ok (blockBytes after.disk (before.datas address) block))

theorem ext4WriteInode_spec {before after : Ext4State δ} {address inodeNum : Nat} {inode : Ext4Inode} {ret : Int}
    (formatted : Formatted (before.datas address))
    (result : ext4WriteInode before address inodeNum inode = .ok (ret, after)) :
    InodeWritten before address inodeNum inode ret after := by
  unfold ext4WriteInode at result
  obtain ⟨⟨block, offset⟩, place, result⟩ := bind_ok result
  obtain ⟨⟨buf, held⟩, allocated, result⟩ := bind_ok result
  obtain ⟨touched, untouched⟩ := alloc_touched allocated
  dsimp only at result untouched
  split at result
  next =>
    cases result
    exact ⟨touched, untouched ▸ .refl _, untouched ▸ .refl _, Or.inr rfl,
      block, offset, place, fun _ _ => by rw [untouched], by simp⟩
  next =>
    obtain ⟨read, reads, result⟩ := bind_ok result
    rw [untouched] at reads
    have onward := ext4ReadBlock_onward reads
    obtain ⟨contents, either, _⟩ := ext4ReadBlock_spec formatted reads
    split at result
    next =>
      obtain ⟨freed, frees, result⟩ := bind_ok result
      obtain ⟨touched', same⟩ := free_touched frees
      cases result
      exact ⟨touched.trans ((Touched.disk held read.disk).trans touched'), same ▸ contents.layout, same ▸ onward,
        Or.inr rfl, block, offset, place, fun place _ => by rw [same]; exact contents.bytes place, by simp⟩
    next done =>
      obtain ⟨text, found, result⟩ := bind_ok result
      obtain ⟨bytes, copies, result⟩ := bind_ok result
      obtain ⟨⟨stored, disk⟩, writes, result⟩ := bind_ok result
      obtain ⟨freed, frees, result⟩ := bind_ok result
      obtain ⟨touched', same⟩ := free_touched frees
      have success : read.ret = 0 := returned_zero either done
      rw [ext4ReadBlock_bytes formatted reads success] at copies
      obtain ⟨layout, ended, frame, _⟩ := ext4WriteBlock_spec formatted writes
      cases result
      dsimp only at same frame
      refine ⟨touched.trans ((Touched.disk held disk).trans touched'), same ▸ contents.layout.trans layout,
        same ▸ onward.trans (ext4WriteBlock_onward formatted writes), ?_, block, offset, place, fun place apart => ?_,
          fun fine => ?_⟩
      · split
        next => exact Or.inr rfl
        next => exact Or.inl rfl
      · rw [same, frame place fun i inside => by rw [contents.layout.blockPlace]; exact apart i inside]
        exact contents.bytes place
      · have kept : stored = 0 := ended.resolve_right fun failed => by
          rw [failed] at fine
          simp at fine
        subst kept
        refine ⟨text, found, ?_⟩
        rw [copies, same, ext4WriteBlock_bytes formatted writes]

/-- A read that finds its buffer, its block and a string that fits. -/
theorem ext4ReadInode_returns {state : Ext4State δ} {address inodeNum block offset ptr : Nat} {inode got : Ext4Inode}
    {memory memory' : Memory} (formatted : Formatted (state.datas address))
    (place : inodePlace (state.datas address) inodeNum = .ok (block, offset))
    (scratch : Scratch state.fs (state.datas address).blockSize ptr memory memory')
    (serves : Serves state.disk (state.datas address) block)
    (copies : strCopyAt inode (blockBytes state.disk (state.datas address) block) offset = .ok got) :
    ∃ disk, ext4ReadInode state address inodeNum inode =
      .ok (0, got, { state with fs := { state.fs with memory := memory' }, disk }) := by
  obtain ⟨read, reads, success⟩ := serves.reads
  have bytes := ext4ReadBlock_bytes formatted reads success
  refine ⟨read.disk, ?_⟩
  unfold ext4ReadInode
  simp only [place, Ext4State.alloc, scratch.allocated, Except.map, Ext4State.free, bind, Except.bind]
  rw [if_neg scratch.given]
  simp only [reads]
  rw [if_neg (by rw [success]; decide), bytes, copies]
  simp only [scratch.released]
  rfl

/-- A byte of the slot of an inode in its table. A slot may run on into the next block. -/
def SlotByte (disk : Disk) (data : Ext4Data) (inodeNum position : Nat) (place : DiskPlace) : Prop :=
  ∃ block offset, inodePlace data inodeNum = .ok (block, offset) ∧
    place = blockPlace disk data ((block + (offset + position) / data.blockSize) % 2 ^ 32)
      ((offset + position) % data.blockSize)

/-- A record whose first zero byte is its last byte. -/
def FullString (inode : Ext4Inode) : Prop := ∀ i, inode i = 0 ↔ i.val = ext4InodeSize - 1

/-- The record falls on no byte of another inode's slot that holds something else. -/
def Harmless (state : Ext4State δ) (address inodeNum : Nat) (inode : Ext4Inode) : Prop :=
  ∀ other, 1 ≤ other → other ≤ (state.datas address).sb.inodesCount → other ≠ inodeNum →
    ∀ position < (state.datas address).inodeSize, ∀ place,
      SlotByte state.disk (state.datas address) other position place →
      ∀ i : Fin ext4InodeSize, SlotByte state.disk
        (state.datas address) inodeNum i place → byteAt state.disk place = inode i

/-- What the code promises about a record that it has written: it is read again as long
as the disk holds the same bytes, and the slots of the others are as before. -/
structure RoundTrip (before after : Ext4State δ) (address inodeNum : Nat) (inode : Ext4Inode) : Prop where
  back : ∀ later : Ext4State δ, later.datas = after.datas → SameContents after.disk later.disk → ∀ old got final,
    ext4ReadInode later address inodeNum old = .ok (0, got, final) → got = inode
  others : ∀ other, 1 ≤ other → other ≤ (before.datas address).sb.inodesCount → other ≠ inodeNum →
    ∀ position < (before.datas address).inodeSize, ∀ place,
      SlotByte before.disk (before.datas address) other position place → byteAt after.disk place = byteAt before.disk place

/-- A write that ends well has had a buffer and a block, and has left the string there. -/
private structure RecordStored (before after : Ext4State δ) (address inodeNum : Nat) (inode : Ext4Inode)
    (block offset : Nat)
    (text : List UInt8) : Prop where
  place : inodePlace (before.datas address) inodeNum = .ok (block, offset)
  sized : 0 < (before.datas address).blockSize
  scratch : ∃ ptr memory memory', Scratch before.fs (before.datas address).blockSize ptr memory memory'
  reads : ∃ read, ext4ReadBlock before.disk (before.datas address) block = .ok read ∧ read.ret = 0
  lies : TextIs inode 0 text
  copied : Copied (blockBytes before.disk (before.datas address) block)
    (blockBytes after.disk (before.datas address) block)
    offset text

private theorem ext4WriteInode_stored {before after : Ext4State δ} {address inodeNum : Nat} {inode : Ext4Inode}
    (formatted : Formatted (before.datas address))
    (written : ext4WriteInode before address inodeNum inode = .ok (0, after)) :
    ∃ block offset text, RecordStored before after address inodeNum inode block offset text := by
  obtain ⟨block, offset, place, _, stored⟩ := (ext4WriteInode_spec formatted written).frame
  obtain ⟨text, found, copies⟩ := stored rfl
  have lies := textAt_ok found
  have sized : 0 < (before.datas address).blockSize := by
    have fits := (strCopyFrom_copied lies.clean copies).fits
    omega
  unfold ext4WriteInode at written
  obtain ⟨⟨block', offset'⟩, place', written⟩ := bind_ok written
  cases place.symm.trans place'
  obtain ⟨⟨ptr, held⟩, allocs, written⟩ := bind_ok written
  obtain ⟨memory, allocated, rfl⟩ := alloc_ok allocs
  dsimp only at written
  split at written
  next => cases written
  next given =>
    obtain ⟨read, reads, written⟩ := bind_ok written
    obtain ⟨_, either, _⟩ := ext4ReadBlock_spec formatted reads
    split at written
    next =>
      obtain ⟨_, _, written⟩ := bind_ok written
      cases written
    next done =>
      have success : read.ret = 0 := returned_zero either done
      obtain ⟨_, _, written⟩ := bind_ok written
      obtain ⟨_, _, written⟩ := bind_ok written
      obtain ⟨_, _, written⟩ := bind_ok written
      obtain ⟨freed, frees, _⟩ := bind_ok written
      obtain ⟨memory', frees, _⟩ := ext4Free_ok frees
      exact ⟨block, offset, text, place, sized, ⟨ptr, memory, memory', allocated, given, frees⟩,
        ⟨read, reads, success⟩, lies,
        strCopyFrom_copied lies.clean copies⟩

theorem inodePlace_low {data : Ext4Data} {inodeNum block offset : Nat}
    (found : inodePlace data inodeNum = .ok (block, offset)) : block < 2 ^ 32 ∧ offset < data.blockSize := by
  unfold inodePlace at found
  dsimp only at found
  split at found
  next => cases found
  next =>
    obtain ⟨table, _, found⟩ := bind_ok found
    split at found
    next => cases found
    next sized =>
      have pair := Prod.mk.inj (Except.ok.inj found)
      rw [← pair.1, ← pair.2]
      exact ⟨Nat.mod_lt _ (Nat.two_pow_pos 32), Nat.mod_lt _ (Nat.pos_of_ne_zero sized)⟩

/-- A record that lies within one block: its bytes are those of the block. -/
private theorem slotByte_inside {disk : Disk} {data : Ext4Data} {inodeNum block offset position : Nat} {place : DiskPlace}
    (found : inodePlace data inodeNum = .ok (block, offset)) (inside : offset + position < data.blockSize) :
    SlotByte disk data inodeNum position place ↔ place = blockPlace disk data block (offset + position) := by
  have low : block % 2 ^ 32 = block := Nat.mod_eq_of_lt (inodePlace_low found).1
  constructor
  · rintro ⟨block', offset', found', rfl⟩
    cases found.symm.trans found'
    rw [Nat.div_eq_of_lt inside, Nat.mod_eq_of_lt inside, Nat.add_zero, low]
  · rintro rfl
    refine ⟨block, offset, found, ?_⟩
    rw [Nat.div_eq_of_lt inside, Nat.mod_eq_of_lt inside, Nat.add_zero, low]

/-- A record whose string is full is the string and its terminator. -/
private theorem FullString.length {inode : Ext4Inode} {text : List UInt8} (full : FullString inode)
    (lies : TextIs inode 0 text) :
    text.length = ext4InodeSize - 1 := by
  have stops := (full _).mp lies.terminated
  dsimp only at stops
  omega

/-- A full string that is copied over a record makes it the same record. -/
private theorem FullString.copied {inode old got : Ext4Inode} {text : List UInt8} (full : FullString inode)
    (lies : TextIs inode 0 text) (copied : Copied old got 0 text) : got = inode := by
  have length := full.length lies
  have put := copied.lies lies.clean
  funext i
  by_cases last : i.val = ext4InodeSize - 1
  · have ends := put.terminated
    rw [(full i).mpr last, ← ends]
    congr 1
    apply Fin.ext
    dsimp only
    omega
  · have inside : i.val < text.length := by
      have := i.isLt
      omega
    have left := put.bytes i.val inside
    have right := lies.bytes i.val inside
    simp only [Nat.zero_add] at left right
    exact left.trans right.symm

/-- A shorter string leaves the last byte of the record alone. -/
private theorem full_of_back {before after : Ext4State δ} {address inodeNum block offset : Nat} {inode : Ext4Inode}
    {text : List UInt8} (formatted : Formatted (before.datas address)) (touched : Touched before after)
    (layout : SameLayout before.disk after.disk)
    (stored : RecordStored before after address inodeNum inode block offset text)
    (back : ∀ later : Ext4State δ, later.datas = after.datas → SameContents after.disk later.disk → ∀ old got final,
      ext4ReadInode later address inodeNum old = .ok (0, got, final) → got = inode) : FullString inode := by
  obtain ⟨ptr, memory, memory', scratch⟩ := stored.scratch
  obtain ⟨read, reads, success⟩ := stored.reads
  obtain ⟨_, _, same⟩ := touched
  have datas : after.datas = before.datas := by rw [same]
  have short : text.length < ext4InodeSize := by simpa using stored.lies.fits
  -- The drives of a later state that are not at fault, so that the record is read again.
  let calm : Disk := { after.disk with drives := { after.disk.drives with outcomes := fun _ => .done } }
  have contents : SameContents after.disk calm := ⟨⟨rfl, fun _ => rfl⟩, fun place => by cases place <;> rfl⟩
  let later : Ext4State δ := { before with disk := calm }
  have serves := ext4ReadBlock_serves formatted stored.sized reads success (layout.trans contents.layout) fun _ => rfl
  have lies := stored.copied.lies stored.lies.clean
  rw [← contents.blockBytes] at lies
  obtain ⟨got, copies, copied⟩ := lies.copies (fun _ => inode ⟨ext4InodeSize - 1, by decide⟩ + 1) short
  have formatted' : Formatted (later.datas address) := formatted
  obtain ⟨disk, returns⟩ := ext4ReadInode_returns formatted' stored.place scratch serves copies
  have equal := back later datas.symm contents _ _ _ returns
  have long : text.length = ext4InodeSize - 1 := by
    by_contra short
    have kept := copied.back ⟨ext4InodeSize - 1, by decide⟩ (by dsimp only; omega)
    rw [equal] at kept
    exact absurd kept (by simp)
  intro i
  constructor
  · intro zero
    by_contra early
    have inside : i.val < text.length := by
      have := i.isLt
      omega
    have byte := stored.lies.bytes i.val inside
    simp only [Nat.zero_add, Fin.eta] at byte
    exact stored.lies.clean (by rw [← zero, byte]; exact List.getElem_mem inside)
  · intro last
    have ends := stored.lies.terminated
    rw [← ends]
    congr 1
    apply Fin.ext
    dsimp only
    omega

/-- A record that has been written is read again, and harms no other inode, exactly when
it is a string that fills it and falls on no byte of another slot that holds something else. -/
theorem inode_round_trip_iff {before after : Ext4State δ} {address inodeNum : Nat} {inode : Ext4Inode}
    (formatted : Formatted (before.datas address))
    (written : ext4WriteInode before address inodeNum inode = .ok (0, after)) :
    RoundTrip before after address inodeNum inode ↔ FullString inode ∧ Harmless before address inodeNum inode := by
  have wrote := ext4WriteInode_spec formatted written
  obtain ⟨block, offset, text, stored⟩ := ext4WriteInode_stored formatted written
  obtain ⟨block', offset', place, frame, _⟩ := wrote.frame
  cases stored.place.symm.trans place
  have datas : after.datas = before.datas := by
    obtain ⟨_, _, rfl⟩ := wrote.touched
    rfl
  have lies := stored.copied.lies stored.lies.clean
  have fits := lies.fits
  have slot {place : DiskPlace} {i : Fin ext4InodeSize} (length : text.length = ext4InodeSize - 1) :
      SlotByte before.disk (before.datas address) inodeNum i place ↔
        place = blockPlace before.disk (before.datas address) block (offset + i) :=
    slotByte_inside stored.place (by have := i.isLt; omega)
  have here (i : Fin (before.datas address).blockSize) : blockBytes after.disk (before.datas address) block i =
      byteAt after.disk (blockPlace before.disk (before.datas address) block i) := by
    unfold blockBytes
    rw [wrote.layout.blockPlace]
  -- What lies at a byte of the record after the write.
  have recorded (full : FullString inode) (i : Fin ext4InodeSize) :
      byteAt after.disk (blockPlace before.disk (before.datas address) block (offset + i)) = inode i := by
    have length := full.length stored.lies
    rw [← here ⟨offset + i, by have := i.isLt; omega⟩]
    by_cases last : i.val = ext4InodeSize - 1
    · rw [(full i).mpr last, ← lies.terminated]
      congr 1
      apply Fin.ext
      dsimp only
      omega
    · have within : i.val < text.length := by
        have := i.isLt
        omega
      have left := stored.lies.bytes i.val within
      simp only [Nat.zero_add, Fin.eta] at left
      exact (lies.bytes i.val within).trans left.symm
  constructor
  · intro trip
    have full := full_of_back formatted wrote.touched wrote.layout stored trip.back
    refine ⟨full, fun other low high different position inside place theirs i ours => ?_⟩
    rw [← trip.others other low high different position inside place theirs]
    rw [(slot (full.length stored.lies)).mp ours]
    exact recorded full i
  · rintro ⟨full, harmless⟩
    refine ⟨fun later same contents old got final read => ?_,
      fun other low high different position inside place theirs => ?_⟩
    · have known : later.datas address = before.datas address := by rw [same, datas]
      obtain ⟨block'', offset'', place', copies⟩ := (ext4ReadInode_spec (known ▸ formatted) read).copied rfl
      rw [known] at place' copies
      cases stored.place.symm.trans place'
      rw [contents.blockBytes] at copies
      obtain ⟨found, again, copied⟩ := strCopyAt_ok copies
      rw [again.unique lies] at copied
      exact full.copied stored.lies copied
    · by_cases ours : ∃ i < (before.datas address).blockSize,
        place = blockPlace before.disk (before.datas address) block i
      · obtain ⟨i, within, rfl⟩ := ours
        have length := full.length stored.lies
        by_cases record : ∃ k : Fin ext4InodeSize, i = offset + k
        · obtain ⟨k, rfl⟩ := record
          rw [harmless other low high different position inside _ theirs k ((slot length).mpr rfl)]
          exact recorded full k
        · rw [← here ⟨i, within⟩]
          rcases Nat.lt_or_ge i offset with early | late
          · exact stored.copied.front ⟨i, within⟩ early
          · apply stored.copied.back ⟨i, within⟩
            have beyond : ext4InodeSize ≤ i - offset := by
              by_contra within'
              exact record ⟨⟨i - offset, not_le.mp within'⟩, (Nat.add_sub_cancel' late).symm⟩
            have some : 0 < ext4InodeSize := by decide
            dsimp only
            omega
      · rw [frame place fun i within equal => ours ⟨i, within, equal⟩]

/-- A write that finds its buffer and its block, of a record whose string fits into the block. -/
theorem ext4WriteInode_returns {state : Ext4State δ} {address inodeNum block offset ptr : Nat} {inode : Ext4Inode}
    {text : List UInt8} {memory memory' : Memory} (formatted : Formatted (state.datas address))
    (place : inodePlace (state.datas address) inodeNum = .ok (block, offset))
    (scratch : Scratch state.fs (state.datas address).blockSize ptr memory memory')
    (serves : Serves state.disk (state.datas address) block) (lies : TextIs inode 0 text)
    (fits : offset + text.length < (state.datas address).blockSize) :
    ∃ disk, ext4WriteInode state address inodeNum inode =
      .ok (0, { state with fs := { state.fs with memory := memory' }, disk }) := by
  obtain ⟨read, reads, success⟩ := serves.reads
  have bytes := ext4ReadBlock_bytes formatted reads success
  obtain ⟨copied, copies⟩ := strCopyFrom_returns (blockBytes state.disk (state.datas address) block) fits
  obtain ⟨disk, writes⟩ := (serves.onward (ext4ReadBlock_onward reads)).writes (flat copied)
  refine ⟨disk, ?_⟩
  unfold ext4WriteInode
  simp only [place, Ext4State.alloc, scratch.allocated, Except.map, Ext4State.free, bind, Except.bind]
  rw [if_neg scratch.given]
  simp only [reads]
  rw [if_neg (by rw [success]; decide), lies.ok, bytes]
  simp only [copies, writes, scratch.released]
  rfl

/-- One group of two inodes of 256 bytes, whose table is block 2 of an image. -/
private def tableData : Ext4Data where
  device := 1
  sb := cut (store (store (fun _ => 0) 0 4 2) 40 4 8)
  gd := 1
  gdCount := 1
  gdBytes := store (fun _ => 0) 8 4 2
  blockSize := 1024
  inodeSize := 256
  partitionIndex := -1

private def tableState (memory : Memory) : Ext4State Unit where
  fs := fsStatic memory heapStart ()
  inodes := fun _ => 0
  datas := fun _ => tableData
  disk := ⟨fun _ => ⟨8192, fun _ => 0⟩, [], ⟨fun _ _ => 0, fun _ => .done, 0⟩⟩
  stack := fun _ _ => 0
  frames := 0

private theorem tableData_formatted : Formatted tableData := ⟨by decide, by decide⟩

private theorem tableData_first : inodePlace tableData 1 = .ok (2, 0) := by decide +kernel

private theorem tableData_second : inodePlace tableData 2 = .ok (2, 256) := by decide +kernel

/-- Every record with a zero byte can be written there. -/
private theorem tableState_writes (inode : Ext4Inode) (stop : Fin ext4InodeSize) (zero : inode stop = 0) :
    ∃ (memory : Memory) (after : Ext4State Unit), ext4WriteInode (tableState memory) 1 1 inode = .ok (0, after) := by
  obtain ⟨memory, divided⟩ := divided_fresh (δ := Unit)
  have split : Divided (tableState memory).fs [⟨heapTotal, false⟩] := divided (tableState memory).fs
  obtain ⟨ptr, memory', memory'', scratch, _⟩ := split.scratch (show 0 < 1024 by decide) (by decide)
    ⟨_, List.mem_singleton.mpr rfl, rfl, by decide⟩
  obtain ⟨text, found⟩ := textAt_returns stop (Nat.zero_le _) zero
  have lies := textAt_ok found
  have short : text.length < ext4InodeSize := by simpa using lies.fits
  have serves : Serves (tableState memory).disk tableData 2 := by
    refine ⟨fun _ => show u64 (2 * 1024) + 1024 ≤ 8192 by decide, fun partition => ?_, fun partition => ?_⟩
    · exact absurd partition (by decide)
    · exact absurd partition (by decide)
  have formatted : Formatted ((tableState memory).datas 1) := tableData_formatted
  obtain ⟨disk, writes⟩ := ext4WriteInode_returns formatted tableData_first scratch serves lies
    ((Nat.zero_add _).symm ▸ short.trans (show 156 < 1024 by decide))
  exact ⟨memory, _, writes⟩

/-- The record falls on no byte of the only other slot. -/
private theorem tableState_harmless (memory : Memory) (inode : Ext4Inode) : Harmless (tableState memory) 1 1 inode := by
  intro other low high different position inside place theirs i ours
  have few : tableData.sb.inodesCount = 2 := by decide +kernel
  have second : other = 2 := by
    have := few ▸ high
    omega
  subst second
  have bound : i.val < 156 := i.isLt
  have narrow : position < 256 := inside
  have first := (slotByte_inside tableData_first (by simp only [tableData]; omega)).mp ours
  have behind := (slotByte_inside tableData_second (by simp only [tableData]; omega)).mp theirs
  rw [first] at behind
  have same := (DiskPlace.image.inj behind).2
  omega

/-- A record without inner zero bytes comes back. -/
theorem inode_round_trip_iff_full : ∃ (before after : Ext4State Unit) (inode : Ext4Inode),
    ext4WriteInode before 1 1 inode = .ok (0, after) ∧ RoundTrip before after 1 1 inode := by
  obtain ⟨memory, after, written⟩ := tableState_writes
    (fun i => if i.val = ext4InodeSize - 1 then 0 else 1) ⟨ext4InodeSize - 1, by decide⟩ (if_pos rfl)
  refine ⟨_, after, _, written, (inode_round_trip_iff tableData_formatted written).mpr ⟨fun i => ?_,
    tableState_harmless _ _⟩⟩
  by_cases last : i.val = ext4InodeSize - 1 <;> simp [last]

/-- The inode that `ext4_create` writes does not come back: the copy ends behind its mode. -/
theorem inode_round_trip_fails :
    ¬ ∀ (before after : Ext4State Unit) (address inodeNum : Nat) (inode : Ext4Inode), Formatted (before.datas address) →
      1 ≤ inodeNum → inodeNum ≤ (before.datas address).sb.inodesCount →
        ext4WriteInode before address inodeNum inode = .ok (0, after) →
          RoundTrip before after address inodeNum inode := by
  intro always
  obtain ⟨memory, after, written⟩ := tableState_writes .fresh ⟨2, by decide⟩ (by decide +kernel)
  have trip := always _ _ _ _ _ tableData_formatted (Nat.le_refl 1)
    (show 1 ≤ tableData.sb.inodesCount by decide +kernel) written
  obtain ⟨_, _, _, stored⟩ := ext4WriteInode_stored tableData_formatted written
  have wrote := ext4WriteInode_spec tableData_formatted written
  have full := full_of_back tableData_formatted wrote.touched wrote.layout stored trip.back
  exact absurd ((full ⟨2, by decide⟩).mp (by decide +kernel)) (by decide)

section Nodes

/-- What making a node comes to. -/
structure NodeCreated (before : Ext4State δ) (address inodeNum : Nat) (name : List UInt8) (node : Nat)
    (after : Ext4State δ) :
    Prop where
  contents : SameContents before.disk after.disk
  onward : Onward before.disk after.disk
  datas : after.datas = before.datas
  mnts : after.fs.mnts = before.fs.mnts
  missing : node = 0 → after.fs.nodes = before.fs.nodes ∧ after.inodes = before.inodes
  made : node ≠ 0 → ∃ inode opened array,
    ext4ReadInode before.localInode.2 address inodeNum before.localInode.1 = .ok (0, inode, opened) ∧
    strCopy (fun _ => 0) name = .ok array ∧
    after.fs.nodes = Function.update before.fs.nodes node
      ⟨array, if inode.mode &&& 0x4000 ≠ 0 then fsDir else fsFile, inode.sizeLo, none, address, 0, 0, 0⟩ ∧
    after.inodes = Function.update before.inodes node inodeNum

theorem ext4CreateNode_spec {before after : Ext4State δ} {address inodeNum node : Nat} {name : List UInt8}
    (formatted : Formatted (before.datas address))
    (result : ext4CreateNode before address inodeNum name = .ok (node, after)) :
    NodeCreated before address inodeNum name node after := by
  unfold ext4CreateNode at result
  dsimp only at result
  obtain ⟨⟨ret, inode, opened⟩, reads, result⟩ := bind_ok result
  have formatted' : Formatted (before.localInode.2.datas address) := formatted
  have read := ext4ReadInode_spec formatted' reads
  obtain ⟨memory, disk, same⟩ := read.touched
  have contents := read.contents
  have onward := read.onward
  dsimp only at result
  subst same
  split at result
  next =>
    cases result
    exact ⟨contents, onward, rfl, rfl, fun _ => ⟨rfl, rfl⟩, fun given => (given rfl).elim⟩
  next fine =>
    have success : ret = 0 := by
      rcases read.either with success | ⟨failed, _⟩
      · exact success
      · exact absurd (by rw [failed]; decide) fine
    subst success
    obtain ⟨⟨node', fs⟩, makes, result⟩ := bind_ok result
    dsimp only at result
    split at result
    next => cases result
    next given =>
      cases result
      cases fsMknode_made makes with
      | refused => exact (given rfl).elim
      | fresh _ creates copied =>
        obtain ⟨memory', _, rfl⟩ := create_ok creates
        refine ⟨contents, onward, rfl, rfl, fun none => (given none).elim, fun _ => ⟨inode, _, _, reads, copied, ?_, rfl⟩⟩
        dsimp only [FsState.setNode]
        simp only [Function.update_self, Function.update_idem]
        rfl

/-- The values and the states of `ext4_lookup` up to its loop. -/
structure LookupStage (δ : Type) where
  inode : Ext4Inode
  opened : Ext4State δ
  buf : Nat
  held : Ext4State δ
  read : BlockRead

/-- A call of `ext4_lookup` comes to its loop. -/
structure LookupReached (before : Ext4State δ) (dir : Nat) (stage : LookupStage δ) : Prop where
  opened : ext4ReadInode before.localInode.2 (before.fs.nodes dir).priv
    (before.localInode.2.inodes dir) before.localInode.1 =
    .ok (0, stage.inode, stage.opened)
  held : stage.opened.alloc (before.datas (before.fs.nodes dir).priv).blockSize = .ok (stage.buf, stage.held)
  buffer : stage.buf ≠ 0
  read : ext4ReadBlock stage.held.disk (before.datas (before.fs.nodes dir).priv) (stage.inode.block 0) = .ok stage.read
  success : stage.read.ret = 0

/-- What `ext4_lookup` does from there on. -/
def lookupRest (before : Ext4State δ) (dir : Nat) (name : List UInt8) (stage : LookupStage δ) :
    Except Stop (Nat × Ext4State δ) := do
  let bytes : Fin (before.datas (before.fs.nodes dir).priv).blockSize → UInt8 := cut stage.read.bytes
  let found ← findEntry bytes name ((before.datas (before.fs.nodes dir).priv).blockSize + 1) 0
  let state ← { stage.held with disk := stage.read.disk }.free stage.buf
  match found with
  | none => return (0, state)
  | some inodeNum => ext4CreateNode state (before.fs.nodes dir).priv inodeNum name

theorem LookupReached.lookup {before : Ext4State δ} {dir : Nat} {stage : LookupStage δ}
    (reached : LookupReached before dir stage)
    (name : List UInt8) : ext4Lookup before dir name = lookupRest before dir name stage := by
  unfold ext4Lookup lookupRest
  dsimp only [bind, Except.bind]
  rw [reached.opened]
  dsimp only
  rw [if_neg (by decide), reached.held]
  dsimp only
  rw [if_neg reached.buffer, reached.read]
  dsimp only
  exact if_neg (by rw [reached.success]; decide)

/-- A call of `ext4_lookup` that returns: it finds nothing, or it comes to its loop. -/
theorem ext4Lookup_cases {before after : Ext4State δ} {dir node : Nat} {name : List UInt8}
    (formatted : Formatted (before.datas (before.fs.nodes dir).priv))
    (result : ext4Lookup before dir name = .ok (node, after)) :
    node = 0 ∨ ∃ stage, LookupReached before dir stage ∧ lookupRest before dir name stage = .ok (node, after) := by
  have whole := result
  unfold ext4Lookup at result
  dsimp only at result
  obtain ⟨⟨ret, inode, opened⟩, reads, result⟩ := bind_ok result
  have formatted' : Formatted (before.localInode.2.datas (before.fs.nodes dir).priv) := formatted
  have read := ext4ReadInode_spec formatted' reads
  dsimp only at result
  split at result
  next =>
    cases result
    exact Or.inl rfl
  next fine =>
    have success : ret = 0 := by
      rcases read.either with success | ⟨failed, _⟩
      · exact success
      · exact absurd (by rw [failed]; decide) fine
    subst success
    obtain ⟨⟨buf, held⟩, allocated, result⟩ := bind_ok result
    dsimp only at result
    split at result
    next =>
      cases result
      exact Or.inl rfl
    next given =>
      obtain ⟨block, blockReads, result⟩ := bind_ok result
      obtain ⟨_, either, _⟩ := ext4ReadBlock_spec formatted blockReads
      split at result
      next =>
        obtain ⟨_, _, result⟩ := bind_ok result
        cases result
        exact Or.inl rfl
      next done =>
        have success : block.ret = 0 := returned_zero either done
        have reached : LookupReached before dir ⟨inode, opened, buf, held, block⟩ :=
          ⟨reads, allocated, given, blockReads, success⟩
        exact Or.inr ⟨_, reached, (reached.lookup name).symm.trans whole⟩

end Nodes

end Kernix.Proofs
