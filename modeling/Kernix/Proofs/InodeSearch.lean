import Kernix.Proofs.ServedCalls

/-! The search for a free inode, over all groups of a volume. Inodes are numbered from 1 on,
and the loop ends in front of the last one. -/

namespace Kernix.Proofs
open ByteMemory

variable {δ : Type}

/-- The bit of an inode is set. -/
def InodeUsed (disk : Disk) (data : Ext4Data) (inodeNum : Nat) : Prop :=
  ∃ block byte bit, BitmapBit data inodeNum block byte bit ∧
    (byteAt disk (blockPlace disk data block byte)).toNat &&& bit ≠ 0

/-- The bitmaps have a bit for every inode, in blocks whose accesses end well. -/
structure BitmapsCover (disk : Disk) (data : Ext4Data) : Prop where
  grouped : data.sb.inodesPerGroup ≠ 0
  bits : ∀ inodeNum, 1 ≤ inodeNum → inodeNum ≤ data.sb.inodesCount →
    ∃ block byte bit, BitmapBit data inodeNum block byte bit ∧ Serves disk data block

/-- After a search the bit of the inode that was found is set as well, and no other byte or
bit of the disk has changed. -/
def BitSet (before after : Disk) (data : Ext4Data) (inodeNum : Nat) : Prop :=
  ∃ block byte bit, BitmapBit data inodeNum block byte bit ∧
    ∀ place, byteAt after place =
      if place = blockPlace before data block byte then UInt8.ofNat ((byteAt before place).toNat ||| bit)
      else byteAt before place

/-- What a search among the inodes of a range comes to: the first of them that is free. -/
structure Searched (before after : Disk) (data : Ext4Data) (first stop inodeNum : Nat) : Prop where
  none : inodeNum = 0 → (∀ other, first ≤ other → other < stop → InodeUsed before data other) ∧ SameContents before after
  least : inodeNum ≠ 0 → first ≤ inodeNum ∧ inodeNum < stop ∧ ¬InodeUsed before data inodeNum ∧
    (∀ other, first ≤ other → other < inodeNum → InodeUsed before data other) ∧ BitSet before after data inodeNum

theorem BitmapBit.unique {data : Ext4Data} {inodeNum block byte bit block' byte' bit' : Nat}
    (left : BitmapBit data inodeNum block byte bit) (right : BitmapBit data inodeNum block' byte' bit') :
    block = block' ∧ byte = byte' ∧ bit = bit' :=
  ⟨Except.ok.inj (left.bitmap.symm.trans right.bitmap), left.position.trans right.position.symm,
    left.mask.trans right.mask.symm⟩

theorem inodeUsed_iff {disk : Disk} {data : Ext4Data} {inodeNum block byte bit : Nat}
    (place : BitmapBit data inodeNum block byte bit) :
    InodeUsed disk data inodeNum ↔ (byteAt disk (blockPlace disk data block byte)).toNat &&& bit ≠ 0 := by
  constructor
  · rintro ⟨block', byte', bit', other, set⟩
    obtain ⟨rfl, rfl, rfl⟩ := place.unique other
    exact set
  · intro set
    exact ⟨block, byte, bit, place, set⟩

theorem SameContents.used {before after : Disk} (same : SameContents before after) (data : Ext4Data) (inodeNum : Nat) :
    InodeUsed after data inodeNum ↔ InodeUsed before data inodeNum := by
  unfold InodeUsed
  simp only [same.bytes, same.layout.blockPlace]

/-- An inode in use in front of the range is passed over. -/
theorem Searched.pass {before middle after : Disk} {data : Ext4Data} {first stop inodeNum : Nat}
    (same : SameContents before middle) (used : InodeUsed before data first)
    (searched : Searched middle after data (first + 1) stop inodeNum) :
    Searched before after data first stop inodeNum := by
  have usedFirst (other : Nat) (low : first ≤ other) (rest : first + 1 ≤ other → InodeUsed middle data other) :
      InodeUsed before data other := by
    rcases Nat.eq_or_lt_of_le low with rfl | later
    · exact used
    · exact (same.used data other).mp (rest later)
  constructor
  · intro zero
    obtain ⟨all, contents⟩ := searched.none zero
    exact ⟨fun other low high => usedFirst other low fun later => all other later high, same.trans contents⟩
  · intro given
    obtain ⟨low, high, free, all, block, byte, bit, place, set⟩ := searched.least given
    refine ⟨by omega, high, mt (same.used data inodeNum).mpr free,
      fun other low high => usedFirst other low fun later => all other later high, block, byte, bit, place,
        fun position => ?_⟩
    rw [set, same.layout.blockPlace, same.bytes]

/-- The write of a bitmap with one more bit. -/
theorem bitSet_written {before middle after : Disk} {data : Ext4Data} {inodeNum block byte bit : Nat} {bytes : Memory}
    (formatted : Formatted data) (place : BitmapBit data inodeNum block byte bit) (same : SameContents before middle)
    (read : ∀ i < data.blockSize, bytes i = byteAt before (blockPlace before data block i))
    (writes : ext4WriteBlock middle data block (store bytes byte 1 ((bytes byte).toNat ||| bit)) = .ok (0, after)) :
    BitSet before after data inodeNum := by
  obtain ⟨_, _, frame, success⟩ := ext4WriteBlock_spec formatted writes
  have stored := success rfl
  simp only [same.layout.blockPlace, same.bytes] at frame stored
  refine ⟨block, byte, bit, place, fun position => ?_⟩
  split
  next here =>
    rw [here, stored byte place.inside, ← read byte place.inside]
    simp [store]
  next other =>
    by_cases inside : ∃ i < data.blockSize, position = blockPlace before data block i
    · obtain ⟨i, within, rfl⟩ := inside
      have apart : i ≠ byte := by
        rintro rfl
        exact other rfl
      rw [stored i within, store_confined bytes byte 1 _ i (by omega), read i within]
    · exact frame position fun i within same => inside ⟨i, within, same⟩

/-- The loop looks at one inode after the other, and stops at the first that is free. -/
theorem allocInodeFrom_searched {state : Ext4State δ} {address : Nat} {blocks : List Block} (left ino : Nat)
    (supplied : Supplied state address blocks) (grouped : (state.datas address).sb.inodesPerGroup ≠ 0)
    (numbered : 1 ≤ ino)
    (bits : ∀ inodeNum, ino ≤ inodeNum → inodeNum < ino + left →
      ∃ block byte bit, BitmapBit (state.datas address) inodeNum block byte bit ∧
        Serves state.disk (state.datas address) block) :
    ∃ inodeNum after, allocInodeFrom address left ino state = .ok (inodeNum, after) ∧
      Searched state.disk after.disk (state.datas address) ino (ino + left) inodeNum := by
  induction left generalizing state ino with
  | zero =>
    refine ⟨0, state, rfl, fun _ => ⟨fun other low high => by omega, .refl _⟩, fun given => absurd rfl given⟩
  | succ left ih =>
    obtain ⟨ptr, memory, memory', scratch, divided⟩ := supplied.scratch
    obtain ⟨block, byte, bit, place, serves⟩ := bits ino (Nat.le_refl _) (by omega)
    obtain ⟨read, reads, success⟩ := serves.reads
    obtain ⟨contents, _, filled⟩ := ext4ReadBlock_spec supplied.formatted reads
    have onward := ext4ReadBlock_onward reads
    have bytes := (filled success).2
    have inside := place.inside
    have used : InodeUsed state.disk (state.datas address) ino ↔ _ := inodeUsed_iff place
    rw [← bytes byte inside] at used
    obtain ⟨bitmap, position, mask, _⟩ := place
    rw [allocInodeFrom]
    dsimp only [bind, Except.bind]
    rw [if_neg grouped, bitmap]
    dsimp only
    rw [Ext4State.alloc, scratch.allocated]
    dsimp only [Except.map]
    rw [if_neg scratch.given, reads]
    dsimp only
    rw [if_neg (by rw [success]; decide), ← position, ← mask, if_neg (not_le.mpr inside)]
    by_cases clear : (read.bytes byte).toNat &&& bit = 0
    · obtain ⟨disk, writes⟩ := (serves.onward onward).writes (store read.bytes byte 1 ((read.bytes byte).toNat ||| bit))
      rw [if_pos clear, writes]
      dsimp only [Ext4State.free]
      rw [scratch.released]
      refine ⟨ino, _, rfl, fun zero => by omega,
        fun _ => ⟨Nat.le_refl _, by omega, ?_, fun other low high => by omega, ?_⟩⟩
      · exact fun set => used.mp set clear
      · exact bitSet_written supplied.formatted ⟨bitmap, position, mask, inside⟩ contents bytes writes
    · rw [if_neg clear]
      dsimp only [Ext4State.free]
      rw [scratch.released]
      dsimp only [Except.map]
      have next : Supplied { state with fs := { state.fs with memory := memory' }, disk := read.disk } address blocks :=
        supplied.after rfl divided
      obtain ⟨inodeNum, after, searches, searched⟩ := ih (ino + 1) next grouped (by omega) fun other low high => by
        obtain ⟨block, byte, bit, place, serves⟩ := bits other (by omega) (by omega)
        exact ⟨block, byte, bit, place, serves.onward onward⟩
      refine ⟨inodeNum, after, searches, ?_⟩
      have more : ino + 1 + left = ino + (left + 1) := by omega
      rw [more] at searched
      exact searched.pass contents (used.mpr clear)

/-- What `ext4_alloc_inode` is for: the first free inode behind the reserved ones. -/
structure InodeGiven (before after : Disk) (data : Ext4Data) (inodeNum : Nat) : Prop where
  least : inodeNum ≠ 0 → 12 ≤ inodeNum ∧ inodeNum ≤ data.sb.inodesCount ∧ ¬InodeUsed before data inodeNum ∧
    (∀ other, 12 ≤ other → other < inodeNum → InodeUsed before data other) ∧ BitSet before after data inodeNum
  full : inodeNum = 0 ↔ ∀ other, 12 ≤ other → other ≤ data.sb.inodesCount → InodeUsed before data other
  silent : inodeNum = 0 → SameContents before after

/-- The last inode is the only one that is free. -/
def LastFree (disk : Disk) (data : Ext4Data) : Prop :=
  12 ≤ data.sb.inodesCount ∧ ¬InodeUsed disk data data.sb.inodesCount ∧
    ∀ other, 12 ≤ other → other < data.sb.inodesCount → InodeUsed disk data other

/-- The search answers 0 when the last inode is the only one that is free. -/
theorem lastFree_missed {state : Ext4State δ} {address : Nat} {blocks : List Block}
    (supplied : Supplied state address blocks)
    (cover : BitmapsCover state.disk (state.datas address)) (last : LastFree state.disk (state.datas address)) :
    ¬∃ inodeNum after, ext4AllocInode state address = .ok (inodeNum, after) ∧
      InodeGiven state.disk after.disk (state.datas address) inodeNum := by
  rintro ⟨inodeNum, final, again, given⟩
  obtain ⟨several, free, rest⟩ := last
  obtain ⟨other, after, searches, searched⟩ := allocInodeFrom_searched ((state.datas address).sb.inodesCount - 12) 12
    supplied cover.grouped (by decide) fun other low high => cover.bits other (by omega) (by omega)
  cases again.symm.trans searches
  by_cases zero : inodeNum = 0
  · exact free (given.full.mp zero _ several (Nat.le_refl _))
  · obtain ⟨low, high, unused, _⟩ := searched.least zero
    exact unused (rest _ low (by omega))

/-- The search does what it is for, unless the last inode is the only free one: that one it
does not look at. -/
theorem inode_given_iff {state : Ext4State δ} {address : Nat} {blocks : List Block}
    (supplied : Supplied state address blocks)
    (cover : BitmapsCover state.disk (state.datas address)) :
    (∃ inodeNum after, ext4AllocInode state address = .ok (inodeNum, after) ∧
      InodeGiven state.disk after.disk (state.datas address) inodeNum) ↔
      ¬LastFree state.disk (state.datas address) := by
  refine ⟨fun given last => lastFree_missed supplied cover last given, fun several => ?_⟩
  obtain ⟨inodeNum, after, searches, searched⟩ := allocInodeFrom_searched ((state.datas address).sb.inodesCount - 12) 12
    supplied cover.grouped (by decide) fun other low high => cover.bits other (by omega) (by omega)
  refine ⟨inodeNum, after, searches, fun given => ?_, ⟨fun zero number low high => ?_, fun all => ?_⟩, fun zero => ?_⟩
  · obtain ⟨low, high, rest⟩ := searched.least given
    exact ⟨low, by omega, rest⟩
  · obtain ⟨all, _⟩ := searched.none zero
    rcases Nat.eq_or_lt_of_le high with rfl | early
    · by_contra free
      exact several ⟨low, free, fun number low high => all number low (by omega)⟩
    · exact all number low (by omega)
  · by_contra given
    obtain ⟨low, high, unused, _⟩ := searched.least given
    exact unused (all _ low (by omega))
  · exact (searched.none zero).2

/-- The image with inodes 12 to 15 in use, of 16. -/
def fullImage (place : Nat) : UInt8 := if place = 3 * 1024 + 1 then 0x78 else 0

/-- The bits of an image, all in block 3. -/
private theorem image_bit {inodeNum : Nat} (low : 1 ≤ inodeNum) (high : inodeNum ≤ 16) :
    BitmapBit imageData inodeNum 3 ((inodeNum - 1) / 8) (1 <<< ((inodeNum - 1) % 8)) := by
  have group : imageData.sb.inodesPerGroup = 16 := by decide +kernel
  have bitmap : imageData.inodeBitmapLo 0 = .ok 3 := by decide +kernel
  have size : imageData.blockSize = 1024 := rfl
  have index : (inodeNum - 1) % 16 = inodeNum - 1 := Nat.mod_eq_of_lt (by omega)
  constructor
  · rw [group, Nat.div_eq_of_lt (by omega), bitmap]
  · rw [group, index]
  · rw [group, index]
  · rw [size]
    omega

private theorem image_cover (memory : Memory) (bytes : Nat → UInt8) :
    BitmapsCover (imageState memory .fresh bytes).disk imageData := by
  refine ⟨by decide +kernel, fun inodeNum low high => ?_⟩
  have count : imageData.sb.inodesCount = 16 := by decide +kernel
  exact ⟨_, _, _, image_bit low (by omega), imageState_serves memory .fresh bytes (by decide)⟩

private theorem image_supplied {memory : Memory} {bytes : Nat → UInt8}
    (divided : Divided (imageState memory .fresh bytes).fs [⟨heapTotal, false⟩]) :
    Supplied (imageState memory .fresh bytes) 0 [⟨heapTotal, false⟩] :=
  ⟨imageData_formatted, show 0 < 1024 by decide, divided, _, List.mem_singleton.mpr rfl, rfl,
    show roundUp 1024 ≤ heapTotal by decide⟩

theorem inode_given_iff_image : ∃ memory,
    ((∃ inodeNum after, ext4AllocInode (imageState memory .fresh fun _ => 0) 0 = .ok (inodeNum, after) ∧
      InodeGiven (imageState memory .fresh fun _ => 0).disk after.disk imageData inodeNum) ↔
      ¬LastFree (imageState memory .fresh fun _ => 0).disk imageData) := by
  obtain ⟨memory, divided⟩ := imageState_divided .fresh fun _ => 0
  exact ⟨memory, inode_given_iff (image_supplied divided) (image_cover memory _)⟩

private theorem fullImage_last (memory : Memory) : LastFree (imageState memory .fresh fullImage).disk imageData := by
  have count : imageData.sb.inodesCount = 16 := by decide +kernel
  have byte : byteAt (imageState memory .fresh fullImage).disk
      (blockPlace (imageState memory .fresh fullImage).disk imageData 3 1) = 0x78 := by
    change fullImage (u64 (3 * 1024) + 1) = 0x78
    decide
  refine ⟨by omega, ?_, fun other low high => ?_⟩
  · rw [count, inodeUsed_iff (image_bit (by decide) (by decide)), byte]
    decide
  · rw [inodeUsed_iff (image_bit (by omega) (by omega))]
    rw [count] at high
    rw [show (other - 1) / 8 = 1 by omega, byte]
    obtain rfl | rfl | rfl | rfl : other = 12 ∨ other = 13 ∨ other = 14 ∨ other = 15 := by omega
    all_goals decide

/-- Inode 16 of 16 is free, and is not found. -/
theorem last_inode_missed : ∃ memory, Supplied (imageState memory .fresh fullImage) 0 [⟨heapTotal, false⟩] ∧
    BitmapsCover (imageState memory .fresh fullImage).disk imageData ∧
    LastFree (imageState memory .fresh fullImage).disk imageData ∧
    ¬∃ inodeNum after, ext4AllocInode (imageState memory .fresh fullImage) 0 = .ok (inodeNum, after) ∧
      InodeGiven (imageState memory .fresh fullImage).disk after.disk imageData inodeNum := by
  obtain ⟨memory, divided⟩ := imageState_divided .fresh fullImage
  have supplied := image_supplied divided
  have cover := image_cover memory fullImage
  exact ⟨memory, supplied, cover, fullImage_last memory, lastFree_missed supplied cover (fullImage_last memory)⟩

end Kernix.Proofs
