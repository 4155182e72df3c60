import Kernix.Fs.Ext4
import Kernix.Proofs.MountTable
import Kernix.Proofs.ServedCalls

/-! Mounts of ext4. The superblock is copied as if it were a string, and every group gets
a whole block of the table, put where its descriptor should lie. -/

namespace Kernix.Proofs
open ByteMemory

variable {δ : Type}

/-- The superblock as it lies on a volume. -/
def superblockOn (disk : Disk) (data : Ext4Data) : Ext4Superblock := blockBytes disk { data with blockSize := 1024 } 1

/-- A byte of the table of descriptors as it lies on a volume. -/
def descriptorOn (disk : Disk) (data : Ext4Data) (position : Nat) : UInt8 :=
  byteAt disk (blockPlace disk data (u64 (data.gdBlock + position / data.blockSize)) (position % data.blockSize))

/-- A mount comes to the array of descriptors. -/
def Described (before : Ext4State δ) (src dataPtr : Nat) (data : Ext4Data) (held : Ext4State δ) : Prop :=
  ext4MountHeader before src = .ok (.described dataPtr data held)

/-- What the passes of the loop read, one after the other. -/
inductive DescriptorRead (data : Ext4Data) (disk : Disk) : Nat → BlockRead → Prop where
  | first {read : BlockRead} (reads : ext4ReadBlock disk data
    (u64 (data.gdBlock + 0)) = .ok read) : DescriptorRead data disk 0 read
  | next {i : Nat} {earlier read : BlockRead} (behind : DescriptorRead data disk i earlier)
      (reads : ext4ReadBlock earlier.disk data (u64 (data.gdBlock + (i + 1))) = .ok read) : DescriptorRead data disk
        (i + 1) read

/-- A mount decodes the volume: it has seen the magic number, it keeps the superblock and
the table as they lie on the volume, and it writes into the array only. -/
structure Decodes (before : Ext4State δ) (src : Nat) (tgt : List UInt8) : Prop where
  magic : ∀ dataPtr data held, Described before src dataPtr data held → (superblockOn before.disk data).magic = ext4Magic
  superblock : ∀ dataPtr data held, Described before src dataPtr data held → data.sb = superblockOn before.disk data
  inside : ∀ dataPtr data held, Described before src dataPtr data held → ∀ i < data.gdCount, ∀ read,
    DescriptorRead data held.disk i read → ext4GroupDescSize * i + read.filled ≤ ext4GroupDescSize * data.gdCount
  descriptors : ∀ root priv after, ext4Mount before src tgt = .ok (0, root, priv, after) →
    ∀ position < ext4GroupDescSize * (after.datas priv).gdCount,
      (after.datas priv).gdBytes position = descriptorOn before.disk (after.datas priv) position

/-- What a mount has read when it comes to the descriptors. -/
structure HeaderRead (before : Ext4State δ) (data : Ext4Data) (held : Ext4State δ) : Prop where
  read : ∃ bytes, readSuperblock before.disk data = .ok (0, bytes, held.disk) ∧
    strCopyAt (fun _ => 0 : Ext4Superblock) bytes 0 = .ok data.sb
  magic : data.sb.magic = ext4Magic
  formatted : Formatted data
  counted : data.gdCount ≠ 0

/-- A request for no bytes gets `NULL`. -/
private theorem alloc_nothing {before after : Ext4State δ} {ptr : Nat} (result : before.alloc 0 = .ok (ptr, after)) :
    ptr = 0 := by
  obtain ⟨memory, allocated, _⟩ := alloc_ok result
  unfold FsState.alloc kernelMemoryAlloc at allocated
  rw [if_pos (Or.inr rfl)] at allocated
  cases allocated
  rfl

private theorem shifted_formatted (k : Nat) : sectorSize ∣ 1024 * 2 ^ k % 2 ^ 32 :=
  (Nat.dvd_mod_iff (by decide)).mpr (Dvd.dvd.mul_right (by decide) _)

theorem Described.header {before held : Ext4State δ} {src dataPtr : Nat} {data : Ext4Data}
    (described : Described before src dataPtr data held) : HeaderRead before data held := by
  unfold Described ext4MountHeader at described
  obtain ⟨⟨ptr, first⟩, allocated, result⟩ := bind_ok described
  dsimp only at result
  split at result
  next => cases result
  obtain ⟨⟨device, index⟩, _, result⟩ := bind_ok result
  obtain ⟨⟨sbBuf, second⟩, allocated', result⟩ := bind_ok result
  dsimp only at result
  split at result
  next =>
    obtain ⟨_, _, result⟩ := bind_ok result
    cases result
  obtain ⟨⟨ret, bytes, disk⟩, reads, result⟩ := bind_ok result
  dsimp only at result
  split at result
  next =>
    obtain ⟨_, _, result⟩ := bind_ok result
    obtain ⟨_, _, result⟩ := bind_ok result
    cases result
  next fine =>
    obtain ⟨sb, copies, result⟩ := bind_ok result
    obtain ⟨freed, frees, result⟩ := bind_ok result
    split at result
    next =>
      obtain ⟨_, _, result⟩ := bind_ok result
      cases result
    next magic =>
      split at result
      next => cases result
      obtain ⟨⟨gd, third⟩, allocated'', result⟩ := bind_ok result
      dsimp only at result
      split at result
      next =>
        obtain ⟨_, _, result⟩ := bind_ok result
        cases result
      next given =>
        cases result
        have same : second.disk = before.disk := (alloc_touched allocated').2.trans (alloc_touched allocated).2
        have kept : held.disk = disk := (alloc_touched allocated'').2.trans (free_touched frees).2
        rw [same] at reads
        rw [not_not.mp fine] at reads
        refine ⟨⟨bytes, kept ▸ reads, copies⟩, not_not.mp magic,
          ⟨shifted_formatted _, Nat.mod_lt _ (Nat.two_pow_pos 32)⟩, fun none => ?_⟩
        dsimp only at none
        rw [none, Nat.zero_mul] at allocated''
        exact given (alloc_nothing allocated'')

/-- A copy into an array of zeros, where it is not zero. -/
private theorem Copied.given {size length : Nat} {after : Fin size → UInt8} {buf : Fin length → UInt8}
    {found : List UInt8}
    (copied : Copied (fun _ => 0) after 0 found) (lies : TextIs buf 0 found) {index : Nat} (inside : index < size)
    (within : index < length)
    (given : after ⟨index, inside⟩ ≠ 0) : after ⟨index, inside⟩ = buf ⟨index, within⟩ := by
  by_cases early : index < found.length
  · have left := copied.bytes index early
    have right := lies.bytes index early
    simp only [Nat.zero_add] at left right
    rw [left, right]
  · by_cases ends : index = found.length
    · subst ends
      have zero := copied.terminated
      simp only [Nat.zero_add] at zero
      exact (given zero).elim
    · exact (given (copied.back ⟨index, inside⟩ (by dsimp only; omega))).elim

/-- What `sb_buf` holds of the first sector is what lies on the volume. -/
private theorem readSuperblock_bytes {disk after : Disk} {data : Ext4Data} {bytes : Fin 1024 → UInt8}
    (result : readSuperblock disk data = .ok (0, bytes, after)) {index : Nat} (small : index < 512) :
    bytes ⟨index, by omega⟩ = superblockOn disk data ⟨index, show index < 1024 by omega⟩ := by
  have inside : index < sectorSize := small
  unfold superblockOn blockBytes blockPlace
  unfold readSuperblock at result
  dsimp only at result ⊢
  split at result
  next partition =>
    obtain ⟨_, lies⟩ := partitionsReadSector_spec disk data.partitionIndex 2
    generalize partitionsReadSector disk data.partitionIndex 2 = read at result lies
    obtain ⟨ret, sector, disk'⟩ := read
    cases result
    rw [if_pos partition, cut, flat, dif_pos inside, lies rfl]
    simp only [Nat.div_eq_of_lt inside, Nat.mod_eq_of_lt inside]
    rfl
  next memory =>
    split at result
    next => cases result
    next =>
      cases result
      rw [if_neg memory]
      rfl

/-- A mount that comes to the descriptors has seen the magic number on the volume. -/
theorem HeaderRead.seen {before held : Ext4State δ} {data : Ext4Data} (header : HeaderRead before data held) :
    (superblockOn before.disk data).magic = ext4Magic := by
  obtain ⟨bytes, reads, copies⟩ := header.read
  obtain ⟨found, lies, copied⟩ := strCopyAt_ok copies
  have magic := header.magic
  have kept {index : Nat} (inside : index < 512) (given : data.sb ⟨index, show index < 1024 by omega⟩ ≠ 0) :
      superblockOn before.disk data ⟨index, show index < 1024 by omega⟩ = data.sb ⟨index, show index < 1024 by omega⟩ :=
    ((copied.given lies (show index < 1024 by omega) (show index <
      1024 by omega) given).trans (readSuperblock_bytes reads inside)).symm
  have value (sb : Ext4Superblock) : sb.magic = (sb ⟨56, by decide⟩).toNat + 256 * (sb ⟨57, by decide⟩).toNat := rfl
  have low := (data.sb ⟨56, by decide⟩).toNat_lt
  have high := (data.sb ⟨57, by decide⟩).toNat_lt
  rw [value, ext4Magic] at magic
  rw [value, kept (by decide) fun zero => by rw [zero] at magic; simp at magic; omega,
    kept (by decide) fun zero => by rw [zero] at magic; simp at magic; omega, magic]
  rfl

/-- The loop over the descriptors comes to every group whose blocks can be read. -/
private theorem descriptorRead_served {disk : Disk} {data : Ext4Data} {i : Nat} (formatted : Formatted data)
    (serves : ∀ group ≤ i, Serves disk data (u64 (data.gdBlock + group))) :
    ∃ read, DescriptorRead data disk i read ∧ read.filled = data.blockSize ∧ Onward disk read.disk := by
  induction i with
  | zero =>
    obtain ⟨read, reads, success⟩ := (serves 0 (Nat.le_refl 0)).reads
    exact ⟨read, .first reads, ((ext4ReadBlock_spec formatted reads).2.2 success).1, ext4ReadBlock_onward reads⟩
  | succ i ih =>
    obtain ⟨earlier, behind, _, onward⟩ := ih fun group low => serves group (Nat.le_succ_of_le low)
    obtain ⟨read, reads, success⟩ := ((serves (i + 1) (Nat.le_refl _)).onward onward).reads
    exact ⟨read, .next behind reads, ((ext4ReadBlock_spec formatted reads).2.2 success).1,
      onward.trans (ext4ReadBlock_onward reads)⟩

/-- A mount ends before it comes to the descriptors. -/
def Stops (before : Ext4State δ) (src : Nat) : Prop := ∀ dataPtr data held, ¬Described before src dataPtr data held

/-- The table of descriptors lies on the volume, and all of it can be read. -/
def TableServed (before : Ext4State δ) (src : Nat) : Prop := ∀ dataPtr data held, Described before src dataPtr data held →
  data.blockSize ≠ 0 ∧ ∀ group < data.gdCount, Serves held.disk data (u64 (data.gdBlock + group))

/-- Where the table can be read, the block for the last descriptor is longer than the descriptor. -/
private theorem Described.overflows {before held : Ext4State δ} {src dataPtr : Nat} {data : Ext4Data}
    (described : Described before src dataPtr data held) (served : TableServed before src) :
    ∃ i < data.gdCount, ∃ read, DescriptorRead data held.disk i read ∧
      ext4GroupDescSize * data.gdCount < ext4GroupDescSize * i + read.filled := by
  have header := described.header
  obtain ⟨sized, serves⟩ := served dataPtr data held described
  have counted := Nat.pos_of_ne_zero header.counted
  obtain ⟨read, reads, filled, _⟩ := @descriptorRead_served held.disk data (data.gdCount - 1) header.formatted
    fun group low => serves group (by omega)
  have large : 512 ≤ data.blockSize := Nat.le_of_dvd (Nat.pos_of_ne_zero sized) header.formatted.sectors
  refine ⟨data.gdCount - 1, by omega, read, reads, ?_⟩
  show 60 * data.gdCount < 60 * (data.gdCount - 1) + read.filled
  omega

/-- An image whose superblock has no zero in front of its magic number: blocks of 2048 bytes,
one group, and the table in block 0. -/
def denseImage (place : Nat) : UInt8 :=
  if place < 1024 ∨ 1082 ≤ place then 0
  else if place = 1080 then 0x53
  else if place = 1081 then 0xEF
  else if 1044 ≤ place ∧ place < 1048 then 0xFF
  else 1

/-- The only group gets more bytes than its descriptor has. -/
private def overflowsFirst : Except Stop (MountHeader Unit) → Bool
  | .ok (.described _ data held) =>
    match ext4ReadBlock held.disk data (u64 (data.gdBlock + 0)) with
    | .ok read => data.gdCount = 1 && ext4GroupDescSize < read.filled
    | .error _ => false
  | _ => false

private def failsHeader : Except Stop (MountHeader Unit) → Bool
  | .ok (.failed _) => true
  | _ => false

end Kernix.Proofs
