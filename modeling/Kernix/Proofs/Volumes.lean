import Kernix.Fs.Ext4

/-! Volumes as arrays of bytes. Reading a block returns the bytes that lie there, and
writing it changes these bytes only, on an image in memory and on a partition alike. -/

namespace Kernix.Proofs
open ByteMemory

/-- Where a byte of a volume lies. -/
inductive DiskPlace where
  | image (address offset : Nat)
  | sector (place : SectorAt) (offset : Fin sectorSize)
  deriving DecidableEq

def byteAt (disk : Disk) : DiskPlace → UInt8
  | .image address offset => (disk.image address).bytes offset
  | .sector place offset => disk.drives.sectors place offset

/-- Where the bytes of a sector of a partition lie; a partition that is not there has none. -/
def sectorPlace (disk : Disk) (index : Int) (lba : Nat) : SectorAt :=
  match partitionsGet disk index with
  | none => ⟨0, 0, 0⟩
  | some p => ⟨p.ataBase, p.ataDrive, ataAddress (u64 (p.startLba + lba))⟩

/-- Where a byte of a block lies. -/
def blockPlace (disk : Disk) (data : Ext4Data) (block i : Nat) : DiskPlace :=
  if 0 ≤ data.partitionIndex then
    .sector (sectorPlace disk data.partitionIndex
      (u64 (u64 (block * (data.blockSize / sectorSize)) + i / sectorSize))) ⟨i % sectorSize, mod_sectorSize_lt i⟩
  else .image data.device (u64 (block * data.blockSize) + i)

/-- The same disk, whatever has been read and whatever accesses will come to. -/
structure SameLayout (before after : Disk) : Prop where
  partitions : after.partitions = before.partitions
  sizes : ∀ address, (after.image address).size = (before.image address).size

/-- The same disk with the same bytes. -/
structure SameContents (before after : Disk) : Prop where
  layout : SameLayout before after
  bytes : ∀ place, byteAt after place = byteAt before place

/-- A block size that `ext4_mount` can come to. -/
structure Formatted (data : Ext4Data) : Prop where
  sectors : sectorSize ∣ data.blockSize
  small : data.blockSize < 2 ^ 32

namespace SameLayout
variable {first second third : Disk}

theorem refl (disk : Disk) : SameLayout disk disk := ⟨rfl, fun _ => rfl⟩

theorem trans (left : SameLayout first second) (right : SameLayout second third) : SameLayout first third :=
  ⟨right.partitions.trans left.partitions, fun address => (right.sizes address).trans (left.sizes address)⟩

theorem symm (same : SameLayout first second) : SameLayout second first :=
  ⟨same.partitions.symm, fun address => (same.sizes address).symm⟩

theorem partitionsGet (same : SameLayout first second) (index : Int) :
    partitionsGet second index = partitionsGet first index := by
  unfold Kernix.partitionsGet
  rw [same.partitions]

theorem sectorPlace (same : SameLayout first second) (index : Int) (lba : Nat) :
    sectorPlace second index lba = sectorPlace first index lba := by
  unfold Proofs.sectorPlace
  rw [same.partitionsGet]

theorem blockPlace (same : SameLayout first second) (data : Ext4Data) (block i : Nat) :
    blockPlace second data block i = blockPlace first data block i := by
  unfold Proofs.blockPlace
  rw [same.sectorPlace]

end SameLayout

namespace SameContents
variable {first second third : Disk}

theorem refl (disk : Disk) : SameContents disk disk := ⟨.refl disk, fun _ => rfl⟩

theorem trans (left : SameContents first second) (right : SameContents second third) : SameContents first third :=
  ⟨left.layout.trans right.layout, fun place => (right.bytes place).trans (left.bytes place)⟩

theorem symm (same : SameContents first second) : SameContents second first :=
  ⟨same.layout.symm, fun place => (same.bytes place).symm⟩

/-- An access leaves the drives counting. -/
theorem counted (disk : Disk) (accesses : Nat) :
    SameContents disk { disk with drives := { disk.drives with accesses } } :=
  ⟨⟨rfl, fun _ => rfl⟩, fun place => by cases place <;> rfl⟩

end SameContents

/-- What a read of a sector comes to. -/
theorem partitionsReadSector_spec (disk : Disk) (index : Int) (lba : Nat) :
    SameContents disk (partitionsReadSector disk index lba).2.2 ∧
      ((partitionsReadSector disk index lba).1 = 0 →
        ∀ offset, (partitionsReadSector disk index lba).2.1 offset = byteAt disk
          (.sector (sectorPlace disk index lba) offset)) := by
  unfold partitionsReadSector
  split
  next => exact ⟨.refl disk, by simp⟩
  next p found =>
    split
    next => exact ⟨.refl disk, by simp⟩
    next =>
      unfold ataReadSector
      dsimp only
      split
      next =>
        refine ⟨.counted disk _, fun _ offset => ?_⟩
        rw [sectorPlace, found]
        rfl
      next => exact ⟨.counted disk _, by simp⟩

/-- Reading sectors on fills the buffer from the front. -/
private theorem readSectors_spec {index : Int} {first left i : Nat} {bytes : Memory} {disk : Disk} :
    SameContents disk (readSectors index first left i bytes disk).disk ∧
      ((readSectors index first left i bytes disk).ret = 0 ∨ (readSectors index first left i bytes disk).ret = -1) ∧
      ((readSectors index first left i bytes disk).ret = 0 →
        (readSectors index first left i bytes disk).filled = (i + left) * sectorSize ∧
        ∀ position < (i + left) * sectorSize, (readSectors index first left i bytes disk).bytes position =
          if position < i * sectorSize then bytes position
          else byteAt disk (.sector (sectorPlace disk index (u64 (first + position / sectorSize)))
            ⟨position % sectorSize, mod_sectorSize_lt position⟩)) := by
  induction left generalizing i bytes disk with
  | zero =>
    refine ⟨.refl disk, Or.inl rfl, fun _ => ⟨rfl, fun position inside => ?_⟩⟩
    rw [if_pos (by simpa using inside)]
    rfl
  | succ left ih =>
    obtain ⟨same, reads⟩ := partitionsReadSector_spec disk index (u64 (first + i))
    unfold readSectors
    generalize partitionsReadSector disk index (u64 (first + i)) = read at same reads
    obtain ⟨ret, sector, after⟩ := read
    dsimp only at same reads ⊢
    split
    next => exact ⟨same, Or.inr rfl, by simp⟩
    next done =>
      obtain ⟨same', either, filled⟩ := @ih (i + 1) (copy bytes (i * sectorSize) sectorSize (flat sector)) after
      refine ⟨same.trans same', either, fun success => ?_⟩
      obtain ⟨length, content⟩ := filled success
      have more : i + 1 + left = i + (left + 1) := by omega
      rw [more] at length content
      refine ⟨length, fun position inside => ?_⟩
      rw [content position inside]
      split
      next early =>
        unfold copy
        by_cases here : position < i * sectorSize
        · rw [if_neg (by omega), if_pos here]
        · have offset : position - i * sectorSize < sectorSize := by
            rw [Nat.add_one_mul] at early
            omega
          obtain ⟨quotient, remainder⟩ : position / sectorSize = i ∧
            position % sectorSize = position - i * sectorSize := by
            apply (Nat.div_mod_unique (by decide)).mpr
            exact ⟨by rw [Nat.mul_comm sectorSize i, Nat.sub_add_cancel (not_lt.mp here)], offset⟩
          rw [if_pos (by omega), if_neg here, quotient, flat, dif_pos offset, reads (not_not.mp done)]
          simp only [remainder]
      next late =>
        have later : ¬position < i * sectorSize :=
          fun here => late (here.trans_le (Nat.mul_le_mul_right _ (Nat.le_succ i)))
        rw [if_neg later, same.bytes, same.layout.sectorPlace]

/-- A call that does not fail returns 0. -/
theorem returned_zero {ret : Int} (either : ret = 0 ∨ ret = -1) (fine : ¬ret < 0) : ret = 0 := by
  rcases either with zero | failed
  · exact zero
  · exact absurd (by rw [failed]; decide) fine

/-- A block that is read is the bytes that lie there. -/
theorem ext4ReadBlock_spec {disk : Disk} {data : Ext4Data} {block : Nat} {read : BlockRead}
    (formatted : Formatted data) (result : ext4ReadBlock disk data block = .ok read) :
    SameContents disk read.disk ∧ (read.ret = 0 ∨ read.ret = -1) ∧
      (read.ret = 0 → read.filled = data.blockSize ∧
        ∀ i < data.blockSize, read.bytes i = byteAt disk (blockPlace disk data block i)) := by
  have whole : data.blockSize / sectorSize * sectorSize = data.blockSize := Nat.div_mul_cancel formatted.sectors
  unfold ext4ReadBlock at result
  dsimp only at result
  split at result
  next partition =>
    cases result
    obtain ⟨same, either, filled⟩ := @readSectors_spec data.partitionIndex (u64 (block * (data.blockSize / sectorSize)))
      (data.blockSize / sectorSize) 0 (fun _ => 0) disk
    refine ⟨same, either, fun success => ?_⟩
    obtain ⟨length, content⟩ := filled success
    rw [Nat.zero_add, whole] at length content
    refine ⟨length, fun i inside => ?_⟩
    rw [content i inside, if_neg (by omega), blockPlace, if_pos partition]
  next memory =>
    split at result
    next => cases result
    next fits =>
      cases result
      refine ⟨.refl disk, Or.inl rfl, fun _ => ⟨rfl, fun i inside => ?_⟩⟩
      rw [blockPlace, if_neg memory]
      rfl

/-- What a write of a sector comes to. -/
theorem partitionsWriteSector_spec (disk : Disk) (index : Int) (lba : Nat) (bytes : Fin sectorSize → UInt8) :
    SameLayout disk (partitionsWriteSector disk index lba bytes).2 ∧
      ((partitionsWriteSector disk index lba bytes).1 = 0 ∨ (partitionsWriteSector disk index lba bytes).1 = -1) ∧
      (∀ place, (∀ offset, place ≠ .sector (sectorPlace disk index lba) offset) →
        byteAt (partitionsWriteSector disk index lba bytes).2 place = byteAt disk place) ∧
      ((partitionsWriteSector disk index lba bytes).1 = 0 → (partitionsGet disk index).isSome ∧
        ∀ offset, byteAt (partitionsWriteSector disk index lba bytes).2 (.sector (sectorPlace disk index lba) offset) =
          bytes offset) := by
  unfold partitionsWriteSector
  split
  next => exact ⟨.refl disk, by simp, fun _ _ => rfl, by simp⟩
  next p found =>
    have here : sectorPlace disk index lba = ⟨p.ataBase, p.ataDrive, ataAddress (u64 (p.startLba + lba))⟩ := by
      rw [sectorPlace, found]
    have elsewhere (place : DiskPlace) (apart : ∀ offset, place ≠ .sector (sectorPlace disk index lba) offset)
        (accesses : Nat) :
        byteAt { disk with drives := { disk.drives with
          accesses, sectors := Function.update disk.drives.sectors (sectorPlace disk index lba) bytes } } place =
            byteAt disk place := by
      cases place with
      | image => rfl
      | sector place offset =>
        have other : place ≠ sectorPlace disk index lba := fun same => apart offset (by rw [same])
        simp only [byteAt, Function.update_of_ne other]
    rw [here] at elsewhere ⊢
    split
    next => exact ⟨.refl disk, by simp, fun _ _ => rfl, by simp⟩
    next =>
      unfold ataWriteSector
      dsimp only
      split
      next =>
        refine ⟨⟨rfl, fun _ => rfl⟩, Or.inl rfl, fun place apart => elsewhere place apart _,
          fun _ => ⟨by simp [found], ?_⟩⟩
        intro offset
        simp only [byteAt, Function.update_self]
      next => exact ⟨⟨rfl, fun _ => rfl⟩, Or.inr rfl, fun place _ => by cases place <;> rfl, by simp⟩
      next => exact ⟨⟨rfl, fun _ => rfl⟩, Or.inr rfl, fun place apart => elsewhere place apart _, by simp⟩

/-- Sectors that lie near each other in a partition are different sectors of the drive. -/
theorem sectorPlace_apart {disk : Disk} {index : Int} {first i j : Nat} (found : (partitionsGet disk index).isSome)
    (before : i < j) (near : j - i < 2 ^ 48) :
    sectorPlace disk index (u64 (first + i)) ≠ sectorPlace disk index (u64 (first + j)) := by
  obtain ⟨p, given⟩ := Option.isSome_iff_exists.mp found
  intro same
  simp only [sectorPlace, given, SectorAt.mk.injEq, ataAddress, u64, true_and] at same
  omega

/-- Where the bytes of a run of sectors lie. -/
private def runPlace (disk : Disk) (index : Int) (first position : Nat) : DiskPlace :=
  .sector (sectorPlace disk index (u64 (first + position / sectorSize))) ⟨position % sectorSize,
    mod_sectorSize_lt position⟩

/-- Writing sectors on changes no other byte, and a success has written them all. -/
private theorem writeSectors_spec {index : Int} {first left i : Nat} {buf : Memory} {disk : Disk}
    (near : i + left < 2 ^ 48) :
    SameLayout disk (writeSectors index first buf left i disk).2 ∧
      ((writeSectors index first buf left i disk).1 = 0 ∨ (writeSectors index first buf left i disk).1 = -1) ∧
      (∀ place, (∀ position, i * sectorSize ≤ position → position < (i + left) * sectorSize →
        place ≠ runPlace disk index first position) →
          byteAt (writeSectors index first buf left i disk).2 place = byteAt disk place) ∧
      ((writeSectors index first buf left i disk).1 = 0 →
        ∀ position, i * sectorSize ≤ position → position < (i + left) * sectorSize →
          byteAt (writeSectors index first buf left i disk).2 (runPlace disk index first position) = buf position) := by
  induction left generalizing i disk with
  | zero => exact ⟨.refl disk, Or.inl rfl, fun _ _ => rfl, fun _ position low high => absurd high (by simpa using low)⟩
  | succ left ih =>
    obtain ⟨layout, either, frame, stored⟩ := partitionsWriteSector_spec disk index (u64 (first + i))
      fun offset => buf (i * sectorSize + offset)
    have more : i + 1 + left = i + (left + 1) := by omega
    have inSector (offset : Fin sectorSize) :
        DiskPlace.sector (sectorPlace disk index (u64 (first + i))) offset =
          runPlace disk index first (i * sectorSize + offset) := by
      unfold runPlace
      rw [Nat.mul_comm, Nat.mul_add_div (by decide), Nat.div_eq_of_lt offset.isLt, Nat.add_zero]
      congr 1
      apply Fin.ext
      dsimp only
      rw [Nat.mul_add_mod, Nat.mod_eq_of_lt offset.isLt]
    unfold writeSectors
    generalize partitionsWriteSector disk index (u64 (first + i))
      (fun offset => buf (i * sectorSize + offset)) = written at layout either frame stored
    obtain ⟨ret, after⟩ := written
    dsimp only at layout either frame stored ⊢
    have outside (place : DiskPlace)
        (apart : ∀ position, i * sectorSize ≤ position → position < (i + (left + 1)) * sectorSize →
          place ≠ runPlace disk index first position) : byteAt after place = byteAt disk place := by
      apply frame
      intro offset
      rw [inSector]
      apply apart
      · omega
      · have := Nat.mul_le_mul_right sectorSize (show i + 1 ≤ i + (left + 1) by omega)
        have := offset.isLt
        rw [Nat.add_one_mul] at *
        omega
    have places (position : Nat) : runPlace after index first position = runPlace disk index first position := by
      unfold runPlace
      rw [layout.sectorPlace]
    split
    next failed => exact ⟨layout, Or.inr rfl, outside, by simp⟩
    next done =>
      obtain ⟨layout', either', frame', stored'⟩ := @ih (i + 1) after (by omega)
      simp only [places, more] at frame' stored'
      have rest (position : Nat) : (i + 1) * sectorSize ≤ position → i * sectorSize ≤ position :=
        fun late => (Nat.mul_le_mul_right _ (Nat.le_succ i)).trans late
      refine ⟨layout.trans layout', either', fun place apart => ?_, fun success position low high => ?_⟩
      · rw [frame' place fun position low => apart position (rest position low)]
        exact outside place apart
      · by_cases late : (i + 1) * sectorSize ≤ position
        · exact stored' success position late high
        · obtain ⟨found, content⟩ := stored (not_not.mp done)
          have inside : position - i * sectorSize < sectorSize := by
            rw [Nat.add_one_mul] at late
            omega
          have split : position = i * sectorSize + (⟨position - i * sectorSize, inside⟩ : Fin sectorSize) := by
            dsimp only
            omega
          rw [frame', split, ← inSector, content]
          intro other low' high' same
          rw [split, ← inSector] at same
          have sectors := (DiskPlace.sector.inj same).1
          have later : i < other / sectorSize := (Nat.le_div_iff_mul_le (by decide)).mpr low'
          have bounded : other / sectorSize < i + (left + 1) := Nat.div_lt_of_lt_mul (by rwa [Nat.mul_comm])
          exact sectorPlace_apart found later (by omega) sectors

/-- What a write into an image leaves there, and in the others. -/
private theorem image_written {disk : Disk} {address offset count : Nat} {buf : Memory}
    (fits : offset + count ≤ (disk.image address).size) (other : Nat) :
    Disk.image { disk with
      images := Function.update disk.images address
        { disk.image address with bytes := copy (disk.image address).bytes offset count buf } } other =
        if other = address then { disk.image address with bytes := copy (disk.image address).bytes offset count buf }
        else disk.image other := by
  by_cases none : other = 0
  · subst none
    by_cases same : 0 = address
    · have empty : disk.image address = ⟨0, fun _ => 0⟩ := by rw [Disk.image, if_pos same.symm]
      have nothing : count = 0 := by
        rw [empty] at fits
        dsimp only at fits
        omega
      rw [if_pos same, nothing]
      simp only [copy_nothing]
      rw [empty]
      rfl
    · rw [if_neg same]
      rfl
  · conv_lhs => rw [Disk.image, if_neg none]
    dsimp only
    by_cases same : other = address
    · rw [if_pos same, same, Function.update_self]
    · rw [if_neg same, Function.update_of_ne same, Disk.image, if_neg none]

/-- A block that is written is the bytes of the buffer then, and every other byte of
the disk is as before, also when the write fails on the way. -/
theorem ext4WriteBlock_spec {disk after : Disk} {data : Ext4Data} {block : Nat} {buf : Memory} {ret : Int}
    (formatted : Formatted data) (result : ext4WriteBlock disk data block buf = .ok (ret, after)) :
    SameLayout disk after ∧ (ret = 0 ∨ ret = -1) ∧
      (∀ place, (∀ i < data.blockSize, place ≠ blockPlace disk data block i) → byteAt after place = byteAt disk place) ∧
      (ret = 0 → ∀ i < data.blockSize, byteAt after (blockPlace disk data block i) = buf i) := by
  have whole : data.blockSize / sectorSize * sectorSize = data.blockSize := Nat.div_mul_cancel formatted.sectors
  have small := formatted.small
  unfold ext4WriteBlock at result
  dsimp only at result
  split at result
  next partition =>
    obtain ⟨layout, either, frame, stored⟩ := @writeSectors_spec data.partitionIndex
      (u64 (block * (data.blockSize / sectorSize))) (data.blockSize / sectorSize) 0 buf disk (by unfold sectorSize; omega)
    rw [Nat.zero_add, whole] at frame stored
    rw [Except.ok.inj result] at layout either frame stored
    simp only [blockPlace, if_pos partition]
    refine ⟨layout, either, fun place apart => ?_, fun success i inside => ?_⟩
    · exact frame place fun position _ inside => apart position inside
    · exact stored success i (by omega) inside
  next memory =>
    split at result
    next => cases result
    next fits =>
      cases result
      simp only [blockPlace, if_neg memory]
      have images := @image_written _ _ _ _ buf (not_lt.mp fits)
      refine ⟨⟨rfl, fun address => ?_⟩, Or.inl True.intro, fun place apart => ?_, fun _ i inside => ?_⟩
      · rw [images]
        split
        next same => rw [same]
        next => rfl
      · cases place with
        | sector => rfl
        | image address offset =>
          dsimp only [byteAt]
          rw [images]
          split
          next same =>
            dsimp only
            rw [same]
            apply copy_confined
            by_contra inside
            exact apart (offset - u64 (block * data.blockSize)) (by omega) (by rw [same]; congr 1; omega)
          next => rfl
      · dsimp only [byteAt]
        rw [images, if_pos rfl]
        exact copy_inside _ _ _ inside

/-- The bytes of a block. -/
def blockBytes (disk : Disk) (data : Ext4Data) (block : Nat) : Fin data.blockSize → UInt8 := fun i =>
  byteAt disk (blockPlace disk data block i)

theorem SameContents.blockBytes {before after : Disk} (same : SameContents before after) (data : Ext4Data) (block : Nat) :
    blockBytes after data block = blockBytes before data block := by
  funext i
  unfold Proofs.blockBytes
  rw [same.bytes, same.layout.blockPlace]

theorem ext4ReadBlock_bytes {disk : Disk} {data : Ext4Data} {block : Nat} {read : BlockRead} (formatted : Formatted data)
    (result : ext4ReadBlock disk data block = .ok read) (success : read.ret = 0) :
    cut read.bytes = blockBytes disk data block := by
  funext i
  exact ((ext4ReadBlock_spec formatted result).2.2 success).2 i i.isLt

theorem ext4WriteBlock_bytes {disk after : Disk} {data : Ext4Data} {block : Nat} {buf : Fin data.blockSize → UInt8}
    (formatted : Formatted data) (result : ext4WriteBlock disk data block (flat buf) = .ok (0, after)) :
    blockBytes after data block = buf := by
  obtain ⟨layout, _, _, stored⟩ := ext4WriteBlock_spec formatted result
  funext i
  unfold blockBytes
  rw [layout.blockPlace, stored rfl i i.isLt, flat, dif_pos i.isLt]

end Kernix.Proofs
