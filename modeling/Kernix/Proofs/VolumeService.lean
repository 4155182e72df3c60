import Kernix.Proofs.Volumes

/-! Accesses that end well. Where a block lies inside its volume and the drive is not at
fault, it is read and written, however many accesses have gone before. -/

namespace Kernix.Proofs
open ByteMemory

/-- A disk after some more accesses. -/
structure Onward (before after : Disk) : Prop where
  layout : SameLayout before after
  outcomes : after.drives.outcomes = before.drives.outcomes
  accesses : before.drives.accesses ≤ after.drives.accesses

/-- All accesses to a block end well, now and later. -/
structure Serves (disk : Disk) (data : Ext4Data) (block : Nat) : Prop where
  mapped : data.partitionIndex < 0 → u64 (block * data.blockSize) + data.blockSize ≤ (disk.image data.device).size
  inside : 0 ≤ data.partitionIndex → ∃ p, partitionsGet disk data.partitionIndex = some p ∧
    ∀ i < data.blockSize / sectorSize, u64 (u64 (block * (data.blockSize / sectorSize)) + i) < p.size
  done : 0 ≤ data.partitionIndex → ∀ access, disk.drives.accesses ≤ access → disk.drives.outcomes access = .done

theorem Onward.refl (disk : Disk) : Onward disk disk := ⟨.refl disk, rfl, Nat.le_refl _⟩

theorem Onward.trans {first second third : Disk} (left : Onward first second) (right : Onward second third) :
    Onward first third :=
  ⟨left.layout.trans right.layout, right.outcomes.trans left.outcomes, left.accesses.trans right.accesses⟩

theorem Serves.onward {before after : Disk} {data : Ext4Data} {block : Nat} (serves : Serves before data block)
    (later : Onward before after) : Serves after data block := by
  refine ⟨fun memory => ?_, fun partition => ?_, fun partition access late => ?_⟩
  · rw [later.layout.sizes]
    exact serves.mapped memory
  · rw [later.layout.partitionsGet]
    exact serves.inside partition
  · rw [later.outcomes]
    exact serves.done partition access (later.accesses.trans late)

private theorem partitionsReadSector_onward (disk : Disk) (index : Int) (lba : Nat) :
    Onward disk (partitionsReadSector disk index lba).2.2 := by
  unfold partitionsReadSector
  split
  next => exact .refl disk
  next =>
    split
    next => exact .refl disk
    next =>
      unfold ataReadSector
      dsimp only
      split <;> exact ⟨⟨rfl, fun _ => rfl⟩, rfl, Nat.le_succ _⟩

private theorem partitionsWriteSector_onward (disk : Disk) (index : Int) (lba : Nat) (bytes : Fin sectorSize → UInt8) :
    Onward disk (partitionsWriteSector disk index lba bytes).2 := by
  unfold partitionsWriteSector
  split
  next => exact .refl disk
  next =>
    split
    next => exact .refl disk
    next =>
      unfold ataWriteSector
      dsimp only
      split <;> exact ⟨⟨rfl, fun _ => rfl⟩, rfl, Nat.le_succ _⟩

private theorem readSectors_onward {index : Int} {first left i : Nat} {bytes : Memory} {disk : Disk} :
    Onward disk (readSectors index first left i bytes disk).disk := by
  induction left generalizing i bytes disk with
  | zero => exact .refl disk
  | succ left ih =>
    have step := partitionsReadSector_onward disk index (u64 (first + i))
    unfold readSectors
    dsimp only
    split
    next => exact step
    next => exact step.trans ih

private theorem writeSectors_onward {index : Int} {first left i : Nat} {buf : Memory} {disk : Disk} :
    Onward disk (writeSectors index first buf left i disk).2 := by
  induction left generalizing i disk with
  | zero => exact .refl disk
  | succ left ih =>
    have step := partitionsWriteSector_onward disk index (u64 (first + i)) fun offset => buf (i * sectorSize + offset)
    unfold writeSectors
    dsimp only
    split
    next => exact step
    next => exact step.trans ih

theorem ext4ReadBlock_onward {disk : Disk} {data : Ext4Data} {block : Nat} {read : BlockRead}
    (result : ext4ReadBlock disk data block = .ok read) : Onward disk read.disk := by
  unfold ext4ReadBlock at result
  dsimp only at result
  split at result
  next =>
    cases result
    exact readSectors_onward
  next =>
    split at result
    next => cases result
    next =>
      cases result
      exact .refl disk

theorem ext4WriteBlock_onward {disk after : Disk} {data : Ext4Data} {block : Nat} {buf : Memory} {ret : Int}
    (formatted : Formatted data) (result : ext4WriteBlock disk data block buf = .ok (ret, after)) :
    Onward disk after := by
  have layout := (ext4WriteBlock_spec formatted result).1
  unfold ext4WriteBlock at result
  dsimp only at result
  split at result
  next =>
    have step := @writeSectors_onward data.partitionIndex (u64 (block * (data.blockSize / sectorSize)))
      (data.blockSize / sectorSize) 0 buf disk
    rw [Except.ok.inj result] at step
    exact step
  next =>
    split at result
    next => cases result
    next =>
      cases result
      exact ⟨layout, rfl, Nat.le_refl _⟩

private theorem readSectors_serves {index : Int} {p : Partition} {first left i : Nat} {bytes : Memory} {disk : Disk}
    (there : partitionsGet disk index = some p) (inside : ∀ j < i + left, u64 (first + j) < p.size)
    (done : ∀ access, disk.drives.accesses ≤ access → disk.drives.outcomes access = .done) :
    (readSectors index first left i bytes disk).ret = 0 := by
  induction left generalizing i bytes disk with
  | zero => rfl
  | succ left ih =>
    have step := partitionsReadSector_onward disk index (u64 (first + i))
    have fine : (partitionsReadSector disk index (u64 (first + i))).1 = 0 := by
      unfold partitionsReadSector ataReadSector
      rw [there]
      dsimp only
      rw [if_neg (not_le.mpr (inside i (by omega))), done _ (Nat.le_refl _)]
    unfold readSectors
    dsimp only
    rw [if_neg (not_not.mpr fine)]
    apply ih
    · rw [step.layout.partitionsGet, there]
    · exact fun j before => inside j (by omega)
    · intro access late
      rw [step.outcomes]
      exact done access (step.accesses.trans late)

private theorem writeSectors_serves {index : Int} {p : Partition} {first left i : Nat} {buf : Memory} {disk : Disk}
    (there : partitionsGet disk index = some p) (inside : ∀ j < i + left, u64 (first + j) < p.size)
    (done : ∀ access, disk.drives.accesses ≤ access → disk.drives.outcomes access = .done) :
    (writeSectors index first buf left i disk).1 = 0 := by
  induction left generalizing i disk with
  | zero => rfl
  | succ left ih =>
    have step := partitionsWriteSector_onward disk index (u64 (first + i)) fun offset => buf (i * sectorSize + offset)
    have fine : (partitionsWriteSector disk index (u64 (first + i)) fun offset => buf
      (i * sectorSize + offset)).1 = 0 := by
      unfold partitionsWriteSector ataWriteSector
      rw [there]
      dsimp only
      rw [if_neg (not_le.mpr (inside i (by omega))), done _ (Nat.le_refl _)]
    unfold writeSectors
    dsimp only
    rw [if_neg (not_not.mpr fine)]
    apply ih
    · rw [step.layout.partitionsGet, there]
    · exact fun j before => inside j (by omega)
    · intro access late
      rw [step.outcomes]
      exact done access (step.accesses.trans late)

theorem Serves.reads {disk : Disk} {data : Ext4Data} {block : Nat} (serves : Serves disk data block) :
    ∃ read, ext4ReadBlock disk data block = .ok read ∧ read.ret = 0 := by
  unfold ext4ReadBlock
  dsimp only
  split
  next partition =>
    obtain ⟨p, there, inside⟩ := serves.inside partition
    exact ⟨_, rfl, readSectors_serves there (by rwa [Nat.zero_add]) (serves.done partition)⟩
  next memory => exact ⟨_, if_neg (not_lt.mpr (serves.mapped (not_le.mp memory))), rfl⟩

theorem Serves.writes {disk : Disk} {data : Ext4Data} {block : Nat} (serves : Serves disk data block) (buf : Memory) :
    ∃ after, ext4WriteBlock disk data block buf = .ok (0, after) := by
  unfold ext4WriteBlock
  dsimp only
  split
  next partition =>
    obtain ⟨p, there, inside⟩ := serves.inside partition
    have fine : (writeSectors data.partitionIndex (u64 (block * (data.blockSize / sectorSize))) buf
        (data.blockSize / sectorSize) 0 disk).1 = 0 :=
      writeSectors_serves there (by rwa [Nat.zero_add]) (serves.done partition)
    exact ⟨_, congrArg Except.ok (Prod.ext fine rfl)⟩
  next memory => exact ⟨_, if_neg (not_lt.mpr (serves.mapped (not_le.mp memory)))⟩

private theorem readSectors_inside {index : Int} {first left i : Nat} {bytes : Memory} {disk : Disk} (nonempty : 0 < left)
    (success : (readSectors index first left i bytes disk).ret = 0) :
    ∃ p, partitionsGet disk index = some p ∧ ∀ j, i ≤ j → j < i + left → u64 (first + j) < p.size := by
  induction left generalizing i bytes disk with
  | zero => exact absurd nonempty (Nat.lt_irrefl 0)
  | succ left ih =>
    have step := partitionsReadSector_onward disk index (u64 (first + i))
    unfold readSectors at success
    dsimp only at success
    split at success
    next => exact absurd success (show (-1 : Int) ≠ 0 by decide)
    next done =>
      have here : ∃ p, partitionsGet disk index = some p ∧ u64 (first + i) < p.size := by
        unfold partitionsReadSector at done
        split at done
        next => exact absurd (show (-1 : Int) ≠ 0 by decide) done
        next p found =>
          split at done
          next => exact absurd (show (-1 : Int) ≠ 0 by decide) done
          next inside => exact ⟨p, found, not_le.mp inside⟩
      obtain ⟨p, there, fits⟩ := here
      refine ⟨p, there, fun j low high => ?_⟩
      rcases Nat.eq_or_lt_of_le low with rfl | later
      · exact fits
      · obtain ⟨p', there', inside⟩ := ih (by omega) success
        rw [step.layout.partitionsGet, there] at there'
        cases there'
        exact inside j later (by omega)

/-- A block that was read can be read and written again, where the drive is not at fault. -/
theorem ext4ReadBlock_serves {disk other : Disk} {data : Ext4Data} {block : Nat} {read : BlockRead}
    (formatted : Formatted data)
    (sized : 0 < data.blockSize) (result : ext4ReadBlock disk data block = .ok read) (success : read.ret = 0)
    (layout : SameLayout disk other) (calm : ∀ access, other.drives.outcomes access = .done) :
    Serves other data block := by
  refine ⟨fun memory => ?_, fun partition => ?_, fun _ access _ => calm access⟩
  · unfold ext4ReadBlock at result
    rw [if_neg (not_le.mpr memory)] at result
    dsimp only at result
    split at result
    next => cases result
    next fits =>
      rw [layout.sizes]
      exact not_lt.mp fits
  · unfold ext4ReadBlock at result
    rw [if_pos partition] at result
    cases result
    have sectors : 0 < data.blockSize / sectorSize :=
      Nat.div_pos (Nat.le_of_dvd sized formatted.sectors) (by decide)
    obtain ⟨p, there, inside⟩ := readSectors_inside sectors success
    refine ⟨p, ?_, fun i before => inside i (Nat.zero_le i) (by omega)⟩
    rw [layout.partitionsGet, there]

end Kernix.Proofs
