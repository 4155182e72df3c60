import Kernix.Fs.Ext4
import Mathlib.Algebra.Order.Group.Nat

/-! Blocks of a volume on a partition, over a layer that keeps its sectors. A block is a
run of sectors, and the runs of two blocks are apart unless the first sector of one of
them wraps around. -/

namespace Kernix.Proofs
open ByteMemory

variable {σ : Type}

/-- The sectors of a partition. -/
structure InPartition (partition : Partition) (place : SectorAt) : Prop where
  base : place.base = partition.ataBase
  drive : place.drive = partition.ataDrive
  low : partition.startLba ≤ place.lba
  high : place.lba < partition.startLba + partition.size

/-- A layer that keeps the sectors of some places: `sector` is what lies there. -/
structure Reliable (layer : AtaLayer σ) (sector : σ → SectorAt → Fin sectorSize → UInt8) (kept : SectorAt → Prop) :
    Prop where
  read : ∀ place device, kept place →
    ∃ after, layer.readSector place.base place.drive place.lba device = (0, sector device place, after) ∧
      ∀ other, kept other → sector after other = sector device other
  write : ∀ place bytes device, kept place →
    ∃ after, layer.writeSector place.base place.drive place.lba bytes device = (0, after) ∧
      sector after place = bytes ∧ ∀ other, kept other → other ≠ place → sector after other = sector device other

/-- The sector at an address of a partition. -/
def placeIn (partition : Partition) (lba : Nat) : SectorAt :=
  ⟨partition.ataBase, partition.ataDrive, partition.startLba + lba⟩

theorem placeIn_inside {partition : Partition} {lba : Nat} (inside : lba < partition.size) :
    InPartition partition (placeIn partition lba) :=
  ⟨rfl, rfl, Nat.le_add_right _ _, Nat.add_lt_add_left inside _⟩

theorem placeIn_injective {partition : Partition} {lba other : Nat}
    (same : placeIn partition lba = placeIn partition other) :
    lba = other := Nat.add_left_cancel (congrArg SectorAt.lba same)

/-- What a caller gets from a read. -/
def answered (read : MediumRead σ) : Int × Memory × Nat := (read.ret, read.bytes, read.filled)

section partitions
variable {layer : AtaLayer σ} {sector : σ → SectorAt → Fin sectorSize → UInt8} {partition : Partition} {index : Int}
  {medium : Medium σ}

theorem readSector_beyond {lba : Nat} (registered : medium.partitionsGet index = some partition)
    (beyond : partition.size ≤ lba) : layer.partitionsReadSector medium index lba = (-1, fun _ => 0, medium) := by
  unfold AtaLayer.partitionsReadSector
  rw [registered]
  exact if_pos beyond

theorem readSector_within {lba : Nat} (fits : partition.startLba + partition.size ≤ 2 ^ 64)
    (registered : medium.partitionsGet index = some partition) (inside : lba < partition.size) :
    layer.partitionsReadSector medium index lba =
      let (ret, bytes, device) := layer.readSector partition.ataBase partition.ataDrive
        (partition.startLba + lba) medium.device
      (ret, bytes, { medium with device }) := by
  unfold AtaLayer.partitionsReadSector
  rw [registered]
  dsimp only
  rw [if_neg (by omega), u64_eq (by omega)]

theorem writeSector_beyond {lba : Nat} {bytes : Fin sectorSize → UInt8}
    (registered : medium.partitionsGet index = some partition) (beyond : partition.size ≤ lba) :
    layer.partitionsWriteSector medium index lba bytes = (-1, medium) := by
  unfold AtaLayer.partitionsWriteSector
  rw [registered]
  exact if_pos beyond

theorem writeSector_within {lba : Nat} {bytes : Fin sectorSize → UInt8}
    (fits : partition.startLba + partition.size ≤ 2 ^ 64)
    (registered : medium.partitionsGet index = some partition) (inside : lba < partition.size) :
    layer.partitionsWriteSector medium index lba bytes =
      let (ret, device) :=
        layer.writeSector partition.ataBase partition.ataDrive (partition.startLba + lba) bytes medium.device
      (ret, { medium with device }) := by
  unfold AtaLayer.partitionsWriteSector
  rw [registered]
  dsimp only
  rw [if_neg (by omega), u64_eq (by omega)]

theorem readSector_kept {lba : Nat} (reliable : Reliable layer sector (InPartition partition))
    (fits : partition.startLba + partition.size ≤ 2 ^ 64) (registered : medium.partitionsGet index = some partition)
    (inside : lba < partition.size) :
    ∃ device, layer.partitionsReadSector medium index lba =
        (0, sector medium.device (placeIn partition lba), { medium with device }) ∧
      ∀ other, InPartition partition other → sector device other = sector medium.device other := by
  obtain ⟨device, done, same⟩ := reliable.read (placeIn partition lba) medium.device (placeIn_inside inside)
  refine ⟨device, ?_, same⟩
  rw [readSector_within fits registered inside]
  simp only [placeIn] at done
  rw [done]
  rfl

theorem writeSector_kept {lba : Nat} {bytes : Fin sectorSize → UInt8}
    (reliable : Reliable layer sector (InPartition partition)) (fits : partition.startLba + partition.size ≤ 2 ^ 64)
    (registered : medium.partitionsGet index = some partition) (inside : lba < partition.size) :
    ∃ device, layer.partitionsWriteSector medium index lba bytes = (0, { medium with device }) ∧
      sector device (placeIn partition lba) = bytes ∧
      ∀ other, InPartition partition other → other ≠ placeIn partition lba →
        sector device other = sector medium.device other := by
  obtain ⟨device, done, stored, same⟩ := reliable.write (placeIn partition lba) bytes medium.device
    (placeIn_inside inside)
  refine ⟨device, ?_, stored, same⟩
  rw [writeSector_within fits registered inside]
  simp only [placeIn] at done
  rw [done]

/-- Reading sectors on fills the buffer from the front. -/
theorem readSectors_kept {first left i : Nat} {bytes : Memory} (reliable : Reliable layer sector (InPartition partition))
    (fits : partition.startLba + partition.size ≤ 2 ^ 64) (registered : medium.partitionsGet index = some partition)
    (inside : first + i + left ≤ partition.size) :
    let read := layer.readSectors index first left i bytes medium
    read.ret = 0 ∧ read.filled = (i + left) * sectorSize ∧
      ∀ position < (i + left) * sectorSize, read.bytes position =
        if position < i * sectorSize then bytes position
        else sector medium.device (placeIn partition (first + position / sectorSize))
          ⟨position % sectorSize, Nat.mod_lt _ (by decide)⟩ := by
  induction left generalizing i bytes medium with
  | zero =>
    refine ⟨rfl, rfl, fun position early => ?_⟩
    rw [if_pos (by simpa using early)]
    rfl
  | succ left ih =>
    have here : first + i < partition.size := by omega
    obtain ⟨device, done, same⟩ := readSector_kept reliable fits registered here
    have step : layer.readSectors index first (left + 1) i bytes medium =
        layer.readSectors index first left (i + 1)
          (copy bytes (i * sectorSize) sectorSize (flat (sector medium.device (placeIn partition (first + i)))))
          { medium with device } := by
      rw [AtaLayer.readSectors, u64_eq (by omega), done]
      exact if_neg (not_not.mpr rfl)
    obtain ⟨success, filled, content⟩ := @ih { medium with device } (i + 1)
      (copy bytes (i * sectorSize) sectorSize (flat
        (sector medium.device (placeIn partition (first + i))))) registered (by omega)
    have more : i + 1 + left = i + (left + 1) := by omega
    rw [more] at filled content
    dsimp only
    rw [step]
    refine ⟨success, filled, fun position within => ?_⟩
    rw [content position within]
    split
    next early =>
      unfold copy
      by_cases before : position < i * sectorSize
      · rw [if_neg (by omega), if_pos before]
      · have offset : position - i * sectorSize < sectorSize := by
          rw [Nat.add_one_mul] at early
          omega
        obtain ⟨quotient, remainder⟩ : position / sectorSize = i ∧ position % sectorSize = position - i * sectorSize := by
          apply (Nat.div_mod_unique (by decide)).mpr
          exact ⟨by rw [Nat.mul_comm sectorSize i, Nat.sub_add_cancel (not_lt.mp before)], offset⟩
        rw [if_pos (by omega), if_neg before, quotient, flat, dif_pos offset]
        simp only [remainder]
    next late =>
      have later : ¬position < i * sectorSize :=
        fun before => late (before.trans_le (Nat.mul_le_mul_right _ (Nat.le_succ i)))
      have quotient : i + 1 ≤ position / sectorSize := (Nat.le_div_iff_mul_le (by decide)).mpr (not_lt.mp late)
      have bound : position / sectorSize < i + (left + 1) := Nat.div_lt_of_lt_mul (by rwa [Nat.mul_comm])
      rw [if_neg later, same _ (placeIn_inside (by omega))]

/-- Writing sectors on stores the rest of the buffer, and nothing else changes. -/
theorem writeSectors_kept {first left i : Nat} {buf : Memory} (reliable : Reliable layer sector (InPartition partition))
    (fits : partition.startLba + partition.size ≤ 2 ^ 64) (registered : medium.partitionsGet index = some partition)
    (inside : first + i + left ≤ partition.size) :
    ∃ device, layer.writeSectors index first buf left i medium = (0, { medium with device }) ∧
      (∀ lba, first + i ≤ lba → lba < first + i + left →
        sector device (placeIn partition lba) = fun offset : Fin sectorSize => buf
          ((lba - first) * sectorSize + offset)) ∧
      ∀ lba < partition.size, lba < first + i ∨ first + i + left ≤ lba →
        sector device (placeIn partition lba) = sector medium.device (placeIn partition lba) := by
  induction left generalizing i medium with
  | zero => exact ⟨medium.device, rfl, fun lba low high => by omega, fun _ _ _ => rfl⟩
  | succ left ih =>
    have here : first + i < partition.size := by omega
    obtain ⟨device, done, stored, same⟩ := @writeSector_kept _ _ _ _ _ _ _
      (fun offset => buf (i * sectorSize + offset)) reliable fits registered here
    have step : layer.writeSectors index first buf (left + 1) i medium =
        layer.writeSectors index first buf left (i + 1) { medium with device } := by
      rw [AtaLayer.writeSectors, u64_eq (by omega), done]
      exact if_neg (not_not.mpr rfl)
    obtain ⟨last, rest, written, others⟩ := @ih { medium with device } (i + 1) registered (by omega)
    have apart : ∀ lba < partition.size, lba ≠ first + i →
        sector device (placeIn partition lba) = sector medium.device (placeIn partition lba) := by
      intro lba bound different
      exact same _ (placeIn_inside bound) fun equal => different (placeIn_injective equal)
    refine ⟨last, step.trans rest, ?_, ?_⟩
    · intro lba low high
      by_cases first' : lba = first + i
      · subst first'
        rw [others _ here (by omega), stored]
        simp
      · exact written lba (by omega) (by omega)
    · intro lba bound outside
      rw [others lba bound (by omega)]
      exact apart lba bound (by omega)

/-- What a read of sectors answers depends on the sectors that it reaches. -/
theorem readSectors_congr {first left i : Nat} {bytes : Memory} {other : Medium σ}
    (reliable : Reliable layer sector (InPartition partition)) (fits : partition.startLba + partition.size ≤ 2 ^ 64)
    (registered : medium.partitionsGet index = some partition) (too : other.partitionsGet index = some partition)
    (same : ∀ j, i ≤ j → j < i + left → u64 (first + j) < partition.size →
      sector medium.device (placeIn partition (u64 (first + j))) =
        sector other.device (placeIn partition (u64 (first + j)))) :
    answered (layer.readSectors index first left i bytes medium) =
      answered (layer.readSectors index first left i bytes other) := by
  induction left generalizing i bytes medium other with
  | zero => rfl
  | succ left ih =>
    unfold AtaLayer.readSectors
    by_cases beyond : partition.size ≤ u64 (first + i)
    · rw [readSector_beyond registered beyond, readSector_beyond too beyond]
      rfl
    · have inside : u64 (first + i) < partition.size := not_le.mp beyond
      obtain ⟨device, done, kept⟩ := readSector_kept reliable fits registered inside
      obtain ⟨device', done', kept'⟩ := readSector_kept reliable fits too inside
      rw [done, done', same i (Nat.le_refl i) (by omega) inside]
      simp only [ne_eq, not_true_eq_false, if_false]
      apply @ih { medium with device } (i + 1) _ { other with device := device' } registered too
      intro j low high bound
      dsimp only
      rw [kept _ (placeIn_inside bound), kept' _ (placeIn_inside bound)]
      exact same j (by omega) (by omega) bound

/-- What the accesses to the sectors of the partition keep, the block functions keep. -/
structure KeptBy (layer : AtaLayer σ) (partition : Partition) (holds : σ → Prop) : Prop where
  read : ∀ place device, InPartition partition place → holds device →
    holds (layer.readSector place.base place.drive place.lba device).2.2
  write : ∀ place bytes device, InPartition partition place → holds device →
    holds (layer.writeSector place.base place.drive place.lba bytes device).2

theorem readSectors_holds {holds : σ → Prop} {first left i : Nat} {bytes : Memory} (kept : KeptBy layer partition holds)
    (fits : partition.startLba + partition.size ≤ 2 ^ 64) (registered : medium.partitionsGet index = some partition)
    (start : holds medium.device) : holds (layer.readSectors index first left i bytes medium).medium.device := by
  induction left generalizing i bytes medium with
  | zero => exact start
  | succ left ih =>
    unfold AtaLayer.readSectors
    by_cases beyond : partition.size ≤ u64 (first + i)
    · rw [readSector_beyond registered beyond]
      exact start
    · have inside : u64 (first + i) < partition.size := not_le.mp beyond
      have next := kept.read (placeIn partition (u64 (first + i))) medium.device (placeIn_inside inside) start
      rw [readSector_within fits registered inside]
      dsimp only
      split
      · exact next
      · exact ih registered next

theorem writeSectors_holds {holds : σ → Prop} {first left i : Nat} {buf : Memory} (kept : KeptBy layer partition holds)
    (fits : partition.startLba + partition.size ≤ 2 ^ 64) (registered : medium.partitionsGet index = some partition)
    (start : holds medium.device) : holds (layer.writeSectors index first buf left i medium).2.device := by
  induction left generalizing i medium with
  | zero => exact start
  | succ left ih =>
    unfold AtaLayer.writeSectors
    by_cases beyond : partition.size ≤ u64 (first + i)
    · rw [writeSector_beyond registered beyond]
      exact start
    · have inside : u64 (first + i) < partition.size := not_le.mp beyond
      have next := kept.write (placeIn partition (u64 (first + i))) (fun offset => buf (i * sectorSize + offset))
        medium.device (placeIn_inside inside) start
      rw [writeSector_within fits registered inside]
      dsimp only
      split
      · exact next
      · exact ih registered next

end partitions

/-- The sectors of a block all lie inside the partition. -/
def BlockInside (partition : Partition) (data : Ext4Data) (block : Nat) : Prop :=
  ∀ i < data.blockSize / sectorSize, block * (data.blockSize / sectorSize) + i < partition.size

/-- The bytes of a block come back. -/
def ReadBack (layer : AtaLayer σ) (medium : Medium σ) (data : Ext4Data) (block : Nat) (buf : Memory) : Prop :=
  ∃ after, layer.ext4WriteBlock medium data block buf = .ok (0, after) ∧
    ∃ read, layer.ext4ReadBlock after data block = .ok read ∧ read.ret = 0 ∧ read.filled = data.blockSize ∧
      ∀ i < data.blockSize, read.bytes i = buf i

/-- A read of another block answers after the write of a block what it has answered before. -/
def ReadUnchanged (layer : AtaLayer σ) (medium : Medium σ) (data : Ext4Data) (block : Nat) (buf : Memory) (other : Nat) :
    Prop :=
  ∀ ret after, layer.ext4WriteBlock medium data block buf = .ok (ret, after) →
    (layer.ext4ReadBlock after data other).map answered = (layer.ext4ReadBlock medium data other).map answered

/-- Every sector that a read or a write of a block asks for lies in the partition. -/
def AccessesInside (layer : AtaLayer σ) (medium : Medium σ) (data : Ext4Data) (partition : Partition) (block : Nat)
    (buf : Memory) : Prop :=
  (∀ read, layer.logged.ext4ReadBlock { medium with device := ([], medium.device) } data block = .ok read →
    ∀ place ∈ read.medium.device.1, InPartition partition place) ∧
  ∀ ret after, layer.logged.ext4WriteBlock { medium with device := ([], medium.device) } data block buf = .ok (ret,
    after) →
    ∀ place ∈ after.device.1, InPartition partition place

section blocks
variable {layer : AtaLayer σ} {sector : σ → SectorAt → Fin sectorSize → UInt8} {partition : Partition}
  {medium : Medium σ} {data : Ext4Data} {block : Nat} {buf : Memory}

theorem registered_index {index : Int} (registered : medium.partitionsGet index = some partition) : 0 ≤ index := by
  unfold Medium.partitionsGet at registered
  by_contra negative
  rw [if_neg negative] at registered
  cases registered

theorem ext4ReadBlock_partition (registered : medium.partitionsGet data.partitionIndex = some partition) (number : Nat) :
    layer.ext4ReadBlock medium data number =
      .ok (layer.readSectors data.partitionIndex (u64 (number * (data.blockSize / sectorSize)))
        (data.blockSize / sectorSize) 0 (fun _ => 0) medium) := if_pos (registered_index registered)

theorem ext4WriteBlock_partition (registered : medium.partitionsGet data.partitionIndex = some partition) (number : Nat) :
    layer.ext4WriteBlock medium data number buf =
      .ok (layer.writeSectors data.partitionIndex (u64 (number * (data.blockSize / sectorSize))) buf
        (data.blockSize / sectorSize) 0 medium) := if_pos (registered_index registered)

theorem sectors_of_size {k : Nat} (sized : data.blockSize = 1024 * 2 ^ k) :
    data.blockSize / sectorSize = 2 ^ (k + 1) := by
  rw [sized, Nat.pow_succ, sectorSize]
  omega

theorem whole_of_size {k : Nat} (sized : data.blockSize = 1024 * 2 ^ k) :
    data.blockSize / sectorSize * sectorSize = data.blockSize := by
  rw [sized, sectorSize]
  omega

/-- The run of a block that lies inside. -/
theorem BlockInside.run (inside : BlockInside partition data block) (nonempty : 0 < data.blockSize / sectorSize) :
    block * (data.blockSize / sectorSize) + data.blockSize / sectorSize ≤ partition.size := by
  have last := inside (data.blockSize / sectorSize - 1) (by omega)
  omega

/-- The block that was written comes back. -/
theorem block_read_back {k : Nat} (reliable : Reliable layer sector (InPartition partition))
    (fits : partition.startLba + partition.size ≤ 2 ^ 64) (sized : data.blockSize = 1024 * 2 ^ k)
    (registered : medium.partitionsGet data.partitionIndex = some partition) (inside : BlockInside partition data block) :
    ReadBack layer medium data block buf := by
  have count := sectors_of_size sized
  have nonempty : 0 < data.blockSize / sectorSize := by
    rw [count]
    exact Nat.two_pow_pos _
  have run := inside.run nonempty
  have exact : u64 (block * (data.blockSize / sectorSize)) = block * (data.blockSize / sectorSize) := u64_eq (by omega)
  obtain ⟨device, done, stored, -⟩ := @writeSectors_kept _ _ _ _ _ _ _ _ 0 buf reliable fits registered
    (by simpa using run)
  have written := @ext4WriteBlock_partition _ layer _ _ _ buf registered block
  rw [exact, done] at written
  refine ⟨{ medium with device }, written, ?_⟩
  have registered' : Medium.partitionsGet { medium with device } data.partitionIndex = some partition := registered
  obtain ⟨success, filled, content⟩ := @readSectors_kept _ _ _ _ _ _ _ _ 0 (fun _ => 0) reliable fits registered'
    (by simpa using run)
  have read := @ext4ReadBlock_partition _ layer _ _ _ registered' block
  rw [exact] at read
  rw [Nat.zero_add, whole_of_size sized] at filled content
  refine ⟨_, read, success, filled, fun i bound => ?_⟩
  have sectorInside : i / sectorSize < data.blockSize / sectorSize := by
    apply Nat.div_lt_of_lt_mul
    rw [Nat.mul_comm, whole_of_size sized]
    exact bound
  have low : block * (data.blockSize / sectorSize) + 0 ≤ block * (data.blockSize / sectorSize) + i / sectorSize :=
    Nat.add_le_add_left (Nat.zero_le _) _
  have high : block * (data.blockSize / sectorSize) + i / sectorSize <
      block * (data.blockSize / sectorSize) + 0 + data.blockSize / sectorSize := Nat.add_lt_add_left sectorInside _
  rw [content i bound, if_neg (by omega), stored _ low high]
  have place : (block * (data.blockSize / sectorSize) + i / sectorSize - block *
    (data.blockSize / sectorSize)) * sectorSize +
      i % sectorSize = i := by
    rw [Nat.add_sub_cancel_left, Nat.mul_comm]
    exact Nat.div_add_mod i sectorSize
  exact congrArg buf place

/-- The runs of two blocks are apart when their first sectors differ. -/
theorem runs_apart {count other j : Nat} (power : count ∣ 2 ^ 64) (different : u64 (other * count) ≠ block * count)
    (inside : j < count) :
    u64 (u64 (other * count) + j) = u64 (other * count) + j ∧
      (u64 (other * count) + j < block * count ∨ block * count + count ≤ u64 (other * count) + j) := by
  obtain ⟨quotient, first⟩ : count ∣ u64 (other * count) := (Nat.dvd_mod_iff power).mpr (Nat.dvd_mul_left _ _)
  obtain ⟨total, range⟩ := power
  have bound := u64_lt (other * count)
  rw [first] at different bound ⊢
  have below : quotient < total := by
    rw [range] at bound
    exact Nat.lt_of_mul_lt_mul_left bound
  have room : count * quotient + count ≤ 2 ^ 64 := by
    rw [range, ← Nat.mul_succ]
    exact Nat.mul_le_mul_left _ below
  refine ⟨u64_eq (by omega), ?_⟩
  rw [Nat.mul_comm block] at different ⊢
  rcases Nat.lt_trichotomy quotient block with less | rfl | more
  · have step : count * quotient + count ≤ count * block := Nat.mul_le_mul_left count less
    omega
  · exact absurd rfl different
  · have step : count * block + count ≤ count * quotient := Nat.mul_le_mul_left count more
    omega

/-- A block with another first sector is not touched. -/
theorem other_block_unchanged {k other : Nat} (reliable : Reliable layer sector (InPartition partition))
    (fits : partition.startLba + partition.size ≤ 2 ^ 64) (sized : data.blockSize = 1024 * 2 ^ k)
    (registered : medium.partitionsGet data.partitionIndex = some partition) (inside : BlockInside partition data block)
    (different : u64 (other * (data.blockSize / sectorSize)) ≠ block * (data.blockSize / sectorSize)) :
    ReadUnchanged layer medium data block buf other := by
  have count := sectors_of_size sized
  have nonempty : 0 < data.blockSize / sectorSize := by
    rw [count]
    exact Nat.two_pow_pos _
  have run := inside.run nonempty
  have power : data.blockSize / sectorSize ∣ 2 ^ 64 := by
    rw [count]
    apply Nat.pow_dvd_pow
    by_contra above
    have large : 2 ^ 65 ≤ 2 ^ (k + 1) := Nat.pow_le_pow_right (by decide) (by omega)
    omega
  have exact : u64 (block * (data.blockSize / sectorSize)) = block * (data.blockSize / sectorSize) := u64_eq (by omega)
  obtain ⟨device, done, -, apart⟩ := @writeSectors_kept _ _ _ _ _ _ _ _ 0 buf reliable fits registered
    (by simpa using run)
  intro ret after written
  rw [ext4WriteBlock_partition registered, exact, done] at written
  cases written
  have registered' : Medium.partitionsGet { medium with device } data.partitionIndex = some partition := registered
  rw [ext4ReadBlock_partition registered, ext4ReadBlock_partition registered']
  refine congrArg Except.ok (readSectors_congr reliable fits registered' registered ?_)
  intro j _ high bound
  obtain ⟨straight, outside⟩ := runs_apart power different (j := j) (by omega)
  rw [straight] at bound ⊢
  exact apart _ bound (by omega)

/-- The record of a layer holds nothing but sectors of the partition. -/
theorem logged_keeps (layer : AtaLayer σ) (partition : Partition) :
    KeptBy layer.logged partition (fun state => ∀ place ∈ state.1, InPartition partition place) where
  read place state inside held other member := by
    rcases List.mem_cons.mp member with rfl | early
    · exact inside
    · exact held other early
  write place bytes state inside held other member := by
    rcases List.mem_cons.mp member with rfl | early
    · exact inside
    · exact held other early

theorem accesses_inside (fits : partition.startLba + partition.size ≤ 2 ^ 64)
    (registered : medium.partitionsGet data.partitionIndex = some partition) (number : Nat) :
    AccessesInside layer medium data partition number buf := by
  have registered' : Medium.partitionsGet { medium with device := (([] : List SectorAt), medium.device) } data.partitionIndex =
    some partition := registered
  constructor
  · intro read result
    rw [ext4ReadBlock_partition registered'] at result
    cases result
    exact readSectors_holds (logged_keeps layer partition) fits registered' (by simp)
  · intro ret after result
    rw [ext4WriteBlock_partition registered'] at result
    obtain rfl : _ = after := congrArg Prod.snd (Except.ok.inj result)
    exact writeSectors_holds (logged_keeps layer partition) fits registered' (by simp)

/-- A block that lies inside a partition comes back as it was written, no read of a block
with another first sector is changed by the write, and whatever the block number is, no
sector outside the partition is accessed. -/
theorem partition_blocks_right {k : Nat} (reliable : Reliable layer sector (InPartition partition))
    (fits : partition.startLba + partition.size ≤ 2 ^ 64) (sized : data.blockSize = 1024 * 2 ^ k)
    (registered : medium.partitionsGet data.partitionIndex = some partition) :
    (∀ block buf, BlockInside partition data block →
      ReadBack layer medium data block buf ∧
        ∀ other, u64 (other * (data.blockSize / sectorSize)) ≠ block * (data.blockSize / sectorSize) →
          ReadUnchanged layer medium data block buf other) ∧
    ∀ block buf, AccessesInside layer medium data partition block buf :=
  ⟨fun _ _ inside => ⟨block_read_back reliable fits sized registered inside,
    fun _ => other_block_unchanged reliable fits sized registered inside⟩,
    fun block _ => accesses_inside fits registered block⟩

end blocks

/-- Drives that never fail, with sectors under all addresses. -/
def storeLayer : AtaLayer (SectorAt → Fin sectorSize → UInt8) where
  readSector base drive lba store := (0, store ⟨base, drive, lba⟩, store)
  writeSector base drive lba bytes store := (0, Function.update store ⟨base, drive, lba⟩ bytes)

theorem storeLayer_reliable (kept : SectorAt → Prop) : Reliable storeLayer id kept where
  read _ store _ := ⟨store, rfl, fun _ _ => rfl⟩
  write place bytes store _ := by
    refine ⟨Function.update store place bytes, rfl, Function.update_self _ _ _, ?_⟩
    intro other _ different
    exact Function.update_of_ne different _ _

/-- A volume with blocks of 1024 bytes on a partition of two sectors. -/
def smallPartition : Partition := ⟨0x1F0, 0, 63, 2⟩

def smallMedium : Medium (SectorAt → Fin sectorSize → UInt8) :=
  ⟨fun _ => ⟨0, fun _ => 0⟩, [smallPartition], fun _ _ => 0⟩

def smallData : Ext4Data where
  device := 0
  sb := fun _ => 0
  gd := 0
  gdCount := 0
  gdBytes := fun _ => 0
  blockSize := 1024
  inodeSize := 128
  partitionIndex := 0

theorem small_blocks_right :
    (∀ block buf, BlockInside smallPartition smallData block →
      ReadBack storeLayer smallMedium smallData block buf ∧
        ∀ other, u64 (other * (smallData.blockSize / sectorSize)) ≠ block * (smallData.blockSize / sectorSize) →
          ReadUnchanged storeLayer smallMedium smallData block buf other) ∧
    ∀ block buf, AccessesInside storeLayer smallMedium smallData smallPartition block buf :=
  partition_blocks_right (k := 0) (storeLayer_reliable _) (by decide) rfl rfl

/-- The number of a block is not checked before it is multiplied: block `2 ^ 63` is read
from the sectors of block 0. -/
theorem wrapped_block_changed :
    BlockInside smallPartition smallData 0 ∧
      ¬∀ other < 2 ^ 64, other ≠ 0 → ReadUnchanged storeLayer smallMedium smallData 0 (fun _ => 1) other := by
  have inside : BlockInside smallPartition smallData 0 := by
    intro i bound
    rw [Nat.zero_mul, Nat.zero_add]
    exact bound
  refine ⟨inside, fun unchanged => ?_⟩
  obtain ⟨after, written, read, result, -, -, content⟩ := @block_read_back _ _ _ _ smallMedium _ _ (fun _ => 1) 0
    (storeLayer_reliable (InPartition smallPartition)) (by decide) rfl rfl inside
  obtain ⟨-, -, before⟩ := @readSectors_kept _ _ _ _ 0 smallMedium 0 2 0 (fun _ => 0)
    (storeLayer_reliable (InPartition smallPartition)) (by decide) rfl (by decide)
  have wrapped := unchanged (2 ^ 63) (by decide) (by decide) 0 after written
  have same : storeLayer.ext4ReadBlock after smallData (2 ^ 63) = .ok read := result
  rw [same] at wrapped
  have bytes : read.bytes 0 = 0 :=
    (congrFun (congrArg (fun answer => answer.2.1) (Except.ok.inj wrapped)) 0).trans (before 0 (by decide))
  rw [content 0 (by decide)] at bytes
  exact absurd bytes (by decide)

/-- The accesses of a disk are those of its layer. -/
theorem partitionsReadSector_layer (disk : Disk) (index : Int) (lba : Nat) :
    drivesLayer.partitionsReadSector disk.medium index lba =
      let (ret, bytes, after) := partitionsReadSector disk index lba
      (ret, bytes, after.medium) := by
  unfold AtaLayer.partitionsReadSector partitionsReadSector
  have same : disk.medium.partitionsGet index = partitionsGet disk index := rfl
  rw [same]
  cases partitionsGet disk index with
  | none => rfl
  | some p =>
    dsimp only
    split
    · rfl
    · rfl

theorem readSectors_layer (index : Int) (first left i : Nat) (bytes : Memory) (disk : Disk) :
    drivesLayer.readSectors index first left i bytes disk.medium =
      let read := readSectors index first left i bytes disk
      ⟨read.ret, read.bytes, read.filled, read.disk.medium⟩ := by
  induction left generalizing i bytes disk with
  | zero => rfl
  | succ left ih =>
    unfold AtaLayer.readSectors readSectors
    rw [partitionsReadSector_layer]
    dsimp only
    split
    · rfl
    · exact ih (i + 1) _ _

theorem ext4ReadBlock_layer (disk : Disk) (data : Ext4Data) (block : Nat) :
    drivesLayer.ext4ReadBlock disk.medium data block =
      (ext4ReadBlock disk data block).map fun read => ⟨read.ret, read.bytes, read.filled, read.disk.medium⟩ := by
  unfold AtaLayer.ext4ReadBlock ext4ReadBlock
  split
  · exact congrArg Except.ok (readSectors_layer _ _ _ _ _ disk)
  · dsimp only
    have same : disk.medium.image data.device = disk.image data.device := rfl
    rw [same]
    split
    · rfl
    · rfl

theorem partitionsWriteSector_layer (disk : Disk) (index : Int) (lba : Nat) (bytes : Fin sectorSize → UInt8) :
    drivesLayer.partitionsWriteSector disk.medium index lba bytes =
      ((partitionsWriteSector disk index lba bytes).1, (partitionsWriteSector disk index lba bytes).2.medium) := by
  unfold AtaLayer.partitionsWriteSector partitionsWriteSector
  have same : disk.medium.partitionsGet index = partitionsGet disk index := rfl
  rw [same]
  cases partitionsGet disk index with
  | none => rfl
  | some p =>
    dsimp only
    split
    · rfl
    · rfl

theorem writeSectors_layer (index : Int) (first left i : Nat) (buf : Memory) (disk : Disk) :
    drivesLayer.writeSectors index first buf left i disk.medium =
      ((writeSectors index first buf left i disk).1, (writeSectors index first buf left i disk).2.medium) := by
  induction left generalizing i disk with
  | zero => rfl
  | succ left ih =>
    unfold AtaLayer.writeSectors writeSectors
    rw [partitionsWriteSector_layer]
    dsimp only
    split
    · rfl
    · exact ih (i + 1) _

theorem ext4WriteBlock_layer (disk : Disk) (data : Ext4Data) (block : Nat) (buf : Memory) :
    drivesLayer.ext4WriteBlock disk.medium data block buf =
      (ext4WriteBlock disk data block buf).map fun written => (written.1, written.2.medium) := by
  unfold AtaLayer.ext4WriteBlock ext4WriteBlock
  split
  · exact congrArg Except.ok (writeSectors_layer _ _ _ _ _ disk)
  · dsimp only
    have same : disk.medium.image data.device = disk.image data.device := rfl
    rw [same]
    split
    · rfl
    · rfl

end Kernix.Proofs
