import Kernix.Machine
import Kernix.Fs.Ext4Layout
import Mathlib.Logic.Function.Basic
import Mathlib.Data.List.Dedup

/-! Sectors of drives and partitions. What lies behind the ports of `ata.c` is not a
part of the program: a drive holds sectors, and the drive decides how each access
ends. `partitions.c` reaches a sector only inside its partition, over the functions of
`ata.c` or over any others. `partitions_init` fills the table of the partitions for one
drive, and `ata_init` calls it for every drive that it finds; what the drives answer while
the system starts is a parameter. -/

namespace Kernix

abbrev sectorSize : Nat := 512

/-- The offset of a byte in its sector. -/
theorem mod_sectorSize_lt (position : Nat) : position % sectorSize < sectorSize := Nat.mod_lt position (by decide)

/-- Where a sector lies: the ports, the drive and the address. -/
structure SectorAt where
  base : Nat
  drive : Nat
  lba : Nat
  deriving DecidableEq

/-- How an access ends. A write that is not confirmed has reached the drive, but its
flush has failed. -/
inductive AtaOutcome where
  | done
  | refused
  | unconfirmed
  deriving DecidableEq

structure Drives where
  sectors : SectorAt → Fin sectorSize → UInt8
  /-- How the accesses end, in their order. -/
  outcomes : Nat → AtaOutcome
  accesses : Nat

/-- The commands send 48 bits of an address at most. -/
def ataAddress (lba : Nat) : Nat := lba % 2 ^ 48

/-- The result, with the bytes that a success puts into the caller's buffer. -/
def ataReadSector (drives : Drives) (base drive lba : Nat) : Int × (Fin sectorSize → UInt8) × Drives :=
  let after := { drives with accesses := drives.accesses + 1 }
  match drives.outcomes drives.accesses with
  | .done => (0, drives.sectors ⟨base, drive, ataAddress lba⟩, after)
  | _ => (-1, fun _ => 0, after)

def ataWriteSector (drives : Drives) (base drive lba : Nat) (bytes : Fin sectorSize → UInt8) : Int × Drives :=
  let after := { drives with accesses := drives.accesses + 1 }
  let written := { after with sectors := Function.update drives.sectors ⟨base, drive, ataAddress lba⟩ bytes }
  match drives.outcomes drives.accesses with
  | .done => (0, written)
  | .refused => (-1, after)
  | .unconfirmed => (-1, written)

/-- `partition_t` without its type, which nothing reads. -/
structure Partition where
  ataBase : Nat
  ataDrive : Nat
  startLba : Nat
  size : Nat

/-- A region of memory that a pointer leads to. -/
structure Image where
  size : Nat
  bytes : Nat → UInt8

/-- What a volume can lie on: an image in memory, by its address, or a partition. -/
structure Disk where
  images : Nat → Image
  partitions : List Partition
  drives : Drives

/-- `NULL` leads to nothing. -/
def Disk.image (disk : Disk) (address : Nat) : Image := if address = 0 then ⟨0, fun _ => 0⟩ else disk.images address

def partitionsGet (disk : Disk) (index : Int) : Option Partition :=
  if 0 ≤ index then disk.partitions[index.toNat]? else none

def partitionsReadSector (disk : Disk) (index : Int) (lba : Nat) : Int × (Fin sectorSize → UInt8) × Disk :=
  match partitionsGet disk index with
  | none => (-1, fun _ => 0, disk)
  | some p =>
    if p.size ≤ lba then (-1, fun _ => 0, disk)
    else
      let (ret, bytes, drives) := ataReadSector disk.drives p.ataBase p.ataDrive (u64 (p.startLba + lba))
      (ret, bytes, { disk with drives })

def partitionsWriteSector (disk : Disk) (index : Int) (lba : Nat) (bytes : Fin sectorSize → UInt8) : Int × Disk :=
  match partitionsGet disk index with
  | none => (-1, disk)
  | some p =>
    if p.size ≤ lba then (-1, disk)
    else
      let (ret, drives) := ataWriteSector disk.drives p.ataBase p.ataDrive (u64 (p.startLba + lba)) bytes
      (ret, { disk with drives })

/-- The functions of `ata.c` that reach a sector, on the states of what lies behind them. -/
structure AtaLayer (σ : Type) where
  readSector : Nat → Nat → Nat → σ → Int × (Fin sectorSize → UInt8) × σ
  writeSector : Nat → Nat → Nat → (Fin sectorSize → UInt8) → σ → Int × σ

/-- The drives of `ata.c` as a layer. -/
def drivesLayer : AtaLayer Drives where
  readSector base drive lba drives := ataReadSector drives base drive lba
  writeSector base drive lba bytes drives := ataWriteSector drives base drive lba bytes

/-- A disk, with any device behind its partitions. -/
structure Medium (σ : Type) where
  images : Nat → Image
  partitions : List Partition
  device : σ

def Disk.medium (disk : Disk) : Medium Drives := ⟨disk.images, disk.partitions, disk.drives⟩

variable {σ : Type}

def Medium.image (medium : Medium σ) (address : Nat) : Image :=
  if address = 0 then ⟨0, fun _ => 0⟩ else medium.images address

def Medium.partitionsGet (medium : Medium σ) (index : Int) : Option Partition :=
  if 0 ≤ index then medium.partitions[index.toNat]? else none

namespace AtaLayer
variable (layer : AtaLayer σ)

def partitionsReadSector (medium : Medium σ) (index : Int) (lba : Nat) : Int × (Fin sectorSize → UInt8) × Medium σ :=
  match medium.partitionsGet index with
  | none => (-1, fun _ => 0, medium)
  | some p =>
    if p.size ≤ lba then (-1, fun _ => 0, medium)
    else
      let (ret, bytes, device) := layer.readSector p.ataBase p.ataDrive (u64 (p.startLba + lba)) medium.device
      (ret, bytes, { medium with device })

def partitionsWriteSector (medium : Medium σ) (index : Int) (lba : Nat) (bytes : Fin sectorSize → UInt8) :
    Int × Medium σ :=
  match medium.partitionsGet index with
  | none => (-1, medium)
  | some p =>
    if p.size ≤ lba then (-1, medium)
    else
      let (ret, device) := layer.writeSector p.ataBase p.ataDrive (u64 (p.startLba + lba)) bytes medium.device
      (ret, { medium with device })

/-- The layer, with a record of the sectors that it has been asked for. -/
def logged : AtaLayer (List SectorAt × σ) where
  readSector base drive lba state :=
    let (ret, bytes, device) := layer.readSector base drive lba state.2
    (ret, bytes, ⟨base, drive, lba⟩ :: state.1, device)
  writeSector base drive lba bytes state :=
    let (ret, device) := layer.writeSector base drive lba bytes state.2
    (ret, ⟨base, drive, lba⟩ :: state.1, device)

end AtaLayer

section Tables
open ByteMemory

/-- The drives that identify themselves, and the sectors that can be read. -/
structure DriveBank where
  identified : Nat → Nat → Bool
  sector : SectorAt → Option (Fin sectorSize → UInt8)

def maxPartitions : Nat := 16

/-- `partitions` and `partition_count`. -/
structure PartitionTable where
  partitions : Fin maxPartitions → Partition
  count : Nat

/-- The static objects at the start. -/
def PartitionTable.initial : PartitionTable := ⟨fun _ => ⟨0, 0, 0, 0⟩, 0⟩

def partitionsGetCount (table : PartitionTable) : Nat := table.count

/-- A partition is put into the next slot. -/
def PartitionTable.push (table : PartitionTable) (room : table.count < maxPartitions) (partition : Partition) :
    PartitionTable :=
  ⟨Function.update table.partitions ⟨table.count, room⟩ partition, table.count + 1⟩

/-! The fields of `mbr_t`. -/

def mbrSignature (mbr : Fin sectorSize → UInt8) : Nat := load (flat mbr) 510 2
def mbrType (mbr : Fin sectorSize → UInt8) (i : Nat) : Nat := load (flat mbr) (446 + 16 * i + 4) 1
def mbrLbaStart (mbr : Fin sectorSize → UInt8) (i : Nat) : Nat := load (flat mbr) (446 + 16 * i + 8) 4
def mbrSectorCount (mbr : Fin sectorSize → UInt8) (i : Nat) : Nat := load (flat mbr) (446 + 16 * i + 12) 4

/-! The fields of `gpt_header_t`. -/

def gptSignature (gpt : Fin sectorSize → UInt8) : Nat := load (flat gpt) 0 8
def gptCurrentLba (gpt : Fin sectorSize → UInt8) : Nat := load (flat gpt) 24 8
def gptPartitionArrayLba (gpt : Fin sectorSize → UInt8) : Nat := load (flat gpt) 72 8
def gptPartitionCount (gpt : Fin sectorSize → UInt8) : Nat := load (flat gpt) 80 4
def gptPartitionEntrySize (gpt : Fin sectorSize → UInt8) : Nat := load (flat gpt) 84 4

/-! The fields of a `gpt_partition_entry_t` that lies at an offset. -/

def entryIsZero (bytes : Memory) (offset : Nat) : Prop := ∀ j < 16, bytes (offset + j) = 0

instance (bytes : Memory) (offset : Nat) : Decidable (entryIsZero bytes offset) :=
  inferInstanceAs (Decidable (∀ j < 16, bytes (offset + j) = 0))

def entryFirstLba (bytes : Memory) (offset : Nat) : Nat := load bytes (offset + 32) 8
def entryLastLba (bytes : Memory) (offset : Nat) : Nat := load bytes (offset + 40) 8

/-- `last_lba - first_lba + 1`. -/
def entrySectors (bytes : Memory) (offset : Nat) : Nat :=
  u64 (u64Sub (entryLastLba bytes offset) (entryFirstLba bytes offset) + 1)

/-- One pass of the loop over the entries of an MBR. -/
def addMbrEntry (base drive : Nat) (mbr : Fin sectorSize → UInt8) (table : PartitionTable) (i : Nat) : PartitionTable :=
  if room : mbrType mbr i ≠ 0 ∧ table.count < maxPartitions then
    table.push room.2 ⟨base, drive, mbrLbaStart mbr i, mbrSectorCount mbr i⟩
  else table

/-- The loop over the entries of a GPT, from the one at `i` on. A sector holds
`512 / entry_size` of them. -/
def gptLoop (bank : DriveBank) (base drive arrayLba entrySize : Nat) :
    Nat → Nat → PartitionTable → Except Stop PartitionTable
  | 0, _, table => .ok table
  | left + 1, i, table =>
    if room : table.count < maxPartitions then
      let entriesPerSector := sectorSize / entrySize
      if entriesPerSector = 0 then .error .undefined
      else
        let offset := i % entriesPerSector * entrySize
        match bank.sector ⟨base, drive, u64 (arrayLba + i / entriesPerSector)⟩ with
        | none => .ok table
        | some sector =>
          if sectorSize < offset + 16 then .error .undefined
          else if entryIsZero (flat sector) offset then gptLoop bank base drive arrayLba entrySize left (i + 1) table
          else if sectorSize < offset + 48 then .error .undefined
          else
            gptLoop bank base drive arrayLba entrySize left (i + 1)
              (table.push room ⟨base, drive, entryFirstLba (flat sector) offset, entrySectors (flat sector) offset⟩)
    else .ok table

def partitionsInit (bank : DriveBank) (base drive : Nat) (table : PartitionTable) : Except Stop PartitionTable :=
  let table := { table with count := 0 }
  match bank.sector ⟨base, drive, 0⟩ with
  | none => .ok table
  | some sector =>
    if mbrSignature sector = 0xAA55 then .ok ((List.range 4).foldl (addMbrEntry base drive sector) table)
    else if gptSignature sector = 0x5452415020494645 then
      if gptPartitionEntrySize sector = 0 then .error .undefined
      else
        gptLoop bank base drive (gptPartitionArrayLba sector) (gptPartitionEntrySize sector)
          (gptPartitionCount sector) 0 table
    else .ok table

/-- `ata_primary_io` and `ata_secondary_io`, by the base addresses of the controller that
was found. -/
def ataPorts : Option (Nat → Nat) → Nat × Nat
  | none => (0x1F0, 0x170)
  | some bars =>
    if bars 0 % 2 ≠ 0 then (bars 0 / 2 * 2 % 2 ^ 16, bars 2 / 2 * 2 % 2 ^ 16) else (0x1F0, 0x170)

/-- The places where `ata_init` looks for a drive, in its order. -/
def probedDrives (device : Option (Nat → Nat)) : List (Nat × Nat) :=
  [((ataPorts device).1, 0), ((ataPorts device).1, 1), ((ataPorts device).2, 0), ((ataPorts device).2, 1)]

def probeDrive (bank : DriveBank) (table : PartitionTable) (place : Nat × Nat) : Except Stop PartitionTable :=
  if bank.identified place.1 place.2 then partitionsInit bank place.1 place.2 table else .ok table

def ataInit (bank : DriveBank) (device : Option (Nat → Nat)) (table : PartitionTable) : Except Stop PartitionTable :=
  (probedDrives device).foldlM (probeDrive bank) table

end Tables

end Kernix
