import Mathlib.Logic.Function.Basic

/-! The commands of `ata.c` that read and write a sector, at the level of the ports. The device behind the
ports is not a part of the program: it is a state and what the accesses to the ports
make of it. -/

namespace Kernix.Ata

section Writing

/-- A device by the accesses to its ports that the commands use. -/
structure Ports (σ : Type) where
  inb : UInt16 → σ → UInt8 × σ
  outb : UInt16 → UInt8 → σ → σ
  outw : UInt16 → UInt16 → σ → σ

def ataData : UInt16 := 0
def ataSectorCount : UInt16 := 2
def ataLbaLow : UInt16 := 3
def ataLbaMid : UInt16 := 4
def ataLbaHigh : UInt16 := 5
def ataDrive : UInt16 := 6
def ataStatus : UInt16 := 7
def ataCommand : UInt16 := 7
def ataCmdWrite : UInt8 := 0x30
def ataCmdWriteExt : UInt8 := 0x34
/-- `FLUSH CACHE`, which the code gives as a number. -/
def ataCmdFlush : UInt8 := 0xE7
def ataStatusBsy : UInt8 := 0x80
def ataStatusDrq : UInt8 := 0x08
def ataStatusErr : UInt8 := 0x01
def ataStatusDf : UInt8 := 0x20

variable {σ : Type} (ports : Ports σ)

/-- Bytes written to ports, one after the other. -/
def outbs : List (UInt16 × UInt8) → σ → σ
  | [], device => device
  | (port, value) :: rest, device => outbs rest (ports.outb port value device)

/-- The status, read a number of times. -/
def readStatus (base : UInt16) : Nat → σ → σ
  | 0, device => device
  | count + 1, device => readStatus base count (ports.inb (base + ataStatus) device).2

def ataSelectDrive (base : UInt16) (drive : UInt8) (device : σ) : σ :=
  readStatus ports base 4 (ports.outb (base + ataDrive) ((0xA0 : UInt8) ||| drive <<< 4) device)

/-- The loop of `ata_poll`, with the passes that are left. -/
def pollFrom (base : UInt16) : Nat → σ → Int × σ
  | 0, device => (-2, device)
  | left + 1, device =>
    let (status, device) := ports.inb (base + ataStatus) device
    if status &&& ataStatusBsy = 0 then
      if status &&& ataStatusErr ≠ 0 then (-1, device)
      else if status &&& ataStatusDf ≠ 0 then (-1, device)
      else if status &&& ataStatusDrq ≠ 0 then (0, device)
      else pollFrom base left device
    else pollFrom base left device

def timeout : Nat := 1000000

def ataPoll (base : UInt16) (device : σ) : Int × σ := pollFrom ports base timeout device

/-- `((u16*)buf)[index]`. -/
def wordAt (buf : Fin 512 → UInt8) (index : Fin 256) : UInt16 :=
  (buf ⟨2 * index.val, by omega⟩).toUInt16 ||| (buf ⟨2 * index.val + 1, by omega⟩).toUInt16 <<< 8

/-- The loop that puts the words of the buffer out. -/
def writeWords (base : UInt16) : List UInt16 → σ → σ
  | [], device => device
  | word :: words, device => writeWords base words (ports.outw (base + ataData) word device)

/-- `outb(base + ATA_COMMAND, 0xE7)` behind the data. -/
def writeAndFlush (base : UInt16) (buf : Fin 512 → UInt8) (device : σ) : σ :=
  ports.outb (base + ataCommand) ataCmdFlush (writeWords ports base (List.ofFn (wordAt buf)) device)

/-- What both write functions do from the first poll on. -/
def transfer (base : UInt16) (buf : Fin 512 → UInt8) (device : σ) : Int × σ :=
  let (res, device) := ataPoll ports base device
  if res ≠ 0 then (-1, device)
  else
    let (res, device) := ataPoll ports base (writeAndFlush ports base buf device)
    if res ≠ 0 then (-1, device) else (0, device)

/-- A byte of the address. -/
def lbaByte (lba shift : Nat) : UInt8 := UInt8.ofNat (lba >>> shift &&& 0xFF)

/-- `ata_write_sector_lba48` up to its command. -/
def issueLba48 (base : UInt16) (drive : UInt8) (lba : Nat) (device : σ) : σ :=
  outbs ports
    [(base + ataSectorCount, 0), (base + ataLbaLow, lbaByte lba 24), (base + ataLbaMid, lbaByte lba 32),
      (base + ataLbaHigh, lbaByte lba 40), (base + ataSectorCount, 1), (base + ataLbaLow, lbaByte lba 0),
      (base + ataLbaMid, lbaByte lba 8), (base + ataLbaHigh, lbaByte lba 16),
        (base + ataDrive, (0x40 : UInt8) ||| drive <<< 4),
      (base + ataCommand, ataCmdWriteExt)]
    (ataSelectDrive ports base drive device)

def ataWriteSectorLba48 (base : UInt16) (drive : UInt8) (lba : Nat) (buf : Fin 512 → UInt8) (device : σ) : Int × σ :=
  transfer ports base buf (issueLba48 ports base drive lba device)

/-- `ata_write_sector` up to its command, for an address of 28 bits. -/
def issueLba28 (base : UInt16) (drive : UInt8) (lba : Nat) (device : σ) : σ :=
  outbs ports
    [(base + ataSectorCount, 1), (base + ataLbaLow, lbaByte lba 0), (base + ataLbaMid, lbaByte lba 8),
      (base + ataLbaHigh, lbaByte lba 16),
      (base + ataDrive, (0xE0 : UInt8) ||| drive <<< 4 ||| UInt8.ofNat (lba >>> 24 &&& 0x0F)),
      (base + ataCommand, ataCmdWrite)]
    (ataSelectDrive ports base drive device)

def ataWriteSector (base : UInt16) (drive : UInt8) (lba : Nat) (buf : Fin 512 → UInt8) (device : σ) : Int × σ :=
  if 0x10000000 ≤ lba then ataWriteSectorLba48 ports base drive lba buf device
  else transfer ports base buf (issueLba28 ports base drive lba device)

end Writing

section Reading

/-- Reading a sector uses the data port the other way, too. -/
structure ReadPorts (σ : Type) extends Ports σ where
  inw : UInt16 → σ → UInt16 × σ

def ataCmdRead : UInt8 := 0x20
def ataCmdReadExt : UInt8 := 0x24

variable {σ : Type} (ports : ReadPorts σ)

/-- `((u16*)buf)[index] = word`. -/
def putWord (buf : Fin 512 → UInt8) (index : Fin 256) (word : UInt16) : Fin 512 → UInt8 := fun byte =>
  if byte.val = 2 * index.val then word.toUInt8
  else if byte.val = 2 * index.val + 1 then (word >>> 8).toUInt8
  else buf byte

/-- The loop that takes the words of a sector in. -/
def readWords (base : UInt16) : List (Fin 256) → (Fin 512 → UInt8) → σ → (Fin 512 → UInt8) × σ
  | [], buf, device => (buf, device)
  | index :: rest, buf, device =>
    let (word, device) := ports.inw (base + ataData) device
    readWords base rest (putWord buf index word) device

/-- `ata_read_sector_lba48` up to its command. -/
def issueReadLba48 (base : UInt16) (drive : UInt8) (lba : Nat) (device : σ) : σ :=
  outbs ports.toPorts
    [(base + ataSectorCount, 0), (base + ataLbaLow, lbaByte lba 24), (base + ataLbaMid, lbaByte lba 32),
      (base + ataLbaHigh, lbaByte lba 40), (base + ataSectorCount, 1), (base + ataLbaLow, lbaByte lba 0),
      (base + ataLbaMid, lbaByte lba 8), (base + ataLbaHigh, lbaByte lba 16),
      (base + ataDrive, (0x40 : UInt8) ||| drive <<< 4),
      (base + ataCommand, ataCmdReadExt)]
    (ataSelectDrive ports.toPorts base drive device)

/-- `ata_read_sector` up to its command, for an address of 28 bits. -/
def issueReadLba28 (base : UInt16) (drive : UInt8) (lba : Nat) (device : σ) : σ :=
  outbs ports.toPorts
    [(base + ataSectorCount, 1), (base + ataLbaLow, lbaByte lba 0), (base + ataLbaMid, lbaByte lba 8),
      (base + ataLbaHigh, lbaByte lba 16),
      (base + ataDrive, (0xE0 : UInt8) ||| drive <<< 4 ||| UInt8.ofNat (lba >>> 24 &&& 0x0F)),
      (base + ataCommand, ataCmdRead)]
    (ataSelectDrive ports.toPorts base drive device)

/-- What both read functions do from the poll on. -/
def receive (base : UInt16) (buf : Fin 512 → UInt8) (device : σ) : Int × (Fin 512 → UInt8) × σ :=
  let (res, device) := ataPoll ports.toPorts base device
  if res ≠ 0 then (-1, buf, device)
  else (0, readWords ports base (List.finRange 256) buf device)

def ataReadSectorLba48 (base : UInt16) (drive : UInt8) (lba : Nat) (buf : Fin 512 → UInt8) (device : σ) :
    Int × (Fin 512 → UInt8) × σ :=
  receive ports base buf (issueReadLba48 ports base drive lba device)

/-- One pass of the loop of `ata_read_sector`. -/
def readAttempt (base : UInt16) (drive : UInt8) (lba : Nat) (buf : Fin 512 → UInt8) (device : σ) :
    Int × (Fin 512 → UInt8) × σ :=
  if 0x10000000 ≤ lba then ataReadSectorLba48 ports base drive lba buf device
  else receive ports base buf (issueReadLba28 ports base drive lba device)

/-- The loop of `ata_read_sector`, with the attempts that are left. -/
def readAttempts (base : UInt16) (drive : UInt8) (lba : Nat) :
    Nat → (Fin 512 → UInt8) → σ → Int × (Fin 512 → UInt8) × σ
  | 0, buf, device => (-1, buf, device)
  | left + 1, buf, device =>
    let (res, buf, device) := readAttempt ports base drive lba buf device
    if res = 0 then (0, buf, device) else readAttempts base drive lba left buf device

def retries : Nat := 3

def ataReadSector (base : UInt16) (drive : UInt8) (lba : Nat) (buf : Fin 512 → UInt8) (device : σ) :
    Int × (Fin 512 → UInt8) × σ :=
  readAttempts ports base drive lba retries buf device

end Reading

end Kernix.Ata
