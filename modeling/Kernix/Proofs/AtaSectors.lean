import Mathlib.Tactic.IntervalCases
import Kernix.Drivers.Ata

/-! Which sector a command reaches. A drive decodes the bytes that were written to its
registers, and it is the command written last that makes it look at them. -/

namespace Kernix.Proofs
open Ata

/-- A register that keeps the byte before the last one, too. -/
structure Paired where
  current : UInt8
  previous : UInt8

def Paired.put (register : Paired) (value : UInt8) : Paired := ⟨value, register.current⟩

/-- The registers of a channel that a command looks at. -/
structure TaskFile where
  count : Paired
  low : Paired
  mid : Paired
  high : Paired
  device : UInt8

/-- The sectors that a command moves. -/
structure Sectors where
  drive : Nat
  lba : Nat
  count : Nat

/-- A command and what it moves, where it moves anything. -/
abbrev Command := UInt8 × Option Sectors

namespace TaskFile

variable (registers : TaskFile)

def drive : Nat := (registers.device.toNat.testBit 4).toNat

/-- An address of 28 bits: the highest four are in the device register. -/
def lba28 : Nat :=
  registers.low.current.toNat + 2 ^ 8 * registers.mid.current.toNat + 2 ^ 16 * registers.high.current.toNat +
    2 ^ 24 * (registers.device.toNat % 2 ^ 4)

/-- An address of 48 bits: the bytes written first are the higher ones. -/
def lba48 : Nat :=
  registers.low.current.toNat + 2 ^ 8 * registers.mid.current.toNat + 2 ^ 16 * registers.high.current.toNat +
    2 ^ 24 * registers.low.previous.toNat + 2 ^ 32 * registers.mid.previous.toNat +
    2 ^ 40 * registers.high.previous.toNat

/-- A count of zero is the largest one. -/
def counted (bytes limit : Nat) : Nat := if bytes = 0 then limit else bytes

def count28 : Nat := counted registers.count.current.toNat (2 ^ 8)

def count48 : Nat := counted (registers.count.current.toNat + 2 ^ 8 * registers.count.previous.toNat) (2 ^ 16)

/-- What a command moves. An address that is not linear is not looked at. -/
def decode (code : UInt8) : Option Sectors :=
  if registers.device.toNat.testBit 6 then
    if code = ataCmdRead ∨ code = ataCmdWrite then some ⟨registers.drive, registers.lba28, registers.count28⟩
    else if code = ataCmdReadExt ∨ code = ataCmdWriteExt then
      some ⟨registers.drive, registers.lba48, registers.count48⟩
    else none
  else none

end TaskFile

/-- A byte that is written to a port of the channel. -/
def written (port : UInt16) (value : UInt8) : TaskFile × List Command → TaskFile × List Command
  | (registers, commands) =>
    if port = ataSectorCount then ({ registers with count := registers.count.put value }, commands)
    else if port = ataLbaLow then ({ registers with low := registers.low.put value }, commands)
    else if port = ataLbaMid then ({ registers with mid := registers.mid.put value }, commands)
    else if port = ataLbaHigh then ({ registers with high := registers.high.put value }, commands)
    else if port = ataDrive then ({ registers with device := value }, commands)
    else if port = ataCommand then (registers, (value, registers.decode value) :: commands)
    else (registers, commands)

section Registers

variable (value : UInt8) (registers : TaskFile) (commands : List Command)

theorem written_count : written ataSectorCount value (registers, commands) =
    ({ registers with count := registers.count.put value }, commands) := rfl

theorem written_low : written ataLbaLow value (registers, commands) =
    ({ registers with low := registers.low.put value }, commands) := rfl

theorem written_mid : written ataLbaMid value (registers, commands) =
    ({ registers with mid := registers.mid.put value }, commands) := rfl

theorem written_high : written ataLbaHigh value (registers, commands) =
    ({ registers with high := registers.high.put value }, commands) := rfl

theorem written_device : written ataDrive value (registers, commands) =
    ({ registers with device := value }, commands) := rfl

theorem written_command : written ataCommand value (registers, commands) =
    (registers, (value, registers.decode value) :: commands) := rfl

end Registers

variable {σ : Type}

/-- Any device, with the registers in front of it and the commands it got, the last
one first. -/
def watched (ports : ReadPorts σ) (base : UInt16) : ReadPorts (σ × TaskFile × List Command) where
  inb port state := ((ports.inb port state.1).1, (ports.inb port state.1).2, state.2)
  outb port value state := (ports.outb port value state.1, written (port - base) value state.2)
  outw port value state := (ports.outw port value state.1, state.2)
  inw port state := ((ports.inw port state.1).1, (ports.inw port state.1).2, state.2)

/-- The short commands are for addresses that they have room for. -/
def readCommand (lba : Nat) : UInt8 := if lba < 2 ^ 28 then ataCmdRead else ataCmdReadExt

def writeCommand (lba : Nat) : UInt8 := if lba < 2 ^ 28 then ataCmdWrite else ataCmdWriteExt

/-- There is a command besides the flushes, and every such command is this one, for
this one sector. -/
def Addressed (code : UInt8) (drive : UInt8) (lba : Nat) (commands : List Command) : Prop :=
  (∃ command ∈ commands, command.1 ≠ ataCmdFlush) ∧
    ∀ command ∈ commands, command.1 ≠ ataCmdFlush → command = (code, some ⟨drive.toNat, lba, 1⟩)

section Decoding

variable {base : UInt16} {drive : UInt8} {lba : Nat} {code : UInt8}

/-- The bytes for an address of 28 bits. -/
def bytes28 (base : UInt16) (drive : UInt8) (lba : Nat) (code : UInt8) : List (UInt16 × UInt8) :=
  [(base + ataSectorCount, 1), (base + ataLbaLow, lbaByte lba 0), (base + ataLbaMid, lbaByte lba 8),
    (base + ataLbaHigh, lbaByte lba 16),
    (base + ataDrive, (0xE0 : UInt8) ||| drive <<< 4 ||| UInt8.ofNat (lba >>> 24 &&& 0x0F)), (base + ataCommand, code)]

/-- The bytes for an address of 48 bits. -/
def bytes48 (base : UInt16) (drive : UInt8) (lba : Nat) (code : UInt8) : List (UInt16 × UInt8) :=
  [(base + ataSectorCount, 0), (base + ataLbaLow, lbaByte lba 24), (base + ataLbaMid, lbaByte lba 32),
    (base + ataLbaHigh, lbaByte lba 40), (base + ataSectorCount, 1), (base + ataLbaLow, lbaByte lba 0),
    (base + ataLbaMid, lbaByte lba 8), (base + ataLbaHigh, lbaByte lba 16),
    (base + ataDrive, (0x40 : UInt8) ||| drive <<< 4), (base + ataCommand, code)]

def writtenAll (base : UInt16) (bytes : List (UInt16 × UInt8)) (state : TaskFile × List Command) :
    TaskFile × List Command :=
  bytes.foldl (fun state byte => written (byte.1 - base) byte.2 state) state

theorem lbaByte_toNat (lba shift : Nat) : (lbaByte lba shift).toNat = lba / 2 ^ shift % 2 ^ 8 := by
  rw [lbaByte, UInt8.toNat_ofNat', Nat.and_two_pow_sub_one_eq_mod (lba >>> shift) 8, Nat.mod_mod,
    Nat.shiftRight_eq_div_pow]

/-- The device register of an address of 48 bits. -/
theorem device48 (one : drive = 0 ∨ drive = 1) :
    ((0x40 : UInt8) ||| drive <<< 4).toNat.testBit 6 ∧
      (((0x40 : UInt8) ||| drive <<< 4).toNat.testBit 4).toNat = drive.toNat := by
  rcases one with rfl | rfl <;> decide

/-- The device register of an address of 28 bits. -/
theorem device28 (one : drive = 0 ∨ drive = 1) (lba : Nat) :
    ((0xE0 : UInt8) ||| drive <<< 4 ||| UInt8.ofNat (lba >>> 24 &&& 0x0F)).toNat.testBit 6 ∧
      (((0xE0 : UInt8) ||| drive <<< 4 ||| UInt8.ofNat (lba >>> 24 &&& 0x0F)).toNat.testBit 4).toNat = drive.toNat ∧
      ((0xE0 : UInt8) ||| drive <<< 4 ||| UInt8.ofNat (lba >>> 24 &&& 0x0F)).toNat % 2 ^ 4 = lba / 2 ^ 24 % 2 ^ 4 := by
  rw [Nat.and_two_pow_sub_one_eq_mod (lba >>> 24) 4, Nat.shiftRight_eq_div_pow]
  have small : lba / 2 ^ 24 % 2 ^ 4 < 2 ^ 4 := Nat.mod_lt _ (by decide)
  generalize lba / 2 ^ 24 % 2 ^ 4 = part at small
  rcases one with rfl | rfl <;> interval_cases part <;> decide

theorem port_offset (base offset : UInt16) : base + offset - base = offset := by
  rw [UInt16.add_comm, UInt16.add_sub_cancel]

theorem bytes28_decoded (one : drive = 0 ∨ drive = 1) (short : lba < 2 ^ 28)
    (moves : code = ataCmdRead ∨ code = ataCmdWrite) (state : TaskFile × List Command) :
    (writtenAll base (bytes28 base drive lba code) state).2 = (code, some ⟨drive.toNat, lba, 1⟩) :: state.2 := by
  obtain ⟨registers, commands⟩ := state
  obtain ⟨linear, selects, highest⟩ := device28 one lba
  have address : lba / 2 ^ 0 % 2 ^ 8 + 2 ^ 8 * (lba / 2 ^ 8 % 2 ^ 8) + 2 ^ 16 * (lba / 2 ^ 16 % 2 ^ 8) +
      2 ^ 24 * (lba / 2 ^ 24 % 2 ^ 4) = lba := by omega
  simp only [writtenAll, bytes28, List.foldl_cons, List.foldl_nil, port_offset, written_count, written_low, written_mid,
    written_high, written_device, written_command]
  rw [TaskFile.decode, if_pos linear, if_pos moves]
  simp only [TaskFile.drive, TaskFile.lba28, TaskFile.count28, Paired.put, selects, highest, lbaByte_toNat, address]
  rfl

theorem bytes48_decoded (one : drive = 0 ∨ drive = 1) (fits : lba < 2 ^ 48)
    (moves : code = ataCmdReadExt ∨ code = ataCmdWriteExt) (state : TaskFile × List Command) :
    (writtenAll base (bytes48 base drive lba code) state).2 = (code, some ⟨drive.toNat, lba, 1⟩) :: state.2 := by
  obtain ⟨registers, commands⟩ := state
  obtain ⟨linear, selects⟩ := device48 one
  have address : lba / 2 ^ 0 % 2 ^ 8 + 2 ^ 8 * (lba / 2 ^ 8 % 2 ^ 8) + 2 ^ 16 * (lba / 2 ^ 16 % 2 ^ 8) +
      2 ^ 24 * (lba / 2 ^ 24 % 2 ^ 8) + 2 ^ 32 * (lba / 2 ^ 32 % 2 ^ 8) + 2 ^ 40 * (lba / 2 ^ 40 % 2 ^ 8) = lba := by
    omega
  have other : ¬(code = ataCmdRead ∨ code = ataCmdWrite) := by
    rcases moves with rfl | rfl <;> decide
  simp only [writtenAll, bytes48, List.foldl_cons, List.foldl_nil, port_offset, written_count, written_low, written_mid,
    written_high, written_device, written_command]
  rw [TaskFile.decode, if_pos linear, if_neg other, if_pos moves]
  simp only [TaskFile.drive, TaskFile.lba48, TaskFile.count48, Paired.put, selects, lbaByte_toNat, address]
  rfl

end Decoding

section Issuing

variable (ports : ReadPorts σ) (base : UInt16)

theorem outbs_watched (bytes : List (UInt16 × UInt8)) (state : σ × TaskFile × List Command) :
    (outbs (watched ports base).toPorts bytes state).2 = writtenAll base bytes state.2 := by
  induction bytes generalizing state with
  | nil => rfl
  | cons byte bytes ih => exact ih _

theorem readStatus_watched (count : Nat) (state : σ × TaskFile × List Command) :
    (readStatus (watched ports base).toPorts base count state).2 = state.2 := by
  induction count generalizing state with
  | zero => rfl
  | succ count ih => exact ih _

theorem ataSelectDrive_watched (drive : UInt8) (state : σ × TaskFile × List Command) :
    (ataSelectDrive (watched ports base).toPorts base drive state).2.2 = state.2.2 := by
  rw [ataSelectDrive, readStatus_watched]
  show (written (base + ataDrive - base) _ _).2 = _
  rw [port_offset]
  rfl

theorem pollFrom_watched (left : Nat) (state : σ × TaskFile × List Command) :
    (pollFrom (watched ports base).toPorts base left state).2.2 = state.2 := by
  induction left generalizing state with
  | zero => rfl
  | succ left ih =>
    unfold pollFrom
    dsimp only
    split_ifs
    · rfl
    · rfl
    · rfl
    · exact ih _
    · exact ih _

theorem writeWords_watched (words : List UInt16) (state : σ × TaskFile × List Command) :
    (writeWords (watched ports base).toPorts base words state).2 = state.2 := by
  induction words generalizing state with
  | nil => rfl
  | cons word words ih => exact ih _

theorem readWords_watched (indices : List (Fin 256)) (buf : Fin 512 → UInt8) (state : σ × TaskFile × List Command) :
    (readWords (watched ports base) base indices buf state).2.2 = state.2 := by
  induction indices generalizing buf state with
  | nil => rfl
  | cons index indices ih => exact ih _ _

theorem flush_written (state : TaskFile × List Command) :
    (written (base + ataCommand - base) ataCmdFlush state).2 = (ataCmdFlush, none) :: state.2 := by
  obtain ⟨registers, commands⟩ := state
  rw [port_offset, written_command, TaskFile.decode, if_neg (show ¬(ataCmdFlush = _ ∨ ataCmdFlush = _) by decide),
    if_neg (show ¬(ataCmdFlush = _ ∨ ataCmdFlush = _) by decide), ite_self]

end Issuing

section Calls

variable (ports : ReadPorts σ) (base : UInt16) {drive code : UInt8} {lba : Nat} {state : σ × TaskFile × List Command}

/-- The commands for a sector, and flushes. -/
def OnlyFor (code drive : UInt8) (lba : Nat) (commands : List Command) : Prop :=
  ∀ command ∈ commands, command.1 ≠ ataCmdFlush → command = (code, some ⟨drive.toNat, lba, 1⟩)

theorem OnlyFor.issued {commands : List Command} (only : OnlyFor code drive lba commands) :
    OnlyFor code drive lba ((code, some ⟨drive.toNat, lba, 1⟩) :: commands) :=
  List.forall_mem_cons.mpr ⟨fun _ => rfl, only⟩

theorem issue28_watched (one : drive = 0 ∨ drive = 1) (short : lba < 2 ^ 28)
    (moves : code = ataCmdRead ∨ code = ataCmdWrite) :
    (outbs (watched ports base).toPorts (bytes28 base drive lba code)
      (ataSelectDrive (watched ports base).toPorts base drive state)).2.2 =
      (code, some ⟨drive.toNat, lba, 1⟩) :: state.2.2 := by
  rw [outbs_watched, bytes28_decoded one short moves, ataSelectDrive_watched]

theorem issue48_watched (one : drive = 0 ∨ drive = 1) (fits : lba < 2 ^ 48)
    (moves : code = ataCmdReadExt ∨ code = ataCmdWriteExt) :
    (outbs (watched ports base).toPorts (bytes48 base drive lba code)
      (ataSelectDrive (watched ports base).toPorts base drive state)).2.2 =
      (code, some ⟨drive.toNat, lba, 1⟩) :: state.2.2 := by
  rw [outbs_watched, bytes48_decoded one fits moves, ataSelectDrive_watched]

/-- What follows a write command adds at most a flush. -/
theorem transfer_watched (buf : Fin 512 → UInt8) :
    (transfer (watched ports base).toPorts base buf state).2.2.2 = state.2.2 ∨
      (transfer (watched ports base).toPorts base buf state).2.2.2 = (ataCmdFlush, none) :: state.2.2 := by
  have polled (state : σ × TaskFile × List Command) :
      (ataPoll (watched ports base).toPorts base state).2.2 = state.2 := pollFrom_watched ports base timeout state
  have flushed (state : σ × TaskFile × List Command) :
      (writeAndFlush (watched ports base).toPorts base buf state).2.2 = (ataCmdFlush, none) :: state.2.2 := by
    unfold writeAndFlush
    generalize List.ofFn (wordAt buf) = words
    exact (flush_written base _).trans (congrArg (fun kept => (ataCmdFlush, none) :: kept.2)
      (writeWords_watched ports base words state))
  unfold transfer
  dsimp only
  split_ifs
  · left
    rw [polled]
  · right
    rw [polled, flushed, polled]
  · right
    rw [polled, flushed, polled]

theorem receive_watched (buf : Fin 512 → UInt8) :
    (receive (watched ports base) base buf state).2.2.2 = state.2 := by
  have polled : (ataPoll (watched ports base).toPorts base state).2.2 = state.2 :=
    pollFrom_watched ports base timeout state
  unfold receive
  generalize ataPoll (watched ports base).toPorts base state = answer at polled
  dsimp only
  split_ifs
  · exact polled
  · exact (readWords_watched ports base _ buf _).trans polled

theorem transfer_only {commands : List Command} (buf : Fin 512 → UInt8)
    (issued : state.2.2 = (code, some ⟨drive.toNat, lba, 1⟩) :: commands) (other : code ≠ ataCmdFlush)
    (only : OnlyFor code drive lba commands) :
    Addressed code drive lba (transfer (watched ports base).toPorts base buf state).2.2.2 := by
  have commanded := issued ▸ only.issued
  have first : (code, some ⟨drive.toNat, lba, 1⟩) ∈ state.2.2 := issued ▸ List.mem_cons_self
  have watches : _ ∨ (transfer (watched ports base).toPorts base buf state).2.2.2 = _ := transfer_watched ports base buf
  rcases watches with same | flushed
  · rw [same]
    exact ⟨⟨_, first, other⟩, commanded⟩
  · rw [flushed]
    exact ⟨⟨_, List.mem_cons_of_mem _ first, other⟩,
      List.forall_mem_cons.mpr ⟨fun apart => absurd rfl apart, commanded⟩⟩

theorem readCommand_ne (lba : Nat) : readCommand lba ≠ ataCmdFlush := by
  unfold readCommand
  split <;> decide

/-- What a read does first: one command, and the data of it. -/
theorem readAttempt_watched (one : drive = 0 ∨ drive = 1) (fits : lba < 2 ^ 48) (buf : Fin 512 → UInt8) :
    (readAttempt (watched ports base) base drive lba buf state).2.2.2.2 =
      (readCommand lba, some ⟨drive.toNat, lba, 1⟩) :: state.2.2 := by
  unfold readAttempt readCommand
  by_cases short : lba < 2 ^ 28
  · rw [if_neg (by omega), if_pos short, receive_watched]
    exact issue28_watched ports base one short (.inl rfl)
  · rw [if_pos (by omega), if_neg short, ataReadSectorLba48, receive_watched]
    exact issue48_watched ports base one fits (.inl rfl)

/-- Every attempt of a read issues the same command. -/
theorem readAttempts_only (one : drive = 0 ∨ drive = 1) (fits : lba < 2 ^ 48) (left : Nat) (buf : Fin 512 → UInt8)
    (only : OnlyFor (readCommand lba) drive lba state.2.2) :
    OnlyFor (readCommand lba) drive lba
      (readAttempts (watched ports base) base drive lba left buf state).2.2.2.2 := by
  induction left generalizing buf state with
  | zero => exact only
  | succ left ih =>
    have attempted : (readAttempt (watched ports base) base drive lba buf state).2.2.2.2 = _ :=
      readAttempt_watched ports base one fits buf
    unfold readAttempts
    generalize readAttempt (watched ports base) base drive lba buf state = attempt at attempted
    have next : OnlyFor _ drive lba attempt.2.2.2.2 := attempted ▸ only.issued
    dsimp only
    split
    · exact next
    · exact ih attempt.2.1 next

/-- The commands of an attempt come on top of those before it. -/
theorem readAttempts_keep (one : drive = 0 ∨ drive = 1) (fits : lba < 2 ^ 48) (left : Nat) (buf : Fin 512 → UInt8) :
    state.2.2 ⊆ (readAttempts (watched ports base) base drive lba left buf state).2.2.2.2 := by
  induction left generalizing buf state with
  | zero => exact fun _ member => member
  | succ left ih =>
    have attempted : (readAttempt (watched ports base) base drive lba buf state).2.2.2.2 = _ :=
      readAttempt_watched ports base one fits buf
    unfold readAttempts
    generalize readAttempt (watched ports base) base drive lba buf state = attempt at attempted
    have next : state.2.2 ⊆ attempt.2.2.2.2 := attempted ▸ List.subset_cons_self _ _
    dsimp only
    split
    · exact next
    · exact List.Subset.trans next (ih attempt.2.1)

end Calls

variable {drive : UInt8} {lba : Nat}

/-- The functions that read and write a sector, on any device, address the sector that
they are called for. -/
theorem ata_sectors_addressed (ports : ReadPorts σ) (base : UInt16) (one : drive = 0 ∨ drive = 1) (fits : lba < 2 ^ 48)
    (buf : Fin 512 → UInt8) (device : σ) (registers : TaskFile) :
    Addressed (readCommand lba) drive lba
        (Ata.ataReadSector (watched ports base) base drive lba buf (device, registers, [])).2.2.2.2 ∧
      Addressed (writeCommand lba) drive lba
        (Ata.ataWriteSector (watched ports base).toPorts base drive lba buf (device, registers, [])).2.2.2 ∧
      Addressed ataCmdReadExt drive lba
        (ataReadSectorLba48 (watched ports base) base drive lba buf (device, registers, [])).2.2.2.2 ∧
      Addressed ataCmdWriteExt drive lba
        (ataWriteSectorLba48 (watched ports base).toPorts base drive lba buf (device, registers, [])).2.2.2 := by
  have none (code : UInt8) : OnlyFor code drive lba [] := List.forall_mem_nil _
  refine ⟨⟨?_, readAttempts_only ports base one fits retries buf (none _)⟩, ?_, ?_, ?_⟩
  · have first : (readAttempt (watched ports base) base drive lba buf (device, registers, [])).2.2.2.2 = _ :=
      readAttempt_watched ports base one fits buf
    unfold Ata.ataReadSector retries readAttempts
    generalize readAttempt (watched ports base) base drive lba buf (device, registers, []) = attempt at first
    have issued : (readCommand lba, some ⟨drive.toNat, lba, 1⟩) ∈ attempt.2.2.2.2 := first ▸ List.mem_cons_self
    refine ⟨(readCommand lba, some ⟨drive.toNat, lba, 1⟩), ?_, readCommand_ne lba⟩
    dsimp only
    split
    · exact issued
    · exact readAttempts_keep ports base one fits 2 attempt.2.1 issued
  · unfold Ata.ataWriteSector writeCommand
    by_cases short : lba < 2 ^ 28
    · rw [if_neg (show ¬0x10000000 ≤ lba by omega), if_pos short]
      exact transfer_only ports base buf (issue28_watched ports base one short (.inr rfl)) (by decide) (none _)
    · rw [if_pos (show 0x10000000 ≤ lba by omega), if_neg short]
      exact transfer_only ports base buf (issue48_watched ports base one fits (.inr rfl)) (by decide) (none _)
  · have issued : (issueReadLba48 (watched ports base) base drive lba (device, registers, [])).2.2 = _ :=
      issue48_watched ports base one fits (.inl rfl : ataCmdReadExt = ataCmdReadExt ∨ _)
    unfold Addressed ataReadSectorLba48
    rw [receive_watched, issued]
    exact ⟨⟨_, List.mem_cons_self, show ataCmdReadExt ≠ ataCmdFlush by decide⟩, (none _).issued⟩
  · exact transfer_only ports base buf (issue48_watched ports base one fits (.inr rfl)) (by decide) (none _)

/-- A drive that is ready at once, and answers zeros. -/
def readyDrive : ReadPorts Unit where
  inb _ _ := (ataStatusDrq, ())
  outb _ _ _ := ()
  outw _ _ _ := ()
  inw _ _ := (0, ())

/-- The first sector that needs the long commands, on the second drive. -/
theorem ata_sectors_addressed_long :
    Addressed ataCmdReadExt 1 0x10000000 (Ata.ataReadSector (watched readyDrive 0x1F0) 0x1F0 1 0x10000000 (fun _ => 0)
      ((), ⟨⟨0, 0⟩, ⟨0, 0⟩, ⟨0, 0⟩, ⟨0, 0⟩, 0⟩, [])).2.2.2.2 :=
  (ata_sectors_addressed readyDrive 0x1F0 (.inr rfl : (1 : UInt8) = 0 ∨ _) (show 0x10000000 < 2 ^ 48 by decide) _ _ _).1

end Kernix.Proofs
