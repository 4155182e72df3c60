import Kernix.Drivers.Partitions
import Kernix.Lib.SlotList

/-! What one call of `partitions_init` leaves in the table. Each call starts the table
anew, so the table holds the partitions of the drive that was probed last. Disks with an
MBR and disks with a GPT both have the signature of a boot sector, which is looked at first,
so the entries of a GPT are never read from a disk that is made as it is to be. -/

namespace Kernix.Proofs
open ByteMemory

/-- A table that holds a list. -/
structure TableHolds (table : PartitionTable) (items : List Partition) : Prop where
  count : table.count = items.length
  slots : SlotList.Holds table.partitions items

theorem TableHolds.restarted (table : PartitionTable) : TableHolds { table with count := 0 } [] :=
  ⟨rfl, SlotList.holds_nil _⟩

/-- A table holds at most one list. -/
theorem TableHolds.unique {table : PartitionTable} {items others : List Partition} (held : TableHolds table items)
    (other : TableHolds table others) : items = others :=
  held.slots.unique other.slots (held.count.symm.trans other.count)

theorem TableHolds.push {table : PartitionTable} {items : List Partition} (held : TableHolds table items)
    (room : table.count < maxPartitions) (partition : Partition) :
    TableHolds (table.push room partition) (items ++ [partition]) := by
  obtain ⟨partitions, count⟩ := table
  obtain ⟨rfl, slots⟩ := held
  refine ⟨?_, slots.push room partition⟩
  rw [List.length_append, List.length_singleton]
  rfl

/-- The partitions of a drive are recorded with its ports and its number. -/
def RecordedAt (place : Nat × Nat) (items : List Partition) : Prop :=
  ∀ partition ∈ items, partition.ataBase = place.1 ∧ partition.ataDrive = place.2

theorem RecordedAt.push {place : Nat × Nat} {items : List Partition} (located : RecordedAt place items)
    (start size : Nat) :
    RecordedAt place (items ++ [⟨place.1, place.2, start, size⟩]) := by
  intro partition member
  rcases List.mem_append.mp member with early | last
  · exact located partition early
  · rw [List.mem_singleton.mp last]
    exact ⟨rfl, rfl⟩

/-- Two tables that hold the same partitions of a drive. -/
structure Alike (place : Nat × Nat) (table other : PartitionTable) : Prop where
  shared : ∃ items, TableHolds table items ∧ TableHolds other items ∧ RecordedAt place items

theorem Alike.count {place : Nat × Nat} {table other : PartitionTable} (alike : Alike place table other) :
    table.count = other.count := by
  obtain ⟨items, held, too, -⟩ := alike.shared
  exact held.count.trans too.count.symm

theorem Alike.push {place : Nat × Nat} {table other : PartitionTable} (alike : Alike place table other)
    (room : table.count < maxPartitions) (start size : Nat) :
    Alike place (table.push room ⟨place.1, place.2, start, size⟩)
      (other.push (alike.count ▸ room) ⟨place.1, place.2, start, size⟩) := by
  obtain ⟨items, held, too, located⟩ := alike.shared
  exact ⟨_, held.push _ _, too.push _ _, located.push _ _⟩

/-- Two runs that end in the same way, with tables that are alike. -/
def EndAlike (place : Nat × Nat) (result other : Except Stop PartitionTable) : Prop :=
  (∃ stop, result = .error stop ∧ other = .error stop) ∨
    ∃ table too, result = .ok table ∧ other = .ok too ∧ Alike place table too

theorem EndAlike.ok {place : Nat × Nat} {table other : PartitionTable} (alike : Alike place table other) :
    EndAlike place (.ok table) (.ok other) := .inr ⟨table, other, rfl, rfl, alike⟩

theorem addMbrEntry_alike {place : Nat × Nat} {mbr : Fin sectorSize → UInt8} {table other : PartitionTable} (i : Nat)
    (alike : Alike place table other) :
    Alike place (addMbrEntry place.1 place.2 mbr table i) (addMbrEntry place.1 place.2 mbr other i) := by
  unfold addMbrEntry
  by_cases room : mbrType mbr i ≠ 0 ∧ table.count < maxPartitions
  · rw [dif_pos room, dif_pos ⟨room.1, alike.count ▸ room.2⟩]
    exact alike.push room.2 _ _
  · rw [dif_neg room, dif_neg (alike.count ▸ room)]
    exact alike

theorem addMbrEntries_alike {place : Nat × Nat} {mbr : Fin sectorSize → UInt8} {table other : PartitionTable}
    (indices : List Nat) (alike : Alike place table other) :
    Alike place (indices.foldl (addMbrEntry place.1 place.2 mbr) table)
      (indices.foldl (addMbrEntry place.1 place.2 mbr) other) := by
  induction indices generalizing table other with
  | nil => exact alike
  | cons i rest ih => exact ih (addMbrEntry_alike i alike)

theorem gptLoop_alike {bank : DriveBank} {place : Nat × Nat} {arrayLba entrySize left i : Nat}
    {table other : PartitionTable} (alike : Alike place table other) :
    EndAlike place (gptLoop bank place.1 place.2 arrayLba entrySize left i table)
      (gptLoop bank place.1 place.2 arrayLba entrySize left i other) := by
  induction left generalizing i table other with
  | zero => exact .ok alike
  | succ left ih =>
    unfold gptLoop
    by_cases room : table.count < maxPartitions
    · rw [dif_pos room, dif_pos (alike.count ▸ room)]
      dsimp only
      by_cases divides : sectorSize / entrySize = 0
      · rw [if_pos divides, if_pos divides]
        exact .inl ⟨_, rfl, rfl⟩
      · rw [if_neg divides, if_neg divides]
        cases bank.sector ⟨place.1, place.2, u64 (arrayLba + i / (sectorSize / entrySize))⟩ with
        | none => exact .ok alike
        | some sector =>
          dsimp only
          split
          · exact .inl ⟨_, rfl, rfl⟩
          · split
            · exact ih alike
            · split
              · exact .inl ⟨_, rfl, rfl⟩
              · exact ih (alike.push room _ _)
    · rw [dif_neg room, dif_neg (alike.count ▸ room)]
      exact .ok alike

/-- A call forgets the table that it is called with. -/
theorem partitionsInit_alike (bank : DriveBank) (place : Nat × Nat) (table other : PartitionTable) :
    EndAlike place (partitionsInit bank place.1 place.2 table) (partitionsInit bank place.1 place.2 other) := by
  have restart : Alike place { table with count := 0 } { other with count := 0 } :=
    ⟨[], .restarted table, .restarted other, by simp [RecordedAt]⟩
  unfold partitionsInit
  dsimp only
  cases bank.sector ⟨place.1, place.2, 0⟩ with
  | none => exact .ok restart
  | some sector =>
    dsimp only
    split
    · exact .ok (addMbrEntries_alike _ restart)
    · split
      · split
        · exact .inl ⟨_, rfl, rfl⟩
        · exact gptLoop_alike restart
      · exact .ok restart

/-- The partitions of a drive: what a call puts into an empty table. -/
def DrivePartitions (bank : DriveBank) (place : Nat × Nat) (items : List Partition) : Prop :=
  ∃ table, partitionsInit bank place.1 place.2 .initial = .ok table ∧ TableHolds table items

theorem DrivePartitions.probed {bank : DriveBank} {place : Nat × Nat} {items : List Partition}
    (found : DrivePartitions bank place items) (table : PartitionTable) :
    ∃ after, partitionsInit bank place.1 place.2 table = .ok after ∧ TableHolds after items := by
  obtain ⟨first, result, held⟩ := found
  rcases partitionsInit_alike bank place .initial table with ⟨stop, stopped, -⟩ | ⟨one, after, done, same, alike⟩
  · rw [result] at stopped
    cases stopped
  · rw [result] at done
    cases done
    obtain ⟨shared, one, two, -⟩ := alike.shared
    exact ⟨after, same, one.unique held ▸ two⟩

theorem DrivePartitions.recordedAt {bank : DriveBank} {place : Nat × Nat} {items : List Partition}
    (found : DrivePartitions bank place items) : RecordedAt place items := by
  obtain ⟨first, result, held⟩ := found
  rcases partitionsInit_alike bank place .initial .initial with ⟨stop, stopped, -⟩ | ⟨one, after, done, same, alike⟩
  · rw [result] at stopped
    cases stopped
  · rw [result] at done
    cases done
    obtain ⟨shared, one, -, located⟩ := alike.shared
    exact one.unique held ▸ located

/-- The drives that `ata_init` identifies, each of them once. -/
def identifiedDrives (bank : DriveBank) (device : Option (Nat → Nat)) : List (Nat × Nat) :=
  ((probedDrives device).filter fun place => bank.identified place.1 place.2).dedup

theorem getLast?_dedup {α : Type} [DecidableEq α] (items : List α) : items.dedup.getLast? = items.getLast? := by
  induction items with
  | nil => rfl
  | cons item rest ih =>
    by_cases again : item ∈ rest
    · rw [List.dedup_cons_of_mem again, ih]
      cases rest with
      | nil => cases again
      | cons next others => rw [List.getLast?_cons_cons]
    · rw [List.dedup_cons_of_notMem again, List.getLast?_cons, List.getLast?_cons, ih]

/-- What the table holds when some places have been probed: the partitions of the last
drive there, or what it has held before. -/
theorem probes_hold {bank : DriveBank} {parts : Nat × Nat → List Partition} (places : List (Nat × Nat))
    (found : ∀ place ∈ places, bank.identified place.1 place.2 → DrivePartitions bank place (parts place))
    {table : PartitionTable} {items : List Partition} (held : TableHolds table items) :
    ∃ after, places.foldlM (probeDrive bank) table = .ok after ∧
      TableHolds after (((places.filter fun place => bank.identified place.1 place.2).getLast?.map parts).getD items) := by
  induction places generalizing table items with
  | nil => exact ⟨table, rfl, held⟩
  | cons place rest ih =>
    have later : ∀ place ∈ rest, bank.identified place.1 place.2 → DrivePartitions bank place (parts place) :=
      fun other member => found other (List.mem_cons_of_mem _ member)
    rw [List.foldlM_cons, probeDrive]
    by_cases present : bank.identified place.1 place.2
    · obtain ⟨next, probed, own⟩ := (found place List.mem_cons_self present).probed table
      obtain ⟨after, run, last⟩ := ih later own
      rw [if_pos present, probed, List.filter_cons, if_pos present, List.getLast?_cons]
      refine ⟨after, run, ?_⟩
      generalize (rest.filter fun place => bank.identified place.1 place.2).getLast? = final at last ⊢
      cases final with
      | none => exact last
      | some _ => exact last
    · rw [if_neg present, List.filter_cons, if_neg present]
      exact ih later held

/-- The table is what it is to be: the partitions of all drives, as far as they fit. -/
structure TableComplete (table : PartitionTable) (drives : List (Nat × Nat)) (parts : Nat × Nat → List Partition) :
    Prop where
  count : partitionsGetCount table = min maxPartitions (drives.flatMap parts).length
  held : TableHolds table ((drives.flatMap parts).take maxPartitions)

/-- Lists of drives with different places: the first partitions of all are those of the
last drive exactly when no other one has any. -/
theorem take_flatMap_eq_last {drives : List (Nat × Nat)} {parts : Nat × Nat → List Partition} {last : Nat × Nat}
    (located : ∀ place ∈ drives ++ [last], RecordedAt place (parts place)) (distinct : (drives ++ [last]).Nodup)
    (short : (parts last).length ≤ maxPartitions) :
    ((drives ++ [last]).flatMap parts).take maxPartitions = parts last ↔ ∀ place ∈ drives, parts place = [] := by
  rw [List.flatMap_append, List.flatMap_singleton]
  constructor
  · intro same
    by_contra occupied
    cases listed : drives.flatMap parts with
    | nil => exact occupied (List.flatMap_eq_nil_iff.mp listed)
    | cons partition rest =>
      rw [listed] at same
      obtain ⟨place, member, own⟩ := List.mem_flatMap.mp (listed ▸ List.mem_cons_self : partition ∈ drives.flatMap parts)
      have others : partition ∈ parts last := by
        rw [← same]
        exact List.mem_cons_self
      have here := located place (List.mem_append_left _ member) partition own
      have there := located last (List.mem_append_right _ (List.mem_singleton_self _)) partition others
      have equal : place = last := Prod.ext (here.1.symm.trans there.1) (here.2.symm.trans there.2)
      exact (List.nodup_append.mp distinct).2.2 place member last (List.mem_singleton_self _) equal
  · intro empty
    rw [List.flatMap_eq_nil_iff.mpr empty, List.nil_append, List.take_of_length_le short]

/-- The table holds the partitions of all drives exactly when no drive but the last one has
any. -/
theorem ata_init_complete_iff (bank : DriveBank) (device : Option (Nat → Nat)) (parts : Nat × Nat → List Partition)
    (found : ∀ place ∈ identifiedDrives bank device, DrivePartitions bank place (parts place)) :
    (∃ table, ataInit bank device .initial = .ok table ∧ TableComplete table (identifiedDrives bank device) parts) ↔
      ∀ place ∈ (identifiedDrives bank device).dropLast, parts place = [] := by
  have read : ∀ place ∈ probedDrives device, bank.identified place.1 place.2 →
    DrivePartitions bank place (parts place) := by
    intro place member present
    exact found place (List.mem_dedup.mpr (List.mem_filter.mpr ⟨member, present⟩))
  obtain ⟨after, run, held⟩ := probes_hold (probedDrives device) read (.restarted .initial)
  rw [← getLast?_dedup] at held
  change TableHolds after (((identifiedDrives bank device).getLast?.map parts).getD []) at held
  have complete : (∃ table, ataInit bank device .initial = .ok table ∧
      TableComplete table (identifiedDrives bank device) parts) ↔
      ((identifiedDrives bank device).flatMap parts).take maxPartitions =
        ((identifiedDrives bank device).getLast?.map parts).getD [] := by
    constructor
    · rintro ⟨table, done, right⟩
      obtain rfl : after = table := Except.ok.inj (run.symm.trans done)
      exact right.held.unique held
    · intro same
      refine ⟨after, run, ?_, same ▸ held⟩
      rw [partitionsGetCount, held.count, ← same, List.length_take]
  rw [complete]
  have distinct : (identifiedDrives bank device).Nodup := List.nodup_dedup _
  rcases List.eq_nil_or_concat (identifiedDrives bank device) with none | ⟨others, last, listed⟩
  · rw [none]
    simp
  · rw [List.concat_eq_append] at listed
    rw [listed] at found distinct ⊢
    rw [List.getLast?_append, List.dropLast_concat]
    have short : (parts last).length ≤ maxPartitions := by
      obtain ⟨table, -, own⟩ := found last (List.mem_append_right _ (List.mem_singleton_self _))
      exact own.slots.fits
    exact take_flatMap_eq_last (fun place member => (found place member).recordedAt) distinct short

/-- An MBR with one entry, for 100 sectors from 63 on. -/
def oneEntryMbr : Fin sectorSize → UInt8 := fun offset =>
  match offset.val with
  | 450 => 0x83
  | 454 => 63
  | 458 => 100
  | 510 => 0x55
  | 511 => 0xAA
  | _ => 0

/-- Two such drives at the primary ports. -/
def twoDrives : DriveBank := ⟨fun base _ => base == 0x1F0, fun _ => some oneEntryMbr⟩

def onePartition (place : Nat × Nat) : List Partition := [⟨place.1, place.2, 63, 100⟩]

theorem oneEntryMbr_partition (place : Nat × Nat) : DrivePartitions twoDrives place (onePartition place) := by
  have empty : TableHolds { PartitionTable.initial with count := 0 } [] := .restarted _
  exact ⟨_, rfl, empty.push (by decide) _⟩

theorem two_drives_complete_iff :
    (∃ table, ataInit twoDrives none .initial = .ok table ∧
      TableComplete table (identifiedDrives twoDrives none) onePartition) ↔
      ∀ place ∈ (identifiedDrives twoDrives none).dropLast, onePartition place = [] :=
  ata_init_complete_iff twoDrives none onePartition fun place _ => oneEntryMbr_partition place

/-- The partition of the first drive is lost. -/
theorem first_drive_lost :
    (∀ place ∈ identifiedDrives twoDrives none, DrivePartitions twoDrives place (onePartition place)) ∧
      ¬∃ table, ataInit twoDrives none .initial = .ok table ∧
        TableComplete table (identifiedDrives twoDrives none) onePartition := by
  refine ⟨fun place _ => oneEntryMbr_partition place, ?_⟩
  rintro ⟨table, done, right⟩
  obtain ⟨after, run, held⟩ := probes_hold (probedDrives none) (fun place _ _ => oneEntryMbr_partition place)
    (.restarted .initial)
  obtain rfl : after = table := Except.ok.inj (run.symm.trans done)
  exact absurd (congrArg List.length (right.held.unique held)) (by decide)

section Formats

/-- A partition of a drive, by its start and its size. -/
def partitionAt (base drive : Nat) (extent : Nat × Nat) : Partition := ⟨base, drive, extent.1, extent.2⟩

theorem partitionAt_injective (base drive : Nat) : Function.Injective (partitionAt base drive) := by
  intro extent other same
  exact Prod.ext (congrArg Partition.startLba same) (congrArg Partition.size same)

/-- The entries of an MBR whose type is not zero. -/
def mbrExtents (mbr : Fin sectorSize → UInt8) (indices : List Nat) : List (Nat × Nat) :=
  (indices.filter fun i => mbrType mbr i ≠ 0).map fun i => (mbrLbaStart mbr i, mbrSectorCount mbr i)

theorem addMbrEntries_hold {base drive : Nat} {mbr : Fin sectorSize → UInt8} (indices : List Nat) {table : PartitionTable}
    {items : List Partition} (held : TableHolds table items) (room : items.length + indices.length ≤ maxPartitions) :
    TableHolds (indices.foldl (addMbrEntry base drive mbr) table)
      (items ++ (mbrExtents mbr indices).map (partitionAt base drive)) := by
  induction indices generalizing table items with
  | nil => simpa [mbrExtents] using held
  | cons i rest ih =>
    rw [List.length_cons] at room
    have free : table.count < maxPartitions := by
      rw [held.count]
      omega
    rw [List.foldl_cons, addMbrEntry, mbrExtents]
    by_cases used : mbrType mbr i ≠ 0
    · have next := ih (held.push free ⟨base, drive, mbrLbaStart mbr i, mbrSectorCount mbr i⟩) (by
        rw [List.length_append, List.length_singleton]
        omega)
      rw [dif_pos ⟨used, free⟩, List.filter_cons, if_pos (by simpa using used)]
      rw [List.append_assoc] at next
      exact next
    · rw [dif_neg (fun both => used both.1), List.filter_cons, if_neg (by simpa using used)]
      exact ih held (by omega)

/-- A disk with the signature gives the entries of its MBR. -/
theorem partitionsInit_signed {bank : DriveBank} {base drive : Nat} {mbr : Fin sectorSize → UInt8}
    (first : bank.sector ⟨base, drive, 0⟩ = some mbr) (signed : mbrSignature mbr = 0xAA55) (table : PartitionTable) :
    ∃ after, partitionsInit bank base drive table = .ok after ∧
      TableHolds after ((mbrExtents mbr (List.range 4)).map (partitionAt base drive)) := by
  refine ⟨_, ?_, addMbrEntries_hold (List.range 4) (.restarted table) (by decide)⟩
  unfold partitionsInit
  dsimp only
  rw [first]
  exact if_pos signed

/-- No entry announces a GPT. -/
def PlainMbr (mbr : Fin sectorSize → UInt8) : Prop := ∀ i < 4, mbrType mbr i ≠ 0xEE

/-- One entry announces a GPT. -/
def ProtectiveMbr (mbr : Fin sectorSize → UInt8) : Prop :=
  ∃ i < 4, mbrType mbr i = 0xEE ∧ ∀ other < 4, other ≠ i → mbrType mbr other ≠ 0xEE

/-- A byte of a drive. -/
def driveByte (bank : DriveBank) (base drive position : Nat) : Option UInt8 :=
  (bank.sector ⟨base, drive, position / sectorSize⟩).map fun sector => sector ⟨position % sectorSize,
    mod_sectorSize_lt position⟩

abbrev gptEntrySize : Nat := 128

/-- A drive with a GPT: its header is in sector 1, and its entries lie one after the other
in the array that the header leads to. The check sums are not looked at. -/
structure GptDrive (bank : DriveBank) (base drive : Nat) (entries : List (Fin gptEntrySize → UInt8)) : Prop where
  header : ∃ gpt, bank.sector ⟨base, drive, 1⟩ = some gpt ∧ gptSignature gpt = 0x5452415020494645 ∧
    gptCurrentLba gpt = 1 ∧
    (∃ power, gptPartitionEntrySize gpt = gptEntrySize * 2 ^ power) ∧ gptPartitionCount gpt = entries.length ∧
    ∀ i (inside : i < entries.length) (j : Fin gptEntrySize),
      driveByte bank base drive (gptPartitionArrayLba gpt * sectorSize + i * gptPartitionEntrySize gpt + j) =
        some (entries[i] j)

/-- The entries of a GPT that are not empty, as far as they fit into the table. -/
def gptExtents (entries : List (Fin gptEntrySize → UInt8)) : List (Nat × Nat) :=
  ((entries.filter fun entry => ¬entryIsZero (flat entry) 0).take maxPartitions).map fun entry =>
    (entryFirstLba (flat entry) 0, entrySectors (flat entry) 0)

/-- A disk with a plain MBR gives its entries. A disk with a GPT gives the entries of its
protective MBR, which is right exactly when they are those of the GPT. -/
theorem partitions_init_formats_iff {bank : DriveBank} {base drive : Nat} {mbr : Fin sectorSize → UInt8}
    (first : bank.sector ⟨base, drive, 0⟩ = some mbr) (signed : mbrSignature mbr = 0xAA55) (table : PartitionTable) :
    ∃ after, partitionsInit bank base drive table = .ok after ∧
      (PlainMbr mbr → TableHolds after ((mbrExtents mbr (List.range 4)).map (partitionAt base drive))) ∧
      ∀ entries, ProtectiveMbr mbr → GptDrive bank base drive entries →
        (TableHolds after ((gptExtents entries).map (partitionAt base drive)) ↔
          mbrExtents mbr (List.range 4) = gptExtents entries) := by
  obtain ⟨after, done, held⟩ := partitionsInit_signed first signed table
  refine ⟨after, done, fun _ => held, fun entries _ _ => ⟨fun right => ?_, fun same => same ▸ held⟩⟩
  exact (List.map_injective_iff.mpr (partitionAt_injective base drive)) (held.unique right)

/-- The header of a disk of 2048 sectors, whose array of 128 entries lies in sectors 2 to
33, with its check sums. -/
def headerBytes : List UInt8 :=
  [69, 70, 73, 32, 80, 65, 82, 84, 0, 0, 1, 0, 92, 0, 0, 0, 226, 42, 200, 247, 0, 0, 0, 0, 1, 0, 0, 0, 0, 0,
    0, 0, 255, 7, 0, 0, 0, 0, 0, 0, 34, 0, 0, 0, 0, 0, 0, 0, 222, 7, 0, 0, 0, 0, 0, 0, 153, 153, 153, 153, 136,
    136, 119, 119, 102, 102, 85, 85, 85, 85, 85, 85, 2, 0, 0, 0, 0, 0, 0, 0, 128, 0, 0, 0, 128, 0, 0, 0, 187,
    210, 60, 190]

/-- The first entry, for the sectors 34 to 2014. -/
def entryBytes : List UInt8 :=
  [175, 61, 198, 15, 131, 132, 114, 71, 142, 121, 61, 105, 216, 71, 125, 228, 17, 17, 17, 17, 34, 34, 51, 51,
    68, 68, 85, 85, 85, 85, 85, 85, 34, 0, 0, 0, 0, 0, 0, 0, 222, 7, 0, 0, 0, 0, 0, 0]

/-- The bytes of the disk: a protective MBR, the header and the array. -/
def gptDiskByte (position : Nat) : UInt8 :=
  if position < 512 then
    match position with
    | 450 => 0xEE
    | 454 => 1
    | 458 => 0xFF
    | 459 => 7
    | 510 => 0x55
    | 511 => 0xAA
    | _ => 0
  else if position < 1024 then headerBytes.getD (position - 512) 0
  else entryBytes.getD (position - 1024) 0

def gptDisk : DriveBank := ⟨fun _ _ => true,
    fun place => some fun offset => gptDiskByte (place.lba * sectorSize + offset)⟩

def gptDiskEntries : List (Fin gptEntrySize → UInt8) := (fun j => entryBytes.getD j 0) :: List.replicate 127 fun _ => 0

theorem gptDisk_byte (base drive position : Nat) :
    driveByte gptDisk base drive position = some (gptDiskByte position) := by
  have whole : position / sectorSize * sectorSize + position % sectorSize = position := by
    rw [Nat.mul_comm]
    exact Nat.div_add_mod position sectorSize
  exact congrArg (fun place => some (gptDiskByte place)) whole

theorem gptDisk_entry {i : Nat} (inside : i < gptDiskEntries.length) (j : Fin gptEntrySize) :
    gptDiskByte (2 * sectorSize + i * gptEntrySize + j) = gptDiskEntries[i] j := by
  have bound := j.isLt
  have sizes : 2 * sectorSize + i * gptEntrySize + j.val = 1024 + (i * 128 + j.val) := Nat.add_assoc 1024 (i * 128) j
  rw [sizes]
  unfold gptDiskByte
  rw [if_neg (by omega), if_neg (by omega), Nat.add_sub_cancel_left]
  cases i with
  | zero =>
    rw [Nat.zero_mul, Nat.zero_add]
    rfl
  | succ i =>
    have short : entryBytes.length = 48 := rfl
    have empty : gptDiskEntries[i + 1] = fun _ => 0 := by
      simp only [gptDiskEntries, List.getElem_cons_succ, List.getElem_replicate]
    rw [empty, List.getD_eq_getElem?_getD, List.getElem?_eq_none (by omega)]
    rfl

theorem gptDisk_valid : GptDrive gptDisk 0x1F0 0 gptDiskEntries := by
  have length : gptDiskEntries.length = 128 := by simp [gptDiskEntries]
  refine ⟨_, rfl, rfl, rfl, ⟨0, rfl⟩, length.symm ▸ rfl, ?_⟩
  intro i inside j
  rw [gptDisk_byte]
  exact congrArg some (gptDisk_entry inside j)

theorem gptDisk_protective : ProtectiveMbr fun offset => gptDiskByte (0 * sectorSize + offset) :=
  ⟨0, by decide, rfl, by decide⟩

theorem gptDisk_formats_iff :
    ∃ after, partitionsInit gptDisk 0x1F0 0 .initial = .ok after ∧
      (PlainMbr (fun offset => gptDiskByte (0 * sectorSize + offset)) → TableHolds after
        ((mbrExtents (fun offset => gptDiskByte (0 * sectorSize + offset)) (List.range 4)).map (partitionAt 0x1F0 0))) ∧
      ∀ entries, ProtectiveMbr (fun offset => gptDiskByte (0 * sectorSize + offset)) → GptDrive gptDisk 0x1F0 0 entries →
        (TableHolds after ((gptExtents entries).map (partitionAt 0x1F0 0)) ↔
          mbrExtents (fun offset => gptDiskByte (0 * sectorSize + offset)) (List.range 4) = gptExtents entries) :=
  partitions_init_formats_iff rfl rfl .initial

/-- The entry of the GPT is not in the table. -/
theorem gpt_entry_not_registered :
    ProtectiveMbr (fun offset => gptDiskByte (0 * sectorSize + offset)) ∧ GptDrive gptDisk 0x1F0 0 gptDiskEntries ∧
      ¬∃ after, partitionsInit gptDisk 0x1F0 0 .initial = .ok after ∧
        TableHolds after ((gptExtents gptDiskEntries).map (partitionAt 0x1F0 0)) := by
  refine ⟨gptDisk_protective, gptDisk_valid, ?_⟩
  rintro ⟨after, done, right⟩
  obtain ⟨table, result, held⟩ := @partitionsInit_signed gptDisk 0x1F0 0 _ rfl rfl .initial
  obtain rfl : table = after := Except.ok.inj (result.symm.trans done)
  have same := (List.map_injective_iff.mpr (partitionAt_injective 0x1F0 0)) (held.unique right)
  exact absurd same (by decide)

end Formats

end Kernix.Proofs
