import Kernix.Proofs.PartitionProbes

/-! What a GPT of any content makes `partitions_init` do, and what its partitions reach. The
sizes and the addresses of the table are used as they are. -/

namespace Kernix.Proofs
open ByteMemory

/-- A sector of a partition. -/
def OwnSector (partition : Partition) (place : SectorAt) : Prop :=
  place.base = partition.ataBase ∧ place.drive = partition.ataDrive ∧ partition.startLba ≤ place.lba ∧
    place.lba < partition.startLba + partition.size

/-- Whatever the drives hold, a write through a partition leaves the sectors of others alone,
and a read does not depend on them. -/
structure StaysInside (partition : Partition) : Prop where
  write : ∀ (disk : Disk) (index : Int), partitionsGet disk index = some partition → ∀ lba bytes place,
    ¬OwnSector partition place →
      (partitionsWriteSector disk index lba bytes).2.drives.sectors place = disk.drives.sectors place
  read : ∀ (disk : Disk) (index : Int), partitionsGet disk index = some partition →
    ∀ lba (sectors : SectorAt → Fin sectorSize → UInt8),
    (∀ place, OwnSector partition place → sectors place = disk.drives.sectors place) →
      (partitionsReadSector { disk with drives := { disk.drives with sectors } } index lba).2.1 =
        (partitionsReadSector disk index lba).2.1

/-- The addresses that reach the drive are those of the partition. -/
def ReachesOwn (partition : Partition) : Prop :=
  ∀ lba < partition.size, partition.startLba ≤ ataAddress (u64 (partition.startLba + lba)) ∧
    ataAddress (u64 (partition.startLba + lba)) < partition.startLba + partition.size

theorem ReachesOwn.staysInside {partition : Partition} (reaches : ReachesOwn partition) : StaysInside partition := by
  constructor
  · intro disk index found lba bytes place foreign
    unfold partitionsWriteSector
    rw [found]
    dsimp only
    by_cases outside : partition.size ≤ lba
    · rw [if_pos outside]
    · rw [if_neg outside]
      have inside := reaches lba (by omega)
      have other : place ≠ ⟨partition.ataBase, partition.ataDrive, ataAddress (u64 (partition.startLba + lba))⟩ := by
        rintro rfl
        exact foreign ⟨rfl, rfl, inside⟩
      unfold ataWriteSector
      dsimp only
      split
      · exact Function.update_of_ne other _ _
      · rfl
      · exact Function.update_of_ne other _ _
  · intro disk index found lba sectors same
    have again : partitionsGet { disk with drives := { disk.drives with sectors } } index = some partition := found
    unfold partitionsReadSector
    rw [found, again]
    dsimp only
    by_cases outside : partition.size ≤ lba
    · rw [if_pos outside, if_pos outside]
    · rw [if_neg outside, if_neg outside]
      have inside := reaches lba (by omega)
      unfold ataReadSector
      dsimp only
      split
      · exact same _ ⟨rfl, rfl, inside⟩
      · rfl

/-- A drive full of zeros, with one partition. -/
private def blankDisk (partition : Partition) : Disk :=
    ⟨fun _ => ⟨0, fun _ => 0⟩, [partition], ⟨fun _ _ => 0, fun _ => .done, 0⟩⟩

theorem StaysInside.reachesOwn {partition : Partition} (stays : StaysInside partition) : ReachesOwn partition := by
  intro lba inside
  by_contra outside
  have foreign : ¬OwnSector partition ⟨partition.ataBase, partition.ataDrive,
    ataAddress (u64 (partition.startLba + lba))⟩ :=
    fun own => outside own.2.2
  have kept := stays.write (blankDisk partition) 0 rfl lba (fun _ => 1) _ foreign
  have written : (partitionsWriteSector (blankDisk partition) 0 lba fun _ => 1).2.drives.sectors
      ⟨partition.ataBase, partition.ataDrive, ataAddress (u64 (partition.startLba + lba))⟩ = fun _ => 1 := by
    change (if partition.size ≤ lba then _ else _ : Int × Disk).2.drives.sectors _ = _
    rw [if_neg (by omega)]
    exact Function.update_self _ _ _
  rw [written] at kept
  have same : (1 : UInt8) = 0 := congrFun kept ⟨0, by decide⟩
  exact absurd same (by decide)

theorem staysInside_iff (partition : Partition) : StaysInside partition ↔ ReachesOwn partition :=
  ⟨StaysInside.reachesOwn, ReachesOwn.staysInside⟩

/-! An entry that the loop over a GPT gets to: the sector that was read, and the offset there. -/

structure GptEntry where
  sector : Fin sectorSize → UInt8
  offset : Nat

namespace GptEntry

def used (entry : GptEntry) : Bool := ¬entryIsZero (flat entry.sector) entry.offset
def firstLba (entry : GptEntry) : Nat := entryFirstLba (flat entry.sector) entry.offset
def lastLba (entry : GptEntry) : Nat := entryLastLba (flat entry.sector) entry.offset

def partition (entry : GptEntry) (base drive : Nat) : Partition :=
  ⟨base, drive, entry.firstLba, entrySectors (flat entry.sector) entry.offset⟩

end GptEntry

/-- The entries that the loop gets to, from the one at `i` on: up to the last, to a sector that
cannot be read, and until there is no more room for a used one. -/
def gptVisited (bank : DriveBank) (base drive arrayLba entrySize : Nat) : Nat → Nat → Nat → List GptEntry
  | 0, _, _ => []
  | left + 1, i, room =>
    if room = 0 then []
    else
      match bank.sector ⟨base, drive, u64 (arrayLba + i / (sectorSize / entrySize))⟩ with
      | none => []
      | some sector =>
        let entry : GptEntry := ⟨sector, i % (sectorSize / entrySize) * entrySize⟩
        entry :: gptVisited bank base drive arrayLba entrySize left (i + 1) (if entry.used then room - 1 else room)

/-- What the code reads of an entry lies in its sector. -/
def EntryInside (entry : GptEntry) : Prop :=
  entry.offset + 16 ≤ sectorSize ∧ (entry.used → entry.offset + 48 ≤ sectorSize)

/-- The room that is left behind one more partition. -/
theorem room_left (items : List Partition) (partition : Partition) :
    maxPartitions - items.length - 1 = maxPartitions - (items ++ [partition]).length := by
  rw [List.length_append, List.length_singleton, Nat.sub_sub]

/-- The loop comes to its end when what it reads lies inside the sectors, and puts the used
entries into the table. -/
theorem gptLoop_holds {bank : DriveBank} {base drive arrayLba entrySize : Nat} (divides : sectorSize / entrySize ≠ 0)
    {left i : Nat} {table : PartitionTable} {items : List Partition} (held : TableHolds table items)
    (inside : ∀ entry ∈ gptVisited bank base drive arrayLba entrySize left i (maxPartitions - items.length),
      EntryInside entry) :
    ∃ after, gptLoop bank base drive arrayLba entrySize left i table = .ok after ∧
      TableHolds after (items ++ ((gptVisited bank base drive arrayLba entrySize left i
        (maxPartitions - items.length)).filter GptEntry.used).map fun entry => entry.partition base drive) := by
  induction left generalizing i table items with
  | zero => exact ⟨table, rfl, by simpa [gptVisited] using held⟩
  | succ left ih =>
    have count := held.count
    unfold gptLoop
    unfold gptVisited at inside ⊢
    by_cases room : table.count < maxPartitions
    · rw [dif_pos room]
      dsimp only
      rw [if_neg divides]
      rw [if_neg (by omega)] at inside ⊢
      cases sectors : bank.sector ⟨base, drive, u64 (arrayLba + i / (sectorSize / entrySize))⟩ with
      | none => exact ⟨table, rfl, by simpa using held⟩
      | some sector =>
        rw [sectors] at inside
        dsimp only at inside ⊢
        generalize i % (sectorSize / entrySize) * entrySize = offset at inside ⊢
        obtain ⟨guid, fields⟩ := inside _ List.mem_cons_self
        have later := fun entry member => inside entry (List.mem_cons_of_mem _ member)
        dsimp only at guid fields
        rw [if_neg (by omega)]
        by_cases zero : entryIsZero (flat sector) offset
        · have unused : GptEntry.used ⟨sector, offset⟩ = false := by simpa [GptEntry.used] using zero
          rw [if_pos zero, List.filter_cons_of_neg (by simpa using unused)]
          rw [unused] at later ⊢
          exact ih held later
        · have used : GptEntry.used ⟨sector, offset⟩ = true := by simpa [GptEntry.used] using zero
          have whole := fields used
          have pushed := held.push room ⟨base, drive, entryFirstLba (flat sector) offset,
            entrySectors (flat sector) offset⟩
          rw [if_neg zero, if_neg (by omega), List.filter_cons_of_pos used, List.map_cons, List.append_cons]
          rw [used, if_pos rfl, room_left items ⟨base, drive, entryFirstLba (flat sector) offset,
            entrySectors (flat sector) offset⟩]
            at later ⊢
          exact ih pushed later
    · rw [dif_neg room, if_pos (by omega)]
      exact ⟨table, rfl, by simpa using held⟩

/-- An entry is registered as it says. -/
structure EntryRight (entry : GptEntry) (partition : Partition) : Prop where
  ordered : entry.firstLba ≤ entry.lastLba
  start : partition.startLba = entry.firstLba
  size : partition.size = entry.lastLba - entry.firstLba + 1

/-- The bounds of an entry whose sectors the drive can address, with a size that is a number. -/
structure BoundsFine (entry : GptEntry) : Prop where
  ordered : entry.firstLba ≤ entry.lastLba
  counted : entry.lastLba - entry.firstLba + 1 < 2 ^ 64
  addressed : entry.lastLba < 2 ^ 48 ∨ entry.firstLba = 0

/-- A partition that begins at an address that the drive has reaches its own sectors as long
as the addresses do not wrap, or it has all those that they wrap to. -/
theorem reachesOwn_iff (base drive : Nat) {first size : Nat} (some : 0 < size) (bound : first + size ≤ 2 ^ 64) :
    ReachesOwn ⟨base, drive, first, size⟩ ↔ first + size ≤ 2 ^ 48 ∨ first = 0 := by
  unfold ReachesOwn ataAddress
  dsimp only
  constructor
  · intro reaches
    by_contra wide
    obtain ⟨far, low⟩ := not_or.mp wide
    rcases Nat.lt_or_ge first (2 ^ 48) with below | beyond
    · have wrapped := (reaches (2 ^ 48 - first) (by omega)).1
      rw [Nat.add_sub_cancel' (Nat.le_of_lt below), show u64 (2 ^ 48) % 2 ^ 48 = 0 by decide] at wrapped
      omega
    · have wrapped := (reaches 0 some).1
      rw [Nat.add_zero, u64_eq (by omega)] at wrapped
      omega
  · intro narrow lba inside
    rw [u64_eq (by omega)]
    rcases narrow with near | rfl
    · rw [Nat.mod_eq_of_lt (by omega)]
      omega
    · have small := Nat.mod_le (0 + lba) (2 ^ 48)
      omega

theorem boundsFine_iff (entry : GptEntry) (base drive : Nat) :
    EntryRight entry (entry.partition base drive) ∧ StaysInside (entry.partition base drive) ↔ BoundsFine entry := by
  have first : entry.firstLba < 2 ^ 64 := load_lt _ _ 8
  have last : entry.lastLba < 2 ^ 64 := load_lt _ _ 8
  have sectors : (entry.partition base drive).size = u64 (u64Sub entry.lastLba entry.firstLba + 1) := rfl
  rw [staysInside_iff]
  constructor
  · rintro ⟨right, reaches⟩
    have ordered := right.ordered
    have size := right.size
    have small : (entry.partition base drive).size < 2 ^ 64 := sectors ▸ u64_lt _
    have own : entry.partition base drive = ⟨base, drive, entry.firstLba, entry.lastLba - entry.firstLba + 1⟩ := by
      rw [← size]
      rfl
    rw [own, reachesOwn_iff base drive (by omega) (by omega)] at reaches
    exact ⟨ordered, by omega, by omega⟩
  · intro fine
    have ordered := fine.ordered
    have counted := fine.counted
    have size : (entry.partition base drive).size = entry.lastLba - entry.firstLba + 1 := by
      rw [sectors, u64Sub_eq last ordered, u64_eq counted]
    have own : entry.partition base drive = ⟨base, drive, entry.firstLba, entry.lastLba - entry.firstLba + 1⟩ := by
      rw [← size]
      rfl
    refine ⟨⟨ordered, rfl, size⟩, ?_⟩
    rw [own, reachesOwn_iff base drive (by omega) (by omega)]
    have addressed := fine.addressed
    omega

/-- The partitions of an MBR lie below any bound of the addresses. -/
theorem mbrExtents_stay {base drive : Nat} {mbr : Fin sectorSize → UInt8} {indices : List Nat} {partition : Partition}
    (member : partition ∈ (mbrExtents mbr indices).map (partitionAt base drive)) : StaysInside partition := by
  obtain ⟨extent, listed, rfl⟩ := List.mem_map.mp member
  obtain ⟨i, _, rfl⟩ := List.mem_map.mp listed
  have start : mbrLbaStart mbr i < 2 ^ 32 := load_lt _ _ 4
  have count : mbrSectorCount mbr i < 2 ^ 32 := load_lt _ _ 4
  rw [staysInside_iff]
  intro lba inside
  simp only [partitionAt] at inside ⊢
  unfold ataAddress
  rw [u64_eq (by omega), Nat.mod_eq_of_lt (by omega)]
  omega

/-- The first sector of the drive is taken for the header of a GPT. -/
structure GptSector (bank : DriveBank) (base drive : Nat) (gpt : Fin sectorSize → UInt8) : Prop where
  read : bank.sector ⟨base, drive, 0⟩ = some gpt
  unsigned : mbrSignature gpt ≠ 0xAA55
  signed : gptSignature gpt = 0x5452415020494645

/-- The entries that a call gets to. -/
def gptEntriesOf (bank : DriveBank) (base drive : Nat) (gpt : Fin sectorSize → UInt8) : List GptEntry :=
  gptVisited bank base drive (gptPartitionArrayLba gpt) (gptPartitionEntrySize gpt)
    (gptPartitionCount gpt) 0 maxPartitions

/-- A call returns, it has read entries inside their sectors only, and registered them as
they say; and no partition reaches the sectors of others. -/
def InitSafe (bank : DriveBank) (base drive : Nat) (table : PartitionTable) : Prop :=
  ∃ after items, partitionsInit bank base drive table = .ok after ∧ TableHolds after items ∧
    (∀ partition ∈ items, StaysInside partition) ∧
    ∀ gpt, GptSector bank base drive gpt → (∀ entry ∈ gptEntriesOf bank base drive gpt, EntryInside entry) ∧
      items = ((gptEntriesOf bank base drive gpt).filter GptEntry.used).map (fun entry => entry.partition base drive) ∧
      ∀ entry ∈ (gptEntriesOf bank base drive gpt).filter GptEntry.used, EntryRight entry (entry.partition base drive)

/-- A header and entries that nothing goes wrong with. -/
structure GptFine (bank : DriveBank) (base drive : Nat) (gpt : Fin sectorSize → UInt8) : Prop where
  sized : gptPartitionEntrySize gpt ≠ 0
  several : gptPartitionCount gpt ≠ 0 → gptPartitionEntrySize gpt ≤ sectorSize
  inside : ∀ entry ∈ gptEntriesOf bank base drive gpt, EntryInside entry
  bounds : ∀ entry ∈ (gptEntriesOf bank base drive gpt).filter GptEntry.used, BoundsFine entry

/-- With a header in its first sector a call runs the loop. -/
theorem GptSector.init {bank : DriveBank} {base drive : Nat} {gpt : Fin sectorSize → UInt8}
    (header : GptSector bank base drive gpt)
    (table : PartitionTable) : partitionsInit bank base drive table =
      if gptPartitionEntrySize gpt = 0 then .error .undefined
      else gptLoop bank base drive (gptPartitionArrayLba gpt) (gptPartitionEntrySize gpt) (gptPartitionCount gpt) 0
        { table with count := 0 } := by
  unfold partitionsInit
  dsimp only
  rw [header.read]
  dsimp only
  rw [if_neg header.unsigned, if_pos header.signed]

theorem InitSafe.fine {bank : DriveBank} {base drive : Nat} {table : PartitionTable}
    (safe : InitSafe bank base drive table)
    {gpt : Fin sectorSize → UInt8} (header : GptSector bank base drive gpt) : GptFine bank base drive gpt := by
  obtain ⟨after, items, result, held, stays, right⟩ := safe
  obtain ⟨inside, registered, entries⟩ := right gpt header
  rw [header.init] at result
  by_cases zero : gptPartitionEntrySize gpt = 0
  · rw [if_pos zero] at result
    cases result
  rw [if_neg zero] at result
  refine ⟨zero, fun some => ?_, inside, fun entry member => ?_⟩
  · by_contra large
    obtain ⟨left, counted⟩ := Nat.exists_eq_succ_of_ne_zero some
    rw [counted, gptLoop, dif_pos (show 0 < maxPartitions by decide), Nat.div_eq_of_lt (by omega)] at result
    cases result
  · refine (boundsFine_iff entry base drive).mp ⟨entries entry member, stays _ ?_⟩
    rw [registered]
    exact List.mem_map_of_mem member

/-- A call is safe exactly when its first sector is no header of a GPT, or a fine one. -/
theorem init_safe_iff (bank : DriveBank) (base drive : Nat) (table : PartitionTable) :
    InitSafe bank base drive table ↔ ∀ gpt, GptSector bank base drive gpt → GptFine bank base drive gpt := by
  refine ⟨fun safe gpt header => safe.fine header, fun fine => ?_⟩
  cases first : bank.sector ⟨base, drive, 0⟩ with
  | none =>
    refine ⟨_, [], ?_, .restarted table, fun partition member => (List.not_mem_nil member).elim, fun gpt header => ?_⟩
    · unfold partitionsInit
      dsimp only
      rw [first]
    · cases first.symm.trans header.read
  | some sector =>
    by_cases signed : mbrSignature sector = 0xAA55
    · obtain ⟨after, result, held⟩ := partitionsInit_signed first signed table
      refine ⟨after, _, result, held, fun partition member => mbrExtents_stay member, fun gpt header => ?_⟩
      cases first.symm.trans header.read
      exact absurd signed header.unsigned
    by_cases header : gptSignature sector = 0x5452415020494645
    · have known : GptSector bank base drive sector := ⟨first, signed, header⟩
      obtain ⟨sized, several, inside, bounds⟩ := fine sector known
      have loops : ∃ after, gptLoop bank base drive (gptPartitionArrayLba sector) (gptPartitionEntrySize sector)
          (gptPartitionCount sector) 0 { table with count := 0 } = .ok after ∧
            TableHolds after (((gptEntriesOf bank base drive sector).filter GptEntry.used).map fun entry =>
              entry.partition base drive) := by
        by_cases none : gptPartitionCount sector = 0
        · unfold gptEntriesOf
          rw [none]
          exact ⟨_, rfl, .restarted table⟩
        · have divides : sectorSize / gptPartitionEntrySize sector ≠ 0 :=
            (Nat.div_pos (several none) (Nat.pos_of_ne_zero sized)).ne'
          exact gptLoop_holds divides (.restarted table) inside
      obtain ⟨after, result, held⟩ := loops
      refine ⟨after, _, ?_, held, fun partition member => ?_, fun gpt other => ?_⟩
      · rw [known.init, if_neg sized]
        exact result
      · obtain ⟨entry, listed, rfl⟩ := List.mem_map.mp member
        exact ((boundsFine_iff entry base drive).mpr (bounds entry listed)).2
      · cases first.symm.trans other.read
        exact ⟨inside, rfl, fun entry listed => ((boundsFine_iff entry base drive).mpr (bounds entry listed)).1⟩
    · refine ⟨_, [], ?_, .restarted table, fun partition member => (List.not_mem_nil member).elim, fun gpt other => ?_⟩
      · unfold partitionsInit
        dsimp only
        rw [first]
        dsimp only
        rw [if_neg signed, if_neg header]
      · cases first.symm.trans other.read
        exact absurd other.signed header

/-- A header in sector 0, with one entry in sector 1 from sector 100 to sector 50. -/
def reversedGpt : DriveBank := ⟨fun _ _ => true, fun place =>
  if place.lba = 0 then
    some (cut (store (store (store (store (fun _ => 0) 0 8 0x5452415020494645) 72 8 1) 80 4 1) 84 4 128))
  else some (cut (store (store (store (fun _ => 0) 0 1 1) 32 8 100) 40 8 50))⟩

/-- The number of the partitions, and the bounds of the first. -/
private def firstRegistered : Except Stop PartitionTable → Option (Nat × Nat × Nat)
  | .ok table => some (table.count, (table.partitions ⟨0, by decide⟩).startLba, (table.partitions ⟨0, by decide⟩).size)
  | .error _ => none

/-- The partition is registered with 2^64 - 49 sectors. -/
theorem reversed_registered : ∃ after, partitionsInit reversedGpt 0x1F0 0 .initial = .ok after ∧ after.count = 1 ∧
    (after.partitions ⟨0, by decide⟩).startLba = 100 ∧ (after.partitions ⟨0, by decide⟩).size = 18446744073709551567 ∧
    ¬InitSafe reversedGpt 0x1F0 0 .initial := by
  have registers : firstRegistered (partitionsInit reversedGpt 0x1F0 0 .initial) =
    some (1, 100, 18446744073709551567) := by
    decide +kernel
  cases result : partitionsInit reversedGpt 0x1F0 0 .initial with
  | error stop =>
    rw [result] at registers
    cases registers
  | ok after =>
    rw [result] at registers
    simp only [firstRegistered, Option.some.injEq, Prod.mk.injEq] at registers
    obtain ⟨count, start, size⟩ := registers
    refine ⟨after, rfl, count, start, size, ?_⟩
    rintro ⟨table, items, again, held, stays, _⟩
    cases result.symm.trans again
    have one : items.length = 1 := held.count.symm.trans count
    have slot := held.slots.slot 0 (by omega)
    have reaches := (stays _ (List.getElem_mem (show 0 < items.length by omega))).reachesOwn (2 ^ 48 - 100)
    rw [← slot, start, size] at reaches
    have wrapped := (reaches (by decide)).1
    exact absurd wrapped (by decide)

end Kernix.Proofs
