import Kernix.Proofs.BlockStrings

/-! A directory block as the list of its entries. An entry that is appended is found
behind the others, whatever bytes the numbers of the inodes have. -/

namespace Kernix.Proofs
open ByteMemory

/-- An entry of a directory: a name, and the number of an inode as a `u32`. -/
structure DirEntry where
  name : List UInt8
  inodeNum : Nat
  named : name ≠ []
  clean : 0 ∉ name
  small : inodeNum < 2 ^ 32

/-- A `u32` in memory. -/
def numberBytes (number : Nat) : List UInt8 := (List.range 4).map fun offset => UInt8.ofNat (number / 256 ^ offset)

def DirEntry.bytes (entry : DirEntry) : List UInt8 := entry.name ++ 0 :: numberBytes entry.inodeNum

/-- A block is a sequence of entries, with zeros behind it. -/
def BlockHolds {size : Nat} (block : Fin size → UInt8) (entries : List DirEntry) : Prop :=
  ∃ zeros, List.ofFn block = entries.flatMap DirEntry.bytes ++ List.replicate zeros 0

theorem numberBytes_length (number : Nat) : (numberBytes number).length = 4 := by
  rw [numberBytes, List.length_map, List.length_range]

theorem DirEntry.bytes_length (entry : DirEntry) : entry.bytes.length = entry.name.length + 5 := by
  rw [bytes, List.length_append, List.length_cons, numberBytes_length]

theorem flat_eq {size : Nat} (block : Fin size → UInt8) (position : Nat) :
    flat block position = (List.ofFn block)[position]?.getD 0 := by
  unfold flat
  split
  next inside => rw [List.getElem?_eq_getElem (by simpa using inside), List.getElem_ofFn, Option.getD_some]
  next outside => rw [List.getElem?_eq_none (by simpa using outside), Option.getD_none]

section
variable {size position : Nat} {block : Fin size → UInt8}

/-- A string that the bytes from a position on start with. -/
theorem textAt_drop {found rest : List UInt8} (bytes : (List.ofFn block).drop position = found ++ 0 :: rest)
    (clean : 0 ∉ found) : textAt block position = .ok found := by
  unfold textAt
  dsimp only
  rw [bytes, if_pos (by simp), takeWhile_clean clean]

/-- A number that the bytes from a position on start with. -/
theorem numberAt_drop {number : Nat} {rest : List UInt8} (small : number < 2 ^ 32)
    (bytes : (List.ofFn block).drop position = numberBytes number ++ rest) : numberAt block position = .ok number := by
  have room := congrArg List.length bytes
  rw [List.length_drop, List.length_ofFn, List.length_append, numberBytes_length] at room
  unfold numberAt
  rw [if_pos (by omega)]
  congr 1
  have loaded : load (flat block) position 4 = number % 256 ^ 4 := by
    apply load_bytes
    intro offset inside
    have within : offset < (numberBytes number).length := by rwa [numberBytes_length]
    rw [flat_eq, ← List.getElem?_drop, bytes, List.getElem?_append_left within, List.getElem?_eq_getElem within]
    simp [numberBytes]
  rw [loaded]
  exact Nat.mod_eq_of_lt small

/-- The parts of the first entry, and what lies behind it. -/
theorem entry_parts {entry : DirEntry} {entries : List DirEntry} {rest : List UInt8}
    (bytes : (List.ofFn block).drop position = (entry :: entries).flatMap DirEntry.bytes ++ rest) :
    (List.ofFn block).drop position =
        entry.name ++ 0 :: (numberBytes entry.inodeNum ++ (entries.flatMap DirEntry.bytes ++ rest)) ∧
      (List.ofFn block).drop (position + entry.name.length + 5) = entries.flatMap DirEntry.bytes ++ rest := by
  rw [List.flatMap_cons, List.append_assoc] at bytes
  constructor
  · rw [bytes, DirEntry.bytes, List.append_assoc, List.cons_append]
  · rw [Nat.add_assoc, ← entry.bytes_length, ← List.drop_drop, bytes, List.drop_left]

/-- The walk over the entries ends behind them, at the first zero. -/
theorem entriesEnd_holds {entries : List DirEntry} {zeros fuel : Nat} (enough : entries.length < fuel)
    (bytes : (List.ofFn block).drop position = entries.flatMap DirEntry.bytes ++ List.replicate (zeros + 1) 0) :
    entriesEnd block fuel position = .ok (position + (entries.flatMap DirEntry.bytes).length) := by
  induction entries generalizing position fuel with
  | nil =>
    obtain ⟨fuel, rfl⟩ : ∃ rest, fuel = rest + 1 := ⟨fuel - 1, by omega⟩
    rw [entriesEnd, textAt_drop bytes List.not_mem_nil]
    rfl
  | cons entry entries ih =>
    obtain ⟨fuel, rfl⟩ : ∃ rest, fuel = rest + 1 := ⟨fuel - 1, by omega⟩
    obtain ⟨here, behind⟩ := entry_parts bytes
    rw [entriesEnd, textAt_drop here entry.clean]
    dsimp only [bind, Except.bind]
    rw [if_neg entry.named, ih (Nat.lt_of_succ_lt_succ enough) behind, List.flatMap_cons, List.length_append,
      entry.bytes_length]
    congr 1
    omega

/-- The search answers with the number of the first entry that has the name. -/
theorem findEntry_holds {entries : List DirEntry} {zeros fuel : Nat} (label : List UInt8) (enough : entries.length < fuel)
    (bytes : (List.ofFn block).drop position = entries.flatMap DirEntry.bytes ++ List.replicate (zeros + 1) 0) :
    findEntry block label fuel position = .ok
      ((entries.find? fun entry => entry.name = label).map DirEntry.inodeNum) := by
  induction entries generalizing position fuel with
  | nil =>
    obtain ⟨fuel, rfl⟩ : ∃ rest, fuel = rest + 1 := ⟨fuel - 1, by omega⟩
    rw [findEntry, textAt_drop bytes List.not_mem_nil]
    rfl
  | cons entry entries ih =>
    obtain ⟨fuel, rfl⟩ : ∃ rest, fuel = rest + 1 := ⟨fuel - 1, by omega⟩
    obtain ⟨here, behind⟩ := entry_parts bytes
    have number : (List.ofFn block).drop (position + entry.name.length + 1) =
        numberBytes entry.inodeNum ++ (entries.flatMap DirEntry.bytes ++ List.replicate (zeros + 1) 0) := by
      rw [Nat.add_assoc, ← List.drop_drop, here, ← List.drop_drop, List.drop_left, List.drop_one, List.tail_cons]
    rw [findEntry, textAt_drop here entry.clean]
    dsimp only [bind, Except.bind]
    rw [if_neg entry.named]
    by_cases same : entry.name = label
    · rw [if_pos ((strEquals_iff _ _).mpr same), numberAt_drop entry.small number,
        List.find?_cons_of_pos (by simpa using same)]
      rfl
    · rw [if_neg (mt (strEquals_iff _ _).mp same), ih (Nat.lt_of_succ_lt_succ enough) behind,
        List.find?_cons_of_neg (by simpa using same)]

/-- The bytes of a number that lies at a position. -/
theorem numberAt_bytes {number : Nat} (lies : numberAt block position = .ok number) :
    (List.ofFn block).drop position = numberBytes number ++ (List.ofFn block).drop (position + 4) := by
  unfold numberAt at lies
  by_cases room : position + 4 ≤ size
  · rw [if_pos room] at lies
    cases lies
    apply List.ext_getElem
    · simp only [List.length_drop, List.length_ofFn, List.length_append, numberBytes_length]
      omega
    · intro index inside _
      simp only [List.length_drop, List.length_ofFn] at inside
      rw [List.getElem_drop, List.getElem_ofFn]
      rcases Nat.lt_or_ge index 4 with early | late
      · rw [List.getElem_append_left (by rwa [numberBytes_length])]
        simp only [numberBytes, List.getElem_map, List.getElem_range]
        rw [byte_load _ _ early, flat, dif_pos (by omega)]
      · rw [List.getElem_append_right (by rwa [numberBytes_length]), List.getElem_drop, List.getElem_ofFn]
        congr 2
        rw [numberBytes_length]
        omega
  · rw [if_neg room] at lies
    cases lies

end

/-- The bytes of a block that an entry was appended to. -/
theorem Appended.bytes {size position : Nat} {before after : Fin size → UInt8} {entry : DirEntry}
    (appended : Appended before after position entry.name entry.inodeNum) :
    List.ofFn after = (List.ofFn before).take position ++ (entry.bytes ++
      (List.ofFn before).drop (position + entry.name.length + 5)) := by
  have fits := appended.fits
  have front : (List.ofFn after).take position = (List.ofFn before).take position := by
    apply List.ext_getElem
    · rw [List.length_take, List.length_take, List.length_ofFn, List.length_ofFn]
    · intro index inside _
      rw [List.length_take, List.length_ofFn] at inside
      rw [List.getElem_take, List.getElem_take, List.getElem_ofFn, List.getElem_ofFn]
      exact appended.front _ (by dsimp only; omega)
  have behind : (List.ofFn after).drop (position + entry.name.length + 5) =
      (List.ofFn before).drop (position + entry.name.length + 5) := by
    apply List.ext_getElem
    · rw [List.length_drop, List.length_drop, List.length_ofFn, List.length_ofFn]
    · intro index inside _
      rw [List.getElem_drop, List.getElem_drop, List.getElem_ofFn, List.getElem_ofFn]
      exact appended.behind _ (by dsimp only; omega)
  have number := appended.number
  rw [Nat.mod_eq_of_lt entry.small] at number
  calc List.ofFn after = (List.ofFn after).take position ++ (List.ofFn after).drop position :=
    (List.take_append_drop _ _).symm
    _ = (List.ofFn before).take position ++ (entry.name ++ 0 :: (numberBytes entry.inodeNum ++
          (List.ofFn after).drop (position + entry.name.length + 1 + 4))) := by
      rw [front, appended.lies.drop, numberAt_bytes number]
    _ = _ := by
      rw [DirEntry.bytes, List.append_assoc, List.cons_append, Nat.add_assoc _ 1 4, behind]

/-- A name that there is room for can be appended. -/
theorem appendEntry_returns {size position : Nat} (block : Fin size → UInt8) (entry : DirEntry)
    (room : position + entry.name.length + 5 ≤ size) :
    ∃ after, appendEntry block position entry.name entry.inodeNum = .ok after := by
  obtain ⟨copy, copies⟩ := strCopyFrom_returns block (show position + entry.name.length < size by omega)
  unfold appendEntry
  rw [copies]
  dsimp only [bind, Except.bind]
  rw [if_neg (by omega)]
  exact ⟨_, rfl⟩

/-- What a block is to be once a new entry has been appended: all names but the new one are
found, or not found, as they were. -/
structure EntryAppended {size : Nat} (fuel : Nat) (before after : Fin size → UInt8) (entries : List DirEntry)
    (new : DirEntry) : Prop where
  holds : BlockHolds after (entries ++ [new])
  found : findEntry after new.name fuel 0 = .ok (some new.inodeNum)
  earlier : ∀ entry ∈ entries, ∃ old ∈ entries, old.name = entry.name ∧
    findEntry before entry.name fuel 0 = .ok (some old.inodeNum) ∧
    findEntry after entry.name fuel 0 = .ok (some old.inodeNum)
  others : ∀ label, label ≠ new.name → (∀ entry ∈ entries, entry.name ≠ label) → findEntry after label fuel 0 = .ok none

theorem entries_length (entries : List DirEntry) : entries.length ≤ (entries.flatMap DirEntry.bytes).length := by
  induction entries with
  | nil => exact Nat.le_refl _
  | cons entry entries ih =>
    rw [List.flatMap_cons, List.length_append, entry.bytes_length, List.length_cons]
    omega

/-- An entry with a new name that leaves a zero behind it goes to the end of the others. -/
theorem entry_appended {size : Nat} (block : Fin size → UInt8) (entries : List DirEntry) (new : DirEntry)
    (holds : BlockHolds block entries) (absent : ∀ entry ∈ entries, entry.name ≠ new.name)
    (room : (entries.flatMap DirEntry.bytes).length + new.name.length + 5 < size) (fuel : Nat) (enough : size < fuel) :
    ∃ stop after, entriesEnd block fuel 0 = .ok stop ∧ appendEntry block stop new.name new.inodeNum = .ok after ∧
      EntryAppended fuel block after entries new := by
  obtain ⟨zeros, bytes⟩ := holds
  have whole := congrArg List.length bytes
  rw [List.length_ofFn, List.length_append, List.length_replicate] at whole
  obtain ⟨spare, rfl⟩ : ∃ spare, zeros = new.name.length + 5 + (spare + 1) :=
    ⟨size - (entries.flatMap DirEntry.bytes).length - new.name.length - 5 - 1, by omega⟩
  have few := entries_length entries
  have before : (List.ofFn block).drop 0 =
      entries.flatMap DirEntry.bytes ++ List.replicate (new.name.length + 5 + spare + 1) 0 := bytes
  have ends : entriesEnd block fuel 0 = _ := entriesEnd_holds (by omega) before
  rw [Nat.zero_add] at ends
  obtain ⟨after, appends⟩ := appendEntry_returns block new room.le
  have appended := (appendEntry_ok new.clean appends).bytes
  have together : List.ofFn after = (entries ++ [new]).flatMap DirEntry.bytes ++ List.replicate (spare + 1) 0 := by
    rw [appended, bytes, List.take_left, Nat.add_assoc, ← List.drop_drop, List.drop_left, List.drop_replicate,
      Nat.add_sub_cancel_left, List.flatMap_append, List.flatMap_singleton, List.append_assoc]
  have finds (label : List UInt8) : findEntry after label fuel 0 =
      .ok (((entries ++ [new]).find? fun entry => entry.name = label).map DirEntry.inodeNum) :=
    findEntry_holds label (by rw [List.length_append, List.length_singleton]; omega) together
  refine ⟨_, after, ends, appends, ⟨_, together⟩, ?_, ?_, ?_⟩
  · have older : (entries.find? fun entry => entry.name = new.name) = none := by
      rw [List.find?_eq_none]
      intro entry member
      simpa using absent entry member
    rw [finds, List.find?_append, older, Option.none_or, List.find?_cons_of_pos (by simp)]
    rfl
  · intro entry member
    obtain ⟨old, first⟩ : ∃ old, (entries.find? fun other => other.name = entry.name) = some old :=
      Option.isSome_iff_exists.mp (List.find?_isSome.mpr ⟨entry, member, by simp⟩)
    have named : old.name = entry.name := by simpa using List.find?_some first
    refine ⟨old, List.mem_of_find?_eq_some first, named, ?_, ?_⟩
    · rw [findEntry_holds entry.name (by omega) before, first]
      rfl
    · rw [finds, List.find?_append, first]
      rfl
  · intro label other absent
    have none : ((entries ++ [new]).find? fun entry => entry.name = label) = none := by
      rw [List.find?_eq_none]
      intro entry member
      rcases List.mem_append.mp member with old | last
      · simpa using absent entry old
      · rw [List.mem_singleton.mp last]
        simpa using fun same => other same.symm
    rw [finds, none]
    rfl

/-- The numbers have zeros and the bytes of names in them. -/
def firstEntry : DirEntry := ⟨[97], 0x00620061, by decide, by decide, by decide⟩

def secondEntry : DirEntry := ⟨[98, 99], 0x61000000, by decide, by decide, by decide⟩

def smallBlock : Fin 16 → UInt8 := fun position => firstEntry.bytes.getD position.val 0

theorem entry_appended_small : ∃ stop after, entriesEnd smallBlock 17 0 = .ok stop ∧
    appendEntry smallBlock stop secondEntry.name secondEntry.inodeNum = .ok after ∧
      EntryAppended 17 smallBlock after [firstEntry] secondEntry := by
  apply entry_appended
  · exact ⟨10, by decide⟩
  · decide
  · decide
  · decide

end Kernix.Proofs
