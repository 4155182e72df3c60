import Kernix.Proofs.VolumeMounts

/-! The arithmetic that a mount leaves to the later calls. The superblock is copied as a
string, so that one that shows its magic number has no zero in front of it, and the block
size comes of a shift by far too much. -/

namespace Kernix.Proofs
open ByteMemory

variable {δ : Type}

/-- How a mount goes on when it has looked at the magic number. -/
inductive MountChecked (δ : Type) where
  | failed (state : Ext4State δ)
  | checked (dataPtr device : Nat) (partitionIndex : Int) (sb : Ext4Superblock) (state : Ext4State δ)

/-- `ext4_mount` down to the check of the magic number. -/
def mountChecked (state : Ext4State δ) (src : Nat) : Except Stop (MountChecked δ) := do
  let (dataPtr, state) ← state.alloc ext4DataSize
  if dataPtr = 0 then return .failed state
  let (device, partitionIndex) ← mountSource state.disk src
  let data : Ext4Data := ⟨device, fun _ => 0, 0, 0, fun _ => 0, 0, 0, partitionIndex⟩
  let (sbBuf, state) ← state.alloc 1024
  if sbBuf = 0 then
    let state ← state.free dataPtr
    return .failed state
  let (ret, bytes, disk) ← readSuperblock state.disk data
  let state := { state with disk }
  if ret ≠ 0 then
    let state ← state.free sbBuf
    let state ← state.free dataPtr
    return .failed state
  let sb : Ext4Superblock ← strCopyAt data.sb bytes 0
  let state ← state.free sbBuf
  if sb.magic ≠ ext4Magic then
    let state ← state.free dataPtr
    return .failed state
  return .checked dataPtr device partitionIndex sb state

/-- What follows, down to the array of descriptors. -/
def mountSized (dataPtr device : Nat) (partitionIndex : Int) (sb : Ext4Superblock) (state : Ext4State δ) :
    Except Stop (MountHeader δ) := do
  let blockSize := 1024 * 2 ^ (sb.logBlockSize % 32) % 2 ^ 32
  if sb.blocksPerGroup = 0 then throw .undefined
  let gdBlocks := (sb.blocksCount + sb.blocksPerGroup + (2 ^ 32 - 1)) % 2 ^ 32 / sb.blocksPerGroup
  let (gd, state) ← state.alloc (gdBlocks * ext4GroupDescSize)
  if gd = 0 then
    let state ← state.free dataPtr
    return .failed state
  return .described dataPtr ⟨device, sb, gd, gdBlocks, fun _ => 0, blockSize, sb.inodeSize, partitionIndex⟩ state

def MountChecked.goesOn : MountChecked δ → Except Stop (MountHeader δ)
  | .failed state => .ok (.failed state)
  | .checked dataPtr device partitionIndex sb state => mountSized dataPtr device partitionIndex sb state

/-- The mount is its check and what follows. -/
theorem mountHeader_eq (state : Ext4State δ) (src : Nat) :
    ext4MountHeader state src = mountChecked state src >>= MountChecked.goesOn := by
  unfold ext4MountHeader mountChecked
  cases state.alloc ext4DataSize with
  | error stop => rfl
  | ok first =>
    obtain ⟨dataPtr, first⟩ := first
    dsimp only [bind, Except.bind]
    split
    next => rfl
    cases mountSource first.disk src with
    | error stop => rfl
    | ok source =>
      obtain ⟨device, partitionIndex⟩ := source
      dsimp only
      cases first.alloc 1024 with
      | error stop => rfl
      | ok second =>
        obtain ⟨sbBuf, second⟩ := second
        dsimp only
        split
        next => cases second.free dataPtr <;> rfl
        cases readSuperblock second.disk ⟨device, fun _ => 0, 0, 0, fun _ => 0, 0, 0, partitionIndex⟩ with
        | error stop => rfl
        | ok read =>
          obtain ⟨ret, bytes, disk⟩ := read
          dsimp only
          split
          next =>
            cases Ext4State.free { second with disk } sbBuf with
            | error stop => rfl
            | ok freed =>
              dsimp only
              cases freed.free dataPtr <;> rfl
          cases strCopyAt (fun _ => 0 : Ext4Superblock) bytes 0 with
          | error stop => rfl
          | ok sb =>
            dsimp only
            cases Ext4State.free { second with disk } sbBuf with
            | error stop => rfl
            | ok freed =>
              dsimp only
              split
              next => cases freed.free dataPtr <;> rfl
              next => rfl

/-- What a mount needs to come to the shift: memory for its two objects, and a superblock
that can be read, that has a zero but none in front of its magic number. -/
structure MagicPassed (before : Ext4State δ) (src : Nat) : Prop where
  passes : ∃ dataPtr first device partitionIndex sbBuf second bytes disk freed,
    before.alloc ext4DataSize = .ok (dataPtr, first) ∧ dataPtr ≠ 0 ∧
    mountSource before.disk src = .ok (device, partitionIndex) ∧
    first.alloc 1024 = .ok (sbBuf, second) ∧ sbBuf ≠ 0 ∧
    readSuperblock before.disk ⟨device, fun _ => 0, 0, 0, fun _ => 0, 0, 0, partitionIndex⟩ = .ok (0, bytes, disk) ∧
    (∀ index : Fin 1024, index.val < 56 → bytes index ≠ 0) ∧
    bytes ⟨56, by decide⟩ = 0x53 ∧ bytes ⟨57, by decide⟩ = 0xEF ∧ (∃ index, bytes index = 0) ∧
    Ext4State.free { second with disk } sbBuf = .ok freed

/-- The magic number of a copy lies behind bytes that are not zero. -/
theorem magic_copied {bytes : Fin 1024 → UInt8} {sb : Ext4Superblock}
    (copies : strCopyAt (fun _ => 0 : Ext4Superblock) bytes 0 = .ok sb) (magic : sb.magic = ext4Magic) :
    (∀ index : Fin 1024, index.val < 56 → bytes index ≠ 0) ∧ bytes ⟨56, by decide⟩ = 0x53 ∧ bytes ⟨57, by decide⟩ = 0xEF ∧
      (∃ index, bytes index = 0) ∧ ∀ index : Fin 1024, index.val < 58 → sb index = bytes index := by
  obtain ⟨found, lies, copied⟩ := strCopyAt_ok copies
  have value : sb.magic = (sb ⟨56, by decide⟩).toNat + 256 * (sb ⟨57, by decide⟩).toNat := rfl
  have low := (sb ⟨56, by decide⟩).toNat_lt
  rw [value, ext4Magic] at magic
  have first : sb ⟨56, by decide⟩ = 0x53 := UInt8.toNat_inj.mp (by change _ = 0x53; omega)
  have second : sb ⟨57, by decide⟩ = 0xEF := UInt8.toNat_inj.mp (by change _ = 0xEF; omega)
  have long : 58 ≤ found.length := by
    by_contra short
    have zero : sb ⟨57, by decide⟩ = 0 := by
      by_cases ends : found.length = 57
      · have terminated := copied.terminated
        simp only [Nat.zero_add, ends] at terminated
        exact terminated
      · exact copied.back ⟨57, by decide⟩ (by dsimp only; omega)
    rw [second] at zero
    exact absurd zero (by decide)
  have left := copied.bytes
  have right := lies.bytes
  simp only [Nat.zero_add] at left right
  have same (index : Fin 1024) (early : index.val < 58) : sb index = bytes index :=
    (left index.val (by omega)).trans (right index.val (by omega)).symm
  refine ⟨fun index early zero => ?_, ?_, ?_, ⟨⟨found.length, ?_⟩, ?_⟩, same⟩
  · have member := List.getElem_mem (show index.val < found.length by omega)
    rw [← right index.val (by omega)] at member
    exact lies.clean (zero ▸ member)
  · rw [← same _ (by decide), first]
  · rw [← same _ (by decide), second]
  · have fits := lies.fits
    omega
  · have terminated := lies.terminated
    simp only [Nat.zero_add] at terminated
    exact terminated

/-- Such bytes are copied with their magic number. -/
theorem magic_kept {bytes : Fin 1024 → UInt8} (given : ∀ index : Fin 1024, index.val < 56 → bytes index ≠ 0)
    (low : bytes ⟨56, by decide⟩ = 0x53) (high : bytes ⟨57, by decide⟩ = 0xEF) (ends : ∃ index, bytes index = 0) :
    ∃ sb : Ext4Superblock, strCopyAt (fun _ => 0) bytes 0 = .ok sb ∧ sb.magic = ext4Magic := by
  obtain ⟨stop, zero⟩ := ends
  obtain ⟨found, finds⟩ := textAt_returns stop (Nat.zero_le _) zero
  have lies := textAt_ok finds
  have fits := lies.fits
  have terminated := lies.terminated
  simp only [Nat.zero_add] at fits terminated
  obtain ⟨sb, copies, copied⟩ := lies.copies (fun _ => 0 : Ext4Superblock) fits
  have long : 58 ≤ found.length := by
    by_contra short
    rcases Nat.lt_trichotomy found.length 56 with early | here | late
    · exact given ⟨found.length, fits⟩ early terminated
    · simp only [here] at terminated
      exact absurd (low.symm.trans terminated) (by decide)
    · obtain here : found.length = 57 := by omega
      simp only [here] at terminated
      exact absurd (high.symm.trans terminated) (by decide)
  have left := copied.bytes
  have right := lies.bytes
  simp only [Nat.zero_add] at left right
  refine ⟨sb, copies, ?_⟩
  have value : Ext4Superblock.magic sb = (sb ⟨56, by decide⟩).toNat + 256 * (sb ⟨57, by decide⟩).toNat := rfl
  rw [value, left 56 (by omega), left 57 (by omega), ← right 56 (by omega), ← right 57 (by omega), low, high]
  rfl

/-- A mount that comes to the shift. -/
def Checked (before : Ext4State δ) (src : Nat) (sb : Ext4Superblock) : Prop :=
  ∃ dataPtr device partitionIndex held, mountChecked before src = .ok (.checked dataPtr device partitionIndex sb held)

theorem Checked.passed {before : Ext4State δ} {src : Nat} {sb : Ext4Superblock} (checked : Checked before src sb) :
    MagicPassed before src ∧ ∀ index : Fin 1024, index.val < 58 → sb index ≠ 0 := by
  obtain ⟨dataPtr, device, partitionIndex, held, result⟩ := checked
  unfold mountChecked at result
  obtain ⟨⟨ptr, first⟩, allocated, result⟩ := bind_ok result
  dsimp only at result
  by_cases none : ptr = 0
  · rw [if_pos none] at result
    cases result
  rw [if_neg none] at result
  obtain ⟨⟨source, index⟩, sourced, result⟩ := bind_ok result
  obtain ⟨⟨sbBuf, second⟩, allocated', result⟩ := bind_ok result
  dsimp only at result
  by_cases none' : sbBuf = 0
  · rw [if_pos none'] at result
    obtain ⟨_, _, result⟩ := bind_ok result
    cases result
  rw [if_neg none'] at result
  obtain ⟨⟨ret, bytes, disk⟩, reads, result⟩ := bind_ok result
  dsimp only at result
  by_cases fine : ret = 0
  · rw [if_neg (not_not.mpr fine)] at result
    obtain ⟨copy, copies, result⟩ := bind_ok result
    obtain ⟨freed, frees, result⟩ := bind_ok result
    by_cases magic : copy.magic = ext4Magic
    · rw [if_neg (not_not.mpr magic)] at result
      cases result
      have touched := (alloc_touched allocated).2
      have touched' := (alloc_touched allocated').2
      rw [touched] at sourced
      rw [touched', touched, fine] at reads
      obtain ⟨given, low, high, ends, same⟩ := magic_copied copies magic
      refine ⟨⟨_, _, _, _, _, _, _, _, _, allocated, none, sourced, allocated', none', reads, given, low, high, ends,
        frees⟩, ?_⟩
      intro index early
      rw [same index early]
      by_cases front : index.val < 56
      · exact given index front
      · obtain here | here : index.val = 56 ∨ index.val = 57 := by omega
        · rw [show index = ⟨56, by decide⟩ from Fin.ext here, low]
          decide
        · rw [show index = ⟨57, by decide⟩ from Fin.ext here, high]
          decide
    · rw [if_pos magic] at result
      obtain ⟨_, _, result⟩ := bind_ok result
      cases result
  · rw [if_pos fine] at result
    obtain ⟨_, _, result⟩ := bind_ok result
    obtain ⟨_, _, result⟩ := bind_ok result
    cases result

theorem MagicPassed.checked {before : Ext4State δ} {src : Nat} (passed : MagicPassed before src) :
    ∃ sb, Checked before src sb := by
  obtain ⟨dataPtr, first, device, partitionIndex, sbBuf, second, bytes, disk, freed, allocated, some, sourced, allocated',
    some', reads, given, low, high, ends, frees⟩ := passed.passes
  obtain ⟨sb, copies, magic⟩ := magic_kept given low high ends
  have touched := (alloc_touched allocated).2
  have touched' := (alloc_touched allocated').2
  refine ⟨sb, dataPtr, device, partitionIndex, freed, ?_⟩
  unfold mountChecked
  rw [allocated]
  dsimp only [bind, Except.bind]
  rw [if_neg some, touched, sourced]
  dsimp only
  rw [allocated']
  dsimp only
  rw [if_neg some', touched', touched, reads]
  dsimp only
  rw [if_neg (not_not.mpr rfl), copies]
  dsimp only
  rw [frees]
  dsimp only
  rw [if_neg (not_not.mpr magic)]
  rfl

/-- A field of four bytes in front of the magic number is large. -/
theorem field_large {sb : Ext4Superblock} (given : ∀ index : Fin 1024, index.val < 58 → sb index ≠ 0) {offset : Nat}
    (front : offset + 4 ≤ 58) : 2 ^ 24 ≤ load (flat sb) offset 4 := by
  have size : ext4SuperblockSize = 1024 := rfl
  have last : flat sb (offset + 3) ≠ 0 := by
    rw [flat, dif_pos (by omega)]
    exact given _ (by dsimp only; omega)
  have positive : (flat sb (offset + 1 + 1 + 1)).toNat ≠ 0 := fun zero => last (UInt8.toNat_inj.mp zero)
  simp only [load]
  omega

/-- What the later calls need of a volume: a block is a power of two bytes, and a whole
number of inodes. -/
structure Geometry (data : Ext4Data) : Prop where
  power : ∃ k, data.blockSize = 2 ^ k
  least : 1024 ≤ data.blockSize
  fits : data.blockSize < 2 ^ 32
  grouped : data.sb.inodesPerGroup ≠ 0
  sized : data.inodeSize ≠ 0
  divides : data.inodeSize ∣ data.blockSize

/-- No division by zero, and every inode of the groups lies inside a block. -/
structure InodesWhole (data : Ext4Data) : Prop where
  grouped : data.sb.inodesPerGroup ≠ 0
  sized : data.blockSize ≠ 0
  inside : ∀ inodeNum, (inodeNum + (2 ^ 32 - 1)) % 2 ^ 32 / data.sb.inodesPerGroup < data.gdCount →
    ∃ block offset, inodePlace data inodeNum = .ok (block, offset) ∧ offset + data.inodeSize ≤ data.blockSize

/-- A mount never divides by zero and shifts by less than 32, and leaves a volume that the
later calls can work on. -/
structure MountSafe (before : Ext4State δ) (src : Nat) (tgt : List UInt8) : Prop where
  shift : ∀ sb, Checked before src sb → sb.logBlockSize < 32
  groups : ∀ sb, Checked before src sb → sb.blocksPerGroup ≠ 0
  /-- The mount reads inode 2. -/
  root : ∀ dataPtr data held, Described before src dataPtr data held → data.sb.inodesPerGroup ≠ 0 ∧ data.blockSize ≠ 0
  geometry : ∀ root priv after, ext4Mount before src tgt = .ok (0, root, priv, after) → Geometry (after.datas priv)

/-- `inodePlace` of an inode by its number from 0 on. -/
def indexPlace (data : Ext4Data) (number : Nat) : Except Stop (Nat × Nat) := do
  if data.sb.inodesPerGroup = 0 then throw .undefined
  let group := number / data.sb.inodesPerGroup
  let index := number % data.sb.inodesPerGroup
  let table ← data.inodeTableLo group
  if data.blockSize = 0 then throw .undefined
  let position := index * data.inodeSize % 2 ^ 32
  return ((table + position / data.blockSize) % 2 ^ 32, position % data.blockSize)

theorem inodePlace_eq (data : Ext4Data) (inodeNum : Nat) :
    inodePlace data inodeNum = indexPlace data ((inodeNum + (2 ^ 32 - 1)) % 2 ^ 32) := rfl

/-- An inode lies at a multiple of its size, also after the product has wrapped. -/
theorem Geometry.indexPlace {data : Ext4Data} (geometry : Geometry data) {number : Nat}
    (inside : number / data.sb.inodesPerGroup < data.gdCount) :
    ∃ block offset, indexPlace data number = .ok (block, offset) ∧ offset + data.inodeSize ≤ data.blockSize := by
  have sized : data.blockSize ≠ 0 := (Nat.lt_of_lt_of_le (by decide) geometry.least).ne'
  unfold Proofs.indexPlace Ext4Data.inodeTableLo Ext4Data.descField
  dsimp only [bind, Except.bind]
  rw [if_neg geometry.grouped, if_pos inside]
  dsimp only
  rw [if_neg sized]
  refine ⟨_, _, rfl, ?_⟩
  generalize number % data.sb.inodesPerGroup = index
  obtain ⟨k, power⟩ := geometry.power
  have fits := geometry.fits
  have small : k < 32 := (Nat.pow_lt_pow_iff_right (by decide)).mp (power ▸ fits)
  have word : data.inodeSize ∣ 2 ^ 32 := geometry.divides.trans (power ▸ Nat.pow_dvd_pow 2 (Nat.le_of_lt small))
  have position : data.inodeSize ∣ index * data.inodeSize % 2 ^ 32 := (Nat.dvd_mod_iff word).mpr (Nat.dvd_mul_left _ _)
  obtain ⟨count, multiple⟩ := (Nat.dvd_mod_iff geometry.divides).mpr position
  obtain ⟨inodes, whole⟩ := geometry.divides
  have below : index * data.inodeSize % 2 ^ 32 % data.blockSize < data.blockSize :=
    Nat.mod_lt _ (Nat.pos_of_ne_zero sized)
  rw [multiple] at below ⊢
  rw [whole] at below ⊢
  have fewer : count < inodes := Nat.lt_of_mul_lt_mul_left below
  calc data.inodeSize * count + data.inodeSize = data.inodeSize * (count + 1) := (Nat.mul_succ _ _).symm
    _ ≤ data.inodeSize * inodes := Nat.mul_le_mul_left _ fewer

theorem Geometry.whole {data : Ext4Data} (geometry : Geometry data) : InodesWhole data where
  grouped := geometry.grouped
  sized := (Nat.lt_of_lt_of_le (by decide) geometry.least).ne'
  inside inodeNum inside := by
    rw [inodePlace_eq]
    exact geometry.indexPlace inside

/-- A mount that does not come to the shift fails. -/
theorem described_checked {before held : Ext4State δ} {src dataPtr : Nat} {data : Ext4Data}
    (described : Described before src dataPtr data held) : Checked before src data.sb := by
  unfold Described at described
  rw [mountHeader_eq] at described
  obtain ⟨outcome, checks, described⟩ := bind_ok described
  cases outcome with
  | failed state => cases described
  | checked dataPtr device partitionIndex sb state =>
    change mountSized dataPtr device partitionIndex sb state = _ at described
    unfold mountSized at described
    dsimp only at described
    by_cases zero : sb.blocksPerGroup = 0
    · rw [if_pos zero] at described
      cases described
    rw [if_neg zero] at described
    obtain ⟨⟨gd, third⟩, allocated, described⟩ := bind_ok described
    dsimp only at described
    by_cases none : gd = 0
    · rw [if_pos none] at described
      obtain ⟨_, _, described⟩ := bind_ok described
      cases described
    · rw [if_neg none] at described
      cases described
      exact ⟨_, _, _, _, checks⟩

/-- The shift that a mount comes to, if it does. -/
private def shiftOf : Except Stop (MountChecked Unit) → Option Nat
  | .ok (.checked _ _ _ sb _) => some sb.logBlockSize
  | _ => none

end Kernix.Proofs
