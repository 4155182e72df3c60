import Kernix.Proofs.ServedCalls

/-! Entries that were made and are looked for. `ext4_create` asks the extents for the block
of a directory, and `ext4_lookup` takes the first word behind the flags for it. -/

namespace Kernix.Proofs
open ByteMemory

variable {δ : Type}

/-- The extent at `index` covers the first block of the file. -/
def CoversFirst (inode : Ext4Inode) (index : Nat) : Prop :=
  inode.field (52 + 12 * index) 4 = .ok 0 ∧ ∃ length, inode.field (56 + 12 * index) 2 = .ok length ∧ length ≠ 0

/-- The extent at `index` does not. -/
def PassesFirst (inode : Ext4Inode) (index : Nat) : Prop :=
  ∃ first, inode.field (52 + 12 * index) 4 = .ok first ∧ (first ≠ 0 ∨ inode.field (56 + 12 * index) 2 = .ok 0)

/-- Where the blocks of the extent at `index` begin. -/
def extentStart (inode : Ext4Inode) (index : Nat) : Except Stop Nat := do
  let eeStartHi ← inode.field (58 + 12 * index) 2
  let eeStartLo ← inode.field (60 + 12 * index) 4
  return u64 (eeStartLo ||| eeStartHi <<< 32)

/-- `i_block[0]` is the block at which the directory begins: there are no extents, or the
header of the extents happens to be the number that is looked for. -/
def DirectBlock (inode : Ext4Inode) : Prop :=
  inode.flags &&& ext4ExtentsFl = 0 ∨
  (load (flat inode) 40 2 ≠ ext4ExtentMagic ∧ inode.block 0 = 0) ∨
  (load (flat inode) 40 2 = ext4ExtentMagic ∧ ∃ index < load (flat inode) 42 2,
    (∀ before < index, PassesFirst inode before) ∧
    CoversFirst inode index ∧ extentStart inode index = .ok (inode.block 0))

private theorem field_ok {inode : Ext4Inode} {offset count value : Nat} (result : inode.field offset count = .ok value) :
    value < 256 ^ count := by
  unfold Ext4Inode.field at result
  split at result
  next =>
    cases result
    exact load_lt _ _ _
  next => cases result

/-- One extent either covers the first block or passes the search on. -/
private theorem searchExtents_step {inode : Ext4Inode} {left index block : Nat} :
    searchExtents inode 0 (left + 1) index = .ok block ↔
      CoversFirst inode index ∧ extentStart inode index = .ok block ∨
        PassesFirst inode index ∧ searchExtents inode 0 left (index + 1) = .ok block := by
  unfold CoversFirst PassesFirst extentStart
  rw [searchExtents]
  dsimp only [bind, Except.bind]
  cases starts : inode.field (52 + 12 * index) 4 with
  | error stop => simp
  | ok first =>
    dsimp only
    by_cases zero : first = 0
    · subst zero
      rw [if_pos (Nat.le_refl 0)]
      cases lengths : inode.field (56 + 12 * index) 2 with
      | error stop => simp
      | ok length =>
        have short := field_ok lengths
        dsimp only
        by_cases none : length = 0
        · subst none
          simp
        · rw [if_pos (by omega)]
          simp only [Except.ok.injEq, exists_eq_left', true_and, none, not_false_eq_true, ne_eq, not_true_eq_false,
            false_and, or_false, Nat.sub_self, Nat.add_zero]
    · rw [if_neg (by omega)]
      simp [zero]

/-- The search for the first block is a search for the first extent that covers it. -/
private theorem searchExtents_first {inode : Ext4Inode} {left index block : Nat} (given : block ≠ 0) :
    searchExtents inode 0 left index = .ok block ↔ ∃ found, index ≤ found ∧ found < index + left ∧
      (∀ before, index ≤ before → before < found → PassesFirst inode before) ∧ CoversFirst inode found ∧
      extentStart inode found = .ok block := by
  induction left generalizing index with
  | zero =>
    constructor
    · intro result
      exact (given (Except.ok.inj result).symm).elim
    · rintro ⟨found, low, high, _⟩
      omega
  | succ left ih =>
    rw [searchExtents_step, ih]
    constructor
    · rintro (⟨covers, starts⟩ | ⟨passes, found, low, high, skipped, covers, starts⟩)
      · exact ⟨index, Nat.le_refl _, by omega, fun before after early => by omega, covers, starts⟩
      · refine ⟨found, by omega, by omega, fun before after early => ?_, covers, starts⟩
        rcases Nat.eq_or_lt_of_le after with rfl | later
        · exact passes
        · exact skipped before later early
    · rintro ⟨found, low, high, skipped, covers, starts⟩
      rcases Nat.eq_or_lt_of_le low with rfl | later
      · exact Or.inl ⟨covers, starts⟩
      · exact Or.inr ⟨skipped index (Nat.le_refl _) later, found, later, by omega,
          fun before after early => skipped before (by omega) early, covers, starts⟩

/-- The word behind the flags is the magic number and more. -/
private theorem block_magic (inode : Ext4Inode) : inode.block 0 % 2 ^ 16 = load (flat inode) 40 2 := by
  have first := (flat inode 40).toNat_lt
  have second := (flat inode 41).toNat_lt
  change load (flat inode) 40 4 % 2 ^ 16 = _
  simp only [load, Nat.reduceAdd]
  omega

/-- Both calls mean the same block of the volume exactly for these inodes. -/
theorem sameBlock_iff (inode : Ext4Inode) :
    ext4GetBlockFromExtents inode 0 = .ok (inode.block 0) ↔ DirectBlock inode := by
  unfold ext4GetBlockFromExtents DirectBlock
  split
  next plain => simp [plain]
  next extents =>
    split
    next damaged =>
      simp only [Except.ok.injEq, extents, false_or, damaged, ne_eq, not_false_eq_true, true_and, false_and, or_false]
      exact eq_comm
    next magic =>
      have given : inode.block 0 ≠ 0 := by
        intro zero
        have low := block_magic inode
        rw [zero, not_not.mp magic] at low
        exact absurd low (by decide)
      rw [searchExtents_first given]
      simp only [extents, false_or, not_not.mp magic, ne_eq, not_true_eq_false, false_and, true_and, Nat.zero_le,
        Nat.zero_add,
        forall_const]

/-- A name is found again in a directory whose inode reads `inode`: the block that the
look-up scans is the one that entries go to, and the scan ends at an entry of this name. -/
structure Finds (state : Ext4State δ) (dir : Nat) (inode : Ext4Inode) (name : List UInt8) : Prop where
  block : ext4GetBlockFromExtents inode 0 = .ok (inode.block 0)
  entry : ∃ inodeNum, findEntry (blockBytes state.disk (dirData state dir) (inode.block 0)) name
      ((dirData state dir).blockSize + 1) 0 = .ok (some inodeNum) ∧
    ∀ (later : Ext4State δ) (look : LookupStage δ), SameContents state.disk later.disk → later.datas = state.datas →
      (later.fs.nodes dir).priv = (state.fs.nodes dir).priv → LookupReached later dir look → look.inode = inode →
        ext4Lookup later dir name = (do
          let freed ← { look.held with disk := look.read.disk }.free look.buf
          ext4CreateNode freed (state.fs.nodes dir).priv inodeNum name)

/-- What a look-up has in its buffer. -/
private theorem LookupReached.bytes {state : Ext4State δ} {dir : Nat} {look : LookupStage δ}
    (formatted : Formatted (dirData state dir))
    (reached : LookupReached state dir look) :
    (cut look.read.bytes : Fin (dirData state dir).blockSize → UInt8) =
      blockBytes state.disk (dirData state dir) (look.inode.block 0) := by
  have formatted' : Formatted (state.localInode.2.datas (state.fs.nodes dir).priv) := formatted
  have read := ext4ReadInode_spec formatted' reached.opened
  have contents : SameContents state.disk look.held.disk := (alloc_touched reached.held).2 ▸ read.contents
  exact (ext4ReadBlock_bytes formatted reached.read reached.success).trans (contents.blockBytes _ _)

/-- A name that is entered into the empty block 9 of a directory. -/
private theorem imageState_creates {inode : Ext4Inode} (points : ext4GetBlockFromExtents inode 0 = .ok 9)
    (zero : inode ⟨0, by decide⟩ = 0) :
    ∃ (before after : Ext4State Unit) (stage : AppendStage Unit), Formatted (dirData before 5) ∧
      AppendReached before 5 stage ∧
      stage.inode = inode ∧ ext4Create before 5 (literal "a") = .ok (0, after) := by
  obtain ⟨memory, divided⟩ := imageState_divided inode fun _ => 0
  let plan := imagePlan divided points zero rfl rfl
  have entry : EntryPlan plan (literal "a") := imageEntry
  obtain ⟨stage, after, carried, created⟩ := entry.creates
  exact ⟨imageState memory inode fun _ => 0, after, stage, imageData_formatted, carried.reached,
    copied_nothing zero carried.copied, created⟩

/-- A directory with its block in `i_block[0]`. -/
private def plainDirectory : Ext4Inode := cut (store (store (fun _ => 0) 1 1 0x41) 40 4 9)

/-- A directory with one extent, as ext4 makes them. -/
private def extentDirectory : Ext4Inode :=
  cut (store (store (store (store (store (store
    (fun _ => 0) 1 1 0x41) 32 4 ext4ExtentsFl) 40 2 ext4ExtentMagic) 42 2 1) 56 2 1)
    60 4 9)

end Kernix.Proofs
