import Kernix.Proofs.ServedCalls

/-! Calls of `ext4_create` and `ext4_mkdir` that fail. The bit and the record of the new inode
are on the disk before the directory is looked at, and nobody takes them back. -/

namespace Kernix.Proofs
open ByteMemory

variable {δ : Type}

/-- No free inode is found, be it that there is none or that the search fails. -/
def NoInode (before : Ext4State δ) (dir : Nat) : Prop :=
  ∃ after, ext4AllocInode before (before.fs.nodes dir).priv = .ok (0, after)

/-- The block in the buffer has room for an entry behind its last one. -/
def EntryFits (before : Ext4State δ) (dir : Nat) (name : List UInt8) (stage : AppendStage δ) : Prop :=
  ∃ entry, entriesEnd (cut stage.read.bytes : Fin (dirData before dir).blockSize → UInt8)
    ((dirData before dir).blockSize + 1) 0 = .ok entry ∧ entry + name.length + 5 ≤ (dirData before dir).blockSize

/-- The block of the directory cannot be written, and the call ends with that. -/
def EntryRefused (before : Ext4State δ) (dir : Nat) (name : List UInt8) (stage : AppendStage δ)
    (after : Ext4State δ) : Prop :=
  ∃ entry bytes disk, entriesEnd (cut stage.read.bytes : Fin (dirData before dir).blockSize → UInt8)
      ((dirData before dir).blockSize + 1) 0 = .ok entry ∧
    appendEntry (cut stage.read.bytes : Fin (dirData before dir).blockSize → UInt8) entry name stage.newIno = .ok bytes ∧
    ext4WriteBlock stage.read.disk (dirData before dir) stage.block (flat bytes) = .ok (-1, disk) ∧
    Ext4State.free { stage.held with disk } stage.buf = .ok after

/-- Once an inode has been taken, nothing goes wrong: the directory can be read, its block has
room and can be written. -/
structure Unhindered (before : Ext4State δ) (dir : Nat) (name : List UInt8) : Prop where
  opens : ∀ newIno stored after, Taken before dir newIno stored → ¬Hindered before dir stored after
  fits : ∀ stage, AppendReached before dir stage → EntryFits before dir name stage
  writes : ∀ stage after, AppendReached before dir stage → ¬EntryRefused before dir name stage after

/-- A call that fails changes nothing on the disk, and no call writes past the block of the directory. -/
structure Atomic (before : Ext4State δ) (dir : Nat) (name : List UInt8) : Prop where
  failed : ∀ after, ext4Create before dir name = .ok (-1, after) ∨ ext4Mkdir before dir name = .ok (-1, after) →
    SameContents before.disk after.disk
  inside : ∀ stage, AppendReached before dir stage → ∃ entry bytes,
    entriesEnd (cut stage.read.bytes : Fin (dirData before dir).blockSize → UInt8)
      ((dirData before dir).blockSize + 1) 0 =
      .ok entry ∧
    appendEntry (cut stage.read.bytes : Fin (dirData before dir).blockSize → UInt8) entry name stage.newIno = .ok bytes

/-- The bit of a new inode gets onto the disk, and neither its record nor its entry falls on it. -/
def Lasting (before : Ext4State δ) (dir : Nat) : Prop :=
  ∀ newIno bitmap byte bit, BitmapBit (dirData before dir) newIno bitmap byte bit →
    Serves before.disk (dirData before dir) bitmap ∧
    (∀ table offset, inodePlace (dirData before dir) newIno = .ok (table, offset) →
      BlocksApart before.disk (dirData before dir) table bitmap) ∧
    ∀ stage, AppendReached before dir stage → BlocksApart before.disk (dirData before dir) stage.block bitmap

private theorem appendRest_failed {before after : Ext4State δ} {dir : Nat} {name : List UInt8} {stage : AppendStage δ}
    (formatted : Formatted (dirData before dir)) :
    appendRest before dir name stage = .ok (-1, after) ↔ EntryRefused before dir name stage after := by
  constructor
  · intro result
    unfold appendRest at result
    dsimp only at result
    obtain ⟨entry, ends, result⟩ := bind_ok result
    obtain ⟨bytes, appended, result⟩ := bind_ok result
    obtain ⟨⟨wrote, disk⟩, writes, result⟩ := bind_ok result
    obtain ⟨_, either, _⟩ := ext4WriteBlock_spec formatted writes
    obtain ⟨freed, frees, result⟩ := bind_ok result
    dsimp only at result
    split at result
    next wrong =>
      cases result
      have failed : wrote = -1 := either.resolve_left fun success => absurd wrong (by rw [success]; decide)
      subst failed
      exact ⟨entry, bytes, disk, ends, appended, writes, frees⟩
    next =>
      obtain ⟨_, _, result⟩ := bind_ok result
      cases result
  · rintro ⟨entry, bytes, disk, ends, appended, writes, frees⟩
    unfold appendRest
    dsimp only [bind, Except.bind]
    rw [ends]
    dsimp only
    rw [appended]
    dsimp only
    rw [writes]
    dsimp only
    rw [frees]
    rfl

private theorem EntryFits.appends {before : Ext4State δ} {dir : Nat} {name : List UInt8} {stage : AppendStage δ}
    (fits : EntryFits before dir name stage) : ∃ entry bytes,
      entriesEnd (cut stage.read.bytes : Fin (dirData before dir).blockSize → UInt8)
        ((dirData before dir).blockSize + 1) 0 =
        .ok entry ∧
      appendEntry (cut stage.read.bytes : Fin (dirData before dir).blockSize →
        UInt8) entry name stage.newIno = .ok bytes := by
  obtain ⟨entry, ends, room⟩ := fits
  have inside : entry + name.length < (dirData before dir).blockSize := by omega
  obtain ⟨copied, copies⟩ := strCopyFrom_returns (cut stage.read.bytes) inside
  refine ⟨entry, cut (store (flat copied) (entry + name.length + 1) 4 stage.newIno), ends, ?_⟩
  unfold appendEntry
  rw [copies]
  exact if_neg (by omega)

/-- A set bit is another byte. -/
private theorem bit_changes {byte : UInt8} {k : Nat} (inside : k < 8) (clear : byte.toNat &&& 1 <<< k = 0) :
    UInt8.ofNat (byte.toNat ||| 1 <<< k) ≠ byte := by
  intro same
  have low : byte.toNat ||| 1 <<< k < 2 ^ 8 := by
    apply Nat.or_lt_two_pow byte.toNat_lt
    rw [Nat.one_shiftLeft]
    exact Nat.pow_lt_pow_right (by decide) inside
  have equal := congrArg UInt8.toNat same
  rw [UInt8.toNat_ofNat', Nat.mod_eq_of_lt low] at equal
  have set := congrArg (·.testBit k) equal
  have unset := congrArg (·.testBit k) clear
  simp only [Nat.testBit_or, Nat.testBit_and, Nat.one_shiftLeft, Nat.testBit_two_pow_self, Bool.or_true, Bool.and_true,
    Nat.zero_testBit] at set unset
  rw [unset] at set
  cases set

theorem AppendReached.taken {before : Ext4State δ} {dir : Nat} {stage : AppendStage δ}
    (reached : AppendReached before dir stage) :
    Taken before dir stage.newIno stage.stored := by
  obtain ⟨wrote, stored⟩ := reached.stored
  exact ⟨stage.found, wrote, reached.found, reached.free, stored⟩

/-- A call comes to its append in one way. -/
private theorem AppendReached.unique {before : Ext4State δ} {dir : Nat} {first second : AppendStage δ}
    (one : AppendReached before dir first) (two : AppendReached before dir second) : first = second := by
  obtain ⟨newIno, found, stored, inode, opened, block, buf, held, read⟩ := first
  obtain ⟨newIno', found', stored', inode', opened', block', buf', held', read'⟩ := second
  obtain ⟨_, stores⟩ := one.stored
  obtain ⟨_, stores'⟩ := two.stored
  cases one.found.symm.trans two.found
  cases stores.symm.trans stores'
  cases one.opened.symm.trans two.opened
  cases one.block.symm.trans two.block
  cases one.held.symm.trans two.held
  cases one.read.symm.trans two.read
  rfl

/-- A call that comes to its append has not been hindered. -/
private theorem AppendReached.unhindered {before stored after : Ext4State δ} {dir newIno : Nat} {stage : AppendStage δ}
    (reached : AppendReached before dir stage) (taken : Taken before dir newIno stored) :
    ¬Hindered before dir stored after := by
  obtain ⟨found, wrote, allocates, _, writes⟩ := taken
  obtain ⟨_, stores⟩ := reached.stored
  cases reached.found.symm.trans allocates
  cases stores.symm.trans writes
  intro hindered
  cases hindered with
  | inode opens => cases reached.opened.symm.trans opens
  | buffer opens _ allocated =>
    cases reached.opened.symm.trans opens
    exact reached.buffer (congrArg Prod.fst (Except.ok.inj (reached.held.symm.trans allocated)))
  | block opens blocks allocated _ reads failed _ =>
    cases reached.opened.symm.trans opens
    cases reached.block.symm.trans blocks
    cases reached.held.symm.trans allocated
    cases reached.read.symm.trans reads
    exact absurd (reached.success.symm.trans failed) (by decide)

/-- No inode is taken where none is found. -/
private theorem NoInode.untaken {before stored : Ext4State δ} {dir newIno : Nat} (none : NoInode before dir)
    (taken : Taken before dir newIno stored) : False := by
  obtain ⟨after, exhausted⟩ := none
  obtain ⟨found, wrote, allocates, free, _⟩ := taken
  cases exhausted.symm.trans allocates
  exact free rfl

/-- Where a bit lasts, taking an inode has changed the disk. -/
private theorem Taken.changes {before stored : Ext4State δ} {dir newIno : Nat}
    (formatted : Formatted (dirData before dir))
    (lasting : Lasting before dir) (taken : Taken before dir newIno stored) :
    SameLayout before.disk stored.disk ∧ ∃ bitmap byte, byte < (dirData before dir).blockSize ∧
      byteAt stored.disk (blockPlace before.disk (dirData before dir) bitmap byte) ≠
        byteAt before.disk (blockPlace before.disk (dirData before dir) bitmap byte) ∧
      ∀ stage, AppendReached before dir stage → BlocksApart before.disk (dirData before dir) stage.block bitmap := by
  obtain ⟨found, wrote, allocates, free, writes⟩ := taken
  have allocated := ext4AllocInode_spec formatted allocates
  obtain ⟨_, _, sameFound⟩ := allocated.touched
  have datas : found.datas = before.datas := by rw [sameFound]
  have written := ext4WriteInode_spec (datas ▸ formatted) writes
  obtain ⟨_, _, bitmap, byte, bit, place, _, clear, set⟩ := allocated.some free
  obtain ⟨table, offset, newPlace, frame, _⟩ := written.frame
  rw [datas] at newPlace frame
  obtain ⟨serves, apart, later⟩ := lasting newIno bitmap byte bit place
  refine ⟨allocated.layout.trans written.layout, bitmap, byte, place.inside, ?_, later⟩
  have kept := frame (blockPlace before.disk (dirData before dir) bitmap byte) fun i inside same =>
    apart table offset newPlace i inside byte place.inside (by rw [← allocated.layout.blockPlace]; exact same.symm)
  have wrote : byteAt found.disk (blockPlace before.disk (dirData before dir) bitmap byte) = _ := set serves
  rw [kept, wrote]
  rw [place.mask] at clear ⊢
  exact bit_changes (Nat.mod_lt _ (by decide)) clear

/-- A call that is refused the write of its entry has left the block of the directory at most. -/
private theorem EntryRefused.frame {before after : Ext4State δ} {dir : Nat} {name : List UInt8} {stage : AppendStage δ}
    (formatted : Formatted (dirData before dir)) (reached : AppendReached before dir stage)
    (refused : EntryRefused before dir name stage after) {place : DiskPlace}
    (apart : ∀ i < (dirData before dir).blockSize,
      place ≠ blockPlace stage.stored.disk (dirData before dir) stage.block i) :
    byteAt after.disk place = byteAt stage.stored.disk place := by
  obtain ⟨entry, bytes, disk, _, _, writes, frees⟩ := refused
  obtain ⟨same, _⟩ := reached.bytes formatted
  obtain ⟨_, _, frame, _⟩ := ext4WriteBlock_spec formatted writes
  have untouched := (free_touched frees).2
  rw [untouched, ← same.bytes]
  exact frame place fun i inside => by
    rw [same.layout.blockPlace]
    exact apart i inside

/-- A call that fails leaves the disk alone, and none writes past its buffer, if there is no
inode to take or nothing goes wrong behind it; where the bit of a taken inode lasts, only then. -/
theorem create_atomic {before : Ext4State δ} {dir : Nat} {name : List UInt8} (formatted : Formatted (dirData before dir))
    (clean : 0 ∉ name) :
    (NoInode before dir ∨ Unhindered before dir name → Atomic before dir name) ∧
      (Lasting before dir → Atomic before dir name → NoInode before dir ∨ Unhindered before dir name) := by
  constructor
  · intro fine
    refine ⟨fun after failed => ?_, fun stage reached => ?_⟩
    · have result : ext4Create before dir name = .ok (-1, after) := failed.elim id id
      rcases ext4Create_cases formatted result with ⟨_, none⟩ | ⟨_, newIno, stored, taken, hindered⟩ | ⟨stage,
        reached, rest⟩
      · exact (ext4AllocInode_spec formatted none).none rfl
      · rcases fine with none | unhindered
        · exact (none.untaken taken).elim
        · exact (unhindered.opens newIno stored after taken hindered).elim
      · rcases fine with none | unhindered
        · exact (none.untaken reached.taken).elim
        · exact (unhindered.writes stage after reached ((appendRest_failed formatted).mp rest)).elim
    · rcases fine with none | unhindered
      · exact (none.untaken reached.taken).elim
      · exact (unhindered.fits stage reached).appends
  · intro lasting atomic
    by_cases none : NoInode before dir
    · exact Or.inl none
    right
    refine ⟨fun newIno stored after taken hindered => ?_, fun stage reached => ?_, fun stage after reached refused => ?_⟩
    · obtain ⟨_, bitmap, byte, _, changed, _⟩ := taken.changes formatted lasting
      have same := atomic.failed after (Or.inl (hindered.create taken name))
      exact changed (((hindered.contents formatted taken).bytes _).symm.trans (same.bytes _))
    · obtain ⟨entry, bytes, ends, appended⟩ := atomic.inside stage reached
      exact ⟨entry, ends, (appendEntry_ok clean appended).fits⟩
    · obtain ⟨layout, bitmap, byte, inside, changed, apart⟩ := reached.taken.changes formatted lasting
      have failed := (reached.create name).trans ((appendRest_failed formatted).mpr refused)
      have same := atomic.failed after (Or.inl failed)
      have kept := refused.frame formatted reached fun i within equal => apart stage reached i within byte inside (by
        rw [← layout.blockPlace]
        exact equal.symm)
      exact changed (kept.symm.trans (same.bytes _))

/-- A directory without extents, whose block is block 9. -/
private def flatDirectory : Ext4Inode := cut (store (store (fun _ => 0) 1 1 0x41) 40 4 9)

/-- A name goes into an empty directory without trouble. -/
theorem create_atomic_empty : ∃ before : Ext4State Unit, Unhindered before 5 (literal "a") ∧ Atomic before 5 (literal "a") := by
  obtain ⟨memory, divided⟩ := imageState_divided flatDirectory fun _ => 0
  let plan := imagePlan divided (show ext4GetBlockFromExtents flatDirectory 0 = .ok 9 by decide +kernel)
    (by decide +kernel) rfl rfl
  have entry : EntryPlan plan (literal "a") := imageEntry
  obtain ⟨stage, after, carried, created⟩ := entry.creates
  have formatted : Formatted (dirData (imageState memory flatDirectory fun _ => 0) 5) := imageData_formatted
  have unhindered : Unhindered (imageState memory flatDirectory fun _ => 0) 5 (literal "a") := by
    refine ⟨fun newIno stored after taken => carried.reached.unhindered taken, fun other reached => ?_,
      fun other later reached refused => ?_⟩
    · cases carried.reached.unique reached
      exact ⟨entry.entry, by rw [carried.bytes]; exact entry.ends, entry.fits⟩
    · have failed := (reached.create _).trans ((appendRest_failed formatted).mpr refused)
      cases created.symm.trans failed
  exact ⟨_, unhindered, (create_atomic formatted (by decide)).1 (Or.inr unhindered)⟩

/-- Block 9 of an image, filled with one entry up to its last five bytes. -/
private def filledBlock (place : Nat) : UInt8 := if 9 * 1024 ≤ place ∧ place < 9 * 1024 + 1014 then 97 else 0

private theorem entriesEnd_filled {buf : Fin 1024 → UInt8} {fuel : Nat}
    (filled : ∀ index, buf index = filledBlock (9 * 1024 + index)) : entriesEnd buf (fuel + 2) 0 = .ok 1019 := by
  have long : TextIs buf 0 (List.replicate 1014 97) := by
    refine ⟨by rw [List.length_replicate]; omega, fun index inside => ?_, ?_, ?_⟩
    · rw [List.length_replicate] at inside
      rw [filled, filledBlock, if_pos (by dsimp only; omega), List.getElem_replicate]
    · rw [filled, filledBlock, if_neg (by simp only [List.length_replicate]; omega)]
    · exact fun member => absurd (List.eq_of_mem_replicate member) (by decide)
  have stop : TextIs buf 1019 [] := by
    refine ⟨show 1019 + 0 < 1024 by omega, fun index inside => absurd inside (Nat.not_lt_zero index), ?_,
      List.not_mem_nil⟩
    rw [filled, filledBlock, if_neg (by simp only [List.length_nil]; omega)]
  have named : List.replicate 1014 (97 : UInt8) ≠ [] := fun none => by
    have length := congrArg List.length none
    rw [List.length_replicate, List.length_nil] at length
    omega
  rw [entriesEnd, long.ok]
  dsimp only [bind, Except.bind]
  rw [if_neg named, List.length_replicate, entriesEnd, stop.ok]
  rfl

/-- An entry is written past the end of a block that is full. -/
theorem create_atomic_fails :
    ¬ ∀ (before : Ext4State Unit) (dir : Nat) (name : List UInt8), Formatted (dirData before dir) → 0 ∉ name →
      Atomic before dir name := by
  intro always
  obtain ⟨memory, divided⟩ := imageState_divided flatDirectory filledBlock
  let plan := imagePlan divided (show ext4GetBlockFromExtents flatDirectory 0 = .ok 9 by decide +kernel)
    (by decide +kernel)
    (if_neg (by omega)) (if_neg (by omega))
  obtain ⟨stage, carried⟩ := plan.reaches
  obtain ⟨entry, bytes, ends, appended⟩ :=
    (always (imageState memory flatDirectory filledBlock) 5 (literal "a") imageData_formatted (by decide)).inside stage carried.reached
  have full := @entriesEnd_filled (blockBytes
    (imageState memory flatDirectory filledBlock).disk imageData 9) 1023 fun index => by
    change filledBlock (u64 (9 * 1024) + index) = _
    rw [show u64 (9 * 1024) = 9 * 1024 by decide]
  rw [carried.bytes] at ends
  cases full.symm.trans ends
  exact absurd (appendEntry_ok (by decide) appended).fits (show ¬1019 + 1 + 5 ≤ 1024 by decide)

end Kernix.Proofs
