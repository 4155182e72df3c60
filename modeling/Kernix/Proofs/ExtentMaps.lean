import Kernix.Fs.Ext4Layout

/-! The blocks of a file by its extents, as the format has them, and as the search over the
entries finds them: it does not look at the depth of the tree, it takes any number of
entries, and it adds the length of an extent in 32 bits. -/

namespace Kernix.Proofs
open ByteMemory

/-- `searchExtents` with any way to read the fields. -/
def searchExtentsIn (read : Nat → Nat → Except Stop Nat) (blockIndex : Nat) : Nat → Nat → Except Stop Nat
  | 0, _ => .ok 0
  | left + 1, index => do
    let eeBlock ← read (52 + 12 * index) 4
    if eeBlock ≤ blockIndex then
      let eeLen ← read (56 + 12 * index) 2
      if blockIndex < (eeBlock + eeLen) % 2 ^ 32 then
        let eeStartHi ← read (58 + 12 * index) 2
        let eeStartLo ← read (60 + 12 * index) 4
        return u64 ((eeStartLo ||| eeStartHi <<< 32) + (blockIndex - eeBlock))
      searchExtentsIn read blockIndex left (index + 1)
    else searchExtentsIn read blockIndex left (index + 1)

/-- `ext4GetBlockFromExtents` with any way to read the fields behind the flags. -/
def blockFromExtentsIn (read : Nat → Nat → Except Stop Nat) (flags blockIndex : Nat) : Except Stop Nat := do
  if flags &&& ext4ExtentsFl = 0 then
    if blockIndex < 12 then read (40 + 4 * blockIndex) 4 else return 0
  else
    let magic ← read 40 2
    if magic ≠ ext4ExtentMagic then return 0
    let entries ← read 42 2
    searchExtentsIn read blockIndex entries 0

theorem searchExtents_eq (inode : Ext4Inode) (blockIndex left index : Nat) :
    searchExtents inode blockIndex left index = searchExtentsIn inode.field blockIndex left index := by
  induction left generalizing index with
  | zero => rfl
  | succ left ih =>
    rw [searchExtents, searchExtentsIn]
    simp only [ih]

theorem blockFromExtents_eq (inode : Ext4Inode) (blockIndex : Nat) :
    ext4GetBlockFromExtents inode blockIndex = blockFromExtentsIn inode.field inode.flags blockIndex := by
  unfold ext4GetBlockFromExtents blockFromExtentsIn
  have field {offset count : Nat} (inside : offset + count ≤ 156) : inode.field offset count =
    .ok (load (flat inode) offset count) :=
    if_pos inside
  split
  next =>
    split
    next low => exact (field (by omega)).symm
    next => rfl
  next =>
    rw [field (by decide), field (by decide)]
    dsimp only [bind, Except.bind]
    split
    next => rfl
    next => exact searchExtents_eq inode blockIndex _ 0

/-- A field, which has to lie in the 60 bytes of `i_block`. -/
def areaField (inode : Ext4Inode) (offset count : Nat) : Except Stop Nat :=
  if 40 ≤ offset ∧ offset + count ≤ 100 then inode.field offset count else .error .undefined

/-- No read leaves the area. -/
def ReadsInside (inode : Ext4Inode) (blockIndex : Nat) : Prop :=
  ∃ block, blockFromExtentsIn (areaField inode) inode.flags blockIndex = .ok block

/-! The header and the entries. -/

def ehEntries (inode : Ext4Inode) : Nat := load (flat inode) 42 2
def ehDepth (inode : Ext4Inode) : Nat := load (flat inode) 46 2
def eeBlock (inode : Ext4Inode) (index : Nat) : Nat := load (flat inode) (52 + 12 * index) 4
def eeLen (inode : Ext4Inode) (index : Nat) : Nat := load (flat inode) (56 + 12 * index) 2
def eeStartHi (inode : Ext4Inode) (index : Nat) : Nat := load (flat inode) (58 + 12 * index) 2
def eeStartLo (inode : Ext4Inode) (index : Nat) : Nat := load (flat inode) (60 + 12 * index) 4

/-- The inode is mapped by extents, and has their header. -/
def Mapped (inode : Ext4Inode) : Prop := inode.flags &&& ext4ExtentsFl ≠ 0 ∧ load (flat inode) 40 2 = ext4ExtentMagic

/-- The blocks of an extent. Lengths from 32769 on stand for extents that are not written yet. -/
def extentLength (raw : Nat) : Nat := if 32768 < raw then raw - 32768 else raw

/-- The format: an extent covers a block of the file. -/
def ExtentCovers (inode : Ext4Inode) (blockIndex index : Nat) : Prop :=
  eeBlock inode index ≤ blockIndex ∧ blockIndex < eeBlock inode index + extentLength (eeLen inode index)

/-- The block of the volume that an extent has for a block of the file. -/
def physicalBlock (inode : Ext4Inode) (blockIndex index : Nat) : Nat :=
  eeStartHi inode index * 2 ^ 32 + eeStartLo inode index + (blockIndex - eeBlock inode index)

/-- The test of the search. -/
def Hits (inode : Ext4Inode) (blockIndex index : Nat) : Prop :=
  eeBlock inode index ≤ blockIndex ∧ blockIndex < (eeBlock inode index + eeLen inode index) % 2 ^ 32

instance (inode : Ext4Inode) (blockIndex index : Nat) : Decidable (Hits inode blockIndex index) :=
  inferInstanceAs (Decidable (_ ∧ _))

/-- The entry that ends the search. -/
structure FirstHit (inode : Ext4Inode) (blockIndex index : Nat) : Prop where
  inside : index < ehEntries inode
  hits : Hits inode blockIndex index
  first : ∀ earlier < index, ¬Hits inode blockIndex earlier

/-- The block that the format gives, read from the area only. -/
structure MappingRight (inode : Ext4Inode) (blockIndex : Nat) : Prop where
  inside : ReadsInside inode blockIndex
  direct : inode.flags &&& ext4ExtentsFl = 0 → blockIndex < 12 →
    ext4GetBlockFromExtents inode blockIndex = .ok (inode.block blockIndex)
  deep : Mapped inode → ehDepth inode ≠ 0 → ext4GetBlockFromExtents inode blockIndex = .ok 0
  covered : Mapped inode → ehDepth inode = 0 → ehEntries inode ≤ 4 →
    ∀ index < ehEntries inode, ExtentCovers inode blockIndex index →
    (∀ other < ehEntries inode, ExtentCovers inode blockIndex other → other = index) →
      ext4GetBlockFromExtents inode blockIndex = .ok (physicalBlock inode blockIndex index)
  bare : Mapped inode → ehDepth inode = 0 → ehEntries inode ≤ 4 →
    (∀ index < ehEntries inode, ¬ExtentCovers inode blockIndex index) →
    ext4GetBlockFromExtents inode blockIndex = .ok 0

/-- The test of the search is right: it ends in the area, no entry of an inner node passes it,
and the first entry that does is the one that covers the block. Where it is not, the block
may still be the same one by chance. -/
structure TestRight (inode : Ext4Inode) (blockIndex : Nat) : Prop where
  few : ehEntries inode ≤ 4 ∨ ∃ index < 4, Hits inode blockIndex index
  leaf : ehDepth inode ≠ 0 → ∀ index, FirstHit inode blockIndex index → physicalBlock inode blockIndex index = 0
  covering : ehDepth inode = 0 → ehEntries inode ≤ 4 → ∀ index < ehEntries inode, ExtentCovers inode blockIndex index →
    (∀ other < ehEntries inode, ExtentCovers inode blockIndex other → other = index) →
      (∃ other, FirstHit inode blockIndex other ∧
        (other = index ∨ physicalBlock inode blockIndex other = physicalBlock inode blockIndex index)) ∨
      (∀ other < ehEntries inode, ¬Hits inode blockIndex other) ∧ physicalBlock inode blockIndex index = 0
  bare : ehDepth inode = 0 → ehEntries inode ≤ 4 → (∀ index < ehEntries inode, ¬ExtentCovers inode blockIndex index) →
    ∀ index, FirstHit inode blockIndex index → physicalBlock inode blockIndex index = 0

/-- The extents of small files as they are made: written, and below the largest block. -/
structure UsualExtents (inode : Ext4Inode) : Prop where
  leaf : ehDepth inode = 0
  few : ehEntries inode ≤ 4
  written : ∀ index < ehEntries inode, eeLen inode index ≤ 32768
  below : ∀ index < ehEntries inode, eeBlock inode index + eeLen inode index < 2 ^ 32

theorem area_ok {inode : Ext4Inode} {offset count : Nat} (low : 40 ≤ offset) (high : offset + count ≤ 100) :
    areaField inode offset count = .ok (load (flat inode) offset count) := by
  rw [areaField, if_pos ⟨low, high⟩]
  exact if_pos (high.trans (by decide))

theorem area_outside {inode : Ext4Inode} {offset count : Nat} (high : 100 < offset + count) :
    areaField inode offset count = .error .undefined :=
  if_neg fun inside => by omega

/-- The address in an extent has two parts. -/
theorem physical_eq {inode : Ext4Inode} {blockIndex index : Nat} (hits : Hits inode blockIndex index) :
    u64 ((eeStartLo inode index ||| eeStartHi inode index <<< 32) + (blockIndex - eeBlock inode index)) =
      physicalBlock inode blockIndex index := by
  have low : eeStartLo inode index < 2 ^ 32 := load_lt _ _ 4
  have high : eeStartHi inode index < 2 ^ 16 := load_lt _ _ 2
  have bound : blockIndex < 2 ^ 32 := hits.2.trans (Nat.mod_lt _ (Nat.two_pow_pos 32))
  have joined : eeStartLo inode index ||| eeStartHi inode index <<< 32 =
    eeStartHi inode index * 2 ^ 32 + eeStartLo inode index := by
    rw [Nat.or_comm, ← Nat.shiftLeft_add_eq_or_of_lt low, Nat.shiftLeft_eq]
  rw [joined, physicalBlock]
  exact u64_eq (by omega)

section
variable {inode : Ext4Inode} {blockIndex : Nat}

/-- A way to read that gives the fields of the area. -/
def ReadsArea (read : Nat → Nat → Except Stop Nat) (inode : Ext4Inode) : Prop :=
  ∀ offset count, 40 ≤ offset → offset + count ≤ 100 → read offset count = .ok (load (flat inode) offset count)

theorem area_reads (inode : Ext4Inode) : ReadsArea (areaField inode) inode := fun _ _ low high => area_ok low high

theorem field_reads (inode : Ext4Inode) : ReadsArea inode.field inode := fun _ _ _ high =>
  if_pos (high.trans (by decide))

/-- One entry either ends the search or passes it on. -/
theorem searchIn_step {read : Nat → Nat → Except Stop Nat} (reads : ReadsArea read inode) {index : Nat} (low : index < 4)
    (left : Nat) : searchExtentsIn read blockIndex (left + 1) index =
      if Hits inode blockIndex index then .ok (physicalBlock inode blockIndex index)
      else searchExtentsIn read blockIndex left (index + 1) := by
  have start : read (52 + 12 * index) 4 = .ok (eeBlock inode index) := reads _ _ (by omega) (by omega)
  have length : read (56 + 12 * index) 2 = .ok (eeLen inode index) := reads _ _ (by omega) (by omega)
  have high : read (58 + 12 * index) 2 = .ok (eeStartHi inode index) := reads _ _ (by omega) (by omega)
  have bottom : read (60 + 12 * index) 4 = .ok (eeStartLo inode index) := reads _ _ (by omega) (by omega)
  rw [searchExtentsIn, start]
  dsimp only [bind, Except.bind]
  by_cases after : eeBlock inode index ≤ blockIndex
  · rw [if_pos after, length]
    dsimp only
    by_cases before : blockIndex < (eeBlock inode index + eeLen inode index) % 2 ^ 32
    · have hits : Hits inode blockIndex index := ⟨after, before⟩
      rw [if_pos before, if_pos hits, high]
      dsimp only
      rw [bottom]
      exact congrArg Except.ok (physical_eq hits)
    · rw [if_neg before, if_neg fun hits => before hits.2]
  · rw [if_neg after, if_neg fun hits => after hits.1]

theorem searchIn_hit {read : Nat → Nat → Except Stop Nat} (reads : ReadsArea read inode) {left index found : Nat}
    (low : index ≤ found) (high : found < index + left) (area : found < 4) (hits : Hits inode blockIndex found)
    (first : ∀ other, index ≤ other → other < found → ¬Hits inode blockIndex other) :
    searchExtentsIn read blockIndex left index = .ok (physicalBlock inode blockIndex found) := by
  induction left generalizing index with
  | zero => omega
  | succ left ih =>
    rw [searchIn_step reads (by omega)]
    by_cases here : index = found
    · subst here
      rw [if_pos hits]
    · rw [if_neg (first index (Nat.le_refl _) (by omega))]
      exact ih (by omega) (by omega) fun other after => first other (by omega)

theorem searchIn_none {read : Nat → Nat → Except Stop Nat} (reads : ReadsArea read inode) {left index : Nat}
    (area : index + left ≤ 4) (none : ∀ other, index ≤ other → other < index + left → ¬Hits inode blockIndex other) :
    searchExtentsIn read blockIndex left index = .ok 0 := by
  induction left generalizing index with
  | zero => rfl
  | succ left ih =>
    rw [searchIn_step reads (by omega), if_neg (none index (Nat.le_refl _) (by omega))]
    exact ih (by omega) fun other after before => none other (by omega) (by omega)

/-- The search that gets to a fifth entry reads behind the area. -/
theorem searchIn_outside {left index : Nat} (start : index ≤ 4) (beyond : 4 < index + left)
    (none : ∀ other, index ≤ other → other < 4 → ¬Hits inode blockIndex other) :
    searchExtentsIn (areaField inode) blockIndex left index = .error .undefined := by
  induction left generalizing index with
  | zero => omega
  | succ left ih =>
    by_cases last : index = 4
    · subst last
      rw [searchExtentsIn, area_outside (by decide)]
      rfl
    · rw [searchIn_step (area_reads inode) (by omega), if_neg (none index (Nat.le_refl _) (by omega))]
      exact ih (by omega) (by omega) fun other after => none other (by omega)

/-- What is left of a call for an inode that is mapped by extents. -/
theorem mapped_search (mapped : Mapped inode) {read : Nat → Nat → Except Stop Nat} (reads : ReadsArea read inode) :
    blockFromExtentsIn read inode.flags blockIndex = searchExtentsIn read blockIndex (ehEntries inode) 0 := by
  have magic : read 40 2 = .ok ext4ExtentMagic := (reads _ _ (by decide) (by decide)).trans (congrArg Except.ok mapped.2)
  have entries : read 42 2 = .ok (ehEntries inode) := reads _ _ (by decide) (by decide)
  unfold blockFromExtentsIn
  rw [if_neg mapped.1, magic]
  dsimp only [bind, Except.bind]
  rw [if_neg (not_not.mpr rfl), entries]

theorem FirstHit.block {index : Nat} (mapped : Mapped inode) (found : FirstHit inode blockIndex index)
    (area : index < 4) :
    ext4GetBlockFromExtents inode blockIndex = .ok (physicalBlock inode blockIndex index) := by
  rw [blockFromExtents_eq, mapped_search mapped (field_reads inode)]
  exact searchIn_hit (field_reads inode) (Nat.zero_le _) (by simpa using found.inside) area found.hits
    fun other _ before => found.first other before

theorem noHit_block (mapped : Mapped inode) (few : ehEntries inode ≤ 4)
    (none : ∀ index < ehEntries inode, ¬Hits inode blockIndex index) :
    ext4GetBlockFromExtents inode blockIndex = .ok 0 := by
  rw [blockFromExtents_eq, mapped_search mapped (field_reads inode)]
  exact searchIn_none (field_reads inode) (by omega) fun other _ before => none other (by omega)

/-- Some entry ends the search if any passes the test. -/
theorem firstHit_exists {index : Nat} (inside : index < ehEntries inode) (hits : Hits inode blockIndex index) :
    ∃ first ≤ index, FirstHit inode blockIndex first := by
  have some : ∃ index, Hits inode blockIndex index := ⟨index, hits⟩
  have least : Nat.find some ≤ index := Nat.find_min' some hits
  exact ⟨Nat.find some, least, by omega, Nat.find_spec some, fun earlier early => Nat.find_min some early⟩

/-- The search ends in the area at an entry, or finds none. -/
theorem search_cases (few : ehEntries inode ≤ 4 ∨ ∃ index < 4, Hits inode blockIndex index) :
    (∃ index < 4, FirstHit inode blockIndex index) ∨
      ehEntries inode ≤ 4 ∧ ∀ index < ehEntries inode, ¬Hits inode blockIndex index := by
  by_cases none : ∀ index < ehEntries inode, ¬Hits inode blockIndex index
  · by_cases small : ehEntries inode ≤ 4
    · exact .inr ⟨small, none⟩
    · obtain ⟨index, low, hits⟩ := few.resolve_left small
      exact (none index (by omega) hits).elim
  · simp only [not_forall, not_not] at none
    obtain ⟨index, inside, hits⟩ := none
    obtain ⟨first, early, found⟩ := firstHit_exists inside hits
    have within := found.inside
    refine .inl ⟨first, ?_, found⟩
    rcases few with small | ⟨other, low, passes⟩
    · omega
    · have before := mt (found.first other)
      by_contra far
      exact before (not_not.mpr passes) (by omega)

theorem readsInside_iff (mapped : Mapped inode) :
    ReadsInside inode blockIndex ↔ ehEntries inode ≤ 4 ∨ ∃ index < 4, Hits inode blockIndex index := by
  unfold ReadsInside
  rw [mapped_search mapped (area_reads inode)]
  constructor
  · rintro ⟨block, result⟩
    by_contra outside
    simp only [not_or, not_exists, not_and, not_le] at outside
    rw [searchIn_outside (Nat.zero_le _) (by omega) fun other _ low => outside.2 other low] at result
    cases result
  · intro few
    rcases search_cases few with ⟨index, low, found⟩ | ⟨small, none⟩
    · exact ⟨_, searchIn_hit (area_reads inode) (Nat.zero_le _) (by simpa using found.inside) low found.hits
        fun other _ before => found.first other before⟩
    · exact ⟨0, searchIn_none (area_reads inode) (by omega) fun other _ before => none other (by omega)⟩

/-- Without extents, or without their header, no entry is read. -/
theorem unmapped_inside (unmapped : ¬Mapped inode) : ReadsInside inode blockIndex := by
  unfold ReadsInside blockFromExtentsIn
  by_cases plain : inode.flags &&& ext4ExtentsFl = 0
  · rw [if_pos plain]
    by_cases low : blockIndex < 12
    · rw [if_pos low, area_ok (by omega) (by omega)]
      exact ⟨_, rfl⟩
    · rw [if_neg low]
      exact ⟨0, rfl⟩
  · rw [if_neg plain, area_ok (by decide) (by decide)]
    dsimp only [bind, Except.bind]
    rw [if_pos fun magic => unmapped ⟨plain, magic⟩]
    exact ⟨0, rfl⟩

theorem direct_block (plain : inode.flags &&& ext4ExtentsFl = 0) (low : blockIndex < 12) :
    ext4GetBlockFromExtents inode blockIndex = .ok (inode.block blockIndex) := by
  unfold ext4GetBlockFromExtents
  rw [if_pos plain, if_pos low]

theorem MappingRight.test (right : MappingRight inode blockIndex) (mapped : Mapped inode) :
    TestRight inode blockIndex := by
  have few := (readsInside_iff mapped).mp right.inside
  have area {index : Nat} (found : FirstHit inode blockIndex index) : index < 4 := by
    have inside := found.inside
    rcases few with small | ⟨other, low, hits⟩
    · omega
    · by_contra far
      exact found.first other (by omega) hits
  refine ⟨few, fun deep index found => ?_, fun leaf small index inside covers unique => ?_,
    fun leaf small none index found => ?_⟩
  · exact Except.ok.inj ((found.block mapped (area found)).symm.trans (right.deep mapped deep))
  · have block := right.covered mapped leaf small index inside covers unique
    rcases search_cases few with ⟨other, low, found⟩ | ⟨_, none⟩
    · exact .inl ⟨other, found, .inr (Except.ok.inj ((found.block mapped low).symm.trans block))⟩
    · exact .inr ⟨none, Except.ok.inj (block.symm.trans (noHit_block mapped small none))⟩
  · exact Except.ok.inj ((found.block mapped (area found)).symm.trans (right.bare mapped leaf small none))

theorem TestRight.mapping (test : TestRight inode blockIndex) (mapped : Mapped inode) :
    MappingRight inode blockIndex := by
  refine ⟨(readsInside_iff mapped).mpr test.few, fun plain => absurd plain mapped.1, fun _ deep => ?_,
    fun _ leaf small index inside covers unique => ?_, fun _ leaf small none => ?_⟩
  · rcases search_cases test.few with ⟨index, low, found⟩ | ⟨small, none⟩
    · rw [found.block mapped low, test.leaf deep index found]
    · exact noHit_block mapped small none
  · rcases test.covering leaf small index inside covers unique with ⟨other, found, same⟩ | ⟨none, zero⟩
    · have within := found.inside
      rw [found.block mapped (by omega)]
      rcases same with rfl | equal
      · rfl
      · rw [equal]
    · rw [noHit_block mapped small none, zero]
  · rcases search_cases test.few with ⟨index, low, found⟩ | ⟨_, noHit⟩
    · rw [found.block mapped low, test.bare leaf small none index found]
    · exact noHit_block mapped small noHit

theorem UsualExtents.test (usual : UsualExtents inode) (blockIndex : Nat) : TestRight inode blockIndex := by
  have same {index : Nat} (inside : index < ehEntries inode) : Hits inode blockIndex index ↔
    ExtentCovers inode blockIndex index := by
    have written := usual.written index inside
    unfold Hits ExtentCovers extentLength
    rw [if_neg (by omega), Nat.mod_eq_of_lt (usual.below index inside)]
  refine ⟨.inl usual.few, fun deep => absurd usual.leaf deep,
    fun _ _ index inside covers unique => .inl ⟨index, ?_, .inl rfl⟩,
    fun _ _ none index found => (none index found.inside ((same found.inside).mp found.hits)).elim⟩
  refine ⟨inside, (same inside).mpr covers, fun earlier early hits => ?_⟩
  have within : earlier < ehEntries inode := early.trans inside
  have equal := unique earlier within ((same within).mp hits)
  omega

end

/-- The call gives the block of the format exactly when its test is right for the inode, which
it always is for the extents that are usual. -/
theorem mapping_right_iff (inode : Ext4Inode) :
    (∀ blockIndex, MappingRight inode blockIndex ↔ (Mapped inode → TestRight inode blockIndex)) ∧
      (UsualExtents inode → ∀ blockIndex, MappingRight inode blockIndex) := by
  have whole (blockIndex : Nat) : MappingRight inode blockIndex ↔ (Mapped inode → TestRight inode blockIndex) := by
    refine ⟨fun right mapped => right.test mapped, fun test => ?_⟩
    by_cases mapped : Mapped inode
    · exact (test mapped).mapping mapped
    · exact ⟨unmapped_inside mapped, direct_block, fun given => absurd given mapped, fun given => absurd given mapped,
        fun given => absurd given mapped⟩
  exact ⟨whole, fun usual blockIndex => (whole blockIndex).mpr fun _ => usual.test blockIndex⟩

/-- An inner node with one entry: block 5 of the volume has the extents from 0 on. -/
def deepInode : Ext4Inode :=
  cut (store (store (store (store (store (fun _ => 0) 32 4 ext4ExtentsFl) 40 2 ext4ExtentMagic) 42 2 1) 46 2 1) 56 4 5)

/-- Block 1 of the file is taken to be block 1 of the volume. -/
theorem deep_inode_mapped : Mapped deepInode ∧ ehDepth deepInode = 1 ∧ ext4GetBlockFromExtents deepInode 1 = .ok 1 ∧
    ¬MappingRight deepInode 1 := by
  have mapped : Mapped deepInode := by
    unfold Mapped
    decide +kernel
  have depth : ehDepth deepInode = 1 := by decide +kernel
  have block : ext4GetBlockFromExtents deepInode 1 = .ok 1 := by decide +kernel
  refine ⟨mapped, depth, block, fun right => ?_⟩
  have zero := right.deep mapped (by omega)
  rw [block] at zero
  exact absurd (Except.ok.inj zero) (by decide)

end Kernix.Proofs
