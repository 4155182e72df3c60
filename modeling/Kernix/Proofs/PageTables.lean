import Kernix.Memory.Paging
import Kernix.Lib.RadixTable
import Kernix.Proofs.PhysmemFrames
import Kernix.Proofs.MemoryCalls

/-! The page tables as a radix tree. Mapping a page extends the tree by the tables
that are missing on one path, then writes one entry of the last level. -/

namespace Kernix.Proofs
open ByteMemory RadixTable

/-- The x86-64 entry format, as far as a walk depends on it. -/
def pageFormat : Format where
  fanout := 512
  present entry := entry.testBit 0
  large entry := entry.testBit 7
  target entry := entry &&& pteAddress

/-- The four indices of an address, outermost first. -/
def pathOf (virtualAddr : Nat) : List Nat :=
  [pml4Index virtualAddr, pdpIndex virtualAddr, pdIndex virtualAddr, ptIndex virtualAddr]

/-- The physical address of the root table. -/
def rootTable (offset : Nat) (paging : Paging) : Nat := virtToPhys offset paging.kernelPml4

def tableOf (offset : Nat) (paging : Paging) (path : List Nat) : Option Nat :=
  tableAt pageFormat paging.memory (rootTable offset paging) path

/-- The four-level walk of an address: the entry it ends at and the level of
that entry, 1 for a page and more for a large page. -/
def walkOf (offset : Nat) (paging : Paging) (virtualAddr : Nat) : Leaf :=
  walk pageFormat paging.memory (rootTable offset paging) (pathOf virtualAddr)

/-- Two addresses in one 4 KiB page: they agree on the bits 12 to 47. -/
def SamePage (first second : Nat) : Prop := (first >>> 12) % 2 ^ 36 = (second >>> 12) % 2 ^ 36

/-- No present entry above the last level on the path of an address is a large page. -/
def NoLargePage (offset : Nat) (paging : Paging) (virtualAddr : Nat) : Prop :=
  (walkOf offset paging virtualAddr).level = 1

/-- A path to a table. -/
abbrev TablePath (path : List Nat) : Prop := Path pageFormat 3 path

/-- The tables form a tree below `kernel_pml4`: each path has a frame of its own,
every frame is marked used, and frame addresses fit in an entry. -/
structure PageTree (offset : Nat) (paging : Paging) : Prop where
  pointer : paging.kernelPml4 < 2 ^ 64
  aligned : rootTable offset paging % pageSize = 0
  width : paging.physmem.total * pageSize ≤ 2 ^ 52
  distinct : ∀ first second left right, TablePath first → TablePath second →
    tableOf offset paging first = some left → tableOf offset paging second = some right →
    left / pageSize = right / pageSize → first = second
  used : ∀ path table, TablePath path → tableOf offset paging path = some table →
    table / pageSize < paging.physmem.total ∧ bitmapTest paging.physmem.bitmap (table / pageSize) = 1

theorem present_iff (entry : Nat) : entry &&& ptePresent = 0 ↔ pageFormat.present entry = false := by
  have bit : entry &&& ptePresent = entry % 2 := Nat.and_one_is_mod entry
  rw [bit]
  simp [pageFormat, Nat.testBit_zero]

theorem target_eq (entry : Nat) : entry &&& pteAddress = entry / 2 ^ 12 % 2 ^ 40 * 2 ^ 12 :=
  and_block entry 40 12

theorem target_aligned (entry : Nat) : (entry &&& pteAddress) % pageSize = 0 := by
  rw [target_eq]
  exact Nat.mul_mod_left _ _

theorem target_lt (entry : Nat) : entry &&& pteAddress < 2 ^ 52 := by
  rw [target_eq]
  omega

theorem index_eq (virtualAddr shift : Nat) : (virtualAddr >>> shift) &&& 0x1FF = virtualAddr / 2 ^ shift % 512 := by
  rw [← Nat.shiftRight_eq_div_pow]
  exact Nat.and_two_pow_sub_one_eq_mod _ 9

theorem pathOf_small (virtualAddr : Nat) : Path pageFormat 4 (pathOf virtualAddr) := by
  refine ⟨le_refl _, fun index member => ?_⟩
  simp only [pathOf, pml4Index, pdpIndex, pdIndex, ptIndex, index_eq, List.mem_cons, List.not_mem_nil, or_false] at member
  rcases member with rfl | rfl | rfl | rfl <;> exact Nat.mod_lt _ (by decide)

/-- Different pages have different paths. -/
theorem pathOf_inj {first second : Nat} (same : pathOf first = pathOf second) : SamePage first second := by
  simp only [pathOf, pml4Index, pdpIndex, pdIndex, ptIndex, index_eq, List.cons.injEq, and_true] at same
  simp only [SamePage, Nat.shiftRight_eq_div_pow]
  omega

/-- A pointer into the direct map reads the table it stands for. -/
theorem directMap {table index : Nat} (offset : Nat) (fits : table + 8 * index < 2 ^ 64) :
    virtToPhys offset (u64 (u64 (table + offset) + 8 * index)) = table + 8 * index := by
  simp only [virtToPhys, u64Sub, u64]
  omega

theorem rootTable_pointer (offset : Nat) {paging : Paging} (bound : paging.kernelPml4 < 2 ^ 64) :
    u64 (rootTable offset paging + offset) = paging.kernelPml4 := by
  simp only [rootTable, virtToPhys, u64Sub, u64]
  omega

theorem virtToPhys_pointer {offset table : Nat} (low : table < 2 ^ 52) :
    virtToPhys offset (u64 (table + offset)) = table :=
  u64Sub_offset (Nat.lt_trans low (by decide)) offset

theorem entries_pointer {offset table index : Nat} (memory : Memory) (low : table < 2 ^ 52) (small : index < 512) :
    entries offset memory (u64 (table + offset)) index = entryAt memory table index := by
  rw [entries, directMap offset (by omega)]
  rfl

theorem setEntries_pointer {offset table index : Nat} (memory : Memory) (value : Nat) (low : table < 2 ^ 52)
    (small : index < 512) :
    setEntries offset memory (u64 (table + offset)) index value = store memory (table + 8 * index) 8 value := by
  rw [setEntries, directMap offset (by omega)]

theorem tableAt_aligned {memory : Memory} {root table : Nat} {path : List Nat} (aligned : root % pageSize = 0)
    (found : tableAt pageFormat memory root path = some table) : table % pageSize = 0 := by
  induction path generalizing root with
  | nil =>
    cases found
    exact aligned
  | cons index rest ih =>
    simp only [tableAt] at found
    split at found
    · exact ih (target_aligned _) found
    · cases found

section PageTree
variable {offset : Nat} {paging : Paging} (tree : PageTree offset paging)
include tree

theorem PageTree.bounds {path : List Nat} {table : Nat} (valid : TablePath path)
    (found : tableOf offset paging path = some table) : table % pageSize = 0 ∧ table < 2 ^ 52 := by
  have width := tree.width
  have inside := (tree.used path table valid found).1
  refine ⟨tableAt_aligned tree.aligned found, ?_⟩
  simp only [pageSize] at *
  omega

theorem PageTree.root_lt : rootTable offset paging < 2 ^ 52 := by
  have valid : TablePath [] := ⟨Nat.zero_le 3, fun _ member => by cases member⟩
  exact (tree.bounds valid rfl).2

theorem PageTree.radix : Tree pageFormat paging.memory (rootTable offset paging) 3 := by
  intro first second left right one two differ found found'
  have frames : left / pageSize ≠ right / pageSize :=
    fun same => differ (tree.distinct first second left right one two found found' same)
  have low := (tree.bounds one found).1
  have high := (tree.bounds two found').1
  simp only [pageFormat, pageSize] at *
  omega

/-- A frame that the allocator has free is no table. -/
theorem PageTree.outside {start : Nat} (free : inUse paging.physmem start = false) {path : List Nat} {table : Nat}
    (valid : TablePath path) (found : tableOf offset paging path = some table) :
    start * pageSize + pageSize ≤ table ∨ table + pageSize ≤ start * pageSize := by
  have used := (bitmapTest_eq_one _ _).mp (tree.used path table valid found).2
  have frame : table / pageSize ≠ start := by
    rintro rfl
    rw [used] at free
    cases free
  have aligned := (tree.bounds valid found).1
  simp only [pageSize] at *
  omega

end PageTree

/-- An address inside a table of the tree. -/
def InTable (offset : Nat) (paging : Paging) (address : Nat) : Prop :=
  ∃ path table, TablePath path ∧ tableOf offset paging path = some table ∧ table ≤ address ∧ address < table + pageSize

/-- The tree only grew: old tables stay, no walk changes, and only tables were written. -/
structure Extends (offset : Nat) (before after : Paging) : Prop where
  pointer : after.kernelPml4 = before.kernelPml4
  tables : ∀ path table, TablePath path → tableOf offset before path = some table →
    tableOf offset after path = some table
  walks : ∀ virtualAddr, walkOf offset after virtualAddr = walkOf offset before virtualAddr
  frame : ∀ address, after.memory address ≠ before.memory address → InTable offset after address

theorem Extends.refl (offset : Nat) (paging : Paging) : Extends offset paging paging :=
  ⟨rfl, fun _ _ _ found => found, fun _ => rfl, fun _ changed => (changed rfl).elim⟩

theorem InTable.grow {offset : Nat} {before after : Paging} {address : Nat} (inside : InTable offset before address)
    (growth : Extends offset before after) : InTable offset after address := by
  obtain ⟨path, table, valid, found, low, high⟩ := inside
  exact ⟨path, table, valid, growth.tables path table valid found, low, high⟩

theorem Extends.trans {offset : Nat} {first second third : Paging} (left : Extends offset first second)
    (right : Extends offset second third) : Extends offset first third := by
  refine ⟨right.pointer.trans left.pointer, ?_, ?_, ?_⟩
  · exact fun path table valid found => right.tables path table valid (left.tables path table valid found)
  · exact fun virtualAddr => (right.walks virtualAddr).trans (left.walks virtualAddr)
  · intro address changed
    by_cases later : third.memory address = second.memory address
    · exact (left.frame address (later ▸ changed)).grow right
    · exact right.frame address later

/-- The entry that links a fresh frame. -/
theorem link_entry {phys : Nat} (aligned : phys % pageSize = 0) (low : phys < 2 ^ 52) :
    (phys &&& pteAddress) ||| ptePresent ||| pteWritable = phys + 3 := by
  have address : phys &&& pteAddress = phys := by
    rw [target_eq]
    simp only [pageSize] at aligned
    omega
  have shifted : phys = (phys / 2 ^ 12) <<< 12 := by
    rw [Nat.shiftLeft_eq]
    simp only [pageSize] at aligned
    omega
  rw [address, Nat.or_assoc, shifted, show ptePresent ||| pteWritable = 3 by decide,
    Nat.shiftLeft_add_eq_or_of_lt (by decide)]

theorem link_reads {phys : Nat} (aligned : phys % pageSize = 0) (low : phys < 2 ^ 52) :
    pageFormat.links (phys + 3) = true ∧ pageFormat.target (phys + 3) = phys := by
  have address : (phys + 3) &&& pteAddress = phys := by
    rw [target_eq]
    simp only [pageSize] at aligned
    omega
  have present : (phys + 3).testBit 0 = true := by
    simp only [pageSize] at aligned
    simp only [Nat.testBit_zero, decide_eq_true_eq]
    omega
  have small : (phys + 3).testBit 7 = false := by
    simp only [pageSize] at aligned
    rw [Nat.testBit_eq_decide_div_mod_eq]
    simp only [decide_eq_false_iff_not]
    omega
  refine ⟨?_, address⟩
  simp only [Format.links, pageFormat, present, small]
  rfl

/-- Memory after a fresh frame was linked and zeroed. -/
def linkMemory (memory : Memory) (table index phys : Nat) : Memory :=
  fill (store memory (table + 8 * index) 8 (phys + 3)) phys pageSize 0

theorem PageTree.frame_low {offset start : Nat} {paging : Paging} (tree : PageTree offset paging)
    (inside : start < paging.physmem.total) : start * pageSize < 2 ^ 52 := by
  have width := tree.width
  simp only [pageSize] at *
  omega

/-- The entry that links a free frame. -/
theorem PageTree.linked_entry {offset start table index : Nat} {paging : Paging} {path : List Nat}
    (tree : PageTree offset paging) (free : inUse paging.physmem start = false)
    (inside : start < paging.physmem.total) (valid : TablePath path) (small : index < 512)
    (found : tableOf offset paging path = some table) :
    entryAt (linkMemory paging.memory table index (start * pageSize)) table index = start * pageSize + 3 := by
  have low := tree.frame_low inside
  have away := tree.outside free valid found
  have fits : start * pageSize + 3 < 256 ^ 8 := Nat.lt_trans (Nat.add_lt_add_right low 3) (by decide)
  have clear : load (linkMemory paging.memory table index (start * pageSize)) (table + 8 * index) 8 =
      load (store paging.memory (table + 8 * index) 8 (start * pageSize + 3)) (table + 8 * index) 8 :=
    load_fill_apart _ (by simp only [pageSize] at *; omega)
  rw [entryAt, clear, load_store_fits _ fits]

/-- Linking a free frame into a free entry extends the radix tree by one empty table. -/
theorem PageTree.linked {offset start table index : Nat} {paging : Paging} {path : List Nat}
    (tree : PageTree offset paging) (free : inUse paging.physmem start = false)
    (inside : start < paging.physmem.total) (valid : TablePath path) (small : index < 512)
    (found : tableOf offset paging path = some table)
    (absent : pageFormat.present (entryAt paging.memory table index) = false) :
    Linked pageFormat paging.memory (linkMemory paging.memory table index (start * pageSize))
      (rootTable offset paging) 3 path table index (start * pageSize) := by
  have low := tree.frame_low inside
  have stored := tree.radix.store_untouched valid small found (start * pageSize + 3)
  have entry := tree.linked_entry free inside valid small found
  obtain ⟨links, target⟩ := link_reads (Nat.mul_mod_left start pageSize) low
  constructor
  · intro other slot place route bound reached differ
    have apart := tree.outside free route reached
    rw [← stored other slot place route bound reached differ]
    refine load_fill_apart _ ?_
    simp only [pageFormat, pageSize] at *
    omega
  · exact absent
  · rw [entry]
    exact links
  · rw [entry]
    exact target
  · intro slot bound
    refine load_fill_zero _ (by omega) ?_
    simp only [pageFormat, pageSize] at *
    omega
  · exact fun other place route reached => tree.outside free route reached

/-- One missing level: a free frame is taken, linked and zeroed. -/
theorem PageTree.link {offset start table index : Nat} {paging : Paging} {physmem : Physmem} {path : List Nat}
    (tree : PageTree offset paging) (free : inUse paging.physmem start = false)
    (inside : start < paging.physmem.total) (valid : TablePath (path ++ [index])) (small : index < 512)
    (found : tableOf offset paging path = some table)
    (absent : pageFormat.present (entryAt paging.memory table index) = false)
    (marked : Marked paging.physmem physmem start 1 true) :
    let after : Paging :=
      { paging with memory := linkMemory paging.memory table index (start * pageSize), physmem }
    tableOf offset after (path ++ [index]) = some (start * pageSize) ∧ PageTree offset after ∧
      Extends offset paging after := by
  intro after
  have linked := tree.linked free inside valid.left small found absent
  have zero : pageFormat.present 0 = false := rfl
  have fresh : tableOf offset after (path ++ [index]) = some (start * pageSize) := linked.reaches valid found
  have tables : ∀ other place, TablePath other → (tableOf offset after other = some place ↔
      (other = path ++ [index] ∧ place = start * pageSize) ∨ tableOf offset paging other = some place) :=
    fun other place route => linked.tableAt_iff valid found zero route
  have grown := linked.tree valid found zero tree.radix
  have old : ∀ other place, TablePath other → tableOf offset paging other = some place →
      tableOf offset after other = some place :=
        fun other place route reached => (tables other place route).mpr (Or.inr reached)
  refine ⟨fresh, ⟨tree.pointer, tree.aligned, ?_, ?_, ?_⟩, ⟨rfl, old, ?_, ?_⟩⟩
  · show physmem.total * pageSize ≤ 2 ^ 52
    rw [marked.total]
    exact tree.width
  · intro first second left right one two found' found'' same
    by_contra differ
    have apart := grown first second left right one two differ found' found''
    simp only [pageFormat, pageSize] at *
    omega
  · intro other place route reached
    show place / pageSize < physmem.total ∧ bitmapTest physmem.bitmap (place / pageSize) = 1
    rw [marked.total, bitmapTest_eq_one, marked.bits]
    rcases (tables other place route).mp reached with ⟨_, rfl⟩ | before
    · have frame : start * pageSize / pageSize = start := Nat.mul_div_cancel _ (by decide)
      rw [frame]
      exact ⟨inside, by simp⟩
    · obtain ⟨bound, used⟩ := tree.used other place route before
      refine ⟨bound, ?_⟩
      split
      · rfl
      · exact (bitmapTest_eq_one _ _).mp used
  · intro virtualAddr
    exact linked.walk valid found zero (pathOf_small virtualAddr) rfl
  · intro address changed
    by_cases cleared : start * pageSize ≤ address ∧ address < start * pageSize + pageSize
    · exact ⟨_, _, valid, fresh, cleared.1, cleared.2⟩
    · refine ⟨path, table, valid.left, old path table valid.left found, ?_⟩
      have outside : address < start * pageSize ∨ start * pageSize + pageSize ≤ address := by omega
      have kept : after.memory address = store paging.memory (table + 8 * index) 8 (start * pageSize + 3) address :=
        fill_confined _ _ _ _ address outside
      rw [kept] at changed
      by_contra away
      refine changed (store_confined _ _ _ _ address ?_)
      simp only [pageSize] at away
      omega

/-- Whether an entry allows to write. -/
def entryWritable (entry : Nat) : Bool := entry.testBit 1

/-- No entry in use on the path of an address is against writing. -/
def rightsOf (offset : Nat) (paging : Paging) (virtualAddr : Nat) : Bool :=
  rights pageFormat entryWritable paging.memory (rootTable offset paging) (pathOf virtualAddr)

/-- What a mapping keeps besides the walks: the rights, the frames in use, and that a new
table lies in a frame that was free. -/
structure Enlarged (offset : Nat) (before after : Paging) : Prop where
  rights : ∀ virtualAddr, rightsOf offset after virtualAddr = rightsOf offset before virtualAddr
  used : ∀ frame, inUse before.physmem frame = true → inUse after.physmem frame = true
  fresh : ∀ path table, TablePath path → tableOf offset after path = some table →
    tableOf offset before path = some table ∨ inUse before.physmem (table / pageSize) = false
  total : after.physmem.total = before.physmem.total

theorem Enlarged.refl (offset : Nat) (paging : Paging) : Enlarged offset paging paging :=
  ⟨fun _ => rfl, fun _ used => used, fun _ _ _ found => .inl found, rfl⟩

theorem Enlarged.trans {offset : Nat} {first second third : Paging} (left : Enlarged offset first second)
    (right : Enlarged offset second third) : Enlarged offset first third := by
  refine ⟨fun address => (right.rights address).trans (left.rights address),
    fun frame used => right.used frame (left.used frame used), ?_, right.total.trans left.total⟩
  intro path table valid found
  rcases right.fresh path table valid found with earlier | free
  · exact left.fresh path table valid earlier
  · right
    by_contra used
    have later := left.used _ (by simpa using used)
    rw [later] at free
    cases free

/-- What one level of `paging_map_page` does when it returns: it follows an entry, or
takes a free frame, links and zeroes it. -/
inductive Level (offset : Nat) (paging : Paging) (table index next : Nat) (after : Paging) : Prop where
  | follows (used : pageFormat.present (entryAt paging.memory table index) = true)
      (target : next = u64 ((entryAt paging.memory table index &&& pteAddress) + offset)) (same : after = paging)
  | links (start : Nat) (physmem : Physmem)
      (absent : pageFormat.present (entryAt paging.memory table index) = false)
      (free : inUse paging.physmem start = false) (inside : start < paging.physmem.total)
      (marked : Marked paging.physmem physmem start 1 true) (target : next = u64 (start * pageSize + offset))
      (same : after = { paging with memory := linkMemory paging.memory table index (start * pageSize), physmem })

theorem nextTable_level {offset table index next : Nat} {paging after : Paging} {message : String}
    (tree : PageTree offset paging) {path : List Nat} (valid : TablePath path) (small : index < 512)
    (found : tableOf offset paging path = some table)
    (result : nextTable offset paging (u64 (table + offset)) index message = .ok (next, after)) :
    Level offset paging table index next after := by
  have low := (tree.bounds valid found).2
  simp only [nextTable, entries_pointer _ low small, setEntries_pointer _ _ low small, present_iff] at result
  cases absent : pageFormat.present (entryAt paging.memory table index) with
  | true =>
    simp only [absent, Bool.true_eq_false, if_false] at result
    cases result
    exact .follows absent rfl rfl
  | false =>
    simp only [absent, if_true, bind, Except.bind] at result
    cases allocated : physmemAllocTo paging.physmem 1 with
    | error stop =>
      rw [allocated] at result
      cases result
    | ok pair =>
      obtain ⟨phys, physmem⟩ := pair
      simp only [allocated] at result
      by_cases none : phys = 0
      · rw [if_pos none] at result
        cases result
      · rw [if_neg none] at result
        rcases physmemAllocTo_spec (physmemAllocTo_present allocated none) 1 with
          ⟨start, physmem', _, _, bound, run, _, expected, marked⟩ | ⟨expected, _⟩
        · cases allocated.symm.trans expected
          have low' : start * pageSize < 2 ^ 52 := tree.frame_low (by omega)
          have aligned : start * pageSize % pageSize = 0 := Nat.mul_mod_left _ _
          have zeroed : memset (store paging.memory (table + 8 * index) 8 (start * pageSize + 3)) (start * pageSize) 0
              pageSize = linkMemory paging.memory table index (start * pageSize) :=
            memset_eq_fill _ _ _ _ (by simp only [pageSize] at *; omega)
          rw [link_entry aligned low', virtToPhys_pointer low', zeroed] at result
          cases result
          exact .links start physmem absent (run start (le_refl _) (by omega)) (by omega) marked rfl rfl
        · cases allocated.symm.trans expected
          exact (none rfl).elim

theorem PageTree.linked_writable {offset start table index : Nat} {paging : Paging} {path : List Nat}
    (tree : PageTree offset paging) (free : inUse paging.physmem start = false)
    (inside : start < paging.physmem.total) (valid : TablePath path) (small : index < 512)
    (found : tableOf offset paging path = some table) :
    entryWritable (entryAt (linkMemory paging.memory table index (start * pageSize)) table index) = true := by
  rw [tree.linked_entry free inside valid small found, entryWritable, Nat.testBit_eq_decide_div_mod_eq]
  simp only [pageSize, decide_eq_true_eq]
  omega

theorem Level.enlarged {offset table index next : Nat} {paging after : Paging} {path : List Nat}
    (level : Level offset paging table index next after) (tree : PageTree offset paging)
    (valid : TablePath (path ++ [index])) (small : index < 512) (found : tableOf offset paging path = some table) :
    Enlarged offset paging after := by
  cases level with
  | follows used target same =>
    subst same
    exact .refl offset after
  | links start physmem absent free inside marked target same =>
    subst same
    have linked := tree.linked free inside valid.left small found absent
    have zero : pageFormat.present 0 = false := rfl
    have allowed := tree.linked_writable free inside valid.left small found
    refine ⟨fun address => linked.rights valid found zero allowed (pathOf_small address), ?_, ?_, marked.total⟩
    · intro frame used
      show inUse physmem frame = true
      rw [marked.bits]
      split
      · rfl
      · exact used
    · intro other place route reached
      rcases (linked.tableAt_iff valid found zero route).mp reached with ⟨_, rfl⟩ | old
      · right
        rw [Nat.mul_div_cancel _ (by decide : 0 < pageSize)]
        exact free
      · exact .inl old

/-- One level of `paging_map_page`: when it returns, the next table is there and
the tree only grew. -/
theorem nextTable_spec {offset table index next : Nat} {paging after : Paging} {message : String}
    (tree : PageTree offset paging) (path : List Nat) (valid : TablePath (path ++ [index])) (small : index < 512)
    (found : tableOf offset paging path = some table)
    (plain : pageFormat.present (entryAt paging.memory table index) = true →
      pageFormat.links (entryAt paging.memory table index) = true)
    (result : nextTable offset paging (u64 (table + offset)) index message = .ok (next, after)) :
    ∃ place, next = u64 (place + offset) ∧ tableOf offset after (path ++ [index]) = some place ∧
      PageTree offset after ∧ Extends offset paging after := by
  cases nextTable_level tree valid.left small found result with
  | follows used target same =>
    subst same
    refine ⟨_, target, ?_, tree, Extends.refl offset after⟩
    rw [tableOf, tableAt_append, ← tableOf, found]
    simp only [Option.bind_some, tableAt, plain used, if_true]
    rfl
  | links start physmem absent free inside marked target same =>
    obtain ⟨reached, grown, growth⟩ := tree.link free inside valid small found absent marked
    subst same
    exact ⟨_, target, reached, grown, growth⟩

end Kernix.Proofs
