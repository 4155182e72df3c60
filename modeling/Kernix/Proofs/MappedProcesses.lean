import Kernix.Memory.UserSpace
import Kernix.Proofs.UserSpaces
import Kernix.Proofs.TableFrames

/-! `user_space_proc_mmap`. The frames of the stack are taken before those of the heap are
looked for, and they are not given back when these are not found. -/

namespace Kernix.Proofs
open ByteMemory

/-- The stack and the heap are whole pages, apart from each other in the lower half. -/
structure RangesFit (record : UserSpaceProc) : Prop where
  stackAligned : record.stackBase % pageSize = 0
  stackWhole : record.stackSize % pageSize = 0
  stackLow : record.stackBase + record.stackSize ≤ 2 ^ 47
  heapAligned : record.heapBase % pageSize = 0
  heapWhole : record.heapSize % pageSize = 0
  heapLow : record.heapBase + record.heapSize ≤ 2 ^ 47
  apart : (stack record).Apart (heap record)

theorem RangesFit.whole {record : UserSpaceProc} (ranges : RangesFit record) :
    record.stackSize / pageSize * pageSize = record.stackSize ∧ record.heapSize / pageSize * pageSize = record.heapSize :=
  ⟨Nat.div_mul_cancel (Nat.dvd_of_mod_eq_zero ranges.stackWhole),
    Nat.div_mul_cancel (Nat.dvd_of_mod_eq_zero ranges.heapWhole)⟩

def rangePages (base size : Nat) : List Nat := (List.range (size / pageSize)).map fun i => base + i * pageSize

def procPages (record : UserSpaceProc) : List Nat :=
  rangePages record.stackBase record.stackSize ++ rangePages record.heapBase record.heapSize

def HasRun (physmem : Physmem) (count : Nat) : Prop :=
  count ≠ 0 ∧ ∃ start, startSearch ≤ start ∧ start + count ≤ physmem.total ∧ FreeRun physmem start count

/-- When the lowest run is taken for the stack there is another one for the heap, there is a
frame for every table that is missing on the paths of both, and no table on them is read-only. -/
structure BothFit (offset : Nat) (paging : Paging) (record : UserSpaceProc) : Prop where
  runs : ∃ first, LowestRun paging.physmem (record.stackSize / pageSize) first ∧ record.heapSize / pageSize ≠ 0 ∧
    ∃ second, startSearch ≤ second ∧ second + record.heapSize / pageSize ≤ paging.physmem.total ∧
      FreeRun paging.physmem second (record.heapSize / pageSize) ∧
      (first + record.stackSize / pageSize ≤ second ∨ second + record.heapSize / pageSize ≤ first)
  tables : (missingTables offset paging (neededTables (procPages record))).card + record.stackSize / pageSize +
    record.heapSize / pageSize ≤ (spareFrames paging.physmem).card
  allowed : ∀ page ∈ procPages record, rightsTo offset paging (tablePathOf page) = true

/-- Two runs of frames that were free, the stack and the heap mapped to them, and both in the record. -/
structure MmapDone (offset : Nat) (before after : UserMemory) (proc first second : Nat) : Prop where
  inside : first + (before.space.procs proc).stackSize / pageSize ≤ before.paging.physmem.total ∧
    second + (before.space.procs proc).heapSize / pageSize ≤ before.paging.physmem.total
  stackFresh : FreeRun before.paging.physmem first ((before.space.procs proc).stackSize / pageSize)
  heapFresh : FreeRun before.paging.physmem second ((before.space.procs proc).heapSize / pageSize)
  apart : first + (before.space.procs proc).stackSize / pageSize ≤ second ∨
    second + (before.space.procs proc).heapSize / pageSize ≤ first
  stackTaken : ∀ i < (before.space.procs proc).stackSize / pageSize, inUse after.paging.physmem (first + i) = true
  heapTaken : ∀ i < (before.space.procs proc).heapSize / pageSize, inUse after.paging.physmem (second + i) = true
  stackMapped : ∀ position < (before.space.procs proc).stackSize,
    accessAddress offset after.paging ((before.space.procs proc).stackBase + position) =
      some (first * pageSize + position, true)
  heapMapped : ∀ position < (before.space.procs proc).heapSize,
    accessAddress offset after.paging ((before.space.procs proc).heapBase + position) =
      some (second * pageSize + position, true)
  record : after.space =
    before.space.change proc ({ · with physStack := first * pageSize, physHeap := second * pageSize })

/-- The call maps both ranges and returns 0, or it returns 1 and has changed nothing. -/
def MmapRight (offset : Nat) (before : UserMemory) (proc : Nat) : Prop :=
  (∃ after first second, userSpaceProcMmap (writableAddress offset) offset before proc = .ok (0, after) ∧
    MmapDone offset before after proc first second) ∨
  userSpaceProcMmap (writableAddress offset) offset before proc = .ok (1, before)

/-- What `user_space_proc_create` puts into a record. -/
theorem ProcIs.ranges {record : UserSpaceProc} {index : Nat} (proc : ProcIs record index) (few : index ≤ 11903) :
    RangesFit record := by
  refine ⟨?_, ?_, ?_, ?_, ?_, ?_, ?_⟩
  all_goals simp only [proc.stackBase, proc.stackSize, proc.heapBase, proc.heapSize, spaceBase, pageSize,
    Stretch.Apart, stack, heap]
  all_goals omega

section ranges
variable {offset base size : Nat} {paging : Paging} {record : UserSpaceProc} {pages : List Nat}

theorem mem_rangePages {page : Nat} : page ∈ rangePages base size ↔
    ∃ i < size / pageSize, page = base + i * pageSize := by
  simp only [rangePages, List.mem_map, List.mem_range]
  constructor
  · rintro ⟨i, inside, rfl⟩
    exact ⟨i, inside, rfl⟩
  · rintro ⟨i, inside, rfl⟩
    exact ⟨i, inside, rfl⟩

theorem mem_neededTables {path : List Nat} : path ∈ neededTables pages ↔ ∃ page ∈ pages, path ∈ tablePrefixes page := by
  simp [neededTables]

theorem tablePrefixes_prefix {page : Nat} {path : List Nat} (member : path ∈ tablePrefixes page) :
    path <+: tablePathOf page := by
  simp only [tablePrefixes, List.mem_cons, List.not_mem_nil, or_false] at member
  rcases member with rfl | rfl | rfl
  · exact ⟨_, rfl⟩
  · exact ⟨_, rfl⟩
  · exact List.prefix_rfl

theorem neededTables_valid (pages : List Nat) : ∀ path ∈ neededTables pages, TablePath path := by
  intro path member
  obtain ⟨page, -, inside⟩ := mem_neededTables.mp member
  have start := tablePrefixes_prefix inside
  have valid := tablePathOf_valid page
  exact ⟨start.length_le.trans valid.short, fun index among => valid.small index (start.subset among)⟩

/-- Where the last table of every page is found, no table is missing. -/
theorem missingTables_none (found : ∀ page ∈ pages, ∃ table, tableOf offset paging (tablePathOf page) = some table) :
    (missingTables offset paging (neededTables pages)).card = 0 := by
  rw [Finset.card_eq_zero, missingTables, Finset.filter_eq_empty_iff]
  intro path member missing
  obtain ⟨page, among, inside⟩ := mem_neededTables.mp member
  obtain ⟨rest, whole⟩ := tablePrefixes_prefix inside
  obtain ⟨table, reached⟩ := found page among
  rw [tableOf, ← whole, RadixTable.tableAt_append, ← tableOf, missing] at reached
  cases reached

/-- A range of whole pages in the lower half over frames is a region. -/
theorem rangeRegion {start : Nat} (aligned : base % pageSize = 0) (whole : size % pageSize = 0)
    (low : base + size ≤ 2 ^ 47)
    (tree : PageTree offset paging) (bound : start + size / pageSize ≤ paging.physmem.total)
    (plain : ∀ page ∈ rangePages base size, NoLargePage offset paging page) :
    PageRegion offset paging base (start * pageSize) (size / pageSize) ∧
      ∀ position < size / pageSize * pageSize, Canonical (base + position) := by
  have exact : size / pageSize * pageSize = size := Nat.div_mul_cancel (Nat.dvd_of_mod_eq_zero whole)
  have frames : (start + size / pageSize) * pageSize ≤ 2 ^ 52 := (Nat.mul_le_mul_right _ bound).trans tree.width
  rw [Nat.add_mul] at frames
  have canonical : ∀ position < size / pageSize * pageSize, Canonical (base + position) := by
    intro position inside
    exact .inl (by omega)
  refine ⟨.of_canonical aligned (by omega) (Nat.mul_mod_left _ _) frames ?_ canonical, canonical⟩
  intro i inside
  exact plain _ (mem_rangePages.mpr ⟨i, inside, rfl⟩)

end ranges

/-- Two runs of frames in use, none of which is a table, for the two ranges of a record. -/
structure RunsHeld (offset : Nat) (base : Paging) (record : UserSpaceProc) (first second : Nat) : Prop where
  tree : PageTree offset base
  present : base.physmem.pageframesAddress ≠ 0
  some : 0 < record.stackSize / pageSize ∧ 0 < record.heapSize / pageSize
  inside : first + record.stackSize / pageSize ≤ base.physmem.total ∧
    second + record.heapSize / pageSize ≤ base.physmem.total
  stackHeld : ∀ i < record.stackSize / pageSize, inUse base.physmem (first + i) = true
  heapHeld : ∀ i < record.heapSize / pageSize, inUse base.physmem (second + i) = true
  stackApart : TablesApart offset base (first * pageSize) (record.stackSize / pageSize)
  heapApart : TablesApart offset base (second * pageSize) (record.heapSize / pageSize)

/-- What is there after both ranges are mapped. -/
structure BothMapped (offset : Nat) (base after : Paging) (record : UserSpaceProc) (first second : Nat) : Prop where
  stackMapped : ∀ position < record.stackSize,
    accessAddress offset after (record.stackBase + position) = some (first * pageSize + position, true)
  heapMapped : ∀ position < record.heapSize,
    accessAddress offset after (record.heapBase + position) = some (second * pageSize + position, true)
  used : ∀ frame, inUse base.physmem frame = true → inUse after.physmem frame = true
  tables : (missingTables offset base (neededTables (procPages record))).card ≤ (spareFrames base.physmem).card
  allowed : ∀ page ∈ procPages record, rightsTo offset base (tablePathOf page) = true

/-- Why both ranges cannot be mapped. -/
def MapsShort (offset : Nat) (base : Paging) (record : UserSpaceProc) : Prop :=
  (spareFrames base.physmem).card < (missingTables offset base (neededTables (procPages record))).card ∨
    ∃ page ∈ procPages record, rightsTo offset base (tablePathOf page) = false

/-- The two mappings of the call. -/
def mapRanges (offset : Nat) (base : Paging) (record : UserSpaceProc) (first second : Nat) : Except Stop Paging := do
  let middle ← mapRegion (writableAddress offset) offset base (first * pageSize) record.stackBase record.stackSize
  mapRegion (writableAddress offset) offset middle (second * pageSize) record.heapBase record.heapSize

section mapping
variable {offset first second : Nat} {base : Paging} {record : UserSpaceProc}

/-- The pages of the heap are other ones than those of the stack. -/
theorem heap_plain (ranges : RangesFit record) {paths : Finset (List Nat)} {mapped : Paging}
    (ready : RegionReady offset paths base mapped record.stackBase (first * pageSize) (record.stackSize / pageSize))
    (plain : ∀ page ∈ rangePages record.heapBase record.heapSize, NoLargePage offset base page) :
    ∀ page ∈ rangePages record.heapBase record.heapSize,
      NoLargePage offset (clearedState mapped (first * pageSize) (record.stackSize / pageSize * pageSize)) page := by
  intro page member
  obtain ⟨i, inside, rfl⟩ := mem_rangePages.mp member
  obtain ⟨whole, whole'⟩ := ranges.whole
  have stackLow := ranges.stackLow
  have heapLow := ranges.heapLow
  have apart := ranges.apart
  simp only [Stretch.Apart, stack, heap] at apart
  have upper : i * pageSize + pageSize ≤ record.heapSize := by
    rw [← whole', ← Nat.add_one_mul]
    exact Nat.mul_le_mul_right _ inside
  have positive : 0 < pageSize := by decide
  rw [NoLargePage, clearedState_walk ready.ready.tree ready.apart ready.region.phys_aligned (Nat.le_refl _),
    ready.ready.walks]
  · exact plain _ member
  · intro j inside' same
    have upper' : j * pageSize + pageSize ≤ record.stackSize := by
      rw [← whole, ← Nat.add_one_mul]
      exact Nat.mul_le_mul_right _ inside'
    have place := range_distinct ranges.stackAligned (by omega) ready.canonical inside' (by omega)
      (.inl (by omega)) same
    omega

theorem bothMapped (ranges : RangesFit record) {mapped mapped' : Paging}
    (ready : RegionReady offset (neededTables (procPages record)) base mapped record.stackBase (first * pageSize)
      (record.stackSize / pageSize))
    (ready' : RegionReady offset (neededTables (procPages record))
      (clearedState mapped (first * pageSize) (record.stackSize / pageSize * pageSize)) mapped' record.heapBase
      (second * pageSize) (record.heapSize / pageSize)) :
    BothMapped offset base (clearedState mapped' (second * pageSize)
      (record.heapSize / pageSize * pageSize)) record first second := by
  obtain ⟨whole, whole'⟩ := ranges.whole
  have apart := ranges.apart
  simp only [Stretch.Apart, stack, heap] at apart
  have stackLow := ranges.stackLow
  refine ⟨?_, ?_, fun frame used => ready'.ready.used frame (ready.ready.used frame used), ?_, ?_⟩
  · intro position inside
    rw [ready'.access.2 _ (by omega) (by omega)]
    exact ready.access.1 position (by omega)
  · intro position inside
    exact ready'.access.1 position (by omega)
  · have balance := (ready.taken.trans ready'.taken).balance
    have none : (missingTables offset (clearedState mapped' (second * pageSize) (record.heapSize / pageSize * pageSize))
        (neededTables (procPages record))).card = 0 := by
      apply missingTables_none
      intro page member
      rcases List.mem_append.mp member with inStack | inHeap
      · obtain ⟨i, inside, rfl⟩ := mem_rangePages.mp inStack
        obtain ⟨table, found⟩ := ready.tables i inside
        exact ⟨table, ready'.taken.tables _ table (tablePathOf_valid _) found⟩
      · obtain ⟨i, inside, rfl⟩ := mem_rangePages.mp inHeap
        exact ready'.tables i inside
    omega
  · intro page member
    rcases List.mem_append.mp member with inStack | inHeap
    · obtain ⟨i, inside, rfl⟩ := mem_rangePages.mp inStack
      exact ready.allowed i inside
    · obtain ⟨i, inside, rfl⟩ := mem_rangePages.mp inHeap
      rw [← ready.taken.rights _ (tablePathOf_valid _)]
      exact ready'.allowed i inside

/-- How the two mappings end. -/
theorem mapRanges_ends (held : RunsHeld offset base record first second) (ranges : RangesFit record)
    (plain : ∀ page ∈ procPages record, NoLargePage offset base page) :
    (∃ after, mapRanges offset base record first second = .ok after ∧ BothMapped offset base after record first second) ∨
    (∃ stop, mapRanges offset base record first second = .error stop) ∧ MapsShort offset base record := by
  have wanted := neededTables_valid (procPages record)
  obtain ⟨whole, whole'⟩ := ranges.whole
  have positive : 0 < pageSize := by decide
  have stackPage : ∀ i < record.stackSize / pageSize, record.stackBase + i * pageSize ∈ procPages record :=
    fun i inside => List.mem_append_left _ (mem_rangePages.mpr ⟨i, inside, rfl⟩)
  have heapPage : ∀ i < record.heapSize / pageSize, record.heapBase + i * pageSize ∈ procPages record :=
    fun i inside => List.mem_append_right _ (mem_rangePages.mpr ⟨i, inside, rfl⟩)
  have heapHeld : ∀ i < record.heapSize / pageSize, inUse base.physmem (second * pageSize / pageSize + i) = true := by
    simpa only [Nat.mul_div_cancel _ positive] using held.heapHeld
  obtain ⟨region, canonical⟩ := rangeRegion ranges.stackAligned ranges.stackWhole ranges.stackLow held.tree held.inside.1
    fun page member => plain page (List.mem_append_left _ member)
  unfold mapRanges
  rcases mapRegion_taken wanted held.tree region canonical held.some.1 held.stackApart
      (by simpa only [Nat.mul_div_cancel _ positive] using held.stackHeld)
      (fun i inside path member => mem_neededTables.mpr ⟨_, stackPage i inside, member⟩) held.present with
    ⟨mapped, maps, ready⟩ | ⟨⟨stop, fails⟩, why⟩
  · have maps : mapRegion (writableAddress offset) offset base (first * pageSize) record.stackBase record.stackSize =
        .ok (clearedState mapped (first * pageSize) (record.stackSize / pageSize * pageSize)) := by rw [← maps, whole]
    rw [maps]
    simp only [bind, Except.bind]
    have taken := ready.taken
    obtain ⟨region', canonical'⟩ := rangeRegion ranges.heapAligned ranges.heapWhole ranges.heapLow ready.tree
      (held.inside.2.trans_eq taken.total.symm)
      (heap_plain ranges ready fun page member => plain page (List.mem_append_right _ member))
    rcases mapRegion_taken wanted ready.tree region' canonical' held.some.2 (ready.keeps_apart held.heapApart heapHeld)
        (fun i inside => ready.ready.used _ (heapHeld i inside))
        (fun i inside path member => mem_neededTables.mpr ⟨_, heapPage i inside, member⟩)
          (taken.address.trans_ne held.present) with
      ⟨mapped', maps', ready'⟩ | ⟨⟨stop, fails⟩, why⟩
    · refine .inl ⟨_, ?_, bothMapped ranges ready ready'⟩
      rw [← maps', whole']
    · rw [whole'] at fails
      rw [fails]
      refine .inr ⟨⟨stop, rfl⟩, ?_⟩
      rcases why with short | ⟨i, inside, refused⟩
      · exact .inl (taken.short short)
      · rw [taken.rights _ (tablePathOf_valid _)] at refused
        exact .inr ⟨_, heapPage i inside, refused⟩
  · rw [whole] at fails
    rw [fails]
    refine .inr ⟨⟨stop, rfl⟩, why.imp_right ?_⟩
    rintro ⟨i, inside, refused⟩
    exact ⟨_, stackPage i inside, refused⟩

end mapping

section calls
variable {offset proc first second : Nat} {before : UserMemory} {physmem middle : Physmem}

/-- The lowest run is the only one. -/
theorem LowestRun.unique {count other : Nat} (run : LowestRun physmem count first)
    (run' : LowestRun physmem count other) :
    first = other := by
  rcases Nat.lt_trichotomy first other with less | same | more
  · exact absurd run.free (run'.lowest first run.low less)
  · exact same
  · exact absurd run'.free (run.lowest other run'.low more)

/-- A run that is free behind another one that was taken was free before, and apart from it. -/
theorem freeRun_beside {start count other left : Nat} (marked : Marked physmem middle start count true) (some : count ≠ 0)
    (free : FreeRun middle other left) (some' : left ≠ 0) :
    FreeRun physmem other left ∧ (start + count ≤ other ∨ other + left ≤ start) := by
  have outside : ∀ frame, other ≤ frame → frame < other + left →
      ¬(start ≤ frame ∧ frame < start + count) ∧ inUse physmem frame = false := by
    intro frame low high
    have unused := free frame low high
    rw [marked.bits] at unused
    split at unused
    next => cases unused
    next away => exact ⟨away, unused⟩
  refine ⟨fun frame low high => (outside frame low high).2, ?_⟩
  by_contra overlap
  obtain ⟨reaches, reaches'⟩ := not_or.mp overlap
  by_cases before : start ≤ other
  · exact (outside other (Nat.le_refl _) (by omega)).1 ⟨before, by omega⟩
  · exact (outside start (by omega) (by omega)).1 ⟨Nat.le_refl _, by omega⟩

theorem freeRun_behind {start count other left : Nat} (marked : Marked physmem middle start count true)
    (free : FreeRun physmem other left) (apart : start + count ≤ other ∨ other + left ≤ start) :
    FreeRun middle other left := by
  intro frame low high
  rw [marked.bits, if_neg (by omega)]
  exact free frame low high

/-- The call where both allocations succeed. -/
theorem userSpaceProcMmap_maps (given : first ≠ 0) (given' : second ≠ 0)
    (takes : physmemAllocTo before.paging.physmem ((before.space.procs proc).stackSize / pageSize) =
      .ok (first * pageSize, middle))
    (takes' : physmemAllocTo middle ((before.space.procs proc).heapSize / pageSize) = .ok (second * pageSize, physmem)) :
    userSpaceProcMmap (writableAddress offset) offset before proc =
      (mapRanges offset { before.paging with physmem } (before.space.procs proc) first second).map fun paging =>
        (0, ⟨before.space.change proc ({ · with physStack := first * pageSize, physHeap := second * pageSize }),
          paging⟩) := by
  unfold userSpaceProcMmap mapRanges
  simp only [bind, Except.bind]
  rw [takes]
  simp only
  rw [if_neg (Nat.mul_ne_zero given (by decide)), takes']
  simp only
  rw [if_neg (Nat.mul_ne_zero given' (by decide))]
  cases mapRegion (writableAddress offset) offset { before.paging with physmem } (first * pageSize)
      (before.space.procs proc).stackBase (before.space.procs proc).stackSize with
  | error stop => rfl
  | ok paging =>
    simp only
    cases mapRegion (writableAddress offset) offset paging (second * pageSize)
        (before.space.procs proc).heapBase (before.space.procs proc).heapSize with
    | error stop => rfl
    | ok paging => rfl

/-- With both runs taken the mapping decides. -/
theorem mmapRight_both (tree : PageTree offset before.paging) (ranges : RangesFit (before.space.procs proc))
    (plain : ∀ page ∈ procPages (before.space.procs proc), NoLargePage offset before.paging page)
    (present : physmem.pageframesAddress ≠ 0)
    (run : LowestRun before.paging.physmem ((before.space.procs proc).stackSize / pageSize) first)
    (some : (before.space.procs proc).stackSize / pageSize ≠ 0)
    (marked : Marked before.paging.physmem middle first ((before.space.procs proc).stackSize / pageSize) true)
    (run' : LowestRun middle ((before.space.procs proc).heapSize / pageSize) second)
    (some' : (before.space.procs proc).heapSize / pageSize ≠ 0)
    (marked' : Marked middle physmem second ((before.space.procs proc).heapSize / pageSize) true)
    (takes : physmemAllocTo before.paging.physmem ((before.space.procs proc).stackSize / pageSize) =
      .ok (first * pageSize, middle))
    (takes' : physmemAllocTo middle ((before.space.procs proc).heapSize / pageSize) = .ok (second * pageSize, physmem)) :
    MmapRight offset before proc ↔ BothFit offset before.paging (before.space.procs proc) := by
  obtain ⟨free', apart⟩ := freeRun_beside marked some run'.free some'
  have bound' := run'.high
  rw [marked.total] at bound'
  have low := run.low
  have low' := run'.low
  have positive : 0 < startSearch := by decide
  have total : physmem.total = before.paging.physmem.total := marked'.total.trans marked.total
  have held : RunsHeld offset { before.paging with physmem } (before.space.procs proc) first second := by
    refine ⟨(tree.taken marked).taken marked', present, ⟨Nat.pos_of_ne_zero some, Nat.pos_of_ne_zero some'⟩, ?_, ?_, ?_,
      tree.run_apart run.free, tree.run_apart free'⟩
    · exact ⟨run.high.trans_eq total.symm, bound'.trans_eq total.symm⟩
    · intro i inside
      show inUse physmem (first + i) = true
      rw [marked'.bits]
      split
      · rfl
      · rw [marked.bits, if_pos (by omega)]
    · intro i inside
      show inUse physmem (second + i) = true
      rw [marked'.bits, if_pos (by omega)]
  have call := @userSpaceProcMmap_maps offset proc first second before physmem middle (by omega) (by omega) takes takes'
  have fewer := spareFrames_taken marked run.low run.high run.free
  have fewer' := spareFrames_taken marked' run'.low run'.high run'.free
  have missing : missingTables offset { before.paging with physmem }
    (neededTables (procPages (before.space.procs proc))) =
    missingTables offset before.paging (neededTables (procPages (before.space.procs proc))) := rfl
  rcases mapRanges_ends held ranges plain with ⟨after, maps, mapped⟩ | ⟨⟨stop, fails⟩, short⟩
  · rw [maps] at call
    refine iff_of_true (.inl ⟨_, first, second, call, ?_⟩)
      ⟨⟨first, run, some', second, run'.low, bound', free', apart⟩, ?_, mapped.allowed⟩
    · exact ⟨⟨run.high, bound'⟩, run.free, free', apart, fun i inside => mapped.used _ (held.stackHeld i inside),
        fun i inside => mapped.used _ (held.heapHeld i inside), mapped.stackMapped, mapped.heapMapped, rfl⟩
    · have enough := mapped.tables
      rw [missing] at enough
      change _ ≤ (spareFrames physmem).card at enough
      omega
  · rw [fails] at call
    refine iff_of_false ?_ ?_
    · rintro (⟨after, _, _, returns, -⟩ | returns)
      · rw [call] at returns
        cases returns
      · rw [call] at returns
        cases returns
    · intro fit
      rcases short with few | ⟨page, member, refused⟩
      · have enough := fit.tables
        rw [missing] at few
        change (spareFrames physmem).card < _ at few
        omega
      · exact absurd (fit.allowed page member) (by rw [show rightsTo offset before.paging (tablePathOf page) = false from refused]; decide)

/-- The call does its part when there is no run of frames for the stack, or when there are
frames for all that it takes; where only those for the heap are missing it keeps the stack's. -/
theorem user_space_proc_mmap_iff (present : before.paging.physmem.pageframesAddress ≠ 0)
    (tree : PageTree offset before.paging) (ranges : RangesFit (before.space.procs proc))
    (plain : ∀ page ∈ procPages (before.space.procs proc), NoLargePage offset before.paging page) :
    MmapRight offset before proc ↔ ¬HasRun before.paging.physmem ((before.space.procs proc).stackSize / pageSize) ∨
      BothFit offset before.paging (before.space.procs proc) := by
  rcases physmemAllocTo_spec present ((before.space.procs proc).stackSize / pageSize) with
    ⟨first, middle, some, low, high, free, lowest, takes, marked⟩ | ⟨takes, full⟩
  · have run : LowestRun before.paging.physmem ((before.space.procs proc).stackSize / pageSize) first :=
      ⟨low, high, free, lowest⟩
    have has : HasRun before.paging.physmem ((before.space.procs proc).stackSize / pageSize) :=
      ⟨some, first, low, high, free⟩
    rw [or_iff_right (not_not.mpr has)]
    rcases physmemAllocTo_spec (marked.address.trans_ne present) ((before.space.procs proc).heapSize / pageSize) with
      ⟨second, physmem, some', low', high', free', lowest', takes', marked'⟩ | ⟨takes', full⟩
    · exact mmapRight_both tree ranges plain (marked'.address.trans_ne (marked.address.trans_ne present)) run some marked
        ⟨low', high', free', lowest'⟩ some' marked' takes takes'
    · have keeps : userSpaceProcMmap (writableAddress offset) offset before proc =
          .ok (1, { before with paging := { before.paging with physmem := middle } }) := by
        unfold userSpaceProcMmap
        simp only [bind, Except.bind]
        rw [takes]
        simp only
        rw [if_neg (Nat.mul_ne_zero (by simp only [startSearch] at low; omega) (by decide)), takes']
        rfl
      refine iff_of_false ?_ ?_
      · rintro (⟨after, _, _, returns, -⟩ | returns)
        · rw [keeps] at returns
          cases returns
        · rw [keeps] at returns
          have same : middle = before.paging.physmem :=
            congrArg (fun result => result.2.paging.physmem) (Except.ok.inj returns)
          have inside : first < first + (before.space.procs proc).stackSize / pageSize :=
            Nat.lt_add_of_pos_right (Nat.pos_of_ne_zero some)
          have taken := marked.bits first
          rw [if_pos ⟨Nat.le_refl _, inside⟩, same, free first (Nat.le_refl _) inside] at taken
          cases taken
      · rintro ⟨⟨other, run', some', second, low', high', free', apart⟩, -, -⟩
        obtain rfl := run.unique run'
        exact full some' second low' (by rw [marked.total]; exact high') (freeRun_behind marked free' apart)
  · have keeps : userSpaceProcMmap (writableAddress offset) offset before proc = .ok (1, before) := by
      unfold userSpaceProcMmap
      simp only [bind, Except.bind]
      rw [takes]
      rfl
    refine iff_of_true (.inr keeps) (.inl ?_)
    rintro ⟨some, start, low, high, free⟩
    exact full some start low high free

end calls

/-- The first process, with eight free frames: four for the stack, and too few for the heap. -/
def fewFrames : UserMemory where
  space := { newSpace with procs := fun _ => newProc newSpace (fun _ => 0) 0 }
  paging := roomyTables

theorem fewFrames_ranges : RangesFit (fewFrames.space.procs 0) :=
  @ProcIs.ranges _ 0 ⟨rfl, rfl, rfl, rfl, rfl⟩ (Nat.zero_le _)

theorem user_space_proc_mmap_iff_few : MmapRight heapStart fewFrames 0 ↔
    ¬HasRun fewFrames.paging.physmem ((fewFrames.space.procs 0).stackSize / pageSize) ∨
      BothFit heapStart fewFrames.paging (fewFrames.space.procs 0) :=
  user_space_proc_mmap_iff (by decide) roomyTables_tree fewFrames_ranges fun page _ => roomyTables_plain page

/-- The call returns 1 and keeps frame 512. -/
theorem user_space_proc_mmap_leaks : ¬∀ offset (before : UserMemory) proc, before.paging.physmem.pageframesAddress ≠ 0 →
    PageTree offset before.paging → RangesFit (before.space.procs proc) →
    (∀ page ∈ procPages (before.space.procs proc), NoLargePage offset before.paging page) →
    MmapRight offset before proc := by
  intro right
  have ends : (userSpaceProcMmap (writableAddress heapStart) heapStart fewFrames 0).map
      (fun result => (result.1, bitmapTest result.2.paging.physmem.bitmap 512)) = .ok (1, 1) := by rfl
  rcases right heapStart fewFrames 0 (by decide) roomyTables_tree fewFrames_ranges
    (fun page _ => roomyTables_plain page) with
    ⟨after, _, _, returns, -⟩ | returns
  · rw [returns] at ends
    cases ends
  · rw [returns] at ends
    exact absurd (congrArg Prod.snd (Except.ok.inj ends)) (by decide)

end Kernix.Proofs
