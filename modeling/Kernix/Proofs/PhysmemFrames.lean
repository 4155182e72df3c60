import Kernix.Memory.Physmem
import Kernix.Lib.BitArray
import Kernix.Lib.IntervalPool
import Kernix.Lib.Runs
import Mathlib.Algebra.Order.Group.Nat

/-! What the operations of the frame allocator do to the bitmap, one frame at a time, and
what its first-fit search finds. Every call is a step of an interval pool whose free cells
are the clear bits of the bitmap. -/

namespace Kernix.Proofs
open Physmem

/-- The bit of a frame. -/
def inUse (physmem : Physmem) (frame : Nat) : Bool := BitArray.test physmem.bitmap frame

theorem bitmapTest_eq (bitmap : Nat → UInt8) (idx : Nat) : bitmapTest bitmap idx = (BitArray.test bitmap idx).toNat := by
  have byte : idx >>> 3 = idx / 8 := Nat.shiftRight_eq_div_pow idx 3
  have bit : idx &&& 7 = idx % 8 := Nat.and_two_pow_sub_one_eq_mod idx 3
  rw [bitmapTest, BitArray.test, byte, bit, BitVec.getLsbD, Nat.testBit, UInt8.toNat_toBitVec, Nat.and_comm 1,
    Nat.and_one_is_mod]
  rcases Nat.mod_two_eq_zero_or_one ((bitmap (idx / 8)).toNat >>> (idx % 8)) with low | low <;> simp [low]

theorem bitmapTest_eq_one (physmem : Physmem) (frame : Nat) :
    bitmapTest physmem.bitmap frame = 1 ↔ inUse physmem frame = true := by
  rw [bitmapTest_eq, Bool.toNat_eq_one]
  rfl

theorem bitmapSet_eq (bitmap : Nat → UInt8) (idx : Nat) : bitmapSet bitmap idx = BitArray.set bitmap idx := by
  have byte : idx >>> 3 = idx / 8 := Nat.shiftRight_eq_div_pow idx 3
  have bit : idx &&& 7 = idx % 8 := Nat.and_two_pow_sub_one_eq_mod idx 3
  rw [bitmapSet, BitArray.set, byte, bit]

theorem bitmapClear_eq (bitmap : Nat → UInt8) (idx : Nat) : bitmapClear bitmap idx = BitArray.clear bitmap idx := by
  have byte : idx >>> 3 = idx / 8 := Nat.shiftRight_eq_div_pow idx 3
  have bit : idx &&& 7 = idx % 8 := Nat.and_two_pow_sub_one_eq_mod idx 3
  rw [bitmapClear, BitArray.clear, byte, bit]

/-- The frames from `start` on were marked, and nothing else happened. -/
structure Marked (before after : Physmem) (start count : Nat) (used : Bool) : Prop where
  bits : ∀ frame, inUse after frame = if start ≤ frame ∧ frame < start + count then used else inUse before frame
  pageframes : ∀ frame, ¬(start ≤ frame ∧ frame < start + count) → after.pageframes frame = before.pageframes frame
  total : after.total = before.total
  address : after.pageframesAddress = before.pageframesAddress
  bitmapSize : after.bitmapSize = before.bitmapSize

theorem Marked.refl (physmem : Physmem) (start : Nat) (used : Bool) : Marked physmem physmem start 0 used := by
  constructor
  · intro frame
    rw [if_neg (by omega)]
  · exact fun _ _ => rfl
  · rfl
  · rfl
  · rfl

theorem Marked.append {first second third : Physmem} {start left right : Nat} {used : Bool}
    (front : Marked first second start left used) (back : Marked second third (start + left) right used) :
    Marked first third start (left + right) used := by
  constructor
  · intro frame
    rw [back.bits, front.bits]
    by_cases right : start + left ≤ frame ∧ frame < start + left + right
    · rw [if_pos right, if_pos (by omega)]
    · by_cases left : start ≤ frame ∧ frame < start + left
      · rw [if_neg right, if_pos left, if_pos (by omega)]
      · rw [if_neg right, if_neg left, if_neg (by omega)]
  · intro frame outside
    rw [back.pageframes frame (by omega), front.pageframes frame (by omega)]
  · exact back.total.trans front.total
  · exact back.address.trans front.address
  · exact back.bitmapSize.trans front.bitmapSize

theorem useFrame_marked (flags : Nat) (physmem : Physmem) (frame : Nat) :
    Marked physmem (useFrame flags physmem frame) frame 1 true := by
  constructor
  · intro other
    simp only [inUse, useFrame, bitmapSet_eq, BitArray.test_set]
    by_cases same : other = frame
    · simp [same]
    · rw [if_neg (by omega)]
      simp [same]
  · intro other outside
    exact Function.update_of_ne (by omega) _ _
  · rfl
  · rfl
  · rfl

theorem freeFrame_marked (physmem : Physmem) (frame : Nat) :
    Marked physmem (freeFrame physmem frame) frame 1 false := by
  constructor
  · intro other
    simp only [inUse, freeFrame, bitmapClear_eq, BitArray.test_clear]
    by_cases same : other = frame
    · simp [same]
    · rw [if_neg (by omega)]
      simp [same]
  · intro other outside
    exact Function.update_of_ne (by omega) _ _
  · rfl
  · rfl
  · rfl

/-- A marking loop marks exactly its range. -/
theorem forFrames_marked {body : Physmem → Nat → Physmem} {used : Bool}
    (marks : ∀ physmem frame, Marked physmem (body physmem frame) frame 1 used) (start count : Nat)
    (physmem : Physmem) : Marked physmem (forFrames body start count physmem) start count used := by
  induction count generalizing start physmem with
  | zero => exact Marked.refl physmem start used
  | succ count ih =>
    have whole := (marks physmem start).append (ih (start + 1) (body physmem start))
    rwa [Nat.add_comm 1 count] at whole

/-- `count` free frames in a row. -/
def FreeRun (physmem : Physmem) (start count : Nat) : Prop :=
  ∀ frame, start ≤ frame → frame < start + count → inUse physmem frame = false

/-- The search so far: the last `consecutive` frames were free, and no run fits
in front of them. -/
structure Searching (physmem : Physmem) (count lowest frame consecutive startFrame : Nat) : Prop where
  short : consecutive < count
  above : lowest + consecutive ≤ frame
  start : consecutive ≠ 0 → startFrame + consecutive = frame
  free : FreeRun physmem (frame - consecutive) consecutive
  missed : ∀ earlier, lowest ≤ earlier → earlier < frame - consecutive → ¬FreeRun physmem earlier count

theorem Searching.free_frame {physmem : Physmem} {count lowest frame consecutive startFrame : Nat}
    (searching : Searching physmem count lowest frame consecutive startFrame) (clear : inUse physmem frame = false) :
    FreeRun physmem (frame - consecutive) (consecutive + 1) := by
  intro other low high
  by_cases last : other = frame
  · rw [last]
    exact clear
  · exact searching.free other low (by have := searching.above; omega)

/-- The search finds the lowest run of free frames, or there is none. -/
theorem physmemSearch_spec {physmem : Physmem} {count lowest : Nat} (left frame consecutive startFrame : Nat)
    (searching : Searching physmem count lowest frame consecutive startFrame) :
    (∃ found, physmemSearch physmem.bitmap count left frame consecutive startFrame = some found ∧
      lowest ≤ found ∧ found + count ≤ frame + left ∧ FreeRun physmem found count ∧
      ∀ earlier, lowest ≤ earlier → earlier < found → ¬FreeRun physmem earlier count) ∨
    physmemSearch physmem.bitmap count left frame consecutive startFrame = none ∧
      ∀ start, lowest ≤ start → start + count ≤ frame + left → ¬FreeRun physmem start count := by
  induction left generalizing frame consecutive startFrame with
  | zero =>
    refine Or.inr ⟨rfl, fun start low high run => ?_⟩
    have short := searching.short
    exact searching.missed start low (by omega) run
  | succ left ih =>
    have short := searching.short
    have above := searching.above
    have bit : bitmapTest physmem.bitmap frame = (inUse physmem frame).toNat := bitmapTest_eq _ _
    rw [physmemSearch, bit, show frame + (left + 1) = frame + 1 + left by omega]
    cases clear : inUse physmem frame with
    | false =>
      have longer := searching.free_frame clear
      have start : (if consecutive = 0 then frame else startFrame) = frame - consecutive := by
        split
        next none => omega
        next some =>
          have begun := searching.start some
          omega
      simp only [Bool.toNat_false, if_true, start]
      by_cases enough : consecutive + 1 ≥ count
      · rw [if_pos enough]
        obtain rfl : count = consecutive + 1 := by omega
        exact Or.inl ⟨_, rfl, by omega, by omega, longer, searching.missed⟩
      · rw [if_neg enough]
        have shift : frame + 1 - (consecutive + 1) = frame - consecutive := by omega
        exact ih _ _ _ ⟨by omega, by omega, fun _ => by omega, shift ▸ longer, shift ▸ searching.missed⟩
    | true =>
      simp only [Bool.toNat_true, Nat.one_ne_zero, if_false]
      refine ih _ _ _ ⟨by omega, by omega, fun some => (some rfl).elim, fun other low high => by omega, ?_⟩
      intro earlier low high run
      by_cases before : earlier < frame - consecutive
      · exact searching.missed earlier low before run
      · have free := run frame (by omega) (by omega)
        rw [clear] at free
        cases free

private theorem clamped (stop total : Nat) : (if stop > total then total else stop) = min stop total := by
  split <;> omega

/-- Marking as used clamps its range to the frames there are. -/
theorem physmemAddrMarkUsed_marked {physmem : Physmem} (present : physmem.pageframesAddress ≠ 0)
    (physmemAddr count : Nat) :
    ∃ after, physmemAddrMarkUsed physmem physmemAddr count = .ok after ∧
      Marked physmem after (physmemAddr / pageSize)
        (min (u64 (physmemAddr / pageSize + count)) physmem.total - physmemAddr / pageSize) true := by
  refine ⟨_, if_neg present, ?_⟩
  rw [clamped]
  exact forFrames_marked (useFrame_marked frameUsed) _ _ physmem

theorem physmemAddrMarkFree_marked {physmem : Physmem} (present : physmem.pageframesAddress ≠ 0)
    (physmemAddr count : Nat) :
    ∃ after, physmemAddrMarkFree physmem physmemAddr count = .ok after ∧
      Marked physmem after (physmemAddr / pageSize)
        (min (u64 (physmemAddr / pageSize + count)) physmem.total - physmemAddr / pageSize) false := by
  refine ⟨_, if_neg present, ?_⟩
  rw [clamped]
  exact forFrames_marked freeFrame_marked _ _ physmem

/-- An allocation takes the lowest run of free frames from the search start on,
or returns zero when it asks for nothing or no run is long enough. -/
theorem physmemAllocTo_spec {physmem : Physmem} (present : physmem.pageframesAddress ≠ 0) (count : Nat) :
    (∃ start after, count ≠ 0 ∧ startSearch ≤ start ∧ start + count ≤ physmem.total ∧ FreeRun physmem start count ∧
      (∀ earlier, startSearch ≤ earlier → earlier < start → ¬FreeRun physmem earlier count) ∧
      physmemAllocTo physmem count = .ok (start * pageSize, after) ∧ Marked physmem after start count true) ∨
    physmemAllocTo physmem count = .ok (0, physmem) ∧
      (count ≠ 0 → ∀ start, startSearch ≤ start → start + count ≤ physmem.total → ¬FreeRun physmem start count) := by
  by_cases nothing : count = 0
  · exact Or.inr ⟨if_pos nothing, fun asked => (asked nothing).elim⟩
  · have small := physmem.total_lt
    have searching : Searching physmem count startSearch startSearch 0 0 :=
      ⟨by omega, le_refl _, fun some => (some rfl).elim, fun _ low high => by omega, fun _ low high => by omega⟩
    simp only [physmemAllocTo, if_neg nothing]
    rcases physmemSearch_spec (physmem.total - startSearch) startSearch 0 0 searching with
      ⟨start, found, low, high, run, lowest⟩ | ⟨missing, full⟩
    · have bound : start + count ≤ physmem.total := by omega
      have address : u64 (start * pageSize) = start * pageSize := u64_eq (by simp only [pageSize]; omega)
      have frame : start * pageSize / pageSize = start := Nat.mul_div_cancel _ (by decide)
      obtain ⟨after, result, marked⟩ := physmemAddrMarkUsed_marked present (start * pageSize) count
      have width : min (u64 (start + count)) physmem.total - start = count := by
        rw [u64_eq (by omega)]
        omega
      rw [frame, width] at marked
      refine Or.inl ⟨start, after, nothing, low, bound, run, lowest, ?_, marked⟩
      simp only [found, address, result]
      rfl
    · refine Or.inr ⟨by rw [missing], fun _ start low high => full start low (by omega)⟩

/-- An allocation that succeeds found the pageframe array mapped. -/
theorem physmemAllocTo_present {physmem after : Physmem} {count address : Nat}
    (result : physmemAllocTo physmem count = .ok (address, after)) (given : address ≠ 0) :
    physmem.pageframesAddress ≠ 0 := by
  intro null
  by_cases nothing : count = 0
  · rw [physmemAllocTo, if_pos nothing] at result
    cases result
    exact given rfl
  · rw [physmemAllocTo, if_neg nothing] at result
    cases search : physmemSearch physmem.bitmap count (physmem.total - startSearch) startSearch 0 0 with
    | none =>
      rw [search] at result
      cases result
      exact given rfl
    | some start =>
      simp only [search, physmemAddrMarkUsed, if_pos null] at result
      cases result

theorem physmemFreeTo_spec {physmem : Physmem} (present : physmem.pageframesAddress ≠ 0) {start count : Nat}
    (bound : start + count ≤ physmem.total) :
    ∃ after, physmemFreeTo physmem (start * pageSize) count = .ok after ∧ Marked physmem after start count false := by
  by_cases nothing : count = 0
  · refine ⟨physmem, if_pos nothing, ?_⟩
    rw [nothing]
    exact Marked.refl physmem start false
  · have small := physmem.total_lt
    obtain ⟨after, result, marked⟩ := physmemAddrMarkFree_marked present (start * pageSize) count
    have frame : start * pageSize / pageSize = start := Nat.mul_div_cancel _ (by decide)
    have width : min (u64 (start + count)) physmem.total - start = count := by
      rw [u64_eq (by omega)]
      omega
    rw [frame, width] at marked
    exact ⟨after, (if_neg nothing).trans result, marked⟩

/-- The lowest run of free frames that is long enough, from the search start on. -/
structure LowestRun (physmem : Physmem) (count start : Nat) : Prop where
  low : startSearch ≤ start
  high : start + count ≤ physmem.total
  free : FreeRun physmem start count
  lowest : ∀ earlier, startSearch ≤ earlier → earlier < start → ¬FreeRun physmem earlier count

/-- Without a run, and for no frames at all, nothing happens; otherwise the lowest run is
taken, and nothing else changes. -/
theorem physmem_alloc_lowest {physmem : Physmem} (present : physmem.pageframesAddress ≠ 0) (count : Nat) :
    ((count = 0 ∨ ∀ start, startSearch ≤ start → start + count ≤ physmem.total → ¬FreeRun physmem start count) →
      physmemAllocTo physmem count = .ok (0, physmem)) ∧
    (count ≠ 0 → (∃ start, startSearch ≤ start ∧ start + count ≤ physmem.total ∧ FreeRun physmem start count) →
      ∃ start after, LowestRun physmem count start ∧ physmemAllocTo physmem count = .ok (4096 * start, after) ∧
        Marked physmem after start count true) := by
  rcases physmemAllocTo_spec present count with
    ⟨start, after, asked, low, high, free, lowest, result, marked⟩ | ⟨result, full⟩
  · constructor
    · rintro (nothing | missing)
      · exact absurd nothing asked
      · exact absurd free (missing start low high)
    · intro _ _
      rw [Nat.mul_comm] at result
      exact ⟨start, after, ⟨low, high, free, lowest⟩, result, marked⟩
  · constructor
    · exact fun _ => result
    · rintro asked ⟨start, low, high, free⟩
      exact absurd free (full asked start low high)

/-- Two frames behind the search start, both free. -/
def twoFrames : Physmem := ⟨1, fun _ => ⟨0, 0⟩, 514, fun _ => 0, 65, 0, by decide⟩

theorem physmem_alloc_lowest_two : ∃ start after, LowestRun twoFrames 2 start ∧
    physmemAllocTo twoFrames 2 = .ok (4096 * start, after) ∧ Marked twoFrames after start 2 true := by
  have run : FreeRun twoFrames startSearch 2 := by
    intro frame _ _
    simp [inUse, BitArray.test, twoFrames]
  exact (physmem_alloc_lowest (show twoFrames.pageframesAddress ≠ 0 by decide) 2).2 (by decide)
    ⟨startSearch, by decide, by decide, run⟩

section Runs
open Transition

/-- The allocator, with the allocations that were made and not yet freed. -/
structure PhysmemState where
  physmem : Physmem
  live : List (Nat × Nat)

inductive PhysmemOp where
  | alloc (count : Nat)
  | free (physmemAddr count : Nat)

/-- One call. An allocation is freed with its own address and count, at most once. -/
def PhysmemStep (before : PhysmemState) (op : PhysmemOp) (after : PhysmemState) : Prop :=
  match op with
  | .alloc count => ∃ physmemAddr physmem, physmemAllocTo before.physmem count = .ok (physmemAddr, physmem) ∧
      after = ⟨physmem, if physmemAddr = 0 then before.live else (physmemAddr, count) :: before.live⟩
  | .free physmemAddr count => (physmemAddr, count) ∈ before.live ∧ ∃ physmem,
      physmemFreeTo before.physmem physmemAddr count = .ok physmem ∧
      after = ⟨physmem, before.live.erase (physmemAddr, count)⟩

/-- What `physmem_init` can leave behind, whatever the boot loader reported. -/
def Initialised (physmem : Physmem) : Prop :=
  ∃ pageframes bitmap mpr hpr, physmemInit pageframes bitmap mpr hpr = .ok physmem

/-- The frames of an allocation. -/
def Holds (allocation : Nat × Nat) (frame : Nat) : Prop :=
  allocation.1 / pageSize ≤ frame ∧ frame < allocation.1 / pageSize + allocation.2

def freeFrames (physmem : Physmem) : Finset Nat :=
  (Finset.range physmem.total).filter fun frame => inUse physmem frame = false

/-- The frame number and the length of an allocation. -/
def frames (allocation : Nat × Nat) : Nat × Nat := (allocation.1 / pageSize, allocation.2)

def pool (state : PhysmemState) : IntervalPool.Pool := ⟨freeFrames state.physmem, state.live.map frames⟩

theorem holds_iff (allocation : Nat × Nat) (frame : Nat) :
    Holds allocation frame ↔ frame ∈ IntervalPool.cells (frames allocation) := by
  simp [Holds, IntervalPool.cells, frames]

theorem mem_freeFrames (physmem : Physmem) (frame : Nat) :
    frame ∈ freeFrames physmem ↔ frame < physmem.total ∧ inUse physmem frame = false := by
  simp [freeFrames]

/-- `physmem_free_get` counts the clear bits. -/
theorem physmemFreeGet_eq (physmem : Physmem) : physmemFreeGet physmem = (freeFrames physmem).card := by
  unfold physmemFreeGet freeFrames
  induction physmem.total with
  | zero => rfl
  | succ total ih =>
    rw [List.range_succ, List.foldl_append, ih, Finset.range_add_one, Finset.filter_insert]
    simp only [List.foldl_cons, List.foldl_nil, bitmapTest_eq]
    have fresh : total ∉ (Finset.range total).filter fun frame => inUse physmem frame = false := by simp
    cases clear : inUse physmem total with
    | false =>
      rw [inUse] at clear
      rw [if_pos (by rw [clear]; rfl), if_pos rfl, Finset.card_insert_of_notMem fresh]
    | true =>
      rw [inUse] at clear
      rw [if_neg (by rw [clear]; decide), if_neg (by decide)]

theorem freeFrames_take {before after : Physmem} {start count : Nat} (marked : Marked before after start count true) :
    freeFrames after = freeFrames before \ IntervalPool.cells (start, count) := by
  ext frame
  simp only [mem_freeFrames, Finset.mem_sdiff, IntervalPool.cells, Finset.mem_Ico, marked.bits, marked.total]
  split
  next inside => simp [inside]
  next outside => simp [outside]

theorem freeFrames_give {before after : Physmem} {start count : Nat} (marked : Marked before after start count false)
    (bound : start + count ≤ before.total) :
    freeFrames after = freeFrames before ∪ IntervalPool.cells (start, count) := by
  ext frame
  simp only [mem_freeFrames, Finset.mem_union, IntervalPool.cells, Finset.mem_Ico, marked.bits, marked.total]
  split
  next inside => simp only [inside, and_self, or_true, iff_true, and_true]; omega
  next outside => simp [outside]

/-- An allocator with its live allocations: whole pages inside the memory, and
a pool without overlaps. -/
structure PhysmemValid (state : PhysmemState) : Prop where
  present : state.physmem.pageframesAddress ≠ 0
  aligned : ∀ allocation ∈ state.live, allocation.1 / pageSize * pageSize = allocation.1
  inside : ∀ allocation ∈ state.live, allocation.1 / pageSize + allocation.2 ≤ state.physmem.total
  apart : IntervalPool.Valid (pool state)

/-- A step of the allocator is a step of the pool, and keeps the state valid. -/
theorem PhysmemValid.step {before after : PhysmemState} {op : PhysmemOp} (valid : PhysmemValid before)
    (moves : PhysmemStep before op after) :
    IntervalPool.Step (pool before) (pool after) ∧ PhysmemValid after := by
  cases op with
  | alloc count =>
    obtain ⟨physmemAddr, physmem, result, rfl⟩ := moves
    rcases physmemAllocTo_spec valid.present count with
      ⟨start, taken, asked, low, bound, run, _, expected, marked⟩ | ⟨expected, _⟩
    · cases result.symm.trans expected
      have given : start * pageSize ≠ 0 := by
        simp only [startSearch] at low
        simp only [pageSize]
        omega
      have frame : start * pageSize / pageSize = start := Nat.mul_div_cancel _ (by decide)
      have available : IntervalPool.cells (start, count) ⊆ freeFrames before.physmem := by
        intro frame member
        simp only [IntervalPool.cells, Finset.mem_Ico] at member
        rw [mem_freeFrames]
        exact ⟨by omega, run frame member.1 member.2⟩
      rw [if_neg given]
      have moved : IntervalPool.Step (pool before) (pool ⟨physmem, (start * pageSize, count) :: before.live⟩) := by
        have same : pool ⟨physmem, (start * pageSize, count) :: before.live⟩ =
            ⟨freeFrames before.physmem \ IntervalPool.cells (start, count), (start, count) :: (pool before).live⟩ := by
          simp only [pool, List.map_cons, frames, frame, freeFrames_take marked]
        rw [same]
        exact .take available
      refine ⟨moved, ⟨?_, ?_, ?_, moved.valid valid.apart⟩⟩
      · rw [marked.address]
        exact valid.present
      · intro allocation member
        rcases List.mem_cons.mp member with rfl | member
        · exact congrArg (· * pageSize) frame
        · exact valid.aligned allocation member
      · intro allocation member
        rw [marked.total]
        rcases List.mem_cons.mp member with rfl | member
        · rw [frame]
          exact bound
        · exact valid.inside allocation member
    · cases result.symm.trans expected
      exact ⟨.refuse _, valid⟩
  | free physmemAddr count =>
    obtain ⟨held, physmem, result, rfl⟩ := moves
    have bound := valid.inside _ held
    obtain ⟨given, expected, marked⟩ := physmemFreeTo_spec valid.present bound
    rw [valid.aligned _ held] at expected
    cases result.symm.trans expected
    have perm := List.perm_cons_erase held
    have moved : IntervalPool.Step (pool before) (pool ⟨physmem, before.live.erase (physmemAddr, count)⟩) := by
      have same : pool ⟨physmem, before.live.erase (physmemAddr, count)⟩ =
          ⟨(pool before).free ∪ IntervalPool.cells (frames (physmemAddr, count)),
            (before.live.erase (physmemAddr, count)).map frames⟩ := by
        simp only [pool, frames, freeFrames_give marked bound]
      rw [same]
      exact .give (perm.map frames)
    refine ⟨moved, ⟨?_, ?_, ?_, moved.valid valid.apart⟩⟩
    · rw [marked.address]
      exact valid.present
    · exact fun allocation member => valid.aligned allocation (List.mem_of_mem_erase member)
    · intro allocation member
      rw [marked.total]
      exact valid.inside allocation (List.mem_of_mem_erase member)

/-- Whatever run leads on from a valid state, the pool covers the same frames and
counts the same total. -/
theorem physmem_run {first state : PhysmemState} (valid : PhysmemValid first)
    (reached : Reachable (· = first) PhysmemStep state) :
    PhysmemValid state ∧ IntervalPool.territory (pool state) = IntervalPool.territory (pool first) ∧
      IntervalPool.total (pool state) = IntervalPool.total (pool first) := by
  induction reached with
  | initial starts =>
    subst starts
    exact ⟨valid, rfl, rfl⟩
  | step _ moves ih =>
    obtain ⟨before, territory, total⟩ := ih
    obtain ⟨moved, after⟩ := before.step moves
    exact ⟨after, moved.territory.trans territory, (moved.total before.apart).trans total⟩

end Runs

end Kernix.Proofs
