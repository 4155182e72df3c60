import Kernix.Proofs.HeapInvariant

/-! The heap over whole runs, from the record that `kernel_memory_init` lays out
through any sequence of allocations and frees. -/

namespace Kernix.Proofs
open ByteMemory HeapBlock Transition KernelMemory

/-- `total_heap` as `kernel_memory_init` computes it. -/
abbrev heapTotal : Nat := kernelMemorySizeHeap - headerSize

/-- What `kernel_memory_init` establishes in a region that does not wrap: the
record, and behind it a heap of one free block. -/
theorem kernelMemoryInit_spec (memory : Memory) {ptr size : Nat} (positive : 0 < ptr) (room : headerSize ≤ size)
    (fits : ptr + heapSize < 2 ^ 64) :
    ∃ after, kernelMemoryInit memory ptr size = .ok (ptr, after) ∧
      startHeap after ptr = ptr + kernelMemoryOffsetHeap ∧ totalHeap after ptr = heapTotal ∧
      usedHeap after ptr = 0 ∧
      Segment after (ptr + kernelMemoryOffsetHeap) 0 0 [⟨heapTotal, false⟩] := by
  have offset : kernelMemoryOffsetHeap = 14688256 := rfl
  have total : heapTotal = 18866136 := rfl
  have extent : heapSize = 33554432 := rfl
  have slabMeta : u64 (ptr + kernelMemoryOffsetSlabMeta) = ptr + 4096 :=
    u64_eq (show ptr + 4096 < 2 ^ 64 by omega)
  have slabData : u64 (ptr + kernelMemoryOffsetSlabData) = ptr + 8192 :=
    u64_eq (show ptr + 8192 < 2 ^ 64 by omega)
  have heap : u64 (ptr + kernelMemoryOffsetHeap) = ptr + 14688256 := u64_eq (by omega)
  have slab : u64 (ptr + 40) = ptr + 40 := u64_eq (by omega)
  simp only [kernelMemoryInit, slabMeta, slabData, heap, slab]
  rw [if_neg (by omega)]
  simp only [slabInit, if_neg (show ptr + 40 ≠ 0 by omega), if_neg (show ptr + 4096 ≠ 0 by omega),
    if_neg (show ptr + 8192 ≠ 0 by omega)]
  refine ⟨_, rfl, ?_⟩
  rw [memset_eq_fill _ _ _ _ (show ptr + 40 + slabAllocatorSize ≤ 2 ^ 64 by
    simp only [slabAllocatorSize]; omega)]
  have magicFits : blockMagic < 256 ^ 4 := by decide
  have heapFits : ptr + 14688256 < 256 ^ 8 := by omega
  simp only [startHeap, totalHeap, usedHeap, setUsedHeap, setMagic, setSize, setNext, setPrev, setUsed,
    slabAllocatorSize, offset]
  rw [show kernelMemorySizeHeap - headerSize = 18866136 from rfl]
  refine ⟨?_, ?_, ?_, ⟨?_, ?_, ?_, ?_, ?_⟩, trivial⟩
  · simp (disch := omega) only [load_fill_apart, load_store_apart, load_store_fits]
  · simp (disch := omega) only [load_fill_apart, load_store_apart, load_store_fits]
    rfl
  · simp (disch := omega) only [load_fill_apart, load_store_apart, load_store_fits]
  all_goals
    simp only [magic, HeapBlock.size, used, prev, next]
    simp (disch := omega) only [load_fill_apart, load_store_apart, load_store_fits]
  · rfl
  · rfl
  · rfl

/-- A heap as `kernel_memory_init` leaves it in the region at `ptr`. -/
def HeapInitial (ptr : Nat) (state : HeapState) : Prop :=
  ∃ memory size kernelMemory, kernelMemoryInit memory ptr size = .ok (kernelMemory, state.memory) ∧
    state.heap = startHeap state.memory kernelMemory ∧ state.live = []

theorem kernelMemoryInit_guard {memory after : Memory} {ptr size kernelMemory : Nat}
    (starts : kernelMemoryInit memory ptr size = .ok (kernelMemory, after)) : 0 < ptr ∧ headerSize ≤ size := by
  by_cases bad : ptr = 0 ∨ size < headerSize
  · simp only [kernelMemoryInit, if_pos bad] at starts
    cases starts
  · omega

theorem region_heap {ptr : Nat} (fits : ptr + heapSize < 2 ^ 64) :
    Region (ptr + kernelMemoryOffsetHeap) kernelMemorySizeHeap := by
  have width : kernelMemoryOffsetHeap + kernelMemorySizeHeap = heapSize := rfl
  refine ⟨Nat.add_pos_right ptr (by decide), by decide, ?_, by decide⟩
  rw [Nat.add_assoc, width]
  exact fits

theorem heapInitial_valid {ptr : Nat} {state : HeapState} (fits : ptr + heapSize < 2 ^ 64)
    (starts : HeapInitial ptr state) :
    state.heap = ptr + kernelMemoryOffsetHeap ∧ HeapValid kernelMemorySizeHeap state [⟨heapTotal, false⟩] := by
  obtain ⟨memory, size, kernelMemory, result, heap, empty⟩ := starts
  obtain ⟨positive, room⟩ := kernelMemoryInit_guard result
  obtain ⟨after, expected, start, _, _, segment⟩ := kernelMemoryInit_spec memory positive room fits
  have same : (kernelMemory, state.memory) = (ptr, after) := Except.ok.inj (result.symm.trans expected)
  cases same
  rw [start] at heap
  refine ⟨heap, ?_, rfl, ?_, ?_⟩
  · rwa [heap]
  · rw [empty]
    exact .nil
  · exact List.isChain_singleton _

/-- One step of the heap: the list head stays, the heap is valid again, and every
block in use that is not the one being freed keeps its pointer and its size. -/
theorem HeapValid.step {extent : Nat} {before after : HeapState} {op : HeapOp} {blocks : List Block}
    (valid : HeapValid extent before blocks) (region : Region before.heap extent)
    (moves : HeapStep before op after) :
    after.heap = before.heap ∧ ∃ blocks', HeapValid extent after blocks' ∧
      ∀ entry ∈ allocated before.heap blocks, op ≠ .free entry.1 → entry ∈ allocated before.heap blocks' := by
  cases op with
  | malloc size =>
    obtain ⟨ptr, memory, result, rfl⟩ := moves
    refine ⟨rfl, ?_⟩
    rcases valid.malloc region size with
      ⟨expected, _⟩ | ⟨pre, block, post, carved, _, rfl, fits, expected, valid', _⟩
    · cases result.symm.trans expected
      exact ⟨blocks, by simpa using valid, fun _ member _ => member⟩
    · cases result.symm.trans expected
      obtain ⟨_, added⟩ := allocated_malloc before.heap (roundUp size) pre post block fits.1
      refine ⟨_, ?_, fun entry member _ => added.mem_iff.mpr (List.mem_cons_of_mem _ member)⟩
      rwa [if_neg (by omega)]
  | free ptr =>
    obtain ⟨held, result, freed, rfl⟩ := moves
    refine ⟨rfl, ?_⟩
    obtain ⟨init, left, size, right, rest, memory, rfl, leftFree, rightFree, rfl, expected, valid', _⟩ :=
      valid.free region held
    cases freed.symm.trans expected
    refine ⟨_, valid', fun entry member other => ?_⟩
    have removed := allocated_release before.heap size _ init left right rest leftFree rightFree rfl
    rcases List.mem_cons.mp (removed.mem_iff.mp member) with rfl | kept
    · exact (other rfl).elim
    · exact kept

theorem heap_reachable_valid {ptr : Nat} {state : HeapState} (fits : ptr + heapSize < 2 ^ 64)
    (reached : Reachable (HeapInitial ptr) HeapStep state) :
    Region state.heap kernelMemorySizeHeap ∧ ∃ blocks, HeapValid kernelMemorySizeHeap state blocks := by
  have located : state.heap = ptr + kernelMemoryOffsetHeap ∧
      ∃ blocks, HeapValid kernelMemorySizeHeap state blocks := by
    induction reached with
    | initial starts => exact ⟨(heapInitial_valid fits starts).1, _, (heapInitial_valid fits starts).2⟩
    | step _ moves ih =>
      obtain ⟨heap, blocks, valid⟩ := ih
      obtain ⟨same, blocks', valid', _⟩ := valid.step (heap ▸ region_heap fits) moves
      exact ⟨same.trans heap, blocks', valid'⟩
  exact ⟨located.1 ▸ region_heap fits, located.2⟩

/-- No call moves or resizes a live block other than the one it frees. -/
def KeepsLive (state : HeapState) : Prop :=
  ∀ op after, HeapStep state op after → ∀ ptr ∈ state.live, op ≠ .free ptr →
    ptr ∈ after.live ∧ size after.memory (ptr - headerSize) = size state.memory (ptr - headerSize)

/-- Every `malloc` and every `free` of a live pointer returns. -/
def CallsReturn (state : HeapState) : Prop :=
  (∀ size, ∃ after, HeapStep state (.malloc size) after) ∧
    ∀ ptr ∈ state.live, ∃ after, HeapStep state (.free ptr) after

theorem HeapValid.keepsLive {extent : Nat} {state : HeapState} {blocks : List Block}
    (valid : HeapValid extent state blocks) (region : Region state.heap extent) : KeepsLive state := by
  intro op after moves ptr held other
  obtain ⟨heap, blocks', valid', kept⟩ := valid.step region moves
  obtain ⟨⟨pointer, size⟩, member, rfl⟩ := List.mem_map.mp (valid.live.mem_iff.mp held)
  have survives := kept _ member other
  have old := allocated_header valid.segment member
  rw [← heap] at survives
  have new := allocated_header valid'.segment survives
  exact ⟨valid'.live.mem_iff.mpr (List.mem_map_of_mem survives), new.2.2.trans old.2.2.symm⟩

theorem HeapValid.callsReturn {extent : Nat} {state : HeapState} {blocks : List Block}
    (valid : HeapValid extent state blocks) (region : Region state.heap extent) : CallsReturn state := by
  constructor
  · intro size
    rcases valid.malloc region size with ⟨result, _⟩ | ⟨_, _, _, _, _, _, _, result, _⟩
    · exact ⟨_, _, _, result, rfl⟩
    · exact ⟨_, _, _, result, rfl⟩
  · intro ptr held
    obtain ⟨_, _, _, _, _, _, _, _, _, _, result, _⟩ := valid.free region held
    exact ⟨_, held, _, result, rfl⟩

/-- In every run from `kernel_memory_init`, whatever was allocated and freed, the
block list tiles the heap region, no call disturbs another live block, and no
call gets stuck. -/
theorem heap_run_wellTiled {ptr : Nat} {state : HeapState} (fits : ptr + heapSize < 2 ^ 64)
    (reached : Reachable (HeapInitial ptr) HeapStep state) :
    (∃ blocks, WellTiled state.memory state.heap kernelMemorySizeHeap state.live blocks) ∧
      KeepsLive state ∧ CallsReturn state := by
  obtain ⟨region, blocks, valid⟩ := heap_reachable_valid fits reached
  exact ⟨⟨_, valid.wellTiled region⟩, valid.keepsLive region, valid.callsReturn region⟩

/-- A run of one allocation in the region that `_start` hands over. -/
private theorem heap_run_example :
    ∃ state : HeapState, Reachable (HeapInitial heapStart) HeapStep state ∧ state.live.length = 1 := by
  have fits : heapStart + heapSize < 2 ^ 64 := by decide
  obtain ⟨memory, result, _, _, _, _⟩ :=
    kernelMemoryInit_spec (fun _ => 0) (show 0 < heapStart by decide) (show headerSize ≤ heapSize by decide) fits
  have starts : HeapInitial heapStart ⟨memory, startHeap memory heapStart, []⟩ := ⟨_, _, _, result, rfl, rfl⟩
  obtain ⟨heap, valid⟩ := heapInitial_valid fits starts
  rcases valid.malloc (heap ▸ region_heap fits) 100 with
    ⟨_, none⟩ | ⟨pre, block, post, memory, _, _, _, returned, _, _⟩
  · exact (none (by decide) _ (List.mem_singleton.mpr rfl) ⟨rfl, by decide⟩).elim
  · refine ⟨_, .step (.initial starts) (show HeapStep _ (.malloc 100) _ from ⟨_, _, returned, rfl⟩), ?_⟩
    rw [if_neg (by omega)]
    rfl

theorem heap_run_wellTiled_heapStart :
    ∃ state : HeapState, state.live.length = 1 ∧
      (∃ blocks, WellTiled state.memory state.heap kernelMemorySizeHeap state.live blocks) ∧
      KeepsLive state ∧ CallsReturn state := by
  obtain ⟨state, reached, one⟩ := heap_run_example
  exact ⟨state, one, heap_run_wellTiled (by decide) reached⟩

/-- Of any two neighbours in the block list at least one is in use. -/
def NoFreeNeighbours (memory : Memory) (blocks : List Nat) : Prop :=
  blocks.IsChain fun block follower => used memory block ≠ 0 ∨ used memory follower ≠ 0

/-- Free a list of pointers one after the other. -/
def freeAll (memory : Memory) : List Nat → Option Memory
  | [] => some memory
  | ptr :: rest => (free memory ptr).bind fun result => freeAll result.memory rest

theorem noFreeNeighbours_segment {memory : Memory} {address before stop : Nat} {blocks : List Block}
    (segment : Segment memory address before stop blocks) (coalesced : Coalesced blocks) :
    NoFreeNeighbours memory (addresses address blocks) := by
  induction blocks generalizing address before with
  | nil => exact .nil
  | cons block rest ih =>
    obtain ⟨header, back⟩ := segment
    refine List.isChain_cons.mpr ⟨?_, ih back coalesced.of_cons⟩
    intro follower member
    cases rest with
    | nil => cases member
    | cons next others =>
      cases member
      rw [header.used, back.1.used]
      have joined := (List.isChain_cons_cons.mp coalesced).1
      simpa using joined

/-- Freeing every live pointer succeeds in any order. -/
theorem HeapValid.freeAll {extent : Nat} {state : HeapState} {blocks : List Block} {order : List Nat}
    (valid : HeapValid extent state blocks) (region : Region state.heap extent) (all : order.Perm state.live) :
    ∃ final blocks', Proofs.freeAll state.memory order = some final ∧
      HeapValid extent ⟨final, state.heap, []⟩ blocks' := by
  induction order generalizing state blocks with
  | nil =>
    refine ⟨state.memory, blocks, rfl, ?_⟩
    exact ⟨valid.segment, valid.extent, all.trans valid.live, valid.coalesced⟩
  | cons ptr rest ih =>
    have held : ptr ∈ state.live := all.mem_iff.mp List.mem_cons_self
    have fewer : rest.Perm (state.live.erase ptr) := (List.cons_perm_iff_perm_erase.mp all).2
    obtain ⟨_, _, _, _, _, memory, _, _, _, _, result, valid', _⟩ := valid.free region held
    obtain ⟨final, blocks', freed, valid''⟩ := ih valid' region fewer
    refine ⟨final, blocks', ?_, valid''⟩
    simpa [Proofs.freeAll, result] using freed

/-- With nothing live a coalesced heap is a single free block. -/
theorem HeapValid.empty {extent : Nat} {state : HeapState} {blocks : List Block}
    (valid : HeapValid extent state blocks) (region : Region state.heap extent) (none : state.live = []) :
    blocks = [⟨extent - headerSize, false⟩] := by
  have unused : ∀ block ∈ blocks, block.used = false := by
    intro block member
    obtain ⟨pre, post, rfl⟩ := List.append_of_mem member
    by_contra busy
    have busy : block = ⟨block.size, true⟩ := by cases block; simp_all
    have entry := allocated_mem state.heap pre post block.size
    rw [← busy] at entry
    have held := valid.live.mem_iff.mpr (List.mem_map_of_mem entry)
    rw [none] at held
    cases held
  cases blocks with
  | nil => exact (valid.nonempty region rfl).elim
  | cons block rest =>
    cases rest with
    | nil =>
      have free := unused block List.mem_cons_self
      have total : 40 + block.size = extent := by simpa using valid.extent
      have size : extent - headerSize = block.size := by
        simp only [headerSize]
        omega
      rw [size, ← free]
    | cons next others =>
      have joined := (List.isChain_cons_cons.mp valid.coalesced).1
      simp [unused block (by simp), unused next (by simp)] at joined

/-- In every run from `kernel_memory_init` the heap is maximally coalesced, and
freeing all live pointers, in whatever order, gives back the one initial block. -/
theorem heap_run_coalesced {ptr : Nat} {state : HeapState} (fits : ptr + heapSize < 2 ^ 64)
    (reached : Reachable (HeapInitial ptr) HeapStep state) :
    (∃ blocks, blockList state.memory addressSpace state.heap = some blocks ∧
      NoFreeNeighbours state.memory blocks) ∧
    ∀ order : List Nat, order.Perm state.live → ∃ final, freeAll state.memory order = some final ∧
      blockList final addressSpace state.heap = some [state.heap] ∧
      used final state.heap = 0 ∧ size final state.heap = heapTotal := by
  obtain ⟨region, blocks, valid⟩ := heap_reachable_valid fits reached
  refine ⟨⟨_, (valid.wellTiled region).traversal, noFreeNeighbours_segment valid.segment valid.coalesced⟩, ?_⟩
  intro order all
  obtain ⟨final, blocks', freed, valid'⟩ := valid.freeAll region all
  obtain rfl := valid'.empty region rfl
  exact ⟨final, freed, (valid'.wellTiled region).traversal, valid'.segment.1.used, valid'.segment.1.size⟩

theorem heap_run_coalesced_heapStart :
    ∃ state : HeapState, state.live.length = 1 ∧
      (∃ blocks, blockList state.memory addressSpace state.heap = some blocks ∧
        NoFreeNeighbours state.memory blocks) ∧
      ∀ order : List Nat, order.Perm state.live → ∃ final, freeAll state.memory order = some final ∧
        blockList final addressSpace state.heap = some [state.heap] ∧
        used final state.heap = 0 ∧ size final state.heap = heapTotal := by
  obtain ⟨state, reached, one⟩ := heap_run_example
  exact ⟨state, one, heap_run_coalesced (by decide) reached⟩

end Kernix.Proofs
