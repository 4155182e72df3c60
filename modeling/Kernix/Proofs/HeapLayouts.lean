import Kernix.Proofs.HeapRuns
import Mathlib.Data.List.Nodup

/-! The heap has no history. The pointers that callers hold, with the sizes behind them,
leave only one way to tile the rest, so two heaps that came to the same pointers on
different ways are the same list of blocks, and answer all later calls alike. -/

namespace Kernix.Proofs
open ByteMemory HeapBlock Transition KernelMemory

section Tilings

variable {address : Nat} {first second rest : List Block} {block : Block}

theorem allocated_above {entry : Nat × Nat} (member : entry ∈ allocated address first) : address + 40 ≤ entry.1 := by
  obtain ⟨pointer, size⟩ := entry
  obtain ⟨pre, post, _, rfl⟩ := mem_allocated member
  dsimp only
  omega

/-- Behind a free block the heap ends, or a block in use comes at once. -/
theorem allocated_gap (address : Nat) (coalesced : Coalesced (block :: rest)) (free : block.used = false) :
    rest = [] ∨ ∃ size, (allocated (address + 40 + block.size) rest).head? =
      some (address + 40 + block.size + 40, size) := by
  cases rest with
  | nil => exact .inl rfl
  | cons next others =>
    have joined := (List.isChain_cons_cons.mp coalesced).1
    rw [free] at joined
    have used : next.used = true := joined.resolve_left Bool.false_ne_true
    refine .inr ⟨next.size, ?_⟩
    rw [allocated, if_pos used]
    rfl

/-- Two coalesced tilings of as many bytes that have the same blocks in use are the same. -/
theorem tiling_unique (firstCoalesced : Coalesced first) (secondCoalesced : Coalesced second)
    (extent : span first = span second) (same : allocated address first = allocated address second) :
    first = second := by
  induction first generalizing address second with
  | nil =>
    cases second with
    | nil => rfl
    | cons other others =>
      simp only [span_nil, span_cons] at extent
      omega
  | cons block rest ih =>
    cases second with
    | nil =>
      simp only [span_nil, span_cons] at extent
      omega
    | cons other others =>
      simp only [span_cons] at extent
      -- the two heads agree on being in use, since a free one leaves its header to nobody
      have agree (mine theirs : Block) (behind ahead : List Block) (used : mine.used = true) (free : theirs.used = false)
          (equal : allocated address (mine :: behind) = allocated address (theirs :: ahead)) : False := by
        rw [allocated, if_pos used, allocated, if_neg (by rw [free]; exact Bool.false_ne_true)] at equal
        have member : (address + 40, mine.size) ∈ allocated (address + 40 + theirs.size) ahead := by
          rw [← equal]
          exact List.mem_cons_self
        have above : address + 40 + theirs.size + 40 ≤ address + 40 := allocated_above member
        omega
      have sizes : block.size = other.size ∧ block.used = other.used ∧
          allocated (address + 40 + block.size) rest = allocated (address + 40 + other.size) others := by
        cases mine : block.used with
        | true =>
          cases theirs : other.used with
          | true =>
            rw [allocated, if_pos mine, allocated, if_pos theirs] at same
            obtain ⟨head, tail⟩ := List.cons.inj same
            exact ⟨congrArg Prod.snd head, rfl, tail⟩
          | false => exact (agree block other rest others mine theirs same).elim
        | false =>
          cases theirs : other.used with
          | true => exact (agree other block others rest theirs mine same.symm).elim
          | false =>
            rw [allocated, if_neg (by rw [mine]; exact Bool.false_ne_true), allocated,
              if_neg (by rw [theirs]; exact Bool.false_ne_true)] at same
            refine ⟨?_, rfl, same⟩
            have ends := allocated_gap address firstCoalesced mine
            have others' := allocated_gap address secondCoalesced theirs
            rw [same] at ends
            rcases ends with rfl | ⟨size, next⟩ <;> rcases others' with rfl | ⟨size', next'⟩
            · simpa using extent
            · rw [← same] at next'
              cases next'
            · cases next
            · have heads := congrArg Prod.fst (Option.some.inj (next.symm.trans next'))
              dsimp only at heads
              omega
      obtain ⟨size, used, tail⟩ := sizes
      rw [size] at tail
      rw [ih firstCoalesced.of_cons secondCoalesced.of_cons (by omega) tail]
      exact congrArg (· :: others) (by cases block; cases other; simp_all)

end Tilings

/-- The blocks in use come in address order, so that as a set they are known as a list. -/
theorem allocated_order {address : Nat} {first second : List Block}
    (same : (allocated address first).Perm (allocated address second)) :
    allocated address first = allocated address second :=
  same.eq_of_pairwise (fun _ _ _ _ ahead behind => by omega) allocated_apart allocated_apart

/-- Where a block starts says which of the blocks it is. -/
theorem block_at_span {pre pre' post post' : List Block} {block block' : Block}
    (same : pre ++ block :: post = pre' ++ block' :: post') (start : span pre = span pre') :
    pre = pre' ∧ block = block' ∧ post = post' := by
  induction pre generalizing pre' with
  | nil =>
    cases pre' with
    | nil => exact ⟨rfl, List.cons.inj same⟩
    | cons other others =>
      simp only [span_nil, span_cons] at start
      omega
  | cons head rest ih =>
    cases pre' with
    | nil =>
      simp only [span_nil, span_cons] at start
      omega
    | cons other others =>
      obtain ⟨rfl, rest'⟩ := List.cons.inj same
      obtain ⟨rfl, here, behind⟩ := ih rest' (by simpa using start)
      exact ⟨rfl, here, behind⟩

/-- What a caller sees of a call: of `malloc` its pointer, of `free` nothing. Nobody frees
a pointer that is not live. -/
def heapCall (state : HeapState) : HeapOp → Option (Option Nat × HeapState)
  | .malloc size => (Kernix.malloc state.memory state.heap size).map fun (ptr, memory) =>
    (some ptr, { state with memory, live := if ptr = 0 then state.live else ptr :: state.live })
  | .free ptr =>
    if ptr ∈ state.live then
      (Kernix.free state.memory ptr).map fun result =>
        (none, { state with memory := result.memory, live := state.live.erase ptr })
    else none

/-- What the caller sees of one call after the other. -/
def heapAnswers (state : HeapState) : List HeapOp → Option (List (Option Nat))
  | [] => some []
  | op :: rest => (heapCall state op).bind fun result => (heapAnswers result.2 rest).map (result.1 :: ·)

/-- Two heaps with the same blocks, whatever the bytes in and behind their payloads are. -/
structure SameBlocks (first second : HeapState) (blocks : List Block) : Prop where
  heap : second.heap = first.heap
  first : HeapValid kernelMemorySizeHeap first blocks
  second : HeapValid kernelMemorySizeHeap second blocks

theorem SameBlocks.live {first second : HeapState} {blocks : List Block} (same : SameBlocks first second blocks) :
    first.live.Perm second.live := by
  have held := same.second.live
  rw [same.heap] at held
  exact same.first.live.trans held.symm

/-- The best fit is found by the sizes alone. -/
theorem malloc_pointer {memory : Memory} {address : Nat} {blocks : List Block} (request : Nat)
    (segment : Segment memory address 0 0 blocks) (nonempty : blocks ≠ []) (positive : 0 < address)
    (fewer : blocks.length < addressSpace) :
    (malloc memory address request).map Prod.fst =
      some (if request = 0 then 0 else if searchFit (roundUp request) address 0 sizeMax blocks = 0 then 0
        else u64 (searchFit (roundUp request) address 0 sizeMax blocks + headerSize)) := by
  by_cases asked : request = 0
  · simp only [malloc, asked, or_true, if_true, Option.map_some]
  have search := findBestFit_segment (roundUp request) addressSpace 0 sizeMax segment positive fewer
  rw [if_neg nonempty] at search
  simp only [malloc, search, asked, or_false, if_neg (show address ≠ 0 by omega), if_false]
  split <;> rfl

/-- Heaps of one layout return the same pointer and go on with one layout. -/
theorem SameBlocks.malloc {first second : HeapState} {blocks : List Block} (same : SameBlocks first second blocks)
    (region : Region first.heap kernelMemorySizeHeap) (request : Nat) :
    ∃ ptr first' second' blocks', heapCall first (.malloc request) = some (some ptr, first') ∧
      heapCall second (.malloc request) = some (some ptr, second') ∧ first'.heap = first.heap ∧
      SameBlocks first' second' blocks' := by
  obtain ⟨bytes, start, others⟩ := second
  obtain ⟨heap, valid, valid'⟩ := same
  obtain rfl : start = first.heap := heap
  have fewer : blocks.length < addressSpace := by
    have short := length_le_span blocks
    have extent := valid.extent
    have width : kernelMemorySizeHeap = 18866176 := rfl
    have space : addressSpace = 2 ^ 64 := rfl
    omega
  have nonempty := valid.nonempty region
  have pointer := malloc_pointer request valid.segment nonempty region.positive fewer
  have pointer' := malloc_pointer request valid'.segment nonempty region.positive fewer
  rw [← pointer] at pointer'
  rcases valid.malloc region request with
    ⟨result, _⟩ | ⟨pre, block, post, memory, _, rfl, fits, result, carved, _⟩
  all_goals
    rcases valid'.malloc region request with
      ⟨result', _⟩ | ⟨pre', block', post', memory', _, cut, fits', result', carved', _⟩
    all_goals
      rw [result, result'] at pointer'
      have equal := Option.some.inj pointer'
      dsimp only at equal
  · refine ⟨0, first, ⟨bytes, first.heap, others⟩, blocks, ?_, ?_, rfl, rfl, valid, valid'⟩
    · simp [heapCall, result]
    · simp [heapCall, result']
  · omega
  · omega
  · obtain ⟨rfl, rfl, rfl⟩ := block_at_span cut (by omega)
    refine ⟨first.heap + span pre + 40, ⟨memory, first.heap, (first.heap + span pre + 40) :: first.live⟩,
      ⟨memory', first.heap, (first.heap + span pre + 40) :: others⟩, _, ?_, ?_, rfl, rfl, carved, carved'⟩
    · simp [heapCall, result]
    · simp [heapCall, result']

/-- A freed block leaves the same hole in both. -/
theorem SameBlocks.free {first second : HeapState} {blocks : List Block} {ptr : Nat}
    (same : SameBlocks first second blocks) (region : Region first.heap kernelMemorySizeHeap)
    (held : ptr ∈ first.live) :
    ∃ first' second' blocks', heapCall first (.free ptr) = some (none, first') ∧
      heapCall second (.free ptr) = some (none, second') ∧ first'.heap = first.heap ∧
      SameBlocks first' second' blocks' := by
  have held' : ptr ∈ second.live := same.live.mem_iff.mp held
  obtain ⟨bytes, start, others⟩ := second
  obtain ⟨heap, valid, valid'⟩ := same
  obtain rfl : start = first.heap := heap
  obtain ⟨init, left, size, right, rest, memory, rfl, leftFree, rightFree, here, result, freed, _⟩ :=
    valid.free region held
  obtain ⟨init', left', size', right', rest', memory', cut, leftFree', rightFree', here', result', freed', _⟩ :=
    valid'.free region held'
  refine ⟨⟨memory, first.heap, first.live.erase ptr⟩, ⟨memory', first.heap, others.erase ptr⟩, _, ?_, ?_, rfl,
    rfl, freed, ?_⟩
  · simp [heapCall, held, result]
  · simp [heapCall, held', result']
  -- both holes are where the pointer was, and what stays in use is the same
  dsimp only at here here'
  obtain ⟨before, block, after⟩ := block_at_span cut (by omega)
  cases block
  have removed := allocated_release first.heap size _ init left right rest leftFree rightFree rfl
  have removed' := allocated_release first.heap size _ init' left' right' rest' leftFree' rightFree' rfl
  rw [← before, ← after] at removed'
  have kept := (removed.symm.trans removed').cons_inv
  rwa [tiling_unique freed.coalesced freed'.coalesced (freed.extent.trans freed'.extent.symm) (allocated_order kept)]

/-- From one layout every sequence of calls is answered alike. -/
theorem SameBlocks.answers {first second : HeapState} {blocks : List Block} (calls : List HeapOp)
    (same : SameBlocks first second blocks) (region : Region first.heap kernelMemorySizeHeap) :
    heapAnswers first calls = heapAnswers second calls := by
  induction calls generalizing first second blocks with
  | nil => rfl
  | cons op rest ih =>
    cases op with
    | malloc size =>
      obtain ⟨ptr, first', second', blocks', call, call', heap, next⟩ := same.malloc region size
      rw [heapAnswers, heapAnswers, call, call', Option.bind_some, Option.bind_some, ih next (heap ▸ region)]
    | free ptr =>
      by_cases held : ptr ∈ first.live
      · obtain ⟨first', second', blocks', call, call', heap, next⟩ := same.free region held
        rw [heapAnswers, heapAnswers, call, call', Option.bind_some, Option.bind_some, ih next (heap ▸ region)]
      · have held' : ptr ∉ second.live := fun member => held (same.live.mem_iff.mpr member)
        simp only [heapAnswers, heapCall, if_neg held, if_neg held', Option.bind_none]

/-- The blocks in use are what the live pointers and the sizes behind them say. -/
theorem HeapValid.allocated_subset {extent extent' : Nat} {first second : HeapState} {blocks blocks' : List Block}
    (valid : HeapValid extent first blocks) (valid' : HeapValid extent' second blocks')
    (live : first.live.Perm second.live)
    (sizes : ∀ ptr ∈ first.live, size first.memory (ptr - headerSize) = size second.memory (ptr - headerSize)) :
    allocated first.heap blocks ⊆ allocated second.heap blocks' := by
  rintro ⟨pointer, extent⟩ member
  have held : pointer ∈ first.live := valid.live.mem_iff.mpr (List.mem_map_of_mem member)
  obtain ⟨⟨_, extent'⟩, member', rfl⟩ := List.mem_map.mp (valid'.live.mem_iff.mp (live.mem_iff.mp held))
  have here := (allocated_header valid.segment member).2.2
  have there := (allocated_header valid'.segment member').2.2
  rwa [← here, sizes _ held, there]

/-- A list of blocks reads the same in every memory that holds it. -/
theorem segment_reads {first second : Memory} {address before before' stop stop' place : Nat} {blocks : List Block}
    (segment : Segment first address before stop blocks) (segment' : Segment second address before' stop' blocks)
    (member : place ∈ addresses address blocks) :
    size first place = size second place ∧ used first place = used second place := by
  obtain ⟨pre, block, post, rfl, rfl⟩ := mem_addresses member
  have here := ((segment_split pre block post).mp segment).2.1
  have there := ((segment_split pre block post).mp segment').2.1
  exact ⟨here.size.trans there.size.symm, here.used.trans there.used.symm⟩

/-- The list head never moves. -/
theorem heap_reachable_start {ptr : Nat} {state : HeapState} (fits : ptr + heapSize < 2 ^ 64)
    (reached : Reachable (HeapInitial ptr) HeapStep state) : state.heap = ptr + kernelMemoryOffsetHeap := by
  induction reached with
  | initial starts => exact (heapInitial_valid fits starts).1
  | step before moves ih =>
    obtain ⟨region, blocks, valid⟩ := heap_reachable_valid fits before
    exact (valid.step region moves).1.trans ih

/-- In all runs from `kernel_memory_init` the live pointers with their sizes determine the
heap: two runs that came to the same ones, in whatever order of calls, have the same list
of blocks, and answer every later sequence of calls with the same pointers. -/
theorem heap_layout_determined {ptr : Nat} {first second : HeapState} (fits : ptr + heapSize < 2 ^ 64)
    (reached : Reachable (HeapInitial ptr) HeapStep first) (reached' : Reachable (HeapInitial ptr) HeapStep second)
    (live : first.live.Perm second.live)
    (sizes : ∀ ptr ∈ first.live, size first.memory (ptr - headerSize) = size second.memory (ptr - headerSize)) :
    (∃ blocks, blockList first.memory addressSpace first.heap = some blocks ∧
      blockList second.memory addressSpace second.heap = some blocks ∧
      ∀ block ∈ blocks, size first.memory block = size second.memory block ∧
        used first.memory block = used second.memory block) ∧
    ∀ calls, heapAnswers first calls = heapAnswers second calls := by
  obtain ⟨region, blocks, valid⟩ := heap_reachable_valid fits reached
  obtain ⟨_, blocks', valid'⟩ := heap_reachable_valid fits reached'
  have heap : second.heap = first.heap :=
    (heap_reachable_start fits reached').trans (heap_reachable_start fits reached).symm
  have sizes' : ∀ ptr ∈ second.live,
      size second.memory (ptr - headerSize) = size first.memory (ptr - headerSize) :=
    fun ptr member => (sizes ptr (live.mem_iff.mpr member)).symm
  have used : (allocated first.heap blocks).Perm (allocated first.heap blocks') := by
    have forth := valid.allocated_subset valid' live sizes
    have back := valid'.allocated_subset valid live.symm sizes'
    rw [heap] at forth back
    exact (List.perm_ext_iff_of_nodup (List.Nodup.of_map Prod.fst allocated_nodup)
      (List.Nodup.of_map Prod.fst allocated_nodup)).mpr
      fun entry => ⟨fun member => forth member, fun member => back member⟩
  obtain rfl : blocks = blocks' :=
    tiling_unique valid.coalesced valid'.coalesced (valid.extent.trans valid'.extent.symm) (allocated_order used)
  have same : SameBlocks first second blocks := ⟨heap, valid, valid'⟩
  have tiled := (valid'.wellTiled (heap ▸ region)).traversal
  rw [heap] at tiled ⊢
  refine ⟨⟨_, (valid.wellTiled region).traversal, tiled, ?_⟩, fun calls => same.answers calls region⟩
  have segment' := valid'.segment
  rw [heap] at segment'
  exact fun block member => segment_reads valid.segment segment' member

/-- Fresh, and after an allocation that was freed again, the heap is the same. -/
theorem heap_layout_determined_fresh :
    ∃ first second : HeapState, first.live = [] ∧ second.live = [] ∧
      (∃ between op, HeapStep first (.malloc 100) between ∧ HeapStep between op second) ∧
      (∃ blocks, blockList first.memory addressSpace first.heap = some blocks ∧
        blockList second.memory addressSpace second.heap = some blocks ∧
        ∀ block ∈ blocks, size first.memory block = size second.memory block ∧
          used first.memory block = used second.memory block) ∧
      ∀ calls, heapAnswers first calls = heapAnswers second calls := by
  have fits : heapStart + heapSize < 2 ^ 64 := by decide
  obtain ⟨memory, result, _, _, _, _⟩ :=
    kernelMemoryInit_spec (fun _ => 0) (show 0 < heapStart by decide) (show headerSize ≤ heapSize by decide) fits
  have starts : HeapInitial heapStart ⟨memory, startHeap memory heapStart, []⟩ := ⟨_, _, _, result, rfl, rfl⟩
  obtain ⟨heap, valid⟩ := heapInitial_valid fits starts
  have region := region_heap fits
  rw [← heap] at region
  rcases valid.malloc region 100 with ⟨_, none⟩ | ⟨pre, block, post, after, _, _, _, returned, valid', _⟩
  · exact (none (by decide) _ (List.mem_singleton.mpr rfl) ⟨rfl, by decide⟩).elim
  · obtain ⟨_, _, _, _, _, final, _, _, _, _, freed, _⟩ := valid'.free region List.mem_cons_self
    have taken : HeapStep _ (.malloc 100) _ := ⟨_, _, returned, rfl⟩
    rw [if_neg (by omega)] at taken
    have given : HeapStep _ (.free _) _ := ⟨List.mem_cons_self, _, freed, rfl⟩
    rw [List.erase_cons_head] at given
    exact ⟨_, _, rfl, rfl, ⟨_, _, taken, given⟩,
      heap_layout_determined fits (.initial starts) (.step (.step (.initial starts) taken) given) .nil
        (fun _ member => nomatch member)⟩

end Kernix.Proofs
