import Kernix.Proofs.HeapMalloc
import Kernix.Proofs.MemoryCalls
import Kernix.Memory.Heap
import Kernix.Lib.Runs
import Mathlib.Data.List.Chain

/-! Runs of the heap. The invariant ties the list of blocks to memory and to the pointers
that callers hold; every step is a small edit of that list. Seen from outside it says what
a traversal from the list head finds, and where the live payloads lie. -/

namespace Kernix.Proofs
open ByteMemory HeapBlock Transition

/-- The kernel's view of its heap: memory, the list head, and the pointers that
were returned and not yet freed. -/
structure HeapState where
  memory : Memory
  heap : Nat
  live : List Nat

inductive HeapOp where
  | malloc (size : Nat)
  | free (ptr : Nat)

/-- One call. Only live pointers are freed, and `NULL` is never one of them. -/
def HeapStep (before : HeapState) (op : HeapOp) (after : HeapState) : Prop :=
  match op with
  | .malloc size => ∃ ptr memory, Kernix.malloc before.memory before.heap size = some (ptr, memory) ∧
      after = { before with memory, live := if ptr = 0 then before.live else ptr :: before.live }
  | .free ptr => ptr ∈ before.live ∧ ∃ result, Kernix.free before.memory ptr = some result ∧
      after = { before with memory := result.memory, live := before.live.erase ptr }

/-- The payload pointer and size of every block in use. -/
def allocated (address : Nat) : List Block → List (Nat × Nat)
  | [] => []
  | block :: rest =>
    if block.used then (address + 40, block.size) :: allocated (address + 40 + block.size) rest
    else allocated (address + 40 + block.size) rest

theorem allocated_append (address : Nat) (first second : List Block) :
    allocated address (first ++ second) = allocated address first ++ allocated (address + span first) second := by
  induction first generalizing address with
  | nil => simp [allocated]
  | cons block rest ih =>
    have shift : address + 40 + block.size + span rest = address + span (block :: rest) := by
      simp only [span_cons]; omega
    simp only [List.cons_append, allocated, ih, shift]
    split <;> rfl

theorem allocated_free {address : Nat} {blocks : List Block} (free : ∀ block ∈ blocks, block.used = false) :
    allocated address blocks = [] := by
  induction blocks generalizing address with
  | nil => rfl
  | cons block rest ih =>
    simp only [allocated, free block (by simp), Bool.false_eq_true, if_false]
    exact ih (fun other member => free other (by simp [member]))

theorem mem_allocated {address pointer size : Nat} {blocks : List Block}
    (member : (pointer, size) ∈ allocated address blocks) :
    ∃ pre post, blocks = pre ++ ⟨size, true⟩ :: post ∧ pointer = address + span pre + 40 := by
  induction blocks generalizing address with
  | nil => cases member
  | cons block rest ih =>
    have deeper : (pointer, size) ∈ allocated (address + 40 + block.size) rest →
        ∃ pre post, block :: rest = pre ++ ⟨size, true⟩ :: post ∧ pointer = address + span pre + 40 := by
      intro member
      obtain ⟨pre, post, rfl, rfl⟩ := ih member
      exact ⟨block :: pre, post, rfl, by simp only [span_cons]; omega⟩
    simp only [allocated] at member
    split at member
    next used =>
      rcases List.mem_cons.mp member with same | member
      · cases same
        exact ⟨[], rest, by cases block; simp_all, rfl⟩
      · exact deeper member
    next => exact deeper member

theorem allocated_mem (address : Nat) (pre post : List Block) (size : Nat) :
    (address + span pre + 40, size) ∈ allocated address (pre ++ ⟨size, true⟩ :: post) := by
  rw [allocated_append]
  simp [allocated]

/-- Payloads come in address order and keep a header's distance. -/
theorem allocated_apart {address : Nat} {blocks : List Block} :
    (allocated address blocks).Pairwise fun first second => first.1 + first.2 + 40 ≤ second.1 := by
  induction blocks generalizing address with
  | nil => exact .nil
  | cons block rest ih =>
    simp only [allocated]
    split
    · refine List.Pairwise.cons ?_ ih
      rintro ⟨pointer, size⟩ member
      obtain ⟨pre, post, _, rfl⟩ := mem_allocated member
      simp only
      omega
    · exact ih

theorem allocated_nodup {address : Nat} {blocks : List Block} :
    ((allocated address blocks).map Prod.fst).Nodup := by
  apply List.pairwise_map.mpr
  exact allocated_apart.imp (fun apart same => by omega)

/-- No two neighbours are both free. -/
def Coalesced (blocks : List Block) : Prop :=
  blocks.IsChain fun first second => first.used = true ∨ second.used = true

/-- A heap of `extent` bytes whose blocks are `blocks`. -/
structure HeapValid (extent : Nat) (state : HeapState) (blocks : List Block) : Prop where
  segment : Segment state.memory state.heap 0 0 blocks
  extent : span blocks = extent
  live : state.live.Perm ((allocated state.heap blocks).map Prod.fst)
  coalesced : Coalesced blocks

/-- The region that a heap occupies: non-empty, and clear of both ends of the
address space, as any object of C is. -/
structure Region (heap extent : Nat) : Prop where
  positive : 0 < heap
  nonempty : 0 < extent
  top : heap + extent < 2 ^ 64
  small : extent + 56 ≤ 2 ^ 64

theorem coalesced_carve {pre post : List Block} {block : Block} (request : Nat)
    (coalesced : Coalesced (pre ++ block :: post)) (free : block.used = false) :
    Coalesced (pre ++ carve request block ++ post) := by
  unfold Coalesced at *
  rw [List.isChain_append] at coalesced
  obtain ⟨front, back, seam⟩ := coalesced
  have head : ∀ next ∈ post.head?, next.used = true := by
    intro next member
    cases post with
    | nil => cases member
    | cons first others =>
      cases member
      have joined := (List.isChain_cons_cons.mp back).1
      simpa [free] using joined
  have tail : post.IsChain fun first second => first.used = true ∨ second.used = true := back.of_cons
  unfold carve
  split
  · rw [List.append_assoc, List.isChain_append]
    refine ⟨front, ?_, ?_⟩
    · simp only [List.cons_append, List.nil_append, List.isChain_cons_cons, true_or, true_and]
      exact List.isChain_cons.mpr ⟨fun next member => Or.inr (head next member), tail⟩
    · intro left _ right member
      cases member
      exact Or.inr rfl
  · rw [List.append_assoc, List.isChain_append]
    refine ⟨front, ?_, ?_⟩
    · exact List.isChain_cons.mpr ⟨fun next _ => Or.inl rfl, tail⟩
    · intro left _ right member
      cases member
      exact Or.inr rfl

theorem coalesced_release {init left right rest : List Block} {block joined : Block}
    (coalesced : Coalesced (init ++ left ++ block :: (right ++ rest)))
    (before : ∀ barrier ∈ init.getLast?, barrier.used = true)
    (after : ∀ barrier ∈ rest.head?, barrier.used = true) :
    Coalesced (init ++ joined :: rest) := by
  unfold Coalesced at *
  rw [List.append_assoc, List.isChain_append] at coalesced
  obtain ⟨front, back, _⟩ := coalesced
  have tail : rest.IsChain fun first second => first.used = true ∨ second.used = true :=
    (List.isChain_append.mp (List.isChain_append.mp back).2.1.tail).2.1
  rw [List.isChain_append]
  refine ⟨front, List.isChain_cons.mpr ⟨fun next member => Or.inr (after next member), tail⟩, ?_⟩
  intro last member _ _
  exact Or.inl (before last member)

theorem HeapValid.nonempty {extent : Nat} {state : HeapState} {blocks : List Block}
    (valid : HeapValid extent state blocks) (region : Region state.heap extent) : blocks ≠ [] := by
  rintro rfl
  have total := valid.extent
  have positive := region.nonempty
  simp only [span_nil] at total
  omega

private theorem allocated_carve (address request : Nat) (block : Block) :
    ∃ size, allocated address (carve request block) = [(address + 40, size)] := by
  unfold carve
  split
  · exact ⟨request, by simp [allocated]⟩
  · exact ⟨block.size, by simp [allocated]⟩

/-- A successful allocation adds one pointer; every older one keeps its place and size. -/
theorem allocated_malloc (address request : Nat) (pre post : List Block) (block : Block)
    (free : block.used = false) :
    ∃ size, (allocated address (pre ++ carve request block ++ post)).Perm
      ((address + span pre + 40, size) :: allocated address (pre ++ block :: post)) := by
  obtain ⟨size, carved⟩ := allocated_carve (address + span pre) request block
  refine ⟨size, ?_⟩
  have shift : address + span (pre ++ carve request block) = address + span pre + 40 + block.size := by
    rw [span_append, span_carve]; omega
  rw [allocated_append, allocated_append, carved, shift, allocated_append address pre (block :: post)]
  simp only [allocated, free, Bool.false_eq_true, if_false, List.append_assoc, List.singleton_append]
  exact List.perm_middle

/-- A free removes exactly the pointer it was given. -/
theorem allocated_release (address size total : Nat) (init left right rest : List Block)
    (leftFree : ∀ free ∈ left, free.used = false) (rightFree : ∀ free ∈ right, free.used = false)
    (width : total = span left + size + span right) :
    (allocated address (init ++ left ++ ⟨size, true⟩ :: (right ++ rest))).Perm
      ((address + span (init ++ left) + 40, size) :: allocated address (init ++ ⟨total, false⟩ :: rest)) := by
  have shift : address + span (init ++ left) + 40 + size + span right = address + span init + 40 + total := by
    rw [span_append]; omega
  rw [allocated_append, allocated_append address init left, allocated_free leftFree, List.append_nil,
    allocated_append address init]
  simp only [allocated, if_true, Bool.false_eq_true, if_false]
  rw [allocated_append, allocated_free rightFree, List.nil_append, shift]
  exact List.perm_middle

/-- Two memories agree on the payload of every block in use. -/
def KeepsPayloads (before after : Memory) (address : Nat) (blocks : List Block) : Prop :=
  ∀ entry ∈ allocated address blocks, Agree after before entry.1 entry.2

theorem KeepsPayloads.trans {first second third : Memory} {address : Nat} {blocks : List Block}
    (left : KeepsPayloads first second address blocks) (right : KeepsPayloads second third address blocks) :
    KeepsPayloads first third address blocks :=
  fun entry member => (right entry member).trans (left entry member)

/-- A change to a free block and the header behind it reaches no payload in use. -/
theorem keepsPayloads_around {before after : Memory} {address : Nat} {pre post : List Block} {block : Block}
    (free : block.used = false) (confined : Confined after before (address + span pre) (block.size + 80)) :
    KeepsPayloads before after address (pre ++ block :: post) := by
  rintro ⟨pointer, size⟩ member
  simp only [allocated_append, allocated, free, Bool.false_eq_true, if_false, List.mem_append] at member
  rcases member with member | member
  · obtain ⟨front, back, rfl, rfl⟩ := mem_allocated member
    simp only [span_append, span_cons] at confined
    exact confined.agree (by omega)
  · obtain ⟨front, back, rfl, rfl⟩ := mem_allocated member
    exact confined.agree (by omega)

/-- `malloc` from any valid heap: it returns `NULL` and leaves memory alone, or
it carves a block and the heap is valid with one more live pointer. -/
theorem HeapValid.malloc {extent : Nat} {state : HeapState} {blocks : List Block}
    (valid : HeapValid extent state blocks) (region : Region state.heap extent) (request : Nat) :
    (Kernix.malloc state.memory state.heap request = some (0, state.memory) ∧
      (request ≠ 0 → ∀ block ∈ blocks, ¬Fits (roundUp request) block)) ∨
    ∃ pre block post memory, request ≠ 0 ∧ blocks = pre ++ block :: post ∧ Fits (roundUp request) block ∧
      Kernix.malloc state.memory state.heap request = some (state.heap + span pre + 40, memory) ∧
      HeapValid extent ⟨memory, state.heap, (state.heap + span pre + 40) :: state.live⟩
        (pre ++ carve (roundUp request) block ++ post) ∧
      Confined memory state.memory state.heap extent ∧ KeepsPayloads state.memory memory state.heap blocks := by
  by_cases asked : request = 0
  · refine Or.inl ⟨?_, fun nonzero => (nonzero asked).elim⟩
    simp only [Kernix.malloc]
    rw [if_pos (Or.inr asked)]
  · have top := region.top
    have small := region.small
    rw [← valid.extent] at top small
    rcases malloc_segment valid.segment (valid.nonempty region) region.positive top (by omega) asked with
      ⟨missing, result⟩ | ⟨pre, block, post, memory, rfl, fits, _, _, result, segment, confined, near⟩
    · exact Or.inl ⟨result, fun _ => missing⟩
    · obtain ⟨size, added⟩ := allocated_malloc state.heap (roundUp request) pre post block fits.1
      refine Or.inr ⟨pre, block, post, memory, asked, rfl, fits, result, ⟨segment, ?_, ?_, ?_⟩, ?_,
        keepsPayloads_around fits.1 near.confined⟩
      · rw [← valid.extent]
        simp only [span_append, span_carve, span_cons]
        omega
      · exact (valid.live.cons _).trans (added.map Prod.fst).symm
      · exact coalesced_carve _ valid.coalesced fits.1
      · rwa [valid.extent] at confined

/-- `free` of a live pointer always succeeds and leaves a valid heap without it. -/
theorem HeapValid.free {extent ptr : Nat} {state : HeapState} {blocks : List Block}
    (valid : HeapValid extent state blocks) (region : Region state.heap extent) (held : ptr ∈ state.live) :
    ∃ init left size right rest memory, blocks = init ++ left ++ ⟨size, true⟩ :: (right ++ rest) ∧
      (∀ free ∈ left, free.used = false) ∧ (∀ free ∈ right, free.used = false) ∧
      ptr = state.heap + span (init ++ left) + 40 ∧
      Kernix.free state.memory ptr = some ⟨right.length + left.length, none, memory⟩ ∧
      HeapValid extent ⟨memory, state.heap, state.live.erase ptr⟩
        (init ++ ⟨span left + size + span right, false⟩ :: rest) ∧
      Confined memory state.memory state.heap extent ∧
      KeepsPayloads state.memory memory state.heap (init ++ ⟨span left + size + span right, false⟩ :: rest) := by
  obtain ⟨⟨pointer, size⟩, member, rfl⟩ := List.mem_map.mp (valid.live.mem_iff.mp held)
  obtain ⟨pre, post, rfl, rfl⟩ := mem_allocated member
  have top := region.top
  rw [← valid.extent] at top
  obtain ⟨memory, init, left, right, rest, rfl, rfl, leftFree, rightFree, before, after, result, segment, confined,
    near⟩ :=
    free_segment valid.segment rfl region.positive top
  have removed := (allocated_release state.heap size _ init left right rest leftFree rightFree rfl).map Prod.fst
  refine ⟨init, left, size, right, rest, memory, by simp, leftFree, rightFree, rfl, result,
    ⟨segment, ?_, ?_, ?_⟩, ?_, keepsPayloads_around rfl near⟩
  · rw [← valid.extent]
    simp only [span_append, span_cons]
    omega
  · have smaller := (valid.live.trans removed).erase (state.heap + span (init ++ left) + 40)
    simpa using smaller
  · exact coalesced_release valid.coalesced before after
  · rwa [valid.extent] at confined

section Tilings

/-- The blocks found by following `next` until `NULL`. -/
def blockList (memory : Memory) : Nat → Nat → Option (List Nat)
  | 0, _ => none
  | fuel + 1, block =>
    if block = 0 then some [] else (blockList memory fuel (next memory block)).map (block :: ·)

/-- The payload of one live pointer ends before the other begins. -/
def PayloadsApart (memory : Memory) (first second : Nat) : Prop :=
  first + size memory (first - headerSize) ≤ second ∨ second + size memory (second - headerSize) ≤ first

/-- A heap of `extent` bytes without gaps or overlaps, in terms of memory alone. -/
structure WellTiled (memory : Memory) (heap extent : Nat) (live blocks : List Nat) : Prop where
  traversal : blockList memory addressSpace heap = some blocks
  first : blocks.head? = some heap ∧ prev memory heap = 0
  magic : ∀ block ∈ blocks, magic memory block = blockMagic
  next : ∀ block ∈ blocks, next memory block =
    if blocks.getLast? = some block then 0 else block + headerSize + size memory block
  links : blocks.IsChain fun block follower => HeapBlock.next memory block = follower ∧ prev memory follower = block
  extent : (blocks.map fun block => headerSize + size memory block).sum = extent
  owned : ∀ ptr ∈ live, ptr - headerSize ∈ blocks ∧ used memory (ptr - headerSize) = 1
  payloads : live.Nodup ∧ live.Pairwise (PayloadsApart memory)
  headers : ∀ ptr ∈ live, ∀ block ∈ blocks,
    block + headerSize ≤ ptr ∨ ptr + size memory (ptr - headerSize) ≤ block

/-- The addresses of a tiling that starts at `address`. -/
def addresses (address : Nat) : List Block → List Nat
  | [] => []
  | block :: rest => address :: addresses (address + 40 + block.size) rest

theorem addresses_append (address : Nat) (first second : List Block) :
    addresses address (first ++ second) = addresses address first ++ addresses (address + span first) second := by
  induction first generalizing address with
  | nil => simp [addresses]
  | cons block rest ih =>
    have shift : address + 40 + block.size + span rest = address + span (block :: rest) := by
      simp only [span_cons]; omega
    simp only [List.cons_append, addresses, ih, shift]

theorem mem_addresses {address place : Nat} {blocks : List Block} (member : place ∈ addresses address blocks) :
    ∃ pre block post, blocks = pre ++ block :: post ∧ place = address + span pre := by
  induction blocks generalizing address with
  | nil => cases member
  | cons block rest ih =>
    rcases List.mem_cons.mp member with rfl | member
    · exact ⟨[], block, rest, rfl, rfl⟩
    · obtain ⟨pre, inner, post, rfl, rfl⟩ := ih member
      exact ⟨block :: pre, inner, post, rfl, by simp only [span_cons]; omega⟩

theorem addresses_mem (address : Nat) (pre post : List Block) (block : Block) :
    address + span pre ∈ addresses address (pre ++ block :: post) := by
  rw [addresses_append]
  simp [addresses]

theorem blockList_segment {memory : Memory} {address before fuel : Nat} {blocks : List Block}
    (segment : Segment memory address before 0 blocks) (positive : 0 < address) (enough : blocks.length < fuel) :
    blockList memory fuel (if blocks = [] then 0 else address) = some (addresses address blocks) := by
  induction blocks generalizing address before fuel with
  | nil =>
    obtain ⟨fuel, rfl⟩ : ∃ less, fuel = less + 1 := ⟨fuel - 1, by omega⟩
    simp [blockList, addresses]
  | cons block rest ih =>
    obtain ⟨fuel, rfl⟩ : ∃ less, fuel = less + 1 := ⟨fuel - 1, by omega⟩
    obtain ⟨header, back⟩ := segment
    have deeper : blockList memory fuel (if rest = [] then 0 else address + 40 + block.size) =
        some (addresses (address + 40 + block.size) rest) :=
      ih back (by omega) (by simp only [List.length_cons] at enough; omega)
    simp only [reduceCtorEq, if_false, blockList, if_neg (show address ≠ 0 by omega), header.next]
    rw [deeper]
    rfl

theorem links_segment {memory : Memory} {address before stop : Nat} {blocks : List Block}
    (segment : Segment memory address before stop blocks) :
    (addresses address blocks).IsChain fun block follower =>
      next memory block = follower ∧ prev memory follower = block := by
  induction blocks generalizing address before with
  | nil => exact .nil
  | cons block rest ih =>
    obtain ⟨header, back⟩ := segment
    simp only [addresses]
    refine List.isChain_cons.mpr ⟨?_, ih back⟩
    intro follower member
    cases rest with
    | nil => cases member
    | cons next others =>
      cases member
      exact ⟨by simpa using header.next, back.1.prev⟩

theorem extent_segment {memory : Memory} {address before stop : Nat} {blocks : List Block}
    (segment : Segment memory address before stop blocks) :
    ((addresses address blocks).map fun block => headerSize + size memory block).sum = span blocks := by
  induction blocks generalizing address before with
  | nil => rfl
  | cons block rest ih =>
    simp only [addresses, List.map_cons, List.sum_cons, ih segment.2, segment.1.size, span_cons]

theorem next_segment {memory : Memory} {address before : Nat} {blocks : List Block}
    (segment : Segment memory address before 0 blocks) (place : Nat) (member : place ∈ addresses address blocks) :
    next memory place = if (addresses address blocks).getLast? = some place then 0
      else place + headerSize + size memory place := by
  obtain ⟨pre, block, post, rfl, rfl⟩ := mem_addresses member
  obtain ⟨_, header, _⟩ := (segment_split pre block post).mp segment
  rw [header.next, header.size, addresses_append]
  cases post with
  | nil => simp [addresses]
  | cons follower others =>
    simp only [reduceCtorEq, if_false]
    rw [if_neg]
    intro last
    have inside : address + span pre ∈
        addresses (address + span pre + 40 + block.size) (follower :: others) := by
      apply List.mem_of_getLast?
      simpa [addresses] using last
    obtain ⟨front, _, _, _, same⟩ := mem_addresses inside
    omega

theorem allocated_header {memory : Memory} {address before stop pointer size : Nat} {blocks : List Block}
    (segment : Segment memory address before stop blocks) (member : (pointer, size) ∈ allocated address blocks) :
    pointer - headerSize ∈ addresses address blocks ∧ used memory (pointer - headerSize) = 1 ∧
      HeapBlock.size memory (pointer - headerSize) = size := by
  obtain ⟨pre, post, rfl, rfl⟩ := mem_allocated member
  obtain ⟨_, header, _⟩ := (segment_split pre ⟨size, true⟩ post).mp segment
  have place : address + span pre + 40 - headerSize = address + span pre := Nat.add_sub_cancel _ 40
  rw [place]
  exact ⟨addresses_mem _ _ _ _, header.used, header.size⟩

theorem HeapValid.wellTiled {extent : Nat} {state : HeapState} {blocks : List Block}
    (valid : HeapValid extent state blocks) (region : Region state.heap extent) :
    WellTiled state.memory state.heap extent state.live (addresses state.heap blocks) := by
  have top := region.top
  rw [← valid.extent] at top
  have nonempty := valid.nonempty region
  have held : ∀ ptr ∈ state.live, ∃ size, (ptr, size) ∈ allocated state.heap blocks := by
    intro ptr member
    obtain ⟨⟨pointer, size⟩, inside, rfl⟩ := List.mem_map.mp (valid.live.mem_iff.mp member)
    exact ⟨size, inside⟩
  constructor
  · simpa [nonempty] using
      blockList_segment valid.segment region.positive (length_lt_addressSpace region.positive top)
  · obtain ⟨block, rest, rfl⟩ := List.exists_cons_of_ne_nil nonempty
    exact ⟨rfl, valid.segment.1.prev⟩
  · intro place member
    obtain ⟨pre, block, post, rfl, rfl⟩ := mem_addresses member
    exact ((segment_split pre block post).mp valid.segment).2.1.magic
  · exact next_segment valid.segment
  · exact links_segment valid.segment
  · rw [extent_segment valid.segment, valid.extent]
  · intro ptr member
    obtain ⟨size, inside⟩ := held ptr member
    exact ⟨(allocated_header valid.segment inside).1, (allocated_header valid.segment inside).2.1⟩
  · refine ⟨valid.live.nodup_iff.mpr allocated_nodup, ?_⟩
    have apart : ((allocated state.heap blocks).map Prod.fst).Pairwise (PayloadsApart state.memory) := by
      apply List.pairwise_map.mpr
      refine List.Pairwise.imp_of_mem ?_ allocated_apart
      intro first second left _ gap
      refine Or.inl ?_
      rw [(allocated_header valid.segment left).2.2]
      omega
    exact valid.live.symm.pairwise apart Or.symm
  · intro ptr member place inside
    obtain ⟨size, entry⟩ := held ptr member
    rw [(allocated_header valid.segment entry).2.2]
    obtain ⟨pre, post, split, rfl⟩ := mem_allocated entry
    obtain ⟨front, block, back, other, rfl⟩ := mem_addresses inside
    simp only [headerSize]
    -- Both blocks come from one list, so one of the two prefixes extends the other.
    have same : pre ++ ⟨size, true⟩ :: post = front ++ block :: back := split.symm.trans other
    rcases List.append_eq_append_iff.mp same with ⟨between, rfl, tail⟩ | ⟨between, rfl, tail⟩
    · cases between with
      | nil => exact Or.inl (by simp only [List.append_nil]; omega)
      | cons head others =>
        cases tail
        refine Or.inr ?_
        simp only [span_append, span_cons]
        omega
    · refine Or.inl ?_
      simp only [span_append]
      omega

end Tilings

end Kernix.Proofs
