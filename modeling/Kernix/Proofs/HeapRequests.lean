import Kernix.Proofs.HeapAccounting

/-! What a caller of the heap gets for its request: the block that `malloc` chooses, and
whether that block holds as many bytes as the caller asked for. There are pointers that
`free` does not take, and `kernel_memory_free` takes the block off the account before it asks. -/

namespace Kernix.Proofs
open ByteMemory HeapBlock KernelMemory

/-- A list of blocks from an address on. The address is one of a `heap_block_t`. -/
structure WellFormedHeap (memory : Memory) (heap : Nat) (blocks : List Block) : Prop where
  segment : Segment memory heap 0 0 blocks
  nonempty : blocks ≠ []
  positive : 0 < heap
  aligned : heap % 8 = 0
  room : heap + span blocks < 2 ^ 64

/-- What `malloc` may return when it rounds the request to `n` bytes: nothing where no free
block is large enough, and otherwise the first of the smallest. -/
inductive BestFit (memory : Memory) (heap : Nat) (blocks : List Block) (n : Nat) : Option (Nat × Memory) → Prop where
  | refused (missing : ∀ block ∈ blocks, ¬Fits n block) : BestFit memory heap blocks n (some (0, memory))
  | chosen {pre post : List Block} {block : Block} {after : Memory} (place : blocks = pre ++ block :: post)
      (fits : Fits n block) (least : ∀ other ∈ blocks, Fits n other → block.size ≤ other.size)
      (first : ∀ other ∈ pre, Fits n other → block.size < other.size)
      (list : Segment after heap 0 0 (pre ++ carve n block ++ post))
      (around : AroundBlock after memory (heap + span pre) block.size post) :
      BestFit memory heap blocks n (some (heap + span pre + 40, after))

variable {memory : Memory} {heap request kernelMemory : Nat} {blocks : List Block}

section Fitting

theorem WellFormedHeap.bestFit (formed : WellFormedHeap memory heap blocks) (asked : request ≠ 0) :
    BestFit memory heap blocks (roundUp request) (malloc memory heap request) := by
  have positive := formed.positive
  have aligned := formed.aligned
  have room := formed.room
  rcases malloc_segment formed.segment formed.nonempty positive room (by omega) asked with
    ⟨missing, result⟩ | ⟨pre, block, post, after, place, fits, least, first, result, list, _, around⟩
  · rw [result]
    exact .refused missing
  · rw [result]
    exact .chosen place fits least first list around

/-- For a request that can be rounded up, `malloc` is best fit, and the earliest of several
best fits wins. -/
theorem malloc_best_fit (formed : WellFormedHeap memory heap blocks) (asked : request ≠ 0)
    (unwrapped : (request + 15) / 16 * 16 < 2 ^ 64) :
    BestFit memory heap blocks ((request + 15) / 16 * 16) (malloc memory heap request) := by
  have rounded : roundUp request = (request + 15) / 16 * 16 := by
    rw [roundUp_eq, u64_eq (by omega)]
  rw [← rounded]
  exact formed.bestFit asked

/-- The heap that `kernel_memory_init` lays out at `HEAP_START`. -/
theorem fresh_formed : ∃ memory, startHeap memory heapStart = heapStart + kernelMemoryOffsetHeap ∧
    WellFormedHeap memory (heapStart + kernelMemoryOffsetHeap) [⟨heapTotal, false⟩] := by
  obtain ⟨memory, _, start, _, _, segment⟩ := kernelMemoryInit_spec (fun _ => 0) (show 0 < heapStart by decide)
    (show headerSize ≤ heapSize by decide) (show heapStart + heapSize < 2 ^ 64 by decide)
  exact ⟨memory, start, segment, List.cons_ne_nil _ _, by decide, by decide, by decide⟩

theorem malloc_best_fit_fresh : ∃ memory,
    BestFit memory (heapStart + kernelMemoryOffsetHeap) [⟨heapTotal, false⟩] 112
      (malloc memory (heapStart + kernelMemoryOffsetHeap) 100) := by
  obtain ⟨memory, _, formed⟩ := fresh_formed
  exact ⟨memory, malloc_best_fit formed (show (100 : Nat) ≠ 0 by decide) (by decide)⟩

end Fitting

section Payloads

/-- A pointer that `malloc` returns leads to as many bytes as were asked for. -/
def MallocHolds (memory : Memory) (heap request : Nat) : Prop :=
  ∀ ptr after, malloc memory heap request = some (ptr, after) → ptr ≠ 0 → request ≤ size after (ptr - headerSize)

/-- A pointer that `kernel_memory_alloc` returns leads to as many bytes as the product of
the two numbers, and what is zeroed behind `malloc` lies in its payload. -/
def AllocHolds (memory : Memory) (kernelMemory requested count : Nat) : Prop :=
  ∀ ptr final, kernelMemoryAlloc memory kernelMemory requested count = some (ptr, final) → ptr ≠ 0 →
    ∃ after, malloc memory (startHeap memory kernelMemory) (u64 (count * requested)) = some (ptr, after) ∧
      requested * count ≤ size after (ptr - headerSize) ∧
      Confined (memset after ptr 0 (u64 (count * requested))) after ptr (size after (ptr - headerSize))

/-- The payload behind a pointer that `malloc` returns. -/
theorem BestFit.payload {result : Option (Nat × Memory)} {n ptr : Nat} {after : Memory}
    (found : BestFit memory heap blocks n result) (given : result = some (ptr, after)) (nonzero : ptr ≠ 0) :
    ∃ pre block post, blocks = pre ++ block :: post ∧ Fits n block ∧ ptr = heap + span pre + 40 ∧
      size after (ptr - headerSize) = taken n block := by
  cases found with
  | refused =>
    cases given
    exact absurd rfl nonzero
  | @chosen pre post block after place fits least first list around =>
    cases given
    obtain ⟨rest, carved⟩ := carve_taken n block
    rw [carved, List.append_assoc, List.cons_append] at list
    obtain ⟨_, header, _⟩ := (segment_split pre _ _).mp list
    exact ⟨pre, block, post, place, fits, rfl, header.size⟩

theorem BestFit.some {result : Option (Nat × Memory)} {n : Nat} (found : BestFit memory heap blocks n result)
    {block : Block} (member : block ∈ blocks) (fits : Fits n block) :
    ∃ ptr after, result = some (ptr, after) ∧ ptr ≠ 0 := by
  cases found with
  | refused missing => exact absurd fits (missing block member)
  | chosen => exact ⟨_, _, rfl, Nat.succ_ne_zero _⟩

theorem taken_ge {n : Nat} {block : Block} (fits : Fits n block) : n ≤ taken n block := by
  have large := fits.2
  unfold taken
  split <;> omega

/-- A request that wraps when it is rounded up is taken for one of zero bytes. -/
theorem roundUp_wrapped (bound : request < 2 ^ 64) (wraps : 2 ^ 64 ≤ request + 15) : roundUp request = 0 := by
  rw [roundUp_eq]
  unfold u64
  omega

theorem taken_lt (formed : WellFormedHeap memory heap blocks) {pre post : List Block} {block : Block}
    (place : blocks = pre ++ block :: post) {n : Nat} (fits : Fits n block) :
    heap + span pre + 40 + taken n block < 2 ^ 64 := by
  have room := formed.room
  have large := fits.2
  rw [place, span_append, span_cons] at room
  unfold taken
  split <;> omega

theorem malloc_holds_iff (formed : WellFormedHeap memory heap blocks) (bound : request < 2 ^ 64) :
    MallocHolds memory heap request ↔ request + 15 < 2 ^ 64 ∨ ∀ block ∈ blocks, block.used = true := by
  by_cases nothing : request = 0
  · have refused : malloc memory heap request = some (0, memory) := by
      rw [nothing, malloc_zero]
    constructor
    · exact fun _ => .inl (by omega)
    · intro _ ptr after result nonzero
      rw [refused] at result
      cases result
      exact absurd rfl nonzero
  have found := formed.bestFit nothing
  constructor
  · intro holds
    by_contra neither
    obtain ⟨wraps, free⟩ := not_or.mp neither
    obtain ⟨block, free⟩ := not_forall.mp free
    obtain ⟨member, unused⟩ := Classical.not_imp.mp free
    have empty := roundUp_wrapped bound (by omega)
    rw [empty] at found
    obtain ⟨ptr, after, result, nonzero⟩ := found.some member ⟨by simpa using unused, Nat.zero_le _⟩
    obtain ⟨pre, found, post, place, fits, _, payload⟩ := found.payload result nonzero
    have enough := holds _ _ result nonzero
    rw [payload] at enough
    have small := taken_lt formed place fits
    omega
  · rintro (unwrapped | full) ptr after result nonzero
    · obtain ⟨_, block, _, _, fits, _, payload⟩ := found.payload result nonzero
      rw [payload]
      exact (le_roundUp unwrapped).trans (taken_ge fits)
    · obtain ⟨pre, block, post, place, fits, _⟩ := found.payload result nonzero
      have used := full block (by rw [place]; exact List.mem_append_right _ List.mem_cons_self)
      exact absurd (fits.1.symm.trans used) (by decide)

/-- A pointer of `kernel_memory_alloc` is one of `malloc`. -/
theorem kernelMemoryAlloc_malloc {final : Memory} {requested count ptr : Nat}
    (result : kernelMemoryAlloc memory kernelMemory requested count = some (ptr, final)) (nonzero : ptr ≠ 0) :
    ∃ after, malloc memory (startHeap memory kernelMemory) (u64 (count * requested)) = some (ptr, after) := by
  unfold kernelMemoryAlloc at result
  split at result
  · cases result
    exact absurd rfl nonzero
  · obtain ⟨⟨place, after⟩, given, rest⟩ := Option.bind_eq_some_iff.mp result
    dsimp only at rest
    split at rest
    · cases rest
      exact absurd rfl nonzero
    · cases rest
      exact ⟨after, given⟩

theorem alloc_holds_iff {requested count : Nat} (formed : WellFormedHeap memory (startHeap memory kernelMemory) blocks)
    (positive : 0 < kernelMemory) :
    AllocHolds memory kernelMemory requested count ↔ requested * count + 15 < 2 ^ 64 ∨ u64 (count * requested) = 0 ∨
      ∀ block ∈ blocks, ¬Fits (roundUp (u64 (count * requested))) block := by
  constructor
  · intro holds
    by_contra neither
    obtain ⟨wraps, nonzero, fitting⟩ : ¬requested * count + 15 < 2 ^ 64 ∧ u64 (count * requested) ≠ 0 ∧
        ¬∀ block ∈ blocks, ¬Fits (roundUp (u64 (count * requested))) block :=
      ⟨fun small => neither (.inl small), fun zero => neither (.inr (.inl zero)), fun none => neither (.inr (.inr none))⟩
    obtain ⟨block, member⟩ := not_forall.mp fitting
    obtain ⟨member, fits⟩ := Classical.not_imp.mp member
    have found := formed.bestFit nonzero
    obtain ⟨ptr, after, given, place⟩ := found.some member (not_not.mp fits)
    have sized : requested ≠ 0 := by
      rintro rfl
      exact nonzero rfl
    obtain ⟨_, expected, enough, _⟩ := holds ptr _ (kernelMemoryAlloc_some positive sized place given) place
    cases given.symm.trans expected
    obtain ⟨pre, chosen, post, split, fits, _, payload⟩ := found.payload given place
    have small := taken_lt formed split fits
    rw [payload] at enough
    omega
  · intro condition ptr final result nonzero
    obtain ⟨after, given⟩ := kernelMemoryAlloc_malloc result nonzero
    have asked : u64 (count * requested) ≠ 0 := by
      intro zero
      rw [zero, malloc_zero] at given
      cases given
      exact nonzero rfl
    have found := formed.bestFit asked
    obtain ⟨pre, block, post, split, fits, place, payload⟩ := found.payload given nonzero
    refine ⟨after, given, ?_⟩
    rcases condition with unwrapped | zero | full
    · have product : u64 (count * requested) = requested * count := by
        rw [Nat.mul_comm]
        exact u64_eq (by omega)
      have enough : requested * count ≤ size after (ptr - headerSize) := by
        rw [payload, product]
        exact (le_roundUp unwrapped).trans (taken_ge (product ▸ fits))
      have room := taken_lt formed split fits
      rw [product, memset_eq_fill _ _ _ _ (by omega)]
      exact ⟨enough, (fill_confined after ptr _ 0).mono (Nat.le_refl _) (by omega)⟩
    · exact absurd zero asked
    · have member : block ∈ blocks := by
        rw [split]
        exact List.mem_append_right _ List.mem_cons_self
      exact absurd fits (full block member)

/-- Both functions give out the payload that was asked for exactly where no number that they
compute wraps, or they give out nothing. -/
theorem payload_holds_iff (formed : WellFormedHeap memory heap blocks) :
    (∀ request < 2 ^ 64,
      MallocHolds memory heap request ↔ request + 15 < 2 ^ 64 ∨ ∀ block ∈ blocks, block.used = true) ∧
    ∀ kernelMemory requested count, 0 < kernelMemory → startHeap memory kernelMemory = heap →
      (AllocHolds memory kernelMemory requested count ↔ requested * count + 15 < 2 ^ 64 ∨ u64 (count * requested) = 0 ∨
        ∀ block ∈ blocks, ¬Fits (roundUp (u64 (count * requested))) block) := by
  constructor
  · intro request bound
    exact malloc_holds_iff formed bound
  · rintro kernelMemory requested count positive rfl
    exact alloc_holds_iff formed positive

theorem payload_holds_iff_fresh : ∃ memory, MallocHolds memory (heapStart + kernelMemoryOffsetHeap) 100 ∧
    AllocHolds memory heapStart 100 7 := by
  obtain ⟨memory, start, formed⟩ := fresh_formed
  obtain ⟨single, several⟩ := payload_holds_iff formed
  refine ⟨memory, (single 100 (by decide)).mpr (.inl (by decide)), ?_⟩
  exact (several heapStart 100 7 (by decide) start).mpr (.inl (by decide))

/-- What a heap of one free block makes of a request. -/
private theorem single_payload (formed : WellFormedHeap memory heap [⟨heapTotal, false⟩]) (asked : request ≠ 0)
    (fits : roundUp request ≤ heapTotal) : ∃ ptr after, malloc memory heap request = some (ptr, after) ∧ ptr ≠ 0 ∧
      size after (ptr - headerSize) = taken (roundUp request) ⟨heapTotal, false⟩ := by
  have found := formed.bestFit asked
  obtain ⟨ptr, after, given, nonzero⟩ := found.some (List.mem_singleton.mpr rfl) ⟨rfl, fits⟩
  obtain ⟨pre, block, post, place, _, _, payload⟩ := found.payload given nonzero
  have member : block ∈ [⟨heapTotal, false⟩] := by
    rw [place]
    exact List.mem_append_right _ List.mem_cons_self
  rw [List.mem_singleton.mp member] at payload
  exact ⟨ptr, after, given, nonzero, payload⟩

/-- A request of all addresses is served with a block of no bytes, and two times more than
half of them with one of sixteen. -/
theorem payload_fails : ∃ memory first second after final,
    malloc memory (heapStart + kernelMemoryOffsetHeap) (2 ^ 64 - 1) = some (first, after) ∧ first ≠ 0 ∧
    size after (first - headerSize) = 0 ∧ ¬MallocHolds memory (heapStart + kernelMemoryOffsetHeap) (2 ^ 64 - 1) ∧
    kernelMemoryAlloc memory heapStart (2 ^ 63 + 8) 2 = some (second, final) ∧ second ≠ 0 ∧
    ¬AllocHolds memory heapStart (2 ^ 63 + 8) 2 := by
  obtain ⟨memory, start, formed⟩ := fresh_formed
  obtain ⟨first, after, given, nonzero, payload⟩ :=
    single_payload formed (show 2 ^ 64 - 1 ≠ 0 by decide) (show roundUp (2 ^ 64 - 1) ≤ heapTotal by decide)
  have empty : taken (roundUp (2 ^ 64 - 1)) ⟨heapTotal, false⟩ = 0 := by decide
  rw [empty] at payload
  obtain ⟨second, reached, served, place, sixteen⟩ :=
    single_payload formed (show u64 (2 * (2 ^ 63 + 8)) ≠ 0 by decide)
      (show roundUp (u64 (2 * (2 ^ 63 + 8))) ≤ heapTotal by decide)
  have small : taken (roundUp (u64 (2 * (2 ^ 63 + 8)))) ⟨heapTotal, false⟩ = 16 := by decide
  rw [small] at sixteen
  rw [← start] at served
  have result := kernelMemoryAlloc_some (show 0 < heapStart by decide) (show 2 ^ 63 + 8 ≠ 0 by decide) place served
  refine ⟨memory, first, second, after, _, given, nonzero, payload, fun holds => ?_, result, place, fun holds => ?_⟩
  · have enough := holds first after given nonzero
    omega
  · obtain ⟨_, expected, enough, _⟩ := holds second _ result place
    cases served.symm.trans expected
    omega

end Payloads

section Rejections

/-- The memory in which `kernel_memory_free` calls `free`. -/
def discounted (memory : Memory) (kernelMemory ptr : Nat) : Memory :=
  setUsedHeap memory kernelMemory (u64Sub (usedHeap memory kernelMemory) (size memory (u64Sub ptr headerSize)))

/-- A pointer for which one of the three checks of `free` is meant: the header has another
magic, the block is free already, or it is a block of the list of more than 2^40 bytes. -/
def Rejected (memory : Memory) (kernelMemory : Nat) (blocks : List Block) (ptr : Nat) : Prop :=
  magic (discounted memory kernelMemory ptr) (u64Sub ptr headerSize) ≠ blockMagic ∨
    used (discounted memory kernelMemory ptr) (u64Sub ptr headerSize) = 0 ∨
    ∃ pre block post, blocks = pre ++ block :: post ∧ ptr = startHeap memory kernelMemory + span pre + 40 ∧
      2 ^ 40 < block.size

/-- The call leaves the list of blocks and the account as they were. -/
def FreeLeaves (memory : Memory) (kernelMemory : Nat) (blocks : List Block) (ptr : Nat) : Prop :=
  ∃ after, kernelMemoryFree memory kernelMemory ptr = some after ∧
    usedHeap after kernelMemory = usedHeap memory kernelMemory ∧
    Segment after (startHeap memory kernelMemory) 0 0 blocks

variable {memory after : Memory} {kernelMemory ptr : Nat} {blocks : List Block}

/-- What `kernel_memory_free` makes of a result of `free`. -/
theorem kernelMemoryFree_freed (positive : 0 < kernelMemory) (given : ptr ≠ 0) {merged : Nat} {message : Option String}
    (result : free (discounted memory kernelMemory ptr) ptr = some ⟨merged, message, after⟩) :
    kernelMemoryFree memory kernelMemory ptr =
      some (setUsedHeap after kernelMemory (u64Sub (usedHeap after kernelMemory) (headerSize * merged))) := by
  unfold kernelMemoryFree
  rw [if_neg (by omega)]
  unfold discounted at result
  simp only [result, Option.bind_eq_bind, Option.bind_some]
  rfl

theorem free_rejected (given : ptr ≠ 0)
    (bad : magic memory (u64Sub ptr headerSize) ≠ blockMagic ∨ used memory (u64Sub ptr headerSize) = 0) :
    ∃ message, free memory ptr = some ⟨0, message, memory⟩ := by
  unfold free
  rw [if_neg given]
  dsimp only
  split
  · exact ⟨_, rfl⟩
  next intact =>
    rcases bad with spoiled | idle
    · exact absurd spoiled intact
    · rw [if_pos idle]
      exact ⟨_, rfl⟩

/-- The account is not a part of the list. -/
theorem segment_setUsedHeap {address before stop : Nat} (segment : Segment memory address before stop blocks)
    (apart : kernelMemory + 112 ≤ address ∨ address + span blocks ≤ kernelMemory) (value : Nat) :
    Segment (setUsedHeap memory kernelMemory value) address before stop blocks :=
  segment.agree (store_agree memory (by omega))

/-- A number comes off the account without a trace exactly when it is zero. -/
theorem u64Sub_same_iff {total part : Nat} (bound : total < 2 ^ 64) (small : part < 2 ^ 64) :
    u64Sub total part = total ↔ part = 0 := by
  unfold u64Sub
  omega

/-- Freeing a block in use changes the list. -/
theorem freed_differs {address : Nat} {pre post : List Block} {block : Block}
    (segment : Segment memory address 0 0 (pre ++ block :: post)) (live : block.used = true) (positive : 0 < address)
    (room : address + span (pre ++ block :: post) < 2 ^ 64) :
    ∃ merged after others, free memory (address + span pre + 40) = some ⟨merged, none, after⟩ ∧
      Segment after address 0 0 others ∧ pre ++ block :: post ≠ others ∧
      span others = span (pre ++ block :: post) := by
  obtain ⟨after, init, left, right, rest, rfl, rfl, leftFree, _, _, _, result, list, _⟩ :=
    free_segment segment live positive room
  refine ⟨_, after, _, result, list, ?_, ?_⟩
  · intro same
    have lengths := congrArg List.length same
    simp only [List.length_append, List.length_cons] at lengths
    obtain rfl : left = [] := List.eq_nil_of_length_eq_zero (by omega)
    rw [List.append_nil] at same
    have head := (List.cons.inj (List.append_cancel_left same)).1
    rw [head] at live
    cases live
  · simp only [span_append, span_cons]
    omega

/-- A call for a pointer that `free` rejects leaves everything as it was exactly when the
header has a size of zero. -/
theorem rejected_free_iff (formed : WellFormedHeap memory (startHeap memory kernelMemory) blocks)
    (positive : 0 < kernelMemory)
    (apart : kernelMemory + 112 ≤ startHeap memory kernelMemory ∨
      startHeap memory kernelMemory + span blocks ≤ kernelMemory)
    (given : ptr ≠ 0) (rejected : Rejected memory kernelMemory blocks ptr) :
    FreeLeaves memory kernelMemory blocks ptr ↔ size memory (u64Sub ptr headerSize) = 0 := by
  have bound : usedHeap memory kernelMemory < 2 ^ 64 := load_lt memory (kernelMemory + 104) 8
  have small : size memory (u64Sub ptr headerSize) < 2 ^ 64 := load_lt memory (u64Sub ptr headerSize + 8) 8
  have listed := segment_setUsedHeap formed.segment apart
    (u64Sub (usedHeap memory kernelMemory) (size memory (u64Sub ptr headerSize)))
  have account : usedHeap (discounted memory kernelMemory ptr) kernelMemory =
      u64Sub (usedHeap memory kernelMemory) (size memory (u64Sub ptr headerSize)) :=
    usedHeap_setUsedHeap _ _ (u64Sub_lt _ _)
  by_cases bad : magic (discounted memory kernelMemory ptr) (u64Sub ptr headerSize) ≠ blockMagic ∨
      used (discounted memory kernelMemory ptr) (u64Sub ptr headerSize) = 0
  · obtain ⟨message, result⟩ := free_rejected given bad
    have whole := kernelMemoryFree_freed positive given result
    rw [account, Nat.mul_zero, u64Sub_eq (u64Sub_lt _ _) (Nat.zero_le _), Nat.sub_zero] at whole
    have left := usedHeap_setUsedHeap (discounted memory kernelMemory ptr) kernelMemory
      (u64Sub_lt (usedHeap memory kernelMemory) (size memory (u64Sub ptr headerSize)))
    rw [← u64Sub_same_iff bound small]
    constructor
    · rintro ⟨after, result', same, _⟩
      cases whole.symm.trans result'
      exact left.symm.trans same
    · intro same
      exact ⟨_, whole, left.trans same, segment_setUsedHeap listed apart _⟩
  · obtain ⟨pre, block, post, rfl, rfl, large⟩ := (rejected.resolve_left fun spoiled => bad (.inl spoiled)).resolve_left
      fun idle => bad (.inr idle)
    have room := formed.room
    have extent := room
    rw [span_append, span_cons] at extent
    have place : u64Sub (startHeap memory kernelMemory + span pre + 40) headerSize =
      startHeap memory kernelMemory + span pre := by
      rw [u64Sub_eq (by omega) (by simp only [headerSize]; omega)]
      exact Nat.add_sub_cancel _ 40
    have header := ((segment_split pre block post).mp formed.segment).2.1
    have width := header.size
    have live : block.used = true := by
      by_contra idle
      have unused := ((segment_split pre block post).mp listed).2.1.used
      rw [Bool.eq_false_iff.mpr idle] at unused
      refine bad (.inr ?_)
      rw [place]
      exact unused
    obtain ⟨merged, freed, others, result, list, differs, covers⟩ := freed_differs listed live formed.positive room
    have whole := kernelMemoryFree_freed positive given result
    rw [place, width]
    constructor
    · rintro ⟨after, result', _, kept⟩
      cases whole.symm.trans result'
      have changed := segment_setUsedHeap list (covers ▸ apart)
        (u64Sub (usedHeap freed kernelMemory) (headerSize * merged))
      exact absurd (kept.unique changed covers.symm) differs
    · omega

/-- The first pointer that a heap gives out, or gave out before it was freed again. -/
def firstPtr : Nat := heapStart + kernelMemoryOffsetHeap + 40

/-- In a heap with nothing in use this pointer leads to a free block. -/
private theorem firstPtr_idle : ∃ memory, WellFormedHeap memory (startHeap memory heapStart) [⟨heapTotal, false⟩] ∧
    startHeap memory heapStart = heapStart + kernelMemoryOffsetHeap ∧ usedHeap memory heapStart = 0 ∧
    used (discounted memory heapStart firstPtr) (u64Sub firstPtr headerSize) = 0 ∧
    size memory (u64Sub firstPtr headerSize) = heapTotal := by
  obtain ⟨memory, _, start, _, unused, segment⟩ := kernelMemoryInit_spec (fun _ => 0) (show 0 < heapStart by decide)
    (show headerSize ≤ heapSize by decide) (show heapStart + heapSize < 2 ^ 64 by decide)
  have place : u64Sub firstPtr headerSize = heapStart + kernelMemoryOffsetHeap := by decide
  have listed := segment_setUsedHeap segment (show heapStart + 112 ≤ heapStart + kernelMemoryOffsetHeap ∨
    heapStart + kernelMemoryOffsetHeap + span [⟨heapTotal, false⟩] ≤ heapStart from .inl (by decide))
    (u64Sub (usedHeap memory heapStart) (size memory (u64Sub firstPtr headerSize)))
  refine ⟨memory, ?_, start, unused, ?_, ?_⟩
  · rw [start]
    exact ⟨segment, List.cons_ne_nil _ _, by decide, by decide, by decide⟩
  · rw [discounted, place]
    rw [place] at listed
    exact listed.1.used
  · rw [place]
    exact segment.1.size

private theorem beside {memory : Memory} (start : startHeap memory heapStart = heapStart + kernelMemoryOffsetHeap) :
    heapStart + 112 ≤ startHeap memory heapStart ∨
      startHeap memory heapStart + span [⟨heapTotal, false⟩] ≤ heapStart := by
  rw [start]
  exact .inl (by decide)

theorem rejected_free_iff_idle : ∃ memory, FreeLeaves memory heapStart [⟨heapTotal, false⟩] firstPtr ↔
    size memory (u64Sub firstPtr headerSize) = 0 := by
  obtain ⟨memory, formed, start, _, idle, _⟩ := firstPtr_idle
  exact ⟨memory, rejected_free_iff formed (by decide) (beside start) (by decide) (.inr (.inl idle))⟩

/-- The second free of a pointer takes the block off the account once more, which wraps. -/
theorem double_free_drifts : ∃ memory after, WellFormedHeap memory (startHeap memory heapStart) [⟨heapTotal, false⟩] ∧
    Rejected memory heapStart [⟨heapTotal, false⟩] firstPtr ∧ usedHeap memory heapStart = 0 ∧
    kernelMemoryFree memory heapStart firstPtr = some after ∧ usedHeap after heapStart = 2 ^ 64 - 18866136 ∧
    ¬FreeLeaves memory heapStart [⟨heapTotal, false⟩] firstPtr := by
  obtain ⟨memory, formed, start, unused, idle, width⟩ := firstPtr_idle
  obtain ⟨message, result⟩ := free_rejected (show firstPtr ≠ 0 by decide) (.inr idle)
  have whole := kernelMemoryFree_freed (show 0 < heapStart by decide) (by decide) result
  have account : usedHeap (discounted memory heapStart firstPtr) heapStart = 2 ^ 64 - 18866136 := by
    rw [discounted, usedHeap_setUsedHeap _ _ (u64Sub_lt _ _), unused, width]
    decide
  rw [account] at whole
  have left := usedHeap_setUsedHeap (discounted memory heapStart firstPtr) heapStart
    (u64Sub_lt (2 ^ 64 - 18866136) (headerSize * 0))
  have same : u64Sub (2 ^ 64 - 18866136) (headerSize * 0) = 2 ^ 64 - 18866136 := by decide
  refine ⟨memory, _, formed, .inr (.inl idle), unused, whole, left.trans same, ?_⟩
  rintro ⟨after, result', kept, _⟩
  cases whole.symm.trans result'
  have drift := (left.trans same).symm.trans (kept.trans unused)
  exact absurd drift (by decide)

end Rejections

end Kernix.Proofs
