import Kernix.Proofs.HeapRuns

/-! The running account of `kernel_memory.c`. Every allocation charges its block
and one header; the header is only really used up when `malloc` split a block. -/

namespace Kernix.Proofs
open ByteMemory HeapBlock Transition KernelMemory

structure AccountState where
  memory : Memory
  kernelMemory : Nat
  live : List Nat

inductive AccountOp where
  | create (size : Nat)
  | alloc (size count : Nat)
  | free (ptr : Nat)

/-- The pointers held after an allocation that returned `ptr`. -/
def held (ptr : Nat) (live : List Nat) : List Nat := if ptr = 0 then live else ptr :: live

def AccountStep (before : AccountState) (op : AccountOp) (after : AccountState) : Prop :=
  match op with
  | .create size => ∃ ptr memory, kernelMemoryCreate before.memory before.kernelMemory size = some (ptr, memory) ∧
      after = { before with memory, live := held ptr before.live }
  | .alloc size count => ∃ ptr memory,
      kernelMemoryAlloc before.memory before.kernelMemory size count = some (ptr, memory) ∧
      after = { before with memory, live := held ptr before.live }
  | .free ptr => ptr ∈ before.live ∧ ∃ memory,
      kernelMemoryFree before.memory before.kernelMemory ptr = some memory ∧
      after = { before with memory, live := before.live.erase ptr }

def AccountInitial (ptr : Nat) (state : AccountState) : Prop :=
  ∃ memory size, kernelMemoryInit memory ptr size = .ok (state.kernelMemory, state.memory) ∧ state.live = []

/-- The payload bytes of the free blocks in a list of headers. -/
def freeBytes (memory : Memory) (blocks : List Nat) : Nat :=
  ((blocks.filter fun block => used memory block = 0).map (size memory)).sum

/-- What the account promises: the free size is what the heap list holds, it
never wraps, and with nothing live nothing is in use. -/
def Accurate (state : AccountState) : Prop :=
  (∃ blocks, blockList state.memory addressSpace (startHeap state.memory state.kernelMemory) = some blocks ∧
    kernelMemoryGetFreeSize state.memory state.kernelMemory = freeBytes state.memory blocks) ∧
  usedHeap state.memory state.kernelMemory ≤ totalHeap state.memory state.kernelMemory ∧
  (state.live = [] → usedHeap state.memory state.kernelMemory = 0)

/-- No free block holds a request without leaving enough for a block of its own,
so an allocation either splits or fails. -/
def SplitsAny (memory : Memory) (heap request : Nat) : Prop :=
  ∀ blocks, blockList memory addressSpace heap = some blocks → ∀ block ∈ blocks, used memory block = 0 →
    roundUp request ≤ size memory block → roundUp request + headerSize + 16 ≤ size memory block

/-- Every free block with room for the rounded request has room for the request
itself. This fails only when rounding up wraps to zero. -/
def HoldsAny (memory : Memory) (heap request : Nat) : Prop :=
  ∀ blocks, blockList memory addressSpace heap = some blocks → ∀ block ∈ blocks, used memory block = 0 →
    roundUp request ≤ size memory block → request ≤ size memory block

/-- A step whose allocation, if it is one, splits the block it takes. -/
def SplittingStep (before : AccountState) (op : AccountOp) (after : AccountState) : Prop :=
  AccountStep before op after ∧
    match op with
    | .create size => size ≠ 0 → SplitsAny before.memory (startHeap before.memory before.kernelMemory) size
    | .alloc size count => u64 (count * size) ≠ 0 →
        SplitsAny before.memory (startHeap before.memory before.kernelMemory) (u64 (count * size)) ∧
          HoldsAny before.memory (startHeap before.memory before.kernelMemory) (u64 (count * size))
    | .free _ => True

/-- The payload bytes of the free blocks of a tiling. -/
def freeSizes : List Block → Nat
  | [] => 0
  | block :: rest => if block.used then freeSizes rest else block.size + freeSizes rest

theorem freeSizes_append (first second : List Block) :
    freeSizes (first ++ second) = freeSizes first + freeSizes second := by
  induction first with
  | nil => simp [freeSizes]
  | cons block rest ih =>
    simp only [List.cons_append, freeSizes, ih]
    split <;> omega

theorem freeSizes_le (blocks : List Block) : freeSizes blocks + 40 * blocks.length ≤ span blocks := by
  induction blocks with
  | nil => simp [freeSizes]
  | cons block rest ih =>
    simp only [freeSizes, List.length_cons, span_cons]
    split <;> omega

theorem freeSizes_free {blocks : List Block} (free : ∀ block ∈ blocks, block.used = false) :
    freeSizes blocks + 40 * blocks.length = span blocks := by
  induction blocks with
  | nil => simp [freeSizes]
  | cons block rest ih =>
    have deeper := ih (fun other member => free other (by simp [member]))
    simp only [freeSizes, free block (by simp), Bool.false_eq_true, if_false, List.length_cons, span_cons]
    omega

/-- A split takes the request and one header away from the free bytes. -/
theorem freeSizes_split (pre post : List Block) {block : Block} {request : Nat} (free : block.used = false)
    (large : request + 56 ≤ block.size) :
    freeSizes (pre ++ carve request block ++ post) + (request + 40) = freeSizes (pre ++ block :: post) := by
  simp only [carve, if_pos large, freeSizes_append, freeSizes, free, if_true, Bool.false_eq_true, if_false]
  omega

/-- A block taken whole costs no header. -/
theorem freeSizes_whole (pre post : List Block) {block : Block} {request : Nat} (free : block.used = false)
    (tight : ¬request + 56 ≤ block.size) :
    freeSizes (pre ++ carve request block ++ post) + block.size = freeSizes (pre ++ block :: post) := by
  simp only [carve, if_neg tight, freeSizes_append, freeSizes, free, if_true, Bool.false_eq_true, if_false]
  omega

/-- A free gives back the block and one header for each neighbour it swallows. -/
theorem freeSizes_release {left right : List Block} (init rest : List Block) (size : Nat)
    (leftFree : ∀ free ∈ left, free.used = false) (rightFree : ∀ free ∈ right, free.used = false) :
    freeSizes (init ++ ⟨span left + size + span right, false⟩ :: rest) =
      freeSizes (init ++ left ++ ⟨size, true⟩ :: (right ++ rest)) + size + 40 * (right.length + left.length) := by
  have before := freeSizes_free leftFree
  have after := freeSizes_free rightFree
  simp only [freeSizes_append, freeSizes, if_true, Bool.false_eq_true, if_false]
  omega

theorem freeBytes_segment {memory : Memory} {address before stop : Nat} {blocks : List Block}
    (segment : Segment memory address before stop blocks) :
    freeBytes memory (addresses address blocks) = freeSizes blocks := by
  induction blocks generalizing address before with
  | nil => rfl
  | cons block rest ih =>
    obtain ⟨header, back⟩ := segment
    have deeper := ih back
    simp only [freeBytes] at deeper
    simp only [freeBytes, addresses, freeSizes, List.filter_cons, header.used]
    cases usedCase : block.used
    · simp [deeper, header.size]
    · simp [deeper]

/-- The record and its heap, whatever the account says. -/
structure AccountValid (state : AccountState) (blocks : List Block) : Prop where
  positive : 0 < state.kernelMemory
  room : state.kernelMemory + heapSize < 2 ^ 64
  start : startHeap state.memory state.kernelMemory = state.kernelMemory + kernelMemoryOffsetHeap
  total : totalHeap state.memory state.kernelMemory = heapTotal
  heap : HeapValid kernelMemorySizeHeap
    ⟨state.memory, state.kernelMemory + kernelMemoryOffsetHeap, state.live⟩ blocks

/-- The account agrees with the heap. -/
def Balanced (state : AccountState) (blocks : List Block) : Prop :=
  usedHeap state.memory state.kernelMemory + freeSizes blocks = heapTotal

theorem AccountValid.accurate {state : AccountState} {blocks : List Block} (valid : AccountValid state blocks)
    (balanced : Balanced state blocks) : Accurate state := by
  have region := region_heap valid.room
  have small : heapTotal < 2 ^ 64 := by decide
  unfold Balanced at balanced
  refine ⟨⟨addresses (state.kernelMemory + kernelMemoryOffsetHeap) blocks, ?_, ?_⟩, ?_, ?_⟩
  · rw [valid.start]
    exact (valid.heap.wellTiled region).traversal
  · rw [freeBytes_segment valid.heap.segment, kernelMemoryGetFreeSize, valid.total, u64Sub_eq small (by omega)]
    omega
  · rw [valid.total]
    omega
  · intro none
    obtain rfl := valid.heap.empty region none
    have all : freeSizes [⟨kernelMemorySizeHeap - headerSize, false⟩] = heapTotal := rfl
    omega

/-- The record lies in front of the heap, so a heap operation cannot reach it. -/
theorem record_confined {after memory : Memory} {kernelMemory : Nat}
    (confined : Confined after memory (kernelMemory + kernelMemoryOffsetHeap) kernelMemorySizeHeap) :
    startHeap after kernelMemory = startHeap memory kernelMemory ∧
      totalHeap after kernelMemory = totalHeap memory kernelMemory ∧
      usedHeap after kernelMemory = usedHeap memory kernelMemory := by
  have offset : kernelMemoryOffsetHeap = 14688256 := rfl
  rw [offset] at confined
  refine ⟨load_agree (confined.agree ?_), load_agree (confined.agree ?_), load_agree (confined.agree ?_)⟩ <;> omega

theorem setUsedHeap_agree (memory : Memory) (kernelMemory value : Nat) :
    Agree (setUsedHeap memory kernelMemory value) memory (kernelMemory + kernelMemoryOffsetHeap)
      kernelMemorySizeHeap := by
  have offset : kernelMemoryOffsetHeap = 14688256 := rfl
  rw [offset]
  exact store_agree memory (by omega)

theorem usedHeap_setUsedHeap (memory : Memory) (kernelMemory : Nat) {value : Nat} (fits : value < 2 ^ 64) :
    usedHeap (setUsedHeap memory kernelMemory value) kernelMemory = value :=
  load_store_fits memory fits

theorem HeapValid.agree {extent heap : Nat} {first second : Memory} {live : List Nat} {blocks : List Block}
    (valid : HeapValid extent ⟨first, heap, live⟩ blocks) (same : Agree second first heap extent) :
    HeapValid extent ⟨second, heap, live⟩ blocks :=
  ⟨valid.segment.agree (valid.extent ▸ same), valid.extent, valid.live, valid.coalesced⟩

theorem AccountValid.setUsedHeap {state : AccountState} {blocks : List Block} (valid : AccountValid state blocks)
    (value : Nat) :
    AccountValid { state with memory := KernelMemory.setUsedHeap state.memory state.kernelMemory value } blocks where
  positive := valid.positive
  room := valid.room
  start := (load_store_apart state.memory (by dsimp only; omega)).trans valid.start
  total := (load_store_apart state.memory (by dsimp only; omega)).trans valid.total
  heap := valid.heap.agree (setUsedHeap_agree state.memory state.kernelMemory value)

/-- A write into the payload of a block in use reaches no header. -/
theorem HeapValid.payload {extent heap size : Nat} {first second : Memory} {live : List Nat} {pre post : List Block}
    (valid : HeapValid extent ⟨first, heap, live⟩ (pre ++ ⟨size, true⟩ :: post))
    (confined : Confined second first (heap + span pre + 40) size) :
    HeapValid extent ⟨second, heap, live⟩ (pre ++ ⟨size, true⟩ :: post) := by
  obtain ⟨front, header, back⟩ := (segment_split pre ⟨size, true⟩ post).mp valid.segment
  dsimp only at front header back
  have segment := (segment_split pre ⟨size, true⟩ post).mpr
    ⟨front.agree (confined.agree (by omega)), header.agree (confined.agree (by omega)),
      back.agree (confined.agree (by omega))⟩
  exact ⟨segment, valid.extent, valid.live, valid.coalesced⟩

/-- The payload size that an allocation hands out. -/
def taken (request : Nat) (block : Block) : Nat :=
  if request + 56 ≤ block.size then request else block.size

theorem carve_taken (request : Nat) (block : Block) :
    ∃ rest, carve request block = ⟨taken request block, true⟩ :: rest := by
  unfold carve taken
  split
  · exact ⟨_, rfl⟩
  · exact ⟨_, rfl⟩

/-- `malloc` on the heap of the record. -/
theorem AccountValid.malloc {state : AccountState} {blocks : List Block} (valid : AccountValid state blocks)
    (request : Nat) :
    (Kernix.malloc state.memory (startHeap state.memory state.kernelMemory) request = some (0, state.memory) ∧
      (request ≠ 0 → ∀ block ∈ blocks, ¬Fits (roundUp request) block)) ∨
    ∃ pre block post memory, request ≠ 0 ∧ blocks = pre ++ block :: post ∧ Fits (roundUp request) block ∧
      Kernix.malloc state.memory (startHeap state.memory state.kernelMemory) request =
        some (state.kernelMemory + kernelMemoryOffsetHeap + span pre + 40, memory) ∧
      AccountValid ⟨memory, state.kernelMemory,
          (state.kernelMemory + kernelMemoryOffsetHeap + span pre + 40) :: state.live⟩
        (pre ++ carve (roundUp request) block ++ post) ∧
      usedHeap memory state.kernelMemory = usedHeap state.memory state.kernelMemory ∧
      KeepsPayloads state.memory memory (state.kernelMemory + kernelMemoryOffsetHeap) blocks := by
  rw [valid.start]
  rcases valid.heap.malloc (region_heap valid.room) request with
    refused | ⟨pre, block, post, memory, asked, split, fits, result, heap, confined, kept⟩
  · exact Or.inl refused
  · obtain ⟨start, total, used⟩ := record_confined confined
    exact Or.inr ⟨pre, block, post, memory, asked, split, fits, result,
      ⟨valid.positive, valid.room, start.trans valid.start, total.trans valid.total, heap⟩, used, kept⟩

/-- What `kernel_memory_create` and `kernel_memory_alloc` add for a new block. -/
def charge (memory : Memory) (kernelMemory ptr : Nat) : Memory :=
  setUsedHeap memory kernelMemory
    (u64 (usedHeap memory kernelMemory + (size memory (u64Sub ptr headerSize) + headerSize)))

theorem kernelMemoryCreate_some {memory after : Memory} {kernelMemory size ptr : Nat} (positive : 0 < kernelMemory)
    (asked : size ≠ 0) (given : ptr ≠ 0) (result : malloc memory (startHeap memory kernelMemory) size = some (ptr,
      after)) :
    kernelMemoryCreate memory kernelMemory size = some (ptr, charge after kernelMemory ptr) := by
  simp only [kernelMemoryCreate, result, Option.bind_eq_bind, Option.bind_some, charge]
  rw [if_neg (by omega), if_neg given]
  rfl

theorem malloc_zero (memory : Memory) (heap : Nat) : malloc memory heap 0 = some (0, memory) := by
  simp only [malloc, or_true, if_true]

theorem kernelMemoryCreate_none {memory : Memory} {kernelMemory size : Nat}
    (result : malloc memory (startHeap memory kernelMemory) size = some (0, memory)) :
    kernelMemoryCreate memory kernelMemory size = some (0, memory) := by
  simp only [kernelMemoryCreate, result, Option.bind_eq_bind, Option.bind_some, if_true]
  exact ite_self _

theorem kernelMemoryAlloc_none {memory : Memory} {kernelMemory size count : Nat}
    (result : malloc memory (startHeap memory kernelMemory) (u64 (count * size)) = some (0, memory)) :
    kernelMemoryAlloc memory kernelMemory size count = some (0, memory) := by
  simp only [kernelMemoryAlloc, result, Option.bind_eq_bind, Option.bind_some, if_true]
  exact ite_self _

theorem kernelMemoryAlloc_some {memory after : Memory} {kernelMemory size count ptr : Nat}
    (positive : 0 < kernelMemory) (asked : size ≠ 0) (given : ptr ≠ 0)
    (result : malloc memory (startHeap memory kernelMemory) (u64 (count * size)) = some (ptr, after)) :
    kernelMemoryAlloc memory kernelMemory size count =
      some (ptr, charge (memset after ptr 0 (u64 (count * size))) kernelMemory ptr) := by
  simp only [kernelMemoryAlloc, result, Option.bind_eq_bind, Option.bind_some, charge]
  rw [if_neg (by omega), if_neg given]
  rfl

/-- The record is no payload. -/
theorem setUsedHeap_keeps (memory : Memory) (kernelMemory value : Nat) (blocks : List Block) :
    KeepsPayloads memory (KernelMemory.setUsedHeap memory kernelMemory value)
      (kernelMemory + kernelMemoryOffsetHeap) blocks := by
  rintro ⟨pointer, size⟩ member
  obtain ⟨pre, post, _, rfl⟩ := mem_allocated member
  have offset : kernelMemoryOffsetHeap = 14688256 := rfl
  rw [offset]
  exact store_agree memory (by omega)

theorem charge_keeps (memory : Memory) (kernelMemory ptr : Nat) (blocks : List Block) :
    KeepsPayloads memory (charge memory kernelMemory ptr) (kernelMemory + kernelMemoryOffsetHeap) blocks :=
  setUsedHeap_keeps memory kernelMemory _ blocks

theorem AccountValid.charge {state : AccountState} {pre post : List Block} {size : Nat}
    (valid : AccountValid state (pre ++ ⟨size, true⟩ :: post)) :
    let charged := Proofs.charge state.memory state.kernelMemory
      (state.kernelMemory + kernelMemoryOffsetHeap + span pre + 40)
    AccountValid { state with memory := charged } (pre ++ ⟨size, true⟩ :: post) ∧
      usedHeap charged state.kernelMemory = u64 (usedHeap state.memory state.kernelMemory + (size + 40)) := by
  intro charged
  have top := (region_heap valid.room).top
  have extent := valid.heap.extent
  simp only [span_append, span_cons] at extent
  have block : u64Sub (state.kernelMemory + kernelMemoryOffsetHeap + span pre + 40) headerSize =
      state.kernelMemory + kernelMemoryOffsetHeap + span pre := by
    rw [u64Sub_eq (by omega) (by simp only [headerSize]; omega)]
    exact Nat.add_sub_cancel _ 40
  have width := ((segment_split pre ⟨size, true⟩ post).mp valid.heap.segment).2.1.size
  dsimp only at width
  refine ⟨valid.setUsedHeap _, ?_⟩
  simp only [charged, Proofs.charge, block, width]
  exact usedHeap_setUsedHeap _ _ (u64_lt _)

theorem AccountValid.create {state : AccountState} {blocks : List Block} (valid : AccountValid state blocks)
    (size : Nat) :
    (kernelMemoryCreate state.memory state.kernelMemory size = some (0, state.memory) ∧
      (size ≠ 0 → ∀ block ∈ blocks, ¬Fits (roundUp size) block)) ∨
    ∃ pre block post ptr memory, size ≠ 0 ∧ ptr ≠ 0 ∧ blocks = pre ++ block :: post ∧ Fits (roundUp size) block ∧
      kernelMemoryCreate state.memory state.kernelMemory size = some (ptr, memory) ∧
      AccountValid ⟨memory, state.kernelMemory, ptr :: state.live⟩ (pre ++ carve (roundUp size) block ++ post) ∧
      usedHeap memory state.kernelMemory =
        u64 (usedHeap state.memory state.kernelMemory + (taken (roundUp size) block + 40)) ∧
      ptr = state.kernelMemory + kernelMemoryOffsetHeap + span pre + 40 ∧
      KeepsPayloads state.memory memory (state.kernelMemory + kernelMemoryOffsetHeap) blocks := by
  have positive := valid.positive
  rcases valid.malloc size with
    ⟨result, full⟩ | ⟨pre, block, post, memory, asked, split, fits, result, after, used, kept⟩
  · exact Or.inl ⟨kernelMemoryCreate_none result, full⟩
  · obtain ⟨rest, carved⟩ := carve_taken (roundUp size) block
    rw [carved, List.append_assoc, List.cons_append] at after
    obtain ⟨charged, account⟩ := after.charge
    refine Or.inr ⟨pre, block, post, state.kernelMemory + kernelMemoryOffsetHeap + span pre + 40, _, asked,
      Nat.succ_ne_zero _, split, fits, ?_, ?_, account.trans (by rw [used]), rfl, ?_⟩
    · exact kernelMemoryCreate_some positive asked (Nat.succ_ne_zero _) result
    · rw [carved, List.append_assoc, List.cons_append]
      exact charged
    · exact kept.trans (charge_keeps _ _ _ _)

/-- Zeroing the payload of a fresh block leaves the record and all headers alone. -/
theorem AccountValid.zero {state : AccountState} {pre post : List Block} {size total : Nat}
    (valid : AccountValid state (pre ++ ⟨size, true⟩ :: post)) (inside : total ≤ size) :
    let ptr := state.kernelMemory + kernelMemoryOffsetHeap + span pre + 40
    AccountValid { state with memory := memset state.memory ptr 0 total } (pre ++ ⟨size, true⟩ :: post) ∧
      usedHeap (memset state.memory ptr 0 total) state.kernelMemory =
        usedHeap state.memory state.kernelMemory := by
  intro ptr
  have top := (region_heap valid.room).top
  have extent := valid.heap.extent
  simp only [span_append, span_cons] at extent
  have filled := memset_eq_fill state.memory ptr total 0 (by omega)
  have confined : Confined (memset state.memory ptr 0 total) state.memory ptr size :=
    filled ▸ (fill_confined state.memory ptr total 0).mono (by omega) (by omega)
  have within : Confined (memset state.memory ptr 0 total) state.memory
      (state.kernelMemory + kernelMemoryOffsetHeap) kernelMemorySizeHeap := confined.mono (by omega) (by omega)
  obtain ⟨start, whole, used⟩ := record_confined within
  exact ⟨⟨valid.positive, valid.room, start.trans valid.start, whole.trans valid.total,
    valid.heap.payload confined⟩, used⟩

theorem AccountValid.alloc {state : AccountState} {blocks : List Block} (valid : AccountValid state blocks)
    (size count : Nat)
    (holds : ∀ block ∈ blocks, Fits (roundUp (u64 (count * size))) block → u64 (count * size) ≤ block.size) :
    (kernelMemoryAlloc state.memory state.kernelMemory size count = some (0, state.memory) ∧
      (u64 (count * size) ≠ 0 → ∀ block ∈ blocks, ¬Fits (roundUp (u64 (count * size))) block)) ∨
    ∃ pre block post ptr memory, u64 (count * size) ≠ 0 ∧ ptr ≠ 0 ∧ blocks = pre ++ block :: post ∧
      Fits (roundUp (u64 (count * size))) block ∧
      kernelMemoryAlloc state.memory state.kernelMemory size count = some (ptr, memory) ∧
      AccountValid ⟨memory, state.kernelMemory, ptr :: state.live⟩
        (pre ++ carve (roundUp (u64 (count * size))) block ++ post) ∧
      usedHeap memory state.kernelMemory =
        u64 (usedHeap state.memory state.kernelMemory + (taken (roundUp (u64 (count * size))) block + 40)) ∧
      ptr = state.kernelMemory + kernelMemoryOffsetHeap + span pre + 40 ∧
      KeepsPayloads state.memory memory (state.kernelMemory + kernelMemoryOffsetHeap) blocks := by
  have positive := valid.positive
  rcases valid.malloc (u64 (count * size)) with
    ⟨result, full⟩ | ⟨pre, block, post, memory, asked, rfl, fits, result, after, used, kept⟩
  · exact Or.inl ⟨kernelMemoryAlloc_none result, full⟩
  · have sized : size ≠ 0 := by
      rintro rfl
      exact asked rfl
    have inside : u64 (count * size) ≤ taken (roundUp (u64 (count * size))) block := by
      have top := (region_heap valid.room).top
      have extent := valid.heap.extent
      simp only [span_append, span_cons] at extent
      have within := holds block (by simp) fits
      unfold taken
      split
      · exact le_roundUp (by omega)
      · exact within
    obtain ⟨rest, carved⟩ := carve_taken (roundUp (u64 (count * size))) block
    rw [carved, List.append_assoc, List.cons_append] at after
    obtain ⟨zeroed, same⟩ := after.zero inside
    obtain ⟨charged, account⟩ := zeroed.charge
    refine Or.inr ⟨pre, block, post, state.kernelMemory + kernelMemoryOffsetHeap + span pre + 40, _, asked,
      Nat.succ_ne_zero _, rfl, fits, ?_, ?_, account.trans (by rw [same, used]), rfl, ?_⟩
    · exact kernelMemoryAlloc_some positive sized (Nat.succ_ne_zero _) result
    · rw [carved, List.append_assoc, List.cons_append]
      exact charged
    · have top := (region_heap valid.room).top
      have extent := valid.heap.extent
      simp only [span_append, span_cons] at extent
      have within : u64 (count * size) ≤ block.size := holds block (by simp) fits
      have filled := memset_eq_fill memory (state.kernelMemory + kernelMemoryOffsetHeap + span pre + 40)
        (u64 (count * size)) 0 (by omega)
      refine kept.trans ((keepsPayloads_around fits.1 ?_).trans (charge_keeps _ _ _ _))
      rw [filled]
      exact (fill_confined _ _ _ _).mono (by omega) (by omega)

/-- Freeing a live pointer takes its block and every header it saved off the account. -/
theorem AccountValid.free {state : AccountState} {blocks : List Block} {ptr : Nat}
    (valid : AccountValid state blocks) (live : ptr ∈ state.live) :
    ∃ init left size right rest memory, blocks = init ++ left ++ ⟨size, true⟩ :: (right ++ rest) ∧
      (∀ free ∈ left, free.used = false) ∧ (∀ free ∈ right, free.used = false) ∧
      kernelMemoryFree state.memory state.kernelMemory ptr = some memory ∧
      AccountValid ⟨memory, state.kernelMemory, state.live.erase ptr⟩
        (init ++ ⟨span left + size + span right, false⟩ :: rest) ∧
      usedHeap memory state.kernelMemory =
        u64Sub (u64Sub (usedHeap state.memory state.kernelMemory) size) (40 * (right.length + left.length)) ∧
      ptr = state.kernelMemory + kernelMemoryOffsetHeap + span (init ++ left) + 40 ∧
      KeepsPayloads state.memory memory (state.kernelMemory + kernelMemoryOffsetHeap)
        (init ++ ⟨span left + size + span right, false⟩ :: rest) := by
  have positive := valid.positive
  have top := (region_heap valid.room).top
  have discounted := valid.setUsedHeap (u64Sub (usedHeap state.memory state.kernelMemory)
    (size state.memory (u64Sub ptr headerSize)))
  obtain ⟨init, left, size, right, rest, memory, rfl, leftFree, rightFree, place, result, heap, confined, kept⟩ :=
    discounted.heap.free (region_heap valid.room) live
  dsimp only at place result heap confined
  have extent := valid.heap.extent
  simp only [span_append, span_cons] at extent
  have block : u64Sub ptr headerSize = state.kernelMemory + kernelMemoryOffsetHeap + span (init ++ left) := by
    rw [place, u64Sub_eq (by rw [span_append]; omega) (by simp only [headerSize]; omega)]
    exact Nat.add_sub_cancel _ 40
  have width := ((segment_split (init ++ left) ⟨size, true⟩ (right ++ rest)).mp valid.heap.segment).2.1.size
  dsimp only at width
  obtain ⟨start, total, used⟩ := record_confined confined
  have merged : AccountValid ⟨memory, state.kernelMemory, _⟩ _ :=
    ⟨valid.positive, valid.room, start.trans discounted.start, total.trans discounted.total, heap⟩
  refine ⟨init, left, size, right, rest, _, rfl, leftFree, rightFree, ?_, merged.setUsedHeap
    (u64Sub (usedHeap memory state.kernelMemory) (headerSize * (right.length + left.length))), ?_, place, ?_⟩
  · have given : ptr ≠ 0 := by omega
    simp only [kernelMemoryFree]
    rw [if_neg (by omega), result]
    rfl
  · rw [usedHeap_setUsedHeap _ _ (u64Sub_lt _ _), used, usedHeap_setUsedHeap _ _ (u64Sub_lt _ _), block, width]
  · exact (setUsedHeap_keeps _ _ _ _).trans (kept.trans (setUsedHeap_keeps _ _ _ _))

/-- What the two conditions on a step say about the block that is taken. -/
theorem AccountValid.choice {state : AccountState} {pre post : List Block} {block : Block}
    (valid : AccountValid state (pre ++ block :: post)) (free : block.used = false) :
    ∃ blocks place, blockList state.memory addressSpace (startHeap state.memory state.kernelMemory) = some blocks ∧
      place ∈ blocks ∧ used state.memory place = 0 ∧ size state.memory place = block.size := by
  have header := ((segment_split pre block post).mp valid.heap.segment).2.1
  have traversal := (valid.heap.wellTiled (region_heap valid.room)).traversal
  dsimp only at header traversal
  rw [← valid.start] at header traversal
  refine ⟨_, startHeap state.memory state.kernelMemory + span pre, traversal, addresses_mem _ pre post block, ?_,
    header.size⟩
  rw [header.used, free]
  rfl

theorem SplitsAny.large {state : AccountState} {pre post : List Block} {block : Block} {request : Nat}
    (splits : SplitsAny state.memory (startHeap state.memory state.kernelMemory) request)
    (valid : AccountValid state (pre ++ block :: post)) (fits : Fits (roundUp request) block) :
    roundUp request + 56 ≤ block.size := by
  obtain ⟨blocks, place, found, member, free, width⟩ := valid.choice fits.1
  have large := splits blocks found place member free (width ▸ fits.2)
  simp only [width, headerSize] at large
  omega

theorem HoldsAny.holds {state : AccountState} {pre post : List Block} {block : Block} {request : Nat}
    (holds : HoldsAny state.memory (startHeap state.memory state.kernelMemory) request)
    (valid : AccountValid state (pre ++ block :: post)) (fits : Fits (roundUp request) block) :
    request ≤ block.size := by
  obtain ⟨blocks, place, found, member, free, width⟩ := valid.choice fits.1
  exact width ▸ holds blocks found place member free (width ▸ fits.2)

/-- An allocation that splits its block keeps the account balanced. -/
theorem Balanced.split {before after : AccountState} {pre post : List Block} {block : Block} {request : Nat}
    (balanced : Balanced before (pre ++ block :: post)) (free : block.used = false)
    (large : request + 56 ≤ block.size)
    (charged : usedHeap after.memory after.kernelMemory =
      u64 (usedHeap before.memory before.kernelMemory + (taken request block + 40))) :
    Balanced after (pre ++ carve request block ++ post) := by
  have moved := freeSizes_split pre post free large
  have small : heapTotal < 2 ^ 64 := by decide
  unfold Balanced at *
  rw [charged, taken, if_pos large, u64_eq (by omega)]
  omega

/-- An allocation that takes its block whole charges a header that nobody uses. -/
theorem Balanced.whole {before : AccountState} {pre post : List Block} {block : Block} {request : Nat}
    (balanced : Balanced before (pre ++ block :: post)) (free : block.used = false)
    (tight : ¬request + 56 ≤ block.size) :
    u64 (usedHeap before.memory before.kernelMemory + (taken request block + 40)) +
      freeSizes (pre ++ carve request block ++ post) = heapTotal + 40 := by
  have moved := freeSizes_whole pre post free tight
  have small : heapTotal + 40 < 2 ^ 64 := by decide
  unfold Balanced at balanced
  rw [taken, if_neg tight, u64_eq (by omega)]
  omega

theorem Balanced.release {before after : AccountState} {init left right rest : List Block} {size : Nat}
    (balanced : Balanced before (init ++ left ++ ⟨size, true⟩ :: (right ++ rest)))
    (valid : AccountValid after (init ++ ⟨span left + size + span right, false⟩ :: rest))
    (leftFree : ∀ free ∈ left, free.used = false) (rightFree : ∀ free ∈ right, free.used = false)
    (credited : usedHeap after.memory after.kernelMemory = u64Sub
      (u64Sub (usedHeap before.memory before.kernelMemory) size) (40 * (right.length + left.length))) :
    Balanced after (init ++ ⟨span left + size + span right, false⟩ :: rest) := by
  have moved := freeSizes_release init rest size leftFree rightFree
  have bound := freeSizes_le (init ++ ⟨span left + size + span right, false⟩ :: rest)
  have extent := valid.heap.extent
  have whole : kernelMemorySizeHeap = heapTotal + 40 := rfl
  have small : heapTotal < 2 ^ 64 := by decide
  simp only [List.length_append, List.length_cons] at bound
  unfold Balanced at *
  rw [credited, u64Sub_eq (show usedHeap before.memory before.kernelMemory < 2 ^ 64 by omega) (by omega),
    u64Sub_eq (by omega) (by omega)]
  omega

/-- One step whose allocation splits keeps the record valid and in balance. -/
theorem AccountValid.step {before after : AccountState} {op : AccountOp} {blocks : List Block}
    (valid : AccountValid before blocks) (balanced : Balanced before blocks)
    (moves : SplittingStep before op after) : ∃ blocks', AccountValid after blocks' ∧ Balanced after blocks' := by
  obtain ⟨moves, exact⟩ := moves
  cases op with
  | create size =>
    obtain ⟨ptr, memory, result, rfl⟩ := moves
    rcases valid.create size with
      ⟨expected, _⟩ | ⟨pre, block, post, ptr', memory', asked, given, rfl, fits, expected, valid', charged, _⟩
    · cases result.symm.trans expected
      exact ⟨blocks, valid, balanced⟩
    · cases result.symm.trans expected
      rw [held, if_neg given]
      exact ⟨_, valid', balanced.split fits.1 ((exact asked).large valid fits) charged⟩
  | alloc size count =>
    obtain ⟨ptr, memory, result, rfl⟩ := moves
    by_cases nothing : u64 (count * size) = 0
    · have refused : Kernix.malloc before.memory (startHeap before.memory before.kernelMemory) (u64 (count * size)) =
          some (0, before.memory) := by
        rw [nothing, malloc_zero]
      have expected := kernelMemoryAlloc_none refused
      cases result.symm.trans expected
      exact ⟨blocks, valid, balanced⟩
    · obtain ⟨splits, holds⟩ := exact nothing
      have room : ∀ block ∈ blocks, Fits (roundUp (u64 (count * size))) block → u64 (count * size) ≤ block.size := by
        intro block member fits
        obtain ⟨pre, post, rfl⟩ := List.append_of_mem member
        exact holds.holds valid fits
      rcases valid.alloc size count room with
        ⟨expected, _⟩ | ⟨pre, block, post, ptr', memory', asked, given, rfl, fits, expected, valid', charged, _⟩
      · cases result.symm.trans expected
        exact ⟨blocks, valid, balanced⟩
      · cases result.symm.trans expected
        rw [held, if_neg given]
        exact ⟨_, valid', balanced.split fits.1 (splits.large valid fits) charged⟩
  | free ptr =>
    obtain ⟨live, memory, result, rfl⟩ := moves
    obtain ⟨init, left, size, right, rest, memory', rfl, leftFree, rightFree, expected, valid', credited, _⟩ :=
      valid.free live
    cases result.symm.trans expected
    exact ⟨_, valid', balanced.release valid' leftFree rightFree credited⟩

theorem accountInitial_valid {ptr : Nat} {state : AccountState} (fits : ptr + heapSize < 2 ^ 64)
    (starts : AccountInitial ptr state) :
    AccountValid state [⟨heapTotal, false⟩] ∧ Balanced state [⟨heapTotal, false⟩] := by
  obtain ⟨memory, size, result, empty⟩ := starts
  obtain ⟨positive, room⟩ := kernelMemoryInit_guard result
  obtain ⟨after, expected, start, total, used, segment⟩ := kernelMemoryInit_spec memory positive room fits
  have same : (state.kernelMemory, state.memory) = (ptr, after) := Except.ok.inj (result.symm.trans expected)
  obtain ⟨memory', kernelMemory, live⟩ := state
  cases same
  cases empty
  refine ⟨⟨positive, fits, start, total, segment, rfl, .nil, List.isChain_singleton _⟩, ?_⟩
  simp only [Balanced, used]
  rfl

/-- In every run from `kernel_memory_init` whose allocations all split the block
they take, the account is exact in every state. -/
theorem account_run_accurate {ptr : Nat} {state : AccountState} (fits : ptr + heapSize < 2 ^ 64)
    (reached : Reachable (AccountInitial ptr) SplittingStep state) : Accurate state := by
  have sound : ∃ blocks, AccountValid state blocks ∧ Balanced state blocks := by
    induction reached with
    | initial starts => exact ⟨_, accountInitial_valid fits starts⟩
    | step _ moves ih =>
      obtain ⟨blocks, valid, balanced⟩ := ih
      exact valid.step balanced moves
  obtain ⟨blocks, valid, balanced⟩ := sound
  exact valid.accurate balanced

/-- A fresh record in the region that `_start` hands over. -/
theorem account_fresh : ∃ fresh : AccountState, AccountInitial heapStart fresh := by
  obtain ⟨memory, result, _⟩ := kernelMemoryInit_spec (fun _ => 0)
    (show 0 < heapStart by decide) (show headerSize ≤ heapSize by decide) (show heapStart + heapSize < 2 ^ 64 by decide)
  exact ⟨⟨memory, heapStart, []⟩, _, _, result, rfl⟩

/-- The first allocation from a fresh record takes its one block, when it fits. -/
theorem account_first {fresh : AccountState} (size : Nat) (starts : AccountInitial heapStart fresh)
    (asked : size ≠ 0) (fits : roundUp size ≤ heapTotal) :
    ∃ ptr memory, kernelMemoryCreate fresh.memory fresh.kernelMemory size = some (ptr, memory) ∧ ptr ≠ 0 ∧
      fresh.live = [] ∧ AccountValid ⟨memory, fresh.kernelMemory, [ptr]⟩ (carve (roundUp size) ⟨heapTotal, false⟩) ∧
      usedHeap memory fresh.kernelMemory = u64 (taken (roundUp size) ⟨heapTotal, false⟩ + 40) := by
  obtain ⟨valid, balanced⟩ := accountInitial_valid (by decide) starts
  obtain ⟨_, _, _, empty⟩ := starts
  have unused : usedHeap fresh.memory fresh.kernelMemory = 0 := by
    simpa [Balanced, freeSizes] using balanced
  rcases valid.create size with
    ⟨_, full⟩ | ⟨pre, block, post, ptr, memory, _, given, split, _, result, valid', charged, _⟩
  · exact (full asked _ (List.mem_singleton.mpr rfl) ⟨rfl, fits⟩).elim
  · obtain ⟨rfl, rfl, rfl⟩ : pre = [] ∧ block = ⟨heapTotal, false⟩ ∧ post = [] := by
      cases pre with
      | nil => simpa using split.symm
      | cons head rest => simp at split
    rw [empty] at valid'
    rw [unused, Nat.zero_add] at charged
    exact ⟨ptr, memory, result, given, empty, by simpa using valid', charged⟩

/-- A request that leaves less than a block over is charged for a header that it
never takes: the free size wraps, and forty bytes stay in use after the free. -/
theorem account_drifts : ∃ (fresh full empty : AccountState) (ptr : Nat), AccountInitial heapStart fresh ∧
    AccountStep fresh (.create 18866128) full ∧ AccountStep full (.free ptr) empty ∧
    kernelMemoryGetFreeSize full.memory full.kernelMemory = 2 ^ 64 - 40 ∧ ¬Accurate full ∧
    empty.live = [] ∧ usedHeap empty.memory empty.kernelMemory = 40 ∧ ¬Accurate empty := by
  obtain ⟨fresh, starts⟩ := account_fresh
  have rounded : roundUp 18866128 = 18866128 := by decide
  obtain ⟨ptr, memory, result, given, none, valid, charged⟩ := account_first 18866128 starts (by decide) (by decide)
  have whole : carve (roundUp 18866128) ⟨heapTotal, false⟩ = [⟨heapTotal, true⟩] := by decide
  have account : u64 (taken (roundUp 18866128) ⟨heapTotal, false⟩ + 40) = heapTotal + 40 := by decide
  rw [whole] at valid
  rw [account] at charged
  obtain ⟨init, left, size, right, rest, freed, split, _, _, released, valid', credited, _⟩ :=
    valid.free (List.mem_cons_self)
  obtain ⟨rfl, rfl, rfl, rfl⟩ : left = [] ∧ size = heapTotal ∧ right = [] ∧ rest = [] := by
    cases init <;> cases left <;> simp_all
  have left : u64Sub (u64Sub (heapTotal + 40) heapTotal) (40 * 0) = 40 := by decide
  dsimp only at released credited
  rw [charged] at credited
  have drift : usedHeap freed fresh.kernelMemory = 40 := credited.trans left
  refine ⟨fresh, ⟨memory, fresh.kernelMemory, [ptr]⟩, ⟨freed, fresh.kernelMemory, [ptr].erase ptr⟩, ptr, starts,
    ⟨ptr, memory, result, ?_⟩, ⟨List.mem_cons_self, freed, released, rfl⟩, ?_, ?_, by simp, drift, ?_⟩
  · rw [held, if_neg given, none]
  · have total := valid.total
    dsimp only at total
    simp only [kernelMemoryGetFreeSize, total, charged]
    decide
  · rintro ⟨_, bounded, _⟩
    have total := valid.total
    dsimp only at total bounded
    omega
  · rintro ⟨_, _, settled⟩
    have zero := settled (by simp)
    dsimp only at zero
    omega

theorem account_run_accurate_heapStart : ∃ state : AccountState, state.live.length = 1 ∧ Accurate state := by
  obtain ⟨fresh, starts⟩ := account_fresh
  obtain ⟨ptr, memory, result, given, none, _, _⟩ := account_first 100 starts (by decide) (by decide)
  obtain ⟨valid, _⟩ := accountInitial_valid (by decide) starts
  have splits : SplitsAny fresh.memory (startHeap fresh.memory fresh.kernelMemory) 100 := by
    intro blocks found block member _ _
    have traversal := (valid.heap.wellTiled (region_heap valid.room)).traversal
    dsimp only at traversal
    rw [valid.start] at found
    cases found.symm.trans traversal
    obtain rfl := List.mem_singleton.mp member
    have width := valid.heap.segment.1.size
    dsimp only at width
    rw [width]
    decide
  have reached : Reachable (AccountInitial heapStart) SplittingStep
      ⟨memory, fresh.kernelMemory, held ptr fresh.live⟩ :=
    .step (.initial starts) (show SplittingStep _ (.create 100) _ from ⟨⟨ptr, memory, result, rfl⟩, fun _ => splits⟩)
  exact ⟨_, by simp [held, given, none], account_run_accurate (by decide) reached⟩

end Kernix.Proofs
