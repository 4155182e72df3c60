import Kernix.Proofs.FsFrames
import Kernix.Proofs.HeapAccounting
import Kernix.Proofs.MemoryCalls

/-! The objects of the file systems on the kernel heap. Every live block that the
file systems use has one role, so two objects never share a block. -/

namespace Kernix.Proofs
open ByteMemory

variable {δ : Type}

/-- What a block is used for. -/
inductive Role where
  | node
  | record (node : Nat)
  | buffer (node : Nat)
  | file (fd : Fin fsMaxFds)
  deriving DecidableEq

/-- The roles that are handed out, by the address of the block. -/
abbrev Roles := Nat → Option Role

def Roles.assign (roles : Roles) (ptr : Nat) (role : Role) : Roles := Function.update roles ptr (some role)

def Roles.drop (roles : Roles) (ptr : Nat) : Roles := Function.update roles ptr none

theorem Roles.assign_self (roles : Roles) (ptr : Nat) (role : Role) : roles.assign ptr role ptr = some role := by
  rw [Roles.assign, Function.update_self]

/-- What is already in use keeps its role. -/
theorem Roles.assign_used {roles : Roles} {ptr place : Nat} {role used : Role} (free : roles ptr = none)
    (held : roles place = some used) : roles.assign ptr role place = some used := by
  rw [Roles.assign, Function.update_of_ne, held]
  rintro rfl
  rw [free] at held
  cases held

theorem Roles.drop_other {roles : Roles} {ptr place : Nat} (different : place ≠ ptr) :
    roles.drop ptr place = roles place := by
  rw [Roles.drop, Function.update_of_ne different]

def fsHeap (state : FsState δ) : Nat := state.kernelMemory + kernelMemoryOffsetHeap

/-- The live blocks of the heap, whoever uses them. -/
def liveEntries (state : FsState δ) (blocks : List Block) : List (Nat × Nat) := allocated (fsHeap state) blocks

/-- A valid heap, on which everything with a role is live. -/
structure Owned (state : FsState δ) (blocks : List Block) (roles : Roles) : Prop where
  heap : AccountValid ⟨state.memory, state.kernelMemory, (liveEntries state blocks).map Prod.fst⟩ blocks
  live : ∀ ptr role, roles ptr = some role → ∃ width, (ptr, width) ∈ liveEntries state blocks

/-- Which pointers count as live is up to a permutation. -/
theorem AccountValid.liveEntries {memory : Memory} {kernelMemory : Nat} {live : List Nat} {blocks : List Block}
    (valid : AccountValid ⟨memory, kernelMemory, live⟩ blocks) :
    AccountValid ⟨memory, kernelMemory, (allocated (kernelMemory + kernelMemoryOffsetHeap) blocks).map Prod.fst⟩ blocks :=
  ⟨valid.positive, valid.room, valid.start, valid.total,
    ⟨valid.heap.segment, valid.heap.extent, .refl _, valid.heap.coalesced⟩⟩

theorem allocated_taken (address request : Nat) (pre post : List Block) {block : Block}
    (free : block.used = false) :
    (allocated address (pre ++ carve request block ++ post)).Perm
      ((address + span pre + 40, taken request block) :: allocated address (pre ++ block :: post)) := by
  have carved : allocated (address + span pre) (carve request block) =
    [(address + span pre + 40, taken request block)] := by
    unfold carve taken
    split <;> simp [allocated]
  have shift : address + span (pre ++ carve request block) = address + span pre + 40 + block.size := by
    rw [span_append, span_carve]
    omega
  rw [allocated_append, allocated_append, carved, shift, allocated_append address pre (block :: post)]
  simp only [allocated, free, Bool.false_eq_true, if_false, List.append_assoc, List.singleton_append]
  exact List.perm_middle

/-- The effect of an allocation that returned a block. -/
structure Allocation (before after : FsState δ) (blocks blocks' : List Block) (ptr width size : Nat) : Prop where
  given : ptr ≠ 0
  wide : size ≤ width
  liveEntries : (liveEntries after blocks').Perm ((ptr, width) :: liveEntries before blocks)
  kept : KeepsPayloads before.memory after.memory (fsHeap before) blocks
  typed : after = { before with memory := after.memory }

namespace Owned
variable {before after : FsState δ} {blocks : List Block} {roles : Roles} {ptr width size : Nat}

theorem positive (held : (ptr, width) ∈ liveEntries before blocks) : 0 < ptr := by
  obtain ⟨pre, post, _, rfl⟩ := mem_allocated held
  omega

theorem inside (owned : Owned before blocks roles) (held : (ptr, width) ∈ liveEntries before blocks) :
    ptr + width < 2 ^ 64 := by
  have top := (region_heap owned.heap.room).top
  have extent := owned.heap.heap.extent
  obtain ⟨pre, post, rfl, rfl⟩ := mem_allocated held
  simp only [span_append, span_cons] at extent
  simp only [fsHeap] at top ⊢
  omega

theorem small (owned : Owned before blocks roles) (held : (ptr, width) ∈ liveEntries before blocks) :
    width ≤ kernelMemorySizeHeap := by
  have extent := owned.heap.heap.extent
  obtain ⟨pre, post, rfl, rfl⟩ := mem_allocated held
  simp only [span_append, span_cons] at extent
  omega

/-- Two live blocks are the same or apart. -/
theorem apart {other width' : Nat} (held : (ptr, width) ∈ liveEntries before blocks)
    (held' : (other, width') ∈ liveEntries before blocks) (different : other ≠ ptr) :
    ptr + width ≤ other ∨ other + width' ≤ ptr := by
  obtain ⟨pre, post, rfl, rfl⟩ := mem_allocated held
  simp only [liveEntries, allocated_append, allocated, if_true, List.mem_append, List.mem_cons, Prod.mk.injEq] at held'
  rcases held' with early | ⟨same, _⟩ | late
  · obtain ⟨front, back, rfl, rfl⟩ := mem_allocated early
    simp only [span_append, span_cons]
    omega
  · exact (different same).elim
  · obtain ⟨front, back, rfl, rfl⟩ := mem_allocated late
    omega

theorem unique {width' : Nat} (held : (ptr, width) ∈ liveEntries before blocks)
    (held' : (ptr, width') ∈ liveEntries before blocks) :
    width = width' := by
  obtain ⟨pre, post, rfl, rfl⟩ := mem_allocated held
  simp only [liveEntries, allocated_append, allocated, if_true, List.mem_append, List.mem_cons, Prod.mk.injEq] at held'
  rcases held' with early | ⟨_, same⟩ | late
  · obtain ⟨front, back, rfl, place⟩ := mem_allocated early
    simp only [span_append, span_cons] at place
    omega
  · exact same.symm
  · obtain ⟨front, back, rfl, place⟩ := mem_allocated late
    omega

theorem create (owned : Owned before blocks roles) (asked : size ≠ 0) (small : size + 15 < 2 ^ 64)
    (result : before.create size = .ok (ptr, after)) :
    (ptr = 0 ∧ after = before ∧ ∀ block ∈ blocks, ¬Fits (roundUp size) block) ∨
      ∃ blocks' width, Allocation before after blocks blocks' ptr width size ∧ Owned after blocks' roles := by
  obtain ⟨memory, made, rfl⟩ := create_ok result
  rcases owned.heap.create size with
    ⟨expected, full⟩ | ⟨pre, block, post, ptr', memory', _, given, rfl, fits, expected, valid, _, place, kept⟩
  · cases made.symm.trans expected
    exact Or.inl ⟨rfl, rfl, full asked⟩
  · cases made.symm.trans expected
    have added := allocated_taken (fsHeap before) (roundUp size) pre post fits.1
    simp only at place
    rw [← show ptr = fsHeap before + span pre + 40 from place] at added
    have wide : size ≤ taken (roundUp size) block := by
      have rounded := le_roundUp small
      have large := fits.2
      unfold taken
      split <;> omega
    refine Or.inr ⟨_, _, ⟨given, wide, added, kept, rfl⟩, valid.liveEntries, fun other role held => ?_⟩
    obtain ⟨width, member⟩ := owned.live other role held
    exact ⟨width, added.mem_iff.mpr (List.mem_cons_of_mem _ member)⟩

/-- An allocation always returns, if only with `NULL`. -/
theorem creates (owned : Owned before blocks roles) (size : Nat) :
    ∃ ptr after, before.create size = .ok (ptr, after) := by
  unfold FsState.create
  rcases owned.heap.create size with ⟨expected, _⟩ | ⟨_, _, _, _, _, _, _, _, _, expected, _⟩
  · rw [expected]
    exact ⟨_, _, rfl⟩
  · rw [expected]
    exact ⟨_, _, rfl⟩

private theorem held_live (held : (ptr, width) ∈ liveEntries before blocks) :
    ptr ∈ (liveEntries before blocks).map Prod.fst :=
  List.mem_map_of_mem held

/-- Freeing a live block takes its role away and leaves every other block alone. -/
theorem free (owned : Owned before blocks roles) (held : (ptr, width) ∈ liveEntries before blocks)
    (result : before.free ptr = .ok after) :
    ∃ blocks', Owned after blocks' (roles.drop ptr) ∧
      (liveEntries before blocks).Perm ((ptr, width) :: liveEntries after blocks') ∧
      KeepsPayloads before.memory after.memory (fsHeap after) blocks' ∧
        after = { before with memory := after.memory } := by
  obtain ⟨memory, freed, rfl⟩ := free_ok result
  obtain ⟨init, left, size, right, rest, memory', rfl, leftFree, rightFree, expected, valid, _, place, kept⟩ :=
    owned.heap.free (held_live held)
  cases freed.symm.trans expected
  have removed := allocated_release (fsHeap before) size _ init left right rest leftFree rightFree rfl
  rw [← show ptr = fsHeap before + span (init ++ left) + 40 from place] at removed
  have same : size = width := unique (removed.mem_iff.mpr List.mem_cons_self) held
  refine ⟨_, ⟨valid.liveEntries, fun other role used => ?_⟩, same ▸ removed, kept, rfl⟩
  simp only [Roles.drop, Function.update_apply] at used
  split at used
  next => cases used
  next different =>
    obtain ⟨width', member⟩ := owned.live other role used
    rcases List.mem_cons.mp (removed.mem_iff.mp member) with equal | survives
    · cases equal
      exact (different rfl).elim
    · exact ⟨width', survives⟩

theorem frees (owned : Owned before blocks roles) (held : (ptr, width) ∈ liveEntries before blocks) :
    ∃ after, before.free ptr = .ok after := by
  obtain ⟨_, _, _, _, _, memory, _, _, _, expected, _⟩ := owned.heap.free (held_live held)
  unfold FsState.free
  rw [expected]
  exact ⟨_, rfl⟩

/-- Writing into a live block keeps the heap and every other block. -/
theorem write (owned : Owned before blocks roles) (held : (ptr, width) ∈ liveEntries before blocks) {memory : Memory}
    (confined : Confined memory before.memory ptr width) :
    Owned { before with memory } blocks roles ∧
      ∀ other width', (other, width') ∈ liveEntries before blocks → other ≠ ptr →
        Agree memory before.memory other width' := by
  constructor
  · refine ⟨?_, owned.live⟩
    have extent := owned.heap.heap.extent
    obtain ⟨pre, post, rfl, rfl⟩ := mem_allocated held
    simp only [span_append, span_cons] at extent
    have within : Confined memory before.memory (before.kernelMemory + kernelMemoryOffsetHeap) kernelMemorySizeHeap :=
      confined.mono (by simp only [fsHeap]; omega) (by simp only [fsHeap]; omega)
    obtain ⟨start, total, _⟩ := record_confined within
    exact ⟨owned.heap.positive, owned.heap.room, start.trans owned.heap.start, total.trans owned.heap.total,
      owned.heap.heap.payload confined⟩
  · intro other width' held' different
    exact confined.agree (by rcases apart held held' different with before | after <;> omega)

/-- A block in use without a role may be given one. -/
theorem assign (owned : Owned before blocks roles) (held : (ptr, width) ∈ liveEntries before blocks) (role : Role) :
    Owned before blocks (roles.assign ptr role) := by
  refine ⟨owned.heap, fun other given used => ?_⟩
  simp only [Roles.assign, Function.update_apply] at used
  split at used
  next same =>
    subst same
    exact ⟨width, held⟩
  next => exact owned.live other given used

end Owned

namespace Allocation
variable {before after : FsState δ} {blocks blocks' : List Block} {roles : Roles} {ptr width size : Nat}

theorem held (made : Allocation before after blocks blocks' ptr width size) :
    (ptr, width) ∈ Proofs.liveEntries after blocks' :=
  made.liveEntries.mem_iff.mpr List.mem_cons_self

theorem survives (made : Allocation before after blocks blocks' ptr width size) {entry : Nat × Nat}
    (member : entry ∈ Proofs.liveEntries before blocks) : entry ∈ Proofs.liveEntries after blocks' :=
  made.liveEntries.mem_iff.mpr (List.mem_cons_of_mem _ member)

/-- The new block was not in use before. -/
theorem fresh (made : Allocation before after blocks blocks' ptr width size) (width' : Nat) :
    (ptr, width') ∉ Proofs.liveEntries before blocks := by
  intro member
  have distinct := (made.liveEntries.map Prod.fst).nodup_iff.mp allocated_nodup
  have again : ptr ∈ (Proofs.liveEntries before blocks).map Prod.fst := List.mem_map.mpr ⟨_, member, rfl⟩
  exact (List.nodup_cons.mp distinct).1 again

theorem free (made : Allocation before after blocks blocks' ptr width size) (owned : Owned before blocks roles) :
    roles ptr = none := by
  cases given : roles ptr with
  | none => rfl
  | some role =>
    obtain ⟨width', member⟩ := owned.live ptr role given
    exact (made.fresh width' member).elim

end Allocation

end Kernix.Proofs
