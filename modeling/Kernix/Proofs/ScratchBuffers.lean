import Kernix.Fs.Ext4
import Kernix.Proofs.HeapAccounting

/-! Buffers that a call takes from the heap and gives back. The heap is then divided
as it was, so a heap with room for a buffer has room for as many of them as are
asked for one after the other. -/

namespace Kernix.Proofs
open ByteMemory

variable {δ : Type}

/-- A valid heap of the file systems, divided into `blocks`. -/
def Divided (fs : FsState δ) (blocks : List Block) : Prop :=
  ∃ live, AccountValid ⟨fs.memory, fs.kernelMemory, live⟩ blocks

private theorem split_at {pre pre' post post' : List Block} {block block' : Block} (place : span pre = span pre')
    (same : pre ++ block :: post = pre' ++ block' :: post') : pre = pre' ∧ block = block' ∧ post = post' := by
  induction pre generalizing pre' with
  | nil =>
    cases pre' with
    | nil =>
      simp only [List.nil_append, List.cons.injEq] at same
      exact ⟨rfl, same⟩
    | cons => simp only [span_nil, span_cons] at place; omega
  | cons head rest ih =>
    cases pre' with
    | nil => simp only [span_nil, span_cons] at place; omega
    | cons head' rest' =>
      simp only [List.cons_append, List.cons.injEq] at same
      obtain ⟨rfl, same⟩ := same
      simp only [span_cons, Nat.add_left_cancel_iff] at place
      obtain ⟨rfl, equal⟩ := ih place same
      exact ⟨rfl, equal⟩

/-- No free block lies in front of a free block. -/
private theorem coalesced_before {init left post : List Block} {block : Block}
    (coalesced : Coalesced (init ++ left ++ block :: post)) (free : block.used = false)
    (leftFree : ∀ other ∈ left, other.used = false) : left = [] := by
  rcases List.eq_nil_or_concat left with none | ⟨front, last, rfl⟩
  · exact none
  · have joined := (List.isChain_append.mp coalesced).2.2 last (by simp) block (by simp)
    rw [free, leftFree last (by simp)] at joined
    simp at joined

/-- No free block lies behind a free block. -/
private theorem coalesced_behind {init right post : List Block} {block : Block}
    (coalesced : Coalesced (init ++ block :: (right ++ post))) (free : block.used = false)
    (rightFree : ∀ other ∈ right, other.used = false) : right = [] := by
  cases right with
  | nil => rfl
  | cons head rest =>
    have joined := (List.isChain_append.mp coalesced).2.1
    simp only [List.cons_append, List.isChain_cons_cons, free, rightFree head List.mem_cons_self] at joined
    simp at joined

/-- Freeing what was just carved off puts the heap together again as it was. -/
private theorem release_carve {pre post init left right rest : List Block} {block : Block} {request size : Nat}
    (coalesced : Coalesced (pre ++ block :: post)) (free : block.used = false)
    (same : pre ++ carve request block ++ post = init ++ left ++ ⟨size, true⟩ :: (right ++ rest))
    (place : span pre = span (init ++ left)) (leftFree : ∀ other ∈ left, other.used = false)
    (rightFree : ∀ other ∈ right, other.used = false)
    (merged : Coalesced (init ++ ⟨span left + size + span right, false⟩ :: rest)) :
    init ++ ⟨span left + size + span right, false⟩ :: rest = pre ++ block :: post := by
  obtain ⟨width, used⟩ := block
  dsimp only at free
  subst free
  unfold carve at same
  split at same
  next splits =>
    simp only [List.append_assoc, List.cons_append, List.nil_append] at same
    rw [← List.append_assoc] at same
    obtain ⟨rfl, sized, behind⟩ := split_at place same
    have none := coalesced_before coalesced rfl leftFree
    subst none
    have exact := (Block.mk.inj sized).1
    cases right with
    | nil =>
      rw [List.nil_append] at behind
      subst behind
      have joined := (List.isChain_append.mp merged).2.1
      simp at joined
    | cons head right =>
      rw [List.cons_append] at behind
      obtain ⟨rfl, rfl⟩ := List.cons.inj behind
      have none := coalesced_behind coalesced rfl fun other member => rightFree other (List.mem_cons_of_mem _ member)
      subst none
      simp only [List.append_nil, span_nil, span_cons, List.nil_append]
      dsimp only at splits
      congr 3
      omega
  next =>
    simp only [List.append_assoc, List.cons_append, List.nil_append] at same
    rw [← List.append_assoc] at same
    obtain ⟨rfl, sized, rfl⟩ := split_at place same
    have none := coalesced_before coalesced rfl leftFree
    subst none
    have none := coalesced_behind coalesced rfl rightFree
    subst none
    have exact := (Block.mk.inj sized).1
    simp only [List.append_nil, span_nil, List.nil_append]
    congr 3
    omega

/-- A buffer that is given, and what the memory is then and when it is freed. -/
structure Scratch (fs : FsState δ) (size ptr : Nat) (memory memory' : Memory) : Prop where
  allocated : fs.alloc size = .ok (ptr, { fs with memory })
  given : ptr ≠ 0
  released : FsState.free { fs with memory } ptr = .ok { fs with memory := memory' }

private theorem one_object {size : Nat} (small : size < 2 ^ 32) : u64 (1 * size) = size := by
  rw [Nat.one_mul]
  exact u64_eq (small.trans (by decide))

/-- A buffer that was given is freed, and the heap is divided as before. -/
theorem Divided.frees {fs held : FsState δ} {blocks : List Block} {size ptr : Nat} (divided : Divided fs blocks)
    (small : size < 2 ^ 32) (allocated : fs.alloc size = .ok (ptr, held)) (given : ptr ≠ 0) :
    ∃ memory memory', Scratch fs size ptr memory memory' ∧ Divided { fs with memory := memory' } blocks := by
  obtain ⟨live, valid⟩ := divided
  have total := one_object small
  have made := allocated
  unfold FsState.alloc at made
  rcases valid.alloc size 1 fun block _ fits => by
      rw [total] at fits ⊢
      exact (le_roundUp (by omega)).trans fits.2 with
    ⟨result, _⟩ | ⟨pre, block, post, ptr', memory, _, _, rfl, fits, result, held', _, place, _⟩
  · rw [result] at made
    cases made
    exact (given rfl).elim
  · rw [result] at made
    cases made
    obtain ⟨init, left, width, right, rest, memory', same, leftFree, rightFree, freed, valid', _, place', _⟩ :=
      held'.free List.mem_cons_self
    refine ⟨memory, memory', ⟨allocated, given, ?_⟩, live, ?_⟩
    · unfold FsState.free
      dsimp only at freed ⊢
      rw [freed]
    · rw [List.erase_cons_head, release_carve valid.heap.coalesced fits.1 same (by dsimp only at place place'; omega)
        leftFree rightFree valid'.heap.coalesced] at valid'
      exact valid'

/-- A call for a buffer returns, and it only fails when nothing fits; the heap is as before then. -/
theorem Divided.allocs {fs : FsState δ} {blocks : List Block} {size : Nat} (divided : Divided fs blocks)
    (small : size < 2 ^ 32) :
    ∃ ptr held, fs.alloc size = .ok (ptr, held) ∧
      (ptr = 0 → Divided held blocks ∧ (0 < size → ∀ block ∈ blocks, ¬Fits (roundUp size) block)) := by
  obtain ⟨live, valid⟩ := divided
  have total := one_object small
  unfold FsState.alloc
  rcases valid.alloc size 1 fun block _ fits => by
      rw [total] at fits ⊢
      exact (le_roundUp (by omega)).trans fits.2 with
    ⟨result, full⟩ | ⟨pre, block, post, ptr, memory, _, given, rfl, fits, result, _⟩
  · rw [total] at full
    rw [result]
    exact ⟨0, _, rfl, fun _ => ⟨⟨live, valid⟩, fun asked => full asked.ne'⟩⟩
  · rw [result]
    exact ⟨ptr, _, rfl, fun none => (given none).elim⟩

/-- A buffer that fits is given. -/
theorem Divided.scratch {fs : FsState δ} {blocks : List Block} {size : Nat} (divided : Divided fs blocks)
    (asked : 0 < size)
    (small : size < 2 ^ 32) (room : ∃ block ∈ blocks, Fits (roundUp size) block) :
    ∃ ptr memory memory', Scratch fs size ptr memory memory' ∧ Divided { fs with memory := memory' } blocks := by
  obtain ⟨ptr, held, allocated, full⟩ := divided.allocs small
  have given : ptr ≠ 0 := by
    intro none
    obtain ⟨block, member, fits⟩ := room
    exact (full none).2 asked block member fits
  exact ⟨ptr, divided.frees small allocated given⟩

/-- The heap as `_start` hands it over: one free block. -/
theorem divided_fresh : ∃ memory, ∀ fs : FsState δ,
    Divided { fs with memory, kernelMemory := heapStart } [⟨heapTotal, false⟩] := by
  obtain ⟨memory, result, _⟩ := kernelMemoryInit_spec (fun _ => 0)
    (show 0 < heapStart by decide) (show headerSize ≤ heapSize by decide) (show heapStart + heapSize < 2 ^ 64 by decide)
  have starts : AccountInitial heapStart ⟨memory, heapStart, []⟩ := ⟨_, _, result, rfl⟩
  exact ⟨memory, fun fs => ⟨[], (accountInitial_valid (by decide) starts).1⟩⟩

end Kernix.Proofs
