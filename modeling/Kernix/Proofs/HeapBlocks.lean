import Kernix.Memory.Heap
import Mathlib.Data.List.Basic

/-! The heap as a list of sizes. Addresses are not stored: a block starts where
its predecessor's payload ends, 40 bytes of header further on, so a list can only
describe a tiling. `Segment` says that
memory holds the headers of such a list, with both links of every block. -/

namespace Kernix.Proofs
open ByteMemory HeapBlock

/-- A heap block without its address. -/
structure Block where
  size : Nat
  used : Bool
  deriving DecidableEq, Repr

/-- The bytes that a run of blocks covers, headers included. -/
def span : List Block → Nat
  | [] => 0
  | block :: rest => 40 + block.size + span rest

@[simp] theorem span_nil : span [] = 0 := rfl

@[simp] theorem span_cons (block : Block) (rest : List Block) :
    span (block :: rest) = 40 + block.size + span rest := rfl

@[simp] theorem span_append (first second : List Block) : span (first ++ second) = span first + span second := by
  induction first with
  | nil => simp
  | cons block rest ih => simp only [List.cons_append, span_cons, ih]; omega

/-- Every block costs at least its header, which bounds the length of a list. -/
theorem length_le_span (blocks : List Block) : 40 * blocks.length ≤ span blocks := by
  induction blocks with
  | nil => simp
  | cons block rest ih => simp only [List.length_cons, span_cons]; omega

/-- The five fields of one header. -/
structure Header (memory : Memory) (address : Nat) (block : Block) (before after : Nat) : Prop where
  magic : HeapBlock.magic memory address = blockMagic
  size : HeapBlock.size memory address = block.size
  used : HeapBlock.used memory address = block.used.toNat
  prev : HeapBlock.prev memory address = before
  next : HeapBlock.next memory address = after

/-- Consecutive headers from `address` on: `before` is the back link of the
first block and `stop` the forward link of the last one. -/
def Segment (memory : Memory) (address before stop : Nat) : List Block → Prop
  | [] => True
  | block :: rest =>
    Header memory address block before (if rest = [] then stop else address + 40 + block.size) ∧
      Segment memory (address + 40 + block.size) address stop rest

/-- The address of the last block, or the back link in front of an empty run. -/
def lastAddress (address before : Nat) : List Block → Nat
  | [] => before
  | block :: rest => lastAddress (address + 40 + block.size) address rest

theorem lastAddress_append (address before : Nat) (blocks : List Block) (block : Block) :
    lastAddress address before (blocks ++ [block]) = address + span blocks := by
  induction blocks generalizing address before with
  | nil => simp [lastAddress]
  | cons head rest ih =>
    simp only [List.cons_append, lastAddress, span_cons, ih]
    omega

/-- A segment around one of its blocks: what precedes it, its header, what follows. -/
theorem segment_split {memory : Memory} {address before stop : Nat} (pre : List Block) (block : Block)
    (post : List Block) :
    Segment memory address before stop (pre ++ block :: post) ↔
      Segment memory address before (address + span pre) pre ∧
      Header memory (address + span pre) block (lastAddress address before pre)
        (if post = [] then stop else address + span pre + 40 + block.size) ∧
      Segment memory (address + span pre + 40 + block.size) (address + span pre) stop post := by
  induction pre generalizing address before with
  | nil => simp [Segment, lastAddress]
  | cons head rest ih =>
    have shift : address + 40 + head.size + span rest = address + span (head :: rest) := by
      simp only [span_cons]; omega
    have link : (if rest = [] then address + span (head :: rest) else address + 40 + head.size) =
        address + 40 + head.size := by
      by_cases empty : rest = []
      · simp only [empty, if_true, span_cons, span_nil]; omega
      · simp [empty]
    simp only [List.cons_append, Segment, ih, shift, lastAddress, link]
    simp [and_assoc]

theorem Header.agree {first second : Memory} {address before after : Nat} {block : Block}
    (header : Header first address block before after) (same : Agree second first address 40) :
    Header second address block before after := by
  constructor
  · exact (load_agree (same.mono (by omega) (by omega))).trans header.magic
  · exact (load_agree (same.mono (by omega) (by omega))).trans header.size
  · exact (load_agree (same.mono (by omega) (by omega))).trans header.used
  · exact (load_agree (same.mono (by omega) (by omega))).trans header.prev
  · exact (load_agree (same.mono (by omega) (by omega))).trans header.next

theorem Segment.agree {first second : Memory} {address before stop : Nat} {blocks : List Block}
    (segment : Segment first address before stop blocks) (same : Agree second first address (span blocks)) :
    Segment second address before stop blocks := by
  induction blocks generalizing address before with
  | nil => trivial
  | cons block rest ih =>
    simp only [span_cons] at same
    exact ⟨segment.1.agree (same.mono (by omega) (by omega)),
      ih segment.2 (same.mono (by omega) (by omega))⟩

/-- The headers say which blocks there are. -/
theorem Segment.unique {memory : Memory} {address before before' stop stop' : Nat} {blocks blocks' : List Block}
    (first : Segment memory address before stop blocks) (second : Segment memory address before' stop' blocks')
    (same : span blocks = span blocks') : blocks = blocks' := by
  induction blocks generalizing address before before' blocks' with
  | nil =>
    cases blocks' with
    | nil => rfl
    | cons block rest =>
      simp only [span_nil, span_cons] at same
      omega
  | cons block rest ih =>
    cases blocks' with
    | nil =>
      simp only [span_nil, span_cons] at same
      omega
    | cons block' rest' =>
      have size : block.size = block'.size := first.1.size.symm.trans second.1.size
      have used : block.used = block'.used := by
        have flags := first.1.used.symm.trans second.1.used
        revert flags
        cases block.used <;> cases block'.used <;> simp
      have tails := second.2
      rw [← size] at tails
      simp only [span_cons] at same
      rw [ih first.2 tails (by omega)]
      congr 1
      cases block
      cases block'
      cases size
      cases used
      rfl

/-! Each setter rewrites one field and leaves the others of its header alone. -/

theorem Header.setSize {memory : Memory} {address before after value : Nat} {block : Block}
    (header : Header memory address block before after) (fits : value < 2 ^ 64) :
    Header (HeapBlock.setSize memory address value) address ⟨value, block.used⟩ before after := by
  constructor
  · exact (load_store_apart memory (by omega)).trans header.magic
  · exact load_store_fits memory fits
  · exact (load_store_apart memory (by omega)).trans header.used
  · exact (load_store_apart memory (by omega)).trans header.prev
  · exact (load_store_apart memory (by omega)).trans header.next

theorem Header.setNext {memory : Memory} {address before after value : Nat} {block : Block}
    (header : Header memory address block before after) (fits : value < 2 ^ 64) :
    Header (HeapBlock.setNext memory address value) address block before value := by
  constructor
  · exact (load_store_apart memory (by omega)).trans header.magic
  · exact (load_store_apart memory (by omega)).trans header.size
  · exact (load_store_apart memory (by omega)).trans header.used
  · exact (load_store_apart memory (by omega)).trans header.prev
  · exact load_store_fits memory fits

theorem Header.setPrev {memory : Memory} {address before after value : Nat} {block : Block}
    (header : Header memory address block before after) (fits : value < 2 ^ 64) :
    Header (HeapBlock.setPrev memory address value) address block value after := by
  constructor
  · exact (load_store_apart memory (by omega)).trans header.magic
  · exact (load_store_apart memory (by omega)).trans header.size
  · exact (load_store_apart memory (by omega)).trans header.used
  · exact load_store_fits memory fits
  · exact (load_store_apart memory (by omega)).trans header.next

theorem Header.setUsed {memory : Memory} {address before after : Nat} {block : Block}
    (header : Header memory address block before after) (value : Bool) :
    Header (HeapBlock.setUsed memory address value.toNat) address ⟨block.size, value⟩ before after := by
  constructor
  · exact (load_store_apart memory (by omega)).trans header.magic
  · exact (load_store_apart memory (by omega)).trans header.size
  · exact load_store_fits memory (by cases value <;> decide)
  · exact (load_store_apart memory (by omega)).trans header.prev
  · exact (load_store_apart memory (by omega)).trans header.next

theorem setMagic_confined (memory : Memory) (address value : Nat) :
    Confined (setMagic memory address value) memory address 40 :=
  (store_confined memory address 4 value).mono (by omega) (by omega)

theorem setSize_confined (memory : Memory) (address value : Nat) :
    Confined (setSize memory address value) memory address 40 :=
  (store_confined memory (address + 8) 8 value).mono (by omega) (by omega)

theorem setNext_confined (memory : Memory) (address value : Nat) :
    Confined (setNext memory address value) memory address 40 :=
  (store_confined memory (address + 16) 8 value).mono (by omega) (by omega)

theorem setPrev_confined (memory : Memory) (address value : Nat) :
    Confined (setPrev memory address value) memory address 40 :=
  (store_confined memory (address + 24) 8 value).mono (by omega) (by omega)

theorem setUsed_confined (memory : Memory) (address value : Nat) :
    Confined (setUsed memory address value) memory address 40 :=
  (store_confined memory (address + 32) 1 value).mono (by omega) (by omega)

/-- Redirecting the back link of the first block. -/
theorem Segment.setPrev {memory : Memory} {address before stop value : Nat} {block : Block} {rest : List Block}
    (segment : Segment memory address before stop (block :: rest)) (fits : value < 2 ^ 64) :
    Segment (HeapBlock.setPrev memory address value) address value stop (block :: rest) :=
  ⟨segment.1.setPrev fits, segment.2.agree ((setPrev_confined memory address value).agree (by omega))⟩

/-- Two memories agree outside of one block and of the back link of the block behind it. -/
def AroundBlock (after before : Memory) (address size : Nat) (post : List Block) : Prop :=
  ∀ position, position < address ∨ address + 40 + size ≤ position →
    post = [] ∨ position < address + 40 + size + 24 ∨ address + 40 + size + 32 ≤ position →
    after position = before position

theorem AroundBlock.confined {after before : Memory} {address size : Nat} {post : List Block}
    (around : AroundBlock after before address size post) : Confined after before address (size + 80) := by
  intro position outside
  exact around position (by omega) (.inr (by omega))

/-- A change inside of the block. -/
theorem AroundBlock.of_confined {after before : Memory} {address size : Nat} {post : List Block}
    (confined : Confined after before address (40 + size)) : AroundBlock after before address size post := by
  intro position outside _
  exact confined position (by omega)

theorem AroundBlock.trans {first second third : Memory} {address size : Nat} {post : List Block}
    (left : AroundBlock first second address size post) (right : AroundBlock second third address size post) :
    AroundBlock first third address size post :=
  fun position outside link => (left position outside link).trans (right position outside link)

/-- Redirecting the back link behind a run that may be empty: its end is
recognised by the `NULL` forward link in front of it. -/
theorem Segment.relink {memory : Memory} {address before value : Nat} {blocks : List Block}
    (segment : Segment memory address before 0 blocks) (positive : 0 < address) (fits : value < 2 ^ 64) :
    let link := if blocks = [] then 0 else address
    let after := if link ≠ 0 then HeapBlock.setPrev memory link value else memory
    Segment after address value 0 blocks ∧ Confined after memory address (span blocks) ∧
      ∀ position, blocks = [] ∨ position < address + 24 ∨ address + 32 ≤ position → after position = memory position := by
  cases blocks with
  | nil => exact ⟨trivial, .refl _ _ _, fun _ _ => rfl⟩
  | cons block rest =>
    simp only [reduceCtorEq, if_false]
    rw [if_pos (by omega)]
    refine ⟨segment.setPrev fits, (setPrev_confined memory address value).mono (Nat.le_refl _)
      (by simp only [span_cons]; omega), ?_⟩
    rintro position (none | outside)
    · cases none
    · exact store_confined memory (address + 24) 8 value position (by omega)

/-- Marking one block used or free changes nothing else in its segment. -/
theorem Segment.setUsed {memory : Memory} {address before stop : Nat} {pre post : List Block} {block : Block}
    (segment : Segment memory address before stop (pre ++ block :: post)) (value : Bool) :
    Segment (HeapBlock.setUsed memory (address + span pre) value.toNat) address before stop
      (pre ++ ⟨block.size, value⟩ :: post) := by
  obtain ⟨front, header, back⟩ := (segment_split pre block post).mp segment
  have confined := setUsed_confined memory (address + span pre) value.toNat
  exact (segment_split pre _ post).mpr
    ⟨front.agree (confined.agree (by omega)), header.setUsed value, back.agree (confined.agree (by omega))⟩

end Kernix.Proofs
