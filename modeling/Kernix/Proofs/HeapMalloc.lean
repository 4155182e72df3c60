import Kernix.Proofs.HeapMerge

/-! What `malloc` does to the list of blocks: which block the search settles on,
and what becomes of it. -/

namespace Kernix.Proofs
open ByteMemory HeapBlock

/-- A block that a request of `size` bytes may take. -/
def Fits (size : Nat) (block : Block) : Prop := block.used = false ∧ size ≤ block.size

instance (size : Nat) (block : Block) : Decidable (Fits size block) := by
  unfold Fits
  infer_instance

/-- The search of `findBestFit` over sizes instead of memory. -/
def searchFit (request address bestFit bestSize : Nat) : List Block → Nat
  | [] => bestFit
  | block :: rest =>
    if Fits request block ∧ block.size < bestSize then
      if block.size = request then address
      else searchFit request (address + 40 + block.size) address block.size rest
    else searchFit request (address + 40 + block.size) bestFit bestSize rest

theorem findBestFit_segment {memory : Memory} {address before : Nat} {blocks : List Block}
    (request fuel bestFit bestSize : Nat) (segment : Segment memory address before 0 blocks) (positive : 0 < address)
    (enough : blocks.length < fuel) :
    findBestFit memory request fuel (if blocks = [] then 0 else address) bestFit bestSize =
      some (searchFit request address bestFit bestSize blocks) := by
  induction blocks generalizing address before fuel bestFit bestSize with
  | nil =>
    obtain ⟨fuel, rfl⟩ : ∃ less, fuel = less + 1 := ⟨fuel - 1, by omega⟩
    simp [findBestFit, searchFit]
  | cons block rest ih =>
    obtain ⟨fuel, rfl⟩ : ∃ less, fuel = less + 1 := ⟨fuel - 1, by omega⟩
    obtain ⟨header, back⟩ := segment
    have continues := fun bestFit bestSize => ih fuel bestFit bestSize back (by omega)
      (by simp only [List.length_cons] at enough; omega)
    have idle : used memory address = 0 ↔ block.used = false := by
      rw [header.used]
      cases block.used <;> simp
    simp only [reduceCtorEq, if_false, findBestFit, searchFit, header.size, header.next, idle, Fits, and_assoc,
      if_neg (show address ≠ 0 by omega)]
    split
    · split
      · rfl
      · exact continues _ _
    · exact continues _ _

/-- The search keeps its candidate unless some block beats it; otherwise it ends
on the first block of minimal size among those that fit. -/
theorem searchFit_spec (request address bestFit bestSize : Nat) (blocks : List Block)
    (below : request < bestSize) :
    (searchFit request address bestFit bestSize blocks = bestFit ∧
      ∀ block ∈ blocks, Fits request block → bestSize ≤ block.size) ∨
    ∃ pre block post, blocks = pre ++ block :: post ∧
      searchFit request address bestFit bestSize blocks = address + span pre ∧
      Fits request block ∧ block.size < bestSize ∧
      (∀ other ∈ blocks, Fits request other → block.size ≤ other.size) ∧
      ∀ other ∈ pre, Fits request other → block.size < other.size := by
  induction blocks generalizing address bestFit bestSize with
  | nil => exact Or.inl ⟨rfl, by simp⟩
  | cons head rest ih =>
    simp only [searchFit]
    by_cases better : Fits request head ∧ head.size < bestSize
    · rw [if_pos better]
      by_cases exact : head.size = request
      · rw [if_pos exact]
        refine Or.inr ⟨[], head, rest, rfl, rfl, better.1, better.2, ?_, by simp⟩
        intro other _ fits
        rw [exact]
        exact fits.2
      · rw [if_neg exact]
        have larger : request < head.size := by have := better.1.2; omega
        rcases ih (address + 40 + head.size) address head.size larger with ⟨same, least⟩ | found
        · refine Or.inr ⟨[], head, rest, rfl, same, better.1, better.2, ?_, by simp⟩
          intro other member fits
          rcases List.mem_cons.mp member with rfl | member
          · exact Nat.le_refl _
          · exact least other member fits
        · obtain ⟨pre, block, post, rfl, place, fits, smaller, least, first⟩ := found
          refine Or.inr ⟨head :: pre, block, post, rfl, ?_, fits, by omega, ?_, ?_⟩
          · rw [place, span_cons]; omega
          · intro other member fits
            rcases List.mem_cons.mp member with rfl | member
            · omega
            · exact least other member fits
          · intro other member fits
            rcases List.mem_cons.mp member with rfl | member
            · exact smaller
            · exact first other member fits
    · rw [if_neg better]
      have worse : ∀ fits : Fits request head, bestSize ≤ head.size := by
        intro fits
        by_contra less
        exact better ⟨fits, by omega⟩
      rcases ih (address + 40 + head.size) bestFit bestSize below with ⟨same, least⟩ | found
      · refine Or.inl ⟨same, ?_⟩
        intro other member fits
        rcases List.mem_cons.mp member with rfl | member
        · exact worse fits
        · exact least other member fits
      · obtain ⟨pre, block, post, rfl, place, fits, smaller, least, first⟩ := found
        refine Or.inr ⟨head :: pre, block, post, rfl, ?_, fits, smaller, ?_, ?_⟩
        · rw [place, span_cons]; omega
        · intro other member fits
          rcases List.mem_cons.mp member with rfl | member
          · have := worse fits; omega
          · exact least other member fits
        · intro other member fits
          rcases List.mem_cons.mp member with rfl | member
          · have := worse fits; omega
          · exact first other member fits

theorem roundUp_eq (request : Nat) : roundUp request = u64 (request + 15) / 16 * 16 := by
  have bound := u64_lt (request + 15)
  have masked : roundUp request = u64 (request + 15) / 2 ^ 4 % 2 ^ 60 * 2 ^ 4 := and_block _ 60 4
  rw [masked]
  omega

theorem roundUp_le (request : Nat) : roundUp request + 16 ≤ 2 ^ 64 := by
  have bound := u64_lt (request + 15)
  rw [roundUp_eq]
  omega

/-- Rounding only loses bytes when the addition wraps. -/
theorem le_roundUp {request : Nat} (fits : request + 15 < 2 ^ 64) : request ≤ roundUp request := by
  rw [roundUp_eq, u64_eq fits]
  omega

/-- What a free block becomes when a rounded request is placed in it: cut in two
when another header and sixteen bytes are left over, taken whole otherwise. -/
def carve (request : Nat) (block : Block) : List Block :=
  if request + 56 ≤ block.size then [⟨request, true⟩, ⟨block.size - request - 40, false⟩]
  else [⟨block.size, true⟩]

theorem span_carve (request : Nat) (block : Block) : span (carve request block) = 40 + block.size := by
  unfold carve
  split <;> simp only [span_cons, span_nil] <;> omega

private theorem fresh_header (memory : Memory) (address size after before : Nat) (fits : size < 2 ^ 64)
    (forward : after < 2 ^ 64) (backward : before < 2 ^ 64) :
    Header (setPrev (setNext (setUsed (setSize (setMagic memory address blockMagic) address size) address 0)
      address after) address before) address ⟨size, false⟩ before after := by
  have width : blockMagic < 256 ^ 4 := by decide
  constructor
  · simp only [magic, setPrev, setNext, setUsed, setSize, setMagic]
    rw [load_store_apart _ (by omega), load_store_apart _ (by omega), load_store_apart _ (by omega),
      load_store_apart _ (by omega), load_store_fits _ width]
  · simp only [HeapBlock.size, setPrev, setNext, setUsed, setSize, setMagic]
    rw [load_store_apart _ (by omega), load_store_apart _ (by omega), load_store_apart _ (by omega),
      load_store_fits _ fits]
  · simp only [used, setPrev, setNext, setUsed, setSize, setMagic]
    rw [load_store_apart _ (by omega), load_store_apart _ (by omega), load_store_fits _ (by decide)]
    rfl
  · exact load_store_fits _ backward
  · simp only [next, setPrev, setNext, setUsed, setSize, setMagic]
    rw [load_store_apart _ (by omega), load_store_fits _ forward]

/-- Splitting puts a second header inside the payload of the free block and
links it in between the block and its successor. -/
theorem splitBlock_segment {memory : Memory} {address request : Nat} {pre post : List Block} {block : Block}
    (segment : Segment memory address 0 0 (pre ++ block :: post)) (positive : 0 < address)
    (room : address + span (pre ++ block :: post) < 2 ^ 64) (large : request + 56 ≤ block.size) :
    let after := splitBlock memory (address + span pre) request
    Segment after address 0 0
      (pre ++ ⟨request, block.used⟩ :: ⟨block.size - request - 40, false⟩ :: post) ∧
      Confined after memory address (span (pre ++ block :: post)) ∧
      AroundBlock after memory (address + span pre) block.size post := by
  simp only [span_append, span_cons] at room
  obtain ⟨front, header, back⟩ := (segment_split pre block post).mp segment
  generalize place : address + span pre = here at *
  generalize link : (if post = [] then 0 else here + 40 + block.size) = after at *
  have bounded : after < 2 ^ 64 := by
    rw [← link]
    split
    · decide
    · omega
  let rest : Block := ⟨block.size - request - 40, false⟩
  have restSize : rest.size = block.size - request - 40 := rfl
  have newBlock : u64 (here + headerSize + request) = here + 40 + request :=
    u64_eq (by simp only [headerSize]; omega)
  -- The five stores that build the new header stay inside the old payload.
  let marked := setMagic memory (here + 40 + request) blockMagic
  let sized := setSize marked (here + 40 + request) rest.size
  let cleared := setUsed sized (here + 40 + request) 0
  let chained := setNext cleared (here + 40 + request) after
  let built := setPrev chained (here + 40 + request) here
  have markedIn : Confined marked memory (here + 40 + request) 40 := setMagic_confined _ _ _
  have clearedIn : Confined cleared memory (here + 40 + request) 40 :=
    (setUsed_confined _ _ _).trans ((setSize_confined _ _ _).trans markedIn)
  have builtIn : Confined built memory (here + 40 + request) 40 :=
    (setPrev_confined _ _ _).trans ((setNext_confined _ _ _).trans clearedIn)
  have created : Header built (here + 40 + request) rest here after :=
    fresh_header memory _ _ _ _ (by omega) bounded (by omega)
  have width : u64Sub (u64Sub (HeapBlock.size marked here) request) headerSize = rest.size := by
    have payload : u64Sub block.size request = block.size - request := u64Sub_eq (by omega) (by omega)
    rw [(header.agree (markedIn.agree (by omega))).size, payload]
    exact u64Sub_eq (by omega) (by simp only [headerSize]; omega)
  have headerBuilt := header.agree (builtIn.agree (by omega))
  have backBuilt : Segment built (here + 40 + block.size) here 0 post := back.agree (builtIn.agree (by omega))
  obtain ⟨backLinked, linkedIn, linkedNear⟩ := backBuilt.relink (by omega) (show here + 40 + request < 2 ^ 64 by omega)
  rw [link] at backLinked linkedIn linkedNear
  generalize redirected : (if after ≠ 0 then setPrev built after (here + 40 + request) else built) = linked
    at backLinked linkedIn linkedNear
  let shrunk := setSize linked here request
  let final := setNext shrunk here (here + 40 + request)
  have finalIn : Confined final linked here 40 := (setNext_confined _ _ _).trans (setSize_confined _ _ _)
  have unfolded : splitBlock memory here request = final := by
    simp only [splitBlock, newBlock]
    rw [width, (header.agree (clearedIn.agree (by omega))).next, headerBuilt.next, redirected]
  have headerFinal : Header final here ⟨request, block.used⟩ (lastAddress address 0 pre) (here + 40 + request) :=
    ((headerBuilt.agree (linkedIn.agree (by omega))).setSize (by omega)).setNext (by omega)
  have createdFinal : Header final (here + 40 + request) rest here after :=
    (created.agree (linkedIn.agree (by omega))).agree (finalIn.agree (by omega))
  have far : here + 40 + request + 40 + rest.size = here + 40 + block.size := by omega
  have frontFinal : Segment final address 0 here pre :=
    ((front.agree (builtIn.agree (by omega))).agree (linkedIn.agree (by omega))).agree (finalIn.agree (by omega))
  have backFinal : Segment final (here + 40 + block.size) (here + 40 + request) 0 post :=
    backLinked.agree (finalIn.agree (by omega))
  simp only [unfolded]
  refine ⟨(segment_split pre _ (rest :: post)).mpr ⟨?_, ?_, ?_, ?_⟩, ?_, ?_⟩
  · rwa [place]
  · rw [place]; exact headerFinal
  · rw [place, far, link]; exact createdFinal
  · rw [place, far]; exact backFinal
  · simp only [span_append, span_cons]
    exact (finalIn.mono (by omega) (by omega)).trans
      ((linkedIn.mono (by omega) (by omega)).trans (builtIn.mono (by omega) (by omega)))
  · have linkedAround : AroundBlock linked built here block.size post :=
      fun position _ link => linkedNear position (by omega)
    exact (AroundBlock.of_confined (finalIn.mono (by omega) (by omega))).trans
      (linkedAround.trans (AroundBlock.of_confined (builtIn.mono (by omega) (by omega))))

/-- `malloc` on a heap of any shape. It fails exactly when nothing fits, and
otherwise carves the first smallest fitting block; no other block moves. -/
theorem malloc_segment {memory : Memory} {address request : Nat} {blocks : List Block}
    (segment : Segment memory address 0 0 blocks) (nonempty : blocks ≠ []) (positive : 0 < address)
    (room : address + span blocks < 2 ^ 64) (small : span blocks + 8 < 2 ^ 64) (asked : request ≠ 0) :
    ((∀ block ∈ blocks, ¬Fits (roundUp request) block) ∧ malloc memory address request = some (0, memory)) ∨
    ∃ pre block post after, blocks = pre ++ block :: post ∧ Fits (roundUp request) block ∧
      (∀ other ∈ blocks, Fits (roundUp request) other → block.size ≤ other.size) ∧
      (∀ other ∈ pre, Fits (roundUp request) other → block.size < other.size) ∧
      malloc memory address request = some (address + span pre + 40, after) ∧
      Segment after address 0 0 (pre ++ carve (roundUp request) block ++ post) ∧
      Confined after memory address (span blocks) ∧ AroundBlock after memory (address + span pre) block.size post := by
  have rounded := roundUp_le request
  have whole : roundUp request % 16 = 0 := by
    rw [roundUp_eq]
    omega
  have search := findBestFit_segment (roundUp request) addressSpace 0 sizeMax segment positive
    (length_lt_addressSpace positive room)
  rw [if_neg nonempty] at search
  have result : malloc memory address request =
      if searchFit (roundUp request) address 0 sizeMax blocks = 0 then some (0, memory)
      else some (u64 (searchFit (roundUp request) address 0 sizeMax blocks + headerSize),
        setUsed (if u64 (roundUp request + headerSize + 16) ≤
            size memory (searchFit (roundUp request) address 0 sizeMax blocks) then
          splitBlock memory (searchFit (roundUp request) address 0 sizeMax blocks) (roundUp request)
          else memory) (searchFit (roundUp request) address 0 sizeMax blocks) 1) := by
    simp only [malloc]
    rw [if_neg (by omega), search]
  rcases searchFit_spec (roundUp request) address 0 sizeMax blocks (by unfold sizeMax; omega) with
    ⟨missing, least⟩ | ⟨pre, block, post, rfl, place, fits, _, least, first⟩
  · refine Or.inl ⟨?_, by rw [result, if_pos missing]⟩
    intro block member fits
    have large := least block member fits
    obtain ⟨pre, post, rfl⟩ := List.append_of_mem member
    simp only [span_append, span_cons, sizeMax] at room large
    omega
  · obtain ⟨_, header, _⟩ := (segment_split pre block post).mp segment
    simp only [span_append, span_cons] at room small
    have threshold : u64 (roundUp request + headerSize + 16) = roundUp request + 56 := by
      have := fits.2
      exact u64_eq (by simp only [headerSize]; omega)
    rw [place, if_neg (by omega), threshold, header.size,
      u64_eq (by simp only [headerSize]; omega)] at result
    refine Or.inr ⟨pre, block, post, _, rfl, fits, least, first, result, ?_⟩
    unfold carve
    split
    next large =>
      obtain ⟨splitted, inside, near⟩ :=
        splitBlock_segment segment positive (by simp only [span_append, span_cons]; omega) large
      refine ⟨?_, (setUsed_confined _ _ _ |>.mono (by omega) (by simp only [span_append, span_cons]; omega)).trans inside,
        (AroundBlock.of_confined (setUsed_confined _ _ _ |>.mono (by omega) (by omega))).trans near⟩
      simpa using splitted.setUsed true
    next whole =>
      refine ⟨?_, setUsed_confined _ _ _ |>.mono (by omega) (by simp only [span_append, span_cons]; omega),
        AroundBlock.of_confined (setUsed_confined _ _ _ |>.mono (by omega) (by omega))⟩
      simpa using segment.setUsed true

end Kernix.Proofs
