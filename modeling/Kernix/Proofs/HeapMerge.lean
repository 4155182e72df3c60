import Kernix.Proofs.HeapBlocks
import Mathlib.Data.List.Induction

/-! What `free` does to the list of blocks. One turn of either merge loop joins
two neighbours; the loops repeat it for every free block on that side. -/

namespace Kernix.Proofs
open ByteMemory HeapBlock

/-- Joining two neighbours gives one block over the bytes of both, with every
link around it repaired. Only the two and the header behind them are touched. -/
theorem absorb_segment {memory : Memory} {address before : Nat} {pre post : List Block} {left right : Block}
    (segment : Segment memory address before 0 (pre ++ left :: right :: post))
    (positive : 0 < address) (room : address + span (pre ++ left :: right :: post) < 2 ^ 64) :
    let after := absorb memory (address + span pre) (address + span pre + 40 + left.size)
    Segment after address before 0 (pre ++ ⟨left.size + 40 + right.size, left.used⟩ :: post) ∧
      Confined after memory address (span (pre ++ left :: right :: post)) ∧
      Confined after memory (address + span pre) (left.size + right.size + 120) := by
  simp only [span_append, span_cons] at room
  obtain ⟨front, header, second, back⟩ := (segment_split pre left (right :: post)).mp segment
  generalize place : address + span pre = here at *
  simp only [reduceCtorEq, if_false] at header
  let joined : Block := ⟨left.size + 40 + right.size, left.used⟩
  let grown := setSize memory here joined.size
  have total : u64 (size memory here + headerSize + size memory (here + 40 + left.size)) = joined.size := by
    rw [header.size, second.size]
    exact u64_eq (by simp only [headerSize]; omega)
  have outside : Confined grown memory here 40 := setSize_confined _ _ _
  have secondGrown := second.agree (outside.agree (by omega))
  let linked := setNext grown here (next grown (here + 40 + left.size))
  have kept : Confined linked memory here 40 := (setNext_confined _ _ _).trans outside
  have target : next grown (here + 40 + left.size) =
      if post = [] then 0 else here + 40 + joined.size := by
    rw [secondGrown.next]
    split <;> simp only [joined]; omega
  have bounded : (if post = [] then 0 else here + 40 + joined.size) < 2 ^ 64 := by
    cases post with
    | nil => simp
    | cons block rest => simp only [reduceCtorEq, if_false, joined]; simp only [span_cons] at room; omega
  have headerLinked : Header linked here joined (lastAddress address before pre)
      (if post = [] then 0 else here + 40 + joined.size) := by
    simp only [linked, target]
    exact (header.setSize (by simp only [joined]; omega)).setNext bounded
  have unfolded : absorb memory here (here + 40 + left.size) =
      if next linked here ≠ 0 then
        if magic linked (next linked here) = blockMagic then setPrev linked (next linked here) here else linked
      else linked := by
    simp only [absorb, total]
    rfl
  have far : here + 40 + left.size + 40 + right.size = here + 40 + joined.size := by simp only [joined]; omega
  have frontLinked : Segment linked address before here pre := front.agree (kept.agree (by omega))
  have backLinked : Segment linked (here + 40 + joined.size) (here + 40 + left.size) 0 post := by
    rw [← far]
    exact back.agree (kept.agree (by omega))
  rw [unfolded, headerLinked.next]
  cases post with
  | nil =>
    simp only [if_true, ne_eq, not_true, if_false]
    refine ⟨(segment_split pre joined []).mpr ⟨place ▸ frontLinked, place ▸ headerLinked, trivial⟩, ?_, ?_⟩
    · exact kept.mono (by omega) (by simp only [span_append, span_cons]; omega)
    · exact kept.mono (by omega) (by omega)
  | cons block rest =>
    simp only [reduceCtorEq, if_false] at headerLinked backLinked ⊢
    rw [if_pos (by omega), if_pos backLinked.1.magic]
    have beyond : Confined (setPrev linked (here + 40 + joined.size) here) linked (here + 40 + joined.size) 40 :=
      setPrev_confined _ _ _
    have width : joined.size = left.size + 40 + right.size := rfl
    refine ⟨(segment_split pre joined (block :: rest)).mpr ⟨?_, ?_, ?_⟩, ?_, ?_⟩
    · rw [place]; exact frontLinked.agree (beyond.agree (by omega))
    · rw [place]; simpa using headerLinked.agree (beyond.agree (by omega))
    · rw [place]; exact backLinked.setPrev (by omega)
    · simp only [span_append, span_cons]
      exact (beyond.mono (by omega) (by omega)).trans (kept.mono (by omega) (by omega))
    · exact (beyond.mono (by omega) (by omega)).trans (kept.mono (by omega) (by omega))

private theorem mergeable_iff {memory : Memory} {address before after : Nat} {block : Block}
    (header : Header memory address block before after) (positive : 0 < address) :
    Mergeable memory address ↔ block.used = false := by
  unfold Mergeable
  rw [header.used, header.magic]
  cases block.used <;> simp
  omega

/-- The forward loop joins exactly the free blocks that follow, up to the next
block in use or the end of the heap. -/
theorem mergeForward_segment {memory : Memory} {address before : Nat} {pre post : List Block}
    {block : Block} (fuel ret : Nat) (segment : Segment memory address before 0 (pre ++ block :: post))
    (positive : 0 < address) (room : address + span (pre ++ block :: post) < 2 ^ 64)
    (enough : post.length < fuel) :
    ∃ after run rest, post = run ++ rest ∧ (∀ free ∈ run, free.used = false) ∧
      (∀ barrier ∈ rest.head?, barrier.used = true) ∧
      mergeForward (address + span pre) fuel memory ret = some (ret + run.length, after) ∧
      Segment after address before 0 (pre ++ ⟨block.size + span run, block.used⟩ :: rest) ∧
      Confined after memory address (span (pre ++ block :: post)) ∧
      Confined after memory (address + span pre) (block.size + span run + 80) := by
  induction post generalizing memory block fuel ret with
  | nil =>
    obtain ⟨fuel, rfl⟩ : ∃ less, fuel = less + 1 := ⟨fuel - 1, by omega⟩
    obtain ⟨_, header, _⟩ := (segment_split pre block []).mp segment
    have stuck : ¬Mergeable memory (next memory (address + span pre)) := by
      rw [header.next]
      simp [Mergeable]
    exact ⟨memory, [], [], rfl, by simp, by simp, by simp [mergeForward, stuck], segment, .refl _ _ _, .refl _ _ _⟩
  | cons follower rest ih =>
    obtain ⟨fuel, rfl⟩ : ∃ less, fuel = less + 1 := ⟨fuel - 1, by omega⟩
    obtain ⟨_, header, second, _⟩ := (segment_split pre block (follower :: rest)).mp segment
    have link : next memory (address + span pre) = address + span pre + 40 + block.size := by
      simpa using header.next
    have decided := mergeable_iff second (by omega)
    cases used : follower.used with
    | true =>
      have stuck : ¬Mergeable memory (next memory (address + span pre)) := by
        rw [link, decided, used]
        decide
      exact ⟨memory, [], follower :: rest, rfl, by simp, by simpa using used,
        by simp [mergeForward, stuck], segment, .refl _ _ _, .refl _ _ _⟩
    | false =>
      obtain ⟨joined, confined, near⟩ := absorb_segment segment positive room
      have taken : Mergeable memory (next memory (address + span pre)) := by rw [link, decided, used]
      have width : span (pre ++ ⟨block.size + 40 + follower.size, block.used⟩ :: rest) =
          span (pre ++ block :: follower :: rest) := by
        simp only [span_append, span_cons]; omega
      obtain ⟨after, run, tail, split, free, barrier, result, final, later, later'⟩ :=
        ih fuel (ret + 1) joined (by rw [width]; exact room)
          (by simp only [List.length_cons] at enough; omega)
      refine ⟨after, follower :: run, tail, by rw [split]; rfl, ?_, barrier, ?_, ?_, ?_, ?_⟩
      · simpa [used] using free
      · simp only [mergeForward, if_pos taken]
        rw [link, result, List.length_cons]
        simp only [Option.some.injEq, Prod.mk.injEq, and_true]
        omega
      · simp only [span_cons]
        rwa [show block.size + (40 + follower.size + span run) = block.size + 40 + follower.size + span run by omega]
      · rw [width] at later
        exact later.trans confined
      · dsimp only at later'
        simp only [span_cons]
        exact (later'.mono (by omega) (by omega)).trans (near.mono (by omega) (by omega))

/-- The backward loop does the same on the other side, moving to the block it
has just grown. -/
theorem mergeBackward_segment {memory : Memory} {address : Nat} {pre post : List Block}
    {block : Block} (fuel ret : Nat) (segment : Segment memory address 0 0 (pre ++ block :: post))
    (idle : block.used = false) (positive : 0 < address) (room : address + span (pre ++ block :: post) < 2 ^ 64)
    (enough : pre.length < fuel) :
    ∃ after init run, pre = init ++ run ∧ (∀ free ∈ run, free.used = false) ∧
      (∀ barrier ∈ init.getLast?, barrier.used = true) ∧
      mergeBackward fuel memory (address + span pre) ret = some (ret + run.length, after) ∧
      Segment after address 0 0 (init ++ ⟨span run + block.size, false⟩ :: post) ∧
      Confined after memory address (span (pre ++ block :: post)) ∧
      Confined after memory (address + span init) (span run + block.size + 80) := by
  induction pre using List.reverseRecOn generalizing memory block fuel ret with
  | nil =>
    obtain ⟨fuel, rfl⟩ : ∃ less, fuel = less + 1 := ⟨fuel - 1, by omega⟩
    obtain ⟨_, header, _⟩ := (segment_split [] block post).mp segment
    have stuck : ¬Mergeable memory (prev memory (address + span [])) := by
      rw [header.prev]
      simp [Mergeable, lastAddress]
    refine ⟨memory, [], [], rfl, by simp, by simp, by simp only [mergeBackward, if_neg stuck]; rfl, ?_, .refl _ _ _,
      .refl _ _ _⟩
    simpa [← idle] using segment
  | append_singleton init left ih =>
    obtain ⟨fuel, rfl⟩ : ∃ less, fuel = less + 1 := ⟨fuel - 1, by omega⟩
    obtain ⟨_, header, _⟩ := (segment_split (init ++ [left]) block post).mp segment
    have link : prev memory (address + span (init ++ [left])) = address + span init := by
      rw [header.prev, lastAddress_append]
    simp only [List.append_assoc, List.singleton_append] at segment room
    obtain ⟨_, first, _⟩ := (segment_split init left (block :: post)).mp segment
    have decided := mergeable_iff first (by omega)
    have here : address + span (init ++ [left]) = address + span init + 40 + left.size := by
      simp only [span_append, span_cons, span_nil]; omega
    cases used : left.used with
    | true =>
      have stuck : ¬Mergeable memory (prev memory (address + span (init ++ [left]))) := by
        rw [link, decided, used]
        decide
      refine ⟨memory, init ++ [left], [], by simp, by simp, by simpa using used,
        by simp only [mergeBackward, if_neg stuck]; rfl, ?_, by simpa using .refl memory address _, .refl _ _ _⟩
      simpa [← idle] using segment
    | false =>
      obtain ⟨joined, confined, near⟩ := absorb_segment segment positive room
      have taken : Mergeable memory (prev memory (address + span (init ++ [left]))) := by rw [link, decided, used]
      have width : span (init ++ ⟨left.size + 40 + block.size, left.used⟩ :: post) =
          span (init ++ left :: block :: post) := by
        simp only [span_append, span_cons]; omega
      obtain ⟨after, front, run, split, free, barrier, result, final, later, later'⟩ :=
        ih fuel (ret + 1) joined used (by rw [width]; exact room)
          (by simp only [List.length_append, List.length_singleton] at enough; omega)
      refine ⟨after, front, run ++ [left], by rw [split]; simp, ?_, barrier, ?_, ?_, ?_, ?_⟩
      · intro other member
        rcases List.mem_append.mp member with member | member
        · exact free other member
        · rwa [List.mem_singleton.mp member]
      · simp only [mergeBackward, if_pos taken]
        rw [link, here, result, List.length_append, List.length_singleton]
        simp only [Option.some.injEq, Prod.mk.injEq, and_true]
        omega
      · simp only [span_append, span_cons, span_nil]
        rwa [show span run + (40 + left.size + 0) + block.size = span run + (left.size + 40 + block.size) by omega]
      · rw [width] at later
        simpa only [List.append_assoc, List.singleton_append] using later.trans confined
      · have start : span init = span front + span run := by rw [split, span_append]
        dsimp only at later'
        simp only [span_append, span_cons, span_nil]
        exact (later'.mono (by omega) (by omega)).trans (near.mono (by omega) (by omega))

theorem length_lt_addressSpace {address : Nat} {blocks : List Block} (positive : 0 < address)
    (room : address + span blocks < 2 ^ 64) : blocks.length < addressSpace := by
  have cost := length_le_span blocks
  unfold addressSpace
  omega

/-- Freeing a block in use returns it to the list joined with the maximal runs
of free blocks on both sides, and reports how many blocks those were. -/
theorem free_segment {memory : Memory} {address : Nat} {pre post : List Block} {block : Block}
    (segment : Segment memory address 0 0 (pre ++ block :: post)) (live : block.used = true)
    (positive : 0 < address) (room : address + span (pre ++ block :: post) < 2 ^ 64) :
    ∃ after init left right rest, pre = init ++ left ∧ post = right ++ rest ∧
      (∀ free ∈ left, free.used = false) ∧ (∀ free ∈ right, free.used = false) ∧
      (∀ barrier ∈ init.getLast?, barrier.used = true) ∧ (∀ barrier ∈ rest.head?, barrier.used = true) ∧
      free memory (address + span pre + 40) = some ⟨right.length + left.length, none, after⟩ ∧
      Segment after address 0 0 (init ++ ⟨span left + block.size + span right, false⟩ :: rest) ∧
      Confined after memory address (span (pre ++ block :: post)) ∧
      Confined after memory (address + span init) (span left + block.size + span right + 80) := by
  obtain ⟨_, header, _⟩ := (segment_split pre block post).mp segment
  have extent : span (pre ++ block :: post) = span pre + (40 + block.size + span post) := by simp
  let released := setUsed memory (address + span pre) 0
  have confined : Confined released memory (address + span pre) 40 := setUsed_confined _ _ _
  have idle : Segment released address 0 0 (pre ++ ⟨block.size, false⟩ :: post) :=
    segment.setUsed false
  have short := length_lt_addressSpace positive room
  simp only [List.length_append, List.length_cons] at short
  have same : span (pre ++ ⟨block.size, false⟩ :: post) = span (pre ++ block :: post) := by
    simp only [span_append, span_cons]
  obtain ⟨merged, right, rest, postSplit, rightFree, rightBarrier, forward, grown, inside, near⟩ :=
    mergeForward_segment addressSpace 0 idle positive (same ▸ room) (by omega)
  have shrunk : span (pre ++ ⟨block.size + span right, false⟩ :: rest) = span (pre ++ block :: post) := by
    simp only [postSplit, span_append, span_cons]; omega
  obtain ⟨after, init, left, preSplit, leftFree, leftBarrier, backward, final, within, near'⟩ :=
    mergeBackward_segment addressSpace (0 + right.length) grown rfl positive (shrunk ▸ room) (by omega)
  refine ⟨after, init, left, right, rest, preSplit, postSplit, leftFree, rightFree, leftBarrier, rightBarrier,
    ?_, ?_, ?_, ?_⟩
  · have place : u64Sub (address + span pre + 40) headerSize = address + span pre := by
      rw [u64Sub_eq (by omega) (by simp only [headerSize]; omega)]
      exact Nat.add_sub_cancel _ 40
    have kept : magic released (address + span pre) = blockMagic := (header.setUsed false).magic
    have busy : used memory (address + span pre) ≠ 0 := by rw [header.used, live]; decide
    have sane : ¬(if size memory (address + span pre) = 0 then 1 else 0) > (if 1 < 40 then 1 else 0) := by
      split <;> decide
    simp only [free, place]
    rw [if_neg (by omega), if_neg (not_not.mpr header.magic), if_neg busy, if_neg sane]
    simp only [heapMergeFreeBlocks]
    rw [if_neg (not_not.mpr kept), forward]
    simp only [Option.bind_eq_bind, Option.bind_some]
    rw [backward]
    simp
  · rwa [← Nat.add_assoc] at final
  · rw [shrunk] at within
    rw [same] at inside
    exact within.trans (inside.trans (confined.mono (by omega) (by omega)))
  · have start : span pre = span init + span left := by rw [preSplit, span_append]
    dsimp only at near near'
    exact (near'.mono (by omega) (by omega)).trans
      ((near.mono (by omega) (by omega)).trans (confined.mono (by omega) (by omega)))

end Kernix.Proofs
