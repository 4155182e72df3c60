import Kernix.Fs.Commands
import Kernix.Proofs.WorkingDirectory

/-! The buffers of a path that is split. The terminator of the parent path is stored
behind the last slash even where that lies outside of the array, and the name goes into
its array without a bound. -/

namespace Kernix.Proofs
open ByteMemory

variable {δ : Type} {path : List UInt8}

/-- The path in front of the last slash. What is right below the root has the root for a parent. -/
def IsParent (path parent : List UInt8) : Prop :=
  ∃ front rest, path = front ++ slash :: rest ∧ slash ∉ rest ∧ parent = if front = [] then [slash] else front

/-- The arrays hold a parent path and a name, and a node gets this name. -/
structure HoldParts (path : List UInt8) (buffers : PathBuffers) : Prop where
  ended : Terminated buffers.ppath
  parent : IsParent path (text buffers.ppath)
  named : Terminated buffers.fname
  node : ∀ (state made : FsState Unit) (node : Nat) (type : UInt8), state.create fsNodeSize = .ok (node, made) →
    ∃ after, fsMknode state (text buffers.fname) type = .ok (node, after) ∧
      (node ≠ 0 → Terminated (after.nodes node).name ∧ text (after.nodes node).name = text buffers.fname)

/-- Whatever the stack has in the arrays before, all stores are inside of them. -/
def SplitsSafely (path : List UInt8) : Prop :=
  ∀ buffers, ∃ after, splitBuffers buffers path = .ok after ∧ HoldParts path after

/-- The last slash is among the first 200 bytes, and less than 64 bytes are behind it. -/
structure PartsFit (path : List UInt8) : Prop where
  divided : slash ∈ path
  front : lastSlash path 0 0 < fsMaxPath
  name : (path.drop (lastSlash path 0 0 + 1)).length < 64

section Stores

theorem copyFront_eq {plen : Int} (within : plen ≤ path.length + 1) {left i : Nat} (room : i + left < fsMaxPath)
    (ppath : Fin fsMaxPath → UInt8) : copyFront path plen left i ppath =
      .ok fun index => if i ≤ index.val ∧ (index.val : Int) < plen ∧ index.val < i + left then path.getD index.val 0
        else ppath index := by
  induction left generalizing i ppath with
  | zero =>
    rw [copyFront]
    congr 1
    funext index
    rw [if_neg (by omega)]
  | succ left ih =>
    rw [copyFront]
    split
    next more =>
      rw [pathByte, if_pos (by omega)]
      simp only [bind, Except.bind]
      rw [setElement_eq ppath (show i < fsMaxPath by omega)]
      dsimp only
      rw [ih (by omega)]
      congr 1
      funext index
      by_cases here : index.val = i
      · rw [if_neg (by omega), if_pos (by omega), here]
        exact Function.update_apply .. |>.trans (if_pos (Fin.ext here))
      · rw [Function.update_of_ne (fun same => here (congrArg Fin.val same))]
        split
        next inside => rw [if_pos (by omega)]
        next outside => rw [if_neg (by omega)]
    next done =>
      congr 1
      funext index
      rw [if_neg (by omega)]

theorem lastSlash_length (some : path ≠ []) : lastSlash path 0 0 < path.length := by
  by_cases divided : slash ∈ path
  · obtain ⟨front, rest, rfl, plain⟩ := exists_split_last divided
    rw [lastSlash_append plain, List.length_append, List.length_cons]
    omega
  · rw [lastSlash_plain divided]
    exact List.length_pos_iff.mpr some

theorem parentLength_le (some : path ≠ []) : parentLength path ≤ path.length := by
  have inside := lastSlash_length some
  unfold parentLength i32
  split <;> split <;> omega

/-- What is copied of a path, with the terminator behind it. -/
theorem copyFront_text (clean : 0 ∉ path) {length : Nat} (within : length ≤ path.length) (fits : length < fsMaxPath)
    (ppath : Fin fsMaxPath → UInt8) : ∃ copied after, copyFront path length (fsMaxPath - 1) 0 ppath = .ok copied ∧
      setElement copied length 0 = .ok after ∧ text after = path.take length := by
  refine ⟨_, _, copyFront_eq (by omega) (by decide) ppath, setElement_eq _ fits 0, ?_⟩
  have size : (path.take length).length = length := List.length_take_of_le within
  apply text_eq (by rw [size]; exact fits)
  · intro index inside
    rw [size] at inside
    rw [Function.update_of_ne (by simp only [ne_eq, Fin.ext_iff]; omega)]
    dsimp only
    rw [if_pos (by omega), List.getElem_take, List.getD_eq_getElem _ _ (by omega)]
  · simp only [size]
    exact Function.update_self ..
  · exact fun zero => clean (List.mem_of_mem_take zero)

end Stores

section Splitting

/-- The strings in the arrays are the parts that `splitPath` gives. -/
theorem splitPath_buffers (clean : 0 ∉ path) (buffers : PathBuffers) :
    splitPath path = (splitBuffers buffers path).map fun after => (text after.ppath, text after.fname) := by
  have within : parentLength path ≤ path.length + 1 := by
    by_cases empty : path = []
    · subst empty
      decide
    · have bound := parentLength_le empty
      omega
  have copies := copyFront_eq within (show 0 + (fsMaxPath - 1) < fsMaxPath by decide) buffers.ppath
  unfold splitPath splitBuffers
  dsimp only
  rw [← parentLength]
  by_cases fits : 0 ≤ parentLength path ∧ parentLength path < fsMaxPath
  · by_cases empty : path = []
    · subst empty
      rw [if_pos (.inr (.inr rfl)), copies]
      rfl
    · have bound := parentLength_le empty
      obtain ⟨length, exact⟩ := Int.eq_ofNat_of_zero_le fits.1
      rw [exact] at fits bound ⊢
      rw [if_neg (by simp only [not_or]; exact ⟨by omega, by omega, empty⟩)]
      obtain ⟨copied, ppath, copies, ends, front⟩ :=
        copyFront_text clean (show length ≤ path.length by omega) (by omega) buffers.ppath
      rw [copies]
      simp only [bind, Except.bind]
      rw [ends]
      simp only [if_neg empty, pure, Except.pure]
      rw [Int.toNat_natCast, ← front]
      generalize rest_eq : path.drop (lastSlash path 0 0 + 1) = rest
      have clean_rest : 0 ∉ rest := fun zero => clean (List.mem_of_mem_drop (rest_eq ▸ zero))
      by_cases short : rest.length < 64
      · obtain ⟨name, copies⟩ := strCopy_returns (fun _ : Fin 64 => 0) short
        obtain ⟨fname, copies'⟩ := strCopy_returns buffers.fname short
        rw [copies, copies']
        simp only [Except.map, (strCopy_text clean_rest copies).2, (strCopy_text clean_rest copies').2]
      · rw [strCopy_long clean_rest (Nat.not_lt.mp short), strCopy_long clean_rest (Nat.not_lt.mp short)]
        rfl
  · rw [if_pos (by omega), copies]
    simp only [bind, Except.bind]
    rw [setElement, dif_neg fits]
    rfl

theorem parentLength_small {front rest : List UInt8} (plain : slash ∉ rest) (near : front.length < fsMaxPath) :
    parentLength (front ++ slash :: rest) = if front = [] then 1 else (front.length : Int) := by
  have small : i32 front.length = front.length := i32_eq (near.trans (by decide))
  unfold parentLength
  rw [lastSlash_append plain, Nat.zero_add, small]
  by_cases root : front = []
  · rw [if_pos root, if_pos (by simpa using root)]
  · rw [if_neg root, if_neg (by simpa using root)]

theorem splitPath_parts {front rest : List UInt8} (clean : 0 ∉ front ++ slash :: rest) (plain : slash ∉ rest)
    (near : front.length < fsMaxPath) (short : rest.length < 64) :
    splitPath (front ++ slash :: rest) = .ok (if front = [] then [slash] else front, rest) := by
  have length := parentLength_small plain near
  have given : front ++ slash :: rest ≠ [] := by simp
  have behind : (front ++ slash :: rest).drop (lastSlash (front ++ slash :: rest) 0 0 + 1) = rest := by
    rw [lastSlash_append plain, Nat.zero_add, List.drop_append]
    simp
  have clean_rest : 0 ∉ rest := fun zero => clean (by simp [zero])
  obtain ⟨name, copies⟩ := strCopy_returns (fun _ : Fin 64 => 0) short
  unfold splitPath
  dsimp only
  rw [← parentLength, behind, copies, length]
  by_cases root : front = []
  · subst root
    rw [if_pos rfl, if_pos rfl, if_neg (by simp [fsMaxPath])]
    simp [bind, Except.bind, pure, Except.pure, (strCopy_text clean_rest copies).2]
  · rw [if_neg root, if_neg root, if_neg (by simp only [not_or]; exact ⟨by omega, by omega, given⟩)]
    simp [bind, Except.bind, pure, Except.pure, (strCopy_text clean_rest copies).2]

end Splitting

/-- The copy of a terminated name into a new node is terminated as well. -/
theorem fsMknode_named {name : Fin 64 → UInt8} (terminated : Terminated name) {state made : FsState δ} {node : Nat}
    (creates : state.create fsNodeSize = .ok (node, made)) (type : UInt8) :
    ∃ after, fsMknode state (text name) type = .ok (node, after) ∧
      (node ≠ 0 → Terminated (after.nodes node).name ∧ text (after.nodes node).name = text name) := by
  obtain ⟨copied, copies⟩ := strCopy_returns (fun _ : Fin 64 => 0) terminated
  have holds := (strCopy_text (text_clean name) copies).2
  unfold fsMknode
  rw [creates]
  simp only [bind, Except.bind]
  by_cases none : node = 0
  · rw [if_pos none, none]
    exact ⟨made, rfl, fun given => absurd rfl given⟩
  · rw [if_neg none, copies]
    refine ⟨_, rfl, fun _ => ?_⟩
    simp only [FsState.setNode, Function.update_self, Terminated, holds, and_true]
    exact terminated

theorem path_buffers_iff (clean : 0 ∉ path) : SplitsSafely path ↔ PartsFit path := by
  constructor
  · intro safe
    obtain ⟨after, splits, holds⟩ := safe ⟨fun _ => 0, fun _ => 0⟩
    have parts := splitPath_buffers clean ⟨fun _ => 0, fun _ => 0⟩
    rw [splits] at parts
    obtain ⟨-, -, -, -, name, copied, -⟩ := splitPath_ok parts
    obtain ⟨front, rest, rfl, plain, parent⟩ := holds.parent
    have ended := holds.ended
    rw [Terminated, parent] at ended
    refine ⟨by simp, ?_, (strCopy_text (fun zero => clean (List.mem_of_mem_drop zero)) copied).1⟩
    rw [lastSlash_append plain, Nat.zero_add]
    split at ended
    next root => simp [root]
    next => exact ended
  · intro fits buffers
    obtain ⟨front, rest, rfl, plain⟩ := exists_split_last fits.divided
    have near := fits.front
    have short := fits.name
    rw [lastSlash_append plain, Nat.zero_add] at near short
    rw [List.drop_append, List.drop_eq_nil_of_le (by omega), List.nil_append, Nat.add_sub_cancel_left, List.drop_one,
      List.tail_cons] at short
    have parts := splitPath_parts clean plain near short
    rw [splitPath_buffers clean buffers] at parts
    cases splits : splitBuffers buffers (front ++ slash :: rest) with
    | error stop =>
      rw [splits] at parts
      cases parts
    | ok after =>
      rw [splits] at parts
      obtain ⟨parent, name⟩ := Prod.mk.inj (Except.ok.inj parts)
      have named : Terminated after.fname := by
        rw [Terminated, name]
        exact short
      refine ⟨after, rfl, ?_, ⟨front, rest, rfl, plain, parent⟩, named, ?_⟩
      · rw [Terminated, parent]
        split
        · decide
        · exact near
      · intro state made node type creates
        exact fsMknode_named named creates type

theorem path_buffers_iff_name : SplitsSafely (literal "/dev/tty") ↔ PartsFit (literal "/dev/tty") := path_buffers_iff (by decide)

/-- A directory whose path has 201 bytes. -/
private def deepPath : List UInt8 := slash :: List.replicate 200 0x61 ++ literal "/b"

/-- The terminator of its name is stored behind `ppath`. -/
theorem path_buffers_fail : ¬∀ path, 0 ∉ path → SplitsSafely path := by
  intro safe
  obtain ⟨after, splits, -⟩ := safe deepPath (by decide) ⟨fun _ => 0, fun _ => 0⟩
  have fails : (splitBuffers ⟨fun _ => 0, fun _ => 0⟩ deepPath).isOk = false := by decide +kernel
  rw [splits] at fails
  cases fails
end Kernix.Proofs
