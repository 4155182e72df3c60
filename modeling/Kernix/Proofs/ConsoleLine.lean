import Kernix.Lib.TextZipper
import Kernix.Proofs.BlockStrings
import Kernix.Shell.Console

/-! The input line of the shell is a text with a cursor. The keys that edit it shift
bytes inside the buffer; on the text each of them is one operation of the zipper. -/

namespace Kernix.Proofs

/-- The buffer holds the text, and the position is that of the cursor. -/
structure LineIs (console : Console) (zipper : TextZipper UInt8 (maxInputLen - 1)) : Prop where
  text : TextIs console.inputBuffer 0 zipper.text
  position : console.inputPos = zipper.position

/-- The keys that edit the line. -/
def EditingKey (key : Int) : Prop :=
  32 ≤ key ∧ key ≤ 126 ∨
    key ∈ [keyBackspace, keyTab, keyInterrupt, keyLeft, keyRight, keyHome, keyEnd]

/-- What a key means for the text. -/
def editText (key : Int) (zipper : TextZipper UInt8 (maxInputLen - 1)) : TextZipper UInt8 (maxInputLen - 1) :=
  if key = keyInterrupt then TextZipper.empty
  else if key = keyBackspace then zipper.delete
  else if key = keyTab then (TextZipper.insert 0x20)^[4] zipper
  else if key = keyLeft then zipper.moveLeft
  else if key = keyRight then zipper.moveRight
  else if key = keyHome then zipper.moveHome
  else if key = keyEnd then zipper.moveEnd
  else zipper.insert (UInt8.ofNat key.toNat)

/-- Keys pressed one after the other, while neither the GUI nor the editor runs. -/
def pressKeys (console : Console) : List Int → Except Stop Console
  | [] => .ok console
  | key :: keys => do
    let (_, console) ← consoleHandleKey false false key console
    pressKeys console keys

theorem strLen_eq {size : Nat} {buf : Fin size → UInt8} {found : List UInt8} (lies : TextIs buf 0 found)
    (small : size ≤ 2 ^ 31) : strLen buf = .ok (found.length : Int) := by
  have fits := lies.fits
  unfold strLen
  rw [lies.ok]
  simp only [bind, Except.bind, pure, Except.pure]
  rw [i32_eq (by omega)]

theorem empty_lies {size : Nat} {buf : Fin size → UInt8} (inside : 0 < size) (zero : buf ⟨0, inside⟩ = 0) :
    TextIs buf 0 [] := by
  refine ⟨inside, ?_, zero, List.not_mem_nil⟩
  intro index within
  cases within

/-- A character over another leaves a string with the new one in its place. -/
theorem TextIs.replace {size : Nat} {buf : Fin size → UInt8} {front back : List UInt8} {item value : UInt8}
    (lies : TextIs buf 0 (front ++ item :: back)) (nonzero : value ≠ 0) (inside : front.length < size) :
    TextIs (Function.update buf ⟨front.length, inside⟩ value) 0 (front ++ value :: back) := by
  have fits := lies.fits
  have clean := lies.clean
  simp only [List.length_append, List.length_cons, List.mem_append, List.mem_cons, not_or] at fits clean
  refine ⟨by simpa using fits, ?_, ?_, ?_⟩
  · intro index within
    have byte := lies.bytes index (by simpa using within)
    by_cases same : index = front.length
    · subst same
      simp
    · rw [Function.update_of_ne (by simpa [Fin.ext_iff] using same), byte]
      grind
  · have terminated := lies.terminated
    simp only [List.length_append, List.length_cons] at terminated ⊢
    rw [Function.update_of_ne (by simp [Fin.ext_iff]), terminated]
  · simp only [List.mem_append, List.mem_cons, not_or]
    exact ⟨clean.1, Ne.symm nonzero, clean.2.2⟩

/-- The byte after the next one comes into the place of the next one. -/
theorem TextIs.pulled {size : Nat} {buf : Fin size → UInt8} {front back : List UInt8} {item byte : UInt8}
    (lies : TextIs buf 0 (front ++ item :: byte :: back)) :
    ∃ inside : front.length + 1 < size, buf ⟨front.length + 1, inside⟩ = byte ∧
      TextIs (Function.update buf ⟨front.length, Nat.lt_of_succ_lt inside⟩ byte) 0
        ((front ++ [byte]) ++ byte :: back) := by
  have fits := lies.fits
  have clean := lies.clean
  simp only [List.length_append, List.length_cons, List.mem_append, List.mem_cons, not_or] at fits clean
  have second := lies.bytes (front.length + 1) (by simp)
  simp only [Nat.zero_add] at second
  refine ⟨by omega, by simpa using second, ?_⟩
  have regrouped : front ++ byte :: byte :: back = (front ++ [byte]) ++ byte :: back := by simp
  rw [← regrouped]
  exact TextIs.replace lies (Ne.symm clean.2.2.1) (by omega)

/-- One pass of the loop of the backspace. -/
theorem shiftLeft_pass {buf : InputBuffer} {found : List UInt8} {position : Nat} (lies : TextIs buf 0 found)
    (le : position ≤ found.length) (inside : position + 1 < maxInputLen) (fuel : Nat) :
    shiftLeft (fuel + 1) position buf = shiftLeft fuel (position + 1 : Nat)
      (Function.update buf ⟨position, by omega⟩ (buf ⟨position + 1, inside⟩)) := by
  have next : ((position : Int) + 1) = ((position + 1 : Nat) : Int) := by omega
  rw [shiftLeft, strLen_eq lies (by decide), next, elementAt_eq _ inside]
  simp only [bind, Except.bind]
  rw [setElement_eq _ (by omega)]
  exact if_pos (by omega)

/-- Behind the end of the string the loop stops. -/
theorem shiftLeft_done {buf : InputBuffer} {found : List UInt8} {position : Nat} (lies : TextIs buf 0 found)
    (behind : found.length < position) (fuel : Nat) : shiftLeft (fuel + 1) position buf = .ok buf := by
  rw [shiftLeft, strLen_eq lies (by decide)]
  exact if_neg (by omega)

/-- The loop of the backspace takes one character out of the string. -/
theorem shiftLeft_removes {buf : InputBuffer} {front back : List UInt8} {item : UInt8}
    (lies : TextIs buf 0 (front ++ item :: back)) (fuel : Nat) :
    ∃ after, shiftLeft (back.length + 2 + fuel) front.length buf = .ok after ∧ TextIs after 0 (front ++ back) := by
  induction back generalizing buf front item with
  | nil =>
    have fits := lies.fits
    have terminated := lies.terminated
    simp only [List.length_append, List.length_singleton, Nat.zero_add] at fits terminated
    have cut := TextIs.truncate lies (by omega)
    refine ⟨_, ?_, by simpa using cut⟩
    have passes : ([] : List UInt8).length + 2 + fuel = fuel + 1 + 1 := by
      rw [List.length_nil]
      omega
    rw [passes, shiftLeft_pass lies (by simp) fits, terminated]
    exact shiftLeft_done cut (Nat.lt_succ_self _) fuel
  | cons byte back ih =>
    obtain ⟨inside, second, moved⟩ := lies.pulled
    obtain ⟨after, shifted, left⟩ := ih moved
    refine ⟨after, ?_, by simpa using left⟩
    have passes : (byte :: back).length + 2 + fuel = (back.length + 2 + fuel) + 1 := by
      rw [List.length_cons]
      omega
    rw [passes, shiftLeft_pass lies (by simp) inside, second]
    simpa using shifted

/-- The loop that moves elements one place up. -/
theorem pushElements_moves {α : Type} {size : Nat} (array : Fin size → α) {count stop : Nat} (le : count ≤ stop)
    (inside : stop < size) :
    pushElements array count stop = .ok fun index =>
      if stop - count < index.val ∧ index.val ≤ stop then array ⟨index.val - 1, by omega⟩ else array index := by
  induction count generalizing stop array with
  | zero =>
    rw [pushElements]
    congr 1
    funext index
    rw [if_neg (by omega)]
  | succ count ih =>
    obtain ⟨last, rfl⟩ : ∃ last, stop = last + 1 := ⟨stop - 1, by omega⟩
    have here : ((last + 1 : Nat) : Int) - 1 = (last : Nat) := by omega
    rw [pushElements, here, elementAt_eq _ (by omega)]
    simp only [bind, Except.bind]
    rw [setElement_eq _ inside]
    simp only
    rw [ih _ (by omega) (by omega)]
    congr 1
    funext index
    by_cases top : index.val = last + 1
    · rw [if_neg (by omega), if_pos (by omega), show index = ⟨last + 1, inside⟩ from Fin.ext top, Function.update_self]
      simp
    · have apart {other : Fin size} (ne : other.val ≠ last + 1) (value : α) :
          Function.update array ⟨last + 1, inside⟩ value other = array other :=
        Function.update_of_ne (by simpa [Fin.ext_iff] using ne) _ _
      rw [apart top]
      by_cases moved : last - count < index.val ∧ index.val ≤ last
      · rw [if_pos moved, if_pos (by omega), apart (by simp only [ne_eq]; omega)]
      · rw [if_neg moved, if_neg (by omega)]

theorem shiftRight_eq (buf : InputBuffer) (count : Nat) (j : Int) :
    shiftRight count j buf = pushElements buf count (j + 1) := by
  induction count generalizing buf j with
  | zero => rfl
  | succ count ih =>
    have next : j - 1 + 1 = j + 1 - 1 := by omega
    simp only [shiftRight, pushElements, Int.add_sub_cancel, ih, next]

/-- The loop of an insertion moves the bytes from a position on up by one. -/
theorem shiftRight_moves (buf : InputBuffer) {count stop : Nat} (le : count ≤ stop) (inside : stop < maxInputLen) :
    shiftRight count (stop - 1 : Int) buf = .ok fun index =>
      if stop - count < index.val ∧ index.val ≤ stop then buf ⟨index.val - 1, by omega⟩ else buf index := by
  rw [shiftRight_eq, Int.sub_add_cancel, pushElements_moves buf le inside]

/-- An insertion into a line that has room. -/
theorem insert_lies {buf : InputBuffer} {front back : List UInt8} {char : UInt8} (lies : TextIs buf 0 (front ++ back))
    (nonzero : char ≠ 0) (room : (front ++ back).length + 1 < maxInputLen) :
    ∃ after, shiftRight (back.length + 1) (front ++ back).length buf = .ok after ∧
      TextIs (Function.update after ⟨front.length, by rw [List.length_append] at room; omega⟩ char) 0
        (front ++ char :: back) := by
  have clean := lies.clean
  simp only [List.length_append] at room
  simp only [List.mem_append, not_or] at clean
  have stop : ((front ++ back).length : Int) = (front.length + back.length + 1 : Nat) - 1 := by
    rw [List.length_append]
    omega
  rw [stop]
  refine ⟨_, shiftRight_moves buf (by omega) (by omega), ?_, ?_, ?_, ?_⟩
  · simp only [List.length_append, List.length_cons]
    omega
  · intro index within
    simp only [List.length_append, List.length_cons] at within
    rcases Nat.lt_trichotomy index front.length with early | rfl | late
    · have byte := lies.bytes index (by rw [List.length_append]; omega)
      rw [Function.update_of_ne (by simp only [ne_eq, Fin.ext_iff]; omega), if_neg (by dsimp only; omega), byte, List.getElem_append_left early, List.getElem_append_left early]
    · simp
    · have byte := lies.bytes (index - 1) (by rw [List.length_append]; omega)
      rw [Function.update_of_ne (by simp only [ne_eq, Fin.ext_iff]; omega), if_pos (by dsimp only; omega)]
      simp only [Nat.zero_add] at byte ⊢
      rw [byte, List.getElem_append_right (by omega), List.getElem_append_right (by omega)]
      have offset : index - front.length = (index - 1 - front.length) + 1 := by omega
      simp only [offset, List.getElem_cons_succ]
  · have terminated := lies.terminated
    simp only [List.length_append, Nat.zero_add] at terminated
    simp only [List.length_append, List.length_cons, Nat.zero_add]
    rw [Function.update_of_ne (by simp only [ne_eq, Fin.ext_iff]; omega), if_pos (by dsimp only; omega), ← terminated]
    congr 2
  · simp only [List.mem_append, List.mem_cons, not_or]
    exact ⟨clean.1, Ne.symm nonzero, clean.2⟩

end Kernix.Proofs
