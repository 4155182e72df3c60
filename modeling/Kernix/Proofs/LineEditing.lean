import Kernix.Proofs.ConsoleLine

/-! From an empty line on, any sequence of the keys that edit the line is the
sequence of their operations on the text, and no byte outside the buffer is touched. -/

namespace Kernix.Proofs

variable {console after : Console} {zipper : TextZipper UInt8 (maxInputLen - 1)}

/-- A key that edits changes the line to a new text, and leaves the history as it is. -/
structure Edited (before after : Console) (zipper : TextZipper UInt8 (maxInputLen - 1)) : Prop where
  line : LineIs after zipper
  history : after.commandHistory = before.commandHistory
  count : after.historyCount = before.historyCount

theorem LineIs.edited (line : LineIs console zipper) : Edited console console zipper := ⟨line, rfl, rfl⟩

theorem Edited.trans {middle : Console} {first second : TextZipper UInt8 (maxInputLen - 1)}
    (before : Edited console middle first) (behind : Edited middle after second) : Edited console after second :=
  ⟨behind.line, behind.history.trans before.history, behind.count.trans before.count⟩

/-- The text under the cursor, as an editing key finds it. -/
theorem LineIs.split (line : LineIs console zipper) :
    TextIs console.inputBuffer 0 (zipper.before.reverse ++ zipper.after) :=
  line.text

theorem insertChar_edits (line : LineIs console zipper) {char : UInt8} (nonzero : char ≠ 0) :
    ∃ after, insertChar console char = .ok after ∧ Edited console after (zipper.insert char) := by
  have length := zipper.length_text
  have position := line.position
  unfold insertChar
  rw [strLen_eq line.text (by decide)]
  simp only [bind, Except.bind]
  by_cases room : zipper.before.length + zipper.after.length < maxInputLen - 1
  · have fits : (zipper.before.reverse ++ zipper.after).length + 1 < maxInputLen := by
      simp only [List.length_append, List.length_reverse]
      omega
    obtain ⟨shifted, shifts, lies⟩ := insert_lies line.split nonzero fits
    have count : ((zipper.text.length : Int) + 1 - console.inputPos).toNat = zipper.after.length + 1 := by
      rw [position, TextZipper.position]
      omega
    rw [if_pos (by omega), count]
    unfold TextZipper.text
    rw [shifts, position]
    simp only [List.length_reverse] at lies
    simp only [TextZipper.position]
    rw [setElement_eq _ (by omega)]
    obtain ⟨before, behind⟩ := @TextZipper.insert_room _ _ char _ room
    refine ⟨_, rfl, ⟨?_, ?_⟩, rfl, rfl⟩
    · rw [TextZipper.text, before, behind]
      simpa using lies
    · rw [TextZipper.position, before, List.length_cons]
      exact Int.natCast_succ _
  · rw [if_neg (by omega), TextZipper.insert_full room]
    exact ⟨console, rfl, line.edited⟩

theorem insertChars_edits (line : LineIs console zipper) {char : UInt8} (nonzero : char ≠ 0) (count : Nat) :
    ∃ after, insertChars char count console = .ok after ∧
      Edited console after ((TextZipper.insert char)^[count] zipper) := by
  induction count generalizing console zipper with
  | zero => exact ⟨console, rfl, line.edited⟩
  | succ count ih =>
    obtain ⟨middle, inserts, first⟩ := insertChar_edits line nonzero
    obtain ⟨after, continues, rest⟩ := ih first.line
    refine ⟨after, ?_, first.trans rest⟩
    rw [insertChars, inserts]
    exact continues

theorem handleBackspace_edits (line : LineIs console zipper) :
    ∃ after, handleBackspace console = .ok after ∧ Edited console after zipper.delete := by
  have position := line.position
  have lies := line.split
  unfold handleBackspace
  obtain ⟨_ | ⟨item, before⟩, behind, fits⟩ := zipper
  · rw [if_neg (by simp [position, TextZipper.position])]
    exact ⟨console, rfl, line.edited⟩
  · simp only [TextZipper.position, List.length_cons] at position
    simp only [List.length_cons] at fits
    simp only [List.reverse_cons, List.append_assoc, List.singleton_append] at lies
    have here : console.inputPos - 1 = (before.reverse.length : Nat) := by
      rw [List.length_reverse]
      omega
    obtain ⟨after, shifts, left⟩ := shiftLeft_removes lies (maxInputLen - 1 - behind.length)
    have passes : behind.length + 2 + (maxInputLen - 1 - behind.length) = maxInputLen + 1 := by omega
    rw [passes] at shifts
    rw [if_pos (by omega), here]
    dsimp only
    rw [shifts]
    refine ⟨_, rfl, ⟨left, ?_⟩, rfl, rfl⟩
    simp [TextZipper.delete, TextZipper.position]

local instance inputSlots : NeZero maxInputLen := ⟨by decide⟩

theorem clear_edits (console : Console) :
    Edited console { console with inputBuffer := Function.update console.inputBuffer 0 0, inputPos := 0 } TextZipper.empty := by
  refine ⟨⟨?_, rfl⟩, rfl, rfl⟩
  apply empty_lies (by decide)
  simp

/-- Moving the cursor leaves the text as it is. -/
theorem LineIs.move (line : LineIs console zipper) {moved : TextZipper UInt8 (maxInputLen - 1)}
    (same : moved.text = zipper.text) {inputPos : Int} (position : inputPos = moved.position) :
    Edited console { console with inputPos } moved := by
  refine ⟨⟨?_, position⟩, rfl, rfl⟩
  rw [same]
  exact line.text

theorem handleLeft_edits (line : LineIs console zipper) :
    Edited console (if 0 < console.inputPos then { console with inputPos := console.inputPos - 1 } else console)
      zipper.moveLeft := by
  have position := line.position
  obtain ⟨_ | ⟨item, before⟩, behind, fits⟩ := zipper
  · rw [if_neg (by simp [position, TextZipper.position])]
    exact line.edited
  · simp only [TextZipper.position, List.length_cons] at position
    rw [if_pos (by omega)]
    apply line.move (TextZipper.text_moveLeft _)
    simp only [TextZipper.moveLeft, TextZipper.position]
    omega

theorem handleRight_edits (line : LineIs console zipper) :
    Edited console
      (if console.inputPos < zipper.text.length then { console with inputPos := console.inputPos + 1 } else console)
      zipper.moveRight := by
  have position := line.position
  obtain ⟨before, _ | ⟨item, behind⟩, fits⟩ := zipper
  · rw [if_neg (by simp [position, TextZipper.position, TextZipper.text])]
    exact line.edited
  · simp only [TextZipper.position] at position
    rw [if_pos (by simp only [TextZipper.length_text, List.length_cons]; omega)]
    apply line.move (TextZipper.text_moveRight _)
    simp only [TextZipper.moveRight, TextZipper.position, List.length_cons]
    omega

/-- The branch of a printable character. -/
theorem handleLineKey_char (console : Console) {key : Int} (low : 32 ≤ key) (high : key ≤ 126) :
    handleLineKey key console = insertChar { console with historyPos := -1 } (UInt8.ofNat key.toNat) := by
  have other {code : Int} (apart : code < 32 ∨ 126 < code) : ¬key = code := by omega
  rw [handleLineKey, if_neg (other (.inl (by decide))), if_neg (other (.inl (by decide))),
    if_neg (other (.inl (by decide))), if_neg (other (.inl (by decide))), if_neg (other (.inr (by decide))),
    if_neg (other (.inr (by decide))), if_neg (other (.inr (by decide))), if_neg (other (.inr (by decide))),
    if_neg (other (.inr (by decide))), if_neg (other (.inr (by decide))), if_pos ⟨low, high⟩]

/-- The operation of a printable character. -/
theorem editText_char (zipper : TextZipper UInt8 (maxInputLen - 1)) {key : Int} (low : 32 ≤ key) (high : key ≤ 126) :
    editText key zipper = zipper.insert (UInt8.ofNat key.toNat) := by
  have other {code : Int} (apart : code < 32 ∨ 126 < code) : ¬key = code := by omega
  rw [editText, if_neg (other (.inl (by decide))), if_neg (other (.inl (by decide))), if_neg (other (.inl (by decide))),
    if_neg (other (.inr (by decide))), if_neg (other (.inr (by decide))), if_neg (other (.inr (by decide))),
    if_neg (other (.inr (by decide)))]

theorem char_nonzero {key : Int} (low : 32 ≤ key) (high : key ≤ 126) : UInt8.ofNat key.toNat ≠ 0 := by
  intro zero
  have value := congrArg UInt8.toNat zero
  simp only [UInt8.toNat_ofNat', UInt8.toNat_zero] at value
  omega

theorem handleLineKey_tab (console : Console) : handleLineKey keyTab console = insertChars 0x20 4 console := by
  rw [handleLineKey, if_neg (by decide), if_neg (by decide), if_neg (by decide), if_pos rfl]

theorem editText_tab (zipper : TextZipper UInt8 (maxInputLen - 1)) :
    editText keyTab zipper = (TextZipper.insert 0x20)^[4] zipper := by
  rw [editText, if_neg (by decide), if_neg (by decide), if_pos rfl]

theorem handleLineKey_right (console : Console) :
    handleLineKey keyRight console = (do
      let length ← strLen console.inputBuffer
      return if console.inputPos < length then { console with inputPos := console.inputPos + 1 } else console) := rfl

theorem handleLineKey_end (console : Console) :
    handleLineKey keyEnd console = (do
      let length ← strLen console.inputBuffer
      return { console with inputPos := length }) := rfl

/-- One key is one operation on the text. -/
theorem handleLineKey_edits (line : LineIs console zipper) {key : Int} (editing : EditingKey key) :
    ∃ after, handleLineKey key console = .ok after ∧ Edited console after (editText key zipper) := by
  have length := strLen_eq line.text (by decide)
  rcases editing with ⟨low, high⟩ | control
  · rw [handleLineKey_char console low high, editText_char zipper low high]
    obtain ⟨after, inserts, edited⟩ :=
      @insertChar_edits { console with historyPos := -1 } _ ⟨line.text, line.position⟩ _ (char_nonzero low high)
    exact ⟨after, inserts, edited.line, edited.history, edited.count⟩
  · simp only [List.mem_cons, List.not_mem_nil, or_false] at control
    rcases control with rfl | rfl | rfl | rfl | rfl | rfl | rfl
    · exact handleBackspace_edits line
    · rw [handleLineKey_tab, editText_tab]
      exact insertChars_edits line (by decide) 4
    · exact ⟨_, rfl, clear_edits console⟩
    · exact ⟨_, rfl, handleLeft_edits line⟩
    · rw [handleLineKey_right, length]
      exact ⟨_, rfl, handleRight_edits line⟩
    · exact ⟨_, rfl, line.move (TextZipper.text_moveHome zipper) rfl⟩
    · rw [handleLineKey_end, length]
      refine ⟨_, rfl, line.move (TextZipper.text_moveEnd zipper) ?_⟩
      simp [TextZipper.moveEnd, TextZipper.position]

theorem editing_not_enter {key : Int} (editing : EditingKey key) : key ≠ keyEnter := by
  rintro rfl
  revert editing
  simp [EditingKey, keyEnter, keyBackspace, keyTab, keyInterrupt, keyLeft, keyRight, keyHome, keyEnd]

theorem consoleHandleKey_edits (line : LineIs console zipper) {key : Int} (editing : EditingKey key) :
    ∃ after, consoleHandleKey false false key console = .ok (none, after) ∧
      Edited console after (editText key zipper) := by
  obtain ⟨after, handles, edited⟩ := handleLineKey_edits line editing
  refine ⟨after, ?_, edited⟩
  simp only [consoleHandleKey, Bool.false_eq_true, if_false]
  rw [if_neg (editing_not_enter editing), handles]
  rfl

/-- Any sequence of editing keys is the sequence of their operations. -/
theorem pressKeys_edits (line : LineIs console zipper) (keys : List Int) (editing : ∀ key ∈ keys, EditingKey key) :
    ∃ after, pressKeys console keys = .ok after ∧
      Edited console after (keys.foldl (fun text key => editText key text) zipper) := by
  induction keys generalizing console zipper with
  | nil => exact ⟨console, rfl, line.edited⟩
  | cons key keys ih =>
    obtain ⟨middle, handles, first⟩ := consoleHandleKey_edits line (editing key List.mem_cons_self)
    obtain ⟨after, presses, rest⟩ := ih first.line fun key member => editing key (List.mem_cons_of_mem _ member)
    refine ⟨after, ?_, first.trans rest⟩
    rw [pressKeys, handles]
    exact presses

/-- The line, as the buffer and the position show it. -/
structure LineKept (console : Console) (zipper : TextZipper UInt8 (maxInputLen - 1)) : Prop where
  refines : LineIs console zipper
  length : strLen console.inputBuffer = .ok (zipper.text.length : Int)
  short : zipper.text.length ≤ 255
  front : 0 ≤ console.inputPos
  back : console.inputPos ≤ zipper.text.length

theorem LineIs.kept (line : LineIs console zipper) : LineKept console zipper := by
  have inside := zipper.position_le
  have position := line.position
  refine ⟨line, strLen_eq line.text (by decide), zipper.length_le, ?_, ?_⟩ <;> omega

/-- From an empty line on the keys that edit it return, and the line is the text that
their operations make of the empty one. -/
theorem edited_line_refines (console : Console) (start : console.inputBuffer 0 = 0) (front : console.inputPos = 0)
    (keys : List Int) (editing : ∀ key ∈ keys, EditingKey key) :
    ∃ after, pressKeys console keys = .ok after ∧
      LineKept after (keys.foldl (fun text key => editText key text) TextZipper.empty) := by
  have line : LineIs console TextZipper.empty := ⟨empty_lies (by decide) start, front⟩
  obtain ⟨after, presses, edited⟩ := pressKeys_edits line keys editing
  exact ⟨after, presses, edited.line.kept⟩

/-- `console_init`, with nothing in the history. -/
def freshConsole : Console := ⟨fun _ => 0, 0, fun _ _ => 0, 0, -1⟩

/-- "ac", one to the left, and "b". -/
theorem edited_line_refines_abc :
    ∃ after, pressKeys freshConsole [0x61, 0x63, keyLeft, 0x62] = .ok after ∧
      LineKept after (([0x61, 0x63, keyLeft, 0x62] : List Int).foldl
        (fun text key => editText key text) TextZipper.empty) :=
  edited_line_refines freshConsole rfl rfl _ (by simp [EditingKey, keyLeft])

end Kernix.Proofs
