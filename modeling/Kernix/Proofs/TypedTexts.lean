import Kernix.Gui.TextEditor
import Kernix.Lib.Document
import Kernix.Proofs.EditorRows
import Kernix.Proofs.GuiLists
import Kernix.Proofs.LineEditing

/-! The text editor of the GUI moves whole rows for a cursor anywhere, but no key takes
the cursor away from the end of the text: the keys type a text at its end alone. -/

namespace Kernix.Proofs

variable {state : TextEditorState} {lines : Fin textEditorLines → TextEditorLine} {row : TextEditorLine}
  {texts : List (List UInt8)} {line : List UInt8}

/-- The longest line and the largest number of lines that can be typed. -/
abbrev EditorText := TypedText UInt8 (textEditorCols - 1) (textEditorLines - 1)

/-- The first rows hold the texts. -/
def RowsHeld (lines : Fin textEditorLines → TextEditorLine) (texts : List (List UInt8)) : Prop :=
  ∀ (index : Nat) (line : List UInt8), texts[index]? = some line →
    ∃ inside : index < textEditorLines, TextIs (lines ⟨index, inside⟩) 0 line

/-- The cursor is at the end of the text that the rows hold. -/
structure EndsAt (state : TextEditorState) (text : EditorText) : Prop where
  rows : RowsHeld state.lines text.lines
  count : state.lineCount = text.above.length + 1
  line : state.cursorLine = text.above.length
  column : state.cursorCol = text.line.length

/-- The ten lines that are shown have the cursor among them. -/
structure ShowsCursor (state : TextEditorState) : Prop where
  top : 0 ≤ state.scrollOffset
  above : state.scrollOffset ≤ state.cursorLine
  below : state.cursorLine ≤ state.scrollOffset + 9

/-- What a key means for the text. -/
def typeKey (text : EditorText) (key : Int) : EditorText :=
  if key = 0x08 then text.erase
  else if key = 0x0A then text.newLine
  else if 32 ≤ key ∧ key ≤ 126 then text.append (UInt8.ofNat key.toNat)
  else text

section Rows

theorem RowsHeld.front {more : List (List UInt8)} (held : RowsHeld lines (texts ++ more)) : RowsHeld lines texts := by
  intro index line found
  have inside := (List.getElem?_eq_some_iff.mp found).1
  exact held index line (by rw [List.getElem?_append_left inside, found])

theorem RowsHeld.last (held : RowsHeld lines (texts ++ [line])) :
    ∃ inside : texts.length < textEditorLines, TextIs (lines ⟨texts.length, inside⟩) 0 line :=
  held texts.length line (by rw [List.getElem?_append_right (Nat.le_refl _), Nat.sub_self]; rfl)

/-- The row behind the texts gets the last of them. -/
theorem RowsHeld.put (held : RowsHeld lines texts) (inside : texts.length < textEditorLines) (lies : TextIs row 0 line) :
    RowsHeld (Function.update lines ⟨texts.length, inside⟩ row) (texts ++ [line]) := by
  intro index other found
  by_cases early : index < texts.length
  · rw [List.getElem?_append_left early] at found
    obtain ⟨fits, text⟩ := held index other found
    refine ⟨fits, ?_⟩
    rwa [Function.update_of_ne (by simp only [ne_eq, Fin.ext_iff]; omega)]
  · obtain ⟨bound, value⟩ := List.getElem?_eq_some_iff.mp found
    rw [List.length_append, List.length_singleton] at bound
    obtain rfl : index = texts.length := by omega
    rw [List.getElem_append_right (Nat.le_refl _)] at value
    simp only [Nat.sub_self, List.getElem_singleton] at value
    subst value
    exact ⟨inside, by rwa [Function.update_self]⟩

/-- A row may be written anew with the line that it held. -/
theorem RowsHeld.renew (held : RowsHeld lines texts) {index : Nat} (inside : index < textEditorLines)
    (lies : ∀ line, texts[index]? = some line → TextIs row 0 line) :
    RowsHeld (Function.update lines ⟨index, inside⟩ row) texts := by
  intro other line found
  by_cases same : other = index
  · subst same
    exact ⟨inside, by simpa using lies line found⟩
  · obtain ⟨fits, text⟩ := held other line found
    refine ⟨fits, ?_⟩
    rwa [Function.update_of_ne (by simpa [Fin.ext_iff] using same)]

/-- A terminator over the terminator. -/
theorem TextIs.ended (lies : TextIs row 0 line) (inside : line.length < textEditorCols) :
    TextIs (Function.update row ⟨line.length, inside⟩ 0) 0 line := by
  rw [← List.append_nil line] at lies
  exact lies.truncate inside

/-- A character goes between the last line of a row and its terminator. -/
theorem TextIs.typed {value : UInt8} (lies : TextIs row 0 line) (nonzero : value ≠ 0)
    (room : line.length + 1 < textEditorCols) :
    ∃ moved after, pushElements row (textEditorCols - 1 - line.length) (textEditorCols - 1 : Int) = .ok moved ∧
      setElement moved line.length value = .ok after ∧ TextIs after 0 (line ++ [value]) := by
  have bytes := lies.bytes
  have terminated := lies.terminated
  simp only [Nat.zero_add] at bytes terminated
  refine ⟨_, _, pushElements_moves row (Nat.sub_le _ _) (by omega), setElement_eq _ (Nat.lt_of_succ_lt room) _,
    ⟨by simpa using room, ?_, ?_, ?_⟩⟩
  · intro index inside
    rw [List.length_append, List.length_singleton] at inside
    simp only [Nat.zero_add]
    by_cases last : index = line.length
    · subst last
      simp
    · rw [Function.update_of_ne (by simpa [Fin.ext_iff] using last), if_neg (by dsimp only; omega), bytes index (by omega),
        List.getElem_append_left (by omega)]
  · simp only [List.length_append, List.length_singleton, Nat.zero_add]
    rw [Function.update_of_ne (by simp [Fin.ext_iff]), if_pos (by dsimp only; omega)]
    exact terminated
  · simp only [List.mem_append, List.mem_singleton, not_or]
    exact ⟨lies.clean, Ne.symm nonzero⟩

/-- The terminator moves over the last character. -/
theorem TextIs.erased {value : UInt8} (lies : TextIs row 0 (line ++ [value])) :
    ∃ after, shiftElements row (textEditorCols - 1 - line.length) line.length = .ok after ∧ TextIs after 0 line := by
  have fits := lies.fits
  have bytes := lies.bytes
  have terminated := lies.terminated
  have clean := lies.clean
  simp only [List.length_append, List.length_singleton, Nat.zero_add, List.mem_append, not_or] at fits bytes terminated clean
  rw [shiftElements_eq _ (by omega)]
  refine ⟨_, rfl, ⟨by omega, ?_, ?_, clean.1⟩⟩
  · intro index inside
    simp only [Nat.zero_add, SlotList.shifted]
    rw [dif_neg (by omega), bytes index (by omega), List.getElem_append_left inside]
  · simp only [Nat.zero_add, SlotList.shifted]
    rw [dif_pos (by omega)]
    exact terminated

end Rows

section Keys

variable {text : EditorText}

/-- What a branch of the handler leaves: the new text, and the lines that were shown. -/
def LeavesText (state : TextEditorState) (branch : Except Stop TextEditorState) (text : EditorText) : Prop :=
  ∃ after, branch = .ok after ∧ after.scrollOffset = state.scrollOffset ∧ EndsAt after text

/-- The row of the cursor holds the last line. -/
theorem EndsAt.lastRow (ends : EndsAt state text) :
    ∃ row, elementAt state.lines state.cursorLine = .ok row ∧ TextIs row 0 text.line := by
  obtain ⟨inside, lies⟩ := RowsHeld.last ends.rows
  simp only [List.length_reverse] at inside lies
  exact ⟨_, by rw [ends.line, elementAt_eq _ inside], lies⟩

/-- A row that is put in the place of the last one changes the last line. -/
theorem EndsAt.putRow (ends : EndsAt state text) (lies : TextIs row 0 line) :
    ∃ lines, setElement state.lines state.cursorLine row = .ok lines ∧
      RowsHeld lines (text.above.reverse ++ [line]) := by
  have inside : text.above.reverse.length < textEditorLines := by
    rw [List.length_reverse]
    exact text.low.trans (by decide)
  refine ⟨_, ?_, RowsHeld.put (RowsHeld.front ends.rows) inside lies⟩
  rw [ends.line, ← List.length_reverse, setElement_eq _ inside]

theorem textEditorInsert_leaves (ends : EndsAt state text) {key : Int} (low : 32 ≤ key) (high : key ≤ 126) :
    LeavesText state (textEditorInsert state key) (text.append (UInt8.ofNat key.toNat)) := by
  have width := text.line_length_le
  unfold textEditorInsert TypedText.append
  by_cases room : text.line.length < textEditorCols - 1
  · obtain ⟨row, found, lies⟩ := ends.lastRow
    obtain ⟨moved, after, pushes, puts, typed⟩ := lies.typed (char_nonzero low high) (by omega)
    obtain ⟨lines, put, rows⟩ := ends.putRow typed
    have passes : (textEditorCols - 1 - state.cursorCol).toNat = textEditorCols - 1 - text.line.length := by
      rw [ends.column]
      omega
    refine ⟨{ state with lines, cursorCol := state.cursorCol + 1 }, ?_, rfl, ?_⟩
    · rw [if_pos (by rw [ends.column]; omega), found, passes, ends.column]
      simp only [bind, Except.bind, pushes, puts, put]
      rfl
    · rw [dif_pos room]
      refine ⟨rows, ends.count, ends.line, ?_⟩
      simp [ends.column]
  · rw [dif_neg room, if_neg (by rw [ends.column]; omega)]
    exact ⟨state, rfl, rfl, ends⟩

/-- At the end of the text the loop over the lines below does nothing, and what goes into
the next row is empty. -/
theorem textEditorNewline_leaves (ends : EndsAt state text) : LeavesText state (textEditorNewline state) text.newLine := by
  unfold textEditorNewline TypedText.newLine
  by_cases room : text.above.length + 1 < textEditorLines - 1
  · obtain ⟨row, found, lies⟩ := ends.lastRow
    have none : (state.lineCount - (state.cursorLine + 1)).toNat = 0 := by
      rw [ends.count, ends.line]
      omega
    have held : RowsHeld state.lines (text.above.reverse ++ [text.line]) := ends.rows
    obtain ⟨inside, lies⟩ := held.last
    have next : (text.above.reverse ++ [text.line]).length < textEditorLines := by
      simp only [List.length_append, List.length_reverse, List.length_singleton]
      omega
    have empty : TextIs (state.lines ⟨text.above.reverse.length, inside⟩) text.line.length [] := by
      apply TextIs.suffix
      rwa [List.append_nil]
    obtain ⟨opened, copies, lies'⟩ := strCopyRow_copies next inside empty
    have grown := held.put next lies'
    obtain ⟨inside', lies''⟩ := grown.front.last
    have width := lies''.fits
    have fits : text.line.length < textEditorCols := by omega
    have cut := lies''.ended fits
    have line : state.cursorLine = (text.above.reverse.length : Nat) := by rw [ends.line, List.length_reverse]
    have below : ((text.above.reverse.length : Nat) : Int) + 1 = ((text.above.reverse ++ [text.line]).length : Nat) := by
      simp
    rw [if_pos (by rw [ends.count]; omega), none, dif_pos room]
    have renewed : RowsHeld _ (text.above.reverse ++ [text.line] ++ [[]]) := grown.renew inside' (by
      intro other found
      rw [List.append_assoc, List.getElem?_append_right (Nat.le_refl _), Nat.sub_self] at found
      cases found
      exact cut)
    simp only [bind, Except.bind, pushLines, line, below, ends.column, copies, elementAt_eq _ inside,
      setElement_eq _ fits, setElement_eq _ inside]
    refine ⟨_, rfl, rfl, ?_, ?_, ?_, rfl⟩
    · rwa [TypedText.lines, List.reverse_cons]
    · simp [ends.count]
    · simp
  · rw [if_neg (by rw [ends.count]; omega), dif_neg room]
    exact ⟨state, rfl, rfl, ends⟩

/-- At the start of the last line that line is empty, and no line is below it. -/
theorem textEditorBackspace_leaves (ends : EndsAt state text) : LeavesText state (textEditorBackspace state) text.erase := by
  obtain ⟨above, line, narrow, low⟩ := text
  unfold textEditorBackspace
  cases line with
  | cons item line =>
    obtain ⟨row, found, lies⟩ := ends.lastRow
    have split := List.dropLast_append_getLast (List.cons_ne_nil item line)
    dsimp only at lies
    rw [← split] at lies
    obtain ⟨after, shifts, erased⟩ := lies.erased
    obtain ⟨lines, put, rows⟩ := ends.putRow erased
    have column : state.cursorCol - 1 = ((item :: line).dropLast.length : Nat) := by
      rw [ends.column, List.length_dropLast]
      simp
    have passes : (textEditorCols - 1 - ((item :: line).dropLast.length : Int)).toNat =
        textEditorCols - 1 - (item :: line).dropLast.length := by omega
    refine ⟨{ state with lines, cursorCol := state.cursorCol - 1 }, ?_, rfl, rows, ends.count, ends.line, column⟩
    rw [if_pos (by rw [ends.column]; simp), found, column]
    simp only [bind, Except.bind, passes, Int.toNat_natCast, shifts, put]
    rfl
  | nil =>
    have start : state.cursorCol = 0 := ends.column
    rw [if_neg (by rw [start]; decide)]
    cases above with
    | nil =>
      rw [if_neg (by rw [ends.line]; simp)]
      exact ⟨state, rfl, rfl, ends⟩
    | cons previous above =>
      obtain ⟨current, found, lies⟩ := ends.lastRow
      have front : RowsHeld state.lines (above.reverse ++ [previous]) := by
        have rows := ends.rows.front
        rwa [List.reverse_cons] at rows
      obtain ⟨inside, text⟩ := front.last
      obtain ⟨joined, appends, text'⟩ := strAppend_joins text (List.not_mem_nil : (0 : UInt8) ∉ []) (by
        have fits := text.fits
        simp only [List.length_nil]
        omega)
      rw [List.append_nil] at text'
      have line : state.cursorLine = (above.reverse.length : Nat) + 1 := by
        rw [ends.line]
        simp
      have none : (state.lineCount - 1 - ((above.reverse.length : Int) + 1)).toNat = 0 := by
        rw [ends.count]
        simp
      have count : state.lineCount - 1 = above.length + 1 := by
        rw [ends.count]
        simp
      rw [if_pos (by omega), line, Int.add_sub_cancel]
      rw [line] at found
      simp only [bind, Except.bind, elementAt_eq _ inside, strLen_eq text (by decide), found, lies.ok, appends,
        setElement_eq _ inside, none, pullLines]
      have rows := front.front.put inside text'
      exact ⟨_, rfl, rfl, rows, count, congrArg Int.ofNat List.length_reverse, rfl⟩

theorem EndsAt.scrolled (ends : EndsAt state text) : EndsAt (scrollToCursor state) text := by
  unfold scrollToCursor
  split
  · exact ⟨ends.rows, ends.count, ends.line, ends.column⟩
  · split
    · exact ⟨ends.rows, ends.count, ends.line, ends.column⟩
    · exact ends

/-- The ten lines follow the cursor from anywhere. -/
theorem scrollToCursor_shows (top : 0 ≤ state.scrollOffset) (line : 0 ≤ state.cursorLine) :
    ShowsCursor (scrollToCursor state) := by
  unfold scrollToCursor
  split
  · exact ⟨line, Int.le_refl _, by dsimp only; omega⟩
  · split
    · exact ⟨by dsimp only; omega, by dsimp only; omega, by dsimp only; omega⟩
    · exact ⟨top, by omega, by omega⟩

theorem textEditorKey_leaves (ends : EndsAt state text) (key : Int) :
    LeavesText state (textEditorKey state key) (typeKey text key) := by
  unfold textEditorKey typeKey
  by_cases back : key = 0x08
  · rw [if_pos back, if_pos back]
    exact textEditorBackspace_leaves ends
  by_cases enter : key = 0x0A
  · rw [if_neg back, if_neg back, if_pos enter, if_pos enter]
    exact textEditorNewline_leaves ends
  by_cases printable : 32 ≤ key ∧ key ≤ 126
  · rw [if_neg back, if_neg back, if_neg enter, if_neg enter, if_pos printable, if_pos printable]
    exact textEditorInsert_leaves ends printable.1 printable.2
  · rw [if_neg back, if_neg back, if_neg enter, if_neg enter, if_neg printable, if_neg printable]
    exact ⟨state, rfl, rfl, ends⟩

/-- One key types its part of the text. -/
theorem guiTextEditorHandleKey_types (ends : EndsAt state text) (shows : ShowsCursor state) (key : Int) :
    ∃ after, guiTextEditorHandleKey state key = .ok after ∧ EndsAt after (typeKey text key) ∧ ShowsCursor after := by
  obtain ⟨after, returns, kept, typed⟩ := textEditorKey_leaves ends key
  have line : 0 ≤ after.cursorLine := by
    rw [typed.line]
    omega
  refine ⟨scrollToCursor after, ?_, typed.scrolled, scrollToCursor_shows (kept ▸ shows.top) line⟩
  unfold guiTextEditorHandleKey
  rw [returns]
  rfl

/-- What the state held before is cleared away. -/
theorem guiTextEditorInit_empties (old : TextEditorState) :
    ∃ state, guiTextEditorInit old = .ok state ∧ EndsAt state (TypedText.empty (by decide)) ∧ ShowsCursor state := by
  have inside : 0 < textEditorCols := by decide
  have start : 0 < textEditorLines := by decide
  have first : elementAt old.lines 0 = .ok (old.lines ⟨0, start⟩) := elementAt_eq old.lines start
  have cleared : strCopy (old.lines ⟨0, start⟩) [] = .ok (Function.update (old.lines ⟨0, start⟩) ⟨0, inside⟩ 0) := by
    unfold strCopy strCopyFrom
    rw [dif_pos inside]
  have put (row : TextEditorLine) : setElement old.lines 0 row = .ok (Function.update old.lines ⟨0, start⟩ row) :=
    setElement_eq old.lines start row
  have lies : TextIs (Function.update (old.lines ⟨0, start⟩) ⟨0, inside⟩ 0) 0 [] := empty_lies inside (by simp)
  unfold guiTextEditorInit
  simp only [bind, Except.bind, first, cleared, put]
  refine ⟨_, rfl, ⟨?_, rfl, rfl, rfl⟩, ⟨Int.le_refl 0, Int.le_refl 0, by simp⟩⟩
  have none : RowsHeld old.lines [] := fun index line found => by cases found
  exact none.put start lies

end Keys

/-- Keys handled one after the other. -/
def typeKeys (state : TextEditorState) : List Int → Except Stop TextEditorState
  | [] => .ok state
  | key :: keys => do
    let state ← guiTextEditorHandleKey state key
    typeKeys state keys

/-- The text that keys type. -/
def typedText (keys : List Int) : EditorText := keys.foldl typeKey (TypedText.empty (by decide))

theorem typeKeys_types {text : EditorText} (ends : EndsAt state text) (shows : ShowsCursor state) (keys : List Int) :
    ∃ after, typeKeys state keys = .ok after ∧ EndsAt after (keys.foldl typeKey text) ∧ ShowsCursor after := by
  induction keys generalizing state text with
  | nil => exact ⟨state, rfl, ends, shows⟩
  | cons key keys ih =>
    obtain ⟨next, handles, ends', shows'⟩ := guiTextEditorHandleKey_types ends shows key
    obtain ⟨after, types, typed⟩ := ih ends' shows'
    refine ⟨after, ?_, typed⟩
    rw [typeKeys, handles]
    exact types

/-- Whatever an editor held before, any keys after its initialization leave the text that
they type, with the cursor at its end and among the lines that are shown. -/
theorem textEditor_types (old : TextEditorState) (keys : List Int) :
    ∃ state : TextEditorState, (do
        let state ← guiTextEditorInit old
        typeKeys state keys) = .ok state ∧
      RowsHeld state.lines (typedText keys).lines ∧ state.lineCount = (typedText keys).lines.length ∧
      state.cursorLine = state.lineCount - 1 ∧ state.cursorLine ≤ 98 ∧
      state.cursorCol = (typedText keys).line.length ∧ state.cursorCol ≤ 79 ∧
      0 ≤ state.scrollOffset ∧ state.scrollOffset ≤ state.cursorLine ∧ state.cursorLine ≤ state.scrollOffset + 9 := by
  obtain ⟨start, inits, empty, shown⟩ := guiTextEditorInit_empties old
  obtain ⟨state, types, ends, shows⟩ := typeKeys_types empty shown keys
  have low : (typedText keys).above.length < 100 - 1 := (typedText keys).low
  have width : (typedText keys).line.length ≤ 80 - 1 := (typedText keys).line_length_le
  have count : state.lineCount = (typedText keys).above.length + 1 := ends.count
  have line : state.cursorLine = (typedText keys).above.length := ends.line
  have column : state.cursorCol = (typedText keys).line.length := ends.column
  refine ⟨state, ?_, ends.rows, ?_, by omega, by omega, column, by omega, shows.top, shows.above, shows.below⟩
  · rw [inits]
    exact types
  · rw [count, TypedText.length_lines]
    rfl

end Kernix.Proofs
