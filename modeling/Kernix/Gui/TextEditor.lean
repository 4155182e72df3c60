import Kernix.Common.Array

/-! The text editor of the GUI, as `text_editor.c` keeps its lines. Drawing is left out. -/

namespace Kernix

/-- `GUI_TEXT_EDITOR_LINES`. -/
abbrev textEditorLines : Nat := 100
/-- `GUI_TEXT_EDITOR_COLS`. -/
abbrev textEditorCols : Nat := 80

abbrev TextEditorLine := Fin textEditorCols → UInt8

/-- `gui_text_editor_state_t`. -/
structure TextEditorState where
  lines : Fin textEditorLines → TextEditorLine
  lineCount : Int
  cursorLine : Int
  cursorCol : Int
  scrollOffset : Int

def guiTextEditorInit (state : TextEditorState) : Except Stop TextEditorState := do
  let first ← elementAt state.lines 0
  let first ← strCopy first []
  let lines ← setElement state.lines 0 first
  return { lines, lineCount := 1, cursorLine := 0, cursorCol := 0, scrollOffset := 0 }

/-- The loop that moves the lines behind a joined one up, `left` lines from `i` on. -/
def pullLines : Nat → Int → (Fin textEditorLines → TextEditorLine) → Except Stop (Fin textEditorLines → TextEditorLine)
  | 0, _, lines => .ok lines
  | left + 1, i, lines => do
    let lines ← strCopyRow lines i (i + 1) 0
    pullLines left (i + 1) lines

/-- The loop that makes room for a line, `left` lines down from `i`. -/
def pushLines : Nat → Int → (Fin textEditorLines → TextEditorLine) → Except Stop (Fin textEditorLines → TextEditorLine)
  | 0, _, lines => .ok lines
  | left + 1, i, lines => do
    let lines ← strCopyRow lines i (i - 1) 0
    pushLines left (i - 1) lines

/-- The `'\b'` branch. -/
def textEditorBackspace (state : TextEditorState) : Except Stop TextEditorState := do
  if 0 < state.cursorCol then
    let cursorCol := state.cursorCol - 1
    let row ← elementAt state.lines state.cursorLine
    let row ← shiftElements row (textEditorCols - 1 - cursorCol).toNat cursorCol.toNat
    let lines ← setElement state.lines state.cursorLine row
    return { state with lines, cursorCol }
  else if 0 < state.cursorLine then
    let previous ← elementAt state.lines (state.cursorLine - 1)
    let prevLen ← strLen previous
    let current ← elementAt state.lines state.cursorLine
    let source ← textAt current 0
    let joined ← strAppend previous source
    let lines ← setElement state.lines (state.cursorLine - 1) joined
    let cursorLine := state.cursorLine - 1
    let lines ← pullLines (state.lineCount - 1 - (cursorLine + 1)).toNat (cursorLine + 1) lines
    return { state with lines, cursorLine, cursorCol := prevLen, lineCount := state.lineCount - 1 }
  else return state

/-- The `'\n'` branch. -/
def textEditorNewline (state : TextEditorState) : Except Stop TextEditorState := do
  if state.lineCount < textEditorLines - 1 then
    let lines ← pushLines (state.lineCount - (state.cursorLine + 1)).toNat state.lineCount state.lines
    let lines ← strCopyRow lines (state.cursorLine + 1) state.cursorLine state.cursorCol
    let current ← elementAt lines state.cursorLine
    let current ← setElement current state.cursorCol 0
    let lines ← setElement lines state.cursorLine current
    return { state with lines, cursorLine := state.cursorLine + 1, cursorCol := 0, lineCount := state.lineCount + 1 }
  return state

/-- The branch of the printable characters. -/
def textEditorInsert (state : TextEditorState) (key : Int) : Except Stop TextEditorState := do
  if state.cursorCol < textEditorCols - 1 then
    let row ← elementAt state.lines state.cursorLine
    let row ← pushElements row (textEditorCols - 1 - state.cursorCol).toNat (textEditorCols - 1)
    let row ← setElement row state.cursorCol (UInt8.ofNat key.toNat)
    let lines ← setElement state.lines state.cursorLine row
    return { state with lines, cursorCol := state.cursorCol + 1 }
  return state

/-- Ten lines from the offset on hold the cursor after each key. -/
def scrollToCursor (state : TextEditorState) : TextEditorState :=
  if state.cursorLine < state.scrollOffset then { state with scrollOffset := state.cursorLine }
  else if state.scrollOffset + 10 ≤ state.cursorLine then { state with scrollOffset := state.cursorLine - 9 }
  else state

/-- What a key does to the text. -/
def textEditorKey (state : TextEditorState) (key : Int) : Except Stop TextEditorState :=
  if key = 0x08 then textEditorBackspace state
  else if key = 0x0A then textEditorNewline state
  else if 32 ≤ key ∧ key ≤ 126 then textEditorInsert state key
  else .ok state

def guiTextEditorHandleKey (state : TextEditorState) (key : Int) : Except Stop TextEditorState := do
  let state ← textEditorKey state key
  return scrollToCursor state

end Kernix
