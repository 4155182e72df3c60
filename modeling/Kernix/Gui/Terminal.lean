import Kernix.Common.Array

/-! The terminal of the GUI, as `terminal.c` keeps its lines and its scroll bar. What is
drawn is left out, and with it the cursor. -/

namespace Kernix

/-- `GUI_OUTPUT_LINES`. -/
abbrev guiOutputLines : Nat := 100
/-- `GUI_OUTPUT_COLS`. -/
abbrev guiOutputCols : Nat := 256
/-- `MAX_LINE_LENGTH`. -/
abbrev maxLineLength : Nat := 512

abbrev OutputRow := Fin guiOutputCols → UInt8

/-- The static buffer of `gui_terminal_print`, which all terminals share. -/
abbrev CurrentLine := Fin maxLineLength → UInt8

/-- `gui_terminal_state_t`. -/
structure TerminalState where
  inputPos : Int
  outputBuffer : Fin guiOutputLines → OutputRow
  outputColors : Fin guiOutputLines → UInt32
  outputLineCount : Int
  windowWidthChars : Int
  windowHeightLines : Int
  scrollOffset : Int
  scrollbarVisible : Bool
  scrollbarX : Int
  scrollbarY : Int
  scrollbarWidth : Int
  scrollbarHeight : Int
  scrollbarThumbY : Int
  scrollbarThumbHeight : Int
  scrollbarDragging : Bool
  scrollbarDragStartY : Int

section Output

/-- The loop of `gui_terminal_add_line` that drops the first line, `left` lines from `i` on. -/
def scrollLines (state : TerminalState) : Nat → Int → Except Stop TerminalState
  | 0, _ => .ok state
  | left + 1, i => do
    let outputBuffer ← strCopyRow state.outputBuffer i (i + 1) 0
    let color ← elementAt state.outputColors (i + 1)
    let outputColors ← setElement state.outputColors i color
    scrollLines { state with outputBuffer, outputColors } left (i + 1)

/-- A full buffer loses its first line. -/
def makeRoom (state : TerminalState) : Except Stop TerminalState := do
  if state.outputLineCount < guiOutputLines then return state
  let state ← scrollLines state (guiOutputLines - 1) 0
  return { state with outputLineCount := guiOutputLines - 1 }

/-- A line that is longer than a row loses its end. -/
def guiTerminalAddLine (state : TerminalState) (line : List UInt8) (color : UInt32) : Except Stop TerminalState := do
  let state ← makeRoom state
  let row ← elementAt state.outputBuffer state.outputLineCount
  let row ← strCopy row (line.take (guiOutputCols - 1))
  let outputBuffer ← setElement state.outputBuffer state.outputLineCount row
  let outputColors ← setElement state.outputColors state.outputLineCount color
  return { state with outputBuffer, outputColors, outputLineCount := state.outputLineCount + 1, scrollOffset := 0 }

/-- The loop that copies a piece, `left` characters from `i` on. -/
def copyPiece (currentLine : CurrentLine) (pos : Int) : Nat → Int → CurrentLine → Except Stop CurrentLine
  | 0, _, line => .ok line
  | left + 1, i, line => do
    let char ← elementAt currentLine (pos + i)
    let line ← setElement line i char
    copyPiece currentLine pos left (i + 1) line

/-- The loop over the pieces of a line. A pass that takes no character is repeated for ever,
as is known when there were more passes than characters. -/
def printPieces (currentLine : CurrentLine) (currentPos : Int) (color : UInt32) :
    Nat → Int → TerminalState → Except Stop TerminalState
  | 0, _, _ => .error .halted
  | passes + 1, pos, state => do
    if pos < currentPos then
      let len := if currentPos - pos > state.windowWidthChars then state.windowWidthChars else currentPos - pos
      let line ← copyPiece currentLine pos len.toNat 0 fun _ => 0
      let line ← setElement line len 0
      let piece ← textAt line 0
      let state ← guiTerminalAddLine state piece color
      printPieces currentLine currentPos color passes (pos + len) state
    else return state

/-- A line is complete: its terminator is written, and its pieces are printed. -/
def printLine (currentLine : CurrentLine) (currentPos : Int) (color : UInt32) (state : TerminalState) :
    Except Stop (CurrentLine × TerminalState) := do
  let currentLine ← setElement currentLine currentPos 0
  let state ← printPieces currentLine currentPos color (currentPos.toNat + 1) 0 state
  return (currentLine, state)

/-- The loop of `gui_terminal_print` over its text and the part behind it. -/
def printFrom (color : UInt32) (currentLine : CurrentLine) (currentPos : Int) (state : TerminalState) :
    List UInt8 → Except Stop (CurrentLine × TerminalState)
  | [] => if 0 < currentPos then printLine currentLine currentPos color state else .ok (currentLine, state)
  | char :: text => do
    if char = 0x0A then
      let (currentLine, state) ← printLine currentLine currentPos color state
      printFrom color currentLine 0 state text
    else
      let currentLine ← setElement currentLine currentPos char
      printFrom color currentLine (currentPos + 1) state text

def guiTerminalPrint (currentLine : CurrentLine) (state : TerminalState) (text : List UInt8) (color : UInt32) :
    Except Stop (CurrentLine × TerminalState) :=
  printFrom color currentLine 0 state text

end Output

section Scrolling

/-- `WINDOW_TITLE_HEIGHT`. -/
abbrev windowTitleHeight : Int := 25

/-- `CHAR_WIDTH`. -/
abbrev charWidth : Int := 8

/-- `CHAR_HEIGHT`. -/
abbrev charHeight : Int := 16

/-- The place of the window that a terminal is drawn in. -/
structure TerminalWindow where
  x : Int
  y : Int
  width : Int
  height : Int

/-- The division of C. A divisor of zero is undefined. -/
def quotient (dividend divisor : Int) : Except Stop Int :=
  if divisor = 0 then .error .undefined else .ok (dividend.tdiv divisor)

/-- The part of the height that is on the screen. -/
def effectiveHeight (screenBottom : Int) (window : TerminalWindow) : Int :=
  let height := if screenBottom < window.y + window.height then screenBottom - window.y else window.height
  if height < windowTitleHeight + 10 then windowTitleHeight + 10 else height

/-- `window_height_lines` of a window. -/
def heightLines (screenBottom : Int) (window : TerminalWindow) : Int :=
  let height := effectiveHeight screenBottom window
  if height > windowTitleHeight + 5 then (height - windowTitleHeight - 10).tdiv charHeight else 1

/-- The thumb of a scroll bar that is visible. -/
def placeThumb (state : TerminalState) : Except Stop TerminalState := do
  let totalLines := state.outputLineCount
  let visibleLines := state.windowHeightLines
  if totalLines ≤ 0 then return state
  let height ← quotient (state.scrollbarHeight * visibleLines) totalLines
  let height := if height < 20 then 20 else height
  let height := if height > state.scrollbarHeight then state.scrollbarHeight else height
  let scrollableLines := totalLines - visibleLines
  if 0 < scrollableLines then
    let offset ← quotient ((state.scrollbarHeight - height) * state.scrollOffset) scrollableLines
    return { state with scrollbarThumbHeight := height, scrollbarThumbY := state.scrollbarY + offset }
  return { state with scrollbarThumbHeight := height, scrollbarThumbY := state.scrollbarY }

def guiTerminalUpdateWindowSize (screenBottom : Int) (state : TerminalState) (window : TerminalWindow) :
    Except Stop TerminalState := do
  let windowWidthChars := if window.width > 10 then (window.width - 10).tdiv charWidth else 1
  let windowHeightLines := heightLines screenBottom window
  let scrollbarVisible := decide (state.outputLineCount > windowHeightLines)
  let state := { state with windowWidthChars, windowHeightLines, scrollbarVisible }
  if scrollbarVisible then
    placeThumb { state with scrollbarWidth := 15
                            scrollbarHeight := effectiveHeight screenBottom window - windowTitleHeight - 10
                            scrollbarX := window.x + window.width - 15 - 5
                            scrollbarY := window.y + windowTitleHeight + 5 }
  else return state

def guiTerminalHandleScroll (state : TerminalState) (delta : Int) : TerminalState :=
  let maxScroll := state.outputLineCount - state.windowHeightLines
  let maxScroll := if maxScroll < 0 then 0 else maxScroll
  if delta > 0 then
    { state with scrollOffset := if state.scrollOffset + 3 > maxScroll then maxScroll else state.scrollOffset + 3 }
  else { state with scrollOffset := if state.scrollOffset - 3 < 0 then 0 else state.scrollOffset - 3 }

/-- The line that a place on the track stands for, between the first and the last. -/
def scrollTo (state : TerminalState) (position scrollableLines trackHeight : Int) : Except Stop TerminalState := do
  let offset ← quotient (position * scrollableLines) trackHeight
  let offset := if offset < 0 then 0 else offset
  return { state with scrollOffset := if offset > scrollableLines then scrollableLines else offset }

def guiTerminalHandleScrollbarClick (state : TerminalState) (x y : Int) : Except Stop TerminalState := do
  if !state.scrollbarVisible then return state
  if state.scrollbarX ≤ x ∧ x < state.scrollbarX + state.scrollbarWidth ∧
      state.scrollbarThumbY ≤ y ∧ y < state.scrollbarThumbY + state.scrollbarThumbHeight then
    return { state with scrollbarDragging := true, scrollbarDragStartY := y - state.scrollbarThumbY }
  else if state.scrollbarX ≤ x ∧ x < state.scrollbarX + state.scrollbarWidth ∧
      state.scrollbarY ≤ y ∧ y < state.scrollbarY + state.scrollbarHeight then
    let scrollableLines := state.outputLineCount - state.windowHeightLines
    if 0 < scrollableLines then scrollTo state (y - state.scrollbarY) scrollableLines state.scrollbarHeight
    else return state
  else return state

def guiTerminalHandleScrollbarDrag (state : TerminalState) (y : Int) : Except Stop TerminalState := do
  if !state.scrollbarDragging || !state.scrollbarVisible then return state
  let scrollableLines := state.outputLineCount - state.windowHeightLines
  if scrollableLines ≤ 0 then return state
  let trackHeight := state.scrollbarHeight - state.scrollbarThumbHeight
  let dragPos := y - state.scrollbarDragStartY - state.scrollbarY
  let dragPos := if dragPos < 0 then 0 else dragPos
  let dragPos := if dragPos > trackHeight then trackHeight else dragPos
  scrollTo state dragPos scrollableLines trackHeight

def guiTerminalHandleScrollbarRelease (state : TerminalState) : TerminalState := { state with scrollbarDragging := false }

end Scrolling

section Input

/-- `User` and `Host` of `config/user.h`. -/
def user : List UInt8 := literal "kernix"

def host : List UInt8 := literal "host"

/-- `TERM_COLOR_PROMPT` and `TERM_COLOR_ERROR`. -/
abbrev termColorPrompt : UInt32 := 0xFFFFFFFF

abbrev termColorError : UInt32 := 0xFFFF0000

/-- The buffers that a prompt is made in. -/
abbrev PromptBuffer := Fin 64 → UInt8

/-- `cwd` as a prompt shows it, without a slash at its end. -/
def promptDirectory (cwd : List UInt8) : Except Stop (List UInt8) := do
  if cwd.length = 0 then return literal "/"
  if 1 < cwd.length ∧ cwd.getLast? = some 0x2F then
    let promptCwd ← strCopy (fun _ => 0 : Fin 256 → UInt8) cwd
    let promptCwd ← setElement promptCwd (cwd.length - 1) 0
    textAt promptCwd 0
  else return cwd

def guiGeneratePrompt (cwd : List UInt8) : Except Stop PromptBuffer := do
  let buffer ← strCopy (fun _ => 0) user
  let buffer ← strAppend buffer (literal "@")
  let buffer ← strAppend buffer host
  let buffer ← strAppend buffer (literal ":")
  let directory ← promptDirectory cwd
  let buffer ← strAppend buffer directory
  strAppend buffer (literal "$ ")

/-- A line with a prompt, behind which the input begins. -/
def addPrompt (state : TerminalState) (cwd : List UInt8) : Except Stop TerminalState := do
  let prompt ← guiGeneratePrompt cwd
  let line ← textAt prompt 0
  let state ← guiTerminalAddLine state line termColorPrompt
  let inputPos ← strLen prompt
  return { state with inputPos }

def guiTerminalInit (state : TerminalState) (cwd : List UInt8) : Except Stop TerminalState :=
  addPrompt { state with outputLineCount := 0, windowWidthChars := 80, windowHeightLines := 25, scrollOffset := 0 } cwd

/-- What a key of a terminal works on: the terminal, the buffer that its lines are printed
from, and `cwd`. -/
structure TerminalWorld where
  state : TerminalState
  currentLine : CurrentLine
  cwd : List UInt8

def worldPrint (world : TerminalWorld) (text : List UInt8) (color : UInt32) : Except Stop TerminalWorld := do
  let (currentLine, state) ← guiTerminalPrint world.currentLine world.state text color
  return { world with currentLine, state }

/-- What the function of a command does that a terminal can tell. -/
inductive TerminalEffect where
  | print (text : List UInt8) (color : UInt32)
  | chdir (cwd : List UInt8)

def runEffects (world : TerminalWorld) : List TerminalEffect → Except Stop TerminalWorld
  | [] => .ok world
  | .print text color :: effects => do
    let world ← worldPrint world text color
    runEffects world effects
  | .chdir cwd :: effects => runEffects { world with cwd } effects

/-- The names of `system_commands`. -/
def systemCommands : List (List UInt8) :=
  ["echo", "clear", "help", "modules", "fetch", "cpuinfo", "calendar", "date", "uptime", "time", "cat", "ls", "cd",
    "mkdir", "touch", "poweroff", "reboot", "shutdown", "gui", "cls", "exit"].map literal

/-- The first word of a command line, cut to the buffer of `gui_execute`. -/
def cmdName (input : List UInt8) : List UInt8 :=
  ((input.dropWhile (· = 0x20)).takeWhile (· ≠ 0x20)).take 63

def cmdArgs (input : List UInt8) : List UInt8 :=
  ((input.dropWhile (· = 0x20)).dropWhile (· ≠ 0x20)).dropWhile (· = 0x20)

/-- `cmd_cls` without arguments calls `gui_terminal_clear` without its argument. What the
other functions do is given by their effects. -/
def guiExecute (world : TerminalWorld) (effects : List TerminalEffect) (input : List UInt8) :
    Except Stop TerminalWorld := do
  if (input.dropWhile (· = 0x20)).length = 0 then return world
  if cmdName input ∈ systemCommands then
    if cmdName input = literal "cls" ∧ (cmdArgs input).length = 0 then throw .undefined
    runEffects world effects
  else
    let world ← worldPrint world (cmdName input) termColorError
    worldPrint world (literal ": command not found\n") termColorError

/-- The `'\b'` branch of `gui_terminal_handle_key`. -/
def terminalBackspace (state : TerminalState) (promptLen : Int) : Except Stop TerminalState := do
  if state.inputPos > promptLen then
    let inputPos := state.inputPos - 1
    let row ← elementAt state.outputBuffer (state.outputLineCount - 1)
    let row ← setElement row inputPos 0
    let outputBuffer ← setElement state.outputBuffer (state.outputLineCount - 1) row
    return { state with inputPos, outputBuffer }
  return state

/-- The branch of the printable characters. -/
def terminalType (state : TerminalState) (key : Int) : Except Stop TerminalState := do
  let row ← elementAt state.outputBuffer (state.outputLineCount - 1)
  let row ← setElement row state.inputPos (UInt8.ofNat key.toNat)
  let row ← setElement row (state.inputPos + 1) 0
  let outputBuffer ← setElement state.outputBuffer (state.outputLineCount - 1) row
  return { state with inputPos := state.inputPos + 1, outputBuffer }

/-- The `'\n'` branch, with the command that `gui_execute` was called with. -/
def terminalEnter (world : TerminalWorld) (promptLen : Int) (effects : List TerminalEffect) :
    Except Stop (Option (List UInt8) × TerminalWorld) := do
  let row ← elementAt world.state.outputBuffer (world.state.outputLineCount - 1)
  let command ← textAt row promptLen.toNat
  if 0 < command.length then
    let world ← guiExecute world effects command
    let state ← addPrompt world.state world.cwd
    return (some command, { world with state := { state with scrollOffset := 0 } })
  let state ← addPrompt world.state world.cwd
  return (none, { world with state := { state with scrollOffset := 0 } })

def guiTerminalHandleKey (world : TerminalWorld) (key : Int) (effects : List TerminalEffect) :
    Except Stop (Option (List UInt8) × TerminalWorld) := do
  let state := { world.state with scrollOffset := 0 }
  let prompt ← guiGeneratePrompt world.cwd
  let promptLen ← strLen prompt
  if key = 0x08 then
    let state ← terminalBackspace state promptLen
    return (none, { world with state })
  else if key = 0x0A then terminalEnter { world with state } promptLen effects
  else if 32 ≤ key ∧ key ≤ 126 then
    let state ← terminalType state key
    return (none, { world with state })
  else return (none, { world with state })

end Input

end Kernix
