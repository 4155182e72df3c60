import Kernix.Common.Array

/-! The input line of the shell and its history, as `acsh.c` keeps them, and the chained
commands, as `parser.c` takes them apart. What a key draws is left out; a command that the
line holds gets the text that its pointer leads to. The rows of the array of commands start
out without a value, and to read a byte that has none is undefined. -/

namespace Kernix

/-- `MAX_INPUT_LEN`. -/
abbrev maxInputLen : Nat := 256
/-- `MAX_HISTORY`. -/
abbrev maxHistory : Nat := 50

abbrev InputBuffer := Fin maxInputLen → UInt8

structure Console where
  inputBuffer : InputBuffer
  inputPos : Int
  commandHistory : Fin maxHistory → InputBuffer
  historyCount : Int
  historyPos : Int

/-- The calls that leave the line editor. -/
inductive ConsoleCall where
  | consoleExecute (input : List UInt8)
  | parseAndExecuteChained (input : List UInt8)
  | keditHandleKey (key : Int)
  deriving DecidableEq, Repr

/-- The loop of `add_to_history` that moves the entries from the one at `entry` on. -/
def shiftHistory (commandHistory : Fin maxHistory → InputBuffer) : Nat → Nat → Except Stop (Fin maxHistory → InputBuffer)
  | 0, _ => .ok commandHistory
  | left + 1, entry => do
    let source ← elementAt commandHistory entry
    let destination ← elementAt commandHistory (entry - 1)
    let moved ← strCopyAt destination source 0
    let commandHistory ← setElement commandHistory (entry - 1) moved
    shiftHistory commandHistory left (entry + 1)

/-- `str_equals(command_history[history_count - 1], command)`, with an entry to compare. -/
def repeatsLast (console : Console) (command : List UInt8) : Except Stop Bool := do
  if 0 < console.historyCount then
    let last ← elementAt console.commandHistory (console.historyCount - 1)
    let text ← textAt last 0
    return strEquals text command
  return false

/-- `str_copy(command_history[entry], command)`. -/
def recordCommand (commandHistory : Fin maxHistory → InputBuffer) (entry : Int) (command : List UInt8) :
    Except Stop (Fin maxHistory → InputBuffer) := do
  let destination ← elementAt commandHistory entry
  let copied ← strCopy destination command
  setElement commandHistory entry copied

def addToHistory (console : Console) (command : List UInt8) : Except Stop Console := do
  if command.length = 0 then return console
  if ← repeatsLast console command then return console
  if console.historyCount < maxHistory then
    let commandHistory ← recordCommand console.commandHistory console.historyCount command
    return { console with commandHistory, historyCount := console.historyCount + 1 }
  let commandHistory ← shiftHistory console.commandHistory (maxHistory - 1) 1
  let commandHistory ← recordCommand commandHistory (maxHistory - 1) command
  return { console with commandHistory }

/-- The scan for `&&`, `left` positions from `position` on. -/
def hasChain (inputBuffer : InputBuffer) : Nat → Int → Except Stop Bool
  | 0, _ => .ok false
  | left + 1, position => do
    let first ← elementAt inputBuffer position
    if first = 0x26 then
      let second ← elementAt inputBuffer (position + 1)
      if second = 0x26 then return true
    hasChain inputBuffer left (position + 1)

/-- The `'\n'` branch. -/
def handleEnter (console : Console) : Except Stop (Option ConsoleCall × Console) := do
  if console.inputPos ≤ 0 then return (none, console)
  let inputBuffer ← setElement console.inputBuffer console.inputPos 0
  let line ← textAt inputBuffer 0
  let console ← addToHistory { console with inputBuffer } line
  let chained ← hasChain inputBuffer (console.inputPos - 1).toNat 0
  let call := if chained then ConsoleCall.parseAndExecuteChained line else .consoleExecute line
  let inputBuffer ← setElement inputBuffer 0 0
  return (some call, { console with inputBuffer, inputPos := 0, historyPos := -1 })

/-- The loop of the backspace. The length is taken anew in each pass. -/
def shiftLeft : Nat → Int → InputBuffer → Except Stop InputBuffer
  | 0, _, _ => .error .undefined
  | fuel + 1, i, inputBuffer => do
    if i ≤ (← strLen inputBuffer) then
      let next ← elementAt inputBuffer (i + 1)
      let inputBuffer ← setElement inputBuffer i next
      shiftLeft fuel (i + 1) inputBuffer
    else return inputBuffer

/-- The loop of an insertion, `left` positions down from `j`. -/
def shiftRight : Nat → Int → InputBuffer → Except Stop InputBuffer
  | 0, _, inputBuffer => .ok inputBuffer
  | left + 1, j, inputBuffer => do
    let value ← elementAt inputBuffer j
    let inputBuffer ← setElement inputBuffer (j + 1) value
    shiftRight left (j - 1) inputBuffer

/-- A character goes in front of the cursor, unless the line is full. -/
def insertChar (console : Console) (char : UInt8) : Except Stop Console := do
  let length ← strLen console.inputBuffer
  if length < maxInputLen - 1 then
    let inputBuffer ← shiftRight (length + 1 - console.inputPos).toNat length console.inputBuffer
    let inputBuffer ← setElement inputBuffer console.inputPos char
    return { console with inputBuffer, inputPos := console.inputPos + 1 }
  return console

/-- A number of insertions of one character, one after the other. -/
def insertChars (char : UInt8) : Nat → Console → Except Stop Console
  | 0, console => .ok console
  | count + 1, console => do
    let console ← insertChar console char
    insertChars char count console

/-- The `'\b'` branch. -/
def handleBackspace (console : Console) : Except Stop Console := do
  if 0 < console.inputPos then
    let inputPos := console.inputPos - 1
    let inputBuffer ← shiftLeft (maxInputLen + 1) inputPos console.inputBuffer
    return { console with inputBuffer, inputPos }
  return console

/-- The entry of the history at `historyPos` becomes the line. -/
def showHistory (console : Console) : Except Stop Console := do
  if 0 ≤ console.historyPos ∧ console.historyPos < console.historyCount then
    let cmd ← elementAt console.commandHistory console.historyPos
    let inputBuffer ← strCopyAt console.inputBuffer cmd 0
    let inputPos ← strLen cmd
    return { console with inputBuffer, inputPos }
  return console

/-- The `0x80` branch. -/
def handleUp (console : Console) : Except Stop Console := do
  let inputBuffer ←
    if console.historyPos = -1 then setElement console.inputBuffer console.inputPos 0 else .ok console.inputBuffer
  let console := { console with inputBuffer }
  if console.historyPos < console.historyCount - 1 then
    showHistory { console with historyPos := console.historyPos + 1 }
  else return console

/-- The `0x81` branch. -/
def handleDown (console : Console) : Except Stop Console := do
  if 0 < console.historyPos then showHistory { console with historyPos := console.historyPos - 1 }
  else if console.historyPos = 0 then
    let inputBuffer ← setElement console.inputBuffer 0 0
    return { console with historyPos := -1, inputBuffer, inputPos := 0 }
  else return console

/-- The keys that the branches of `console_handle_key` are about. -/
def keyInterrupt : Int := 3
def keyBackspace : Int := 8
def keyTab : Int := 9
def keyEnter : Int := 10
def keyReturn : Int := 13
def keyUp : Int := 0x80
def keyDown : Int := 0x81
def keyLeft : Int := 0x82
def keyRight : Int := 0x83
def keyHome : Int := 0x84
def keyEnd : Int := 0x85

/-- The branches in front of the printable characters, which change the line alone. -/
def handleLineKey (c : Int) (console : Console) : Except Stop Console := do
  if c = keyReturn then
    let inputBuffer ← setElement console.inputBuffer console.inputPos 0x0A
    return { console with inputBuffer, inputPos := console.inputPos + 1 }
  if c = keyInterrupt then
    let inputBuffer ← setElement console.inputBuffer 0 0
    return { console with inputBuffer, inputPos := 0 }
  if c = keyBackspace then handleBackspace console
  else if c = keyTab then insertChars 0x20 4 console
  else if c = keyUp then handleUp console
  else if c = keyDown then handleDown console
  else if c = keyLeft then
    return if 0 < console.inputPos then { console with inputPos := console.inputPos - 1 } else console
  else if c = keyRight then
    let length ← strLen console.inputBuffer
    return if console.inputPos < length then { console with inputPos := console.inputPos + 1 } else console
  else if c = keyHome then return { console with inputPos := 0 }
  else if c = keyEnd then
    let length ← strLen console.inputBuffer
    return { console with inputPos := length }
  else if 32 ≤ c ∧ c ≤ 126 then
    insertChar { console with historyPos := -1 } (UInt8.ofNat c.toNat)
  else return console

def consoleHandleKey (guiRunning inKedit : Bool) (c : Int) (console : Console) :
    Except Stop (Option ConsoleCall × Console) := do
  if guiRunning then return (none, console)
  if inKedit then return (some (.keditHandleKey c), console)
  if c = keyEnter then handleEnter console
  else
    let console ← handleLineKey c console
    return (none, console)

section Chains

/-- `MAX_CHAINED_CMDS`. -/
abbrev maxChainedCmds : Nat := 8

abbrev CommandRow := Fin maxInputLen → Option UInt8

/-- The local array `commands`. -/
abbrev ChainedCommands := Fin maxChainedCmds → CommandRow

def setCommandChar (commands : ChainedCommands) (row position : Int) (char : UInt8) : Except Stop ChainedCommands := do
  let line ← elementAt commands row
  let line ← setElement line position (some char)
  setElement commands row line

/-- The inner loop: one segment is copied into its row. What comes back are the rows, the
count and the position, and what is left of the input. -/
def copySegment (commands : ChainedCommands) (cmdCount : Nat) :
    Nat → List UInt8 → Except Stop (ChainedCommands × Nat × Nat × List UInt8)
  | cmdPos, [] => .ok (commands, cmdCount, cmdPos, [])
  | cmdPos, byte :: rest => do
    if cmdPos < maxInputLen - 1 then
      if byte = 0x26 ∧ rest.head? = some 0x26 then
        let commands ← setCommandChar commands cmdCount cmdPos 0
        return (commands, cmdCount + 1, cmdPos, rest.tail)
      let commands ← setCommandChar commands cmdCount cmdPos byte
      copySegment commands cmdCount (cmdPos + 1) rest
    else return (commands, cmdCount, cmdPos, byte :: rest)

def isSpace (byte : UInt8) : Bool := byte = 0x20

/-- The outer loop. Each pass fills a row or ends the loop. -/
def segmentLoop : Nat → ChainedCommands → Nat → List UInt8 → Except Stop (ChainedCommands × Nat)
  | 0, _, _, _ => .error .undefined
  | fuel + 1, commands, cmdCount, p => do
    if p ≠ [] ∧ cmdCount < maxChainedCmds then
      let (commands, cmdCount, cmdPos, p) ← copySegment commands cmdCount 0 (p.dropWhile isSpace)
      if p = [] ∨ maxInputLen - 1 ≤ cmdPos then
        let commands ← setCommandChar commands cmdCount cmdPos 0
        return (commands, cmdCount + 1)
      segmentLoop fuel commands cmdCount p
    else return (commands, cmdCount)

def commandChar (row : CommandRow) (position : Int) : Except Stop UInt8 := do
  match ← elementAt row position with
  | some char => return char
  | none => throw .undefined

/-- `while (commands[i][len]) len++;` -/
def rowLength (row : CommandRow) : Nat → Nat → Except Stop Nat
  | 0, _ => .error .undefined
  | fuel + 1, len => do
    if (← commandChar row len) = 0 then return len
    rowLength row fuel (len + 1)

/-- The loop over the spaces at the end, with the characters in front of `len + 1` to go. -/
def trimRow (row : CommandRow) : Nat → Except Stop CommandRow
  | 0 => .ok row
  | len + 1 => do
    if isSpace (← commandChar row len) then
      let row ← setElement row len (some 0)
      trimRow row len
    else return row

/-- The string that `console_execute` finds in a row. -/
def rowText (row : CommandRow) : Nat → Int → Except Stop (List UInt8)
  | 0, _ => .error .undefined
  | fuel + 1, position => do
    let char ← commandChar row position
    if char = 0 then return []
    let rest ← rowText row fuel (position + 1)
    return char :: rest

/-- One pass of the last loop: the input of `console_execute`, if there is one. -/
def executeRow (row : CommandRow) : Except Stop (List (List UInt8)) := do
  let len ← rowLength row (maxInputLen + 1) 0
  let row ← trimRow row len
  if (← commandChar row 0) ≠ 0 then
    let input ← rowText row (maxInputLen + 1) 0
    return [input]
  return []

/-- The last loop, over the rows from `i` on. -/
def executeRows (commands : ChainedCommands) : Nat → Int → Except Stop (List (List UInt8))
  | 0, _ => .ok []
  | left + 1, i => do
    let row ← elementAt commands i
    let executed ← executeRow row
    let rest ← executeRows commands left (i + 1)
    return executed ++ rest

def parseAndExecuteChained (input : List UInt8) : Except Stop (List (List UInt8)) := do
  if input = [] then return []
  let (commands, cmdCount) ← segmentLoop (maxChainedCmds + 1) (fun _ _ => none) 0 input
  executeRows commands cmdCount 0

end Chains

end Kernix
