import Kernix.Fs.Commands
import Kernix.Shell.Console

/-! The text editor of the shell, as `kedit.c` keeps its lines, and the file behind it.
Drawing and what is printed are left out. -/

namespace Kernix

/-- `MAX_LINES`. -/
abbrev maxLines : Nat := 100
/-- `MAX_LINE_LEN`. -/
abbrev maxLineLen : Nat := 256

abbrev EditLine := Fin maxLineLen → UInt8

structure Editor where
  lines : Fin maxLines → EditLine
  lineCount : Int
  editCursorX : Int
  editCursorY : Int
  filename : Fin 256 → UInt8
  modified : Bool

/-- The keys that leave the text as it is. -/
inductive KeditCall where
  | quit
  | keditSave
  deriving DecidableEq, Repr

def keditInsertChar (editor : Editor) (c : UInt8) : Except Stop Editor := do
  if maxLineLen - 1 ≤ editor.editCursorX then return editor
  let row ← elementAt editor.lines editor.editCursorY
  let len ← strLen row
  if maxLineLen - 1 ≤ len then return editor
  let row ← shiftRight (len + 1 - editor.editCursorX).toNat len row
  let row ← setElement row editor.editCursorX c
  let lines ← setElement editor.lines editor.editCursorY row
  return { editor with lines, editCursorX := editor.editCursorX + 1, modified := true }

/-- The loop that moves the rest of a line one place to the left, `left` positions from `i` on. -/
def closeGap : Nat → Int → EditLine → Except Stop EditLine
  | 0, _, row => .ok row
  | left + 1, i, row => do
    let next ← elementAt row (i + 1)
    let row ← setElement row i next
    closeGap left (i + 1) row

/-- `str_copy(lines[to], source)`. -/
def copyRow (lines : Fin maxLines → EditLine) (target : Int) (source : EditLine) :
    Except Stop (Fin maxLines → EditLine) := do
  let destination ← elementAt lines target
  let copied ← strCopyAt destination source 0
  setElement lines target copied

/-- The loop that moves the rows behind a joined one up, `left` rows from `i` on. -/
def closeRows : Nat → Int → (Fin maxLines → EditLine) → Except Stop (Fin maxLines → EditLine)
  | 0, _, lines => .ok lines
  | left + 1, i, lines => do
    let next ← elementAt lines (i + 1)
    let lines ← copyRow lines i next
    closeRows left (i + 1) lines

def keditDeleteChar (editor : Editor) : Except Stop Editor := do
  let row ← elementAt editor.lines editor.editCursorY
  let len ← strLen row
  if 0 < editor.editCursorX ∧ 0 < len then
    let row ← closeGap (len - (editor.editCursorX - 1)).toNat (editor.editCursorX - 1) row
    let lines ← setElement editor.lines editor.editCursorY row
    return { editor with lines, editCursorX := editor.editCursorX - 1, modified := true }
  if editor.editCursorX = 0 ∧ 0 < editor.editCursorY then
    let previous ← elementAt editor.lines (editor.editCursorY - 1)
    let prevLen ← strLen previous
    if prevLen + len < maxLineLen - 1 then
      let source ← textAt row 0
      let joined ← strAppend previous source
      let lines ← setElement editor.lines (editor.editCursorY - 1) joined
      let lines ← closeRows (editor.lineCount - 1 - editor.editCursorY).toNat editor.editCursorY lines
      return { editor with lines, lineCount := editor.lineCount - 1, editCursorY := editor.editCursorY - 1,
                           editCursorX := prevLen, modified := true }
  return { editor with modified := true }

/-- The loop that makes room for a row, `left` rows down from `i`. -/
def openRows : Nat → Int → (Fin maxLines → EditLine) → Except Stop (Fin maxLines → EditLine)
  | 0, _, lines => .ok lines
  | left + 1, i, lines => do
    let previous ← elementAt lines (i - 1)
    let lines ← copyRow lines i previous
    openRows left (i - 1) lines

/-- The line at the cursor ends there, and the next row gets the rest of it. -/
def splitRow (lines : Fin maxLines → EditLine) (x y : Int) : Except Stop (Fin maxLines → EditLine) := do
  let current ← elementAt lines y
  let rest ← strCopyAt (fun _ => 0 : EditLine) current x.toNat
  let current ← setElement current x 0
  let lines ← setElement lines y current
  copyRow lines (y + 1) rest

def keditNewLine (editor : Editor) : Except Stop Editor := do
  if maxLines ≤ editor.lineCount then return editor
  let current ← elementAt editor.lines editor.editCursorY
  let currentLen ← strLen current
  if editor.editCursorX ≤ currentLen then
    let lines ← openRows (editor.lineCount - (editor.editCursorY + 1)).toNat editor.lineCount editor.lines
    let lines ← splitRow lines editor.editCursorX editor.editCursorY
    return { editor with lines, lineCount := editor.lineCount + 1, editCursorY := editor.editCursorY + 1,
                         editCursorX := 0, modified := true }
  return editor

def keditMoveCursor (editor : Editor) (dx dy : Int) : Except Stop Editor := do
  let x := editor.editCursorX + dx
  let y := editor.editCursorY + dy
  let y := if y < 0 then 0 else y
  let y := if editor.lineCount ≤ y then editor.lineCount - 1 else y
  let x := if x < 0 then 0 else x
  let row ← elementAt editor.lines y
  let len ← strLen row
  let x := if len < x then len else x
  return { editor with editCursorX := x, editCursorY := y }

/-- `'\n'`. -/
def newline : UInt8 := 0x0A

def keyQuit : Int := 17
def keySave : Int := 19
def keyDelete : Int := 127

def keditHandleKey (key : Int) (editor : Editor) : Except Stop (Option KeditCall × Editor) := do
  if key = keyQuit then return (some .quit, editor)
  if key = keySave then return (some .keditSave, editor)
  let editor ←
    if key = keyEnter ∨ key = keyReturn then keditNewLine editor
    else if key = keyBackspace ∨ key = keyDelete then keditDeleteChar editor
    else if 32 ≤ key ∧ key ≤ 126 then keditInsertChar editor (UInt8.ofNat key.toNat)
    else if key = keyUp then keditMoveCursor editor 0 (-1)
    else if key = keyDown then keditMoveCursor editor 0 1
    else if key = keyLeft then keditMoveCursor editor (-1) 0
    else if key = keyRight then keditMoveCursor editor 1 0
    else .ok editor
  return (none, editor)

variable {δ : Type}

/-- The loop of `kedit_save`, `left` lines from `i` on, with what its writes return,
which the source drops. -/
def saveLines (editor : Editor) (fd : Int) : Nat → Int → FsState δ → Except Stop (List Int × FsState δ)
  | 0, _, state => .ok ([], state)
  | left + 1, i, state => do
    let row ← elementAt editor.lines i
    let found ← textAt row 0
    let (written, state) ← fsWrite state fd found
    if i < editor.lineCount - 1 then
      let (ended, state) ← fsWrite state fd [newline]
      let (others, state) ← saveLines editor fd left (i + 1) state
      return (written :: ended :: others, state)
    let (others, state) ← saveLines editor fd left (i + 1) state
    return (written :: others, state)

/-- What the writes return, where the file was opened, and the state after the call. -/
def keditSave (state : FsState δ) (editor : Editor) : Except Stop (Option (List Int) × FsState δ × Editor) := do
  let first ← elementAt editor.filename 0
  if first = 0 then return (none, state, editor)
  let path ← textAt editor.filename 0
  let (fd, state) ← fsOpen state path (oWronly ||| oCreat)
  if fd < 0 then return (none, state, editor)
  let (results, state) ← saveLines editor fd editor.lineCount.toNat 0 state
  let (_, state) ← fsClose state fd
  return (some results, state, { editor with modified := false })

/-- `lines`, `line_idx` and `buf_pos` of `kedit_load`. -/
structure Loading where
  lines : Fin maxLines → EditLine
  lineIdx : Int
  bufPos : Int

/-- `lines[line_idx][buf_pos] = value`. -/
def Loading.put (loading : Loading) (value : UInt8) : Except Stop (Fin maxLines → EditLine) := do
  let row ← elementAt loading.lines loading.lineIdx
  let row ← setElement row loading.bufPos value
  setElement loading.lines loading.lineIdx row

/-- The current line ends. -/
def Loading.endLine (loading : Loading) : Except Stop Loading := do
  let lines ← loading.put 0
  return { lines, lineIdx := loading.lineIdx + 1, bufPos := 0 }

/-- The loop over the bytes of one read. -/
def loadBytes (loading : Loading) : List UInt8 → Except Stop Loading
  | [] => .ok loading
  | byte :: buf => do
    if byte = newline ∨ maxLines - 1 ≤ loading.lineIdx then
      let loading ← loading.endLine
      if maxLines ≤ loading.lineIdx then return loading
      loadBytes loading buf
    else if loading.bufPos < maxLineLen - 1 then
      let lines ← loading.put byte
      loadBytes { loading with lines, bufPos := loading.bufPos + 1 } buf
    else loadBytes loading buf

/-- `sizeof(buf)`. -/
abbrev loadSize : Nat := 1024

/-- The loop of the reads. It goes on for ever where a read of a device always finds bytes. -/
def loadChunks (fd : Int) : Nat → FsState δ → Loading → Except Stop (Loading × FsState δ)
  | 0, _, _ => .error .halted
  | passes + 1, state, loading => do
    let (bytesRead, buf, state) ← fsRead state fd loadSize
    if 0 < bytesRead then
      let loading ← loadBytes loading (buf.take bytesRead.toNat)
      if maxLines ≤ loading.lineIdx then return (loading, state)
      loadChunks fd passes state loading
    else return (loading, state)

/-- `line_count = 1; str_copy(lines[0], "");` -/
def noText (lines : Fin maxLines → EditLine) : Except Stop (Fin maxLines → EditLine) := do
  let row ← elementAt lines 0
  let row ← strCopy row []
  setElement lines 0 row

/-- What comes behind the loops: the last line may have no newline, and every text has a line. -/
def Loading.finish (loading : Loading) : Except Stop Loading := do
  let loading ← if 0 < loading.bufPos ∧ loading.lineIdx < maxLines then loading.endLine else .ok loading
  if loading.lineIdx = 0 then
    let lines ← noText loading.lines
    return { loading with lines, lineIdx := 1 }
  return loading

def keditLoad (state : FsState δ) (editor : Editor) (fname : List UInt8) : Except Stop (FsState δ × Editor) := do
  let filename ← strCopy editor.filename fname
  let (fd, state) ← fsOpen state fname oRdonly
  if fd < 0 then
    let lines ← noText editor.lines
    return (state, { editor with filename, lines, lineCount := 1 })
  let (loading, state) ← loadChunks fd addressSpace state ⟨editor.lines, 0, 0⟩
  let loading ← loading.finish
  let (_, state) ← fsClose state fd
  return (state, { editor with filename, lines := loading.lines, lineCount := loading.lineIdx, modified := false })

end Kernix
