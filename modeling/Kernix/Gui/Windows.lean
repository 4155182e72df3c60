import Kernix.Common.Array

/-! The windows of the GUI and the buttons of its taskbar, as `gui.c` keeps them, and the
regions of the screen that it has to draw again. The open windows are the first records of
an array, the topmost last; the records behind them keep what closed windows have left
there. What is drawn is left out. -/

namespace Kernix

/-- `MAX_WINDOWS`. -/
abbrev maxWindows : Nat := 10
/-- `TASKBAR_HEIGHT`. -/
def taskbarHeight : Int := 35

inductive WindowState where
  | normal
  | minimized
  | maximized
  deriving DecidableEq, Repr

/-- The programs that a window may hold a state of. -/
inductive GuiProgram where
  | terminal
  | textEditor
  | fileManager
  deriving DecidableEq, Repr

structure GuiWindow where
  id : Int
  x : Int
  y : Int
  width : Int
  height : Int
  title : List UInt8
  focused : Bool
  state : WindowState
  visible : Bool
  minimizedX : Int
  minimizedY : Int
  maximizedX : Int
  maximizedY : Int
  maximizedWidth : Int
  maximizedHeight : Int
  /-- `is_terminal`, `is_text_editor` and `is_file_manager`. -/
  isProgram : GuiProgram → Bool
  /-- `terminal_state`, `text_editor_state` and `file_manager_state`, which point into
  the array of the program. -/
  programState : GuiProgram → Option (Fin maxWindows)

structure TaskbarButton where
  windowId : Int
  text : List UInt8

structure DragState where
  dragging : Bool
  dragStartX : Int
  dragStartY : Int
  dragOffsetX : Int
  dragOffsetY : Int
  draggedWindow : Option (Fin maxWindows)
  resizing : Bool
  resizeStartX : Int
  resizeStartY : Int
  resizeStartWidth : Int
  resizeStartHeight : Int
  resizedWindow : Option (Fin maxWindows)

structure GuiState where
  windows : Fin maxWindows → GuiWindow
  windowCount : Nat
  focusedWindowId : Int
  taskbarButtons : Fin maxWindows → TaskbarButton
  taskbarButtonCount : Nat
  dragState : DragState
  nextWindowId : Int
  /-- `terminal_state_used`, `text_editor_state_used` and `file_manager_state_used`. -/
  stateUsed : GuiProgram → Fin maxWindows → Bool

/-- Nothing is dragged or resized. -/
def DragState.none (drag : DragState) : DragState :=
  { drag with dragging := false, draggedWindow := Option.none, resizing := false, resizedWindow := Option.none }

/-- `gui_state` behind `gui_init`: all its records are zero. -/
def guiInit : GuiState where
  windows _ := ⟨0, 0, 0, 0, 0, [], false, .normal, false, 0, 0, 0, 0, 0, 0, fun _ => false, fun _ => none⟩
  windowCount := 0
  focusedWindowId := 0
  taskbarButtons _ := ⟨0, []⟩
  taskbarButtonCount := 0
  dragState := ⟨false, 0, 0, 0, 0, none, false, 0, 0, 0, 0, none⟩
  nextWindowId := 1
  stateUsed _ _ := false

/-- The framebuffer, its size as `int`s. -/
structure Screen where
  width : Int
  height : Int

def GuiState.setWindow (gui : GuiState) (slot : Fin maxWindows) (window : GuiWindow) : GuiState :=
  { gui with windows := Function.update gui.windows slot window }

/-- `windows[i].focused = 0` for the windows in front of `count`. -/
def clearFocus (windows : Fin maxWindows → GuiWindow) (count : Nat) : Fin maxWindows → GuiWindow := fun slot =>
  if slot.val < count then { windows slot with focused := false } else windows slot

/-- Where a window goes that is asked for at `x`. -/
def clampX (screen : Screen) (x width : Int) : Int :=
  let x := if x < 0 then 0 else x
  if screen.width < x + width then screen.width - width else x

def clampY (screen : Screen) (y height : Int) : Int :=
  let y := if y < taskbarHeight then taskbarHeight else y
  if screen.height < y + height then screen.height - height else y

/-- What `gui_create_window` makes of the record that it takes. -/
def createdWindow (record : GuiWindow) (id : Int) (title : List UInt8) (x y width height : Int) : GuiWindow :=
  { record with
    id, x, y, width, height
    maximizedX := x
    maximizedY := y
    maximizedWidth := width
    maximizedHeight := height
    title
    visible := true
    focused := true
    isProgram := Function.update record.isProgram .terminal false }

/-- A title has to fit its 64 bytes, and the id must not overflow. -/
def guiCreateWindow (screen : Screen) (gui : GuiState) (title : List UInt8) (x y width height : Int) :
    Except Stop (Option (Fin maxWindows) × GuiState) :=
  if inside : gui.windowCount < maxWindows then
    if 64 ≤ title.length ∨ gui.nextWindowId = 2 ^ 31 - 1 then .error .undefined
    else
      let slot : Fin maxWindows := ⟨gui.windowCount, inside⟩
      let window := createdWindow (gui.windows slot) gui.nextWindowId title (clampX screen x width)
        (clampY screen y height)
        width height
      .ok (some slot, { gui with
        windows := Function.update (clearFocus gui.windows gui.windowCount) slot window
        windowCount := gui.windowCount + 1
        nextWindowId := gui.nextWindowId + 1 })
  else .ok (none, gui)

/-- The button of a window goes away, where it has one. -/
def removeTaskbarButton (gui : GuiState) (id : Int) : Except Stop GuiState := do
  match ← findElement gui.taskbarButtons (·.windowId = id) gui.taskbarButtonCount 0 with
  | none => return gui
  | some i =>
    let taskbarButtons ← shiftElements gui.taskbarButtons (gui.taskbarButtonCount - 1 - i) i
    return { gui with taskbarButtons, taskbarButtonCount := gui.taskbarButtonCount - 1 }

/-- The states of the programs in a window are unused again. -/
def releaseStates (used : GuiProgram → Fin maxWindows → Bool) (window : GuiWindow) : GuiProgram → Fin maxWindows → Bool :=
  fun program =>
    match window.programState program with
    | some i => Function.update (used program) i false
    | none => used program

def guiDestroyWindow (gui : GuiState) (slot : Fin maxWindows) : Except Stop GuiState := do
  let window := gui.windows slot
  let gui := { gui with stateUsed := releaseStates gui.stateUsed window }
  let gui := gui.setWindow slot { window with programState := fun _ => none }
  let gui ← removeTaskbarButton gui window.id
  if slot.val < gui.windowCount then
    let windows ← shiftElements gui.windows (gui.windowCount - 1 - slot.val) slot.val
    return { gui with windows, windowCount := gui.windowCount - 1 }
  return gui

/-- The window goes behind the others, where it is not the last one. -/
def raiseWindow (gui : GuiState) (slot : Fin maxWindows) : Except Stop (Fin maxWindows → GuiWindow) := do
  if slot.val + 1 < gui.windowCount then
    let windows ← shiftElements gui.windows (gui.windowCount - 1 - slot.val) slot.val
    setElement windows (gui.windowCount - 1 : Nat) (gui.windows slot)
  else return gui.windows

/-- What follows the raise goes to the slot that the window was in before. -/
def guiFocusWindow (gui : GuiState) (slot : Fin maxWindows) : Except Stop GuiState := do
  if gui.focusedWindowId = (gui.windows slot).id then return gui
  let windows ← raiseWindow gui slot
  let windows := clearFocus windows gui.windowCount
  let window := { windows slot with focused := true }
  return { gui with windows := Function.update windows slot window, focusedWindowId := window.id }

/-- What `gui_minimize_window` makes of a record. -/
def minimizedWindow (window : GuiWindow) : GuiWindow :=
  if window.state = .minimized then
    { window with state := .normal, x := window.minimizedX, y := window.minimizedY }
  else { window with minimizedX := window.x, minimizedY := window.y, state := .minimized }

def guiMinimizeWindow (gui : GuiState) (slot : Fin maxWindows) : GuiState :=
  gui.setWindow slot (minimizedWindow (gui.windows slot))

/-- What `gui_maximize_window` makes of a record. -/
def maximizedWindow (screen : Screen) (window : GuiWindow) : GuiWindow :=
  if window.state = .maximized then
    { window with
      state := .normal
      x := window.maximizedX
      y := window.maximizedY
      width := window.maximizedWidth
      height := window.maximizedHeight }
  else
    { window with
      maximizedX := window.x
      maximizedY := window.y
      maximizedWidth := window.width
      maximizedHeight := window.height
      x := 0
      y := taskbarHeight
      width := screen.width
      height := screen.height - taskbarHeight
      state := .maximized }

def guiMaximizeWindow (screen : Screen) (gui : GuiState) (slot : Fin maxWindows) : GuiState :=
  gui.setWindow slot (maximizedWindow screen (gui.windows slot))

def guiResizeWindow (gui : GuiState) (slot : Fin maxWindows) (width height : Int) : GuiState :=
  gui.setWindow slot { gui.windows slot with width, height }

def guiMoveWindow (screen : Screen) (gui : GuiState) (slot : Fin maxWindows) (x y : Int) : GuiState :=
  let window := gui.windows slot
  gui.setWindow slot { window with x := clampX screen x window.width, y := clampY screen y window.height }

section Regions

/-- `MAX_DIRTY_RECTS`. -/
abbrev maxDirtyRects : Nat := 32

/-- `dirty_rect_t`. -/
structure DirtyRect where
  x : Int
  y : Int
  width : Int
  height : Int

structure DirtyState where
  dirtyRects : Fin maxDirtyRects → DirtyRect
  dirtyRectCount : Int
  guiNeedsRedraw : Bool

/-- `position + size`. -/
def farEdge (position size : Int) : Except Stop Int := intValue (position + size)

/-- `first <= position + size + 2`. -/
def reaches (first position size : Int) : Except Stop Bool := do
  let edge ← farEdge position size
  let edge ← intValue (edge + 2)
  return first ≤ edge

/-- The condition under which two rectangles are merged: each reaches to the other, up to two pixels. -/
def touches (rect other : DirtyRect) : Except Stop Bool := do
  if !(← reaches rect.x other.x other.width) then return false
  if !(← reaches other.x rect.x rect.width) then return false
  if !(← reaches rect.y other.y other.height) then return false
  reaches other.y rect.y rect.height

/-- The smallest interval around two, as its position and its size. -/
def mergeSpans (position size otherPosition otherSize : Int) : Except Stop (Int × Int) := do
  let start := if position < otherPosition then position else otherPosition
  let edge ← farEdge position size
  let otherEdge ← farEdge otherPosition otherSize
  let size ← intValue ((if edge > otherEdge then edge else otherEdge) - start)
  return (start, size)

def mergeRects (rect other : DirtyRect) : Except Stop DirtyRect := do
  let (x, width) ← mergeSpans rect.x rect.width other.x other.width
  let (y, height) ← mergeSpans rect.y rect.height other.y other.height
  return { x, y, width, height }

/-- The loop of `gui_mark_dirty`, over `left` rectangles from `i` on: what the array becomes when
one of them touches the new one. -/
def mergeDirty (dirtyRects : Fin maxDirtyRects → DirtyRect) (marked : DirtyRect) :
    Nat → Int → Except Stop (Option (Fin maxDirtyRects → DirtyRect))
  | 0, _ => .ok none
  | left + 1, i => do
    let rect ← elementAt dirtyRects i
    if ← touches rect marked then
      let merged ← mergeRects rect marked
      let dirtyRects ← setElement dirtyRects i merged
      return some dirtyRects
    mergeDirty dirtyRects marked left (i + 1)

def guiMarkDirty (state : DirtyState) (marked : DirtyRect) : Except Stop DirtyState := do
  if maxDirtyRects ≤ state.dirtyRectCount then return { state with guiNeedsRedraw := true }
  match ← mergeDirty state.dirtyRects marked state.dirtyRectCount.toNat 0 with
  | some dirtyRects => return { state with dirtyRects }
  | none =>
    let dirtyRects ← setElement state.dirtyRects state.dirtyRectCount marked
    return { state with dirtyRects, dirtyRectCount := state.dirtyRectCount + 1 }

def guiClearDirtyRects (state : DirtyState) : DirtyState := { state with dirtyRectCount := 0 }

/-- What a frame of `gui_run` draws. -/
inductive Redraw where
  | everything
  | regions (rects : List DirtyRect)

/-- The part of `gui_run` that draws the windows. -/
def guiRunRedraw (state : DirtyState) : Redraw × DirtyState :=
  if state.guiNeedsRedraw then (.everything, { state with guiNeedsRedraw := false })
  else
    (.regions (((List.finRange maxDirtyRects).take state.dirtyRectCount.toNat).map state.dirtyRects),
      if 0 < state.dirtyRectCount then { state with dirtyRectCount := 0 } else state)

end Regions

end Kernix
