import Kernix.Gui.Windows

/-! The functions of `gui.c` that open a window of a kind of their own, and the ones
that take clicks and movements of the mouse. -/

namespace Kernix

/-- The window `slot` is one of a program, and gets an unused state of it and a button. -/
def openProgram (gui : GuiState) (slot : Fin maxWindows) (program : GuiProgram) : Except Stop GuiState := do
  let window := gui.windows slot
  let gui := gui.setWindow slot { window with isProgram := Function.update window.isProgram program true }
  match (List.finRange maxWindows).find? fun i => !gui.stateUsed program i with
  | none => guiDestroyWindow gui slot
  | some index =>
    let window := gui.windows slot
    let gui := { gui with stateUsed := Function.update gui.stateUsed program (Function.update (gui.stateUsed program) index true) }
    let gui := gui.setWindow slot { window with programState := Function.update window.programState program (some index) }
    if gui.taskbarButtonCount < maxWindows then
      if 32 ≤ window.title.length then throw .undefined
      let taskbarButtons ← setElement gui.taskbarButtons gui.taskbarButtonCount ⟨window.id, window.title⟩
      return { gui with taskbarButtons, taskbarButtonCount := gui.taskbarButtonCount + 1 }
    return gui

/-- A launch of a program with a state of its own. -/
def launchProgram (screen : Screen) (gui : GuiState) (program : GuiProgram) (title : List UInt8)
    (x y width height : Int) :
    Except Stop GuiState := do
  match ← guiCreateWindow screen gui title x y width height with
  | (none, gui) => return gui
  | (some slot, gui) => openProgram gui slot program

/-- A launch of a window that only shows something. -/
def launchPlain (screen : Screen) (gui : GuiState) (title : List UInt8) (x y width height : Int) :
    Except Stop GuiState := do
  let (_, gui) ← guiCreateWindow screen gui title x y width height
  return gui

def launchTerminalNew (screen : Screen) (gui : GuiState) : Except Stop GuiState :=
  launchProgram screen gui .terminal (literal "Terminal") 50 50 600 400

def launchShutdownNew (screen : Screen) (gui : GuiState) : Except Stop GuiState :=
  launchPlain screen gui (literal "Shutdown") 400 300 300 200

def launchCalculatorNew (screen : Screen) (gui : GuiState) : Except Stop GuiState :=
  launchPlain screen gui (literal "Calculator") 200 200 300 400

def launchPaintNew (screen : Screen) (gui : GuiState) : Except Stop GuiState :=
  launchPlain screen gui (literal "Paint") 300 100 500 400

def launchTextEditorNew (screen : Screen) (gui : GuiState) : Except Stop GuiState :=
  launchProgram screen gui .textEditor (literal "Text Editor") 300 100 500 400

def launchFileManagerNew (screen : Screen) (gui : GuiState) : Except Stop GuiState :=
  launchProgram screen gui .fileManager (literal "File Manager") 200 150 600 400

def launchSettingsNew (screen : Screen) (gui : GuiState) : Except Stop GuiState :=
  launchPlain screen gui (literal "Settings") 100 100 300 200

/-- A click on "Start" closes the start menu, or opens it. Its title is empty. -/
def onStartButtonClick (screen : Screen) (gui : GuiState) : Except Stop GuiState := do
  match ← findElement gui.windows (·.title = []) gui.windowCount 0 with
  | some i => if inside : i < maxWindows then guiDestroyWindow gui ⟨i, inside⟩ else throw .undefined
  | none => launchPlain screen gui [] 10 (taskbarHeight + 10) 220 380

/-- The functions that open a window. -/
inductive Launch where
  | terminal
  | shutdown
  | calculator
  | paint
  | textEditor
  | fileManager
  | settings
  deriving DecidableEq, Repr

def Launch.run (screen : Screen) (gui : GuiState) : Launch → Except Stop GuiState
  | .terminal => launchTerminalNew screen gui
  | .shutdown => launchShutdownNew screen gui
  | .calculator => launchCalculatorNew screen gui
  | .paint => launchPaintNew screen gui
  | .textEditor => launchTextEditorNew screen gui
  | .fileManager => launchFileManagerNew screen gui
  | .settings => launchSettingsNew screen gui

/-- `gui_is_point_in_rect`. -/
def PointInRect (px py rx ry rw rh : Int) : Prop := rx ≤ px ∧ px < rx + rw ∧ ry ≤ py ∧ py < ry + rh

instance (px py rx ry rw rh : Int) : Decidable (PointInRect px py rx ry rw rh) :=
  inferInstanceAs (Decidable (_ ∧ _ ∧ _ ∧ _))

/-- The window can be seen at a point. -/
def ShownAt (window : GuiWindow) (x y : Int) : Prop :=
  window.visible = true ∧ window.state ≠ .minimized ∧
    PointInRect x y window.x window.y window.width window.height

instance (window : GuiWindow) (x y : Int) : Decidable (ShownAt window x y) :=
  inferInstanceAs (Decidable (_ ∧ _ ∧ _))

/-- The loop of `gui_get_window_at_point`, from the window below `count` down. -/
def topmostAt (windows : Fin maxWindows → GuiWindow) (x y : Int) : Nat → Except Stop (Option (Fin maxWindows))
  | 0 => .ok none
  | i + 1 =>
    if inside : i < maxWindows then
      if ShownAt (windows ⟨i, inside⟩) x y then .ok (some ⟨i, inside⟩) else topmostAt windows x y i
    else .error .undefined

def guiGetWindowAtPoint (gui : GuiState) (x y : Int) : Except Stop (Option (Fin maxWindows)) :=
  topmostAt gui.windows x y gui.windowCount

/-- The loop of `gui_get_taskbar_button_at_point`, `left` buttons from `i` on, with
`button_x` and `button_y`. The clock takes 122 pixels of the taskbar. -/
def buttonAt (screen : Screen) (x y : Int) : Nat → Nat → Int → Int → Option Nat
  | 0, _, _, _ => none
  | left + 1, i, buttonX, buttonY =>
    let wraps := screen.width - 122 < buttonX + 120
    let buttonX := if wraps then 100 else buttonX
    let buttonY := if wraps then buttonY + 27 else buttonY
    if PointInRect x y buttonX buttonY 120 25 then some i else buttonAt screen x y left (i + 1) (buttonX + 125) buttonY

def guiGetTaskbarButtonAtPoint (screen : Screen) (gui : GuiState) (x y : Int) : Option Nat :=
  if taskbarHeight < y then none else buttonAt screen x y gui.taskbarButtonCount 0 85 5

/-- The labels that `gui_draw_taskbar` gives the buttons, `left` of them from `i` on. -/
def labelButtons (windows : Fin maxWindows → GuiWindow) :
    Nat → Nat → (Fin maxWindows → TaskbarButton) → Except Stop (Fin maxWindows → TaskbarButton)
  | 0, _, buttons => .ok buttons
  | left + 1, i, buttons => do
    let button ← elementAt buttons i
    let window ← elementAt windows i
    if 32 ≤ window.title.length then throw .undefined
    let buttons ← setElement buttons i { button with text := window.title }
    labelButtons windows left (i + 1) buttons

def guiDrawTaskbar (gui : GuiState) : Except Stop GuiState := do
  let taskbarButtons ← labelButtons gui.windows gui.taskbarButtonCount 0 gui.taskbarButtons
  return { gui with taskbarButtons }

/-- The items of the start menu, with `current_y` counted from `menu_y` on. -/
def menuItems : List (Int × Launch) :=
  [(18, .terminal), (50, .fileManager), (82, .shutdown), (130, .settings), (178, .textEditor), (210, .shutdown),
    (258, .shutdown)]

/-- The item of the start menu at a point. -/
def menuItemAt (window : GuiWindow) (x y : Int) : Option Launch :=
  (menuItems.find? fun item => PointInRect x y (window.x + 20) (window.y + item.1 + 8)
    (window.width - 40) 30).map Prod.snd

/-- The part of a click on a window that follows the focus. -/
def clickWindow (screen : Screen) (gui : GuiState) (slot : Fin maxWindows) (x y : Int) : Except Stop GuiState :=
  let window := gui.windows slot
  if window.title = [] then
    match menuItemAt window x y with
    | some launch => launch.run screen gui
    | none => .ok gui
  else if PointInRect x y (window.x + window.width - 80) (window.y + 4) 16 16 then .ok (guiMinimizeWindow gui slot)
  else if PointInRect x y (window.x + window.width - 55) (window.y + 4) 16 16 then .ok (guiMaximizeWindow screen gui slot)
  else if PointInRect x y (window.x + window.width - 30) (window.y + 4) 16 16 then guiDestroyWindow gui slot
  else if window.y ≤ y ∧ y ≤ window.y + 25 then
    let gui := if window.state = .maximized then guiMaximizeWindow screen gui slot else gui
    let window := gui.windows slot
    .ok { gui with
      dragState := { gui.dragState with
        dragging := true
        draggedWindow := some slot
        dragStartX := x
        dragStartY := y
        dragOffsetX := x - window.x
        dragOffsetY := y - window.y } }
  else if window.x + window.width - 20 ≤ x ∧ window.y + window.height - 20 ≤ y ∧ x ≤ window.x + window.width ∧
      y ≤ window.y + window.height then
    .ok { gui with
      dragState := { gui.dragState with
        resizing := true
        resizedWindow := some slot
        resizeStartX := x
        resizeStartY := y
        resizeStartWidth := window.width
        resizeStartHeight := window.height } }
  else .ok gui

/-- The button "Start" is the only one besides the taskbar. -/
def guiHandleMouseClick (screen : Screen) (gui : GuiState) (x y : Int) : Except Stop GuiState := do
  let gui := { gui with dragState := gui.dragState.none }
  match guiGetTaskbarButtonAtPoint screen gui x y with
  | some i => if inside : i < maxWindows then return guiMinimizeWindow gui ⟨i, inside⟩ else throw .undefined
  | none =>
    match ← guiGetWindowAtPoint gui x y with
    | some slot =>
      let gui ← guiFocusWindow gui slot
      clickWindow screen gui slot x y
    | none => if PointInRect x y 0 0 80 30 then onStartButtonClick screen gui else return gui

/-- The size that a drag of the corner asks for, cut to the screen. -/
def draggedSize (screen : Screen) (window : GuiWindow) (width height : Int) : Int × Int :=
  let width := if width < 100 then 100 else width
  let height := if height < 50 then 50 else height
  (if screen.width < window.x + width then screen.width - window.x else width,
    if screen.height < window.y + height then screen.height - window.y else height)

/-- What `gui_handle_mouse_move` does to the windows while the left button is down. -/
def guiHandleMouseMove (screen : Screen) (gui : GuiState) (x y : Int) (pressed : Bool) : GuiState :=
  let drag := gui.dragState
  match pressed && drag.dragging, drag.draggedWindow with
  | true, some slot => guiMoveWindow screen gui slot (x - drag.dragOffsetX) (y - drag.dragOffsetY)
  | _, _ =>
    match pressed && drag.resizing, drag.resizedWindow with
    | true, some slot =>
      let (width, height) := draggedSize screen (gui.windows slot) (drag.resizeStartWidth + (x - drag.resizeStartX))
        (drag.resizeStartHeight + (y - drag.resizeStartY))
      guiResizeWindow gui slot width height
    | _, _ => gui

def guiHandleMouseRelease (gui : GuiState) : GuiState :=
  if gui.dragState.dragging then { gui with dragState := gui.dragState.none } else gui

/-- What `gui_mouse_event_handler` gets. -/
structure GuiMouseEvent where
  x : Int
  y : Int
  buttons : UInt8

/-- The windows, with the `last_buttons` of `gui_mouse_event_handler`. -/
structure GuiMouse where
  gui : GuiState
  lastButtons : UInt8

/-- The left button. -/
def GuiMouseEvent.pressed (event : GuiMouseEvent) : Bool := event.buttons &&& 0x01 ≠ 0

/-- What an event does to the windows; the pointer on the screen and the wheel are left out. -/
def guiMouseEventHandler (screen : Screen) (mouse : GuiMouse) (event : GuiMouseEvent) : Except Stop GuiMouse := do
  let changedButtons := event.buttons ^^^ mouse.lastButtons
  let gui ←
    if changedButtons &&& 0x01 ≠ 0 then
      if event.buttons &&& 0x01 ≠ 0 then guiHandleMouseClick screen mouse.gui event.x event.y
      else .ok (guiHandleMouseRelease mouse.gui)
    else .ok mouse.gui
  return { gui := guiHandleMouseMove screen gui event.x event.y event.pressed, lastButtons := event.buttons }

end Kernix
