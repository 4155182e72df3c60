import Kernix.Proofs.GuiLists
import Kernix.Lib.Runs

/-! The calls that open, close and change windows, and how each of them can end. -/

namespace Kernix.Proofs
open SlotList

/-- The open windows, the topmost last. -/
def openWindows (gui : GuiState) : List GuiWindow := (List.ofFn gui.windows).take gui.windowCount

def shownButtons (gui : GuiState) : List TaskbarButton := (List.ofFn gui.taskbarButtons).take gui.taskbarButtonCount

/-- A call on a window goes to the slot that it is in. -/
inductive GuiCall where
  | launch (kind : Launch)
  | startButton
  | create (title : List UInt8) (x y width height : Int)
  | focus (slot : Fin maxWindows)
  | destroy (slot : Fin maxWindows)
  | minimize (slot : Fin maxWindows)
  | maximize (slot : Fin maxWindows)
  | resize (slot : Fin maxWindows) (width height : Int)
  | move (slot : Fin maxWindows) (x y : Int)

/-- A size is what a drag of the corner asks for. -/
def resizeTo (screen : Screen) (gui : GuiState) (slot : Fin maxWindows) (width height : Int) : GuiState :=
  let (width, height) := draggedSize screen (gui.windows slot) width height
  guiResizeWindow gui slot width height

def GuiCall.run (screen : Screen) (gui : GuiState) : GuiCall → Except Stop GuiState
  | .launch kind => kind.run screen gui
  | .startButton => onStartButtonClick screen gui
  | .create title x y width height => launchPlain screen gui title x y width height
  | .focus slot => guiFocusWindow gui slot
  | .destroy slot => guiDestroyWindow gui slot
  | .minimize slot => .ok (guiMinimizeWindow gui slot)
  | .maximize slot => .ok (guiMaximizeWindow screen gui slot)
  | .resize slot width height => .ok (resizeTo screen gui slot width height)
  | .move slot x y => .ok (guiMoveWindow screen gui slot x y)

def GuiCall.slot? : GuiCall → Option (Fin maxWindows)
  | .focus slot | .destroy slot | .minimize slot | .maximize slot | .resize slot _ _ | .move slot _ _ => some slot
  | _ => none

/-- The window that a call changes in its place. -/
def GuiCall.edits? : GuiCall → Option (Fin maxWindows)
  | .minimize slot | .maximize slot | .resize slot _ _ | .move slot _ _ => some slot
  | _ => none

/-- What a call asks for that may open a window. -/
def GuiCall.frame? : GuiCall → Option LaunchFrame
  | .launch kind => some (launchFrame kind)
  | .startButton => some menuFrame
  | .create title x y width height => some ⟨title, x, y, width, height, none⟩
  | _ => none

/-- A call goes to an open window, and returns. -/
structure GuiMoves (screen : Screen) (before : GuiState) (call : GuiCall) (after : GuiState) : Prop where
  opened : ∀ slot ∈ call.slot?, slot.val < before.windowCount
  runs : call.run screen before = .ok after

/-- What the mouse does to the windows while it moves are calls of this kind. -/
theorem guiHandleMouseMove_calls (screen : Screen) (gui : GuiState) (x y : Int) (pressed : Bool) :
    guiHandleMouseMove screen gui x y pressed = gui ∨
      ∃ call : GuiCall, call.run screen gui = .ok (guiHandleMouseMove screen gui x y pressed) := by
  unfold guiHandleMouseMove
  dsimp only
  split
  next slot _ _ => exact .inr ⟨.move slot _ _, rfl⟩
  next =>
    split
    next slot _ _ => exact .inr ⟨.resize slot _ _, rfl⟩
    next => exact .inl rfl

/-- What becomes of that window. -/
def GuiCall.edited (screen : Screen) (window : GuiWindow) : GuiCall → GuiWindow
  | .minimize _ => minimizedWindow window
  | .maximize _ => maximizedWindow screen window
  | .resize _ width height =>
    { window with width := (draggedSize screen window width height).1, height := (draggedSize screen window width height).2 }
  | .move _ x y => { window with x := clampX screen x window.width, y := clampY screen y window.height }
  | _ => window

/-- What a window is is not changed in its place. -/
structure SameWindow (window other : GuiWindow) : Prop where
  id : other.id = window.id
  title : other.title = window.title
  programState : other.programState = window.programState

theorem edited_same (screen : Screen) (window : GuiWindow) (call : GuiCall) : SameWindow window (call.edited screen window) := by
  cases call with
  | minimize =>
    simp only [GuiCall.edited, minimizedWindow]
    split <;> exact ⟨rfl, rfl, rfl⟩
  | maximize =>
    simp only [GuiCall.edited, maximizedWindow]
    split <;> exact ⟨rfl, rfl, rfl⟩
  | _ => exact ⟨rfl, rfl, rfl⟩

theorem minimizedWindow_toggles (window : GuiWindow) :
    (minimizedWindow window).state = .minimized ↔ window.state ≠ .minimized := by
  rw [minimizedWindow]
  split
  next minimized => simp [minimized]
  next normal => simp [normal]

theorem minimizedWindow_ne (window : GuiWindow) : (minimizedWindow window).state ≠ window.state := by
  intro same
  have toggles := minimizedWindow_toggles window
  rw [same] at toggles
  exact iff_not_self toggles

/-- The calls one after the other, each on an open window. -/
def runGuiCalls (screen : Screen) : GuiState → List GuiCall → Option GuiState
  | gui, [] => some gui
  | gui, call :: calls =>
    match call.slot?.all (fun slot => decide (slot.val < gui.windowCount)), call.run screen gui with
    | true, .ok after => runGuiCalls screen after calls
    | _, _ => none

/-- No window is the start menu, so that the button "Start" opens it. -/
def NoMenu (items : List GuiWindow) : Prop := ∀ window ∈ items, window.title ≠ []

/-- How a call can end that returns. -/
inductive Outcome (screen : Screen) (before : GuiState) (items : List GuiWindow) (buttons : List TaskbarButton) :
    GuiCall → GuiState → Prop where
  | launched {call : GuiCall} {frame : LaunchFrame} {after : GuiState} (asks : call.frame? = some frame)
      (menu : call = .startButton → NoMenu items) (launched : Launched screen before items buttons frame after) :
      Outcome screen before items buttons call after
  | closed {call : GuiCall} {after : GuiState} (index : Nat) (inside : index < items.length)
      (asks : (∃ slot, call = .destroy slot ∧ slot.val = index) ∨ call = .startButton ∧ ¬NoMenu items)
      (shown : GuiIs after (items.eraseIdx index) (buttons.eraseP (·.windowId = items[index].id)))
      (keeps : KeepsRest before after) (used : after.stateUsed = releaseStates before.stateUsed items[index]) :
      Outcome screen before items buttons call after
  | focused {slot : Fin maxWindows} (focused : before.focusedWindowId = (before.windows slot).id) :
      Outcome screen before items buttons (.focus slot) before
  | raised {slot : Fin maxWindows} {others : List GuiWindow} {after : GuiState} (inside : slot.val < items.length)
      (other : before.focusedWindowId ≠ items[slot.val].id) (shown : GuiIs after others buttons)
      (raise : others.map unfocused = (raised items slot.val items[slot.val]).map unfocused)
      (next : after.nextWindowId = before.nextWindowId) (used : after.stateUsed = before.stateUsed) :
      Outcome screen before items buttons (.focus slot) after
  | edited {call : GuiCall} {after : GuiState} (slot : Fin maxWindows) (asks : call.edits? = some slot)
      (inside : slot.val < items.length)
      (shown : GuiIs after (items.set slot.val (call.edited screen items[slot.val])) buttons) (keeps : KeepsRest before after)
      (used : after.stateUsed = before.stateUsed) : Outcome screen before items buttons call after

variable {screen : Screen} {gui after : GuiState} {items : List GuiWindow} {buttons : List TaskbarButton}

theorem GuiIs.openWindows_eq (shown : GuiIs gui items buttons) : openWindows gui = items := by
  rw [openWindows, shown.count, shown.windows.take_ofFn]

theorem GuiIs.shownButtons_eq (shown : GuiIs gui items buttons) : shownButtons gui = buttons := by
  rw [shownButtons, shown.barCount, shown.bar.take_ofFn]

open Transition in
/-- Calls one after the other are a run of every system that allows them. -/
theorem reachable_runGuiCalls {initial : GuiState → Prop} {step : GuiState → GuiCall → GuiState → Prop} {calls : List GuiCall}
    (allows : ∀ call ∈ calls, ∀ before after, GuiMoves screen before call after → step before call after)
    (reached : Reachable initial step gui) (runs : runGuiCalls screen gui calls = some after) :
    Reachable initial step after := by
  induction calls generalizing gui with
  | nil =>
    cases runs
    exact reached
  | cons call calls ih =>
    rw [runGuiCalls] at runs
    split at runs
    next middle opened ran =>
      have moves : GuiMoves screen gui call middle := by
        refine ⟨?_, ran⟩
        intro slot asked
        rw [Option.mem_def.mp asked] at opened
        simpa using opened
      have next : Reachable initial step middle := .step reached (allows call List.mem_cons_self gui middle moves)
      exact ih (fun other member => allows other (List.mem_cons_of_mem _ member)) next runs
    next => cases runs

theorem guiInit_is : GuiIs guiInit [] [] := ⟨holds_nil _, rfl, holds_nil _, rfl⟩

/-- A window on top of the others, and the focus on one of them, change what the windows
are only by the focus. -/
theorem focus_unfocused {index : Nat} {window : GuiWindow} (found : items[index]? = some window) :
    ((items.map unfocused).set index (withFocus window)).map unfocused = items.map unfocused := by
  obtain ⟨inside, rfl⟩ := List.getElem?_eq_some_iff.mp found
  rw [List.map_set, List.map_map]
  apply List.ext_getElem (by simp)
  intro other _ within
  rw [List.getElem_set]
  split
  next same =>
    subst same
    simp [unfocused, withFocus]
  next => simp [unfocused]

/-- A start menu that is open is found, and closed. -/
theorem onStartButtonClick_outcome (shown : GuiIs gui items buttons) (runs : onStartButtonClick screen gui = .ok after) :
    Outcome screen gui items buttons .startButton after := by
  unfold onStartButtonClick at runs
  rw [shown.count, findElement_all shown.windows] at runs
  simp only [bind, Except.bind] at runs
  cases found : items.findIdx? (fun window => decide (window.title = [])) with
  | none =>
    rw [found] at runs
    dsimp only at runs
    refine .launched rfl ?_ (menuFrame.launched shown runs)
    rintro - window member
    have tested := List.findIdx?_eq_none_iff.mp found window member
    simpa using tested
  | some i =>
    obtain ⟨inside, empty, -⟩ := List.findIdx?_eq_some_iff_getElem.mp found
    have fits := shown.windows.fits
    rw [found] at runs
    dsimp only at runs
    rw [dif_pos (by omega)] at runs
    obtain ⟨other, destroys, erased, keeps, used⟩ := @guiDestroyWindow_erases _ _ _ ⟨i, by omega⟩ shown inside
    cases destroys.symm.trans runs
    refine .closed i inside (.inr ⟨rfl, ?_⟩) erased keeps used
    intro none
    exact none items[i] (List.getElem_mem inside) (by simpa using empty)

/-- Every call on an open window that returns ends in one of these ways. -/
theorem GuiMoves.outcome {call : GuiCall} (shown : GuiIs gui items buttons) (moves : GuiMoves screen gui call after) :
    Outcome screen gui items buttons call after := by
  have runs := moves.runs
  have opened := moves.opened
  rw [shown.count] at opened
  cases call with
  | launch kind =>
    refine .launched rfl (by intro is; cases is) ?_
    exact (launchFrame kind).launched shown ((Launch.run_frame screen gui kind).symm.trans runs)
  | startButton => exact onStartButtonClick_outcome shown runs
  | create title x y width height =>
    refine .launched rfl (by intro is; cases is) ?_
    exact @LaunchFrame.launched _ _ _ _ _ ⟨title, x, y, width, height, none⟩ shown runs
  | focus slot =>
    have inside := opened slot rfl
    by_cases focused : gui.focusedWindowId = items[slot.val].id
    · cases (guiFocusWindow_focused shown inside focused).symm.trans runs
      exact .focused (by rwa [shown.slot inside])
    · obtain ⟨other, focuses, window, found, raised, -, -, next, used⟩ := guiFocusWindow_raises shown inside focused
      cases focuses.symm.trans runs
      exact .raised inside focused raised (focus_unfocused found) next used
  | destroy slot =>
    have inside := opened slot rfl
    obtain ⟨other, destroys, erased, keeps, used⟩ := guiDestroyWindow_erases shown inside
    cases destroys.symm.trans runs
    exact .closed slot.val inside (.inl ⟨slot, rfl, rfl⟩) erased keeps used
  | minimize slot | maximize slot | resize slot _ _ | move slot _ _ =>
    have inside := opened slot rfl
    cases runs
    refine .edited slot rfl inside ?_ ⟨rfl, rfl, rfl⟩ rfl
    rw [← shown.slot inside]
    exact shown.set inside _

theorem Outcome.shown {call : GuiCall} (shown : GuiIs gui items buttons) (outcome : Outcome screen gui items buttons call after) :
    ∃ items buttons, GuiIs after items buttons := by
  cases outcome with
  | launched _ _ launched =>
    cases launched with
    | full => exact ⟨_, _, shown⟩
    | plain _ _ shown | exhausted _ _ _ shown | started _ _ _ shown => exact ⟨_, _, shown⟩
  | focused => exact ⟨_, _, shown⟩
  | closed _ _ _ shown | raised _ _ shown | edited _ _ _ shown => exact ⟨_, _, shown⟩

/-- The windows and the buttons are lists in every state that is reached, and a proof that a
step preserves something may use them. -/
theorem guiReachable_invariant {step : GuiState → GuiCall → GuiState → Prop} (holds : GuiState → Prop)
    (moves : ∀ before call after, step before call after → GuiMoves screen before call after) (starts : holds guiInit)
    (preserved : ∀ {before call after items buttons}, GuiIs before items buttons → holds before →
      step before call after → holds after)
    (reached : Transition.Reachable (· = guiInit) step gui) : (∃ items buttons, GuiIs gui items buttons) ∧ holds gui := by
  refine reached.invariant (fun gui => (∃ items buttons, GuiIs gui items buttons) ∧ holds gui) ?_ ?_
  · rintro _ rfl
    exact ⟨⟨_, _, guiInit_is⟩, starts⟩
  · rintro before call after ⟨⟨items, buttons, shown⟩, kept⟩ takes
    exact ⟨((moves _ _ _ takes).outcome shown).shown shown, preserved shown kept takes⟩

end Kernix.Proofs
