import Kernix.Proofs.GuiCalls

/-! What the mouse does to the windows, from one press of the left button to its release. Of
all the places in between only the last one counts, and between the presses nothing
happens. -/

namespace Kernix.Proofs

variable {screen : Screen} {gui clicked after : GuiState} {slot : Fin maxWindows} {x y : Int}

/-- Where the button went down, and where it was seen last while it was down. -/
structure Gesture where
  pressX : Int
  pressY : Int
  lastX : Int
  lastY : Int

/-- The gestures of some events that are done, and the one that the button is still down for. -/
def gestures : Option Gesture → List GuiMouseEvent → List Gesture × Option Gesture
  | held, [] => ([], held)
  | none, event :: events =>
    if event.pressed then gestures (some ⟨event.x, event.y, event.x, event.y⟩) events else gestures none events
  | some gesture, event :: events =>
    if event.pressed then gestures (some { gesture with lastX := event.x, lastY := event.y }) events
    else (gesture :: (gestures none events).1, (gestures none events).2)

/-- A press, and one move to the last place. -/
def Gesture.hold (screen : Screen) (gui : GuiState) (gesture : Gesture) : Except Stop GuiState := do
  let gui ← guiHandleMouseClick screen gui gesture.pressX gesture.pressY
  return guiHandleMouseMove screen gui gesture.lastX gesture.lastY true

def Gesture.finish (screen : Screen) (gui : GuiState) (gesture : Gesture) : Except Stop GuiState := do
  let gui ← gesture.hold screen gui
  return guiHandleMouseRelease gui

def runGestures (screen : Screen) (gui : GuiState) (done : List Gesture × Option Gesture) : Except Stop GuiState := do
  let gui ← done.1.foldlM (Gesture.finish screen) gui
  match done.2 with
  | none => return gui
  | some gesture => gesture.hold screen gui

/-- What a gesture has done to the windows since its press: it has moved one of them as far as
the pointer went, or it has changed the size of one by as much, or nothing. -/
inductive GestureEffect (screen : Screen) (clicked : GuiState) (gesture : Gesture) : GuiState → Prop where
  | idle : GestureEffect screen clicked gesture clicked
  | moved (slot : Fin maxWindows) : GestureEffect screen clicked gesture (clicked.setWindow slot
      { clicked.windows slot with
        x := clampX screen ((clicked.windows slot).x + (gesture.lastX - gesture.pressX)) (clicked.windows slot).width
        y := clampY screen ((clicked.windows slot).y + (gesture.lastY - gesture.pressY)) (clicked.windows slot).height })
  | resized (slot : Fin maxWindows) : GestureEffect screen clicked gesture (resizeTo screen clicked slot
      ((clicked.windows slot).width + (gesture.lastX - gesture.pressX))
      ((clicked.windows slot).height + (gesture.lastY - gesture.pressY)))

/-- What a press leaves for the moves that follow. -/
inductive PressLeaves (x y : Int) (clicked : GuiState) : Prop where
  | idle (still : clicked.dragState.dragging = false) (fixed : clicked.dragState.resizing = false) :
      PressLeaves x y clicked
  | drags {slot : Fin maxWindows} (dragging : clicked.dragState.dragging = true)
      (window : clicked.dragState.draggedWindow = some slot)
      (offsetX : clicked.dragState.dragOffsetX = x - (clicked.windows slot).x)
      (offsetY : clicked.dragState.dragOffsetY = y - (clicked.windows slot).y) : PressLeaves x y clicked
  | resizes {slot : Fin maxWindows} (still : clicked.dragState.dragging = false)
      (resizing : clicked.dragState.resizing = true)
      (window : clicked.dragState.resizedWindow = some slot)
      (startX : clicked.dragState.resizeStartX = x) (startY : clicked.dragState.resizeStartY = y)
      (width : clicked.dragState.resizeStartWidth = (clicked.windows slot).width)
      (height : clicked.dragState.resizeStartHeight = (clicked.windows slot).height) : PressLeaves x y clicked

section Moves

theorem setWindow_absorbs (gui : GuiState) (slot : Fin maxWindows) (first second : GuiWindow) :
    (gui.setWindow slot first).setWindow slot second = gui.setWindow slot second := by
  unfold GuiState.setWindow
  rw [Function.update_idem]

theorem setWindow_window (gui : GuiState) (slot : Fin maxWindows) (window : GuiWindow) :
    (gui.setWindow slot window).windows slot = window :=
  Function.update_self ..

theorem guiMoveWindow_absorbs (screen : Screen) (gui : GuiState) (slot : Fin maxWindows) (x y x' y' : Int) :
    guiMoveWindow screen (guiMoveWindow screen gui slot x y) slot x' y' = guiMoveWindow screen gui slot x' y' := by
  unfold guiMoveWindow
  dsimp only
  rw [setWindow_absorbs, setWindow_window]

theorem resizeTo_absorbs (screen : Screen) (gui : GuiState) (slot : Fin maxWindows) (width height width' height' : Int) :
    resizeTo screen (resizeTo screen gui slot width height) slot width' height' =
      resizeTo screen gui slot width' height' := by
  unfold resizeTo guiResizeWindow
  dsimp only
  rw [setWindow_absorbs, setWindow_window]
  rfl

/-- Which window a move goes to is decided by the press. -/
theorem move_branches (screen : Screen) (drag : DragState) :
    (∀ gui, gui.dragState = drag → ∀ x y, guiHandleMouseMove screen gui x y true = gui) ∨
      (∃ slot, drag.dragging = true ∧ drag.draggedWindow = some slot ∧ ∀ gui, gui.dragState = drag → ∀ x y,
        guiHandleMouseMove screen gui x y true =
          guiMoveWindow screen gui slot (x - drag.dragOffsetX) (y - drag.dragOffsetY)) ∨
      ∃ slot, drag.resizing = true ∧ drag.resizedWindow = some slot ∧ ∀ gui, gui.dragState = drag → ∀ x y,
        guiHandleMouseMove screen gui x y true = resizeTo screen gui slot
          (drag.resizeStartWidth + (x - drag.resizeStartX)) (drag.resizeStartHeight + (y - drag.resizeStartY)) := by
  have drags {slot : Fin maxWindows} (dragging : drag.dragging = true) (window : drag.draggedWindow = some slot)
      (gui : GuiState) (same : gui.dragState = drag) (x y : Int) : guiHandleMouseMove screen gui x y true =
        guiMoveWindow screen gui slot (x - drag.dragOffsetX) (y - drag.dragOffsetY) := by
    unfold guiHandleMouseMove
    simp only [same, dragging, window, Bool.and_self]
  have sizes (still : drag.dragging = false ∨ drag.draggedWindow = none) {slot : Fin maxWindows}
      (resizing : drag.resizing = true) (window : drag.resizedWindow = some slot) (gui : GuiState)
      (same : gui.dragState = drag) (x y : Int) : guiHandleMouseMove screen gui x y true = resizeTo screen gui slot
        (drag.resizeStartWidth + (x - drag.resizeStartX)) (drag.resizeStartHeight + (y - drag.resizeStartY)) := by
    unfold guiHandleMouseMove
    rcases still with still | still
    · simp only [same, still, resizing, window, Bool.true_and]
      rfl
    · simp only [same, still, resizing, window, Bool.true_and]
      cases drag.dragging <;> rfl
  have rests (still : drag.dragging = false ∨ drag.draggedWindow = none)
      (other : drag.resizing = false ∨ drag.resizedWindow = none) (gui : GuiState) (same : gui.dragState = drag)
      (x y : Int) : guiHandleMouseMove screen gui x y true = gui := by
    unfold guiHandleMouseMove
    rcases still with still | still
    · rcases other with other | other
      · simp only [same, still, other, Bool.true_and]
      · simp only [same, still, other, Bool.true_and]
        cases drag.resizing <;> rfl
    · rcases other with other | other
      · simp only [same, still, other, Bool.true_and]
        cases drag.dragging <;> rfl
      · simp only [same, still, other, Bool.true_and]
        cases drag.dragging <;> cases drag.resizing <;> rfl
  have resizes (still : drag.dragging = false ∨ drag.draggedWindow = none) :
      (∀ gui, gui.dragState = drag → ∀ x y, guiHandleMouseMove screen gui x y true = gui) ∨
        ∃ slot, drag.resizing = true ∧ drag.resizedWindow = some slot ∧ ∀ gui, gui.dragState = drag → ∀ x y,
          guiHandleMouseMove screen gui x y true = resizeTo screen gui slot
            (drag.resizeStartWidth + (x - drag.resizeStartX)) (drag.resizeStartHeight + (y - drag.resizeStartY)) := by
    rcases resizing : drag.resizing with - | -
    · left
      exact rests still (.inl resizing)
    · rcases window : drag.resizedWindow with - | slot
      · left
        exact rests still (.inr window)
      · right
        exact ⟨slot, rfl, rfl, sizes still resizing window⟩
  rcases dragging : drag.dragging with - | -
  · exact (resizes (.inl dragging)).imp_right .inr
  · rcases window : drag.draggedWindow with - | slot
    · exact (resizes (.inr window)).imp_right .inr
    · exact .inr (.inl ⟨slot, rfl, rfl, drags dragging window⟩)

/-- A window that is moved or resized twice is what was asked for last. -/
theorem move_absorbs (screen : Screen) (gui : GuiState) (x y x' y' : Int) :
    guiHandleMouseMove screen (guiHandleMouseMove screen gui x y true) x' y' true =
      guiHandleMouseMove screen gui x' y' true := by
  rcases move_branches screen gui.dragState with idle | ⟨slot, -, -, moves⟩ | ⟨slot, -, -, resizes⟩
  · rw [idle gui rfl x y]
  · rw [moves gui rfl x y, moves gui rfl x' y']
    exact (moves (guiMoveWindow screen gui slot _ _) rfl x' y').trans (guiMoveWindow_absorbs ..)
  · rw [resizes gui rfl x y, resizes gui rfl x' y']
    exact (resizes (resizeTo screen gui slot _ _) rfl x' y').trans (resizeTo_absorbs ..)

end Moves

section Buttons

theorem leftButton_iff (buttons : UInt8) : buttons &&& 0x01 ≠ 0 ↔ buttons.toNat % 2 = 1 := by
  have low : (buttons &&& 0x01).toNat = buttons.toNat % 2 := by simp [Nat.and_one_is_mod]
  rw [← low, ne_eq, ← UInt8.toNat_inj, low]
  simp

theorem changed_iff (buttons last : UInt8) :
    (buttons ^^^ last) &&& 0x01 ≠ 0 ↔ ¬(buttons &&& 0x01 ≠ 0 ↔ last &&& 0x01 ≠ 0) := by
  have parity : (buttons ^^^ last).toNat % 2 = 1 ↔ ¬(buttons.toNat % 2 = 1 ↔ last.toNat % 2 = 1) := by
    have bit := Nat.testBit_xor buttons.toNat last.toNat 0
    simp only [Nat.testBit_zero] at bit
    rw [UInt8.toNat_xor, ← @decide_eq_true_iff ((buttons.toNat ^^^ last.toNat) % 2 = 1), bit]
    by_cases odd : buttons.toNat % 2 = 1 <;> by_cases odd' : last.toNat % 2 = 1 <;> simp [odd, odd']
  rw [leftButton_iff, leftButton_iff, leftButton_iff, parity]

variable {mouse : GuiMouse} {event : GuiMouseEvent}

theorem handler_pressed (up : mouse.lastButtons &&& 0x01 = 0) (down : event.pressed = true) :
    guiMouseEventHandler screen mouse event = (guiHandleMouseClick screen mouse.gui event.x event.y).map fun gui =>
      ⟨guiHandleMouseMove screen gui event.x event.y true, event.buttons⟩ := by
  have left : event.buttons &&& 0x01 ≠ 0 := of_decide_eq_true down
  unfold guiMouseEventHandler
  dsimp only
  rw [if_pos ((changed_iff _ _).mpr (by simp [left, up])), if_pos left, down]
  cases guiHandleMouseClick screen mouse.gui event.x event.y <;> rfl

theorem handler_held (held : mouse.lastButtons &&& 0x01 ≠ 0) (down : event.pressed = true) :
    guiMouseEventHandler screen mouse event =
      .ok ⟨guiHandleMouseMove screen mouse.gui event.x event.y true, event.buttons⟩ := by
  have left : event.buttons &&& 0x01 ≠ 0 := of_decide_eq_true down
  unfold guiMouseEventHandler
  dsimp only
  rw [if_neg (mt (changed_iff _ _).mp (by simp [left, held])), down]
  rfl

theorem handler_released (held : mouse.lastButtons &&& 0x01 ≠ 0) (up : event.pressed = false) :
    guiMouseEventHandler screen mouse event = .ok ⟨guiHandleMouseRelease mouse.gui, event.buttons⟩ := by
  have left : event.buttons &&& 0x01 = 0 := by simpa [GuiMouseEvent.pressed] using up
  unfold guiMouseEventHandler
  dsimp only
  rw [if_pos ((changed_iff _ _).mpr (by simp [left, held])), if_neg (not_not.mpr left), up]
  rfl

theorem handler_idle (last : mouse.lastButtons &&& 0x01 = 0) (up : event.pressed = false) :
    guiMouseEventHandler screen mouse event = .ok ⟨mouse.gui, event.buttons⟩ := by
  have left : event.buttons &&& 0x01 = 0 := by simpa [GuiMouseEvent.pressed] using up
  unfold guiMouseEventHandler
  dsimp only
  rw [if_neg (mt (changed_iff _ _).mp (by simp [left, last])), up]
  rfl

end Buttons

section Presses
variable {window : GuiWindow} {program : GuiProgram}

theorem guiCreateWindow_drag {title : List UInt8} {width height : Int} {made : Option (Fin maxWindows)}
    (creates : guiCreateWindow screen gui title x y width height = .ok (made, after)) :
    after.dragState = gui.dragState := by
  unfold guiCreateWindow at creates
  split at creates
  · split at creates
    · cases creates
    · cases creates
      rfl
  · cases creates
    rfl

theorem removeTaskbarButton_drag {id : Int} (removes : removeTaskbarButton gui id = .ok after) :
    after.dragState = gui.dragState := by
  unfold removeTaskbarButton at removes
  obtain ⟨found, -, removes⟩ := bind_ok removes
  cases found with
  | none =>
    cases removes
    rfl
  | some i =>
    obtain ⟨buttons, -, removes⟩ := bind_ok removes
    cases removes
    rfl

theorem guiDestroyWindow_drag (destroys : guiDestroyWindow gui slot = .ok after) : after.dragState = gui.dragState := by
  unfold guiDestroyWindow at destroys
  obtain ⟨middle, removes, destroys⟩ := bind_ok destroys
  have same := removeTaskbarButton_drag removes
  split at destroys
  · obtain ⟨windows, -, destroys⟩ := bind_ok destroys
    cases destroys
    exact same
  · cases destroys
    exact same

theorem openProgram_drag (opens : openProgram gui slot program = .ok after) : after.dragState = gui.dragState := by
  unfold openProgram at opens
  dsimp only at opens
  split at opens
  · have same := guiDestroyWindow_drag opens
    exact same
  · split at opens
    · split at opens
      · cases opens
      · obtain ⟨buttons, -, opens⟩ := bind_ok opens
        cases opens
        rfl
    · cases opens
      rfl

theorem launchPlain_drag {title : List UInt8} {width height : Int}
    (launches : launchPlain screen gui title x y width height = .ok after) : after.dragState = gui.dragState := by
  obtain ⟨⟨made, middle⟩, creates, same⟩ := bind_ok launches
  cases same
  exact guiCreateWindow_drag creates

theorem launchProgram_drag {title : List UInt8} {width height : Int}
    (launches : launchProgram screen gui program title x y width height = .ok after) :
    after.dragState = gui.dragState := by
  obtain ⟨⟨made, middle⟩, creates, rest⟩ := bind_ok launches
  have same := guiCreateWindow_drag creates
  cases made with
  | none =>
    cases rest
    exact same
  | some slot => exact (openProgram_drag rest).trans same

theorem launch_drag {launch : Launch} (launches : launch.run screen gui = .ok after) :
    after.dragState = gui.dragState := by
  cases launch with
  | terminal | textEditor | fileManager => exact launchProgram_drag launches
  | _ => exact launchPlain_drag launches

theorem onStartButtonClick_drag (starts : onStartButtonClick screen gui = .ok after) :
    after.dragState = gui.dragState := by
  obtain ⟨found, -, rest⟩ := bind_ok starts
  cases found with
  | none => exact launchPlain_drag rest
  | some i =>
    dsimp only at rest
    split at rest
    · exact guiDestroyWindow_drag rest
    · cases rest

theorem guiFocusWindow_drag (focuses : guiFocusWindow gui slot = .ok after) : after.dragState = gui.dragState := by
  unfold guiFocusWindow at focuses
  split at focuses
  · cases focuses
    rfl
  · obtain ⟨windows, -, focuses⟩ := bind_ok focuses
    cases focuses
    rfl

/-- Nothing is dragged or resized. -/
def Undragged (gui : GuiState) : Prop := gui.dragState.dragging = false ∧ gui.dragState.resizing = false

theorem Undragged.leaves (quiet : Undragged gui) (same : after.dragState = gui.dragState) : PressLeaves x y after := by
  refine .idle ?_ ?_
  · rw [same]
    exact quiet.1
  · rw [same]
    exact quiet.2

theorem clickWindow_leaves (quiet : Undragged gui) (clicks : clickWindow screen gui slot x y = .ok clicked) :
    PressLeaves x y clicked := by
  unfold clickWindow at clicks
  dsimp only at clicks
  split at clicks
  next =>
    split at clicks
    next => exact quiet.leaves (launch_drag clicks)
    next =>
      cases clicks
      exact quiet.leaves rfl
  next =>
    split at clicks
    next =>
      cases clicks
      exact quiet.leaves rfl
    next =>
      split at clicks
      next =>
        cases clicks
        exact quiet.leaves rfl
      next =>
        split at clicks
        next => exact quiet.leaves (guiDestroyWindow_drag clicks)
        next =>
          split at clicks
          next =>
            cases clicks
            exact .drags rfl rfl rfl rfl
          next =>
            split at clicks
            next =>
              cases clicks
              exact .resizes quiet.1 rfl rfl rfl rfl rfl rfl
            next =>
              cases clicks
              exact quiet.leaves rfl

theorem guiHandleMouseClick_leaves (clicks : guiHandleMouseClick screen gui x y = .ok clicked) :
    PressLeaves x y clicked := by
  have quiet : Undragged { gui with dragState := gui.dragState.none } := ⟨rfl, rfl⟩
  unfold guiHandleMouseClick at clicks
  dsimp only at clicks
  split at clicks
  · split at clicks
    · cases clicks
      exact quiet.leaves rfl
    · cases clicks
  · obtain ⟨found, -, clicks⟩ := bind_ok clicks
    cases found with
    | none =>
      dsimp only at clicks
      split at clicks
      · exact quiet.leaves (onStartButtonClick_drag clicks)
      · cases clicks
        exact quiet.leaves rfl
    | some slot =>
      obtain ⟨focused, focuses, clicks⟩ := bind_ok clicks
      have same := guiFocusWindow_drag focuses
      refine clickWindow_leaves ⟨?_, ?_⟩ clicks
      · rw [same]
        exact quiet.1
      · rw [same]
        exact quiet.2

/-- The moves behind a press go to the window that it has picked. -/
theorem PressLeaves.effect {gesture : Gesture} (leaves : PressLeaves gesture.pressX gesture.pressY clicked) :
    GestureEffect screen clicked gesture (guiHandleMouseMove screen clicked gesture.lastX gesture.lastY true) := by
  cases leaves with
  | idle still fixed =>
    have moves : guiHandleMouseMove screen clicked gesture.lastX gesture.lastY true = clicked := by
      unfold guiHandleMouseMove
      simp only [still, fixed, Bool.and_false]
    rw [moves]
    exact .idle
  | @drags slot dragging window offsetX offsetY =>
    have moves : guiHandleMouseMove screen clicked gesture.lastX gesture.lastY true =
        guiMoveWindow screen clicked slot ((clicked.windows slot).x + (gesture.lastX - gesture.pressX))
          ((clicked.windows slot).y + (gesture.lastY - gesture.pressY)) := by
      unfold guiHandleMouseMove
      simp only [dragging, window, Bool.and_self, offsetX, offsetY]
      congr 1 <;> omega
    rw [moves]
    exact .moved slot
  | @resizes slot still resizing window startX startY width height =>
    have moves : guiHandleMouseMove screen clicked gesture.lastX gesture.lastY true =
        resizeTo screen clicked slot ((clicked.windows slot).width + (gesture.lastX - gesture.pressX))
          ((clicked.windows slot).height + (gesture.lastY - gesture.pressY)) := by
      unfold guiHandleMouseMove
      simp only [still, resizing, window, Bool.and_false, Bool.and_self, startX, startY, width, height]
      rfl
    rw [moves]
    exact .resized slot

end Presses

section Runs

/-- A press that does not return ends the run. -/
theorem runGestures_fails {gesture : Gesture} {stop : Stop} (events : List GuiMouseEvent)
    (clicks : guiHandleMouseClick screen gui gesture.pressX gesture.pressY = .error stop) :
    runGestures screen gui (gestures (some gesture) events) = .error stop := by
  have holds : gesture.hold screen gui = .error stop := by
    unfold Gesture.hold
    rw [clicks]
    rfl
  induction events generalizing gesture with
  | nil => exact holds
  | cons event events ih =>
    rw [gestures]
    split
    · refine ih clicks ?_
      unfold Gesture.hold
      rw [clicks]
      rfl
    · unfold runGestures
      rw [List.foldlM_cons]
      unfold Gesture.finish
      rw [holds]
      rfl

/-- The events after a press, or after a release. -/
theorem run_gestures (screen : Screen) (events : List GuiMouseEvent) (gui : GuiState) (last : UInt8) :
    (last &&& 0x01 = 0 →
      (events.foldlM (guiMouseEventHandler screen) ⟨gui, last⟩).map GuiMouse.gui =
        runGestures screen gui (gestures none events)) ∧
    ∀ gesture held, last &&& 0x01 ≠ 0 → gesture.hold screen gui = .ok held →
      (events.foldlM (guiMouseEventHandler screen) ⟨held, last⟩).map GuiMouse.gui =
        runGestures screen gui (gestures (some gesture) events) := by
  induction events generalizing gui last with
  | nil =>
    refine ⟨fun _ => rfl, fun gesture held _ holds => ?_⟩
    exact holds.symm
  | cons event events ih =>
    constructor
    · intro up
      rw [List.foldlM_cons, gestures]
      rcases down : event.pressed with - | -
      · rw [handler_idle up down, if_neg (by simp)]
        refine (ih gui event.buttons).1 ?_
        simpa [GuiMouseEvent.pressed] using down
      · rw [handler_pressed up down, if_pos rfl]
        rcases clicks : guiHandleMouseClick screen gui event.x event.y with stop | clicked
        · let first : Gesture := ⟨event.x, event.y, event.x, event.y⟩
          have fails : guiHandleMouseClick screen gui first.pressX first.pressY = .error stop := clicks
          exact (runGestures_fails events fails).symm
        · refine (ih gui event.buttons).2 _ _ (of_decide_eq_true down) ?_
          unfold Gesture.hold
          rw [clicks]
          rfl
    · intro gesture held down holds
      rw [List.foldlM_cons, gestures]
      rcases still : event.pressed with - | -
      · rw [handler_released down still, if_neg (by simp)]
        have up : event.buttons &&& 0x01 = 0 := by simpa [GuiMouseEvent.pressed] using still
        refine ((ih (guiHandleMouseRelease held) event.buttons).1 up).trans ?_
        unfold runGestures
        rw [List.foldlM_cons]
        unfold Gesture.finish
        rw [holds]
        rfl
      · rw [handler_held down still, if_pos rfl]
        refine (ih gui event.buttons).2 _ _ (of_decide_eq_true still) ?_
        obtain ⟨clicked, clicks, same⟩ := bind_ok holds
        cases same
        unfold Gesture.hold
        rw [clicks]
        exact congrArg Except.ok (move_absorbs ..).symm

end Runs

/-- Whatever places the mouse has come by, the windows are as its gestures leave them; and a
gesture moves the window that it began on by as much as the pointer went, cut to the screen,
or resizes it by as much, or does nothing after its press. -/
theorem mouse_gestures (screen : Screen) (gui : GuiState) (events : List GuiMouseEvent) :
    (events.foldlM (guiMouseEventHandler screen) ⟨gui, 0⟩).map GuiMouse.gui =
        runGestures screen gui (gestures none events) ∧
      ∀ (gesture : Gesture) (start held : GuiState), gesture.hold screen start = .ok held →
        ∃ clicked, guiHandleMouseClick screen start gesture.pressX gesture.pressY = .ok clicked ∧
          GestureEffect screen clicked gesture held := by
  refine ⟨(run_gestures screen events gui 0).1 rfl, fun gesture start held holds => ?_⟩
  obtain ⟨clicked, clicks, same⟩ := bind_ok holds
  cases same
  exact ⟨clicked, clicks, (guiHandleMouseClick_leaves clicks).effect⟩

end Kernix.Proofs
