import Kernix.Gui.Launchers
import Kernix.Lib.SlotList
import Mathlib.Data.List.Basic
import Mathlib.Data.List.Perm.Basic

/-! The open windows and the buttons of the taskbar as lists, and what each function of
the GUI does to them. Every launch creates a window in a place of its own, and those of a
program give it a state of the program and a button. -/

namespace Kernix.Proofs
open SlotList

section Arrays
variable {α : Type} {size : Nat} {array : Fin size → α} {items : List α}

theorem shiftElements_eq (array : Fin size → α) {left position : Nat} (inside : position + left < size) :
    shiftElements array left position = .ok (shifted array position left) := by
  induction left generalizing array position with
  | zero => rw [shiftElements, shifted_none]
  | succ left ih =>
    rw [shiftElements, elementAt_eq _ (by omega)]
    simp only [bind, Except.bind]
    rw [setElement_eq _ (by omega)]
    simp only
    rw [ih _ (by omega), shifted_step _ (by omega)]

/-- The search goes through the list. -/
theorem findElement_eq (held : Holds array items) (test : α → Bool) {left i : Nat} (rest : i + left = items.length) :
    findElement array test left i = .ok (((items.drop i).findIdx? test).map (· + i)) := by
  have fits := held.fits
  induction left generalizing i with
  | zero =>
    rw [findElement, List.drop_eq_nil_of_le (by omega)]
    rfl
  | succ left ih =>
    have inside : i < items.length := by omega
    rw [findElement, elementAt_eq _ (by omega), held.slot i inside, List.drop_eq_getElem_cons inside, List.findIdx?_cons]
    simp only [bind, Except.bind]
    by_cases passes : test items[i] = true
    · rw [if_pos passes, if_pos passes]
      simp [pure, Except.pure]
    · rw [if_neg passes, if_neg passes, ih (by omega)]
      simp [Nat.add_assoc, Nat.add_comm 1, Function.comp_def]

theorem findElement_all (held : Holds array items) (test : α → Bool) :
    findElement array test items.length 0 = .ok (items.findIdx? test) := by
  rw [findElement_eq held test (Nat.zero_add _), List.drop_zero]
  simp

end Arrays

/-- The open windows, the topmost last, and the buttons. -/
structure GuiIs (gui : GuiState) (items : List GuiWindow) (buttons : List TaskbarButton) : Prop where
  windows : Holds gui.windows items
  count : gui.windowCount = items.length
  bar : Holds gui.taskbarButtons buttons
  barCount : gui.taskbarButtonCount = buttons.length

variable {gui after : GuiState} {items : List GuiWindow} {buttons : List TaskbarButton}

def unfocused (window : GuiWindow) : GuiWindow := { window with focused := false }

def withFocus (window : GuiWindow) : GuiWindow := { window with focused := true }

theorem clearFocus_holds {windows : Fin maxWindows → GuiWindow} (held : Holds windows items) :
    Holds (clearFocus windows items.length) (items.map unfocused) := by
  have fits := held.fits
  refine ⟨by rwa [List.length_map], ?_⟩
  intro index inside
  rw [List.length_map] at inside
  rw [clearFocus, if_pos inside, held.slot index inside, List.getElem_map, unfocused]

theorem GuiIs.slot (shown : GuiIs gui items buttons) {slot : Fin maxWindows} (inside : slot.val < items.length) :
    gui.windows slot = items[slot.val] :=
  shown.windows.slot slot.val inside

/-- One window changes by itself. -/
theorem GuiIs.set (shown : GuiIs gui items buttons) {slot : Fin maxWindows} (inside : slot.val < items.length)
    (window : GuiWindow) : GuiIs (gui.setWindow slot window) (items.set slot.val window) buttons :=
  ⟨shown.windows.set inside window, by rw [List.length_set]; exact shown.count, shown.bar, shown.barCount⟩

/-- A record behind the open windows may change. -/
theorem GuiIs.behind (shown : GuiIs gui items buttons) {slot : Fin maxWindows} (outside : items.length ≤ slot.val)
    (window : GuiWindow) : GuiIs (gui.setWindow slot window) items buttons := by
  refine ⟨⟨shown.windows.fits, ?_⟩, shown.count, shown.bar, shown.barCount⟩
  intro index inside
  have apart : (⟨index, Nat.lt_of_lt_of_le inside shown.windows.fits⟩ : Fin maxWindows) ≠ slot := by
    rw [ne_eq, Fin.ext_iff]
    dsimp only
    omega
  exact (Function.update_of_ne apart _ _).trans (shown.windows.slot index inside)

/-- What a function leaves besides the windows and the buttons. -/
structure KeepsRest (before after : GuiState) : Prop where
  focusedWindowId : after.focusedWindowId = before.focusedWindowId
  dragState : after.dragState = before.dragState
  nextWindowId : after.nextWindowId = before.nextWindowId

/-- A window that is created lies behind the others, which lose the focus. -/
structure Created (screen : Screen) (before after : GuiState) (items : List GuiWindow) (buttons : List TaskbarButton)
    (record : GuiWindow) (title : List UInt8) (x y width height : Int) : Prop where
  shown : GuiIs after (items.map unfocused ++
    [createdWindow record before.nextWindowId title (clampX screen x width) (clampY screen y height) width height]) buttons
  focusedWindowId : after.focusedWindowId = before.focusedWindowId
  dragState : after.dragState = before.dragState
  nextWindowId : after.nextWindowId = before.nextWindowId + 1
  stateUsed : after.stateUsed = before.stateUsed

section Windows
variable {screen : Screen} {title : List UInt8} {x y width height : Int} {slot : Fin maxWindows}

theorem guiCreateWindow_full (shown : GuiIs gui items buttons) (full : ¬items.length < maxWindows) :
    guiCreateWindow screen gui title x y width height = .ok (none, gui) := by
  rw [guiCreateWindow, dif_neg (by rw [shown.count]; exact full)]

theorem guiCreateWindow_room (shown : GuiIs gui items buttons) (room : items.length < maxWindows)
    (short : title.length < 64) (ids : gui.nextWindowId ≠ 2 ^ 31 - 1) :
    ∃ after, guiCreateWindow screen gui title x y width height = .ok (some ⟨items.length, room⟩, after) ∧
      Created screen gui after items buttons (gui.windows ⟨items.length, room⟩) title x y width height := by
  have count := shown.count
  have cleared := clearFocus_holds shown.windows
  have inside : gui.windowCount < maxWindows := count ▸ room
  have slot : (⟨gui.windowCount, inside⟩ : Fin maxWindows) = ⟨items.length, room⟩ := Fin.ext count
  rw [guiCreateWindow, dif_pos inside, if_neg (by rw [not_or]; exact ⟨Nat.not_le.mpr short, ids⟩)]
  simp only [slot]
  refine ⟨_, rfl, ⟨?_, ?_, shown.bar, shown.barCount⟩, rfl, rfl, rfl, rfl⟩
  · have pushed := cleared.push (by rwa [List.length_map])
      (createdWindow (gui.windows ⟨items.length, room⟩) gui.nextWindowId
      title (clampX screen x width) (clampY screen y height) width height)
    simp only [List.length_map] at pushed
    dsimp only
    rw [count]
    exact pushed
  · simp [count]

/-- A creation that returns a window had room for it. -/
theorem guiCreateWindow_some (shown : GuiIs gui items buttons)
    (creates : guiCreateWindow screen gui title x y width height = .ok (some slot, after)) :
    ∃ room : items.length < maxWindows, slot = ⟨items.length, room⟩ ∧
      Created screen gui after items buttons (gui.windows ⟨items.length, room⟩) title x y width height := by
  by_cases room : items.length < maxWindows
  · by_cases fine : title.length < 64 ∧ gui.nextWindowId ≠ 2 ^ 31 - 1
    · obtain ⟨other, returns, created⟩ := @guiCreateWindow_room _ _ _ screen title x y width height shown room fine.1 fine.2
      cases returns.symm.trans creates
      exact ⟨room, rfl, created⟩
    · rw [guiCreateWindow, dif_pos (by rw [shown.count]; exact room),
        if_pos (by rw [not_and_or, not_lt, not_not] at fine; exact fine)] at creates
      cases creates
  · cases (guiCreateWindow_full shown room).symm.trans creates

theorem guiCreateWindow_none (shown : GuiIs gui items buttons)
    (creates : guiCreateWindow screen gui title x y width height = .ok (none, after)) :
    ¬items.length < maxWindows ∧ after = gui := by
  by_cases room : items.length < maxWindows
  · rw [guiCreateWindow, dif_pos (by rw [shown.count]; exact room)] at creates
    split at creates <;> cases creates
  · cases (guiCreateWindow_full shown room).symm.trans creates
    exact ⟨room, rfl⟩

/-- The first button of the window goes. -/
theorem removeTaskbarButton_removes (shown : GuiIs gui items buttons) (id : Int) :
    ∃ after, removeTaskbarButton gui id = .ok after ∧ GuiIs after items (buttons.eraseP (·.windowId = id)) ∧
      KeepsRest gui after ∧ after.windows = gui.windows ∧ after.stateUsed = gui.stateUsed := by
  have fits := shown.bar.fits
  have count := shown.barCount
  unfold removeTaskbarButton
  rw [count, findElement_all shown.bar, List.eraseP_eq_eraseIdx]
  simp only [bind, Except.bind]
  cases found : buttons.findIdx? (fun button => decide (button.windowId = id)) with
  | none => exact ⟨gui, rfl, shown, ⟨rfl, rfl, rfl⟩, rfl, rfl⟩
  | some i =>
    have inside : i < buttons.length := (List.findIdx?_eq_some_iff_findIdx_eq.mp found).1
    simp only
    rw [shiftElements_eq _ (by omega)]
    refine ⟨_, rfl, ⟨shown.windows, shown.count, shown.bar.erase inside, ?_⟩, ⟨rfl, rfl, rfl⟩, rfl, rfl⟩
    rw [List.length_eraseIdx_of_lt inside]

/-- An open window that is closed goes out of the list, with its button and its states. -/
theorem guiDestroyWindow_erases (shown : GuiIs gui items buttons) (inside : slot.val < items.length) :
    ∃ after, guiDestroyWindow gui slot = .ok after ∧
      GuiIs after (items.eraseIdx slot.val) (buttons.eraseP (·.windowId = items[slot.val].id)) ∧ KeepsRest gui after ∧
      after.stateUsed = releaseStates gui.stateUsed items[slot.val] := by
  have fits := shown.windows.fits
  have record := shown.slot inside
  have stripped := @GuiIs.set { gui with stateUsed := releaseStates gui.stateUsed (gui.windows slot) } _ _
    ⟨shown.windows, shown.count, shown.bar, shown.barCount⟩ _ inside { gui.windows slot with programState := fun _ => none }
  obtain ⟨middle, removes, removed, rest, windows, used⟩ := removeTaskbarButton_removes stripped (gui.windows slot).id
  have count := removed.count
  rw [List.length_set] at count
  unfold guiDestroyWindow
  simp only [bind, Except.bind]
  rw [removes]
  simp only
  rw [if_pos (by omega), shiftElements_eq _ (by omega), ← record]
  refine ⟨_, rfl, ⟨?_, ?_, removed.bar, removed.barCount⟩, ⟨rest.focusedWindowId, rest.dragState, rest.nextWindowId⟩,
    used⟩
  · have erased := removed.windows.erase (show slot.val < _ by rwa [List.length_set])
    rw [List.length_set, List.eraseIdx_set_eq] at erased
    rw [count]
    exact erased
  · rw [List.length_eraseIdx_of_lt inside, count]

/-- The list with one window on top of the others. -/
def raised (items : List GuiWindow) (index : Nat) (window : GuiWindow) : List GuiWindow :=
    items.eraseIdx index ++ [window]

/-- The last window is on top already. -/
theorem raised_last {index : Nat} (last : index + 1 = items.length) (inside : index < items.length) :
    raised items index items[index] = items := by
  have some : items ≠ [] := List.ne_nil_of_length_pos (by omega)
  obtain rfl : index = items.length - 1 := by omega
  rw [raised, List.eraseIdx_length_sub_one, ← List.getLast_eq_getElem some, List.dropLast_concat_getLast]

theorem raised_perm {index : Nat} (inside : index < items.length) : (raised items index items[index]).Perm items :=
  (List.perm_append_singleton _ _).trans (List.getElem_cons_eraseIdx_perm inside)

theorem length_raised {index : Nat} (inside : index < items.length) (window : GuiWindow) :
    (raised items index window).length = items.length := by
  rw [raised, List.length_append, List.length_eraseIdx_of_lt inside, List.length_singleton]
  omega

theorem raiseWindow_raises (shown : GuiIs gui items buttons) (inside : slot.val < items.length) :
    ∃ windows, raiseWindow gui slot = .ok windows ∧ Holds windows (raised items slot.val items[slot.val]) := by
  have fits := shown.windows.fits
  have count := shown.count
  unfold raiseWindow
  by_cases under : slot.val + 1 < gui.windowCount
  · have erased := shown.windows.erase inside
    have pushed := erased.push (by rw [List.length_eraseIdx_of_lt inside]; omega) items[slot.val]
    rw [if_pos under, shiftElements_eq _ (by omega)]
    simp only [bind, Except.bind]
    rw [setElement_eq _ (by omega), shown.slot inside]
    refine ⟨_, rfl, ?_⟩
    simp only [List.length_eraseIdx_of_lt inside] at pushed
    simp only [count]
    exact pushed
  · rw [if_neg under]
    rw [raised_last (by omega) inside]
    exact ⟨_, rfl, shown.windows⟩

/-- A window that has the focus already stays where it is. -/
theorem guiFocusWindow_focused (shown : GuiIs gui items buttons) (inside : slot.val < items.length)
    (focused : gui.focusedWindowId = items[slot.val].id) : guiFocusWindow gui slot = .ok gui := by
  rw [guiFocusWindow, shown.slot inside, if_pos focused]
  rfl

/-- Another window goes on top. The focus goes to the window that then is in its slot. -/
theorem guiFocusWindow_raises (shown : GuiIs gui items buttons) (inside : slot.val < items.length)
    (other : gui.focusedWindowId ≠ items[slot.val].id) :
    ∃ after, guiFocusWindow gui slot = .ok after ∧ ∃ window,
      (raised items slot.val items[slot.val])[slot.val]? = some window ∧
      GuiIs after (((raised items slot.val items[slot.val]).map unfocused).set slot.val (withFocus window)) buttons ∧
      after.focusedWindowId = window.id ∧ after.dragState = gui.dragState ∧ after.nextWindowId = gui.nextWindowId ∧
      after.stateUsed = gui.stateUsed := by
  obtain ⟨windows, raises, held⟩ := raiseWindow_raises shown inside
  have length := length_raised inside items[slot.val]
  have within : slot.val < (raised items slot.val items[slot.val]).length := by omega
  have cleared := clearFocus_holds held
  rw [length, ← shown.count] at cleared
  have same := cleared.slot slot.val (by rwa [List.length_map])
  have cleared' := cleared.set (show slot.val < _ by rwa [List.length_map])
    (withFocus (raised items slot.val items[slot.val])[slot.val])
  rw [List.getElem_map] at same
  rw [guiFocusWindow, shown.slot inside, if_neg other]
  simp only [bind, Except.bind, raises]
  refine ⟨_, rfl, _, List.getElem?_eq_getElem within, ⟨?_, ?_, shown.bar, shown.barCount⟩, ?_, rfl, rfl, rfl⟩
  · dsimp only
    rw [same]
    exact cleared'
  · rw [List.length_set, List.length_map, length]
    exact shown.count
  · dsimp only
    rw [same]
    rfl

end Windows

section Launches

/-- What a launch asks for. -/
structure LaunchFrame where
  title : List UInt8
  x : Int
  y : Int
  width : Int
  height : Int
  program : Option GuiProgram

def LaunchFrame.launch (screen : Screen) (gui : GuiState) (frame : LaunchFrame) : Except Stop GuiState :=
  match frame.program with
  | some program => launchProgram screen gui program frame.title frame.x frame.y frame.width frame.height
  | none => launchPlain screen gui frame.title frame.x frame.y frame.width frame.height

def launchFrame : Launch → LaunchFrame
  | .terminal => ⟨literal "Terminal", 50, 50, 600, 400, some .terminal⟩
  | .shutdown => ⟨literal "Shutdown", 400, 300, 300, 200, none⟩
  | .calculator => ⟨literal "Calculator", 200, 200, 300, 400, none⟩
  | .paint => ⟨literal "Paint", 300, 100, 500, 400, none⟩
  | .textEditor => ⟨literal "Text Editor", 300, 100, 500, 400, some .textEditor⟩
  | .fileManager => ⟨literal "File Manager", 200, 150, 600, 400, some .fileManager⟩
  | .settings => ⟨literal "Settings", 100, 100, 300, 200, none⟩

def menuFrame : LaunchFrame := ⟨[], 10, taskbarHeight + 10, 220, 380, none⟩

theorem Launch.run_frame (screen : Screen) (gui : GuiState) (launch : Launch) :
    launch.run screen gui = (launchFrame launch).launch screen gui := by
  cases launch <;> rfl

variable {screen : Screen} {gui after : GuiState} {items : List GuiWindow} {buttons : List TaskbarButton} {frame : LaunchFrame}

/-- The window that a launch creates in a record. -/
def LaunchFrame.window (screen : Screen) (frame : LaunchFrame) (record : GuiWindow) (id : Int) : GuiWindow :=
  createdWindow record id frame.title (clampX screen frame.x frame.width) (clampY screen frame.y frame.height) frame.width
    frame.height

/-- The window of a program. -/
def markedWindow (window : GuiWindow) (program : GuiProgram) : GuiWindow :=
  { window with isProgram := Function.update window.isProgram program true }

/-- The window of a program, with a state of it. -/
def programWindow (window : GuiWindow) (program : GuiProgram) (index : Fin maxWindows) : GuiWindow :=
  { markedWindow window program with programState := Function.update window.programState program (some index) }

/-- What besides the list of the windows a launch may change. -/
structure LaunchKeeps (before after : GuiState) : Prop where
  focusedWindowId : after.focusedWindowId = before.focusedWindowId
  dragState : after.dragState = before.dragState
  nextWindowId : after.nextWindowId = before.nextWindowId + 1

/-- How a launch can end that returns. -/
inductive Launched (screen : Screen) (before : GuiState) (items : List GuiWindow) (buttons : List TaskbarButton)
    (frame : LaunchFrame) : GuiState → Prop where
  | full (full : ¬items.length < maxWindows) : Launched screen before items buttons frame before
  | plain {after : GuiState} (room : items.length < maxWindows) (program : frame.program = none)
      (shown : GuiIs after (items.map unfocused ++
        [frame.window screen (before.windows ⟨items.length, room⟩) before.nextWindowId]) buttons)
      (keeps : LaunchKeeps before after) (used : after.stateUsed = before.stateUsed) :
      Launched screen before items buttons frame after
  | exhausted {after : GuiState} {program : GuiProgram} (room : items.length < maxWindows)
      (program_ : frame.program = some program) (none : ∀ index, before.stateUsed program index = true)
      (shown : GuiIs after (items.map unfocused) (buttons.eraseP (·.windowId = before.nextWindowId)))
      (keeps : LaunchKeeps before after)
      (used : after.stateUsed = releaseStates before.stateUsed (before.windows ⟨items.length, room⟩)) :
      Launched screen before items buttons frame after
  | started {after : GuiState} {program : GuiProgram} {index : Fin maxWindows} (room : items.length < maxWindows)
      (program_ : frame.program = some program) (free : before.stateUsed program index = false)
      (shown : GuiIs after (items.map unfocused ++
          [programWindow (frame.window screen (before.windows ⟨items.length, room⟩) before.nextWindowId) program index])
        (if buttons.length < maxWindows then buttons ++ [⟨before.nextWindowId, frame.title⟩] else buttons))
      (keeps : LaunchKeeps before after)
      (used : after.stateUsed =
        Function.update before.stateUsed program (Function.update (before.stateUsed program) index true)) :
      Launched screen before items buttons frame after

section Opening
variable {front : List GuiWindow} {window : GuiWindow} {slot index : Fin maxWindows} {program : GuiProgram}

theorem GuiIs.last (shown : GuiIs gui (front ++ [window]) buttons) (place : slot.val = front.length) :
    gui.windows slot = window := by
  rw [shown.slot (by simp [place])]
  simp [place]

/-- A window behind the others gets a state of its program, and a button while there is room for one. -/
theorem openProgram_started (shown : GuiIs gui (front ++ [window]) buttons) (place : slot.val = front.length)
    (found : (List.finRange maxWindows).find? (fun i => !gui.stateUsed program i) = some index)
    (opens : openProgram gui slot program = .ok after) :
    GuiIs after (front ++ [programWindow window program index])
        (if buttons.length < maxWindows then buttons ++ [⟨window.id, window.title⟩] else buttons) ∧
      KeepsRest gui after ∧
      after.stateUsed = Function.update gui.stateUsed program (Function.update (gui.stateUsed program) index true) := by
  have count := shown.barCount
  obtain rfl := shown.last place
  have held := shown.windows.set (show slot.val < _ by simp [place]) (programWindow (gui.windows slot) program index)
  have replaced : (front ++ [gui.windows slot]).set slot.val (programWindow (gui.windows slot) program index) =
      front ++ [programWindow (gui.windows slot) program index] := by simp [place]
  have length := shown.count
  rw [List.length_append, List.length_singleton] at length
  unfold openProgram at opens
  simp only [GuiState.setWindow, found, Function.update_self, Function.update_idem] at opens
  rw [replaced] at held
  by_cases room : gui.taskbarButtonCount < maxWindows
  · rw [if_pos room] at opens
    split at opens
    next => cases opens
    next =>
      rw [setElement_eq _ room] at opens
      cases opens
      rw [if_pos (by omega)]
      refine ⟨⟨held, by simpa using length, ?_, ?_⟩, ⟨rfl, rfl, rfl⟩, rfl⟩
      · have pushed := shown.bar.push (by omega) ⟨(gui.windows slot).id, (gui.windows slot).title⟩
        simp only [← count] at pushed
        exact pushed
      · simp [count]
  · rw [if_neg room] at opens
    cases opens
    rw [if_neg (by omega)]
    exact ⟨⟨held, by simpa using length, shown.bar, count⟩, ⟨rfl, rfl, rfl⟩, rfl⟩

/-- Without a state for it the window is closed. -/
theorem openProgram_exhausted (shown : GuiIs gui (front ++ [window]) buttons) (place : slot.val = front.length)
    (none : (List.finRange maxWindows).find? (fun i => !gui.stateUsed program i) = none)
    (opens : openProgram gui slot program = .ok after) :
    GuiIs after front (buttons.eraseP (·.windowId = window.id)) ∧ KeepsRest gui after ∧
      after.stateUsed = releaseStates gui.stateUsed window := by
  have inside : slot.val < (front ++ [window]).length := by simp [place]
  have marked := shown.set inside (markedWindow (gui.windows slot) program)
  obtain ⟨other, destroys, erased, rest, used⟩ :=
    guiDestroyWindow_erases marked (show slot.val < _ by rwa [List.length_set])
  unfold openProgram at opens
  simp only [GuiState.setWindow, none] at opens
  cases destroys.symm.trans opens
  have left : (front ++ [window]).eraseIdx slot.val = front := by
    rw [place, List.eraseIdx_append_of_length_le (Nat.le_refl _), Nat.sub_self]
    simp
  simp only [List.getElem_set_self, List.eraseIdx_set_eq, left, shown.last place] at erased used
  exact ⟨erased, ⟨rest.focusedWindowId, rest.dragState, rest.nextWindowId⟩, used⟩

end Opening

theorem find_free {program : GuiProgram} (used : GuiProgram → Fin maxWindows → Bool) :
    (∃ index, (List.finRange maxWindows).find? (fun i => !used program i) = some index ∧ used program index = false) ∨
      (List.finRange maxWindows).find? (fun i => !used program i) = none ∧ ∀ index, used program index = true := by
  cases found : (List.finRange maxWindows).find? (fun i => !used program i) with
  | some index =>
    have free := List.find?_some found
    exact .inl ⟨index, rfl, by simpa using free⟩
  | none =>
    have taken := List.find?_eq_none.mp found
    exact .inr ⟨rfl, fun index => by simpa using taken index (List.mem_finRange index)⟩

/-- Every launch that returns ends in one of these ways. -/
theorem LaunchFrame.launched (shown : GuiIs gui items buttons) (runs : frame.launch screen gui = .ok after) :
    Launched screen gui items buttons frame after := by
  unfold LaunchFrame.launch at runs
  split at runs
  next program own =>
    obtain ⟨⟨_ | slot, middle⟩, creates, rest⟩ := bind_ok runs
    · obtain ⟨full, same⟩ := guiCreateWindow_none shown creates
      cases rest
      rw [same]
      exact .full full
    · obtain ⟨room, rfl, created⟩ := guiCreateWindow_some shown creates
      dsimp only at rest
      have place : items.length = (items.map unfocused).length := by rw [List.length_map]
      rcases @find_free program middle.stateUsed with ⟨index, found, free⟩ | ⟨found, taken⟩
      · obtain ⟨opened, kept, used⟩ := openProgram_started created.shown place found rest
        rw [created.stateUsed] at free used
        exact .started room own free opened ⟨kept.focusedWindowId.trans created.focusedWindowId,
          kept.dragState.trans created.dragState, kept.nextWindowId.trans created.nextWindowId⟩ used
      · obtain ⟨erased, kept, used⟩ := openProgram_exhausted created.shown place found rest
        rw [created.stateUsed] at taken used
        exact .exhausted room own taken erased ⟨kept.focusedWindowId.trans created.focusedWindowId,
          kept.dragState.trans created.dragState, kept.nextWindowId.trans created.nextWindowId⟩ used
  next own =>
    obtain ⟨⟨_ | slot, middle⟩, creates, rest⟩ := bind_ok runs
    · obtain ⟨full, same⟩ := guiCreateWindow_none shown creates
      cases rest
      rw [same]
      exact .full full
    · obtain ⟨room, rfl, created⟩ := guiCreateWindow_some shown creates
      cases rest
      exact .plain room own created.shown ⟨created.focusedWindowId, created.dragState,
        created.nextWindowId⟩ created.stateUsed

end Launches

end Kernix.Proofs
