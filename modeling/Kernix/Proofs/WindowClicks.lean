import Kernix.Proofs.GuiLists
import Kernix.Proofs.GuiCalls
import Mathlib.Data.List.Nodup

/-! What a click on a window does. The window goes on top, but what follows goes to the
slot that it was found in, so that a click does what it should only where the window is
on top already. -/

namespace Kernix.Proofs
open SlotList

/-- A click is one on the button that closes the window. -/
def ClosesAt (window : GuiWindow) (x y : Int) : Prop :=
  window.title ≠ [] ∧ PointInRect x y (window.x + window.width - 30) (window.y + 4) 16 16

/-- What a click on a window leaves: the others in their order and without the focus, the
window itself where it is not closed, and a window that is launched from the start menu. -/
structure Clicked (before : GuiState) (slot : Fin maxWindows) (after : GuiState) (others : List GuiWindow)
    (kept launched : Option GuiWindow) : Prop where
  windows : openWindows after = others ++ kept.toList ++ launched.toList
  order : others.map unfocused = ((openWindows before).eraseIdx slot.val).map unfocused
  kept : ∀ window ∈ kept, window.id = (before.windows slot).id
  launched : ∀ window ∈ launched, (before.windows slot).title = []
  dark : ∀ window ∈ others, window.focused = false
  focused : ((openWindows after).filter (·.focused)).length ≤ 1
  dragged : ∀ target, after.dragState.draggedWindow = some target ∨ after.dragState.resizedWindow = some target →
    target.val < after.windowCount ∧ (after.windows target).id = (before.windows slot).id
  focusedWindowId : after.focusedWindowId = (before.windows slot).id

/-- A click goes to one window alone. -/
def ClickedRight (before : GuiState) (slot : Fin maxWindows) (after : GuiState) : Prop :=
  ∃ others kept launched, Clicked before slot after others kept launched

/-- No other window has the focus. -/
def FocusedAlone (gui : GuiState) (slot : Fin maxWindows) : Prop :=
  ∀ other : Fin maxWindows, other.val < gui.windowCount → other ≠ slot → (gui.windows other).focused = false

/-- A click on the start menu launches something, and there is room for its window. -/
def LaunchesAt (gui : GuiState) (slot : Fin maxWindows) (x y : Int) : Prop :=
  (gui.windows slot).title = [] ∧ (menuItemAt (gui.windows slot) x y).isSome = true ∧ gui.windowCount < maxWindows

/-- The window is on top, or has the focus already and is closed. -/
def ClickReaches (screen : Screen) (gui : GuiState) (slot : Fin maxWindows) (x y : Int) : Prop :=
  match guiGetTaskbarButtonAtPoint screen gui x y with
  | some i => (i = slot.val ∨ gui.windowCount ≤ i) ∧ slot.val + 1 = gui.windowCount ∧
      gui.focusedWindowId = (gui.windows slot).id ∧ FocusedAlone gui slot
  | none =>
    slot.val + 1 = gui.windowCount ∧
        (gui.focusedWindowId ≠ (gui.windows slot).id ∨ FocusedAlone gui slot ∨ LaunchesAt gui slot x y) ∨
      slot.val + 1 < gui.windowCount ∧ gui.focusedWindowId = (gui.windows slot).id ∧
        ClosesAt (gui.windows slot) x y ∧ FocusedAlone gui slot

/-- No pointer into the windows is kept for a drag. -/
def Still (gui : GuiState) : Prop := gui.dragState.draggedWindow = none ∧ gui.dragState.resizedWindow = none

variable {screen : Screen} {gui after : GuiState} {items : List GuiWindow} {buttons : List TaskbarButton}
  {slot : Fin maxWindows} {x y : Int}

theorem Still.drags {target : Fin maxWindows} (still : Still gui)
    (some : gui.dragState.draggedWindow = some target ∨ gui.dragState.resizedWindow = some target) : False := by
  rw [still.1, still.2] at some
  rcases some with none | none
  · cases none
  · cases none

theorem ClickedRight.focusedWindowId (right : ClickedRight gui slot after) :
    after.focusedWindowId = (gui.windows slot).id := by
  obtain ⟨others, kept, launched, clicked⟩ := right
  exact clicked.focusedWindowId

/-- How the part of a click that follows the focus can end. -/
inductive ClickEnds (screen : Screen) (before : GuiState) (items : List GuiWindow) (buttons : List TaskbarButton)
    (slot : Fin maxWindows) (inside : slot.val < items.length) (x y : Int) : GuiState → Prop where
  | launched {after : GuiState} {kind : Launch} (menu : items[slot.val].title = [])
      (item : menuItemAt items[slot.val] x y = some kind)
      (launched : Launched screen before items buttons (launchFrame kind) after) :
      ClickEnds screen before items buttons slot inside x y after
  | edited {after : GuiState} (window : GuiWindow) (id : window.id = items[slot.val].id)
      (focused : window.focused = items[slot.val].focused) (opened : ¬ClosesAt items[slot.val] x y)
      (idle : items[slot.val].title = [] → menuItemAt items[slot.val] x y = none)
      (shown : GuiIs after (items.set slot.val window) buttons) (same : after.focusedWindowId = before.focusedWindowId)
      (drag : ∀ target, after.dragState.draggedWindow = some target ∨ after.dragState.resizedWindow = some target →
        target = slot) : ClickEnds screen before items buttons slot inside x y after
  | closed {after : GuiState} {rest : List TaskbarButton} (closes : ClosesAt items[slot.val] x y)
      (shown : GuiIs after (items.eraseIdx slot.val) rest) (same : after.focusedWindowId = before.focusedWindowId)
      (still : Still after) : ClickEnds screen before items buttons slot inside x y after

theorem minimizedWindow_same (window : GuiWindow) :
    (minimizedWindow window).id = window.id ∧ (minimizedWindow window).focused = window.focused := by
  rw [minimizedWindow]
  split <;> exact ⟨rfl, rfl⟩

theorem maximizedWindow_same (screen : Screen) (window : GuiWindow) :
    (maximizedWindow screen window).id = window.id ∧ (maximizedWindow screen window).focused = window.focused := by
  rw [maximizedWindow]
  split <;> exact ⟨rfl, rfl⟩

theorem clickWindow_ends (shown : GuiIs gui items buttons) (inside : slot.val < items.length) (still : Still gui)
    (clicks : clickWindow screen gui slot x y = .ok after) :
    ClickEnds screen gui items buttons slot inside x y after := by
  have pointers (target : Fin maxWindows)
      (some : gui.dragState.draggedWindow = some target ∨ gui.dragState.resizedWindow = some target) : target = slot := by
    exact (still.drags some).elim
  unfold clickWindow at clicks
  dsimp only at clicks
  rw [shown.slot inside] at clicks
  split at clicks
  next menu =>
    split at clicks
    next kind item =>
      rw [Launch.run_frame] at clicks
      exact .launched menu item (LaunchFrame.launched shown clicks)
    next none =>
      cases clicks
      refine .edited items[slot.val] rfl rfl (fun closes => closes.1 menu) (fun _ => none) ?_ rfl pointers
      rwa [List.set_getElem_self]
  next titled =>
    have idle : items[slot.val].title = [] → menuItemAt items[slot.val] x y = none := fun menu => absurd menu titled
    split at clicks
    next here =>
      cases clicks
      refine .edited (minimizedWindow items[slot.val]) (minimizedWindow_same _).1
        (minimizedWindow_same _).2 ?_ idle ?_ rfl
        pointers
      · intro closes
        have left := here.2.1
        have right := closes.2.1
        omega
      · rw [guiMinimizeWindow, shown.slot inside]
        exact shown.set inside _
    next =>
      split at clicks
      next here =>
        cases clicks
        refine .edited (maximizedWindow screen items[slot.val]) (maximizedWindow_same _ _).1
          (maximizedWindow_same _ _).2 ?_
          idle ?_ rfl pointers
        · intro closes
          have left := here.2.1
          have right := closes.2.1
          omega
        · rw [guiMaximizeWindow, shown.slot inside]
          exact shown.set inside _
      next =>
        split at clicks
        next here =>
          obtain ⟨other, destroys, erased, keeps, -⟩ := guiDestroyWindow_erases shown inside
          cases destroys.symm.trans clicks
          exact .closed ⟨titled, here⟩ erased keeps.focusedWindowId (by rwa [Still, keeps.dragState])
        next away =>
          have opened : ¬ClosesAt items[slot.val] x y := fun closes => away closes.2
          split at clicks
          next =>
            by_cases maximized : items[slot.val].state = .maximized
            · rw [if_pos maximized] at clicks
              cases clicks
              have set := shown.set inside (maximizedWindow screen items[slot.val])
              rw [guiMaximizeWindow, shown.slot inside]
              refine .edited (maximizedWindow screen items[slot.val]) (maximizedWindow_same _ _).1
                (maximizedWindow_same _ _).2 opened idle ⟨set.windows, set.count, set.bar, set.barCount⟩ rfl ?_
              rintro target (same | other)
              · exact (Option.some.inj same).symm
              · exact pointers target (.inr other)
            · rw [if_neg maximized] at clicks
              cases clicks
              refine .edited items[slot.val] rfl rfl opened idle ?_ rfl ?_
              · rw [List.set_getElem_self]
                exact ⟨shown.windows, shown.count, shown.bar, shown.barCount⟩
              · rintro target (same | other)
                · exact (Option.some.inj same).symm
                · exact pointers target (.inr other)
          next =>
            split at clicks
            next =>
              cases clicks
              refine .edited items[slot.val] rfl rfl opened idle ?_ rfl ?_
              · rw [List.set_getElem_self]
                exact ⟨shown.windows, shown.count, shown.bar, shown.barCount⟩
              · rintro target (other | same)
                · exact pointers target (.inl other)
                · exact (Option.some.inj same).symm
            next =>
              cases clicks
              refine .edited items[slot.val] rfl rfl opened idle ?_ rfl pointers
              rwa [List.set_getElem_self]

theorem ClickEnds.focusedWindowId {inside : slot.val < items.length}
    (ends : ClickEnds screen gui items buttons slot inside x y after) : after.focusedWindowId = gui.focusedWindowId := by
  cases ends with
  | launched _ _ launched =>
    cases launched with
    | full => rfl
    | plain _ _ _ keeps | exhausted _ _ _ _ keeps | started _ _ _ _ keeps => exact keeps.focusedWindowId
  | edited _ _ _ _ _ _ same => exact same
  | closed _ _ same => exact same

theorem focusedAlone_iff (shown : GuiIs gui items buttons) :
    FocusedAlone gui slot ↔ ∀ window ∈ items.eraseIdx slot.val, window.focused = false := by
  have fits := shown.windows.fits
  have count := shown.count
  constructor
  · intro alone window member
    obtain ⟨index, inside, apart, rfl⟩ := List.mem_eraseIdx_iff_getElem.mp member
    have dark := alone ⟨index, by omega⟩ (by rw [count]; exact inside) (by rw [ne_eq, Fin.ext_iff]; exact apart)
    rwa [@GuiIs.slot _ _ _ shown ⟨index, by omega⟩ inside] at dark
  · intro dark other inside apart
    rw [count] at inside
    rw [shown.slot inside]
    apply dark
    exact List.mem_eraseIdx_iff_getElem.mpr ⟨other.val, inside, fun same => apart (Fin.ext same), rfl⟩

section Ends
variable {before : GuiState} {front : List GuiWindow} {window : GuiWindow}
  (order : front.map unfocused = ((openWindows before).eraseIdx slot.val).map unfocused)
  (focus : after.focusedWindowId = (before.windows slot).id)
include order focus

/-- Nothing has changed but the window itself. -/
theorem clicked_alone (kept : Option GuiWindow) (windows : openWindows after = front ++ kept.toList)
    (id : ∀ window ∈ kept, window.id = (before.windows slot).id) (dark : ∀ window ∈ front, window.focused = false)
    (dragged : ∀ target, after.dragState.draggedWindow = some target ∨ after.dragState.resizedWindow = some target →
      target.val < after.windowCount ∧ (after.windows target).id = (before.windows slot).id) :
    ClickedRight before slot after := by
  refine ⟨front, kept, none, ?_, order, id, ?_, dark, ?_, dragged, focus⟩
  · rw [windows, Option.toList_none, List.append_nil]
  · rintro _ ⟨⟩
  · rw [windows, List.filter_append, List.filter_eq_nil_iff.mpr (by simpa using dark), List.nil_append]
    apply Nat.le_trans (List.length_filter_le _ _)
    cases kept <;> simp

/-- A launch takes the focus from all windows. -/
theorem clicked_launch (launched : Option GuiWindow)
    (windows : openWindows after = (front ++ [window]).map unfocused ++ launched.toList)
    (id : window.id = (before.windows slot).id) (menu : (before.windows slot).title = []) (still : Still after) :
    ClickedRight before slot after := by
  refine ⟨front.map unfocused, some (unfocused window), launched, ?_, ?_, ?_, fun _ _ => menu, ?_, ?_, ?_, focus⟩
  · rw [windows, List.map_append]
    rfl
  · rw [List.map_map]
    exact order
  · rintro _ ⟨⟩
    exact id
  · intro other member
    obtain ⟨held, -, rfl⟩ := List.mem_map.mp member
    rfl
  · have dark : ((front ++ [window]).map unfocused).filter (·.focused) = [] := by
      apply List.filter_eq_nil_iff.mpr
      intro other member
      obtain ⟨held, -, rfl⟩ := List.mem_map.mp member
      simp [unfocused]
    rw [windows, List.filter_append, dark, List.nil_append]
    apply Nat.le_trans (List.length_filter_le _ _)
    cases launched <;> simp
  · intro target some
    exact (still.drags some).elim

end Ends

/-- What a click leaves of the other windows. -/
theorem ClickedRight.front {before : GuiState} {before_ : List TaskbarButton} (right : ClickedRight before slot after)
    (shown : GuiIs before items before_) (inside : slot.val < items.length) :
    ((openWindows after).take (items.length - 1)).map unfocused = (items.eraseIdx slot.val).map unfocused ∧
      ∀ window ∈ (openWindows after).take (items.length - 1), window.focused = false := by
  obtain ⟨others, kept, launched, clicked⟩ := right
  have order := clicked.order
  rw [shown.openWindows_eq] at order
  have length := congrArg List.length order
  rw [List.length_map, List.length_map, List.length_eraseIdx_of_lt inside] at length
  rw [clicked.windows, List.append_assoc, List.take_left' length]
  exact ⟨order, clicked.dark⟩

/-- Where the other windows are as they were, none of them had the focus. -/
theorem ClickedRight.alone (right : ClickedRight gui slot after) (shown : GuiIs gui items buttons)
    (inside : slot.val < items.length) (same : (openWindows after).take (items.length - 1) = items.eraseIdx slot.val) :
    FocusedAlone gui slot := by
  rw [focusedAlone_iff shown, ← same]
  exact (right.front shown inside).2

theorem ids_apart (once : (items.map (·.id)).Nodup) {index : Nat} (under : index + 1 < items.length) :
    items[index + 1].id ≠ items[index].id := by
  intro ids
  have first : index < (items.map (·.id)).length := by
    rw [List.length_map]
    omega
  have second : index + 1 < (items.map (·.id)).length := by rwa [List.length_map]
  have equal : (items.map (·.id))[index + 1] = (items.map (·.id))[index] := by simpa using ids
  have same := (List.Nodup.getElem_inj_iff once).mp equal
  omega

/-- A window below the top does not stay in its slot. -/
theorem ClickedRight.moved (right : ClickedRight gui slot after) (shown : GuiIs gui items buttons)
    (once : (items.map (·.id)).Nodup) (under : slot.val + 1 < items.length) {window : GuiWindow}
    (stays : (openWindows after)[slot.val]? = some window) : window.id ≠ items[slot.val].id := by
  intro same
  have front := congrArg (fun list => (list.map (·.id))[slot.val]?) (right.front shown (by omega)).1
  simp only [List.map_map, List.getElem?_map, List.getElem?_take_of_lt (show slot.val < items.length - 1 by omega), stays,
    List.getElem?_eraseIdx_of_ge (Nat.le_refl _), List.getElem?_eq_getElem under, Option.map_some] at front
  have next : window.id = items[slot.val + 1].id := Option.some.inj front
  exact ids_apart once under (next.symm.trans same)

section Top
variable {before middle : GuiState} {front : List GuiWindow} {window : GuiWindow}
  (shown : GuiIs middle (front ++ [window]) buttons) (still : Still middle)
  (order : front.map unfocused = ((openWindows before).eraseIdx slot.val).map unfocused)
  (id : window.id = (before.windows slot).id) (title : window.title = (before.windows slot).title)
  (focus : middle.focusedWindowId = (before.windows slot).id)
include shown still order id title focus

/-- A launch with room for its window. -/
theorem Launched.right {frame : LaunchFrame} (room : (front ++ [window]).length < maxWindows) (menu : window.title = [])
    (launched : Launched screen middle (front ++ [window]) buttons frame after) : ClickedRight before slot after := by
  rw [title] at menu
  cases launched with
  | full full => exact absurd room full
  | plain _ _ created keeps =>
    refine clicked_launch order (keeps.focusedWindowId.trans focus) (some _) created.openWindows_eq id menu ?_
    rwa [Still, keeps.dragState]
  | exhausted _ _ _ left keeps =>
    refine clicked_launch order (keeps.focusedWindowId.trans focus) none ?_ id menu ?_
    · rw [left.openWindows_eq, Option.toList_none, List.append_nil]
    · rwa [Still, keeps.dragState]
  | started _ _ _ created keeps =>
    refine clicked_launch order (keeps.focusedWindowId.trans focus) (some _) created.openWindows_eq id menu ?_
    rwa [Still, keeps.dragState]

/-- On top of windows without the focus every end is right. -/
theorem ClickEnds.right {inside : slot.val < (front ++ [window]).length} (place : slot.val = front.length)
    (dark : ∀ window ∈ front, window.focused = false)
    (ends : ClickEnds screen middle (front ++ [window]) buttons slot inside x y after) :
    ClickedRight before slot after := by
  have own : (front ++ [window])[slot.val] = window := by simp [place]
  have focused := ends.focusedWindowId.trans focus
  have quiet {after : GuiState} (still : Still after) (target : Fin maxWindows)
      (some : after.dragState.draggedWindow = some target ∨ after.dragState.resizedWindow = some target) :
      target.val < after.windowCount ∧ (after.windows target).id = (before.windows slot).id := by
    exact (still.drags some).elim
  cases ends with
  | launched menu item launched =>
    by_cases room : (front ++ [window]).length < maxWindows
    · rw [own] at menu
      exact launched.right shown still order id title focus room menu
    · have full : after = middle := by
        cases launched with
        | full => rfl
        | plain inside | exhausted inside | started inside => exact absurd inside room
      subst full
      refine clicked_alone order focused (some window) shown.openWindows_eq ?_ dark (quiet still)
      rintro _ ⟨⟩
      exact id
  | edited changed same _ _ _ set _ drag =>
    have replaced : (front ++ [window]).set slot.val changed = front ++ [changed] := by simp [place]
    rw [own, id] at same
    have length := set.count
    rw [replaced] at set length
    rw [List.length_append, List.length_singleton] at length
    refine clicked_alone order focused (some changed) set.openWindows_eq ?_ dark ?_
    · rintro _ ⟨⟩
      exact same
    · intro target some
      cases drag target some
      rw [set.last place]
      exact ⟨by omega, same⟩
  | closed _ left _ calm =>
    have rest : (front ++ [window]).eraseIdx slot.val = front := by
      rw [place, List.eraseIdx_append_of_length_le (Nat.le_refl _), Nat.sub_self]
      simp
    rw [rest] at left
    refine clicked_alone order focused none ?_ (by rintro _ ⟨⟩) dark (quiet calm)
    rw [left.openWindows_eq, Option.toList_none, List.append_nil]

end Top

/-- A click forgets what was dragged. -/
def released (gui : GuiState) : GuiState := { gui with dragState := gui.dragState.none }

theorem GuiIs.released (shown : GuiIs gui items buttons) : GuiIs (released gui) items buttons :=
  ⟨shown.windows, shown.count, shown.bar, shown.barCount⟩

theorem released_still (gui : GuiState) : Still (released gui) := ⟨rfl, rfl⟩

theorem guiHandleMouseClick_window (hit : guiGetTaskbarButtonAtPoint screen gui x y = none)
    (found : guiGetWindowAtPoint gui x y = .ok (some slot)) (clicks : guiHandleMouseClick screen gui x y = .ok after) :
    ∃ middle, guiFocusWindow (released gui) slot = .ok middle ∧ clickWindow screen middle slot x y = .ok after := by
  unfold guiHandleMouseClick at clicks
  dsimp only at clicks
  rw [show guiGetTaskbarButtonAtPoint screen { gui with dragState := gui.dragState.none } x y = none from hit] at clicks
  dsimp only at clicks
  rw [show guiGetWindowAtPoint { gui with dragState := gui.dragState.none } x y = .ok (some slot) from found] at clicks
  exact bind_ok clicks

theorem topmostAt_inside {windows : Fin maxWindows → GuiWindow} {count : Nat}
    (found : topmostAt windows x y count = .ok (some slot)) :
    slot.val < count ∧ ShownAt (windows slot) x y := by
  induction count with
  | zero => cases found
  | succ i ih =>
    rw [topmostAt] at found
    split at found
    next inside =>
      split at found
      next here =>
        cases found
        exact ⟨Nat.lt_succ_self _, here⟩
      next =>
        have below := ih found
        exact ⟨by omega, below.2⟩
    next => cases found

theorem launchesAt_iff (shown : GuiIs gui items buttons) (inside : slot.val < items.length) :
    LaunchesAt gui slot x y ↔ items[slot.val].title = [] ∧ (menuItemAt items[slot.val] x y).isSome = true ∧
      items.length < maxWindows := by
  rw [LaunchesAt, shown.slot inside, shown.count]

/-- A window on top has what follows go to it, whether it has the focus already or not. -/
theorem top_right_iff {front : List GuiWindow} {window : GuiWindow} (shown : GuiIs gui (front ++ [window]) buttons)
    (place : slot.val = front.length) (hit : guiGetTaskbarButtonAtPoint screen gui x y = none)
    (found : guiGetWindowAtPoint gui x y = .ok (some slot)) (clicks : guiHandleMouseClick screen gui x y = .ok after) :
    ClickedRight gui slot after ↔
      gui.focusedWindowId ≠ window.id ∨ FocusedAlone gui slot ∨ LaunchesAt gui slot x y := by
  have inside : slot.val < (front ++ [window]).length := by simp [place]
  have own : (front ++ [window])[slot.val] = window := by simp [place]
  have others : (front ++ [window]).eraseIdx slot.val = front := by
    rw [place, List.eraseIdx_append_of_length_le (Nat.le_refl _), Nat.sub_self]
    simp
  have order : front.map unfocused = ((openWindows gui).eraseIdx slot.val).map unfocused := by
    rw [shown.openWindows_eq, others]
  have record : window = gui.windows slot := (shown.last place).symm
  obtain ⟨middle, focuses, rest⟩ := guiHandleMouseClick_window hit found clicks
  have quiet := shown.released
  by_cases focused : gui.focusedWindowId = window.id
  · cases (guiFocusWindow_focused quiet inside (by rw [own]; exact focused)).symm.trans focuses
    have ends := clickWindow_ends quiet inside (released_still gui) rest
    have focus : (released gui).focusedWindowId = (gui.windows slot).id := record ▸ focused
    constructor
    · intro right
      by_contra wrong
      rw [not_or, not_or] at wrong
      refine wrong.2.1 (right.alone shown inside ?_)
      rw [others, List.length_append, List.length_singleton, Nat.add_sub_cancel]
      cases ends with
      | launched menu item launched =>
        cases launched with
        | full => rw [quiet.openWindows_eq, List.take_left]
        | plain room | exhausted room | started room =>
          exact absurd ((launchesAt_iff shown inside).mpr ⟨menu, by rw [item]; rfl, room⟩) wrong.2.2
      | edited changed _ _ _ _ set =>
        rw [set.openWindows_eq, place, List.take_set_of_le (Nat.le_refl _), List.take_left]
      | closed _ left =>
        rw [left.openWindows_eq, others, List.take_length]
    · rintro (other | alone | launches)
      · exact absurd focused other
      · rw [focusedAlone_iff shown, others] at alone
        exact ends.right quiet (released_still gui) order (congrArg GuiWindow.id record) (congrArg GuiWindow.title record)
          focus place alone
      · obtain ⟨menu, item, room⟩ := (launchesAt_iff shown inside).mp launches
        cases ends with
        | launched _ _ launched =>
          exact launched.right quiet (released_still gui) order (congrArg GuiWindow.id record)
            (congrArg GuiWindow.title record) focus room (by rwa [own] at menu)
        | edited _ _ _ _ idle =>
          rw [idle menu] at item
          cases item
        | closed closes => exact absurd menu closes.1
  · refine iff_of_true ?_ (.inl focused)
    obtain ⟨other, raises, lifted, at_, moved, focus, still, -⟩ := guiFocusWindow_raises quiet inside (by rw [own]; exact focused)
    cases raises.symm.trans focuses
    rw [raised_last (by simp [place]) inside, List.getElem?_eq_getElem inside, own] at at_
    cases at_
    have list : ((front ++ [window]).map unfocused).set slot.val (withFocus window) =
        front.map unfocused ++ [withFocus window] := by simp [place]
    rw [raised_last (by simp [place]) inside, list] at moved
    have quietly : Still middle := by
      rw [Still, still]
      exact released_still gui
    have within : slot.val < (front.map unfocused ++ [withFocus window]).length := by simp [place]
    have id : (withFocus window).id = (gui.windows slot).id := by rw [← record, withFocus]
    have title : (withFocus window).title = (gui.windows slot).title := by rw [← record, withFocus]
    refine (clickWindow_ends moved within quietly rest).right moved quietly ?_ id title (focus.trans id)
      (by simp [place]) ?_
    · rw [List.map_map]
      exact order
    · intro dark member
      obtain ⟨held, -, rfl⟩ := List.mem_map.mp member
      rfl

/-- Below the top another window comes to the slot, except where the focus is there
already; then only a window that is closed does not have to be raised. -/
theorem below_right_iff (shown : GuiIs gui items buttons) (once : (items.map (·.id)).Nodup)
    (under : slot.val + 1 < items.length) (hit : guiGetTaskbarButtonAtPoint screen gui x y = none)
    (found : guiGetWindowAtPoint gui x y = .ok (some slot)) (clicks : guiHandleMouseClick screen gui x y = .ok after) :
    ClickedRight gui slot after ↔
      gui.focusedWindowId = (gui.windows slot).id ∧ ClosesAt (gui.windows slot) x y ∧ FocusedAlone gui slot := by
  have inside : slot.val < items.length := by omega
  have record := shown.slot inside
  obtain ⟨middle, focuses, rest⟩ := guiHandleMouseClick_window hit found clicks
  have quiet := shown.released
  rw [record]
  by_cases focused : gui.focusedWindowId = items[slot.val].id
  · cases (guiFocusWindow_focused quiet inside focused).symm.trans focuses
    have ends := clickWindow_ends quiet inside (released_still gui) rest
    constructor
    · intro right
      have moved {window : GuiWindow} (stays : (openWindows after)[slot.val]? = some window) :
          window.id ≠ items[slot.val].id := right.moved shown once under stays
      cases ends with
      | launched _ _ launched =>
        cases launched with
        | full =>
          refine absurd rfl (@moved items[slot.val] ?_)
          rw [quiet.openWindows_eq, List.getElem?_eq_getElem inside]
        | plain _ _ left | started _ _ _ left =>
          refine absurd rfl (@moved (unfocused items[slot.val]) ?_)
          rw [left.openWindows_eq, List.getElem?_append_left (by rwa [List.length_map]), List.getElem?_map,
            List.getElem?_eq_getElem inside, Option.map_some]
        | exhausted _ _ _ left =>
          refine absurd rfl (@moved (unfocused items[slot.val]) ?_)
          rw [left.openWindows_eq, List.getElem?_map, List.getElem?_eq_getElem inside, Option.map_some]
      | edited changed id _ _ _ set =>
        refine absurd id (moved ?_)
        rw [set.openWindows_eq, List.getElem?_set_self inside]
      | closed closes left =>
        refine ⟨focused, closes, right.alone shown inside ?_⟩
        rw [left.openWindows_eq, List.take_of_length_le (by rw [List.length_eraseIdx_of_lt inside])]
    · rintro ⟨-, closes, alone⟩
      cases ends with
      | launched menu => exact absurd menu closes.1
      | edited _ _ _ opened => exact absurd closes opened
      | closed _ left same still =>
        rw [focusedAlone_iff shown] at alone
        refine @clicked_alone _ _ _ (items.eraseIdx slot.val) ?_ ?_ none ?_ (by rintro _ ⟨⟩) alone ?_
        · rw [shown.openWindows_eq]
        · rw [same, record]
          exact focused
        · rw [left.openWindows_eq, Option.toList_none, List.append_nil]
        · intro target some
          exact (still.drags some).elim
  · refine iff_of_false ?_ fun reaches => focused reaches.1
    intro right
    obtain ⟨other, raises, lifted, at_, moved, focus, still, -⟩ := guiFocusWindow_raises quiet inside focused
    cases raises.symm.trans focuses
    rw [raised, List.getElem?_append_left (by rw [List.length_eraseIdx_of_lt inside]; omega),
      List.getElem?_eraseIdx_of_ge (Nat.le_refl _), List.getElem?_eq_getElem under] at at_
    cases at_
    have within : slot.val < (((raised items slot.val items[slot.val]).map unfocused).set slot.val
        (withFocus items[slot.val + 1])).length := by
      rw [List.length_set, List.length_map, length_raised inside]
      exact inside
    have quietly : Still middle := by
      rw [Still, still]
      exact released_still gui
    have kept := (clickWindow_ends moved within quietly rest).focusedWindowId
    rw [right.focusedWindowId, record, focus] at kept
    exact ids_apart once under kept.symm

/-- A click on a button of the taskbar minimizes or restores the window at its index, or
what has been left behind the open ones. -/
theorem guiHandleMouseClick_taskbar (shown : GuiIs gui items buttons) {i : Nat}
    (hit : guiGetTaskbarButtonAtPoint screen gui x y = some i) (clicks : guiHandleMouseClick screen gui x y = .ok after) :
    ∃ inside : i < maxWindows, GuiIs after (items.set i (minimizedWindow (gui.windows ⟨i, inside⟩))) buttons ∧
      Still after ∧
      after.focusedWindowId = gui.focusedWindowId := by
  unfold guiHandleMouseClick at clicks
  dsimp only at clicks
  rw [show guiGetTaskbarButtonAtPoint screen { gui with dragState := gui.dragState.none } x y = some i from hit] at clicks
  dsimp only at clicks
  split at clicks
  next inside =>
    cases clicks
    refine ⟨inside, ?_, released_still gui, rfl⟩
    have quiet := shown.released
    by_cases opened : i < items.length
    · exact @GuiIs.set _ _ _ quiet ⟨i, inside⟩ opened _
    · rw [List.set_eq_of_length_le (by omega)]
      exact @GuiIs.behind _ _ _ quiet ⟨i, inside⟩ (Nat.le_of_not_lt opened) _
  next => cases clicks

theorem taskbar_click_right_iff (shown : GuiIs gui items buttons) (once : (items.map (·.id)).Nodup)
    (inside : slot.val < items.length) {i : Nat} (hit : guiGetTaskbarButtonAtPoint screen gui x y = some i)
    (clicks : guiHandleMouseClick screen gui x y = .ok after) :
    ClickedRight gui slot after ↔ (i = slot.val ∨ items.length ≤ i) ∧ slot.val + 1 = items.length ∧
      gui.focusedWindowId = (gui.windows slot).id ∧ FocusedAlone gui slot := by
  obtain ⟨within, set, still, focus⟩ := guiHandleMouseClick_taskbar shown hit clicks
  have record := shown.slot inside
  have id : ∀ window, (items.set i (minimizedWindow (gui.windows ⟨i, within⟩)))[slot.val]? = some window →
      window.id = items[slot.val].id := by
    intro window found
    rw [List.getElem?_set] at found
    split at found
    next equal =>
      subst equal
      rw [if_pos inside, shown.slot inside] at found
      cases found
      exact (minimizedWindow_same _).1
    next =>
      rw [List.getElem?_eq_getElem inside] at found
      cases found
      rfl
  have stays : slot.val < (items.set i (minimizedWindow (gui.windows ⟨i, within⟩))).length := by rwa [List.length_set]
  constructor
  · intro right
    have last : slot.val + 1 = items.length := by
      by_contra below
      obtain ⟨window, found⟩ : ∃ window, (openWindows after)[slot.val]? = some window := by
        rw [set.openWindows_eq]
        exact ⟨_, List.getElem?_eq_getElem stays⟩
      refine right.moved shown once (by omega) found (id window ?_)
      rwa [← set.openWindows_eq]
    have place : i = slot.val ∨ items.length ≤ i := by
      by_contra other
      rw [not_or, not_le] at other
      have early : i < items.length - 1 := by omega
      have states := congrArg (fun list => (list.map (·.state))[i]?) (right.front shown inside).1
      simp only [set.openWindows_eq, List.map_map, List.getElem?_map, List.getElem?_take_of_lt early,
        List.getElem?_set_self other.2, List.getElem?_eraseIdx_of_lt (show i < slot.val by omega),
        List.getElem?_eq_getElem other.2, Option.map_some, @GuiIs.slot _ _ _ shown ⟨i, within⟩ other.2] at states
      exact minimizedWindow_ne _ (Option.some.inj states)
    refine ⟨place, last, focus.symm.trans right.focusedWindowId, right.alone shown inside ?_⟩
    obtain whole : slot.val = items.length - 1 := by omega
    rw [set.openWindows_eq, List.take_set_of_le (by omega), whole, List.eraseIdx_length_sub_one, List.dropLast_eq_take]
  · rintro ⟨place, last, focused, alone⟩
    rw [focusedAlone_iff shown] at alone
    have others : (items.set i (minimizedWindow (gui.windows ⟨i, within⟩))).eraseIdx slot.val =
      items.eraseIdx slot.val := by
      rcases place with rfl | behind
      · exact List.eraseIdx_set_eq
      · rw [List.set_eq_of_length_le behind]
    have whole := raised_last (by rw [List.length_set]; exact last) stays
    rw [raised, others] at whole
    refine @clicked_alone _ _ _ (items.eraseIdx slot.val) ?_ (focus.trans focused) (some _)
      (set.openWindows_eq.trans whole.symm) ?_ alone ?_
    · rw [shown.openWindows_eq]
    · rintro _ ⟨⟩
      rw [record]
      exact id _ (List.getElem?_eq_getElem stays)
    · intro target some
      exact (still.drags some).elim

/-- A click on a window does what it should, to that window alone, exactly when it reaches it. -/
theorem clicked_right_iff (shown : GuiIs gui items buttons) (once : (items.map (·.id)).Nodup)
    (found : guiGetWindowAtPoint gui x y = .ok (some slot)) (clicks : guiHandleMouseClick screen gui x y = .ok after) :
    ClickedRight gui slot after ↔ ClickReaches screen gui slot x y := by
  have count := shown.count
  have inside : slot.val < items.length := count ▸ (topmostAt_inside found).1
  unfold ClickReaches
  cases hit : guiGetTaskbarButtonAtPoint screen gui x y with
  | some i =>
    rw [taskbar_click_right_iff shown once inside hit clicks, count]
  | none =>
    dsimp only
    rw [count]
    by_cases last : slot.val + 1 = items.length
    · have whole := raised_last last inside
      rw [raised] at whole
      have place : slot.val = (items.eraseIdx slot.val).length := by
        rw [List.length_eraseIdx_of_lt inside]
        omega
      rw [← whole] at shown
      rw [top_right_iff shown place hit found clicks, shown.last place]
      simp [last]
    · rw [below_right_iff shown once (by omega) hit found clicks]
      simp [last, show slot.val + 1 < items.length by omega]

/-- A run that ends in a click on a window: the state before it, the window, and the state behind it. -/
def runClick (screen : Screen) (calls : List GuiCall) (x y : Int) : Option (GuiState × Fin maxWindows × GuiState) :=
  match runGuiCalls screen guiInit calls with
  | none => none
  | some gui =>
    match guiGetWindowAtPoint gui x y, guiHandleMouseClick screen gui x y with
    | .ok (some slot), .ok after => some (gui, slot, after)
    | _, _ => none

open Transition in
theorem runClick_clicks {calls : List GuiCall} (runs : runClick screen calls x y = some (gui, slot, after)) :
    Reachable (· = guiInit) (GuiMoves screen) gui ∧ guiGetWindowAtPoint gui x y = .ok (some slot) ∧
      guiHandleMouseClick screen gui x y = .ok after := by
  unfold runClick at runs
  split at runs
  next => cases runs
  next found =>
    split at runs
    next hits clicks =>
      cases runs
      exact ⟨reachable_runGuiCalls (fun _ _ _ _ moves => moves) (.initial rfl) found, hits, clicks⟩
    next => cases runs

open Transition in
/-- The second of two terminals is on top, and is dragged by its title. -/
theorem clicked_right_iff_top : ∃ gui slot after, Reachable (· = guiInit) (GuiMoves ⟨1024, 768⟩) gui ∧
    guiGetWindowAtPoint gui 60 60 = .ok (some slot) ∧ guiHandleMouseClick ⟨1024, 768⟩ gui 60 60 = .ok after ∧
      slot.val = 1 ∧ ClickedRight gui slot after := by
  have runs : (runClick ⟨1024, 768⟩ [.launch .terminal, .launch .terminal] 60 60).map (fun (gui, slot, _) =>
      ([slot.val, gui.windowCount], (guiGetTaskbarButtonAtPoint ⟨1024, 768⟩ gui 60 60).isNone,
        gui.focusedWindowId :: (gui.windows slot).id :: (openWindows gui).map (·.id))) =
      some ([1, 2], true, [0, 2, 1, 2]) := by decide +kernel
  obtain ⟨⟨gui, slot, after⟩, ran, seen⟩ := Option.map_eq_some_iff.mp runs
  obtain ⟨reached, found, clicks⟩ := runClick_clicks ran
  obtain ⟨⟨items, buttons, shown⟩, -⟩ := guiReachable_invariant (fun _ => True) (fun _ _ _ moves => moves) trivial
    (fun _ _ _ => trivial) reached
  simp only [Prod.mk.injEq, List.cons.injEq, and_true, Option.isNone_iff_eq_none] at seen
  obtain ⟨⟨first, count⟩, hit, focus, id, ids⟩ := seen
  rw [shown.openWindows_eq] at ids
  refine ⟨gui, slot, after, reached, found, clicks, first, ?_⟩
  apply (clicked_right_iff shown (by rw [ids]; decide) found clicks).mpr
  rw [ClickReaches, hit]
  refine .inl ⟨by omega, .inl ?_⟩
  rw [focus, id]
  decide

open Transition in
/-- A window below another one is clicked: the focus goes to the other one. -/
theorem clicked_wrong : ∃ gui slot after, Reachable (· = guiInit) (GuiMoves ⟨1024, 768⟩) gui ∧
    ((openWindows gui).map (·.id)).Nodup ∧ guiGetWindowAtPoint gui 60 60 = .ok (some slot) ∧
      guiHandleMouseClick ⟨1024, 768⟩ gui 60 60 = .ok after ∧ ¬ClickedRight gui slot after := by
  have runs : (runClick ⟨1024, 768⟩ [.launch .terminal, .launch .shutdown] 60 60).map (fun (gui, slot, after) =>
      (after.focusedWindowId, (gui.windows slot).id, (openWindows gui).map (·.id))) = some (2, 1, [1, 2]) := by
    decide +kernel
  obtain ⟨⟨gui, slot, after⟩, ran, seen⟩ := Option.map_eq_some_iff.mp runs
  obtain ⟨reached, found, clicks⟩ := runClick_clicks ran
  simp only [Prod.mk.injEq] at seen
  obtain ⟨focus, id, ids⟩ := seen
  refine ⟨gui, slot, after, reached, by rw [ids]; decide, found, clicks, ?_⟩
  intro right
  have same := right.focusedWindowId
  rw [focus, id] at same
  exact absurd same (by decide)

end Kernix.Proofs
