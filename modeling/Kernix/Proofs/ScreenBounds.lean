import Kernix.Proofs.GuiCalls

/-! Where the windows are. The operations that restore a place take it from the record,
so that the places in there have to be on the screen as well. -/

namespace Kernix.Proofs
open SlotList Transition

/-- A place on the screen, below the taskbar. -/
structure FitsScreen (screen : Screen) (x y width height : Int) : Prop where
  left : 0 ≤ x
  top : taskbarHeight ≤ y
  right : x + width ≤ screen.width
  bottom : y + height ≤ screen.height

def OnScreen (screen : Screen) (window : GuiWindow) : Prop :=
    FitsScreen screen window.x window.y window.width window.height

/-- A window is on the screen, and stays there when its place is restored. -/
structure Secure (screen : Screen) (window : GuiWindow) : Prop where
  shown : OnScreen screen window
  unmaximized : FitsScreen screen window.maximizedX window.maximizedY window.maximizedWidth window.maximizedHeight
  unminimized : window.state = .minimized →
    FitsScreen screen window.minimizedX window.minimizedY window.width window.height

/-- The windows that a call opens have the size of one that is launched. -/
def LaunchSized (call : GuiCall) : Prop :=
  ∀ frame, call.frame? = some frame → frame.width = menuFrame.width ∧ frame.height = menuFrame.height ∨
    ∃ kind, frame.width = (launchFrame kind).width ∧ frame.height = (launchFrame kind).height

/-- A window that is created is not minimized from before, and one that is minimized does
not outgrow the place that it goes back to. -/
def KeepsCorner (screen : Screen) (gui : GuiState) : GuiCall → Prop
  | .resize slot width height => (gui.windows slot).state = .minimized →
      let (width, height) := draggedSize screen (gui.windows slot) width height
      FitsScreen screen (gui.windows slot).minimizedX (gui.windows slot).minimizedY width height
  | call => ∀ frame, call.frame? = some frame → (call = .startButton → NoMenu (openWindows gui)) →
      (∀ program, frame.program = some program → ∃ index, gui.stateUsed program index = false) →
      ∀ room : gui.windowCount < maxWindows, (gui.windows ⟨gui.windowCount, room⟩).state = .minimized →
        FitsScreen screen (gui.windows ⟨gui.windowCount, room⟩).minimizedX
          (gui.windows ⟨gui.windowCount, room⟩).minimizedY
          frame.width frame.height

variable {screen : Screen} {gui after : GuiState} {items others : List GuiWindow} {buttons : List TaskbarButton}
  {window record : GuiWindow} {frame : LaunchFrame} {call : GuiCall} {id x y width height : Int}

theorem LaunchSized.small (sized : LaunchSized call) (asks : call.frame? = some frame) :
    frame.width ≤ 600 ∧ frame.height ≤ 400 := by
  rcases sized frame asks with ⟨width, height⟩ | ⟨kind, width, height⟩
  · rw [width, height]
    decide
  · rw [width, height]
    cases kind <;> decide

theorem clamp_fits (wide : width ≤ screen.width) (high : taskbarHeight + height ≤ screen.height) :
    FitsScreen screen (clampX screen x width) (clampY screen y height) width height := by
  unfold clampX clampY
  dsimp only
  refine ⟨?_, ?_, ?_, ?_⟩ <;> split <;> split <;> omega

theorem draggedSize_fits (shown : FitsScreen screen window.x window.y window.width window.height) :
    FitsScreen screen window.x window.y (draggedSize screen window width height).1
      (draggedSize screen window width height).2 := by
  refine ⟨shown.left, shown.top, ?_, ?_⟩
  · simp only [draggedSize]
    split <;> omega
  · simp only [draggedSize]
    split <;> omega

theorem full_fits (screen : Screen) : FitsScreen screen 0 taskbarHeight screen.width (screen.height - taskbarHeight) :=
  ⟨Int.le_refl _, Int.le_refl _, by omega, by omega⟩

theorem secure_unfocused : Secure screen (unfocused window) ↔ Secure screen window :=
  ⟨fun secure => ⟨secure.shown, secure.unmaximized, secure.unminimized⟩,
    fun secure => ⟨secure.shown, secure.unmaximized, secure.unminimized⟩⟩

/-- A window that is secure is on the screen also when it is taken out of the taskbar. -/
theorem Secure.minimized (secure : Secure screen window) : Secure screen (minimizedWindow window) := by
  rw [minimizedWindow]
  split
  next minimized => exact ⟨secure.unminimized minimized, secure.unmaximized, by rintro ⟨⟩⟩
  next => exact ⟨secure.shown, secure.unmaximized, fun _ => secure.shown⟩

theorem Secure.maximized (secure : Secure screen window) : Secure screen (maximizedWindow screen window) := by
  rw [maximizedWindow]
  split
  next => exact ⟨secure.unmaximized, secure.unmaximized, by rintro ⟨⟩⟩
  next => exact ⟨full_fits screen, secure.shown, by rintro ⟨⟩⟩

theorem Secure.edited (secure : Secure screen window) {slot : Fin maxWindows}
    (here : gui.windows slot = window) (asks : call.edits? = some slot) (keeps : KeepsCorner screen gui call) :
    Secure screen (call.edited screen window) := by
  cases call with
  | minimize => exact secure.minimized
  | maximize => exact secure.maximized
  | resize _ width height =>
    cases asks
    subst here
    have fits := @draggedSize_fits _ _ width height secure.shown
    exact ⟨fits, secure.unmaximized, keeps⟩
  | move _ x y =>
    have shown := secure.shown
    have narrow : window.width ≤ screen.width := by
      have left := shown.left
      have right := shown.right
      omega
    have low : taskbarHeight + window.height ≤ screen.height := by
      have top := shown.top
      have bottom := shown.bottom
      omega
    exact ⟨clamp_fits narrow low, secure.unmaximized, secure.unminimized⟩
  | _ => cases asks

/-- Every open window is on the screen, and stays there when its place is restored. -/
def AllSecure (screen : Screen) (items : List GuiWindow) : Prop := ∀ window ∈ items, Secure screen window

theorem AllSecure.congr (secure : AllSecure screen items) (same : others.map unfocused ⊆ items.map unfocused) :
    AllSecure screen others := by
  intro window member
  obtain ⟨other, old, equal⟩ := List.mem_map.mp (same (List.mem_map_of_mem member))
  rw [← secure_unfocused, ← equal, secure_unfocused]
  exact secure other old

theorem AllSecure.create (secure : AllSecure screen items) (new : Secure screen window) :
    AllSecure screen (items.map unfocused ++ [window]) := by
  intro other member
  rcases List.mem_append.mp member with old | last
  · obtain ⟨held, here, rfl⟩ := List.mem_map.mp old
    exact secure_unfocused.mpr (secure held here)
  · cases List.mem_singleton.mp last
    exact new

theorem frameWindow_fits (wide : 600 ≤ screen.width) (high : 435 ≤ screen.height)
    (small : frame.width ≤ 600 ∧ frame.height ≤ 400) : OnScreen screen (frame.window screen record id) := by
  have low : taskbarHeight + frame.height ≤ screen.height := by
    unfold taskbarHeight
    omega
  exact clamp_fits (by omega) low

/-- A window in a record that another one has left goes to the corner that it left. -/
theorem frameWindow_secure (wide : 600 ≤ screen.width) (high : 435 ≤ screen.height)
    (small : frame.width ≤ 600 ∧ frame.height ≤ 400) :
    Secure screen (frame.window screen record id) ↔
      (record.state = .minimized → FitsScreen screen record.minimizedX record.minimizedY frame.width frame.height) := by
  have shown : OnScreen screen (frame.window screen record id) := frameWindow_fits wide high small
  exact ⟨fun secure => secure.unminimized, fun fits => ⟨shown, shown, fits⟩⟩

/-- A window is secure as soon as it is on the screen before and after its place is restored. -/
theorem unminimized_of_toggled (shown : OnScreen screen (minimizedWindow window))
    (minimized : window.state = .minimized) :
    FitsScreen screen window.minimizedX window.minimizedY window.width window.height := by
  rw [minimizedWindow, if_pos minimized] at shown
  exact shown

/-- A call that opens a window takes a record that is not minimized, or has a corner that fits. -/
theorem keepsCorner_iff (shown : GuiIs gui items buttons) (asks : call.frame? = some frame) :
    KeepsCorner screen gui call ↔ ((call = .startButton → NoMenu items) →
      (∀ program, frame.program = some program → ∃ index, gui.stateUsed program index = false) →
      ∀ room : items.length < maxWindows, (gui.windows ⟨items.length, room⟩).state = .minimized →
        FitsScreen screen (gui.windows ⟨items.length, room⟩).minimizedX (gui.windows ⟨items.length, room⟩).minimizedY
          frame.width frame.height) := by
  have count := shown.count
  have unfolded : KeepsCorner screen gui call ↔ ∀ frame, call.frame? = some frame →
      (call = .startButton → NoMenu (openWindows gui)) →
      (∀ program, frame.program = some program → ∃ index, gui.stateUsed program index = false) →
      ∀ inside : gui.windowCount < maxWindows, (gui.windows ⟨gui.windowCount, inside⟩).state = .minimized →
        FitsScreen screen (gui.windows ⟨gui.windowCount, inside⟩).minimizedX
          (gui.windows ⟨gui.windowCount, inside⟩).minimizedY
          frame.width frame.height := by
    cases call with
    | resize => cases asks
    | _ => exact Iff.rfl
  rw [unfolded, shown.openWindows_eq]
  constructor
  · intro keeps menu free room
    have fits := keeps frame asks menu free (by rw [count]; exact room)
    simpa only [count] using fits
  · intro keeps other asked menu free room
    cases asks.symm.trans asked
    have fits := keeps menu free (by rw [← count]; exact room)
    simpa only [count] using fits

/-- The window is on the screen, and when it is minimized or restored. -/
def StaysOn (screen : Screen) (window : GuiWindow) : Prop :=
    OnScreen screen window ∧ OnScreen screen (minimizedWindow window)

theorem Secure.stays (secure : Secure screen window) : StaysOn screen window := ⟨secure.shown, secure.minimized.shown⟩

section Launches
variable (shown : GuiIs gui items buttons) (asks : call.frame? = some frame)
  (launched : Launched screen gui items buttons frame after)
include shown asks launched

theorem Launched.secure (wide : 600 ≤ screen.width) (high : 435 ≤ screen.height) (sized : LaunchSized call)
    (secure : AllSecure screen items) (menu : call = .startButton → NoMenu items) (keeps : KeepsCorner screen gui call) :
    AllSecure screen (openWindows after) := by
  have small := sized.small asks
  rw [keepsCorner_iff shown asks] at keeps
  cases launched with
  | full => rwa [shown.openWindows_eq]
  | plain room none created =>
    rw [created.openWindows_eq]
    apply secure.create
    exact (frameWindow_secure wide high small).mpr (keeps menu (fun program own => by cases none.symm.trans own) room)
  | exhausted room _ _ left =>
    rw [left.openWindows_eq]
    apply secure.congr
    rw [List.map_map, show unfocused ∘ unfocused = unfocused from rfl]
    exact List.Subset.refl _
  | @started _ program index room own free created =>
    rw [created.openWindows_eq]
    apply secure.create
    have new := (@frameWindow_secure _ _ _ gui.nextWindowId wide high small).mpr (keeps menu (by
      intro other owned
      cases own.symm.trans owned
      exact ⟨index, free⟩) room)
    exact ⟨new.shown, new.unmaximized, new.unminimized⟩

theorem Launched.keepsCorner (stays : ∀ window ∈ openWindows after, StaysOn screen window) :
    KeepsCorner screen gui call := by
  rw [keepsCorner_iff shown asks]
  intro _ free room minimized
  cases launched with
  | full full => exact absurd room full
  | plain _ _ created =>
    rw [created.openWindows_eq] at stays
    exact unminimized_of_toggled (stays _ (List.mem_append_right _ (List.mem_singleton_self _))).2 minimized
  | exhausted _ own taken =>
    obtain ⟨index, free⟩ := free _ own
    cases (taken index).symm.trans free
  | started _ _ _ created =>
    rw [created.openWindows_eq] at stays
    exact unminimized_of_toggled (stays _ (List.mem_append_right _ (List.mem_singleton_self _))).2 minimized

end Launches

theorem keepsCorner_other (opens : call.frame? = none) (other : ∀ slot width height, call ≠ .resize slot width height) :
    KeepsCorner screen gui call := by
  cases call with
  | resize slot width height => exact absurd rfl (other slot width height)
  | _ =>
    intro frame asks
    cases opens.symm.trans asks

theorem Outcome.secure (wide : 600 ≤ screen.width) (high : 435 ≤ screen.height) (sized : LaunchSized call)
    (shown : GuiIs gui items buttons) (secure : AllSecure screen items) (keeps : KeepsCorner screen gui call)
    (outcome : Outcome screen gui items buttons call after) : AllSecure screen (openWindows after) := by
  cases outcome with
  | launched asks menu launched => exact launched.secure shown asks wide high sized secure menu keeps
  | closed index inside _ left =>
    rw [left.openWindows_eq]
    intro window member
    exact secure window ((List.eraseIdx_sublist _ _).subset member)
  | focused => rwa [shown.openWindows_eq]
  | raised inside _ moved raise =>
    rw [moved.openWindows_eq]
    apply secure.congr
    rw [raise]
    exact List.map_subset _ (raised_perm inside).subset
  | edited slot asks inside set =>
    rw [set.openWindows_eq]
    intro window member
    rcases List.mem_or_eq_of_mem_set member with old | rfl
    · exact secure window old
    · exact (secure _ (List.getElem_mem inside)).edited (shown.slot inside) asks keeps

theorem Outcome.keepsCorner (shown : GuiIs gui items buttons) (outcome : Outcome screen gui items buttons call after)
    (stays : ∀ window ∈ openWindows after, StaysOn screen window) : KeepsCorner screen gui call := by
  cases outcome with
  | launched asks _ launched => exact launched.keepsCorner shown asks stays
  | closed _ _ asks =>
    rcases asks with ⟨slot, rfl, -⟩ | ⟨rfl, some⟩
    · exact keepsCorner_other rfl nofun
    · rw [keepsCorner_iff shown rfl]
      intro menu
      exact absurd (menu rfl) some
  | focused | raised => exact keepsCorner_other rfl nofun
  | edited slot asks inside set =>
    rw [set.openWindows_eq] at stays
    have changed := stays _ (List.mem_set inside _)
    cases call with
    | resize other width height =>
      cases asks
      rw [← shown.slot inside] at changed
      exact fun minimized => unminimized_of_toggled changed.2 minimized
    | launch | startButton | create => cases asks
    | _ => exact keepsCorner_other rfl nofun

/-- A call with the sizes of the launches. -/
def SizedMoves (screen : Screen) (before : GuiState) (call : GuiCall) (after : GuiState) : Prop :=
  GuiMoves screen before call after ∧ LaunchSized call

end Kernix.Proofs
