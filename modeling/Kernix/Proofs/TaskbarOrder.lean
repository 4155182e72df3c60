import Kernix.Proofs.GuiCalls
import Mathlib.Data.List.InsertIdx
import Mathlib.Data.List.Nodup
import Mathlib.Data.List.Perm.Basic

/-! The buttons of the taskbar and the open windows. A button names a window, but what
is done with it goes to the window at its index, so that the two have to come in the
same order. -/

namespace Kernix.Proofs
open SlotList Transition

/-- The minimized state of one window changes, and of no other. -/
def TogglesMinimized (id : Int) (before after : List GuiWindow) : Prop :=
  after = before.map fun window => if window.id = id then minimizedWindow window else window

/-- The windows with the ids that were given a button when they were launched. -/
structure TaskbarRun where
  gui : GuiState
  given : List Int

/-- A launch that adds a button gives it to its window. -/
def granted (before after : GuiState) (given : List Int) : List Int :=
  if before.taskbarButtonCount < after.taskbarButtonCount then given ++ [before.nextWindowId] else given

def TaskbarMoves (screen : Screen) (before : TaskbarRun) (call : GuiCall) (after : TaskbarRun) : Prop :=
  GuiMoves screen before.gui call after.gui ∧ after.given = granted before.gui after.gui before.given

/-- Every button is labelled with the title of the window that it names. -/
structure LabelsRight (before after : GuiState) : Prop where
  windows : openWindows after = openWindows before
  names : (shownButtons after).map (·.windowId) = (shownButtons before).map (·.windowId)
  labels : ∀ button ∈ shownButtons after, ∃ window ∈ openWindows before, window.id = button.windowId ∧
    button.text = window.title

structure TaskbarRight (screen : Screen) (run : TaskbarRun) : Prop where
  once : ((openWindows run.gui).map (·.id)).Nodup
  count : run.gui.taskbarButtonCount = ((openWindows run.gui).filter fun window => window.id ∈ run.given).length
  clicks : ∀ x y i, guiGetTaskbarButtonAtPoint screen run.gui x y = some i → ∃ button window after,
    (shownButtons run.gui)[i]? = some button ∧ window ∈ openWindows run.gui ∧ window.id = button.windowId ∧
      guiHandleMouseClick screen run.gui x y = .ok after ∧
      TogglesMinimized button.windowId (openWindows run.gui) (openWindows after)
  labels : ∃ after, guiDrawTaskbar run.gui = .ok after ∧ LabelsRight run.gui after

/-- Every button names the window at its index. -/
def NamesInOrder (gui : GuiState) : Prop := (shownButtons gui).map (·.windowId) <+: (openWindows gui).map (·.id)

/-- A program is launched only while every window has a button, and a window below the
top that has one is not raised. -/
def KeepsOrder (gui : GuiState) : GuiCall → Prop
  | .launch kind => ∀ program, (launchFrame kind).program = some program → gui.windowCount < maxWindows →
      (∃ index, gui.stateUsed program index = false) → gui.windowCount = gui.taskbarButtonCount
  | .focus slot => gui.focusedWindowId = (gui.windows slot).id ∨ slot.val + 1 = gui.windowCount ∨
      gui.taskbarButtonCount ≤ slot.val
  | _ => True

/-- What a button may say of a window. -/
def names (items : List GuiWindow) : List (Int × List UInt8) := items.map fun window => (window.id, window.title)

/-- The windows with a button come before the others. -/
structure Labelled (front back : List (Int × List UInt8)) (buttons : List TaskbarButton) (given : List Int) (next : Int) :
    Prop where
  named : front.map Prod.fst = buttons.map (·.windowId)
  buttoned : ∀ name ∈ front, name.1 ∈ given
  short : ∀ name ∈ front, name.2.length < 32
  plain : ∀ name ∈ back, name.1 ∉ given
  once : ((front ++ back).map Prod.fst).Nodup
  below : ∀ name ∈ front ++ back, name.1 < next
  earlier : ∀ id ∈ given, id < next

variable {screen : Screen} {gui after : GuiState} {items others : List GuiWindow} {buttons : List TaskbarButton}
  {front back : List (Int × List UInt8)} {given : List Int} {next : Int} {call : GuiCall}

@[simp] theorem names_unfocused (items : List GuiWindow) : names (items.map unfocused) = names items := by
  rw [names, List.map_map]
  rfl

theorem names_append (items others : List GuiWindow) : names (items ++ others) = names items ++ names others :=
    List.map_append

theorem names_eraseIdx (items : List GuiWindow) (index : Nat) :
    names (items.eraseIdx index) = (names items).eraseIdx index := by
  simp [names, List.eraseIdx_map]

theorem ids_eq (items : List GuiWindow) : items.map (·.id) = (names items).map Prod.fst := by
  rw [names, List.map_map]
  rfl

theorem names_edited {index : Nat} (inside : index < items.length) {window : GuiWindow}
    (same : SameWindow items[index] window) :
    names (items.set index window) = names items := by
  rw [names, List.map_set, same.id, same.title, ← List.map_set (f := fun window : GuiWindow => (window.id, window.title)),
    List.set_getElem_self, names]

theorem names_raised {index : Nat} (inside : index < items.length)
    (raise : others.map unfocused = (raised items index items[index]).map unfocused) :
    names others = (names items).eraseIdx index ++ [(items[index].id, items[index].title)] := by
  rw [← names_unfocused others, raise, names_unfocused, raised, names_append, names_eraseIdx]
  rfl

theorem Labelled.shrink (labelled : Labelled front back buttons given next) {left right : List (Int × List UInt8)}
    {rest : List TaskbarButton} (fewer : left.Sublist front) (others : right.Sublist back)
    (named : left.map Prod.fst = rest.map (·.windowId)) : Labelled left right rest given next where
  named := named
  buttoned name member := labelled.buttoned name (fewer.subset member)
  short name member := labelled.short name (fewer.subset member)
  plain name member := labelled.plain name (others.subset member)
  once := labelled.once.sublist ((fewer.append others).map _)
  below name member := labelled.below name ((fewer.append others).subset member)
  earlier := labelled.earlier

/-- A window that is closed takes its button along. -/
theorem Labelled.close (labelled : Labelled front back buttons given next) {index : Nat} {name : Int × List UInt8}
    (found : (front ++ back)[index]? = some name) :
    ∃ left right, (front ++ back).eraseIdx index = left ++ right ∧
      Labelled left right (buttons.eraseP (·.windowId = name.1)) given next := by
  obtain ⟨inside, rfl⟩ := List.getElem?_eq_some_iff.mp found
  have once := labelled.once
  rw [List.map_append, List.nodup_append] at once
  have erased (id : Int) : (buttons.eraseP (·.windowId = id)).map (·.windowId) = (front.map Prod.fst).erase id := by
    rw [labelled.named, List.erase_eq_eraseP', List.eraseP_map]
    congr 2
  by_cases early : index < front.length
  · refine ⟨front.eraseIdx index, back, List.eraseIdx_append_of_lt_length early _, ?_⟩
    refine labelled.shrink (List.eraseIdx_sublist _ _) (List.Sublist.refl _) ?_
    have early' : index < (front.map Prod.fst).length := by rwa [List.length_map]
    have name : (front ++ back)[index].1 = (front.map Prod.fst)[index] := by
      rw [List.getElem_append_left early, List.getElem_map]
    rw [erased, name, once.1.erase_getElem, List.eraseIdx_map]
  · refine ⟨front, back.eraseIdx (index - front.length), List.eraseIdx_append_of_length_le (by omega) _, ?_⟩
    refine labelled.shrink (List.Sublist.refl _) (List.eraseIdx_sublist _ _) ?_
    rw [erased, List.erase_of_not_mem]
    intro member
    rw [List.getElem_append_right (by omega)] at member
    exact once.2.2 _ member _ (List.mem_map_of_mem (List.getElem_mem _)) rfl

/-- A window without a button lies behind the others. -/
theorem Labelled.create (labelled : Labelled front back buttons given next) (title : List UInt8) :
    Labelled front (back ++ [(next, title)]) buttons given (next + 1) where
  named := labelled.named
  buttoned := labelled.buttoned
  short := labelled.short
  plain := by
    intro name member
    rcases List.mem_append.mp member with old | last
    · exact labelled.plain name old
    · cases List.mem_singleton.mp last
      intro early
      exact absurd (labelled.earlier next early) (by omega)
  once := by
    rw [← List.append_assoc, List.map_append, List.nodup_append]
    refine ⟨labelled.once, List.nodup_singleton _, ?_⟩
    intro id member other last
    obtain ⟨name, old, rfl⟩ := List.mem_map.mp member
    cases List.mem_singleton.mp last
    exact ne_of_lt (labelled.below name old)
  below := by
    intro name member
    rw [← List.append_assoc] at member
    rcases List.mem_append.mp member with old | last
    · exact lt_trans (labelled.below name old) (by omega)
    · cases List.mem_singleton.mp last
      dsimp only
      omega
  earlier id member := lt_trans (labelled.earlier id member) (by omega)

/-- The window of a program, where every window has a button. -/
theorem Labelled.start (labelled : Labelled front [] buttons given next) {title : List UInt8}
    (short : title.length < 32) :
    Labelled (front ++ [(next, title)]) [] (buttons ++ [⟨next, title⟩]) (given ++ [next]) (next + 1) where
  named := by simp [labelled.named]
  buttoned := by
    intro name member
    rcases List.mem_append.mp member with old | last
    · exact List.mem_append_left _ (labelled.buttoned name old)
    · cases List.mem_singleton.mp last
      exact List.mem_append_right _ (List.mem_singleton_self _)
  short := by
    intro name member
    rcases List.mem_append.mp member with old | last
    · exact labelled.short name old
    · cases List.mem_singleton.mp last
      exact short
  plain _ member := by cases member
  once := by simpa using (labelled.create title).once
  below := by simpa using (labelled.create title).below
  earlier := by
    intro id member
    rcases List.mem_append.mp member with old | last
    · exact lt_trans (labelled.earlier id old) (by omega)
    · cases List.mem_singleton.mp last
      omega

/-- A new id is the one of no button. -/
theorem Labelled.unnamed (labelled : Labelled front back buttons given next) :
    buttons.eraseP (·.windowId = next) = buttons := by
  apply List.eraseP_of_forall_not
  intro button member named
  have name : button.windowId ∈ front.map Prod.fst := labelled.named ▸ List.mem_map_of_mem member
  obtain ⟨window, inside, same⟩ := List.mem_map.mp name
  have early := labelled.below window (List.mem_append_left _ inside)
  rw [same] at early
  exact absurd (of_decide_eq_true named) (ne_of_lt early)

theorem Labelled.later (labelled : Labelled front back buttons given next) :
    Labelled front back buttons given (next + 1) :=
  { labelled with
    below := fun name member => lt_trans (labelled.below name member) (by omega)
    earlier := fun id member => lt_trans (labelled.earlier id member) (by omega) }

/-- A window behind those with a button goes on top. -/
theorem Labelled.raise (labelled : Labelled front back buttons given next) {index : Nat} {name : Int × List UInt8}
    (found : back[index]? = some name) : Labelled front (back.eraseIdx index ++ [name]) buttons given next := by
  obtain ⟨inside, rfl⟩ := List.getElem?_eq_some_iff.mp found
  have same : (back.eraseIdx index ++ [back[index]]).Perm back :=
    (List.perm_append_singleton _ _).trans (List.getElem_cons_eraseIdx_perm inside)
  exact { labelled with
    plain := fun name member => labelled.plain name (same.mem_iff.mp member)
    once := ((same.append_left front).map _).nodup_iff.mpr labelled.once
    below := fun name member => labelled.below name ((same.append_left front).mem_iff.mp member) }

theorem Labelled.count (labelled : Labelled front back buttons given next) :
    ((front ++ back).filter fun name => name.1 ∈ given).length = buttons.length := by
  have length := congrArg List.length labelled.named
  rw [List.length_map, List.length_map] at length
  rw [List.filter_append, List.filter_eq_self.mpr (by simpa using labelled.buttoned),
    List.filter_eq_nil_iff.mpr (by simpa using labelled.plain), List.append_nil, length]

/-- The windows with a button come first, in the order of the buttons. -/
def InOrder (items : List GuiWindow) (buttons : List TaskbarButton) (given : List Int) (next : Int) : Prop :=
  ∃ front back, names items = front ++ back ∧ Labelled front back buttons given next

theorem inOrder_init : InOrder [] [] [] guiInit.nextWindowId :=
  ⟨[], [], rfl, rfl, nofun, nofun, nofun, List.nodup_nil, nofun, nofun⟩

theorem granted_same (same : after.taskbarButtonCount ≤ gui.taskbarButtonCount) : granted gui after given = given :=
  if_neg (by omega)

theorem launch_of_program {frame : LaunchFrame} {program : GuiProgram} (asks : call.frame? = some frame)
    (own : frame.program = some program) : ∃ kind, call = .launch kind ∧ launchFrame kind = frame := by
  cases call with
  | launch kind => exact ⟨kind, rfl, Option.some.inj asks⟩
  | startButton | create =>
    cases asks
    cases own
  | _ => cases asks

theorem launchFrame_short (kind : Launch) : (launchFrame kind).title.length < 32 := by
  cases kind <;> decide

/-- A program that is started gets the button behind all windows. -/
theorem InOrder.full {front back : List (Int × List UInt8)} (split : names items = front ++ back)
    (labelled : Labelled front back buttons given next) (all : items.length = buttons.length) : back = [] := by
  have length := congrArg List.length split
  have named := congrArg List.length labelled.named
  simp only [names, List.length_map, List.length_append] at length named
  exact List.eq_nil_of_length_eq_zero (by omega)

theorem Launched.inOrder {frame : LaunchFrame} (shown : GuiIs gui items buttons)
    (order : InOrder items buttons given gui.nextWindowId)
    (asks : call.frame? = some frame) (keeps : KeepsOrder gui call)
    (launched : Launched screen gui items buttons frame after) :
    ∃ others rest, GuiIs after others rest ∧ InOrder others rest (granted gui after given) after.nextWindowId := by
  obtain ⟨front, back, split, labelled⟩ := order
  have bar := shown.barCount
  cases launched with
  | full => exact ⟨_, _, shown, front, back, split, (granted_same (Nat.le_refl _)).symm ▸ labelled⟩
  | plain room program created kept =>
    refine ⟨_, _, created, front, back ++ [(gui.nextWindowId, frame.title)], ?_, ?_⟩
    · rw [names_append, names_unfocused, split, List.append_assoc]
      rfl
    · rw [granted_same (by rw [created.barCount, bar]), kept.nextWindowId]
      exact labelled.create frame.title
  | exhausted room program taken left kept =>
    rw [labelled.unnamed] at left
    refine ⟨_, _, left, front, back, by rw [names_unfocused, split], ?_⟩
    rw [granted_same (by rw [left.barCount, bar]), kept.nextWindowId]
    exact labelled.later
  | @started _ program index room own free created kept =>
    obtain ⟨kind, rfl, rfl⟩ := launch_of_program asks own
    have all := keeps program own (by rw [shown.count]; exact room) ⟨index, free⟩
    rw [shown.count, bar] at all
    obtain rfl := InOrder.full split labelled all
    rw [if_pos (by omega)] at created
    refine ⟨_, _, created, front ++ [(gui.nextWindowId, (launchFrame kind).title)], [], ?_, ?_⟩
    · rw [names_append, names_unfocused, split, List.append_nil, List.append_nil]
      rfl
    · rw [granted, if_pos (by rw [created.barCount, bar]; simp), kept.nextWindowId]
      exact labelled.start (launchFrame_short kind)

theorem Outcome.inOrder (shown : GuiIs gui items buttons) (order : InOrder items buttons given gui.nextWindowId)
    (keeps : KeepsOrder gui call) (outcome : Outcome screen gui items buttons call after) :
    ∃ others rest, GuiIs after others rest ∧ InOrder others rest (granted gui after given) after.nextWindowId := by
  have bar := shown.barCount
  cases outcome with
  | launched asks _ launched => exact launched.inOrder shown order asks keeps
  | closed index inside _ left kept =>
    obtain ⟨front, back, split, labelled⟩ := order
    have found : (front ++ back)[index]? = some (items[index].id, items[index].title) := by
      rw [← split, names, List.getElem?_map, List.getElem?_eq_getElem inside, Option.map_some]
    obtain ⟨first, second, erased, closed⟩ := labelled.close found
    refine ⟨_, _, left, first, second, by rw [names_eraseIdx, split, erased], ?_⟩
    rw [granted_same (by rw [left.barCount, bar]; exact List.length_eraseP_le), kept.nextWindowId]
    exact closed
  | focused =>
    rw [granted_same (Nat.le_refl _)]
    exact ⟨_, _, shown, order⟩
  | @raised slot others _ inside other moved raise same =>
    rw [granted_same (by rw [moved.barCount, bar]), same]
    have changed := names_raised inside raise
    obtain ⟨front, back, split, labelled⟩ := order
    have named := congrArg List.length labelled.named
    rw [List.length_map, List.length_map, ← bar] at named
    rcases keeps with focused | last | behind
    · rw [shown.slot inside] at focused
      exact absurd focused other
    · rw [shown.count] at last
      refine ⟨_, _, moved, front, back, ?_, labelled⟩
      rw [← names_unfocused, raise, raised_last last inside, names_unfocused, split]
    · have found : back[slot.val - front.length]? = some (items[slot.val].id, items[slot.val].title) := by
        rw [← List.getElem?_append_right (by omega), ← split, names, List.getElem?_map, List.getElem?_eq_getElem inside,
          Option.map_some]
      refine ⟨_, _, moved, front, _, ?_, labelled.raise found⟩
      rw [changed, split, List.eraseIdx_append_of_length_le (by omega), List.append_assoc]
  | edited slot _ inside set kept =>
    obtain ⟨front, back, split, labelled⟩ := order
    rw [granted_same (by rw [set.barCount, bar]), kept.nextWindowId]
    exact ⟨_, _, set, front, back, by rw [names_edited inside (edited_same screen _ call), split], labelled⟩

theorem namesInOrder_iff (shown : GuiIs gui items buttons) :
    NamesInOrder gui ↔ buttons.map (·.windowId) <+: (names items).map Prod.fst := by
  rw [NamesInOrder, shown.openWindows_eq, shown.shownButtons_eq, ids_eq]

theorem InOrder.named (shown : GuiIs gui items buttons) (order : InOrder items buttons given next) :
    NamesInOrder gui := by
  obtain ⟨front, back, split, labelled⟩ := order
  rw [namesInOrder_iff shown, split, List.map_append, labelled.named]
  exact List.prefix_append _ _

/-- A window below the top with a button lets the one after it take its index. -/
theorem Labelled.not_raised (labelled : Labelled front back buttons given next) {index : Nat} {name : Int × List UInt8}
    (inside : index < buttons.length) (under : index + 1 < (front ++ back).length) :
    ¬buttons.map (·.windowId) <+: ((front ++ back).eraseIdx index ++ [name]).map Prod.fst := by
  intro named
  have length := congrArg List.length labelled.named
  rw [List.length_map, List.length_map] at length
  have same := named.getElem (i := index) (by rwa [List.length_map])
  simp only [← labelled.named, List.getElem_map] at same
  rw [List.getElem_append_left (by rw [List.length_eraseIdx_of_lt (by omega)]; omega),
    List.getElem_eraseIdx_of_ge _ (Nat.le_refl _)] at same
  have first : index < ((front ++ back).map Prod.fst).length := by
    rw [List.length_map]
    omega
  have second : index + 1 < ((front ++ back).map Prod.fst).length := by rwa [List.length_map]
  have ids : ((front ++ back).map Prod.fst)[index] = ((front ++ back).map Prod.fst)[index + 1] := by
    rw [List.getElem_map, List.getElem_map, ← same, List.getElem_append_left]
  have equal := (List.Nodup.getElem_inj_iff labelled.once).mp ids
  omega

/-- A window without a button has the index of the new one. -/
theorem Labelled.not_started (labelled : Labelled front back buttons given next) (some : back ≠ [])
    {title text : List UInt8} :
    ¬(buttons ++ [(⟨next, text⟩ : TaskbarButton)]).map (·.windowId) <+:
      (front ++ back ++ [(next, title)]).map Prod.fst := by
  intro named
  obtain ⟨name, rest, rfl⟩ := List.exists_cons_of_ne_nil some
  have below := labelled.below name (by simp)
  rw [List.append_assoc, List.map_append, List.map_append, labelled.named, List.prefix_append_right_inj] at named
  simp only [List.map_cons, List.map_nil, List.cons_append, List.cons_prefix_cons] at named
  omega

/-- The order is kept exactly by these calls. -/
theorem Outcome.inOrder_iff (shown : GuiIs gui items buttons) (order : InOrder items buttons given gui.nextWindowId)
    (outcome : Outcome screen gui items buttons call after) : NamesInOrder after ↔ KeepsOrder gui call := by
  constructor
  · intro named
    obtain ⟨front, back, split, labelled⟩ := order
    have bar := shown.barCount
    cases outcome with
    | launched asks menu launched =>
      cases call with
      | launch kind =>
        cases asks
        intro program own room free
        rw [shown.count] at room
        cases launched with
        | full full => exact absurd room full
        | plain _ none => cases none.symm.trans own
        | exhausted _ other taken =>
          cases other.symm.trans own
          obtain ⟨index, free⟩ := free
          cases (taken index).symm.trans free
        | started _ other _ created =>
          have length := congrArg List.length split
          have lengths := congrArg List.length labelled.named
          rw [names, List.length_map, List.length_append] at length
          rw [List.length_map, List.length_map] at lengths
          by_cases all : back = []
          · subst all
            rw [List.length_nil] at length
            rw [shown.count, bar]
            omega
          · rw [if_pos (by omega)] at created
            rw [namesInOrder_iff created, names_append, names_unfocused, split] at named
            exact absurd named (labelled.not_started all)
      | startButton | create => trivial
      | _ => cases asks
    | closed _ _ asks =>
      rcases asks with ⟨slot, rfl, -⟩ | ⟨rfl, -⟩
      · trivial
      · trivial
    | focused focused => exact .inl focused
    | @raised slot _ _ inside _ moved raise =>
      have length := congrArg List.length split
      rw [names, List.length_map] at length
      by_contra broken
      simp only [KeepsOrder, not_or, not_le, shown.count, bar] at broken
      rw [namesInOrder_iff moved, names_raised inside raise, split] at named
      exact labelled.not_raised broken.2.2 (by omega) named
    | edited slot asks =>
      cases call with
      | launch | focus => cases asks
      | _ => trivial
  · intro keeps
    obtain ⟨others, rest, left, kept⟩ := outcome.inOrder shown order keeps
    exact kept.named left

theorem buttonAt_inside {x y : Int} {left i j : Nat} {buttonX buttonY : Int}
    (hit : buttonAt screen x y left i buttonX buttonY = some j) : j < i + left := by
  induction left generalizing i buttonX buttonY with
  | zero => cases hit
  | succ left ih =>
    rw [buttonAt] at hit
    rcases ite_eq_iff.mp hit with ⟨-, same⟩ | ⟨-, rest⟩
    · cases same
      omega
    · have bound := ih rest
      omega

theorem guiGetTaskbarButtonAtPoint_inside {x y : Int} {i : Nat}
    (hit : guiGetTaskbarButtonAtPoint screen gui x y = some i) :
    i < gui.taskbarButtonCount := by
  rw [guiGetTaskbarButtonAtPoint] at hit
  split at hit
  · cases hit
  · have bound := buttonAt_inside hit
    omega

theorem guiHandleMouseClick_button (shown : GuiIs gui items buttons) {x y : Int} {i : Nat}
    (hit : guiGetTaskbarButtonAtPoint screen gui x y = some i) (inside : i < items.length) :
    ∃ after, guiHandleMouseClick screen gui x y = .ok after ∧
      GuiIs after (items.set i (minimizedWindow items[i])) buttons := by
  have fits := shown.windows.fits
  have quiet : GuiIs { gui with dragState := gui.dragState.none } items buttons :=
    ⟨shown.windows, shown.count, shown.bar, shown.barCount⟩
  have same : guiGetTaskbarButtonAtPoint screen { gui with dragState := gui.dragState.none } x y = some i := hit
  have set := @GuiIs.set _ _ _ quiet ⟨i, by omega⟩ inside (minimizedWindow items[i])
  unfold guiHandleMouseClick
  dsimp only
  rw [same]
  dsimp only
  rw [dif_pos (by omega), guiMinimizeWindow, @GuiIs.slot _ _ _ quiet ⟨i, by omega⟩ inside]
  exact ⟨_, rfl, set⟩

theorem set_toggles (once : (items.map (·.id)).Nodup) {index : Nat} (inside : index < items.length) :
    TogglesMinimized items[index].id items (items.set index (minimizedWindow items[index])) := by
  apply List.ext_getElem (by simp)
  intro other _ within
  rw [List.length_map] at within
  rw [List.getElem_set, List.getElem_map]
  by_cases same : index = other
  · subst same
    simp
  · rw [if_neg same, if_neg]
    intro equal
    have within' : other < (items.map (·.id)).length := by rwa [List.length_map]
    have inside' : index < (items.map (·.id)).length := by rwa [List.length_map]
    have ids : (items.map (·.id))[other] = (items.map (·.id))[index] := by
      rw [List.getElem_map, List.getElem_map]
      exact equal
    exact same ((List.Nodup.getElem_inj_iff once).mp ids).symm

/-- The label that a button gets. -/
def withLabel (button : TaskbarButton) (window : GuiWindow) : TaskbarButton := { button with text := window.title }

theorem labelButtons_labels {windows : Fin maxWindows → GuiWindow} {array : Fin maxWindows → TaskbarButton}
    (held : SlotList.Holds windows items) (bar : SlotList.Holds array buttons) (few : buttons.length ≤ items.length)
    (short : ∀ window ∈ items.take buttons.length, window.title.length < 32) {left i : Nat}
    (rest : i + left = buttons.length) :
    ∃ labelled, labelButtons windows left i array = .ok labelled ∧
      SlotList.Holds labelled (buttons.take i ++ List.zipWith withLabel (buttons.drop i) (items.drop i)) := by
  have fits := held.fits
  induction left generalizing i array buttons with
  | zero =>
    rw [labelButtons, show i = buttons.length by omega, List.take_length, List.drop_length, List.zipWith_nil_left,
      List.append_nil]
    exact ⟨_, rfl, bar⟩
  | succ left ih =>
    have inside : i < buttons.length := by omega
    have title : items[i].title.length < 32 := by
      apply short
      rw [List.mem_take_iff_getElem]
      exact ⟨i, by omega, rfl⟩
    rw [labelButtons, elementAt_eq _ (by omega), elementAt_eq _ (by omega), held.slot i (by omega), bar.slot i inside]
    simp only [bind, Except.bind]
    rw [if_neg (by omega), setElement_eq _ (by omega)]
    dsimp only [pure, Except.pure]
    have next := bar.set inside (withLabel buttons[i] items[i])
    obtain ⟨labelled, labels, result⟩ := ih next (by rwa [List.length_set]) (by rwa [List.length_set]) (i := i + 1)
      (by rw [List.length_set]; omega)
    refine ⟨labelled, labels, ?_⟩
    rw [List.drop_eq_getElem_cons inside, List.drop_eq_getElem_cons (by omega : i < items.length), List.zipWith_cons_cons]
    rw [List.drop_set_of_lt (by omega), List.take_succ_eq_append_getElem (by rwa [List.length_set]),
      List.take_set_of_le (Nat.le_refl _),
      List.getElem_set_self, List.append_assoc] at result
    exact result

theorem guiDrawTaskbar_labels (shown : GuiIs gui items buttons) (few : buttons.length ≤ items.length)
    (short : ∀ window ∈ items.take buttons.length, window.title.length < 32) :
    ∃ after, guiDrawTaskbar gui = .ok after ∧ GuiIs after items (List.zipWith withLabel buttons items) := by
  obtain ⟨labelled, labels, held⟩ := labelButtons_labels shown.windows shown.bar few short (Nat.zero_add _)
  have length : (List.zipWith withLabel buttons items).length = buttons.length := by
    rw [List.length_zipWith, Nat.min_eq_left few]
  rw [guiDrawTaskbar, shown.barCount, labels]
  exact ⟨_, rfl, shown.windows, shown.count, by simpa using held, length.symm⟩

/-- Buttons that name the windows in their order do what they say. -/
theorem InOrder.right (shown : GuiIs gui items buttons) (order : InOrder items buttons given gui.nextWindowId) :
    TaskbarRight screen ⟨gui, given⟩ := by
  obtain ⟨front, back, split, labelled⟩ := order
  have once : (items.map (·.id)).Nodup := by
    rw [ids_eq, split]
    exact labelled.once
  have lengths := congrArg List.length split
  have named := congrArg List.length labelled.named
  simp only [names, List.length_map, List.length_append] at lengths named
  have name {i : Nat} (inside : i < buttons.length) : items[i].id = buttons[i].windowId ∧ items[i].title.length < 32 := by
    have early : i < front.length := by omega
    have same : (items[i].id, items[i].title) = front[i] := by
      have found := congrArg (fun list => list[i]?) split
      simp only [names, List.getElem?_map, List.getElem?_eq_getElem (by omega : i < items.length), Option.map_some,
        List.getElem?_append_left early, List.getElem?_eq_getElem early] at found
      exact Option.some.inj found
    have id : front[i].1 = buttons[i].windowId := by
      have mapped := congrArg (fun list => list[i]?) labelled.named
      simpa [early, inside] using mapped
    have short := labelled.short _ (List.getElem_mem early)
    rw [← same] at id short
    exact ⟨id, short⟩
  refine ⟨by rwa [shown.openWindows_eq], ?_, ?_, ?_⟩
  · rw [shown.openWindows_eq, shown.barCount, ← labelled.count, ← split, names, List.filter_map, List.length_map]
    rfl
  · intro x y i hit
    have inside : i < buttons.length := shown.barCount ▸ guiGetTaskbarButtonAtPoint_inside hit
    obtain ⟨after, clicks, left⟩ := guiHandleMouseClick_button shown hit (by omega)
    refine ⟨buttons[i], items[i], after, ?_, ?_, (name inside).1, clicks, ?_⟩
    · rw [shown.shownButtons_eq, List.getElem?_eq_getElem inside]
    · rw [shown.openWindows_eq]
      exact List.getElem_mem _
    · rw [shown.openWindows_eq, left.openWindows_eq, ← (name inside).1]
      exact set_toggles once (by omega)
  · have few : buttons.length ≤ items.length := by omega
    obtain ⟨after, draws, left⟩ := guiDrawTaskbar_labels shown few (by
      intro window member
      obtain ⟨i, inside, rfl⟩ := List.mem_take_iff_getElem.mp member
      exact (name (by omega)).2)
    refine ⟨after, draws, ?_, ?_, ?_⟩
    · rw [left.openWindows_eq, shown.openWindows_eq]
    · rw [left.shownButtons_eq, shown.shownButtons_eq, List.map_zipWith]
      apply List.ext_getElem (by simpa using few)
      intro i _ within
      simp [withLabel]
    · intro button member
      rw [left.shownButtons_eq] at member
      obtain ⟨i, inside, rfl⟩ := List.getElem_of_mem member
      rw [List.length_zipWith] at inside
      rw [shown.openWindows_eq]
      refine ⟨items[i], List.getElem_mem _, ?_, ?_⟩
      · rw [List.getElem_zipWith]
        exact (name (by omega)).1
      · rw [List.getElem_zipWith]
        rfl

/-- A call of a run that keeps the order. -/
def OrderedMoves (screen : Screen) (before : TaskbarRun) (call : GuiCall) (after : TaskbarRun) : Prop :=
  TaskbarMoves screen before call after ∧ KeepsOrder before.gui call

/-- While the order is kept the buttons do what they say, and a further call leaves every
button with the window at its index exactly when it keeps the order. -/
theorem taskbar_right_iff (screen : Screen) {run : TaskbarRun}
    (reached : Reachable (· = ⟨guiInit, []⟩) (OrderedMoves screen) run) :
    TaskbarRight screen run ∧ ∀ call after, GuiMoves screen run.gui call after →
      (NamesInOrder after ↔ KeepsOrder run.gui call) := by
  obtain ⟨items, buttons, shown, order⟩ := reached.invariant
    (fun run => ∃ items buttons, GuiIs run.gui items buttons ∧ InOrder items buttons run.given run.gui.nextWindowId)
    (by rintro _ rfl; exact ⟨[], [], guiInit_is, inOrder_init⟩)
    (by
      rintro before call after ⟨items, buttons, shown, order⟩ ⟨⟨moves, given⟩, keeps⟩
      obtain ⟨others, rest, left, kept⟩ := (moves.outcome shown).inOrder shown order keeps
      rw [← given] at kept
      exact ⟨others, rest, left, kept⟩)
  refine ⟨order.right shown, ?_⟩
  intro call after moves
  exact (moves.outcome shown).inOrder_iff shown order

theorem taskbar_right_iff_terminal : ∃ run, TaskbarMoves ⟨1024, 768⟩ ⟨guiInit, []⟩ (.launch .terminal) run ∧
    TaskbarRight ⟨1024, 768⟩ run := by
  obtain ⟨after, runs⟩ : ∃ after, (GuiCall.launch .terminal).run ⟨1024, 768⟩ guiInit = .ok after := ⟨_, rfl⟩
  have moves : TaskbarMoves ⟨1024, 768⟩ ⟨guiInit, []⟩ (.launch .terminal) ⟨after, granted guiInit after []⟩ :=
    ⟨⟨nofun, runs⟩, rfl⟩
  have keeps : KeepsOrder guiInit (.launch .terminal) := fun _ _ _ _ => rfl
  exact ⟨_, moves, (taskbar_right_iff ⟨1024, 768⟩ (.step (.initial rfl) ⟨moves, keeps⟩)).1⟩

theorem reachable_taskbarRun (reached : Reachable (· = guiInit) (GuiMoves screen) gui) :
    ∃ given, Reachable (· = ⟨guiInit, []⟩) (TaskbarMoves screen) ⟨gui, given⟩ := by
  induction reached with
  | initial starts => exact ⟨[], .initial (by rw [starts])⟩
  | @step before after _ _ moves ih =>
    obtain ⟨given, reached⟩ := ih
    exact ⟨granted before after given, .step reached ⟨moves, rfl⟩⟩

/-- The button of the first of two programs, after that one is raised: a click on it
minimizes the other. -/
theorem taskbar_wrong : ∃ run, Reachable (· = ⟨guiInit, []⟩)
    (TaskbarMoves ⟨1024, 768⟩) run ∧ ¬TaskbarRight ⟨1024, 768⟩ run := by
  have runs : (runGuiCalls ⟨1024, 768⟩ guiInit [.launch .terminal, .launch .textEditor, .focus 0]).bind (fun gui =>
      (guiHandleMouseClick ⟨1024, 768⟩ gui 90 10).toOption.map fun after =>
        (guiGetTaskbarButtonAtPoint ⟨1024, 768⟩ gui 90 10, (shownButtons gui).map (·.windowId),
          (openWindows gui).map fun window => (if window.id = 1 then minimizedWindow window else window).state,
          (openWindows after).map (·.state))) =
      some (some 0, [1, 2], [.normal, .minimized], [.minimized, .normal]) := by decide +kernel
  obtain ⟨gui, ran, clicked⟩ := Option.bind_eq_some_iff.mp runs
  obtain ⟨given, reached⟩ := reachable_taskbarRun (reachable_runGuiCalls (fun _ _ _ _ moves => moves) (.initial rfl) ran)
  refine ⟨_, reached, ?_⟩
  intro right
  obtain ⟨after, click, seen⟩ := Option.map_eq_some_iff.mp clicked
  obtain ⟨hit, names, asked, done⟩ : _ ∧ _ ∧ _ ∧ _ := by simpa only [Prod.mk.injEq] using seen
  obtain ⟨button, -, other, found, -, -, clicks, toggles⟩ := right.clicks 90 10 0 hit
  have first := congrArg (fun ids : List Int => ids[0]?) names
  rw [List.getElem?_map, found] at first
  have named : button.windowId = 1 := Option.some.inj first
  rw [clicks] at click
  cases click
  rw [toggles, List.map_map, named] at done
  cases asked.symm.trans done

end Kernix.Proofs
