import Kernix.Lib.Runs
import Kernix.Proofs.TerminalOutput

/-! The scroll bar of a terminal. The place that is shown stays among the lines and the
thumb on its track as long as no resizing leaves it behind, and a drag needs a track that
is longer than the thumb. -/

namespace Kernix.Proofs

variable {state after : TerminalState} {screenWidth screenBottom : Int}

/-- A place that the GUI allows for a window. -/
structure AllowedWindow (screenWidth screenBottom : Int) extends TerminalWindow where
  wide : 100 ≤ width
  high : 50 ≤ height
  left : 0 ≤ x
  top : 0 ≤ y
  right : x + width ≤ screenWidth
  bottom : y + height ≤ screenBottom

/-- What happens to the scroll bar of a terminal. -/
inductive ScrollStep (screenWidth screenBottom : Int) where
  | draw (window : AllowedWindow screenWidth screenBottom)
  | click (x y : Int)
  | drag (x y : Int)
  | release
  | wheel (delta : Int)

def scrollStep (state : TerminalState) : ScrollStep screenWidth screenBottom → Except Stop TerminalState
  | .draw window => guiTerminalUpdateWindowSize screenBottom state window.toTerminalWindow
  | .click x y => guiTerminalHandleScrollbarClick state x y
  | .drag _ y => guiTerminalHandleScrollbarDrag state y
  | .release => .ok (guiTerminalHandleScrollbarRelease state)
  | .wheel delta => .ok (guiTerminalHandleScroll state delta)

/-- The place that is shown is among the lines, and the thumb on its track. -/
structure ScrollHolds (state : TerminalState) : Prop where
  low : 0 ≤ state.scrollOffset
  high : state.scrollOffset ≤ max 0 (state.outputLineCount - state.windowHeightLines)
  thumb : state.scrollbarVisible = true →
    state.scrollbarY ≤ state.scrollbarThumbY ∧
      state.scrollbarThumbY + state.scrollbarThumbHeight ≤ state.scrollbarY + state.scrollbarHeight

/-- Before a draw the place that is shown has to be among the lines of the new size; a drag
needs a track of more than the least height of the thumb. -/
def ScrollCondition (state : TerminalState) : ScrollStep screenWidth screenBottom → Prop
  | .draw window =>
    state.scrollOffset ≤ max 0 (state.outputLineCount - heightLines screenBottom window.toTerminalWindow)
  | .drag _ _ => state.scrollbarDragging = true → state.scrollbarVisible = true → 20 < state.scrollbarHeight
  | _ => True

/-- A bar that is visible belongs to more lines than are shown, and its thumb fills the track
only where that is too short. -/
structure BarInvariant (state : TerminalState) : Prop where
  more : state.windowHeightLines < state.outputLineCount
  filled : state.scrollbarThumbHeight = state.scrollbarHeight ↔ state.scrollbarHeight ≤ 20

structure ScrollInvariant (state : TerminalState) : Prop where
  holds : ScrollHolds state
  counted : 0 ≤ state.outputLineCount
  bar : state.scrollbarVisible = true → BarInvariant state

section Division

theorem quotient_returns {dividend divisor : Int} (positive : 0 < divisor) (nonneg : 0 ≤ dividend) :
    quotient dividend divisor = .ok (dividend / divisor) := by
  rw [quotient, if_neg (Int.ne_of_gt positive), Int.tdiv_eq_ediv_of_nonneg nonneg]

/-- A part of a length, in the proportion of two numbers. -/
theorem part_bounds {length part whole : Int} (positive : 0 < whole) (nonneg : 0 ≤ length) (low : 0 ≤ part)
    (high : part ≤ whole) : 0 ≤ length * part / whole ∧ length * part / whole ≤ length :=
  ⟨Int.ediv_nonneg (Int.mul_nonneg nonneg low) (Int.le_of_lt positive),
    Int.ediv_le_of_le_mul positive (Int.mul_le_mul_of_nonneg_left high nonneg)⟩

theorem part_lt {length part whole : Int} (positive : 0 < whole) (length_pos : 0 < length) (high : part < whole) :
    length * part / whole < length :=
  Int.ediv_lt_of_lt_mul positive (Int.mul_lt_mul_of_pos_left high length_pos)

end Division

section Drawing

/-- Where the thumb comes to lie. -/
theorem placeThumb_places (tall : 0 < state.scrollbarHeight) (lines : 0 ≤ state.windowHeightLines)
    (more : state.windowHeightLines < state.outputLineCount) (low : 0 ≤ state.scrollOffset)
    (high : state.scrollOffset ≤ state.outputLineCount - state.windowHeightLines) :
    ∃ height y, placeThumb state = .ok { state with scrollbarThumbHeight := height, scrollbarThumbY := y } ∧
      (height = state.scrollbarHeight ↔ state.scrollbarHeight ≤ 20) ∧ state.scrollbarY ≤ y ∧
      y + height ≤ state.scrollbarY + state.scrollbarHeight := by
  have share := part_bounds (show 0 < state.outputLineCount by omega) (Int.le_of_lt tall) lines (Int.le_of_lt more)
  have short := part_lt (show 0 < state.outputLineCount by omega) tall more
  -- the height as it is clamped, whatever the division gave
  obtain ⟨height, clamped, fits, filled⟩ : ∃ height : Int,
      (let height := if state.scrollbarHeight * state.windowHeightLines / state.outputLineCount < 20 then 20
          else state.scrollbarHeight * state.windowHeightLines / state.outputLineCount
        if height > state.scrollbarHeight then state.scrollbarHeight else height) = height ∧
      height ≤ state.scrollbarHeight ∧ (height = state.scrollbarHeight ↔ state.scrollbarHeight ≤ 20) := by
    refine ⟨_, rfl, ?_, ?_⟩ <;> dsimp only <;> split <;> split <;> omega
  have place := part_bounds (show 0 < state.outputLineCount - state.windowHeightLines by omega)
    (show 0 ≤ state.scrollbarHeight - height by omega) low high
  refine ⟨height, _, ?_, filled, Int.le_add_of_nonneg_right place.1, ?_⟩
  · unfold placeThumb
    dsimp only at clamped ⊢
    rw [if_neg (by omega), quotient_returns (by omega) (Int.mul_nonneg (Int.le_of_lt tall) lines)]
    simp only [bind, Except.bind, clamped]
    rw [if_pos (by omega), quotient_returns (by omega) (Int.mul_nonneg (by omega) low)]
    rfl
  · omega

/-- On the screen the whole height counts. -/
theorem effectiveHeight_allowed (window : AllowedWindow screenWidth screenBottom) :
    effectiveHeight screenBottom window.toTerminalWindow = window.height := by
  have high := window.high
  have bottom := window.bottom
  unfold effectiveHeight windowTitleHeight
  dsimp only
  rw [if_neg (by omega), if_neg (by omega)]

theorem heightLines_nonneg (window : AllowedWindow screenWidth screenBottom) :
    0 ≤ heightLines screenBottom window.toTerminalWindow := by
  have high := window.high
  unfold heightLines
  rw [effectiveHeight_allowed]
  dsimp only
  rw [if_pos (by unfold windowTitleHeight; omega)]
  exact Int.tdiv_nonneg (by unfold windowTitleHeight; omega) (by decide)

/-- The bar of a window, without its thumb. -/
def updatedBar (screenBottom : Int) (state : TerminalState) (window : TerminalWindow) : TerminalState :=
  { state with windowWidthChars := if window.width > 10 then (window.width - 10).tdiv charWidth else 1
               windowHeightLines := heightLines screenBottom window
               scrollbarVisible := decide (state.outputLineCount > heightLines screenBottom window)
               scrollbarWidth := 15
               scrollbarHeight := window.height - windowTitleHeight - 10
               scrollbarX := window.x + window.width - 15 - 5
               scrollbarY := window.y + windowTitleHeight + 5 }

/-- A draw makes the bar anew. -/
theorem update_holds (window : AllowedWindow screenWidth screenBottom) (counted : 0 ≤ state.outputLineCount)
    (low : 0 ≤ state.scrollOffset)
    (high : state.scrollOffset ≤ max 0 (state.outputLineCount - heightLines screenBottom window.toTerminalWindow)) :
    ∃ after, guiTerminalUpdateWindowSize screenBottom state window.toTerminalWindow = .ok after ∧ ScrollInvariant after := by
  have lines := heightLines_nonneg window
  unfold guiTerminalUpdateWindowSize
  dsimp only
  by_cases more : state.outputLineCount > heightLines screenBottom window.toTerminalWindow
  · have tall := window.high
    have shown : state.scrollOffset ≤ state.outputLineCount - heightLines screenBottom window.toTerminalWindow := by omega
    rw [if_pos (decide_eq_true more), effectiveHeight_allowed]
    obtain ⟨height, y, places, filled, above, below⟩ := placeThumb_places
      (show 0 < (updatedBar screenBottom state window.toTerminalWindow).scrollbarHeight by
        unfold updatedBar windowTitleHeight
        dsimp only
        omega) lines more low shown
    refine ⟨_, places, ⟨low, high, fun _ => ⟨above, below⟩⟩, counted, fun _ => ⟨more, filled⟩⟩
  · rw [if_neg (by simpa using more)]
    exact ⟨_, rfl, ⟨low, high, fun shown => absurd shown (by simpa using more)⟩, counted,
      fun shown => absurd shown (by simpa using more)⟩

end Drawing

section Handling

theorem scrollTo_returns (invariant : ScrollInvariant state) {position trackHeight : Int} (track : 0 < trackHeight)
    (low : 0 ≤ position) (lines : 0 ≤ state.outputLineCount - state.windowHeightLines) :
    ∃ after, scrollTo state position (state.outputLineCount - state.windowHeightLines) trackHeight = .ok after ∧
      ScrollInvariant after := by
  unfold scrollTo
  rw [quotient_returns track (Int.mul_nonneg low lines)]
  refine ⟨_, rfl, ⟨?_, ?_, invariant.holds.thumb⟩, invariant.counted, fun shown => ?_⟩
  · dsimp only
    split <;> split <;> omega
  · dsimp only
    split <;> split <;> omega
  · exact ⟨(invariant.bar shown).more, (invariant.bar shown).filled⟩

theorem click_returns (invariant : ScrollInvariant state) (x y : Int) :
    ∃ after, guiTerminalHandleScrollbarClick state x y = .ok after ∧ ScrollInvariant after := by
  unfold guiTerminalHandleScrollbarClick
  by_cases shown : state.scrollbarVisible = true
  · rw [if_neg (by simp [shown])]
    by_cases thumb : state.scrollbarX ≤ x ∧ x < state.scrollbarX + state.scrollbarWidth ∧
        state.scrollbarThumbY ≤ y ∧ y < state.scrollbarThumbY + state.scrollbarThumbHeight
    · rw [if_pos thumb]
      have bar := invariant.bar shown
      exact ⟨_, rfl, ⟨invariant.holds.low, invariant.holds.high, invariant.holds.thumb⟩, invariant.counted,
        fun _ => ⟨bar.more, bar.filled⟩⟩
    rw [if_neg thumb]
    by_cases track : state.scrollbarX ≤ x ∧ x < state.scrollbarX + state.scrollbarWidth ∧
        state.scrollbarY ≤ y ∧ y < state.scrollbarY + state.scrollbarHeight
    · have more := (invariant.bar shown).more
      rw [if_pos track]
      dsimp only
      rw [if_pos (by omega)]
      exact scrollTo_returns invariant (by omega) (by omega) (by omega)
    · rw [if_neg track]
      exact ⟨state, rfl, invariant⟩
  · rw [if_pos (by simpa using shown)]
    exact ⟨state, rfl, invariant⟩

/-- A drag of a bar that is visible goes to a place between the ends of the track. -/
theorem drag_eq (invariant : ScrollInvariant state) (y : Int) (dragging : state.scrollbarDragging = true)
    (shown : state.scrollbarVisible = true) :
    ∃ position, 0 ≤ position ∧ guiTerminalHandleScrollbarDrag state y =
      scrollTo state position (state.outputLineCount - state.windowHeightLines)
        (state.scrollbarHeight - state.scrollbarThumbHeight) := by
  have more := (invariant.bar shown).more
  have thumb := invariant.holds.thumb shown
  unfold guiTerminalHandleScrollbarDrag
  rw [if_neg (by simp [dragging, shown])]
  dsimp only
  rw [if_neg (by omega)]
  refine ⟨_, ?_, rfl⟩
  split <;> split <;> omega

theorem drag_returns (invariant : ScrollInvariant state) (y : Int)
    (track : state.scrollbarDragging = true → state.scrollbarVisible = true → 20 < state.scrollbarHeight) :
    ∃ after, guiTerminalHandleScrollbarDrag state y = .ok after ∧ ScrollInvariant after := by
  by_cases dragging : state.scrollbarDragging = true
  · by_cases shown : state.scrollbarVisible = true
    · obtain ⟨position, low, same⟩ := drag_eq invariant y dragging shown
      have bar := invariant.bar shown
      have thumb := invariant.holds.thumb shown
      have more := bar.more
      have apart : state.scrollbarThumbHeight ≠ state.scrollbarHeight := by
        have long := track dragging shown
        exact fun filled => absurd (bar.filled.mp filled) (by omega)
      rw [same]
      exact scrollTo_returns invariant (by omega) low (by omega)
    · refine ⟨state, ?_, invariant⟩
      unfold guiTerminalHandleScrollbarDrag
      rw [if_pos (by simp [shown])]
      rfl
  · refine ⟨state, ?_, invariant⟩
    unfold guiTerminalHandleScrollbarDrag
    rw [if_pos (by simp [dragging])]
    rfl

/-- A drag on a track that the thumb fills divides by zero. -/
theorem drag_filled (invariant : ScrollInvariant state) (y : Int) (dragging : state.scrollbarDragging = true)
    (shown : state.scrollbarVisible = true) (short : state.scrollbarHeight ≤ 20) :
    guiTerminalHandleScrollbarDrag state y = .error .undefined := by
  obtain ⟨position, _, same⟩ := drag_eq invariant y dragging shown
  have filled := (invariant.bar shown).filled.mpr short
  rw [same, filled, Int.sub_self]
  rfl

theorem wheel_holds (invariant : ScrollInvariant state) (delta : Int) :
    ScrollInvariant (guiTerminalHandleScroll state delta) := by
  obtain ⟨⟨low, high, thumb⟩, counted, bar⟩ := invariant
  unfold guiTerminalHandleScroll
  dsimp only
  by_cases up : delta > 0
  · rw [if_pos up]
    refine ⟨⟨?_, ?_, thumb⟩, counted, fun shown => ⟨(bar shown).more, (bar shown).filled⟩⟩
    · dsimp only
      split <;> split <;> omega
    · dsimp only
      split <;> split <;> omega
  · rw [if_neg up]
    refine ⟨⟨?_, ?_, thumb⟩, counted, fun shown => ⟨(bar shown).more, (bar shown).filled⟩⟩
    · dsimp only
      split <;> omega
    · dsimp only
      split <;> omega

end Handling

/-- One step that meets the condition keeps what makes the bar right. -/
theorem scrollStep_keeps (invariant : ScrollInvariant state) (step : ScrollStep screenWidth screenBottom)
    (met : ScrollCondition state step) : ∃ after, scrollStep state step = .ok after ∧ ScrollInvariant after := by
  cases step with
  | draw window => exact update_holds window invariant.counted invariant.holds.low met
  | click x y => exact click_returns invariant x y
  | drag x y => exact drag_returns invariant y met
  | release =>
    refine ⟨_, rfl, ⟨invariant.holds.low, invariant.holds.high, invariant.holds.thumb⟩, invariant.counted, fun shown => ?_⟩
    exact ⟨(invariant.bar shown).more, (invariant.bar shown).filled⟩
  | wheel delta => exact ⟨_, rfl, wheel_holds invariant delta⟩

/-- The lines of a terminal and the place that is shown. -/
def shownPlace (state : TerminalState) : Int × Int × Int :=
  (state.scrollOffset, state.outputLineCount, state.windowHeightLines)

theorem placeThumb_place (places : placeThumb state = .ok after) : shownPlace after = shownPlace state := by
  unfold placeThumb at places
  dsimp only at places
  split at places
  · cases places
    rfl
  · obtain ⟨height, _, places⟩ := bind_ok places
    split at places
    · obtain ⟨offset, _, places⟩ := bind_ok places
      cases places
      rfl
    · cases places
      rfl

theorem update_place {window : TerminalWindow} (draws : guiTerminalUpdateWindowSize screenBottom state window = .ok after) :
    shownPlace after = (state.scrollOffset, state.outputLineCount, heightLines screenBottom window) := by
  unfold guiTerminalUpdateWindowSize at draws
  dsimp only at draws
  split at draws
  · exact placeThumb_place draws
  · cases draws
    rfl

/-- One that does not leaves the lines behind, or does not return. -/
theorem scrollStep_breaks (invariant : ScrollInvariant state) (step : ScrollStep screenWidth screenBottom)
    (missed : ¬ ScrollCondition state step) (moves : scrollStep state step = .ok after) : ¬ ScrollHolds after := by
  cases step with
  | draw window =>
    have place := update_place moves
    simp only [shownPlace, Prod.mk.injEq] at place
    obtain ⟨offset, count, lines⟩ := place
    intro holds
    have high := holds.high
    rw [offset, count, lines] at high
    exact missed high
  | drag x y =>
    simp only [ScrollCondition, not_forall] at missed
    obtain ⟨dragging, shown, short⟩ := missed
    have stops := drag_filled invariant y dragging shown (by omega)
    cases stops.symm.trans moves
  | click x y => exact absurd trivial missed
  | release => exact absurd trivial missed
  | wheel delta => exact absurd trivial missed

/-- From any number of lines and the first drawing on, the steps of the bar return, with the
place that is shown among the lines and the thumb on its track, exactly when no draw finds
that place behind the lines of the new size and no drag is made on a track of at most
twenty points. -/
theorem scrollbar_right_iff (state : TerminalState) (window : AllowedWindow screenWidth screenBottom)
    (steps : List (ScrollStep screenWidth screenBottom)) (counted : 0 ≤ state.outputLineCount)
    (low : 0 ≤ state.scrollOffset)
    (high : state.scrollOffset ≤ max 0 (state.outputLineCount - heightLines screenBottom window.toTerminalWindow)) :
    ∃ drawn, scrollStep state (.draw window) = .ok drawn ∧
      (Runs.Always scrollStep ScrollHolds drawn steps ↔ Runs.Meets scrollStep ScrollCondition drawn steps) := by
  obtain ⟨drawn, draws, invariant⟩ := update_holds window counted low high
  refine ⟨drawn, draws, ?_⟩
  exact Runs.always_iff_meets ScrollInvariant (fun _ invariant => invariant.holds)
    (fun _ step invariant met => scrollStep_keeps invariant step met)
    (fun _ step _ invariant missed moves => scrollStep_breaks invariant step missed moves) invariant

/-- Ten lines in the smallest window. -/
def smallWindow : AllowedWindow 800 600 :=
  ⟨⟨0, 35, 100, 50⟩, by decide, by decide, by decide, by decide, by decide, by decide⟩

/-- A press on the thumb, which is let go at once. -/
def pressSteps : List (ScrollStep 800 600) := [.click 85 65, .release]

theorem scrollbar_right_small :
    ∃ drawn, scrollStep { emptyTerminal with outputLineCount := 10 } (.draw smallWindow) = .ok drawn ∧
      (Runs.Always scrollStep ScrollHolds drawn pressSteps ↔ Runs.Meets scrollStep ScrollCondition drawn pressSteps) :=
  scrollbar_right_iff { emptyTerminal with outputLineCount := 10 } smallWindow pressSteps
    (by decide) (by decide) (by decide)

/-- A press on the thumb and a drag in that window. -/
theorem scrollbar_divides_by_zero :
    [ScrollStep.draw smallWindow, .click 85 65, .drag 85 70].foldlM scrollStep
      { emptyTerminal with outputLineCount := 10 } = .error .undefined := by
  rfl

end Kernix.Proofs
