import Kernix.Gui.Windows
import Mathlib.Data.List.FinRange
import Mathlib.Data.Set.Lattice
import Mathlib.Order.Bounds.Basic

/-! Marking a region never loses one that was marked before: the dirty rectangles grow,
and when there is no room for another the whole screen is drawn. -/

namespace Kernix.Proofs

/-- A rectangle lies inside another. -/
instance : Preorder DirtyRect where
  le inner outer :=
    (outer.x ≤ inner.x ∧ inner.x + inner.width ≤ outer.x + outer.width) ∧
      outer.y ≤ inner.y ∧ inner.y + inner.height ≤ outer.y + outer.height
  le_refl rect := ⟨⟨Int.le_refl _, Int.le_refl _⟩, Int.le_refl _, Int.le_refl _⟩
  le_trans first second third left right :=
    ⟨⟨right.1.1.trans left.1.1, left.1.2.trans right.1.2⟩, right.2.1.trans left.2.1, left.2.2.trans right.2.2⟩

/-- The points of a rectangle. -/
def rectPoints (rect : DirtyRect) : Set (Int × Int) :=
  {point | (rect.x ≤ point.1 ∧ point.1 < rect.x + rect.width) ∧ rect.y ≤ point.2 ∧ point.2 < rect.y + rect.height}

/-- The first `dirty_rect_count` dirty rectangles. -/
def dirtyRegions (state : DirtyState) : Set DirtyRect :=
  {rect | ∃ i : Fin maxDirtyRects, i.val < state.dirtyRectCount ∧ state.dirtyRects i = rect}

/-- The points that are drawn again with the dirty rectangles. -/
def coveredPoints (state : DirtyState) : Set (Int × Int) := ⋃ rect ∈ dirtyRegions state, rectPoints rect

/-- The count is that of a part of the array. -/
def CountsRects (state : DirtyState) : Prop := 0 ≤ state.dirtyRectCount ∧ state.dirtyRectCount ≤ maxDirtyRects

/-- A marked rectangle will be drawn. -/
def WillDraw (state : DirtyState) (marked : DirtyRect) : Prop :=
  (∃ rect ∈ dirtyRegions state, marked ≤ rect) ∨ state.guiNeedsRedraw = true

/-- Calls of `gui_mark_dirty` one after the other. -/
def markAll (state : DirtyState) : List DirtyRect → Except Stop DirtyState
  | [] => .ok state
  | marked :: marks => do
    let state ← guiMarkDirty state marked
    markAll state marks

variable {state after : DirtyState} {rect marked merged : DirtyRect} {marks : List DirtyRect}

theorem rectPoints_subset (inside : rect ≤ merged) : rectPoints rect ⊆ rectPoints merged := by
  intro point member
  obtain ⟨⟨left, right⟩, top, bottom⟩ := inside
  obtain ⟨⟨left', right'⟩, top', bottom'⟩ := member
  exact ⟨⟨left.trans left', right'.trans_le right⟩, top.trans top', bottom'.trans_le bottom⟩

theorem coveredPoints_mono (kept : IsCofinalFor (dirtyRegions state) (dirtyRegions after)) :
    coveredPoints state ⊆ coveredPoints after := by
  intro point member
  simp only [coveredPoints, Set.mem_iUnion] at member ⊢
  obtain ⟨rect, listed, inside⟩ := member
  obtain ⟨outer, listed', larger⟩ := kept listed
  exact ⟨outer, listed', rectPoints_subset larger inside⟩

section Merging

/-- The merged interval holds both. -/
theorem mergeSpans_holds {position size otherPosition otherSize start length : Int}
    (merges : mergeSpans position size otherPosition otherSize = .ok (start, length)) :
    (start ≤ position ∧ position + size ≤ start + length) ∧
      start ≤ otherPosition ∧ otherPosition + otherSize ≤ start + length := by
  unfold mergeSpans at merges
  obtain ⟨edge, first, merges⟩ := bind_ok merges
  obtain ⟨otherEdge, second, merges⟩ := bind_ok merges
  obtain ⟨length', third, merges⟩ := bind_ok merges
  cases merges
  have edges := intValue_eq first
  have edges' := intValue_eq second
  have lengths := intValue_eq third
  split at lengths <;> split at lengths <;> split <;> omega

theorem mergeRects_holds (merges : mergeRects rect marked = .ok merged) : rect ≤ merged ∧ marked ≤ merged := by
  unfold mergeRects at merges
  obtain ⟨⟨x, width⟩, spans, merges⟩ := bind_ok merges
  obtain ⟨⟨y, height⟩, spans', merges⟩ := bind_ok merges
  cases merges
  have across := mergeSpans_holds spans
  have down := mergeSpans_holds spans'
  exact ⟨⟨across.1, down.1⟩, across.2, down.2⟩

/-- When a rectangle is merged, it is one of those that were searched, and it has grown
around the marked one. -/
theorem mergeDirty_holds {dirtyRects grown : Fin maxDirtyRects → DirtyRect} {left i : Nat}
    (bound : i + left ≤ maxDirtyRects)
    (merges : mergeDirty dirtyRects marked left i = .ok (some grown)) :
    ∃ (j : Fin maxDirtyRects) (merged : DirtyRect), j.val < i + left ∧ grown = Function.update dirtyRects j merged ∧
      dirtyRects j ≤ merged ∧ marked ≤ merged := by
  induction left generalizing i with
  | zero => cases merges
  | succ left ih =>
    have inside : i < maxDirtyRects := by omega
    rw [mergeDirty, elementAt_eq _ inside] at merges
    obtain ⟨rect, found, merges⟩ := bind_ok merges
    obtain ⟨touching, _, merges⟩ := bind_ok merges
    cases found
    cases touching with
    | true =>
      obtain ⟨merged, merging, merges⟩ := bind_ok merges
      rw [setElement_eq _ inside] at merges
      cases merges
      exact ⟨⟨i, inside⟩, merged, by dsimp only; omega, rfl, mergeRects_holds merging⟩
    | false =>
      obtain ⟨j, merged, early, same, larger⟩ := ih (i := i + 1) (by omega) merges
      exact ⟨j, merged, by omega, same, larger⟩

end Merging

section Marking

theorem dirtyRegions_grown {j : Fin maxDirtyRects} (larger : state.dirtyRects j ≤ merged) :
    IsCofinalFor (dirtyRegions state)
      (dirtyRegions { state with dirtyRects := Function.update state.dirtyRects j merged }) := by
  rintro rect ⟨i, early, rfl⟩
  by_cases same : i = j
  · subst same
    exact ⟨merged, ⟨i, early, Function.update_self i merged state.dirtyRects⟩, larger⟩
  · exact ⟨_, ⟨i, early, Function.update_of_ne same merged state.dirtyRects⟩, le_refl _⟩

/-- One call keeps what was marked, and what it marks will be drawn. -/
theorem guiMarkDirty_covers (counts : CountsRects state) (marks : guiMarkDirty state marked = .ok after) :
    CountsRects after ∧ IsCofinalFor (dirtyRegions state) (dirtyRegions after) ∧ WillDraw after marked ∧
      (state.guiNeedsRedraw = true → after.guiNeedsRedraw = true) := by
  obtain ⟨low, high⟩ := counts
  unfold guiMarkDirty at marks
  split at marks
  case isTrue full =>
    cases marks
    exact ⟨⟨low, high⟩, IsCofinalFor.rfl, Or.inr rfl, fun _ => rfl⟩
  case isFalse room =>
    obtain ⟨result, searches, marks⟩ := bind_ok marks
    have searched : (state.dirtyRectCount.toNat : Int) = state.dirtyRectCount := Int.toNat_of_nonneg low
    cases result with
    | some grown =>
      cases marks
      obtain ⟨j, merged, early, rfl, larger, holds⟩ := mergeDirty_holds (i := 0) (by omega) searches
      refine ⟨⟨low, high⟩, dirtyRegions_grown larger,
        Or.inl ⟨merged, ⟨j, ?_, Function.update_self j merged state.dirtyRects⟩, holds⟩, id⟩
      dsimp only
      omega
    | none =>
      have inside : state.dirtyRectCount.toNat < maxDirtyRects := by omega
      rw [← searched, setElement_eq _ inside] at marks
      cases marks
      refine ⟨⟨by dsimp only; omega, by dsimp only; omega⟩, ?_, Or.inl ?_, id⟩
      · rintro rect ⟨i, early, rfl⟩
        have apart : i ≠ ⟨state.dirtyRectCount.toNat, inside⟩ := by
          rw [ne_eq, Fin.ext_iff]
          dsimp only
          omega
        exact ⟨_, ⟨i, by dsimp only; omega, Function.update_of_ne apart _ _⟩, le_refl _⟩
      · exact ⟨marked, ⟨⟨_, inside⟩, by dsimp only; omega, Function.update_self _ _ _⟩, le_refl _⟩

theorem WillDraw.kept (draws : WillDraw state marked) (kept : IsCofinalFor (dirtyRegions state) (dirtyRegions after))
    (redraws : state.guiNeedsRedraw = true → after.guiNeedsRedraw = true) : WillDraw after marked := by
  refine draws.imp ?_ redraws
  rintro ⟨rect, listed, inside⟩
  obtain ⟨outer, listed', larger⟩ := kept listed
  exact ⟨outer, listed', inside.trans larger⟩

/-- What one call keeps, every sequence of calls keeps. -/
theorem markAll_covers (counts : CountsRects state) (runs : markAll state marks = .ok after) :
    CountsRects after ∧ IsCofinalFor (dirtyRegions state) (dirtyRegions after) ∧
      (∀ marked ∈ marks, WillDraw after marked) ∧ (state.guiNeedsRedraw = true → after.guiNeedsRedraw = true) := by
  induction marks generalizing state with
  | nil =>
    cases runs
    exact ⟨counts, IsCofinalFor.rfl, fun _ member => absurd member List.not_mem_nil, id⟩
  | cons first marks ih =>
    obtain ⟨next, marks', runs⟩ := bind_ok runs
    obtain ⟨counts', kept, draws, redraws⟩ := guiMarkDirty_covers counts marks'
    obtain ⟨counted, kept', all, redraws'⟩ := ih counts' runs
    refine ⟨counted, kept.trans kept', ?_, redraws' ∘ redraws⟩
    intro marked member
    obtain rfl | later := List.mem_cons.mp member
    · exact draws.kept kept' redraws'
    · exact all marked later

end Marking

/-- A frame draws a rectangle as a whole. -/
def Draws : Redraw → DirtyRect → Prop
  | .everything, _ => True
  | .regions rects, marked => ∃ rect ∈ rects, marked ≤ rect

/-- The next frame draws what was marked. -/
theorem guiRunRedraw_draws (draws : WillDraw state marked) : Draws (guiRunRedraw state).1 marked := by
  unfold guiRunRedraw
  split
  case isTrue => trivial
  case isFalse quiet =>
    obtain ⟨rect, ⟨i, early, rfl⟩, inside⟩ := draws.resolve_right quiet
    refine ⟨_, List.mem_map_of_mem ?_, inside⟩
    rw [List.mem_take_iff_getElem]
    refine ⟨i.val, ?_, ?_⟩
    · rw [List.length_finRange]
      omega
    · rw [List.getElem_finRange]
      rfl

section Overflow

/-- No distance between two numbers of the interval overflows an `int`, nor does the margin. -/
structure IntWindow (low high : Int) : Prop where
  least : -2 ^ 31 ≤ low
  most : high + 2 < 2 ^ 31
  narrow : high - low < 2 ^ 31

structure SpansIn (low high position size : Int) : Prop where
  start : low ≤ position
  positive : 0 ≤ size
  stop : position + size ≤ high

/-- A part of the plane in which nothing overflows. -/
structure DirtyWindow where
  lowX : Int
  highX : Int
  lowY : Int
  highY : Int
  across : IntWindow lowX highX
  down : IntWindow lowY highY

def LiesIn (window : DirtyWindow) (rect : DirtyRect) : Prop :=
  SpansIn window.lowX window.highX rect.x rect.width ∧ SpansIn window.lowY window.highY rect.y rect.height

variable {low high position size otherPosition otherSize : Int} {window : DirtyWindow}

theorem farEdge_returns (wide : IntWindow low high) (spans : SpansIn low high position size) :
    farEdge position size = .ok (position + size) :=
  intValue_returns (wide.least.trans (spans.start.trans (by have := spans.positive; omega)))
    (spans.stop.trans_lt (by have := wide.most; omega))

theorem reaches_returns (wide : IntWindow low high) (spans : SpansIn low high position size) (first : Int) :
    ∃ result, reaches first position size = .ok result := by
  have ⟨least, most, _⟩ := wide
  have ⟨start, positive, stop⟩ := spans
  unfold reaches
  rw [farEdge_returns wide spans]
  simp only [bind, Except.bind]
  rw [intValue_returns (by omega) (by omega)]
  exact ⟨_, rfl⟩

theorem mergeSpans_returns (wide : IntWindow low high) (spans : SpansIn low high position size)
    (others : SpansIn low high otherPosition otherSize) :
    ∃ start length, mergeSpans position size otherPosition otherSize = .ok (start, length) ∧
      SpansIn low high start length := by
  have ⟨least, most, narrow⟩ := wide
  have ⟨start, positive, stop⟩ := spans
  have ⟨start', positive', stop'⟩ := others
  unfold mergeSpans
  rw [farEdge_returns wide spans, farEdge_returns wide others]
  simp only [bind, Except.bind]
  rw [intValue_returns (by split <;> split <;> omega) (by split <;> split <;> omega)]
  refine ⟨_, _, rfl, ⟨?_, ?_, ?_⟩⟩ <;> split <;> (try split) <;> omega

theorem touches_returns (inside : LiesIn window rect) (inside' : LiesIn window marked) :
    ∃ result, touches rect marked = .ok result := by
  obtain ⟨left, first⟩ := reaches_returns window.across inside'.1 rect.x
  obtain ⟨right, second⟩ := reaches_returns window.across inside.1 marked.x
  obtain ⟨top, third⟩ := reaches_returns window.down inside'.2 rect.y
  obtain ⟨bottom, fourth⟩ := reaches_returns window.down inside.2 marked.y
  unfold touches
  rw [first, second, third, fourth]
  cases left <;> cases right <;> cases top <;> exact ⟨_, rfl⟩

theorem mergeRects_returns (inside : LiesIn window rect) (inside' : LiesIn window marked) :
    ∃ merged, mergeRects rect marked = .ok merged ∧ LiesIn window merged := by
  obtain ⟨x, width, across, left⟩ := mergeSpans_returns window.across inside.1 inside'.1
  obtain ⟨y, height, down, top⟩ := mergeSpans_returns window.down inside.2 inside'.2
  refine ⟨⟨x, y, width, height⟩, ?_, left, top⟩
  unfold mergeRects
  rw [across, down]
  rfl

theorem mergeDirty_returns {dirtyRects : Fin maxDirtyRects → DirtyRect} {left i : Nat} (bound : i + left ≤ maxDirtyRects)
    (inside : ∀ j : Fin maxDirtyRects, j.val < i + left → LiesIn window (dirtyRects j))
    (inside' : LiesIn window marked) :
    ∃ result, mergeDirty dirtyRects marked left i = .ok result ∧
      ∀ grown, result = some grown → ∀ j : Fin maxDirtyRects, j.val < i + left → LiesIn window (grown j) := by
  induction left generalizing i with
  | zero => exact ⟨none, rfl, fun _ found => by cases found⟩
  | succ left ih =>
    have within : i < maxDirtyRects := by omega
    have here := inside ⟨i, within⟩ (by dsimp only; omega)
    obtain ⟨touching, touched⟩ := touches_returns here inside'
    rw [mergeDirty, elementAt_eq _ within]
    simp only [bind, Except.bind, touched]
    cases touching with
    | true =>
      obtain ⟨merged, merges, lies⟩ := mergeRects_returns here inside'
      rw [if_pos rfl, merges]
      simp only
      rw [setElement_eq _ within]
      refine ⟨_, rfl, ?_⟩
      rintro grown ⟨⟩ j early
      by_cases same : j = ⟨i, within⟩
      · subst same
        rwa [Function.update_self]
      · rw [Function.update_of_ne same]
        exact inside j early
    | false =>
      have step : i + 1 + left = i + (left + 1) := by omega
      obtain ⟨result, merges, kept⟩ := ih (i := i + 1) (by omega) (fun j early => inside j (by omega))
      exact ⟨result, merges, fun grown found j early => kept grown found j (by omega)⟩

/-- All the dirty rectangles lie in the window. -/
def RegionsIn (window : DirtyWindow) (state : DirtyState) : Prop := ∀ rect ∈ dirtyRegions state, LiesIn window rect

theorem guiMarkDirty_returns (counts : CountsRects state) (regions : RegionsIn window state)
    (inside : LiesIn window marked) :
    ∃ after, guiMarkDirty state marked = .ok after ∧ RegionsIn window after := by
  obtain ⟨low, high⟩ := counts
  unfold guiMarkDirty
  by_cases full : maxDirtyRects ≤ state.dirtyRectCount
  · rw [if_pos full]
    exact ⟨_, rfl, regions⟩
  · have searched : (state.dirtyRectCount.toNat : Int) = state.dirtyRectCount := Int.toNat_of_nonneg low
    obtain ⟨result, merges, kept⟩ := mergeDirty_returns (show 0 + state.dirtyRectCount.toNat ≤ maxDirtyRects by omega)
      (fun j early => regions _ ⟨j, by omega, rfl⟩) inside
    rw [Int.natCast_zero] at merges
    rw [if_neg full, merges]
    simp only [bind, Except.bind]
    cases result with
    | some grown =>
      refine ⟨_, rfl, ?_⟩
      rintro rect ⟨j, early, rfl⟩
      exact kept grown rfl j (by dsimp only at early; omega)
    | none =>
      have within : state.dirtyRectCount.toNat < maxDirtyRects := by omega
      have set := setElement_eq state.dirtyRects within marked
      rw [searched] at set
      simp only [set]
      refine ⟨_, rfl, ?_⟩
      rintro rect ⟨j, early, rfl⟩
      dsimp only at early ⊢
      by_cases same : j = ⟨state.dirtyRectCount.toNat, within⟩
      · subst same
        rwa [Function.update_self]
      · rw [Function.update_of_ne same]
        rw [Fin.ext_iff] at same
        dsimp only at same
        exact regions _ ⟨j, by omega, rfl⟩

theorem markAll_returns (counts : CountsRects state) (regions : RegionsIn window state)
    (inside : ∀ marked ∈ marks, LiesIn window marked) : ∃ after, markAll state marks = .ok after := by
  induction marks generalizing state with
  | nil => exact ⟨state, rfl⟩
  | cons first marks ih =>
    obtain ⟨here, later⟩ := List.forall_mem_cons.mp inside
    obtain ⟨next, marks', regions'⟩ := guiMarkDirty_returns counts regions here
    obtain ⟨after, runs⟩ := ih (guiMarkDirty_covers counts marks').1 regions' later
    refine ⟨after, ?_⟩
    rw [markAll, marks']
    exact runs

end Overflow

theorem cleared_counts (old : DirtyState) : CountsRects (guiClearDirtyRects old) :=
  ⟨Int.le_refl 0, show (0 : Int) ≤ 32 by decide⟩

theorem cleared_regions (old : DirtyState) : dirtyRegions (guiClearDirtyRects old) = ∅ := by
  apply Set.eq_empty_of_forall_notMem
  rintro rect ⟨i, early, _⟩
  simp only [guiClearDirtyRects] at early
  omega

/-- After the list is cleared, any calls that do not overflow leave every marked rectangle in
one of the list, or the whole screen to be drawn; what was covered stays covered, and no
call overflows while the marks stay in a window. -/
theorem marks_cover (old : DirtyState) :
    (∀ (first more : List DirtyRect) (before after : DirtyState),
      markAll (guiClearDirtyRects old) first = .ok before → markAll before more = .ok after →
      after.dirtyRectCount ≤ maxDirtyRects ∧ (∀ marked ∈ first ++ more, WillDraw after marked) ∧
        coveredPoints before ⊆ coveredPoints after) ∧
    ∀ (window : DirtyWindow) (marks : List DirtyRect), (∀ marked ∈ marks, LiesIn window marked) →
      ∃ after, markAll (guiClearDirtyRects old) marks = .ok after := by
  constructor
  · intro first more before after runs runs'
    obtain ⟨counts, _, draws, _⟩ := markAll_covers (cleared_counts old) runs
    obtain ⟨counts', kept, draws', redraws⟩ := markAll_covers counts runs'
    refine ⟨counts'.2, ?_, coveredPoints_mono kept⟩
    intro marked member
    obtain early | late := List.mem_append.mp member
    · exact (draws marked early).kept kept redraws
    · exact draws' marked late
  · intro window marks inside
    have none : RegionsIn window (guiClearDirtyRects old) := by
      intro rect member
      rw [cleared_regions] at member
      exact absurd member (Set.notMem_empty rect)
    exact markAll_returns (cleared_counts old) none inside

/-- Two rectangles that touch on a cleared list. -/
theorem marks_cover_two :
    ∃ after, markAll (guiClearDirtyRects ⟨fun _ => ⟨0, 0, 0, 0⟩, 7, false⟩) [⟨10, 20, 30, 40⟩,
      ⟨35, 50, 30, 40⟩] = .ok after ∧
      WillDraw after ⟨35, 50, 30, 40⟩ := by
  obtain ⟨covers, returns⟩ := marks_cover ⟨fun _ => ⟨0, 0, 0, 0⟩, 7, false⟩
  obtain ⟨after, runs⟩ := returns ⟨0, 1000, 0, 1000, ⟨by decide, by decide, by decide⟩, ⟨by decide, by decide, by decide⟩⟩
    [⟨10, 20, 30, 40⟩, ⟨35, 50, 30, 40⟩] (by
      intro marked member
      obtain rfl | rfl : marked = ⟨10, 20, 30, 40⟩ ∨ marked = ⟨35, 50, 30, 40⟩ := by simpa using member
      · exact ⟨⟨by decide, by decide, by decide⟩, ⟨by decide, by decide, by decide⟩⟩
      · exact ⟨⟨by decide, by decide, by decide⟩, ⟨by decide, by decide, by decide⟩⟩)
  exact ⟨after, runs, (covers _ [] after after runs rfl).2.1 _ (by simp)⟩

end Kernix.Proofs
