import Kernix.Lib.Document
import Kernix.Proofs.EditorRows
import Kernix.Proofs.LineEditing

/-! What the functions of the editor do to its rows is what the operations of a document
do to its lines. -/

namespace Kernix.Proofs

abbrev EditedText := Document UInt8 (maxLineLen - 1) maxLines

variable {editor : Editor} {document : EditedText}

/-- The rows, the count and the cursor are those of the document. -/
structure HoldsText (editor : Editor) (document : EditedText) : Prop where
  above : RowsAre editor.lines 0 document.above.reverse
  line : TextIs (editor.lines ⟨document.above.length, document.row_lt⟩) 0 document.line.text
  below : RowsAre editor.lines (document.above.length + 1) document.below
  count : editor.lineCount = (document.above.length + 1 + document.below.length : Nat)
  row : editor.editCursorY = document.above.length
  column : editor.editCursorX = document.line.position

theorem HoldsText.element (holds : HoldsText editor document) :
    elementAt editor.lines editor.editCursorY = .ok (editor.lines ⟨document.above.length, document.row_lt⟩) := by
  rw [holds.row]
  exact elementAt_eq _ _

theorem HoldsText.length (holds : HoldsText editor document) :
    strLen (editor.lines ⟨document.above.length, document.row_lt⟩) = .ok (document.line.text.length : Int) :=
  strLen_eq holds.line (by decide)

/-- The line at the cursor may change by itself. -/
theorem HoldsText.replace (holds : HoldsText editor document) {changed : EditLine}
    {line : TextZipper UInt8 (maxLineLen - 1)}
    (lies : TextIs changed 0 line.text) :
    ∃ lines, setElement editor.lines editor.editCursorY changed = .ok lines ∧
      ∀ x : Int, x = line.position →
        HoldsText { editor with lines, editCursorX := x, modified := true } { document with line } := by
  refine ⟨Function.update editor.lines ⟨document.above.length, document.row_lt⟩ changed, ?_, ?_⟩
  · rw [holds.row]
    exact setElement_eq _ _ _
  · intro x column
    refine ⟨holds.above.update _ (.inr ?_), ?_, holds.below.update _ (.inl (Nat.lt_succ_self _)), holds.count,
      holds.row, column⟩
    · simp
    · dsimp only
      rw [Function.update_self]
      exact lies

/-- Moving inside the line leaves the text as it is. -/
theorem HoldsText.move (holds : HoldsText editor document) {line : TextZipper UInt8 (maxLineLen - 1)}
    (same : line.text = document.line.text) {x : Int} (column : x = line.position) :
    HoldsText { editor with editCursorX := x } { document with line } := by
  refine ⟨holds.above, ?_, holds.below, holds.count, holds.row, column⟩
  dsimp only
  rw [same]
  exact holds.line

theorem keditInsertChar_edits (holds : HoldsText editor document) {char : UInt8} (nonzero : char ≠ 0) :
    ∃ after, keditInsertChar editor char = .ok after ∧ HoldsText after (document.insert char) := by
  have length := document.line.length_text
  have column := holds.column
  have position : document.line.position = document.line.before.length := rfl
  have full (none : ¬document.line.before.length + document.line.after.length < maxLineLen - 1) :
      document.insert char = document := by
    rw [Document.insert, Document.within, TextZipper.insert_full none]
  unfold keditInsertChar
  by_cases edge : maxLineLen - 1 ≤ editor.editCursorX
  · rw [if_pos edge, full (by omega)]
    exact ⟨editor, rfl, holds⟩
  · rw [if_neg edge, holds.element]
    simp only [bind, Except.bind, holds.length]
    by_cases room : document.line.before.length + document.line.after.length < maxLineLen - 1
    · have fits : (document.line.before.reverse ++ document.line.after).length + 1 < maxInputLen := by
        simp only [List.length_append, List.length_reverse]
        exact Nat.succ_lt_succ room
      obtain ⟨shifted, shifts, lies⟩ := insert_lies holds.line nonzero fits
      have passes : ((document.line.text.length : Int) + 1 - editor.editCursorX).toNat =
        document.line.after.length + 1 := by
        omega
      have here : editor.editCursorX = (document.line.before.reverse.length : Nat) := by
        rw [List.length_reverse]
        omega
      rw [if_neg (by omega), passes]
      unfold TextZipper.text
      rw [shifts, here]
      simp only
      rw [setElement_eq _ (by simp only [List.length_append] at fits; omega)]
      obtain ⟨before, behind⟩ := @TextZipper.insert_room _ _ char _ room
      have inserted : (document.line.insert char).text = document.line.before.reverse ++ char :: document.line.after := by
        rw [TextZipper.text, before, behind]
        simp
      rw [← inserted] at lies
      obtain ⟨lines, sets, rebuilt⟩ := holds.replace lies
      simp only
      rw [sets]
      refine ⟨_, rfl, rebuilt _ ?_⟩
      rw [TextZipper.position, before, List.length_cons, List.length_reverse]
      exact Int.natCast_succ _
    · rw [if_pos (by omega), full room]
      exact ⟨editor, rfl, holds⟩

/-- The character before the cursor goes out of the line. -/
theorem keditDeleteChar_inside (holds : HoldsText editor document) (inside : document.line.before ≠ []) :
    ∃ after, keditDeleteChar editor = .ok after ∧ HoldsText after document.delete := by
  have column := holds.column
  have length := document.line.length_text
  have position : document.line.position = document.line.before.length := rfl
  rw [Document.delete_inside inside, Document.within]
  obtain ⟨item, before, split⟩ := List.exists_cons_of_ne_nil inside
  rw [split, List.length_cons] at position length
  have whole : document.line.text = before.reverse ++ item :: document.line.after := by
    rw [TextZipper.text, split]
    simp
  have deleted : document.line.delete.text = before.reverse ++ document.line.after ∧
      document.line.delete.position = before.length := by
    obtain ⟨above, ⟨_ | ⟨first, others⟩, behind, fits⟩, below, _, _, _⟩ := document
    · cases split
    · cases split
      exact ⟨rfl, rfl⟩
  have lies := holds.line
  rw [whole] at lies
  obtain ⟨closed, closes, left⟩ := closeGap_removes lies
  rw [← deleted.1] at left
  obtain ⟨lines, sets, rebuilt⟩ := holds.replace left
  have here : editor.editCursorX - 1 = (before.reverse.length : Nat) := by
    rw [List.length_reverse]
    omega
  have passes : ((document.line.text.length : Int) - (editor.editCursorX - 1)).toNat =
    document.line.after.length + 1 := by
    omega
  unfold keditDeleteChar
  rw [holds.element]
  simp only [bind, Except.bind, holds.length]
  rw [if_pos (by omega), passes, here, closes]
  simp only
  rw [sets]
  refine ⟨_, rfl, rebuilt _ ?_⟩
  rw [deleted.2, List.length_reverse]

/-- The branch that joins two lines. -/
theorem joinLines_edits (holds : HoldsText editor document) (start : document.line.before = []) {previous : List UInt8}
    {above : List (List UInt8)} (split : document.above = previous :: above) :
    ∃ after, (do
      let before ← elementAt editor.lines (editor.editCursorY - 1)
      let prevLen ← strLen before
      if prevLen + document.line.text.length < maxLineLen - 1 then
        let source ← textAt (editor.lines ⟨document.above.length, document.row_lt⟩) 0
        let joined ← strAppend before source
        let lines ← setElement editor.lines (editor.editCursorY - 1) joined
        let lines ← closeRows (editor.lineCount - 1 - editor.editCursorY).toNat editor.editCursorY lines
        return { editor with lines, lineCount := editor.lineCount - 1, editCursorY := editor.editCursorY - 1,
                             editCursorX := prevLen, modified := true }
      return { editor with modified := true }) = .ok after ∧ HoldsText after document.delete := by
  obtain ⟨_, ⟨_, behind, fits⟩, below, narrowAbove, narrowBelow, low⟩ := document
  cases start
  cases split
  have row := holds.row
  have count := holds.count
  have front := holds.above
  have here : TextIs (editor.lines ⟨above.length + 1, Nat.lt_of_le_of_lt (Nat.le_add_right _ _) low⟩) 0 behind :=
    holds.line
  simp only [List.length_cons] at row count
  rw [List.reverse_cons, rows_append] at front
  obtain ⟨front, ⟨inside, lies⟩, -⟩ := front
  simp only [List.length_reverse, Nat.zero_add] at inside lies
  have up : editor.editCursorY - 1 = (above.length : Nat) := by omega
  rw [up, elementAt_eq _ inside]
  simp only [bind, Except.bind, strLen_eq lies (by decide)]
  by_cases room : previous.length + behind.length < maxLineLen - 1
  · obtain ⟨joined, joins, whole⟩ := strAppend_joins lies here.clean (Nat.lt_of_lt_of_le room (Nat.sub_le _ _))
    have rows : RowsAre (Function.update editor.lines ⟨above.length, inside⟩ joined) (above.length + 1)
        (behind :: below) := by
      have old : RowsAre editor.lines (above.length + 1) (behind :: below) := ⟨⟨_, here⟩, holds.below⟩
      exact old.update joined (.inl (Nat.lt_succ_self _))
    obtain ⟨lines, closes, moved, same⟩ := closeRows_removes rows
    have passes : (editor.lineCount - 1 - editor.editCursorY).toNat = below.length := by omega
    have text : TextZipper.text ⟨[], behind, fits⟩ = behind := rfl
    have found := holds.line.ok
    dsimp only at found
    rw [text] at found ⊢
    rw [if_pos (by omega), found]
    simp only
    rw [joins]
    simp only
    rw [setElement_eq _ inside, passes, row]
    simp only
    rw [closes, Document.delete, dif_pos room]
    refine ⟨_, rfl, ?_, ?_, moved, ?_, rfl, ?_⟩
    · apply front.congr
      intro index _ early
      rw [List.length_reverse, Nat.zero_add] at early
      dsimp only
      rw [same index (by omega)]
      apply Function.update_of_ne
      rw [ne_eq, Fin.ext_iff]
      dsimp only
      omega
    · dsimp only
      rw [same _ (Nat.lt_succ_self _), Function.update_self, TextZipper.text, List.reverse_reverse]
      exact whole
    · dsimp only
      omega
    · rw [TextZipper.position, List.length_reverse]
  · have text : TextZipper.text ⟨[], behind, fits⟩ = behind := rfl
    rw [text, if_neg (by omega), Document.delete, dif_neg room]
    exact ⟨_, rfl, holds.above, holds.line, holds.below, holds.count, holds.row, holds.column⟩

/-- At the start of a line it joins the one above, where both together are short enough. -/
theorem keditDeleteChar_start (holds : HoldsText editor document) (start : document.line.before = []) :
    ∃ after, keditDeleteChar editor = .ok after ∧ HoldsText after document.delete := by
  have column := holds.column
  have position : document.line.position = 0 := by rw [TextZipper.position, start, List.length_nil]
  unfold keditDeleteChar
  rw [holds.element]
  simp only [bind, Except.bind, holds.length]
  rw [if_neg (by omega)]
  by_cases first : document.above = []
  · have row := holds.row
    rw [first, List.length_nil] at row
    rw [if_neg (by omega), Document.delete_first first start]
    exact ⟨_, rfl, holds.above, holds.line, holds.below, holds.count, holds.row, holds.column⟩
  · obtain ⟨previous, above, split⟩ := List.exists_cons_of_ne_nil first
    have row := holds.row
    rw [split, List.length_cons] at row
    rw [if_pos (by omega)]
    exact joinLines_edits holds start split

theorem keditDeleteChar_edits (holds : HoldsText editor document) :
    ∃ after, keditDeleteChar editor = .ok after ∧ HoldsText after document.delete := by
  by_cases start : document.line.before = []
  · exact keditDeleteChar_start holds start
  · exact keditDeleteChar_inside holds start

theorem keditNewLine_edits (holds : HoldsText editor document) :
    ∃ after, keditNewLine editor = .ok after ∧ HoldsText after document.splitLine := by
  have column := holds.column
  have row := holds.row
  have count := holds.count
  have length := holds.length
  have line := holds.line
  have below := holds.below
  have above := holds.above
  have position := document.line.position_le
  unfold keditNewLine
  by_cases full : maxLines ≤ editor.lineCount
  · rw [if_pos full, Document.splitLine, dif_neg (by omega)]
    exact ⟨editor, rfl, holds⟩
  · have room : document.above.length + 1 + document.below.length < maxLines := by omega
    have passes : (editor.lineCount - (editor.editCursorY + 1)).toNat = document.below.length := by omega
    obtain ⟨opened, opens, moved, same⟩ := openRows_moves below room
    have here : TextIs (opened ⟨document.above.length, document.row_lt⟩) 0
        (document.line.before.reverse ++ document.line.after) := by
      rw [same _ (.inl (Nat.le_succ _))]
      exact line
    obtain ⟨cut, rest, splits, front, back⟩ := splitRow_splits (by omega) here
    rw [if_neg full, holds.element]
    simp only [bind, Except.bind, length]
    rw [if_pos (by omega), passes, count, opens]
    simp only
    rw [List.length_reverse] at splits
    rw [column, row, TextZipper.position, splits, Document.splitLine, dif_pos room]
    refine ⟨_, rfl, ?_, ?_, ?_, ?_, ?_, rfl⟩
    · dsimp only
      rw [List.reverse_cons, rows_append]
      refine ⟨?_, ⟨?_, ?_⟩, trivial⟩
      · apply RowsAre.update _ _ (.inr (by simp))
        apply RowsAre.update _ _ (.inr (by simp))
        apply above.congr
        intro index _ early
        rw [List.length_reverse] at early
        exact same index (.inl (by omega))
      · simpa using document.row_lt
      · simp only [List.length_reverse, Nat.zero_add]
        rw [Function.update_of_ne (by simp [Fin.ext_iff]), Function.update_self]
        exact front
    · simp only [List.length_cons, Function.update_self]
      exact back
    · apply RowsAre.update _ _ (.inl (by simp))
      exact moved.update _ (.inl (by dsimp only; omega))
    · simp only [List.length_cons]
      omega
    · simp only [List.length_cons]
      omega

/-- The cursor lands in a row, at most at the end of its text. -/
theorem keditMoveCursor_lands {dx dy : Int} {target : Nat} {found : List UInt8} (inside : target < maxLines)
    (lies : TextIs (editor.lines ⟨target, inside⟩) 0 found)
    (row : (if editor.lineCount ≤ (if editor.editCursorY + dy < 0 then 0 else editor.editCursorY + dy)
      then editor.lineCount - 1 else if editor.editCursorY + dy < 0 then 0 else editor.editCursorY + dy) =
        (target : Int)) :
    keditMoveCursor editor dx dy =
      .ok { editor with
        editCursorX := min (max 0 (editor.editCursorX + dx)) found.length
        editCursorY := target } := by
  unfold keditMoveCursor
  simp only [row]
  rw [elementAt_eq _ inside]
  simp only [bind, Except.bind, strLen_eq lies (by decide), pure, Except.pure]
  congr 2
  split <;> split <;> omega

/-- The cursor stays in its row. -/
theorem keditMoveCursor_along (holds : HoldsText editor document) (dx : Int) :
    keditMoveCursor editor dx 0 =
      .ok { editor with editCursorX := min (max 0 (editor.editCursorX + dx)) document.line.text.length } := by
  have row := holds.row
  have count := holds.count
  have moves := @keditMoveCursor_lands editor dx 0 _ _ document.row_lt holds.line (by split <;> split <;> omega)
  rw [moves, ← row]

theorem moveLeft_edits (holds : HoldsText editor document) :
    ∃ after, keditMoveCursor editor (-1) 0 = .ok after ∧ HoldsText after document.moveLeft := by
  have column := holds.column
  have position := document.line.position_le
  refine ⟨_, keditMoveCursor_along holds (-1), holds.move (TextZipper.text_moveLeft _) ?_⟩
  rw [TextZipper.position_moveLeft]
  omega

theorem moveRight_edits (holds : HoldsText editor document) :
    ∃ after, keditMoveCursor editor 1 0 = .ok after ∧ HoldsText after document.moveRight := by
  have column := holds.column
  refine ⟨_, keditMoveCursor_along holds 1, holds.move (TextZipper.text_moveRight _) ?_⟩
  rw [TextZipper.position_moveRight]
  omega

theorem moveUp_edits (holds : HoldsText editor document) :
    ∃ after, keditMoveCursor editor 0 (-1) = .ok after ∧ HoldsText after document.moveUp := by
  have column := holds.column
  have row := holds.row
  have count := holds.count
  have line := holds.line
  have position := document.line.position_le
  obtain ⟨_ | ⟨previous, above⟩, middle, below, narrowAbove, narrowBelow, low⟩ := document
  all_goals dsimp only at column row count position
  · rw [List.length_nil] at row count
    have stays := @keditMoveCursor_lands editor 0 (-1) _ _ _ line (by dsimp only [List.length_nil]; split <;> split <;> omega)
    refine ⟨_, stays, holds.above, holds.line, holds.below, holds.count, rfl, ?_⟩
    simp only [Document.moveUp]
    omega
  · rw [List.length_cons] at row count
    have rows := holds.above
    rw [List.reverse_cons, rows_append] at rows
    obtain ⟨front, ⟨inside, lies⟩, -⟩ := rows
    simp only [List.length_reverse, Nat.zero_add] at inside lies
    have moves := @keditMoveCursor_lands editor 0 (-1) _ _ _ lies (by split <;> split <;> omega)
    refine ⟨_, moves, front, ?_, ⟨⟨_, line⟩, holds.below⟩, ?_, rfl, ?_⟩
    · simpa [Document.moveUp] using lies
    · simp only [Document.moveUp, List.length_cons]
      omega
    · simp only [Document.moveUp, TextZipper.position_place]
      omega

theorem moveDown_edits (holds : HoldsText editor document) :
    ∃ after, keditMoveCursor editor 0 1 = .ok after ∧ HoldsText after document.moveDown := by
  have column := holds.column
  have row := holds.row
  have count := holds.count
  have line := holds.line
  have position := document.line.position_le
  obtain ⟨above, middle, _ | ⟨next, below⟩, narrowAbove, narrowBelow, low⟩ := document
  all_goals dsimp only at column row count position
  · rw [List.length_nil] at count
    have stays := @keditMoveCursor_lands editor 0 1 _ _ _ line (by dsimp only; split <;> split <;> omega)
    refine ⟨_, stays, holds.above, holds.line, holds.below, holds.count, rfl, ?_⟩
    simp only [Document.moveDown]
    omega
  · rw [List.length_cons] at count
    obtain ⟨⟨inside, lies⟩, rest⟩ := holds.below
    dsimp only at inside lies rest
    have moves := @keditMoveCursor_lands editor 0 1 _ _ _ lies (by split <;> split <;> omega)
    refine ⟨_, moves, ?_, ?_, rest, ?_, rfl, ?_⟩
    · simp only [Document.moveDown, List.reverse_cons]
      refine rows_append.mpr ⟨holds.above, ⟨?_, ?_⟩, trivial⟩
      · simp only [List.length_reverse, Nat.zero_add]
        exact Nat.lt_of_succ_lt inside
      · simp only [List.length_reverse, Nat.zero_add]
        exact line
    · simpa [Document.moveDown] using lies
    · simp only [Document.moveDown, List.length_cons]
      omega
    · simp only [Document.moveDown, TextZipper.position_place]
      omega

end Kernix.Proofs
