import Kernix.Proofs.EditedDocuments

/-! The editor of the shell refines a document with a cursor: each of its keys is one
operation of the document, and any sequence of them keeps the rows terminated. -/

namespace Kernix.Proofs

variable {editor : Editor} {document : EditedText}

/-- The count and the cursor lie in the rows, and each line is shorter than its row, so
that a terminator follows it. -/
structure EditorInvariant (editor : Editor) : Prop where
  positive : 1 ≤ editor.lineCount
  most : editor.lineCount ≤ maxLines
  short : ∀ row : Fin maxLines, row.val < editor.lineCount → (text (editor.lines row)).length ≤ maxLineLen - 1
  top : 0 ≤ editor.editCursorY
  bottom : editor.editCursorY < editor.lineCount
  left : 0 ≤ editor.editCursorX
  right : ∀ row : Fin maxLines, row.val = editor.editCursorY → editor.editCursorX ≤ (text (editor.lines row)).length

/-- The lines of the text. -/
def editorLines (editor : Editor) : List (List UInt8) :=
  ((List.finRange maxLines).take editor.lineCount.toNat).map fun row => text (editor.lines row)

/-- The text, its lines joined by newlines. -/
def editorText (editor : Editor) : List UInt8 := [newline].intercalate (editorLines editor)

/-- The keys that edit the text or move the cursor. -/
def TextKey (key : Int) : Prop :=
  32 ≤ key ∧ key ≤ 126 ∨
    key ∈ [keyEnter, keyReturn, keyBackspace, keyDelete, keyUp, keyDown, keyLeft, keyRight]

/-- What a key means for the document. -/
def editDocument (key : Int) (document : EditedText) : EditedText :=
  if key = keyEnter ∨ key = keyReturn then document.splitLine
  else if key = keyBackspace ∨ key = keyDelete then document.delete
  else if key = keyUp then document.moveUp
  else if key = keyDown then document.moveDown
  else if key = keyLeft then document.moveLeft
  else if key = keyRight then document.moveRight
  else document.insert (UInt8.ofNat key.toNat)

/-- Keys pressed one after the other. -/
def pressTextKeys (editor : Editor) : List Int → Except Stop Editor
  | [] => .ok editor
  | key :: keys => do
    let (_, editor) ← keditHandleKey key editor
    pressTextKeys editor keys

/-- What a branch of the editor returns, the call that the key belongs to returns. -/
theorem keditHandleKey_char (editor : Editor) {key : Int} (low : 32 ≤ key) (high : key ≤ 126) :
    keditHandleKey key editor = (do
      let editor ← keditInsertChar editor (UInt8.ofNat key.toNat)
      return (none, editor)) := by
  have other {code : Int} (apart : code < 32 ∨ 126 < code) : ¬key = code := by omega
  rw [keditHandleKey, if_neg (other (.inl (by decide))), if_neg (other (.inl (by decide))),
    if_neg (not_or.mpr ⟨other (.inl (by decide)), other (.inl (by decide))⟩),
    if_neg (not_or.mpr ⟨other (.inl (by decide)), other (.inr (by decide))⟩), if_pos ⟨low, high⟩]

theorem editDocument_char (document : EditedText) {key : Int} (low : 32 ≤ key) (high : key ≤ 126) :
    editDocument key document = document.insert (UInt8.ofNat key.toNat) := by
  have other {code : Int} (apart : code < 32 ∨ 126 < code) : ¬key = code := by omega
  rw [editDocument, if_neg (not_or.mpr ⟨other (.inl (by decide)), other (.inl (by decide))⟩),
    if_neg (not_or.mpr ⟨other (.inl (by decide)), other (.inr (by decide))⟩),
    if_neg (other (.inr (by decide))), if_neg (other (.inr (by decide))), if_neg (other (.inr (by decide))),
    if_neg (other (.inr (by decide)))]

/-- One key is one operation of the document. -/
theorem keditHandleKey_edits (holds : HoldsText editor document) {key : Int} (editing : TextKey key) :
    ∃ after, keditHandleKey key editor = .ok (none, after) ∧ HoldsText after (editDocument key document) := by
  have returns {branch : Except Stop Editor} {changed : EditedText} (edits : ∃ after,
    branch = .ok after ∧ HoldsText after changed) :
      ∃ after, (do let editor ← branch; return ((none : Option KeditCall), editor) : Except Stop _) = .ok (none, after) ∧
        HoldsText after changed := by
    obtain ⟨after, rfl, held⟩ := edits
    exact ⟨after, rfl, held⟩
  rcases editing with ⟨low, high⟩ | control
  · rw [keditHandleKey_char editor low high, editDocument_char document low high]
    exact returns (keditInsertChar_edits holds (char_nonzero low high))
  · simp only [List.mem_cons, List.not_mem_nil, or_false] at control
    rcases control with rfl | rfl | rfl | rfl | rfl | rfl | rfl | rfl
    · exact returns (keditNewLine_edits holds)
    · exact returns (keditNewLine_edits holds)
    · exact returns (keditDeleteChar_edits holds)
    · exact returns (keditDeleteChar_edits holds)
    · exact returns (moveUp_edits holds)
    · exact returns (moveDown_edits holds)
    · exact returns (moveLeft_edits holds)
    · exact returns (moveRight_edits holds)

theorem pressTextKeys_edits (holds : HoldsText editor document) (keys : List Int) (editing : ∀ key ∈ keys, TextKey key) :
    ∃ after, pressTextKeys editor keys = .ok after ∧
      HoldsText after (keys.foldl (fun document key => editDocument key document) document) := by
  induction keys generalizing editor document with
  | nil => exact ⟨editor, rfl, holds⟩
  | cons key keys ih =>
    obtain ⟨middle, handles, held⟩ := keditHandleKey_edits holds (editing key List.mem_cons_self)
    obtain ⟨after, presses, rest⟩ := ih held fun key member => editing key (List.mem_cons_of_mem _ member)
    refine ⟨after, ?_, rest⟩
    rw [pressTextKeys, handles]
    exact presses

/-- A text shorter than its array lies in it. -/
theorem text_lies {size : Nat} {array : Fin size → UInt8} (short : (text array).length < size) :
    TextIs array 0 (text array) := by
  apply textAt_ok
  unfold textAt
  rw [List.drop_zero]
  apply if_pos
  by_contra clean
  have whole : text array = List.ofFn array := by
    rw [text, List.takeWhile_eq_self_iff]
    intro byte member
    simp only [ne_eq, decide_eq_true_eq]
    rintro rfl
    exact clean member
  rw [whole, List.length_ofFn] at short
  exact Nat.lt_irrefl _ short

theorem length_editorLines (most : editor.lineCount ≤ maxLines) :
    (editorLines editor).length = editor.lineCount.toNat := by
  rw [editorLines, List.length_map, List.length_take, List.length_finRange]
  omega

/-- The lines are the texts that the rows hold. -/
theorem rows_lines {texts : List (List UInt8)} (rows : RowsAre editor.lines 0 texts)
    (count : editor.lineCount = (texts.length : Nat)) (most : editor.lineCount ≤ maxLines) :
    editorLines editor = texts := by
  apply List.ext_getElem
  · rw [length_editorLines most]
    omega
  · intro index _ inside
    obtain ⟨fits, lies⟩ := rows.row inside
    simp only [editorLines, List.getElem_map, List.getElem_take, List.getElem_finRange]
    rw [← lies.text_found]
    congr 2
    exact Fin.ext (by simp)

theorem HoldsText.rows (holds : HoldsText editor document) : RowsAre editor.lines 0 document.lines := by
  refine rows_append.mpr ⟨holds.above, ?_⟩
  simp only [List.length_reverse, Nat.zero_add]
  exact ⟨⟨_, holds.line⟩, holds.below⟩

theorem HoldsText.most (holds : HoldsText editor document) : editor.lineCount ≤ maxLines := by
  have count := holds.count
  have low := document.low
  omega

theorem HoldsText.lines_eq (holds : HoldsText editor document) : editorLines editor = document.lines := by
  have count := holds.count
  apply rows_lines holds.rows _ holds.most
  rw [count, document.length_lines]

theorem HoldsText.invariant (holds : HoldsText editor document) : EditorInvariant editor := by
  have count := holds.count
  have row := holds.row
  have column := holds.column
  have inside := document.line.position_le
  have text := holds.line.text_found
  refine ⟨by omega, holds.most, ?_, by omega, by omega, by omega, ?_⟩
  · intro row before
    have length := document.length_lines
    have within : row.val < document.lines.length := by omega
    obtain ⟨fits, lies⟩ := holds.rows.row within
    have fits := lies.fits
    simp only [Nat.zero_add] at lies fits
    rw [lies.text_found]
    exact Nat.le_of_lt_succ fits
  · intro here same
    obtain rfl : here = ⟨document.above.length, document.row_lt⟩ := Fin.ext (by dsimp only; omega)
    rw [text]
    omega

/-- The document that the rows and the cursor show. -/
theorem EditorInvariant.shown (well : EditorInvariant editor) : ∃ document, HoldsText editor document := by
  obtain ⟨positive, most, short, top, bottom, left, right⟩ := well
  have length := length_editorLines most
  have each {index : Nat} (inside : index < (editorLines editor).length) :
      (editorLines editor)[index] = text (editor.lines ⟨index, by omega⟩) := by
    simp [editorLines]
  have narrow {found : List UInt8} (member : found ∈ editorLines editor) : found.length ≤ maxLineLen - 1 := by
    obtain ⟨index, inside, rfl⟩ := List.mem_iff_getElem.mp member
    rw [each inside]
    exact short _ (by dsimp only; omega)
  have rows : RowsAre editor.lines 0 (editorLines editor) := by
    apply rows_of
    intro index inside
    refine ⟨by omega, ?_⟩
    rw [each inside]
    simp only [Nat.zero_add]
    exact text_lies (Nat.lt_succ_of_le (short _ (by dsimp only; omega)))
  obtain ⟨y, here⟩ := Int.eq_ofNat_of_zero_le top
  obtain ⟨x, column⟩ := Int.eq_ofNat_of_zero_le left
  have inside : y < (editorLines editor).length := by omega
  have within := right ⟨y, by omega⟩ here.symm
  have whole : editorLines editor = (editorLines editor).take y ++
    (editorLines editor)[y] :: (editorLines editor).drop (y + 1) := by
    simp
  have front : ((editorLines editor).take y).length = y := List.length_take_of_le (Nat.le_of_lt inside)
  rw [whole, rows_append, front, Nat.zero_add] at rows
  obtain ⟨above, ⟨_, lies⟩, below⟩ := rows
  refine ⟨⟨((editorLines editor).take y).reverse, TextZipper.place x _ (narrow (List.getElem_mem inside)),
    (editorLines editor).drop (y + 1), ?_, ?_, ?_⟩, ?_, ?_, ?_, ?_, ?_, ?_⟩
  · intro other member
    exact narrow (List.mem_of_mem_take (List.mem_reverse.mp member))
  · intro other member
    exact narrow (List.mem_of_mem_drop member)
  · rw [List.length_reverse, front, List.length_drop]
    omega
  · rw [List.reverse_reverse]
    exact above
  · simp only [List.length_reverse, front, TextZipper.text_place]
    exact lies
  · simp only [List.length_reverse, front]
    exact below
  · simp only [List.length_reverse, front, List.length_drop]
    omega
  · simp only [List.length_reverse, front]
    exact here
  · rw [TextZipper.position_place, each inside]
    omega

/-- The document that the editor shows. -/
structure Shows (editor : Editor) (document : EditedText) : Prop where
  wellFormed : EditorInvariant editor
  lines : editorLines editor = document.lines
  text : editorText editor = document.text newline
  row : editor.editCursorY = document.row
  column : editor.editCursorX = document.column

theorem HoldsText.shows (holds : HoldsText editor document) : Shows editor document := by
  refine ⟨holds.invariant, holds.lines_eq, ?_, holds.row, holds.column⟩
  rw [editorText, holds.lines_eq, Document.text]

/-- Any sequence of keys keeps the invariant and is, on the text and the cursor, the sequence
of their operations. -/
theorem edited_text_refines (editor : Editor) (well : EditorInvariant editor) :
    ∃ document, Shows editor document ∧ ∀ keys : List Int, (∀ key ∈ keys, TextKey key) →
      ∃ after, pressTextKeys editor keys = .ok after ∧
        Shows after (keys.foldl (fun document key => editDocument key document) document) := by
  obtain ⟨document, holds⟩ := well.shown
  refine ⟨document, holds.shows, fun keys editing => ?_⟩
  obtain ⟨after, presses, held⟩ := pressTextKeys_edits holds keys editing
  exact ⟨after, presses, held.shows⟩

/-- `cmd_kedit`, on a file that is not there. -/
def openedEditor : Editor := ⟨fun _ _ => 0, 1, 0, 0, fun _ => 0, false⟩

theorem openedEditor_invariant : EditorInvariant openedEditor := by
  have empty (row : Fin maxLines) : text (openedEditor.lines row) = [] := (empty_lies (by decide) rfl).text_found
  refine ⟨by decide, by decide, ?_, by decide, by decide, by decide, ?_⟩
  · intro row _
    rw [empty]
    exact Nat.zero_le _
  · intro row _
    rw [empty]
    decide

/-- "a", a new line, and back to the first one. -/
theorem edited_text_refines_opened :
    ∃ document after, Shows openedEditor document ∧ pressTextKeys openedEditor [0x61, keyEnter, keyUp] = .ok after ∧
      Shows after (([0x61, keyEnter, keyUp] : List Int).foldl
        (fun document key => editDocument key document) document) := by
  obtain ⟨document, shows, presses⟩ := edited_text_refines openedEditor openedEditor_invariant
  obtain ⟨after, pressed, shown⟩ := presses [0x61, keyEnter, keyUp] (by simp [TextKey, keyEnter, keyUp])
  exact ⟨document, after, shows, pressed, shown⟩

end Kernix.Proofs
