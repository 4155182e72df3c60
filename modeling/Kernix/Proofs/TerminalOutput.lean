import Kernix.Gui.Terminal
import Kernix.Lib.Pieces
import Kernix.Proofs.BlockStrings

/-! What the terminal of the GUI shows: the last hundred of its lines, with the pieces of
what is printed behind the lines that were there. -/

namespace Kernix.Proofs
open Pieces

/-- A line and its colour. -/
abbrev TerminalLine := List UInt8 × UInt32

variable {state after : TerminalState} {lines : List TerminalLine} {line : List UInt8} {color : UInt32}
  {buffer : Fin guiOutputLines → OutputRow} {colors : Fin guiOutputLines → UInt32}

/-- A row holds a line. -/
def RowIs (buffer : Fin guiOutputLines → OutputRow) (colors : Fin guiOutputLines → UInt32) (index : Nat)
    (line : TerminalLine) : Prop :=
  ∃ inside : index < guiOutputLines, TextIs (buffer ⟨index, inside⟩) 0 line.1 ∧ colors ⟨index, inside⟩ = line.2

/-- The first rows hold the lines. -/
structure OutputIs (state : TerminalState) (lines : List TerminalLine) : Prop where
  fits : lines.length ≤ guiOutputLines
  count : state.outputLineCount = lines.length
  rows : ∀ (index : Nat) (line : TerminalLine), lines[index]? = some line →
    RowIs state.outputBuffer state.outputColors index line

/-- A terminal without its lines and the place that is shown. -/
def withoutOutput (state : TerminalState) : TerminalState :=
  { state with outputBuffer := fun _ _ => 0, outputColors := fun _ => 0, outputLineCount := 0, scrollOffset := 0 }

/-- Nothing but the lines has changed, and the place that is shown. -/
def OnlyOutput (state after : TerminalState) : Prop := withoutOutput after = withoutOutput state

theorem OnlyOutput.trans {middle : TerminalState} (first : OnlyOutput state middle) (second : OnlyOutput middle after) :
    OnlyOutput state after :=
  Eq.trans second first

theorem OnlyOutput.width (only : OnlyOutput state after) : after.windowWidthChars = state.windowWidthChars := by
  unfold OnlyOutput at only
  have same := congrArg TerminalState.windowWidthChars only
  exact same

/-- A terminal that shows nothing, four characters wide. -/
def emptyTerminal : TerminalState :=
  { inputPos := 0, outputBuffer := fun _ _ => 0, outputColors := fun _ => 0, outputLineCount := 0, windowWidthChars := 4
    windowHeightLines := 25, scrollOffset := 0, scrollbarVisible := false, scrollbarX := 0, scrollbarY := 0
    scrollbarWidth := 0, scrollbarHeight := 0, scrollbarThumbY := 0, scrollbarThumbHeight := 0
    scrollbarDragging := false, scrollbarDragStartY := 0 }

section Lines

theorem RowIs.kept {index other : Nat} {line : TerminalLine} (holds : RowIs buffer colors index line)
    (inside : other < guiOutputLines) (apart : index ≠ other) (row : OutputRow) (color : UInt32) :
    RowIs (Function.update buffer ⟨other, inside⟩ row) (Function.update colors ⟨other, inside⟩ color) index line := by
  obtain ⟨fits, lies, shade⟩ := holds
  have other' : (⟨index, fits⟩ : Fin guiOutputLines) ≠ ⟨other, inside⟩ := by simpa [Fin.ext_iff] using apart
  exact ⟨fits, by rwa [Function.update_of_ne other'], by rwa [Function.update_of_ne other']⟩

theorem RowIs.put {index : Nat} (inside : index < guiOutputLines) {row : OutputRow} (lies : TextIs row 0 line) :
    RowIs (Function.update buffer ⟨index, inside⟩ row) (Function.update colors ⟨index, inside⟩ color) index (line,
      color) :=
  ⟨inside, by rwa [Function.update_self], Function.update_self _ _ _⟩

/-- Each line moves into the row above. -/
theorem scrollLines_moves (state : TerminalState) (shown : Nat → TerminalLine) (left i : Nat)
    (inside : i + left < guiOutputLines)
    (rows : ∀ j, i < j → j ≤ i + left → RowIs state.outputBuffer state.outputColors j (shown j)) :
    ∃ after, scrollLines state left i = .ok after ∧ OnlyOutput state after ∧
      (∀ j, i ≤ j → j < i + left → RowIs after.outputBuffer after.outputColors j (shown (j + 1))) ∧
      ∀ j line, j < i → RowIs state.outputBuffer state.outputColors j line →
        RowIs after.outputBuffer after.outputColors j line := by
  induction left generalizing state i with
  | zero => exact ⟨state, rfl, rfl, fun j low high => absurd high (by omega), fun _ _ _ holds => holds⟩
  | succ left ih =>
    obtain ⟨fits, lies, shade⟩ := rows (i + 1) (by omega) (by omega)
    have here : i < guiOutputLines := by omega
    obtain ⟨row, copies, text⟩ := strCopyRow_copies here fits lies
    have next : (i : Int) + 1 = ((i + 1 : Nat) : Int) := by omega
    obtain ⟨after, scrolls, only, moved, front⟩ :=
      ih { state with outputBuffer := Function.update state.outputBuffer ⟨i, here⟩ row
                      outputColors := Function.update state.outputColors ⟨i, here⟩ (shown (i + 1)).2 }
        (i + 1) (by omega) (by
          intro j low high
          exact (rows j (by omega) (by omega)).kept here (by omega) row _)
    refine ⟨after, ?_, only, ?_, ?_⟩
    · rw [scrollLines, next]
      simp only [bind, Except.bind]
      rw [← Int.natCast_zero, copies]
      simp only [elementAt_eq _ fits, setElement_eq _ here, shade]
      exact scrolls
    · intro j low high
      obtain rfl | later := Nat.eq_or_lt_of_le low
      · exact front i _ (Nat.lt_succ_self i) (RowIs.put here text)
      · exact moved j later (by omega)
    · intro j line early holds
      exact front j line (by omega) (holds.kept here (by omega) row _)

/-- A full buffer loses its first line, and another keeps all. -/
theorem makeRoom_drops (shown : OutputIs state lines) :
    ∃ after kept, makeRoom state = .ok after ∧ OnlyOutput state after ∧ OutputIs after kept ∧
      kept.length < guiOutputLines ∧ ∀ line, (lines ++ [line]).rtake guiOutputLines = kept ++ [line] := by
  have fits := shown.fits
  unfold makeRoom
  by_cases room : lines.length < guiOutputLines
  · rw [if_pos (by rw [shown.count]; omega)]
    refine ⟨state, lines, rfl, rfl, shown, room, fun line => rtake_of_length_le ?_⟩
    rw [List.length_append, List.length_singleton]
    omega
  · have full : lines.length = guiOutputLines := by omega
    obtain ⟨after, scrolls, only, moved, _⟩ := scrollLines_moves state (fun j => lines.getD j ([], 0))
      (guiOutputLines - 1) 0 (by decide) (by
        intro j low high
        apply shown.rows
        rw [List.getD_eq_getElem?_getD, List.getElem?_eq_getElem (by omega)]
        rfl)
    refine ⟨{ after with outputLineCount := guiOutputLines - 1 }, lines.tail, ?_, only, ⟨?_, ?_, ?_⟩, ?_, ?_⟩
    · rw [if_neg (by rw [shown.count]; omega)]
      simp only [bind, Except.bind]
      rw [← Int.natCast_zero, scrolls]
      rfl
    · rw [List.length_tail]
      omega
    · simp only [List.length_tail, full]
      rfl
    · intro index line found
      have place := (List.getElem?_eq_some_iff.mp found).1
      rw [List.length_tail] at place
      have row := moved index (Nat.zero_le _) (by omega)
      rw [List.getElem?_tail] at found
      rwa [List.getD_eq_getElem?_getD, found] at row
    · rw [List.length_tail, full]
      decide
    · exact fun line => rtake_concat_full full (by decide) line

/-- A line comes behind the others, cut to what a row holds. -/
theorem guiTerminalAddLine_adds (shown : OutputIs state lines) (clean : 0 ∉ line) (color : UInt32) :
    ∃ after, guiTerminalAddLine state line color = .ok after ∧ OnlyOutput state after ∧ after.scrollOffset = 0 ∧
      OutputIs after ((lines ++ [(line.take (guiOutputCols - 1), color)]).rtake guiOutputLines) := by
  obtain ⟨room, kept, makes, only, holds, few, last⟩ := makeRoom_drops shown
  have short : 0 + (line.take (guiOutputCols - 1)).length < guiOutputCols := by
    rw [Nat.zero_add]
    exact (List.length_take_le _ line).trans_lt (by decide)
  have clean' : 0 ∉ line.take (guiOutputCols - 1) := fun zero => clean (List.mem_of_mem_take zero)
  obtain ⟨row, copies⟩ := strCopyFrom_returns (room.outputBuffer ⟨kept.length, few⟩) short
  have lies := (strCopyFrom_copied clean' copies).lies clean'
  unfold guiTerminalAddLine
  rw [makes, last]
  simp only [bind, Except.bind, holds.count, elementAt_eq _ few, strCopy, copies, setElement_eq _ few]
  refine ⟨_, rfl, only, rfl, ⟨?_, ?_, ?_⟩⟩
  · rw [List.length_append, List.length_singleton]
    omega
  · simp
  · intro index other found
    by_cases early : index < kept.length
    · rw [List.getElem?_append_left early] at found
      exact (holds.rows index other found).kept few (by omega) row color
    · obtain ⟨bound, value⟩ := List.getElem?_eq_some_iff.mp found
      rw [List.length_append, List.length_singleton] at bound
      obtain rfl : index = kept.length := by omega
      rw [List.getElem_append_right (Nat.le_refl _)] at value
      simp only [Nat.sub_self, List.getElem_singleton] at value
      subst value
      exact RowIs.put few lies

end Lines

section Printing

variable {currentLine : CurrentLine} {segment : List UInt8} {width : Nat}

/-- The first bytes of a buffer are a text, whatever is behind it. -/
structure StartsWith (currentLine : CurrentLine) (segment : List UInt8) : Prop where
  fits : segment.length < maxLineLength
  bytes : ∀ index (inside : index < segment.length), currentLine ⟨index, inside.trans fits⟩ = segment[index]

/-- The piece that is copied out of a line. -/
theorem copyPiece_copies (starts : StartsWith currentLine segment) {pos left i : Nat} (line : CurrentLine)
    (inside : pos + i + left ≤ segment.length) :
    ∃ after, copyPiece currentLine pos left i line = .ok after ∧
      (∀ index (within : index < left), after ⟨i + index, by have := starts.fits; omega⟩ = segment[pos + i + index]) ∧
      ∀ index : Fin maxLineLength, index.val < i → after index = line index := by
  have fits := starts.fits
  induction left generalizing i line with
  | zero => exact ⟨line, rfl, fun index within => absurd within (Nat.not_lt_zero _), fun _ _ => rfl⟩
  | succ left ih =>
    have here : pos + i < maxLineLength := by omega
    have place : i < maxLineLength := by omega
    obtain ⟨after, copies, bytes, front⟩ :=
      ih (i := i + 1) (Function.update line ⟨i, place⟩ (currentLine ⟨pos + i, here⟩)) (by omega)
    refine ⟨after, ?_, ?_, ?_⟩
    · have cast : (pos : Int) + i = ((pos + i : Nat) : Int) := by omega
      rw [copyPiece, cast, elementAt_eq _ here]
      simp only [bind, Except.bind]
      rw [setElement_eq _ place]
      exact copies
    · intro index within
      cases index with
      | zero =>
        simp only [Nat.add_zero]
        rw [front ⟨i, place⟩ (Nat.lt_succ_self i), Function.update_self]
        exact starts.bytes (pos + i) (by omega)
      | succ index =>
        have byte := bytes index (by omega)
        simpa only [Nat.add_assoc, Nat.add_comm 1 index] using byte
    · intro index early
      rw [front index (by omega)]
      exact Function.update_of_ne (by simp only [ne_eq, Fin.ext_iff]; omega) _ _

/-- A piece with its terminator is a string. -/
theorem copyPiece_text (starts : StartsWith currentLine segment) (clean : 0 ∉ segment) (pos len : Nat)
    (inside : pos + len ≤ segment.length) :
    ∃ copied line, copyPiece currentLine pos len 0 (fun _ => 0) = .ok copied ∧ setElement copied len 0 = .ok line ∧
      textAt line 0 = .ok ((segment.drop pos).take len) := by
  have fits := starts.fits
  have room : len < maxLineLength := by omega
  obtain ⟨copied, copies, bytes, _⟩ := copyPiece_copies starts (i := 0) (fun _ => 0) inside
  have length : ((segment.drop pos).take len).length = len := by
    rw [List.length_take, List.length_drop]
    omega
  have lies : TextIs (Function.update copied ⟨len, room⟩ 0) 0 ((segment.drop pos).take len) := by
    refine ⟨by omega, ?_, ?_, fun zero => clean (List.mem_of_mem_drop (List.mem_of_mem_take zero))⟩
    · intro index within
      rw [length] at within
      have byte := bytes index within
      simp only [Nat.zero_add, Nat.add_zero] at byte ⊢
      rw [Function.update_of_ne (by simp only [ne_eq, Fin.ext_iff]; omega), byte, List.getElem_take, List.getElem_drop]
    · simp only [Nat.zero_add, length]
      exact Function.update_self _ _ _
  exact ⟨copied, _, by simpa using copies, setElement_eq _ room _, lies.ok⟩

/-- The pieces of a text, all in one colour. -/
def colored (color : UInt32) (width : Nat) (segment : List UInt8) : List TerminalLine :=
  (pieces width segment).map fun piece => (piece, color)

theorem OutputIs.unscrolled (shown : OutputIs state lines) : OutputIs state (lines.rtake guiOutputLines) := by
  rwa [rtake_of_length_le shown.fits]

/-- Each pass of the loop takes one piece, until none is left. -/
theorem printPieces_prints (color : UInt32) (shown : OutputIs state lines) (starts : StartsWith currentLine segment)
    (clean : 0 ∉ segment) (wide : state.windowWidthChars = width) (positive : 0 < width) (narrow : width < guiOutputCols)
    (passes pos : Nat) (inside : pos ≤ segment.length) (enough : segment.length < pos + passes) :
    ∃ after, printPieces currentLine segment.length color passes pos state = .ok after ∧ OnlyOutput state after ∧
      OutputIs after ((lines ++ colored color width (segment.drop pos)).rtake guiOutputLines) := by
  induction passes generalizing pos state lines with
  | zero => omega
  | succ passes ih =>
    rw [printPieces]
    by_cases more : pos < segment.length
    · have length : (if (segment.length : Int) - pos > state.windowWidthChars then state.windowWidthChars
          else (segment.length : Int) - pos) = (min width (segment.length - pos) : Nat) := by
        rw [wide]
        split <;> omega
      have piece : (segment.drop pos).take (min width (segment.length - pos)) = (segment.drop pos).take width := by
        rw [← List.length_drop, List.take_eq_take_iff]
        omega
      have rest : segment.drop (pos + min width (segment.length - pos)) = (segment.drop pos).drop width := by
        rw [List.drop_drop, List.drop_eq_drop_iff]
        omega
      have whole : ((segment.drop pos).take width).take (guiOutputCols - 1) = (segment.drop pos).take width := by
        apply List.take_of_length_le
        have bound := List.length_take_le width (segment.drop pos)
        omega
      have clean' : 0 ∉ (segment.drop pos).take width :=
        fun zero => clean (List.mem_of_mem_drop (List.mem_of_mem_take zero))
      obtain ⟨copied, line, copies, ends, text⟩ :=
        copyPiece_text starts clean pos (min width (segment.length - pos)) (by omega)
      obtain ⟨next, adds, only, _, shown'⟩ := guiTerminalAddLine_adds shown clean' color
      obtain ⟨after, prints, only', shown''⟩ := ih shown' (only.width.trans wide)
        (pos + min width (segment.length - pos)) (by omega) (by omega)
      refine ⟨after, ?_, only.trans only', ?_⟩
      · rw [piece] at text
        have step : (pos : Int) + (min width (segment.length - pos) : Nat) =
            ((pos + min width (segment.length - pos) : Nat) : Int) := by omega
        rw [if_pos (by omega), length]
        simp only [bind, Except.bind, Int.toNat_natCast, copies, ends, text, adds, step]
        exact prints
      · rw [rtake_append, rest, whole, List.append_assoc] at shown''
        rwa [colored, pieces_cons positive (by rw [List.length_drop]; omega), List.map_cons]
    · have done : segment.drop pos = [] := List.drop_eq_nil_of_le (by omega)
      rw [if_neg (by omega), done, colored, pieces_nil, List.map_nil, List.append_nil]
      exact ⟨state, rfl, rfl, shown.unscrolled⟩

theorem StartsWith.put (starts : StartsWith currentLine segment) (value : UInt8) :
    StartsWith (Function.update currentLine ⟨segment.length, starts.fits⟩ value) segment := by
  refine ⟨starts.fits, ?_⟩
  intro index inside
  rw [Function.update_of_ne (by simp only [ne_eq, Fin.ext_iff]; omega)]
  exact starts.bytes index inside

theorem StartsWith.grown (starts : StartsWith currentLine segment) {value : UInt8}
    (fits : (segment ++ [value]).length < maxLineLength) :
    StartsWith (Function.update currentLine ⟨segment.length, starts.fits⟩ value) (segment ++ [value]) := by
  refine ⟨fits, ?_⟩
  intro index inside
  rw [List.length_append, List.length_singleton] at inside
  by_cases last : index = segment.length
  · subst last
    simp
  · rw [Function.update_of_ne (by simpa [Fin.ext_iff] using last), starts.bytes index (by omega),
      List.getElem_append_left (by omega)]

theorem printLine_prints (color : UInt32) (shown : OutputIs state lines) (starts : StartsWith currentLine segment)
    (clean : 0 ∉ segment) (wide : state.windowWidthChars = width) (positive : 0 < width)
    (narrow : width < guiOutputCols) :
    ∃ ended after, printLine currentLine segment.length color state = .ok (ended, after) ∧ OnlyOutput state after ∧
      OutputIs after ((lines ++ colored color width segment).rtake guiOutputLines) := by
  obtain ⟨after, prints, only, shown'⟩ := printPieces_prints color shown (starts.put 0) clean wide positive narrow
    (segment.length + 1) 0 (Nat.zero_le _) (by omega)
  refine ⟨Function.update currentLine ⟨segment.length, starts.fits⟩ 0, after, ?_, only, shown'⟩
  unfold printLine
  rw [setElement_eq _ starts.fits]
  simp only [bind, Except.bind, Int.toNat_natCast]
  rw [← Int.natCast_zero, prints]
  rfl

/-- The first part of a text goes at least as far as what has no newline in it. -/
theorem splitOn_front {front : List UInt8} (unbroken : 0x0A ∉ front) (text : List UInt8) :
    ∃ part parts, (front ++ text).splitOn 0x0A = part :: parts ∧ front.length ≤ part.length := by
  induction front with
  | nil =>
    cases split : text.splitOn 0x0A with
    | nil => exact absurd split (List.splitOn_ne_nil _ _)
    | cons part parts => exact ⟨part, parts, split, Nat.zero_le _⟩
  | cons char front ih =>
    obtain ⟨other, rest⟩ := not_or.mp (fun either => unbroken (List.mem_cons.mpr either))
    obtain ⟨part, parts, split, long⟩ := ih rest
    refine ⟨char :: part, parts, ?_, Nat.succ_le_succ long⟩
    rw [List.cons_append, List.splitOn_cons_eq_if_modifyHead, split, if_neg (by simpa using Ne.symm other),
      List.modifyHead_cons]

theorem startsWith_nil (currentLine : CurrentLine) : StartsWith currentLine [] :=
  ⟨by decide, fun index inside => absurd inside (Nat.not_lt_zero index)⟩

/-- The lines of a text, behind the part of one that was read before. -/
theorem printFrom_prints (color : UInt32) (shown : OutputIs state lines) (starts : StartsWith currentLine segment)
    (unbroken : 0x0A ∉ segment) (text : List UInt8) (clean : 0 ∉ segment ++ text)
    (wide : state.windowWidthChars = width) (positive : 0 < width) (narrow : width < guiOutputCols)
    (short : ∀ part ∈ (segment ++ text).splitOn 0x0A, part.length < maxLineLength) :
    ∃ ended after, printFrom color currentLine segment.length state text = .ok (ended, after) ∧ OnlyOutput state after ∧
      OutputIs after
        ((lines ++ ((segment ++ text).splitOn 0x0A).flatMap (colored color width)).rtake guiOutputLines) := by
  induction text generalizing currentLine segment state lines with
  | nil =>
    rw [List.append_nil] at clean
    rw [List.append_nil, List.splitOn_eq_singleton unbroken, List.flatMap_singleton, printFrom]
    by_cases empty : segment = []
    · subst empty
      rw [if_neg (by simp), colored, pieces_nil, List.map_nil, List.append_nil]
      exact ⟨currentLine, state, rfl, rfl, shown.unscrolled⟩
    · rw [if_pos (by have := List.length_pos_iff.mpr empty; omega)]
      exact printLine_prints color shown starts clean wide positive narrow
  | cons char text ih =>
    rw [printFrom]
    by_cases newline : char = 0x0A
    · subst newline
      rw [List.splitOn_append_cons_self, List.splitOn_eq_singleton unbroken] at short ⊢
      simp only [List.mem_append, List.mem_cons, not_or] at clean
      obtain ⟨ended, next, prints, only, shown'⟩ := printLine_prints color shown starts clean.1 wide positive narrow
      obtain ⟨ended', after, prints', only', shown''⟩ := ih shown' (startsWith_nil ended) List.not_mem_nil
        (by simpa using clean.2.2) (only.width.trans wide)
          (fun part member => short part (List.mem_append_right _ member))
      refine ⟨ended', after, ?_, only.trans only', ?_⟩
      · rw [if_pos rfl, prints]
        exact prints'
      · rw [rtake_append, List.append_assoc] at shown''
        exact shown''
    · have grown : segment ++ char :: text = (segment ++ [char]) ++ text := by
        rw [List.append_assoc, List.singleton_append]
      have unbroken' : 0x0A ∉ segment ++ [char] := by
        simp only [List.mem_append, List.mem_singleton, not_or]
        exact ⟨unbroken, Ne.symm newline⟩
      rw [grown] at clean short ⊢
      obtain ⟨part, parts, split, long⟩ := splitOn_front unbroken' text
      have fits : (segment ++ [char]).length < maxLineLength :=
        long.trans_lt (short part (by rw [split]; exact List.mem_cons_self))
      obtain ⟨ended, after, prints, only, shown'⟩ := ih shown (starts.grown fits) unbroken' clean wide short
      refine ⟨ended, after, ?_, only, shown'⟩
      rw [if_neg newline, setElement_eq _ starts.fits, ← prints]
      simp only [bind, Except.bind, List.length_append, List.length_singleton, Int.natCast_add]
      rfl

end Printing

/-- What is printed comes behind the lines of the terminal, cut at its newlines and into
pieces as wide as the window, and the last hundred lines stay. -/
theorem guiTerminalPrint_prints (currentLine : CurrentLine) (state : TerminalState) (lines : List TerminalLine)
    (text : List UInt8) (color : UInt32) (width : Nat) (shown : OutputIs state lines)
    (wide : state.windowWidthChars = width) (positive : 1 ≤ width) (narrow : width ≤ 255) (clean : 0 ∉ text)
    (short : ∀ segment ∈ text.splitOn 0x0A, segment.length < maxLineLength) :
    ∃ ended after, guiTerminalPrint currentLine state text color = .ok (ended, after) ∧ OnlyOutput state after ∧
      OutputIs after ((lines ++ (text.splitOn 0x0A).flatMap (colored color width)).rtake guiOutputLines) ∧
      ∀ segment : List UInt8, ((colored color width segment).map Prod.fst).flatten = segment ∧
        ∀ piece ∈ colored color width segment, piece.1.length ≤ width := by
  obtain ⟨ended, after, prints, only, shown'⟩ := printFrom_prints color shown (startsWith_nil currentLine)
    List.not_mem_nil text clean wide positive (Nat.lt_succ_of_le narrow) short
  refine ⟨ended, after, prints, only, shown', ?_⟩
  intro segment
  constructor
  · rw [colored, List.map_map]
    exact (congrArg List.flatten (List.map_id _)).trans (flatten_pieces positive segment)
  · intro piece member
    obtain ⟨inner, inside, rfl⟩ := List.mem_map.mp member
    exact length_pieces_le inside

/-- Two lines in a window of four characters. -/
theorem guiTerminalPrint_prints_two :
    ∃ ended after, guiTerminalPrint (fun _ => 0) emptyTerminal (literal "kernix\n\nos") 7 = .ok (ended, after) ∧
      OutputIs after [(literal "kern", 7), (literal "ix", 7), (literal "os", 7)] := by
  have shown : OutputIs emptyTerminal [] := ⟨by decide, rfl, fun index line found => by cases found⟩
  obtain ⟨ended, after, prints, _, holds, _⟩ := guiTerminalPrint_prints (fun _ => 0) emptyTerminal [] (literal "kernix\n\nos") 7 4
    shown rfl (by decide) (by decide) (by decide) (by decide)
  have lines : ((literal "kernix\n\nos").splitOn 0x0A).flatMap (colored 7 4) =
      [(literal "kern", 7), (literal "ix", 7), (literal "os", 7)] := by
    have split : (literal "kernix\n\nos").splitOn 0x0A = [literal "kernix", [], literal "os"] := by decide
    have ends : ((literal "kernix").drop 4).drop 4 = [] := by decide
    have ends' : (literal "os").drop 4 = [] := by decide
    have long : pieces 4 (literal "kernix") = [literal "kern", literal "ix"] := by
      rw [pieces_cons (by decide) (by decide), pieces_cons (by decide) (by decide), ends, pieces_nil]
      decide
    have brief : pieces 4 (literal "os") = [literal "os"] := by
      rw [pieces_cons (by decide) (by decide), ends', pieces_nil]
      decide
    rw [split]
    simp [colored, long, brief]
  rw [lines] at holds
  exact ⟨ended, after, prints, holds⟩

end Kernix.Proofs
