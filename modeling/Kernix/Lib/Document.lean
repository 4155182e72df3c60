import Kernix.Lib.TextZipper

/-! A text of a bounded number of lines with a cursor in one of them: the lines above
that one, the nearest first, the line itself as a zipper, and the lines below. -/

universe u

structure Document (α : Type u) (width height : Nat) where
  above : List (List α)
  line : TextZipper α width
  below : List (List α)
  narrowAbove : ∀ other ∈ above, other.length ≤ width
  narrowBelow : ∀ other ∈ below, other.length ≤ width
  low : above.length + below.length < height

namespace Document

variable {α : Type u} {width height : Nat}

def lines (document : Document α width height) : List (List α) :=
  document.above.reverse ++ document.line.text :: document.below

def row (document : Document α width height) : Nat := document.above.length

def column (document : Document α width height) : Nat := document.line.position

/-- The lines, joined by a character. -/
def text (newline : α) (document : Document α width height) : List α := [newline].intercalate document.lines

theorem joined_fits {front back : List α} (room : front.length + back.length < width) :
    front.reverse.length + back.length ≤ width := by
  rw [List.length_reverse]
  exact Nat.le_of_lt room

theorem fewer_low {above below : Nat} (low : above + 1 + below < height) : above + below < height := by omega

theorem raised_low {above below : Nat} (low : above + 1 + below < height) : above + (below + 1) < height := by omega

theorem lowered_low {above below : Nat} (low : above + (below + 1) < height) : above + 1 + below < height := by omega

theorem cut_fits {front back : List α} (fits : front.length + back.length ≤ width) : front.reverse.length ≤ width := by
  rw [List.length_reverse]
  exact Nat.le_trans (Nat.le_add_right _ _) fits

theorem rest_fits {front back : List α} (fits : front.length + back.length ≤ width) :
    ([] : List α).length + back.length ≤ width := by
  rw [List.length_nil]
  omega

/-- What one line does by itself. -/
def within (change : TextZipper α width → TextZipper α width) (document : Document α width height) :
    Document α width height :=
  { document with line := change document.line }

def insert (item : α) (document : Document α width height) : Document α width height :=
  document.within (TextZipper.insert item)

/-- The character before the cursor goes away. At the start of a line the line joins the
one above, when both together are shorter than the width. -/
def delete (document : Document α width height) : Document α width height :=
  match document with
  | ⟨previous :: above, ⟨[], after, _⟩, below, narrowAbove, narrowBelow, low⟩ =>
    if room : previous.length + after.length < width then
      ⟨above, ⟨previous.reverse, after, joined_fits room⟩, below, (List.forall_mem_cons.mp narrowAbove).2, narrowBelow,
        fewer_low low⟩
    else document
  | document => document.within TextZipper.delete

/-- The line is split at the cursor, unless there is no room for another line. -/
def splitLine (document : Document α width height) : Document α width height :=
  match document with
  | ⟨above, ⟨before, after, fits⟩, below, narrowAbove, narrowBelow, _⟩ =>
    if room : above.length + 1 + below.length < height then
      ⟨before.reverse :: above, ⟨[], after, rest_fits fits⟩, below,
        List.forall_mem_cons.mpr ⟨cut_fits fits, narrowAbove⟩, narrowBelow, room⟩
    else document

/-- The cursor goes to the line above, in the same column where that line is long enough. -/
def moveUp (document : Document α width height) : Document α width height :=
  match document with
  | ⟨[], line, below, narrowAbove, narrowBelow, low⟩ => ⟨[], line, below, narrowAbove, narrowBelow, low⟩
  | ⟨previous :: above, line, below, narrowAbove, narrowBelow, low⟩ =>
    ⟨above, TextZipper.place line.position previous (narrowAbove previous List.mem_cons_self), line.text :: below,
      (List.forall_mem_cons.mp narrowAbove).2, List.forall_mem_cons.mpr ⟨line.length_le, narrowBelow⟩, raised_low low⟩

def moveDown (document : Document α width height) : Document α width height :=
  match document with
  | ⟨above, line, [], narrowAbove, narrowBelow, low⟩ => ⟨above, line, [], narrowAbove, narrowBelow, low⟩
  | ⟨above, line, next :: below, narrowAbove, narrowBelow, low⟩ =>
    ⟨line.text :: above, TextZipper.place line.position next (narrowBelow next List.mem_cons_self), below,
      List.forall_mem_cons.mpr ⟨line.length_le, narrowAbove⟩, (List.forall_mem_cons.mp narrowBelow).2, lowered_low low⟩

def moveLeft : Document α width height → Document α width height := within TextZipper.moveLeft

def moveRight : Document α width height → Document α width height := within TextZipper.moveRight

/-- Inside a line only the line changes. -/
theorem delete_inside {document : Document α width height} (inside : document.line.before ≠ []) :
    document.delete = document.within TextZipper.delete := by
  obtain ⟨_ | ⟨previous, above⟩, ⟨_ | ⟨item, before⟩, after, fits⟩, below, _, _, _⟩ := document
  · rfl
  · rfl
  · cases inside rfl
  · rfl

/-- Nothing is in front of the first line. -/
theorem delete_first {document : Document α width height} (first : document.above = [])
    (start : document.line.before = []) :
    document.delete = document := by
  obtain ⟨above, ⟨before, after, fits⟩, below, _, _, _⟩ := document
  cases first
  cases start
  rfl

theorem row_lt (document : Document α width height) : document.above.length < height :=
  Nat.lt_of_le_of_lt (Nat.le_add_right _ _) document.low

theorem length_lines (document : Document α width height) :
    document.lines.length = document.above.length + 1 + document.below.length := by
  simp only [lines, List.length_append, List.length_reverse, List.length_cons]
  omega

end Document

/-- A text that is typed at its end alone: the lines above the last one, the nearest
first, and the last line, all of a bounded number and width. -/
structure TypedText (α : Type u) (width height : Nat) where
  above : List (List α)
  line : List α
  narrow : ∀ other ∈ line :: above, other.length ≤ width
  low : above.length < height

namespace TypedText

variable {α : Type u} {width height : Nat}

def lines (text : TypedText α width height) : List (List α) := text.above.reverse ++ [text.line]

def empty (room : 0 < height) : TypedText α width height :=
  ⟨[], [], List.forall_mem_singleton.mpr (Nat.zero_le width), room⟩

/-- An item goes behind the last line unless that is full. -/
def append (item : α) (text : TypedText α width height) : TypedText α width height :=
  if room : text.line.length < width then
    { text with
      line := text.line ++ [item]
      narrow := List.forall_mem_cons.mpr
        ⟨by rwa [List.length_append, List.length_singleton], (List.forall_mem_cons.mp text.narrow).2⟩ }
  else text

/-- A new line begins unless there is no room for one. -/
def newLine (text : TypedText α width height) : TypedText α width height :=
  if room : text.above.length + 1 < height then
    ⟨text.line :: text.above, [], List.forall_mem_cons.mpr ⟨Nat.zero_le width, text.narrow⟩, room⟩
  else text

theorem shortened_fits {line : List α} (fits : line.length ≤ width) : line.dropLast.length ≤ width := by
  rw [List.length_dropLast]
  exact Nat.le_trans (Nat.sub_le _ _) fits

/-- The last item or the last line break goes away. -/
def erase (text : TypedText α width height) : TypedText α width height :=
  match text with
  | ⟨above, item :: line, narrow, low⟩ =>
    ⟨above, (item :: line).dropLast,
      List.forall_mem_cons.mpr ⟨shortened_fits (List.forall_mem_cons.mp narrow).1, (List.forall_mem_cons.mp narrow).2⟩,
      low⟩
  | ⟨previous :: above, [], narrow, low⟩ =>
    ⟨above, previous, (List.forall_mem_cons.mp narrow).2, Nat.lt_of_succ_lt low⟩
  | ⟨[], [], narrow, low⟩ => ⟨[], [], narrow, low⟩

theorem length_lines (text : TypedText α width height) : text.lines.length = text.above.length + 1 := by
  simp [lines]

theorem line_length_le (text : TypedText α width height) : text.line.length ≤ width :=
  text.narrow _ List.mem_cons_self

end TypedText
