import Mathlib.Data.List.TakeWhile
import Kernix.Display.Visual
import Kernix.Proofs.ClippedDrawing

/-! The cursor of the console leaves room for a character below it. A new row keeps it so,
because the console scrolls when there is no room. -/

namespace Kernix.Proofs

/-- A font, a scale and a framebuffer that go together: a character fits on the screen, and
scrolling by a line does not empty it. -/
structure CellFits (font : ConsoleFont) (g : Graphics) : Prop where
  framed : Framed g
  wide : 8 ≤ font.getCharWidth
  widthU32 : font.getCharWidth < 2 ^ 32
  heightU32 : font.getCharHeight < 2 ^ 32
  cell : cellWidth font g ≤ g.fbWidth
  console : font.getStartY + cellHeight font g ≤ g.fbHeight
  scrolls : 16 * g.fontScale < g.fbHeight

/-- Where the cursor is to be. -/
structure CursorInside (font : ConsoleFont) (g : Graphics) : Prop where
  column : g.cursorX ≤ g.fbWidth
  row : g.cursorY + cellHeight font g ≤ g.fbHeight

variable {font : ConsoleFont} {g : Graphics}

section Glyphs
variable {x y color : Nat} {glyph : Nat → UInt8}

theorem CellFits.scale (fits : CellFits font g) : g.fontScale < 2 ^ 28 := by
  have scrolls := fits.scrolls
  have height := fits.framed.height
  omega

/-- The pixels of a row are the highest eight bits. -/
theorem inked_lt {row : UInt8} {step : Nat} (inked : Inked row step) : step < 8 := by
  by_contra beyond
  obtain ⟨more, rfl⟩ := Nat.exists_eq_add_of_le (Nat.not_lt.mp beyond)
  apply inked
  have none : 0x80 >>> (8 + more) = 0 := by
    rw [Nat.shiftRight_add, show 0x80 >>> 8 = 0 from rfl, Nat.zero_shiftRight]
  rw [none, Nat.and_zero]

theorem plainGlyph_shown (fits : CellFits font g) (plain : g.fontScale = 1) (column : x + cellWidth font g ≤ g.fbWidth)
    (row : y + cellHeight font g ≤ g.fbHeight) : ∀ write ∈ plainGlyph font g glyph x y color, Shown g write := by
  have width : cellWidth font g = font.getCharWidth := by
    rw [cellWidth, plain, Nat.mul_one, u32, Nat.mod_eq_of_lt fits.widthU32]
  have height : cellHeight font g = font.getCharHeight := by
    rw [cellHeight, plain, Nat.mul_one, u32, Nat.mod_eq_of_lt fits.heightU32]
  have wide := fits.wide
  have tall := fits.framed.height
  intro write member
  obtain ⟨glyphY, range, here⟩ := List.mem_flatMap.mp member
  have inside := List.mem_range.mp range
  split at here
  · cases here
  · obtain ⟨step, some, rfl⟩ := List.mem_map.mp here
    have small := List.mem_range.mp (List.mem_filter.mp some).1
    have line : u32 (y + glyphY) = y + glyphY := Nat.mod_eq_of_lt (by omega)
    rw [line]
    exact pixelAt_shown fits.framed (by omega) (by omega)

theorem scaledRow_shown (fits : CellFits font g) {row : UInt8} {screenY : Nat} (column : x ≤ g.fbWidth)
    (below : screenY < g.fbHeight) : ∀ write ∈ scaledRow font g row screenY x color, Shown g write := by
  have scale := fits.scale
  have narrow := fits.framed.narrow
  intro write member
  obtain ⟨glyphX, some, member⟩ := List.mem_flatMap.mp member
  have bit : glyphX < 8 := inked_lt (of_decide_eq_true (List.mem_filter.mp some).2)
  obtain ⟨pixelX, kept, rfl⟩ := List.mem_map.mp member
  obtain ⟨range, inside⟩ := List.mem_filter.mp kept
  obtain ⟨scaleX, step, rfl⟩ := List.mem_map.mp range
  have small := List.mem_range.mp step
  have product : glyphX * g.fontScale ≤ 7 * g.fontScale := Nat.mul_le_mul_right _ (by omega)
  have offset : u32 (glyphX * g.fontScale + scaleX) = glyphX * g.fontScale + scaleX := Nat.mod_eq_of_lt (by omega)
  have place : u32 (x + (glyphX * g.fontScale + scaleX)) = x + (glyphX * g.fontScale + scaleX) :=
    Nat.mod_eq_of_lt (by omega)
  rw [offset, place] at inside
  rw [offset]
  exact pixelAt_shown fits.framed (of_decide_eq_true inside) below

/-- A character is drawn on the screen, wherever the cursor leaves room for it. -/
theorem putcharFast_shown (fits : CellFits font g) (c : UInt8) (column : x + cellWidth font g ≤ g.fbWidth)
    (row : y + cellHeight font g ≤ g.fbHeight) : ∀ write ∈ putcharFast font g c x y color, Shown g write := by
  unfold putcharFast
  split
  · exact List.forall_mem_nil _
  · split
    · exact List.forall_mem_nil _
    · split
      · exact List.forall_mem_nil _
      · split
        · next plain => exact plainGlyph_shown fits plain column row
        · intro write member
          obtain ⟨glyphY, _, here⟩ := List.mem_flatMap.mp member
          split at here
          · cases here
          · obtain ⟨screenY, taken, later⟩ := List.mem_flatMap.mp here
            have below := List.mem_takeWhile_imp taken
            exact scaledRow_shown fits (by omega) (of_decide_eq_true below) write later

end Glyphs

section Cursor

/-- Scrolling by a line moves pixels only. -/
theorem scrollUp_memory (fits : CellFits font g) : ∃ memory, scrollUp g 1 = { g with memory } := by
  have scale := fits.scale
  have scrolls := fits.scrolls
  have line : u32 (16 * g.fontScale) = 16 * g.fontScale := Nat.mod_eq_of_lt (by omega)
  unfold scrollUp
  rw [if_neg (by decide)]
  dsimp only [Graphics.charHeight]
  rw [line, Nat.one_mul, line, if_neg (by omega)]
  split
  · exact ⟨g.memory, rfl⟩
  · split
    · unfold graphicsSwapBuffers
      split <;> exact ⟨_, rfl⟩
    · exact ⟨_, rfl⟩

/-- Only the cursor and the memory have changed, and the cursor is inside again. -/
def CursorMoved (font : ConsoleFont) (g after : Graphics) : Prop :=
  ∃ memory cursorX cursorY, after = { g with memory, cursorX, cursorY } ∧ cursorX ≤ g.fbWidth ∧
    cursorY + cellHeight font g ≤ g.fbHeight

theorem CursorMoved.trans {middle after : Graphics} (first : CursorMoved font g middle)
    (second : CursorMoved font middle after) : CursorMoved font g after := by
  obtain ⟨_, _, _, rfl, -, -⟩ := first
  obtain ⟨memory, cursorX, cursorY, rfl, column, row⟩ := second
  exact ⟨memory, cursorX, cursorY, rfl, column, row⟩

theorem CursorMoved.inside {after : Graphics} (moved : CursorMoved font g after) : CursorInside font after := by
  obtain ⟨_, _, _, rfl, column, row⟩ := moved
  exact ⟨column, row⟩

theorem CursorMoved.fits {after : Graphics} (moved : CursorMoved font g after) (fits : CellFits font g) :
    CellFits font after := by
  obtain ⟨_, _, _, rfl, -, -⟩ := moved
  exact ⟨⟨fits.framed.wide, fits.framed.pitch, fits.framed.height⟩, fits.wide, fits.widthU32, fits.heightU32,
    fits.cell, fits.console, fits.scrolls⟩

theorem CursorMoved.room {after : Graphics} (moved : CursorMoved font g after)
    (room : g.fbHeight + cellHeight font g < 2 ^ 32) : after.fbHeight + cellHeight font after < 2 ^ 32 := by
  obtain ⟨_, _, _, rfl, -, -⟩ := moved
  exact room

theorem CursorMoved.shown {after : Graphics} (moved : CursorMoved font g after) {write : PixelWrite}
    (shown : Shown after write) : Shown g write := by
  obtain ⟨_, _, _, rfl, -, -⟩ := moved
  exact shown

variable (room : g.fbHeight + cellHeight font g < 2 ^ 32)
include room

/-- A new row begins at the left edge, with room for a character. -/
theorem newRow_moves (fits : CellFits font g) (inside : CursorInside font g) :
    CursorMoved font g (newRow font g) ∧ (newRow font g).cursorX = 0 := by
  have console := fits.console
  have row := inside.row
  have next : u32 (g.cursorY + cellHeight font g) = g.cursorY + cellHeight font g := Nat.mod_eq_of_lt (by omega)
  have below : u32 (g.cursorY + cellHeight font g + cellHeight font g) =
      g.cursorY + cellHeight font g + cellHeight font g := Nat.mod_eq_of_lt (by omega)
  have back : u32 (g.cursorY + cellHeight font g + (2 ^ 32 - cellHeight font g)) = g.cursorY := by
    unfold u32
    omega
  have moved : CellFits font { g with cursorX := 0, cursorY := g.cursorY + cellHeight font g } :=
    ⟨⟨fits.framed.wide, fits.framed.pitch, fits.framed.height⟩, fits.wide, fits.widthU32, fits.heightU32, fits.cell,
      console, fits.scrolls⟩
  obtain ⟨memory, scrolled⟩ := scrollUp_memory moved
  unfold newRow
  rw [next]
  dsimp only
  split
  · next full =>
    rw [scrolled]
    dsimp only
    rw [show u32 (g.cursorY + cellHeight font g + (2 ^ 32 - cellHeight font { g with
      memory, cursorX := 0, cursorY := g.cursorY + cellHeight font g })) = g.cursorY from back]
    split
    · exact ⟨⟨memory, 0, font.getStartY, rfl, Nat.zero_le _, console⟩, rfl⟩
    · exact ⟨⟨memory, 0, g.cursorY, rfl, Nat.zero_le _, row⟩, rfl⟩
  · next left =>
    have short : g.cursorY + cellHeight font g + cellHeight font g ≤ g.fbHeight := by
      rw [← below]
      exact Nat.not_lt.mp left
    exact ⟨⟨g.memory, 0, g.cursorY + cellHeight font g, rfl, Nat.zero_le _, short⟩, rfl⟩

/-- Behind the cursor there is room for a character: it goes on by one. -/
theorem advance_moves (fits : CellFits font g) (inside : CursorInside font g) (full : Prop) [Decidable full]
    (left : ¬full → g.cursorX + cellWidth font g ≤ g.fbWidth) :
    let row := if full then newRow font g else g
    CursorMoved font g row ∧ row.cursorX + cellWidth font row ≤ row.fbWidth := by
  dsimp only
  split
  · obtain ⟨moved, start⟩ := newRow_moves room fits inside
    refine ⟨moved, ?_⟩
    rw [start, Nat.zero_add]
    exact (moved.fits fits).cell
  · next free => exact ⟨⟨g.memory, g.cursorX, g.cursorY, rfl, inside.column, inside.row⟩, left free⟩

omit room in
theorem CursorMoved.advanced {row : Graphics} (moved : CursorMoved font g row) (fits : CellFits font g)
    (left : row.cursorX + cellWidth font row ≤ row.fbWidth) (memory : ByteMemory.Memory) :
    CursorMoved font g { row with memory, cursorX := u32 (row.cursorX + cellWidth font row) } := by
  have narrow := fits.framed.narrow
  obtain ⟨_, cursorX, cursorY, rfl, -, below⟩ := moved
  have behind : cursorX + cellWidth font g ≤ g.fbWidth := left
  have next : u32 (cursorX + cellWidth font g) = cursorX + cellWidth font g := Nat.mod_eq_of_lt (by omega)
  exact ⟨memory, u32 (cursorX + cellWidth font g), cursorY, rfl, by omega, below⟩

theorem tabStop_moves (fits : CellFits font g) (inside : CursorInside font g) : CursorMoved font g (tabStop font g) := by
  have narrow := fits.framed.narrow
  have column := inside.column
  have cell := fits.cell
  have place : u32 (g.cursorX + cellWidth font g) = g.cursorX + cellWidth font g := Nat.mod_eq_of_lt (by omega)
  obtain ⟨moved, left⟩ := advance_moves room fits inside (g.fbWidth ≤ u32 (g.cursorX + cellWidth font g))
    (fun free => by omega)
  exact moved.advanced fits left _

omit room in
theorem backspace_moves (inside : CursorInside font g) : CursorMoved font g (backspace font g) := by
  have column := inside.column
  unfold backspace
  split
  · exact ⟨_, g.cursorX - cellWidth font g, g.cursorY, rfl, by omega, inside.row⟩
  · exact ⟨g.memory, g.cursorX, g.cursorY, rfl, column, inside.row⟩

/-- One character keeps the cursor inside, and its pixels are on the screen. -/
theorem putchar_moves (fits : CellFits font g) (inside : CursorInside font g) (c : UInt8) (color : Nat) :
    CursorMoved font g (putchar font g c color).1 ∧ ∀ write ∈ (putchar font g c color).2, Shown g write := by
  have narrow := fits.framed.narrow
  have column := inside.column
  have cell := fits.cell
  have place : u32 (g.cursorX + cellWidth font g) = g.cursorX + cellWidth font g := Nat.mod_eq_of_lt (by omega)
  have stop {after : Graphics} (moved : CursorMoved font g after) : CursorMoved font g (tabStop font after) :=
    moved.trans (tabStop_moves (moved.room room) (moved.fits fits) moved.inside)
  unfold putchar
  split
  · exact ⟨(newRow_moves room fits inside).1, List.forall_mem_nil _⟩
  split
  · exact ⟨⟨g.memory, 0, g.cursorY, rfl, Nat.zero_le _, inside.row⟩, List.forall_mem_nil _⟩
  split
  · exact ⟨stop (stop (stop (tabStop_moves room fits inside))), List.forall_mem_nil _⟩
  split
  · exact ⟨backspace_moves inside, List.forall_mem_nil _⟩
  · obtain ⟨moved, left⟩ := advance_moves room fits inside (g.fbWidth < u32 (g.cursorX + cellWidth font g))
      (fun free => by omega)
    refine ⟨moved.advanced fits left _, ?_⟩
    dsimp only
    split
    · intro write member
      exact moved.shown (putcharFast_shown (moved.fits fits) c left moved.inside.row write member)
    · exact List.forall_mem_nil _

end Cursor

/-- Printing a text, character by character. -/
theorem console_cursor_inside (fits : CellFits font g) (room : g.fbHeight + cellHeight font g < 2 ^ 32)
    (inside : CursorInside font g) (str : List UInt8) (color : Nat) :
    CursorInside font (putchars font color str g).1 ∧ ∀ write ∈ (putchars font color str g).2, Shown g write := by
  induction str generalizing g with
  | nil => exact ⟨inside, List.forall_mem_nil _⟩
  | cons c str ih =>
    obtain ⟨moved, shown⟩ := putchar_moves room fits inside c color
    obtain ⟨inside', later⟩ := ih (moved.fits fits) (moved.room room) moved.inside
    exact ⟨inside', List.forall_mem_append.mpr ⟨shown, fun write member => moved.shown (later write member)⟩⟩

/-- The font of the kernel, drawn as full boxes. -/
def boxFont : ConsoleFont := ⟨fun _ => some fun _ => 0xFF, 8, 16, 0⟩

theorem smallScreen_fits : CellFits boxFont smallScreen where
  framed := smallScreen_framed
  wide := by decide
  widthU32 := by decide
  heightU32 := by decide
  cell := by decide
  console := by decide
  scrolls := by decide

theorem console_cursor_inside_tab : CursorInside boxFont (putchars boxFont 7 [65, 9, 10, 66] smallScreen).1 ∧
    ∀ write ∈ (putchars boxFont 7 [65, 9, 10, 66] smallScreen).2, Shown smallScreen write :=
  console_cursor_inside smallScreen_fits (by decide) ⟨by decide, by decide⟩ _ _

/-- A framebuffer of a character's width, and as high as a `u32` goes. -/
def tallScreen : Graphics := ⟨0x1000, 0, false, 8, 4294967295, 32, 0, 4294967279, 1, fun _ => 0⟩

/-- A new row at the end of such a screen does not scroll it. -/
theorem console_cursor_leaves : ¬∀ (font : ConsoleFont) (g : Graphics), CellFits font g → CursorInside font g →
    ∀ (str : List UInt8) (color : Nat), CursorInside font (putchars font color str g).1 ∧
      ∀ write ∈ (putchars font color str g).2, Shown g write := by
  intro right
  have fits : CellFits boxFont tallScreen := ⟨⟨by decide, by decide, by decide⟩, by decide, by decide, by decide,
    by decide, by decide, by decide⟩
  have row := (right boxFont tallScreen fits ⟨by decide, by decide⟩ [0x0A] 7).1.row
  exact absurd row (by decide)

end Kernix.Proofs
