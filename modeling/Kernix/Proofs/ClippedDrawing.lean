import Kernix.Display.Visual

/-! What the drawing functions leave out. The ends of a row are compared after additions
that wrap, so a row that ends at the last `u32` or behind it is not cut at all. -/

namespace Kernix.Proofs

/-- The framebuffer has its dimensions, and rows as long as its width. -/
structure Framed (g : Graphics) : Prop where
  wide : g.fbWidth ≤ getStride g
  pitch : g.fbPitch < 2 ^ 32
  height : g.fbHeight < 2 ^ 32

/-- A store is for a pixel of the screen. Where the words of the buffer can be numbered at
all, it sets the word of that pixel. -/
def Shown (g : Graphics) (write : PixelWrite) : Prop :=
  write.px < g.fbWidth ∧ write.py < g.fbHeight ∧
    (g.fbHeight * getStride g ≤ 2 ^ 32 → write.index = write.py * getStride g + write.px)

/-- `draw_rect` sets the pixels of the rectangle that are on the screen, and no others. -/
structure RectDrawn (g : Graphics) (x y width height color : Nat) (writes : List PixelWrite) : Prop where
  inside : ∀ write ∈ writes, Shown g write ∧ write.color = color
  exactly : ∀ px py, (∃ write ∈ writes, write.px = px ∧ write.py = py) ↔
    px < g.fbWidth ∧ py < g.fbHeight ∧ (x ≤ px ∧ px < x + width) ∧ y ≤ py ∧ py < y + height

variable {g : Graphics}

theorem Framed.narrow (framed : Framed g) : g.fbWidth < 2 ^ 30 := by
  have wide := framed.wide
  have pitch := framed.pitch
  unfold getStride at wide
  omega

section Rows
variable {x y width color : Nat}

/-- A store for a pixel of the screen meets its word. -/
theorem pixelAt_shown (framed : Framed g) {row column offset : Nat} (inside : column + offset < g.fbWidth)
    (below : row < g.fbHeight) : Shown g (pixelAt g row column offset color) := by
  refine ⟨inside, below, fun numbered => ?_⟩
  have rows : (row + 1) * getStride g ≤ g.fbHeight * getStride g := Nat.mul_le_mul_right _ below
  have wide := framed.wide
  rw [Nat.succ_mul] at rows
  show u32 (row * getStride g + column) + offset = row * getStride g + (column + offset)
  rw [u32, Nat.mod_eq_of_lt (by omega)]
  omega

theorem fillBlocks_eq (row column blocks dest : Nat) : fillBlocks g row column color blocks dest =
    (List.range (8 * blocks)).map fun step => pixelAt g row column (dest + step) color := by
  induction blocks generalizing dest with
  | zero => rfl
  | succ blocks ih =>
    rw [fillBlocks, ih, Nat.mul_succ, Nat.add_comm (8 * blocks) 8, List.range_add, List.map_append, List.map_map]
    congr 1
    apply List.map_congr_left
    intro step _
    rw [Function.comp_apply, Nat.add_assoc]

theorem fillRemainder_eq (row column remainder dest : Nat) : fillRemainder g row column color remainder dest =
    (List.range remainder).map fun step => pixelAt g row column (dest + step) color := by
  induction remainder generalizing dest with
  | zero => rfl
  | succ remainder ih =>
    rw [fillRemainder, ih, List.range_succ_eq_map, List.map_cons, List.map_map, Nat.add_zero]
    congr 1
    apply List.map_congr_left
    intro step _
    rw [Function.comp_apply, Nat.succ_eq_add_one, Nat.add_assoc, Nat.add_comm 1 step]

/-- How much of a row is left. -/
def clipped (g : Graphics) (x width : Nat) : Nat := if g.fbWidth < u32 (x + width) then g.fbWidth - x else width

theorem clipped_pos {step : Nat} (inside : step < clipped g x width) : 0 < width := by
  by_contra none
  obtain rfl : width = 0 := by omega
  have small : u32 (x + 0) ≤ x := Nat.mod_le _ _
  unfold clipped at inside
  split at inside <;> omega

/-- The unrolled loop sets the pixels of a row one by one. -/
theorem putpixelsHorizontal_eq (column : x < g.fbWidth) (row : y < g.fbHeight) :
    putpixelsHorizontal g x y width color =
      (List.range (clipped g x width)).map fun step => pixelAt g y x step color := by
  unfold putpixelsHorizontal
  by_cases empty : width = 0
  · have none : clipped g x width = 0 := Nat.eq_zero_of_not_pos fun some => by
      have wide := clipped_pos some
      omega
    rw [if_pos (.inr (.inr empty)), none]
    rfl
  · rw [if_neg (by omega)]
    show fillBlocks g y x color (clipped g x width / 8) 0 ++
      fillRemainder g y x color (clipped g x width % 8) (8 * (clipped g x width / 8)) = _
    have whole := List.range_add (n := 8 * (clipped g x width / 8)) (m := clipped g x width % 8)
    rw [Nat.div_add_mod] at whole
    rw [fillBlocks_eq, fillRemainder_eq, whole, List.map_append, List.map_map]
    simp only [Nat.zero_add]
    rfl

theorem putpixelsHorizontal_off (off : ¬(x < g.fbWidth ∧ y < g.fbHeight)) :
    putpixelsHorizontal g x y width color = [] := if_pos (by omega)

theorem clipped_eq (column : x < g.fbWidth) (ends : x + width < 2 ^ 32) :
    clipped g x width = min width (g.fbWidth - x) := by
  unfold clipped u32
  rw [Nat.mod_eq_of_lt ends]
  split <;> omega

/-- A row that reaches the last `u32` is not cut. -/
theorem clipped_wrapped (column : x < g.fbWidth) (small : width < 2 ^ 32) (wraps : 2 ^ 32 ≤ x + width) :
    clipped g x width = width := by
  unfold clipped u32
  rw [if_neg (by omega)]

theorem row_shown_iff (framed : Framed g) (small : width < 2 ^ 32) :
    (∀ write ∈ putpixelsHorizontal g x y width color, Shown g write) ↔
      ¬(x < g.fbWidth ∧ y < g.fbHeight ∧ 2 ^ 32 ≤ x + width) := by
  have narrow := framed.narrow
  by_cases starts : x < g.fbWidth ∧ y < g.fbHeight
  · rw [putpixelsHorizontal_eq starts.1 starts.2]
    constructor
    · rintro all ⟨_, _, wraps⟩
      have last := all (pixelAt g y x (width - 1) color) (List.mem_map.mpr ⟨width - 1, by
        rw [clipped_wrapped starts.1 small wraps, List.mem_range]
        omega, rfl⟩)
      have inside : x + (width - 1) < g.fbWidth := last.1
      omega
    · intro short write member
      obtain ⟨step, range, rfl⟩ := List.mem_map.mp member
      rw [clipped_eq starts.1 (by omega), List.mem_range] at range
      exact pixelAt_shown framed (by omega) starts.2
  · rw [putpixelsHorizontal_off starts]
    exact ⟨fun _ wraps => starts ⟨wraps.1, wraps.2.1⟩, fun _ => List.forall_mem_nil _⟩

theorem mem_row {write : PixelWrite} : write ∈ putpixelsHorizontal g x y width color ↔
    (x < g.fbWidth ∧ y < g.fbHeight) ∧ ∃ step < clipped g x width, pixelAt g y x step color = write := by
  by_cases starts : x < g.fbWidth ∧ y < g.fbHeight
  · rw [putpixelsHorizontal_eq starts.1 starts.2, List.mem_map]
    simp only [List.mem_range, starts, and_self, true_and]
  · rw [putpixelsHorizontal_off starts]
    simp [starts]

theorem mem_rect {height : Nat} {write : PixelWrite} : write ∈ drawRect g x y width height color ↔
    ∃ dy < height, write ∈ putpixelsHorizontal g x (u32 (y + dy)) width color := by
  simp only [drawRect, List.mem_flatMap, List.mem_range]

/-- A rectangle ends neither behind the last `u32` nor, as far as its rows are set, at it. -/
def RectFits (g : Graphics) (x y width height : Nat) : Prop :=
  x < g.fbWidth ∧ 0 < width ∧ 0 < g.fbHeight →
    y + height ≤ 2 ^ 32 ∧ (y < g.fbHeight ∧ 0 < height → x + width < 2 ^ 32)

variable {height : Nat}

/-- The stores for such a rectangle. -/
theorem mem_rect_iff (fits : RectFits g x y width height) {write : PixelWrite} :
    write ∈ drawRect g x y width height color ↔
      ∃ dy < height, ∃ step < width, x + step < g.fbWidth ∧ y + dy < g.fbHeight ∧
        pixelAt g (y + dy) x step color = write := by
  rw [mem_rect]
  refine exists_congr fun dy => and_congr_right fun within => ?_
  rw [mem_row]
  constructor
  · rintro ⟨⟨column, below⟩, step, inside, rfl⟩
    have some := clipped_pos inside
    obtain ⟨low, short⟩ := fits ⟨column, some, by omega⟩
    have row : u32 (y + dy) = y + dy := Nat.mod_eq_of_lt (by omega)
    rw [row] at below ⊢
    rw [clipped_eq column (short ⟨by omega, by omega⟩)] at inside
    exact ⟨step, by omega, by omega, below, rfl⟩
  · rintro ⟨step, inside, column, below, rfl⟩
    obtain ⟨low, short⟩ := fits ⟨by omega, by omega, by omega⟩
    have row : u32 (y + dy) = y + dy := Nat.mod_eq_of_lt (by omega)
    rw [row, clipped_eq (by omega) (short ⟨by omega, by omega⟩)]
    exact ⟨⟨by omega, below⟩, step, by omega, rfl⟩

theorem rect_drawn (framed : Framed g) (fits : RectFits g x y width height) :
    RectDrawn g x y width height color (drawRect g x y width height color) := by
  constructor
  · intro write member
    obtain ⟨dy, within, step, inside, column, below, rfl⟩ := (mem_rect_iff fits).mp member
    exact ⟨pixelAt_shown framed column below, rfl⟩
  · intro px py
    constructor
    · rintro ⟨write, member, rfl, rfl⟩
      obtain ⟨dy, within, step, inside, column, below, rfl⟩ := (mem_rect_iff fits).mp member
      exact ⟨column, below, ⟨Nat.le_add_right _ _, Nat.add_lt_add_left inside x⟩, Nat.le_add_right _ _,
        Nat.add_lt_add_left within y⟩
    · rintro ⟨column, below, ⟨left, right⟩, top, bottom⟩
      refine ⟨pixelAt g (y + (py - y)) x (px - x) color,
        (mem_rect_iff fits).mpr ⟨py - y, by omega, px - x, by omega, by omega, by omega, rfl⟩, ?_, ?_⟩
      · exact Nat.add_sub_cancel' left
      · exact Nat.add_sub_cancel' top

/-- Behind the last `u32` the rows begin again at the top of the screen, and a row that
reaches it is not cut. -/
theorem rect_fits (framed : Framed g) (low : y < 2 ^ 32) (small : width < 2 ^ 32) (tall : height < 2 ^ 32)
    (drawn : RectDrawn g x y width height color (drawRect g x y width height color)) : RectFits g x y width height := by
  rintro ⟨column, some, lines⟩
  constructor
  · by_contra beyond
    have top : u32 (y + (2 ^ 32 - y)) = 0 := by
      unfold u32
      omega
    have first : 0 < clipped g x width := by
      unfold clipped
      split <;> omega
    have written : pixelAt g 0 x 0 color ∈ drawRect g x y width height color :=
      mem_rect.mpr ⟨2 ^ 32 - y, by omega, mem_row.mpr ⟨⟨column, by omega⟩, 0, first, by rw [top]⟩⟩
    have place := (drawn.exactly x 0).mp ⟨_, written, rfl, rfl⟩
    omega
  · rintro ⟨below, rows⟩
    by_contra wraps
    have row : u32 (y + 0) = y := Nat.mod_eq_of_lt low
    have shown : (∀ write ∈ putpixelsHorizontal g x y width color, Shown g write) ↔ _ := row_shown_iff framed small
    refine shown.mp (fun write member => ?_) ⟨column, below, Nat.not_lt.mp wraps⟩
    exact (drawn.inside write (mem_rect.mpr ⟨0, rows, by rwa [row]⟩)).1

end Rows

section Texts
variable {x y color : Nat} {glyph : Nat → UInt8} {font8x16 : UInt8 → Nat → UInt8}

/-- A row that is not empty has a pixel. -/
theorem row_inked {row : UInt8} (some : row ≠ 0) : ∃ step < 8, Inked row step := by
  have bits : ∀ value < 256, value ≠ 0 → ∃ step < 8, value &&& 0x80 >>> step ≠ 0 := by decide +kernel
  exact bits row.toNat row.toNat_lt fun zero => some (UInt8.toNat_inj.mp zero)

theorem mem_textRows {left dy : Nat} {write : PixelWrite} (member : write ∈ textRows g glyph x y color left dy) :
    ∃ row < g.fbHeight, ∃ step < 8, write = pixelAt g row x step color := by
  induction left generalizing dy with
  | zero => cases member
  | succ left ih =>
    unfold textRows at member
    dsimp only at member
    split at member
    · exact ih member
    · split at member
      · cases member
      · next below =>
        rcases List.mem_append.mp member with here | later
        · obtain ⟨step, some, rfl⟩ := List.mem_map.mp here
          exact ⟨_, Nat.not_le.mp below, step, List.mem_range.mp (List.mem_filter.mp some).1, rfl⟩
        · exact ih later

/-- The first row of a glyph that is not empty is on the screen. -/
def TopShown (g : Graphics) (glyph : Nat → UInt8) (y first count : Nat) : Prop :=
  ∃ dy, first ≤ dy ∧ dy < first + count ∧ glyph dy ≠ 0 ∧ (∀ earlier, first ≤ earlier → earlier < dy → glyph earlier = 0) ∧
    u32 (y + u32 (dy * g.fontScale)) < g.fbHeight

/-- Nothing of a glyph is set exactly when its topmost pixels are not on the screen. -/
theorem textRows_empty_iff (left dy : Nat) : textRows g glyph x y color left dy = [] ↔ ¬TopShown g glyph y dy left := by
  induction left generalizing dy with
  | zero =>
    refine ⟨fun _ => ?_, fun _ => rfl⟩
    rintro ⟨row, first, last, -⟩
    omega
  | succ left ih =>
    unfold textRows
    dsimp only
    by_cases blank : glyph dy = 0
    · rw [if_pos blank, ih, not_iff_not]
      constructor
      · rintro ⟨row, first, last, inked, blanks, below⟩
        refine ⟨row, by omega, by omega, inked, fun earlier from' before => ?_, below⟩
        rcases Nat.eq_or_lt_of_le from' with rfl | later
        · exact blank
        · exact blanks earlier later before
      · rintro ⟨row, first, last, inked, blanks, below⟩
        have apart : dy ≠ row := fun same => inked (same ▸ blank)
        exact ⟨row, by omega, by omega, inked, fun earlier from' => blanks earlier (by omega), below⟩
    · rw [if_neg blank]
      by_cases below : g.fbHeight ≤ u32 (y + u32 (dy * g.fontScale))
      · rw [if_pos below]
        refine ⟨fun _ => ?_, fun _ => rfl⟩
        rintro ⟨row, first, last, inked, blanks, shown⟩
        rcases Nat.eq_or_lt_of_le first with rfl | later
        · omega
        · exact blank (blanks dy le_rfl later)
      · rw [if_neg below]
        obtain ⟨step, small, inked⟩ := row_inked blank
        constructor
        · intro empty
          have pixel : pixelAt g (u32 (y + u32 (dy * g.fontScale))) x step color ∈
              glyphRow g (glyph dy) (u32 (y + u32 (dy * g.fontScale))) x color :=
            List.mem_map.mpr ⟨step, List.mem_filter.mpr ⟨List.mem_range.mpr small, decide_eq_true inked⟩, rfl⟩
          rw [(List.append_eq_nil_iff.mp empty).1] at pixel
          cases pixel
        · intro hidden
          exact absurd ⟨dy, le_rfl, by omega, blank, fun earlier from' before => absurd before (by omega),
            Nat.not_le.mp below⟩ hidden

/-- A line of text that does not begin at the last `u32`s stays on the screen. -/
theorem textLine_shown (framed : Framed g) (str : List UInt8) (starts : x + Graphics.charWidth < 2 ^ 32) :
    ∀ write ∈ textLine g font8x16 y color str x, Shown g write := by
  have narrow := framed.narrow
  have eight : Graphics.charWidth = 8 := rfl
  induction str generalizing x with
  | nil => exact List.forall_mem_nil _
  | cons c str ih =>
    unfold textLine
    split
    · next room =>
      rw [u32, Nat.mod_eq_of_lt starts] at room ⊢
      intro write member
      rcases List.mem_append.mp member with here | later
      · split at here
        · cases here
        · obtain ⟨row, below, step, small, rfl⟩ := mem_textRows here
          exact pixelAt_shown framed (by omega) below
      · exact ih (by omega) write later
    · exact List.forall_mem_nil _

/-- The text begins within a character of the last `u32`, has room behind it at the left
edge of the screen and begins with a character whose topmost pixels are on the screen. -/
def TextWraps (g : Graphics) (font8x16 : UInt8 → Nat → UInt8) (str : Option (List UInt8)) (x y : Nat) : Prop :=
  y < g.fbHeight ∧ 2 ^ 32 ≤ x + Graphics.charWidth ∧ x + Graphics.charWidth < 2 ^ 32 + g.fbWidth ∧
    ∃ c rest, str = some (c :: rest) ∧ (32 ≤ c ∧ c ≤ 126) ∧ TopShown g (font8x16 c) y 0 Graphics.charHeight

theorem text_shown_iff (framed : Framed g) (low : x < 2 ^ 32) (str : Option (List UInt8)) :
    (∀ write ∈ guiDrawTextLineFast g font8x16 str x y color, Shown g write) ↔ ¬TextWraps g font8x16 str x y := by
  have narrow := framed.narrow
  have eight : Graphics.charWidth = 8 := rfl
  unfold guiDrawTextLineFast
  rcases str with none | str
  · refine ⟨fun _ => ?_, fun _ => List.forall_mem_nil _⟩
    rintro ⟨_, _, _, c, rest, same, _⟩
    cases same
  dsimp only
  by_cases below : g.fbHeight ≤ y
  · rw [if_pos below]
    exact ⟨fun _ wraps => absurd wraps.1 (Nat.not_lt.mpr below), fun _ => List.forall_mem_nil _⟩
  rw [if_neg below]
  by_cases starts : x + Graphics.charWidth < 2 ^ 32
  · exact ⟨fun _ wraps => absurd wraps.2.1 (Nat.not_le.mpr starts), fun _ => textLine_shown framed str starts⟩
  rcases str with nil | ⟨c, rest⟩
  · refine ⟨fun _ => ?_, fun _ => List.forall_mem_nil _⟩
    rintro ⟨_, _, _, c, rest, same, _⟩
    cases same
  have wrapped : u32 (x + Graphics.charWidth) = x + Graphics.charWidth - 2 ^ 32 := by
    unfold u32
    omega
  unfold textLine
  rw [wrapped]
  by_cases room : x + Graphics.charWidth - 2 ^ 32 < g.fbWidth
  · rw [if_pos room]
    have others : ∀ write ∈ textLine g font8x16 y color rest (x + Graphics.charWidth - 2 ^ 32), Shown g write :=
      textLine_shown framed rest (by omega)
    have first : (∀ write ∈ (if c < 32 ∨ 126 < c then [] else textRows g (font8x16 c) x y color Graphics.charHeight 0),
        Shown g write) ↔ ¬((32 ≤ c ∧ c ≤ 126) ∧ TopShown g (font8x16 c) y 0 Graphics.charHeight) := by
      by_cases unprinted : c < 32 ∨ 126 < c
      · rw [if_pos unprinted]
        refine ⟨fun _ => ?_, fun _ => List.forall_mem_nil _⟩
        rintro ⟨⟨least, most⟩, _⟩
        rcases unprinted with less | more
        · exact absurd less (UInt8.not_lt.mpr least)
        · exact absurd more (UInt8.not_lt.mpr most)
      · have printed : 32 ≤ c ∧ c ≤ 126 :=
          ⟨UInt8.not_lt.mp fun less => unprinted (.inl less), UInt8.not_lt.mp fun more => unprinted (.inr more)⟩
        have empty : textRows g (font8x16 c) x y color Graphics.charHeight 0 = [] ↔ _ := textRows_empty_iff _ _
        rw [if_neg unprinted, and_iff_right printed, ← empty]
        constructor
        · intro all
          -- Every store is for a column behind the right edge.
          refine List.eq_nil_iff_forall_not_mem.mpr fun write member => ?_
          obtain ⟨row, _, step, _, rfl⟩ := mem_textRows member
          have inside : x + step < g.fbWidth := (all _ member).1
          omega
        · intro empty
          rw [empty]
          exact List.forall_mem_nil _
    rw [List.forall_mem_append, and_iff_left others, first, not_iff_not]
    constructor
    · rintro ⟨printed, top⟩
      exact ⟨by omega, by omega, by omega, c, rest, rfl, printed, top⟩
    · rintro ⟨_, _, _, _, _, same, printed, top⟩
      cases same
      exact ⟨printed, top⟩
  · rw [if_neg room]
    refine ⟨fun _ => ?_, fun _ => List.forall_mem_nil _⟩
    rintro ⟨_, _, fits, _⟩
    omega

end Texts

/-- The three functions, for a framebuffer of any size: a row, a rectangle and a text. -/
theorem drawing_clipped_iff (framed : Framed g) (font8x16 : UInt8 → Nat → UInt8) (str : Option (List UInt8))
    {x y width height : Nat} (color : Nat) (low : x < 2 ^ 32 ∧ y < 2 ^ 32) (small : width < 2 ^ 32 ∧ height < 2 ^ 32) :
    ((∀ write ∈ putpixelsHorizontal g x y width color, Shown g write) ↔
        ¬(x < g.fbWidth ∧ y < g.fbHeight ∧ 2 ^ 32 ≤ x + width)) ∧
      (RectDrawn g x y width height color (drawRect g x y width height color) ↔ RectFits g x y width height) ∧
      ((∀ write ∈ guiDrawTextLineFast g font8x16 str x y color, Shown g write) ↔
        ¬TextWraps g font8x16 str x y) :=
  ⟨row_shown_iff framed small.1, ⟨rect_fits framed low.2 small.1 small.2, rect_drawn framed⟩,
    text_shown_iff framed low.1 str⟩

/-- A screen of 640 columns and 480 rows. -/
def smallScreen : Graphics := ⟨0x1000, 0, false, 640, 480, 2560, 0, 0, 1, fun _ => 0⟩

theorem smallScreen_framed : Framed smallScreen := ⟨by decide, by decide, by decide⟩

theorem drawing_clipped_iff_left :
    ((∀ write ∈ putpixelsHorizontal smallScreen 600 5 100 7, Shown smallScreen write) ↔
        ¬(600 < 640 ∧ 5 < 480 ∧ 2 ^ 32 ≤ 600 + 100)) ∧
      (RectDrawn smallScreen 600 5 100 3 7 (drawRect smallScreen 600 5 100 3 7) ↔ RectFits smallScreen 600 5 100 3) ∧
      ((∀ write ∈ guiDrawTextLineFast smallScreen (fun _ _ => 0xFF) (some [65]) 600 5 7, Shown smallScreen write) ↔
        ¬TextWraps smallScreen (fun _ _ => 0xFF) (some [65]) 600 5) :=
  drawing_clipped_iff smallScreen_framed _ _ 7 (by decide) (by decide)

/-- A row whose width has become a negative number, here -6, is not cut. -/
theorem drawing_clipped_fails : ¬∀ (g : Graphics), Framed g → ∀ (font8x16 : UInt8 → Nat → UInt8)
    (str : Option (List UInt8)) (x y width height color : Nat), x < 2 ^ 32 ∧ y < 2 ^ 32 → width < 2 ^ 32 ∧ height < 2 ^ 32 →
    (∀ write ∈ putpixelsHorizontal g x y width color, Shown g write) ∧
      RectDrawn g x y width height color (drawRect g x y width height color) ∧
      ∀ write ∈ guiDrawTextLineFast g font8x16 str x y color, Shown g write := by
  intro right
  have row := (right smallScreen smallScreen_framed (fun _ _ => 0) none 10 5 4294967290 1 7 (by decide) (by decide)).1
  exact (row_shown_iff smallScreen_framed (by decide)).mp row ⟨by decide, by decide, by decide⟩

end Kernix.Proofs
