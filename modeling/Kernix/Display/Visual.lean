import Kernix.Drivers.Memory

/-! What `visual.c` and `rendering.c` draw, and the console output of `print.c`. A function
that sets pixels gives the stores that it makes, in their order; `plot` is their effect on
the buffer. The font and the row at which the console starts are what the functions of the
font manager and of the console return. -/

namespace Kernix
open ByteMemory

/-- The globals of `visual.c`. -/
structure Graphics where
  framebuffer : Nat
  backbuffer : Nat
  doubleBufferingEnabled : Bool
  fbWidth : Nat
  fbHeight : Nat
  fbPitch : Nat
  cursorX : Nat
  cursorY : Nat
  fontScale : Nat
  memory : Memory

/-- A store into the buffer: the pixel that it is made for, and the word that it sets. -/
structure PixelWrite where
  px : Nat
  py : Nat
  index : Nat
  color : Nat
  deriving DecidableEq, Repr

/-- `CHAR_WIDTH`, `CHAR_HEIGHT` and `CONSOLE_BG_COLOR`. -/
abbrev Graphics.charWidth : Nat := 8
abbrev Graphics.charHeight : Nat := 16
abbrev consoleBgColor : Nat := 0

variable (g : Graphics)

def getStride : Nat := g.fbPitch / 4

def getActiveBuffer : Nat := if g.doubleBufferingEnabled then g.backbuffer else g.framebuffer

/-- `dest[offset] = color` for `u32* dest = &buf[row * stride + column]`. -/
def pixelAt (row column offset color : Nat) : PixelWrite :=
  ⟨column + offset, row, u32 (row * getStride g + column) + offset, color⟩

def Graphics.plot (writes : List PixelWrite) : Graphics :=
  { g with
    memory := writes.foldl (fun memory write => store memory (getActiveBuffer g + 4 * write.index) 4 write.color)
      g.memory }

def putpixel (x y color : Nat) : List PixelWrite :=
  if g.fbWidth ≤ x ∨ g.fbHeight ≤ y then [] else [pixelAt g y x 0 color]

section Rectangles

/-- `while (blocks--)`: eight pixels, and `dest` moves on behind them. -/
def fillBlocks (row column color : Nat) : Nat → Nat → List PixelWrite
  | 0, _ => []
  | blocks + 1, dest =>
    (List.range 8).map (fun step => pixelAt g row column (dest + step) color) ++
      fillBlocks row column color blocks (dest + 8)

/-- `while (remainder--) *dest++ = color;` -/
def fillRemainder (row column color : Nat) : Nat → Nat → List PixelWrite
  | 0, _ => []
  | remainder + 1, dest => pixelAt g row column dest color :: fillRemainder row column color remainder (dest + 1)

def putpixelsHorizontal (x y width color : Nat) : List PixelWrite :=
  if g.fbWidth ≤ x ∨ g.fbHeight ≤ y ∨ width = 0 then []
  else
    let width := if g.fbWidth < u32 (x + width) then g.fbWidth - x else width
    fillBlocks g y x color (width / 8) 0 ++ fillRemainder g y x color (width % 8) (8 * (width / 8))

def drawRect (x y width height color : Nat) : List PixelWrite :=
  (List.range height).flatMap fun dy => putpixelsHorizontal g x (u32 (y + dy)) width color

end Rectangles

section Text

/-- `row & (0x80 >> step)`. -/
def Inked (row : UInt8) (step : Nat) : Prop := row.toNat &&& 0x80 >>> step ≠ 0

instance (row : UInt8) (step : Nat) : Decidable (Inked row step) := inferInstanceAs (Decidable (_ ≠ _))

/-- The eight tests of a row of a glyph. -/
def glyphRow (row : UInt8) (screenY x color : Nat) : List PixelWrite :=
  ((List.range 8).filter fun step => Inked row step).map fun step => pixelAt g screenY x step color

/-- The loop over the rows of a glyph, with those that are left and `dy`. -/
def textRows (glyph : Nat → UInt8) (x y color : Nat) : Nat → Nat → List PixelWrite
  | 0, _ => []
  | left + 1, dy =>
    let row := glyph dy
    if row = 0 then textRows glyph x y color left (dy + 1)
    else
      let screenY := u32 (y + u32 (dy * g.fontScale))
      if g.fbHeight ≤ screenY then []
      else glyphRow g row screenY x color ++ textRows glyph x y color left (dy + 1)

/-- The loop of `gui_draw_text_line_fast`. A `char` is signed, so those from 128 on are
below 32. -/
def textLine (font8x16 : UInt8 → Nat → UInt8) (y color : Nat) : List UInt8 → Nat → List PixelWrite
  | [], _ => []
  | c :: str, currX =>
    if u32 (currX + Graphics.charWidth) < g.fbWidth then
      (if c < 32 ∨ 126 < c then [] else textRows g (font8x16 c) currX y color Graphics.charHeight 0) ++
        textLine font8x16 y color str (u32 (currX + Graphics.charWidth))
    else []

/-- The text is without its `NUL`; `none` is a null pointer. -/
def guiDrawTextLineFast (font8x16 : UInt8 → Nat → UInt8) (str : Option (List UInt8)) (x y color : Nat) :
    List PixelWrite :=
  match str with
  | none => []
  | some str => if g.fbHeight ≤ y then [] else textLine g font8x16 y color str x

end Text

section Scrolling

/-- The stores of `clear`: eight words at a time and then the rest, each behind the one
before it. -/
def clearWords (color : Nat) : Nat → Nat → Memory → Memory
  | 0, _, memory => memory
  | words + 1, p, memory => clearWords color words (p + 4) (store memory p 4 color)

def clear (color : Nat) : Graphics :=
  let buf := getActiveBuffer g
  let totalPixels := g.fbHeight * getStride g
  let memory :=
    if color = 0 then memset g.memory buf 0 (totalPixels * 4) else clearWords color totalPixels buf g.memory
  { g with memory, cursorX := 0, cursorY := 0 }

def graphicsSwapBuffers : Graphics :=
  if ¬g.doubleBufferingEnabled ∨ g.backbuffer = 0 then g
  else { g with memory := memcpy g.memory g.framebuffer (bytesFrom g.backbuffer) (g.fbHeight * g.fbPitch) }

/-- `for (u32 y = 0; y < fb_height - pixels; y++)` of `scroll_up`. -/
def moveRows (buf pixels : Nat) (memory : Memory) : Memory :=
  (List.range (g.fbHeight - pixels)).foldl
    (fun memory y =>
      let src := buf + 4 * u32 (u32 (y + pixels) * getStride g)
      let dst := buf + 4 * u32 (y * getStride g)
      memcpy memory dst (bytesFrom src) g.fbPitch)
    memory

/-- `for (u32 y = fb_height - pixels; y < fb_height; y++)` of `scroll_up`. -/
def clearRows (buf pixels : Nat) (memory : Memory) : Memory :=
  (List.range pixels).foldl
    (fun memory row => memset memory (buf + 4 * u32 ((g.fbHeight - pixels + row) * getStride g)) 0 g.fbPitch)
    memory

def scrollUp (lines : Nat) : Graphics :=
  if lines = 0 then g
  else
    let charH := u32 (Graphics.charHeight * g.fontScale)
    let pixels := u32 (lines * charH)
    if g.fbHeight ≤ pixels then { clear g consoleBgColor with cursorY := 0 }
    else
      let buf := getActiveBuffer g
      if buf = 0 then g
      else
        let g := { g with memory := clearRows g buf pixels (moveRows g buf pixels g.memory) }
        if g.doubleBufferingEnabled then graphicsSwapBuffers g else g

end Scrolling

section Lines

/-- What the loop of `draw_line` does not change. -/
structure LineEnd where
  x1 : Nat
  y1 : Nat
  dx : Int
  dy : Int
  sx : Int
  sy : Int

/-- What it changes. -/
structure Pen where
  x : Nat
  y : Nat
  err : Int

/-- A `u32` with an `int` added. -/
def u32Add (value : Nat) (step : Int) : Nat := ((value + step) % 2 ^ 32).toNat

/-- The body of the loop behind its `break`. -/
def lineStep (line : LineEnd) (pen : Pen) : Except Stop Pen := do
  let e2 ← intValue (2 * pen.err)
  let minusDy ← intValue (-line.dy)
  let pen ← if minusDy < e2 then do
      let err ← intValue (pen.err - line.dy)
      pure { pen with err, x := u32Add pen.x line.sx }
    else pure pen
  if e2 < line.dx then
    let err ← intValue (pen.err + line.dx)
    return { pen with err, y := u32Add pen.y line.sy }
  else return pen

/-- `while (1)`, with the pixels that it visits. `none` is a loop that has not ended yet. -/
def lineFrom (line : LineEnd) : Nat → Pen → Except Stop (Option (List (Nat × Nat)))
  | 0, _ => .ok none
  | fuel + 1, pen =>
    if pen.x = line.x1 ∧ pen.y = line.y1 then .ok (some [(pen.x, pen.y)])
    else do
      let pen' ← lineStep line pen
      let rest ← lineFrom line fuel pen'
      return rest.map ((pen.x, pen.y) :: ·)

/-- `int d = to - from; if (d < 0) d = -d;` for values of type `u32`. -/
def distance (fromX toX : Nat) : Except Stop Int :=
  let d := i32 (u32 (toX + (2 ^ 32 - fromX)))
  if d < 0 then intValue (-d) else .ok d

/-- The pixels that `draw_line` visits. -/
def linePixels (fuel x0 y0 x1 y1 : Nat) : Except Stop (Option (List (Nat × Nat))) := do
  let dx ← distance x0 x1
  let dy ← distance y0 y1
  let sx := if x0 < x1 then 1 else -1
  let sy := if y0 < y1 then 1 else -1
  let err ← intValue (dx - dy)
  lineFrom ⟨x1, y1, dx, dy, sx, sy⟩ fuel ⟨x0, y0, err⟩

def drawLine (fuel x0 y0 x1 y1 color : Nat) : Except Stop (Option (List PixelWrite)) := do
  let pixels ← linePixels fuel x0 y0 x1 y1
  return pixels.map fun pixels => pixels.flatMap fun pixel => putpixel g pixel.1 pixel.2 color

end Lines

section Printing

/-- `fm_get_glyph`, `fm_get_char_width`, `fm_get_char_height` and `console_window_get_start_y`. -/
structure ConsoleFont where
  getGlyph : UInt8 → Option (Nat → UInt8)
  getCharWidth : Nat
  getCharHeight : Nat
  getStartY : Nat

variable (font : ConsoleFont) (g : Graphics)

/-- The size of a character in pixels. -/
def cellWidth : Nat := u32 (font.getCharWidth * g.fontScale)

def cellHeight : Nat := u32 (font.getCharHeight * g.fontScale)

section Glyphs

/-- The loops of `putchar_fast` for a font that is not scaled. -/
def plainGlyph (glyph : Nat → UInt8) (x y color : Nat) : List PixelWrite :=
  (List.range font.getCharHeight).flatMap fun glyphY =>
    if glyph glyphY = 0 then [] else glyphRow g (glyph glyphY) (u32 (y + glyphY)) x color

/-- The loops over `glyph_x` and `scale_x`. -/
def scaledRow (row : UInt8) (screenY x color : Nat) : List PixelWrite :=
  ((List.range font.getCharWidth).filter fun glyphX => Inked row glyphX).flatMap fun glyphX =>
    (((List.range g.fontScale).map fun scaleX => u32 (glyphX * g.fontScale + scaleX)).filter
      fun pixelX => u32 (x + pixelX) < g.fbWidth).map fun pixelX => pixelAt g screenY x pixelX color

/-- The loop over `scale_y` is left at the first row below the screen. -/
def scaledGlyph (glyph : Nat → UInt8) (x y color : Nat) : List PixelWrite :=
  (List.range font.getCharHeight).flatMap fun glyphY =>
    if glyph glyphY = 0 then []
    else
      (((List.range g.fontScale).map fun scaleY => u32 (y + u32 (glyphY * g.fontScale) + scaleY)).takeWhile
        fun screenY => screenY < g.fbHeight).flatMap fun screenY => scaledRow font g (glyph glyphY) screenY x color

def putcharFast (c : UInt8) (x y color : Nat) : List PixelWrite :=
  if c < 32 ∨ 126 < c then []
  else
    match font.getGlyph c with
    | none => []
    | some glyph =>
      if getActiveBuffer g = 0 then []
      else if g.fontScale = 1 then plainGlyph font g glyph x y color
      else scaledGlyph font g glyph x y color

end Glyphs

section Cursor

/-- What a `\n` does, and so does the end of a row. The source repeats it in each place. -/
def newRow : Graphics :=
  let g := { g with cursorX := 0, cursorY := u32 (g.cursorY + cellHeight font g) }
  if g.fbHeight < u32 (g.cursorY + cellHeight font g) then
    let g := scrollUp g 1
    let g := { g with cursorY := u32 (g.cursorY + (2 ^ 32 - cellHeight font g)) }
    if g.cursorY < font.getStartY then { g with cursorY := font.getStartY } else g
  else g

/-- One pass of the loop over `tab_count`. -/
def tabStop : Graphics :=
  let g := if g.fbWidth ≤ u32 (g.cursorX + cellWidth font g) then newRow font g else g
  { g with cursorX := u32 (g.cursorX + cellWidth font g) }

def backspace : Graphics :=
  if cellWidth font g ≤ g.cursorX then
    let g := { g with cursorX := g.cursorX - cellWidth font g }
    g.plot (drawRect g g.cursorX g.cursorY (cellWidth font g) (cellHeight font g) 0)
  else g

/-- `putchar`, with the stores that `putchar_fast` has made. -/
def putchar (c : UInt8) (color : Nat) : Graphics × List PixelWrite :=
  if c = 0x0A then (newRow font g, [])
  else if c = 0x0D then ({ g with cursorX := 0 }, [])
  else if c = 0x09 then (tabStop font (tabStop font (tabStop font (tabStop font g))), [])
  else if c = 0x08 then (backspace font g, [])
  else
    let g := if g.fbWidth < u32 (g.cursorX + cellWidth font g) then newRow font g else g
    let writes := if 32 ≤ c ∧ c ≤ 126 then putcharFast font g c g.cursorX g.cursorY color else []
    let g := g.plot writes
    ({ g with cursorX := u32 (g.cursorX + cellWidth font g) }, writes)

/-- `while (*str) { putchar(*str, color); str++; }`. -/
def putchars (color : Nat) : List UInt8 → Graphics → Graphics × List PixelWrite
  | [], g => (g, [])
  | c :: str, g =>
    let (g, writes) := putchar font g c color
    let (g, later) := putchars color str g
    (g, writes ++ later)

/-- `string` without the graphical mode, for a text without its `NUL`. -/
def string (str : List UInt8) (color : Nat) : Graphics × List PixelWrite :=
  let (g, writes) := putchars font color str g
  (if g.doubleBufferingEnabled then graphicsSwapBuffers g else g, writes)

end Cursor

end Printing

end Kernix
