import Kernix.Fs.Commands

/-! The PSF fonts of `psf.c`. All fonts share one buffer, to which their `data` leads. -/

namespace Kernix
open ByteMemory

variable {δ : Type}

/-- `MAX_FONT_SIZE`. -/
abbrev maxFontSize : Nat := 64 * 1024

abbrev psf1Magic : Nat := 0x0436
abbrev psf2Magic : Nat := 0x864ab572

/-- `sizeof(psf1_header_t)`. -/
abbrev psf1HeaderSize : Nat := 4

/-- `psf_font_t`, whose `data` is the buffer. -/
structure PsfFont where
  size : Nat
  version : Nat
  numChars : Nat
  charSize : Nat
  height : Nat
  width : Nat
  loaded : Bool
  deriving DecidableEq, Repr

/-- `memset(font, 0, sizeof(psf_font_t))`. -/
def noFont : PsfFont := ⟨0, 0, 0, 0, 0, 0, false⟩

/-- The loop of the reads, with the turns that are left. A failed read counts as one of
2^32 - 1 bytes. -/
def readFont (fd : Int) : Nat → FsState δ → Memory → Nat → Except Stop (Nat × Memory × FsState δ)
  | 0, _, _, _ => .error .halted
  | left + 1, state, fontBuffer, totalRead => do
    let (ret, bytes, state) ← fsRead state fd (maxFontSize - totalRead)
    if maxFontSize < totalRead + bytes.length then throw .undefined
    let fontBuffer := copy fontBuffer totalRead bytes.length fun offset => bytes.getD offset 0
    let readBytes := u32 (u64OfInt ret)
    if 0 < readBytes then
      let totalRead := u32 (totalRead + readBytes)
      if maxFontSize ≤ totalRead then return (totalRead, fontBuffer, state)
      else readFont fd left state fontBuffer totalRead
    else return (totalRead, fontBuffer, state)

/-- The fields of a header that are read, by their places and sizes, and what they make of
a font. -/
def psfHeader (fontBuffer : Memory) (totalRead : Nat) : Int × PsfFont × List (Nat × Nat) :=
  let font := { noFont with size := totalRead }
  let magic := load fontBuffer 0 4
  if magic = psf2Magic then
    (0, { font with
          version := 2
          numChars := load fontBuffer 16 4
          charSize := load fontBuffer 20 4
          height := load fontBuffer 24 4
          width := load fontBuffer 28 4
          loaded := true },
      [(0, 4), (16, 4), (20, 4), (24, 4), (28, 4)])
  else if magic &&& 0xFFFF = psf1Magic then
    let charsize := load fontBuffer 3 1
    (0, { font with
          version := 1
          numChars := if load fontBuffer 2 1 &&& 0x01 ≠ 0 then 512 else 256
          charSize := charsize
          height := charsize
          width := 8
          loaded := true },
      [(0, 4), (2, 1), (3, 1)])
  else (-1, font, [(0, 4)])

/-- What `psf_load` leaves: its result, the font, the fields that it has read and the
buffer. -/
structure PsfLoad where
  ret : Int
  font : PsfFont
  fields : List (Nat × Nat)
  fontBuffer : Memory

def psfLoad (turns : Nat) (state : FsState δ) (fontBuffer : Memory) (filename : List UInt8) :
    Except Stop (PsfLoad × FsState δ) := do
  let (fd, state) ← fsOpen state filename 0
  if fd < 0 then return (⟨-1, noFont, [], fontBuffer⟩, state)
  let (totalRead, fontBuffer, state) ← readFont fd turns state fontBuffer 0
  let (_, state) ← fsClose state fd
  if totalRead < psf1HeaderSize then return (⟨-1, noFont, [], fontBuffer⟩, state)
  let (ret, font, fields) := psfHeader fontBuffer totalRead
  return (⟨ret, font, fields, fontBuffer⟩, state)

/-- The offset of the bitmap in `data`, if there is one. -/
def psfGetGlyphBitmap (font : PsfFont) (fontBuffer : Memory) (charcode : Nat) : Option Nat :=
  if ¬font.loaded ∨ font.numChars ≤ charcode then none
  else
    let headersize := if font.version = 2 then load fontBuffer 8 4 else psf1HeaderSize
    let offset := u32 (headersize + u32 (charcode * font.charSize))
    if font.size < u32 (offset + font.charSize) then none else some offset

end Kernix
