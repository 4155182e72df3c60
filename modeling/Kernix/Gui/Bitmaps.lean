import Kernix.Fs.Commands
import Kernix.Lib.Raster

/-! The two loaders of BMP files: `gui_load_bmp` of `gui.c` and `load_cursor_bmp` of
`mouse.c`. An image is a record and an array of pixels, both on the heap of the file
systems. The local array of the pixels is as large as it is asked to be; what is printed
is left out. -/

namespace Kernix
open ByteMemory

variable {δ : Type}

/-- `kernel_memory_alloc` on the heap of the file systems. A size that wraps around when
`malloc` rounds it up gets a block with fewer bytes, which `memset` overruns. -/
def FsState.allocArray (state : FsState δ) (size count : Nat) : Except Stop (Nat × FsState δ) :=
  match kernelMemoryAlloc state.memory state.kernelMemory size count with
  | some (ptr, memory) =>
    if ptr ≠ 0 ∧ 2 ^ 64 ≤ u64 (count * size) + 15 then .error .undefined else .ok (ptr, { state with memory })
  | none => .error .undefined

/-- `sizeof(bmp_file_header_t)`. -/
abbrev bmpFileHeaderSize : Nat := 14
/-- `sizeof(bmp_info_header_t)`. -/
abbrev bmpInfoHeaderSize : Nat := 40
/-- `sizeof(bmp_image_t)` and `sizeof(cursor_image_t)`. -/
abbrev bmpImageSize : Nat := 16
/-- `sizeof(skip_buf)`. -/
abbrev skipBufSize : Nat := 1024

/-- The fields of `bmp_file_header_t` that are read. -/
structure BmpFileHeader where
  type : Nat
  offset : Nat

/-- The fields of `bmp_info_header_t` that are read. -/
structure BmpInfoHeader where
  width : Int
  height : Int
  bpp : Nat

/-- The bytes of a local object, from its start on. -/
def localBytes (bytes : List UInt8) : Memory := fun offset => bytes.getD offset 0

def bmpFileHeaderOf (bytes : List UInt8) : BmpFileHeader := ⟨load (localBytes bytes) 0 2, load (localBytes bytes) 10 4⟩

def bmpInfoHeaderOf (bytes : List UInt8) : BmpInfoHeader :=
  ⟨i32 (load (localBytes bytes) 4 4), i32 (load (localBytes bytes) 8 4), load (localBytes bytes) 14 2⟩

/-- `bmp_image_t` and `cursor_image_t`, with the address of the record. -/
structure BmpImage where
  address : Nat
  width : Int
  height : Int
  pixels : Nat
  deriving DecidableEq

/-- `fs_read` into an object that must be filled. Only a device can put more bytes into
it than were asked for, or fewer than it says. -/
def readObject (state : FsState δ) (fd : Int) (size : Nat) : Except Stop (Option (List UInt8) × FsState δ) := do
  let (readBytes, buf, state) ← fsRead state fd size
  if size < buf.length then throw .undefined
  if readBytes ≠ size then return (none, state)
  if buf.length < size then throw .undefined
  return (some buf, state)

/-- The two headers, when both can be read and the first one begins with "BM". -/
def readBmpHeaders (state : FsState δ) (fd : Int) :
    Except Stop (Option (BmpFileHeader × BmpInfoHeader) × FsState δ) := do
  let (bytes, state) ← readObject state fd bmpFileHeaderSize
  match bytes with
  | none => return (none, state)
  | some bytes =>
    let fileHeader := bmpFileHeaderOf bytes
    if fileHeader.type ≠ 0x4D42 then return (none, state)
    let (bytes, state) ← readObject state fd bmpInfoHeaderSize
    match bytes with
    | none => return (none, state)
    | some bytes => return (some (fileHeader, bmpInfoHeaderOf bytes), state)

/-- The loop that skips `data_offset` bytes from where the file is. A device may keep it
busy for ever. -/
def skipBytes (fd : Int) : Nat → FsState δ → Nat → Except Stop (FsState δ)
  | 0, _, _ => .error .halted
  | passes + 1, state, dataOffset => do
    if dataOffset = 0 then return state
    let (readBytes, buf, state) ← fsRead state fd (min dataOffset skipBufSize)
    if skipBufSize < buf.length then throw .undefined
    if readBytes ≤ 0 then return state
    skipBytes fd passes state (u32 (u64OfInt (dataOffset - readBytes)))

/-- The four bytes of a pixel are taken apart and put together again. -/
def repackPixel (bmpPixel : Nat) : Nat :=
  let b := bmpPixel >>> 0 &&& 0xFF
  let g := bmpPixel >>> 8 &&& 0xFF
  let r := bmpPixel >>> 16 &&& 0xFF
  let a := bmpPixel >>> 24 &&& 0xFF
  a <<< 24 ||| r <<< 16 ||| g <<< 8 ||| b

/-- The loops that fill the array of an image from the rows of a file, the last row first. -/
def copyPixels (memory : Memory) (pixels width height : Nat) (bmpPixels : List UInt8) : Memory :=
  Raster.paint memory pixels width
    (fun x y => repackPixel (load (localBytes bmpPixels) (4 * Raster.place width x (height - 1 - y)) 4)) height

/-- `fs_close(fd); return NULL;` -/
def closeFailed {α : Type} (state : FsState δ) (fd : Int) : Except Stop (Option α × FsState δ) := do
  let (_, state) ← fsClose state fd
  return (none, state)

/-- What a loader has when both of its allocations have succeeded. -/
structure PreparedImage where
  fd : Int
  dataOffset : Nat
  image : BmpImage

/-- The first part of both loaders, which differ in the headers that they accept. -/
def prepareImage (accepts : BmpInfoHeader → Bool) (state : FsState δ) (path : List UInt8) :
    Except Stop (Option PreparedImage × FsState δ) := do
  let (fd, state) ← fsOpen state path oRdonly
  if fd < 0 then return (none, state)
  let (headers, state) ← readBmpHeaders state fd
  match headers with
  | none => closeFailed state fd
  | some (fileHeader, infoHeader) =>
    if !accepts infoHeader then closeFailed state fd
    else
      let (address, state) ← state.allocArray bmpImageSize 1
      if address = 0 then closeFailed state fd
      else
        let count := infoHeader.width * infoHeader.height
        if count < -2 ^ 31 ∨ 2 ^ 31 ≤ count then throw .undefined
        let (pixels, state) ← state.allocArray 4 (u64OfInt count)
        if pixels = 0 then
          let state ← state.free address
          closeFailed state fd
        else return (some ⟨fd, fileHeader.offset, ⟨address, infoHeader.width, infoHeader.height, pixels⟩⟩, state)

/-- The last part of both loaders, which differ in the call that gives the image back. -/
def readImage (release : FsState δ → BmpImage → Except Stop (FsState δ)) (state : FsState δ) (fd : Int)
    (dataOffset : Nat) (image : BmpImage) : Except Stop (Option BmpImage × FsState δ) := do
  let state ← skipBytes fd addressSpace state dataOffset
  if image.width * image.height ≤ 0 then throw .undefined
  let (bytes, state) ← readObject state fd (4 * (image.width * image.height).toNat)
  let (_, state) ← fsClose state fd
  match bytes with
  | none => do
    let state ← release state image
    return (none, state)
  | some bmpPixels =>
    let memory := copyPixels state.memory image.pixels image.width.toNat image.height.toNat bmpPixels
    return (some image, { state with memory })

def guiFreeBmp (state : FsState δ) (image : BmpImage) : Except Stop (FsState δ) := do
  if image.address = 0 then return state
  else if image.pixels = 0 then state.free image.address
  else
    let state ← state.free image.pixels
    state.free image.address

def guiAccepts (header : BmpInfoHeader) : Bool := header.bpp = 32

def guiLoadBmp (state : FsState δ) (path : List UInt8) : Except Stop (Option BmpImage × FsState δ) := do
  let (prepared, state) ← prepareImage guiAccepts state path
  match prepared with
  | none => return (none, state)
  | some ⟨fd, dataOffset, image⟩ => readImage guiFreeBmp state fd dataOffset image

def freeCursor (state : FsState δ) (cursor : BmpImage) : Except Stop (FsState δ) := do
  let state ← state.free cursor.pixels
  state.free cursor.address

def cursorAccepts (header : BmpInfoHeader) : Bool := header.width = 16 ∧ header.height = 16 ∧ header.bpp = 32

/-- The file is closed and opened again in front of the last part, which therefore skips
from its start on. -/
def loadCursorBmp (state : FsState δ) (path : List UInt8) : Except Stop (Option BmpImage × FsState δ) := do
  let (prepared, state) ← prepareImage cursorAccepts state path
  match prepared with
  | none => return (none, state)
  | some ⟨fd, dataOffset, cursor⟩ => do
    let (_, state) ← fsClose state fd
    let (fd, state) ← fsOpen state path oRdonly
    if fd < 0 then return (none, state)
    readImage freeCursor state fd dataOffset cursor

end Kernix
