import Kernix.Common.Array

/-! Numbers and their decimal texts: `str_reverse`, `str_to_int` and `str_from_int` of
`string.c`, and `IntToString` of `print.c`. A buffer is an array of the caller, and no
pointer is `NULL`. -/

namespace Kernix

variable {size : Nat}

/-- An `int` has no more decimal digits. -/
abbrev intDigits : Nat := 10

/-- `'0' + digit`, as a `char`. -/
def digitChar (digit : Int) : UInt8 := UInt8.ofNat ((0x30 + digit) % 256).toNat

def minus : UInt8 := 0x2D

/-- The three exclusive ors that exchange two bytes. -/
def swapChars (buffer : Fin size → UInt8) (first last : Int) : Except Stop (Fin size → UInt8) := do
  let buffer ← setElement buffer first ((← elementAt buffer first) ^^^ (← elementAt buffer last))
  let buffer ← setElement buffer last ((← elementAt buffer last) ^^^ (← elementAt buffer first))
  setElement buffer first ((← elementAt buffer first) ^^^ (← elementAt buffer last))

/-- The loop of `str_reverse`, from the two ends to the middle. -/
def reverseBetween : Nat → (Fin size → UInt8) → Int → Int → Except Stop (Fin size → UInt8)
  | 0, _, _, _ => .error .halted
  | turns + 1, buffer, first, last =>
    if first < last then do
      let buffer ← swapChars buffer first last
      reverseBetween turns buffer (first + 1) (last - 1)
    else .ok buffer

def strReverse (buffer : Fin size → UInt8) : Except Stop (Fin size → UInt8) := do
  let found ← textAt buffer 0
  reverseBetween (size + 1) buffer 0 (found.length - 1)

/-- `while (*ptr >= '0' && *ptr <= '9')`, with the value so far. -/
def digitsToInt (resultValue : Int) : List UInt8 → Except Stop Int
  | [] => .ok resultValue
  | char :: rest =>
    if 0x30 ≤ char ∧ char ≤ 0x39 then do
      let scaled ← intValue (resultValue * 10)
      let resultValue ← intValue (scaled + (char.toNat - 0x30))
      digitsToInt resultValue rest
    else .ok resultValue

/-- `str_to_int` from its sign on. -/
def signedToInt : List UInt8 → Except Stop Int
  | [] => .ok 0
  | char :: rest => do
    if char = minus then intValue (-(← digitsToInt 0 rest))
    else if char = 0x2B then digitsToInt 0 rest
    else digitsToInt 0 (char :: rest)

def strToInt (inputString : List UInt8) : Except Stop Int :=
  signedToInt (inputString.dropWhile fun char => char = 0x20 ∨ char = 0x09)

/-- `if (value < 0) value = -value;` -/
def magnitude (value : Int) : Except Stop Int := if value < 0 then intValue (-value) else .ok value

/-- `do { *buf_ptr++ = '0' + (value % 10); value /= 10; } while (value);` -/
def putDigits : Nat → (Fin size → UInt8) → Int → Int → Except Stop ((Fin size → UInt8) × Int)
  | 0, _, _, _ => .error .halted
  | turns + 1, buffer, bufPtr, value => do
    let buffer ← setElement buffer bufPtr (digitChar (value.tmod 10))
    let value := value.tdiv 10
    if value ≠ 0 then putDigits turns buffer (bufPtr + 1) value else return (buffer, bufPtr + 1)

/-- `if (is_negative) *buf_ptr++ = '-';` -/
def putSign (isNegative : Bool) (buffer : Fin size → UInt8) (bufPtr : Int) : Except Stop ((Fin size → UInt8) × Int) := do
  if isNegative then
    let buffer ← setElement buffer bufPtr minus
    return (buffer, bufPtr + 1)
  else return (buffer, bufPtr)

def strFromInt (buffer : Fin size → UInt8) (value : Int) : Except Stop (Fin size → UInt8) := do
  let isNegative : Bool := value < 0
  let value ← magnitude value
  let (buffer, bufPtr) ← putDigits intDigits buffer 0 value
  let (buffer, bufPtr) ← putSign isNegative buffer bufPtr
  let buffer ← setElement buffer bufPtr 0
  strReverse buffer

/-- `temp` of `IntToString`. -/
abbrev TempBuffer := Fin 12 → UInt8

/-- `while (value > 0) { temp[temp_index++] = (value % 10) + '0'; value /= 10; }` -/
def tempDigits : Nat → TempBuffer → Int → Int → Except Stop (TempBuffer × Int)
  | 0, _, _, _ => .error .halted
  | turns + 1, temp, tempIndex, value => do
    if 0 < value then
      let temp ← setElement temp tempIndex (digitChar (value.tmod 10))
      tempDigits turns temp (tempIndex + 1) (value.tdiv 10)
    else return (temp, tempIndex)

/-- `while (temp_index > 0) buffer[buffer_index++] = temp[--temp_index];` -/
def copyBack (temp : TempBuffer) : Nat → (Fin size → UInt8) → Int → Except Stop ((Fin size → UInt8) × Int)
  | 0, buffer, bufferIndex => .ok (buffer, bufferIndex)
  | tempIndex + 1, buffer, bufferIndex => do
    let char ← elementAt temp tempIndex
    let buffer ← setElement buffer bufferIndex char
    copyBack temp tempIndex buffer (bufferIndex + 1)

/-- `IntToString`. What `temp` holds at first is not read. -/
def intToString (value : Int) (buffer : Fin size → UInt8) : Except Stop (Fin size → UInt8) := do
  let isNegative : Bool := value < 0
  let value ← magnitude value
  if value = 0 then
    let buffer ← setElement buffer 0 (digitChar 0)
    setElement buffer 1 0
  else
    let (temp, tempIndex) ← tempDigits (intDigits + 1) (fun _ => 0) 0 value
    let (buffer, bufferIndex) ← putSign isNegative buffer 0
    let (buffer, bufferIndex) ← copyBack temp tempIndex.toNat buffer bufferIndex
    setElement buffer bufferIndex 0

end Kernix
