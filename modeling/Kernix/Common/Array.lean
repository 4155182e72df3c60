import Kernix.Machine
import Mathlib.Logic.Function.Basic

/-! C arrays of a known size, which an `int` indexes, and the functions of `string.c` on
those that hold strings. A source string is the list of its bytes, with a zero byte behind
the last; a copy goes into an array. -/

namespace Kernix

section Strings

/-- `while ((*dest_ptr++ = *src_ptr++));` from a position in the destination on. -/
def strCopyFrom {size : Nat} (destination : Fin size → UInt8) (position : Nat) :
    List UInt8 → Except Stop (Fin size → UInt8)
  | [] =>
    if inside : position < size then .ok (Function.update destination ⟨position, inside⟩ 0)
    else .error .undefined
  | byte :: source =>
    if inside : position < size then
      let destination := Function.update destination ⟨position, inside⟩ byte
      if byte = 0 then .ok destination else strCopyFrom destination (position + 1) source
    else .error .undefined

def strCopy {size : Nat} (destination : Fin size → UInt8) (source : List UInt8) : Except Stop (Fin size → UInt8) :=
  strCopyFrom destination 0 source

/-- The string that an array holds: its bytes in front of the first zero. -/
def text {size : Nat} (array : Fin size → UInt8) : List UInt8 := (List.ofFn array).takeWhile (· ≠ 0)

/-- The string at a position of a buffer. Past the end of the buffer it is undefined. -/
def textAt {size : Nat} (buf : Fin size → UInt8) (position : Nat) : Except Stop (List UInt8) :=
  let rest := (List.ofFn buf).drop position
  if 0 ∈ rest then .ok (rest.takeWhile (· ≠ 0)) else .error .undefined

/-- `str_copy` from a buffer, which needs a zero in front of its end. -/
def strCopyAt {size length : Nat} (destination : Fin size → UInt8) (source : Fin length → UInt8) (position : Nat) :
    Except Stop (Fin size → UInt8) := do
  let text ← textAt source position
  strCopy destination text

/-- `str_append`, of a string that lies outside the destination. -/
def strAppend {size : Nat} (destination : Fin size → UInt8) (source : List UInt8) : Except Stop (Fin size → UInt8) := do
  let found ← textAt destination 0
  strCopyFrom destination found.length source

/-- `str_len`, an `int`. -/
def strLen {size : Nat} (array : Fin size → UInt8) : Except Stop Int := do
  let found ← textAt array 0
  return i32 found.length

def strStartsWith : List UInt8 → List UInt8 → Bool
  | _, [] => true
  | [], _ :: _ => false
  | byte :: input, first :: start => byte = first && strStartsWith input start

def strEquals : List UInt8 → List UInt8 → Bool
  | [], [] => true
  | byte :: first, other :: second => byte = other && strEquals first second
  | _, _ => false

/-- The bytes of a string literal. -/
def literal (text : String) : List UInt8 := text.toList.map fun char => UInt8.ofNat char.toNat

end Strings

variable {α : Type} {size : Nat}

def elementAt (array : Fin size → α) (index : Int) : Except Stop α :=
  if inside : 0 ≤ index ∧ index < size then .ok (array ⟨index.toNat, by omega⟩) else .error .undefined

def setElement (array : Fin size → α) (index : Int) (value : α) : Except Stop (Fin size → α) :=
  if inside : 0 ≤ index ∧ index < size then .ok (Function.update array ⟨index.toNat, by omega⟩ value)
  else .error .undefined

/-- `array[j] = array[j + 1]`, `left` times from `j` on. -/
def shiftElements (array : Fin size → α) : Nat → Nat → Except Stop (Fin size → α)
  | 0, _ => .ok array
  | left + 1, j => do
    let next ← elementAt array (j + 1 : Nat)
    let array ← setElement array j next
    shiftElements array left (j + 1)

/-- `array[i] = array[i - 1]`, `left` times from `i` down. -/
def pushElements (array : Fin size → α) : Nat → Int → Except Stop (Fin size → α)
  | 0, _ => .ok array
  | left + 1, i => do
    let previous ← elementAt array (i - 1)
    let array ← setElement array i previous
    pushElements array left (i - 1)

/-- `str_copy(array[target], array[source] + position)`. -/
def strCopyRow {rows : Nat} (array : Fin rows → Fin size → UInt8) (target source position : Int) :
    Except Stop (Fin rows → Fin size → UInt8) := do
  if position < 0 then throw .undefined
  let copied ← elementAt array source
  let destination ← elementAt array target
  let destination ← strCopyAt destination copied position.toNat
  setElement array target destination

/-- The first element that passes a test, among `left` ones from `i` on. -/
def findElement (array : Fin size → α) (test : α → Bool) : Nat → Nat → Except Stop (Option Nat)
  | 0, _ => .ok none
  | left + 1, i => do
    let element ← elementAt array i
    if test element then return some i
    findElement array test left (i + 1)

@[simp] theorem elementAt_eq (array : Fin size → α) {index : Nat} (inside : index < size) :
    elementAt array index = .ok (array ⟨index, inside⟩) := by
  simp [elementAt, inside]

@[simp] theorem setElement_eq (array : Fin size → α) {index : Nat} (inside : index < size) (value : α) :
    setElement array index value = .ok (Function.update array ⟨index, inside⟩ value) := by
  simp [setElement, inside]

end Kernix
