import Kernix.Common.Array

/-! The pointers of the two mouse drivers, `mouse.c` and `usb_mouse.c`. The counts of the
interrupts, what is drawn and what the callbacks do are left out. -/

namespace Kernix

/-- The position along an axis and its accumulator, in hundredths of a pixel. -/
structure Axis where
  position : Int
  accum : Int
  deriving DecidableEq, Repr

/-- An `int8_t`. -/
def i8 (byte : UInt8) : Int := if byte.toNat < 128 then byte.toNat else byte.toNat - 256

/-- A value cut to an `int16_t`. -/
def i16 (value : Int) : Int := (value + 2 ^ 15) % 2 ^ 16 - 2 ^ 15

/-- A position, and `position * 100` for its accumulator. -/
def placeAxis (position : Int) : Except Stop Axis := do
  let accum ← intValue (position * 100)
  return ⟨position, accum⟩

/-- The tests of both handlers along an axis. Only a position that is changed gets another
accumulator. -/
def clampAxis (size cursor : Nat) (accum : Int) : Except Stop Axis :=
  let axis : Axis := ⟨accum.tdiv 100, accum⟩
  let axis := if axis.position < 0 then ⟨0, 0⟩ else axis
  if i32 (u32 (size + (2 ^ 32 - cursor))) ≤ axis.position then
    placeAxis (i32 (u32 (u32 (size + (2 ^ 32 - cursor)) + (2 ^ 32 - 1))))
  else .ok axis

section Ps2

/-- The static variables of `mouse.c`; of the image of the cursor its width and height. -/
structure Mouse where
  mouseCursorImage : Option (Nat × Nat)
  mouseCycle : Nat
  mousePacket : Fin 4 → UInt8
  x : Axis
  y : Axis
  mouseButtons : UInt8
  mouseInitialized : Bool
  mouseSensitivityFactor : Int

abbrev mouseCursorWidth : Nat := 16
abbrev mouseCursorHeight : Nat := 16

/-- How the variables start. -/
def mouseStart : Mouse := ⟨none, 0, fun _ => 0, ⟨400, 40000⟩, ⟨300, 30000⟩, 0, false, 120⟩

variable (fbWidth fbHeight : Nat)

/-- `mouse_init`, without what it tells the device. -/
def mouseInit (mouse : Mouse) : Except Stop Mouse :=
  if mouse.mouseInitialized then .ok mouse
  else do
    let image := if mouse.mouseCursorImage = none then some (16, 16) else mouse.mouseCursorImage
    let mouse := { mouse with mouseCursorImage := image, mouseInitialized := true }
    if 0 < fbWidth ∧ 0 < fbHeight then
      let x ← placeAxis (i32 (fbWidth / 2))
      let y ← placeAxis (i32 (fbHeight / 2))
      return { mouse with x, y }
    else return mouse

def mouseSetSensitivity (factor : Int) (mouse : Mouse) : Mouse :=
  let factor := if factor < 10 then 10 else factor
  let factor := if 500 < factor then 500 else factor
  { mouse with mouseSensitivityFactor := factor }

/-- A movement, scaled and, when it is a quick one, made longer. -/
def scaledDelta (factor rel : Int) (quick : Bool) : Except Stop Int := do
  let scaled ← intValue (rel * factor)
  if quick then
    let longer ← intValue (scaled * 14)
    return longer.tdiv 10
  else return scaled

/-- What a whole packet does. -/
def movePointer (mouse : Mouse) : Except Stop Mouse := do
  let state := mouse.mousePacket 0
  let relX := i8 (mouse.mousePacket 1)
  let relY := i8 (mouse.mousePacket 2)
  let quick := (5 < relX ∨ relX < -5) ∨ (5 < relY ∨ relY < -5)
  let deltaX ← scaledDelta mouse.mouseSensitivityFactor relX quick
  let deltaY ← scaledDelta mouse.mouseSensitivityFactor relY quick
  let accumX ← intValue (mouse.x.accum + deltaX)
  let accumY ← intValue (mouse.y.accum - deltaY)
  let cursor := mouse.mouseCursorImage.getD (mouseCursorWidth, mouseCursorHeight)
  let mouse := { mouse with mouseButtons := state &&& 0x07 }
  if 0 < fbWidth ∧ 0 < fbHeight then
    let x ← clampAxis fbWidth cursor.1 accumX
    let y ← clampAxis fbHeight cursor.2 accumY
    return { mouse with x, y }
  else return { mouse with x := ⟨accumX.tdiv 100, accumX⟩, y := ⟨accumY.tdiv 100, accumY⟩ }

/-- `mouse_interrupt_handler`, for the two bytes that it reads from the ports. The first
byte of a packet has bit 3 set; any other is dropped. -/
def mouseInterruptHandler (status b : UInt8) (mouse : Mouse) : Except Stop Mouse :=
  if status &&& 0x20 = 0 then .ok mouse
  else if mouse.mouseCycle = 0 ∧ b &&& 0x08 = 0 then .ok mouse
  else do
    let packet ← setElement mouse.mousePacket mouse.mouseCycle b
    let mouse := { mouse with mousePacket := packet, mouseCycle := (mouse.mouseCycle + 1) % 2 ^ 8 }
    if mouse.mouseCycle = 3 then movePointer fbWidth fbHeight { mouse with mouseCycle := 0 }
    else return mouse

/-- What happens to a mouse that runs. -/
inductive MouseEvent where
  | sensitivity (factor : Int)
  | interrupt (status b : UInt8)

def mouseEvent (mouse : Mouse) : MouseEvent → Except Stop Mouse
  | .sensitivity factor => .ok (mouseSetSensitivity factor mouse)
  | .interrupt status b => mouseInterruptHandler fbWidth fbHeight status b mouse

end Ps2

section Usb

/-- The static variables of `usb_mouse.c`. -/
structure UsbMouse where
  x : Axis
  y : Axis
  usbMouseButtons : UInt8
  usbMouseInitialized : Bool

abbrev usbMouseCursorWidth : Nat := 16
abbrev usbMouseCursorHeight : Nat := 16

def usbMouseStart : UsbMouse := ⟨⟨400, 40000⟩, ⟨300, 30000⟩, 0, false⟩

variable (fbWidth fbHeight : Nat)

def usbMouseInit (mouse : UsbMouse) : Except Stop UsbMouse :=
  if mouse.usbMouseInitialized then .ok mouse
  else do
    let mouse := { mouse with usbMouseInitialized := true }
    if 0 < fbWidth ∧ 0 < fbHeight then
      let x ← placeAxis (i32 (fbWidth / 2))
      let y ← placeAxis (i32 (fbHeight / 2))
      return { mouse with x, y }
    else return mouse

/-- A movement, of one byte or of two, which is doubled when it is a quick one. -/
def usbDelta (short low high : UInt8) (reportSize : Int) : Int :=
  let delta := if 5 ≤ reportSize then i16 ((low.toNat ||| high.toNat <<< 8 : Nat) : Int) else i8 short
  if 10 < delta ∨ delta < -10 then i16 (delta * 2) else delta

/-- The bytes of a report that are read are those that its size tells. -/
def usbMouseInterruptHandler (report : Nat → UInt8) (reportSize : Int) (mouse : UsbMouse) : Except Stop UsbMouse :=
  if reportSize < 4 then .ok mouse
  else do
    let deltaX := usbDelta (report 1) (report 1) (report 2) reportSize
    let deltaY := usbDelta (report 2) (report 3) (report 4) reportSize
    let scaledX ← intValue (deltaX * 100)
    let accumX ← intValue (mouse.x.accum + scaledX)
    let scaledY ← intValue (deltaY * 100)
    let accumY ← intValue (mouse.y.accum + scaledY)
    let x ← clampAxis (if fbWidth = 0 then 800 else fbWidth) usbMouseCursorWidth accumX
    let y ← clampAxis (if fbHeight = 0 then 600 else fbHeight) usbMouseCursorHeight accumY
    return { mouse with x, y, usbMouseButtons := report 0 &&& 0x07 }

end Usb

end Kernix
