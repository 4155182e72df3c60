import Kernix.Machine
import Mathlib.Logic.Function.Basic

/-! The three decoders of `ps2/keyboard.c`, each of which takes one byte of the controller and
hands a key on, and the driver of `usb_keyboard.c`, which compares each report slot by slot
with what it has kept of the one before. The acknowledgement of the interrupt, the interrupt
counter and the messages are left out. -/

namespace Kernix

/-- The characters of the scancodes from 0x00 to 0x3A. -/
def plainKeys : List Char :=
  ['\x00', '\x00', '1', '2', '3', '4', '5', '6', '7', '8', '9', '0', '-', '=',
   '\x08', '\t', 'q', 'w', 'e', 'r', 't', 'y', 'u', 'i', 'o', 'p', '[', ']',
   '\n', '\x00', 'a', 's', 'd', 'f', 'g', 'h', 'j', 'k', 'l', ';', '\'', '\x60',
   '\x00', '\\', 'z', 'x', 'c', 'v', 'b', 'n', 'm', ',', '.', '/', '\x00', '*', '\x00', ' ', '\x00']

/-- The same keys under Shift. -/
def shiftedKeys : List Char :=
  ['\x00', '\x00', '!', '@', '#', '$', '%', '^', '&', '*', '(', ')', '_', '+',
   '\x00', '\x00', 'Q', 'W', 'E', 'R', 'T', 'Y', 'U', 'I', 'O', 'P', '\x7b', '\x7d',
   '\n', '\x00', 'A', 'S', 'D', 'F', 'G', 'H', 'J', 'K', 'L', ':', '"', '~',
   '\x00', '|', 'Z', 'X', 'C', 'V', 'B', 'N', 'M', '<', '>', '?', '\x00', '*', '\x00', ' ', '\x00']

/-- The tables have 128 entries; those without an initializer are zero. -/
def scancodeToAscii (sc : UInt8) : UInt8 := UInt8.ofNat (plainKeys.getD sc.toNat '\x00').toNat

def scancodeToAsciiShift (sc : UInt8) : UInt8 := UInt8.ofNat (shiftedKeys.getD sc.toNat '\x00').toNat

/-- The static variables that the decoders share. -/
@[ext]
structure Modifiers where
  shiftPressed : Bool
  capsLock : Bool
  ctrlPressed : Bool
  deriving DecidableEq, Repr

/-- What a decoder hands a key to. -/
inductive KeyCall where
  | consoleHandleKey (c : Int)
  | guiHandleKey (key : Int)
  deriving DecidableEq, Repr

def isLower (key : UInt8) : Bool := 0x61 ≤ key && key ≤ 0x7A

def isUpper (key : UInt8) : Bool := 0x41 ≤ key && key ≤ 0x5A

/-- The last part of `keyboard_interrupt_handler` and of `keyboard_poll`, which is the
same in both. -/
def deliverKey (guiRunning ctrlPressed : Bool) (sc key : UInt8) : List KeyCall :=
  if ctrlPressed then
    if key = 0x63 then [.consoleHandleKey 3] else []
  else if key ≠ 0 then
    if guiRunning then
      if sc = 0x0E then [.guiHandleKey 0x08]
      else if sc = 0x1C then [.guiHandleKey 0x0A]
      else [.guiHandleKey key.toNat]
    else [.consoleHandleKey key.toNat]
  else if guiRunning then []
  else if sc = 0x48 then [.consoleHandleKey 0x80]
  else if sc = 0x50 then [.consoleHandleKey 0x81]
  else if sc = 0x4B then [.consoleHandleKey 0x82]
  else if sc = 0x4D then [.consoleHandleKey 0x83]
  else []

/-- The key of `keyboard_interrupt_handler`. -/
def interruptKey (mods : Modifiers) (sc : UInt8) : UInt8 :=
  let key := if mods.shiftPressed then scancodeToAsciiShift sc else scancodeToAscii sc
  if mods.capsLock && !mods.shiftPressed && isLower key then key - 32 else key

def keyboardInterruptHandler (guiRunning : Bool) (mods : Modifiers) (sc : UInt8) : Modifiers × List KeyCall :=
  if sc = 0 then (mods, [])
  else if sc &&& 0x80 ≠ 0 then
    let makeCode := sc &&& 0x7F
    let mods := if makeCode = 0x2A ∨ makeCode = 0x36 then { mods with shiftPressed := false } else mods
    let mods := if makeCode = 0x1D then { mods with ctrlPressed := false } else mods
    (mods, [])
  else if sc = 0x2A ∨ sc = 0x36 then ({ mods with shiftPressed := true }, [])
  else if sc = 0x3A then ({ mods with capsLock := !mods.capsLock }, [])
  else if sc = 0x1D then ({ mods with ctrlPressed := true }, [])
  else if sc = 0x9D then ({ mods with ctrlPressed := false }, [])
  else (mods, deliverKey guiRunning mods.ctrlPressed sc (interruptKey mods sc))

/-- The change of case that `keyboard_poll` and `keyboard_read_direct` make under one
of Shift and Caps Lock. -/
def toggleCase (mods : Modifiers) (key : UInt8) : UInt8 :=
  if (mods.capsLock && !mods.shiftPressed) || (!mods.capsLock && mods.shiftPressed) then
    if isLower key then key - 32 else if isUpper key then key + 32 else key
  else key

/-- The key of `keyboard_poll`. -/
def pollKey (mods : Modifiers) (sc : UInt8) : UInt8 :=
  toggleCase mods (if mods.shiftPressed || mods.capsLock then scancodeToAsciiShift sc else scancodeToAscii sc)

/-- One pass of the loop of `keyboard_poll`, with what the controller answers: without
data it halts, and the data of the mouse is thrown away. -/
def keyboardPollPass (guiRunning : Bool) (mods : Modifiers) (status sc : UInt8) : Modifiers × List KeyCall :=
  if status &&& 1 = 0 then (mods, [])
  else if status &&& 0x20 ≠ 0 then (mods, [])
  else if sc = 0 then (mods, [])
  else if sc &&& 0x80 ≠ 0 then
    let make := sc &&& 0x7F
    let mods := if make = 0x2A ∨ make = 0x36 then { mods with shiftPressed := false } else mods
    let mods := if make = 0x3A then { mods with capsLock := !mods.capsLock } else mods
    let mods := if make = 0x1D then { mods with ctrlPressed := false } else mods
    (mods, [])
  else if sc = 0x2A ∨ sc = 0x36 then ({ mods with shiftPressed := true }, [])
  else if sc = 0x3A then ({ mods with capsLock := !mods.capsLock }, [])
  else if sc = 0x1D then ({ mods with ctrlPressed := true }, [])
  else if sc = 0x9D then ({ mods with ctrlPressed := false }, [])
  else (mods, deliverKey guiRunning mods.ctrlPressed sc (pollKey mods sc))

/-- The key of `keyboard_read_direct`. -/
def directKey (mods : Modifiers) (sc : UInt8) : UInt8 :=
  let key := if mods.shiftPressed then scancodeToAsciiShift sc else scancodeToAscii sc
  let key := if mods.capsLock && !mods.shiftPressed && isLower key then key - 32 else key
  toggleCase mods key

/-- The character, or 0 when there is none. -/
def keyboardReadDirect (mods : Modifiers) (status sc : UInt8) : Modifiers × UInt8 :=
  if status &&& 1 = 0 then (mods, 0)
  else if sc = 0 then (mods, 0)
  else if sc &&& 0x80 ≠ 0 then
    let make := sc &&& 0x7F
    let mods := if make = 0x2A ∨ make = 0x36 then { mods with shiftPressed := false } else mods
    let mods := if make = 0x3A then { mods with capsLock := !mods.capsLock } else mods
    (mods, 0)
  else if sc = 0x2A ∨ sc = 0x36 then ({ mods with shiftPressed := true }, 0)
  else if sc = 0x3A then ({ mods with capsLock := !mods.capsLock }, 0)
  else (mods, directKey mods sc)

section Usb

/-- The characters of the key codes from 0x04 to 0x38. -/
def hidKeys : List Char :=
  ['a', 'b', 'c', 'd', 'e', 'f', 'g', 'h', 'i', 'j', 'k', 'l', 'm', 'n', 'o', 'p', 'q', 'r', 's', 't', 'u', 'v', 'w',
   'x', 'y', 'z', '1', '2', '3', '4', '5', '6', '7', '8', '9', '0', '\n', '\x1b', '\x08', '\t', ' ', '-', '=', '[',
   ']', '\\', '\x00', ';', '\'', '\x60', ',', '.', '/']

/-- The table has 256 entries; those without an initializer are zero. -/
def hidToAscii (key : UInt8) : UInt8 :=
  if key < 0x04 then 0 else UInt8.ofNat (hidKeys.getD (key.toNat - 0x04) '\x00').toNat

/-- The digits from `1` to `9` under Shift. -/
def shiftedDigits : List Char := ['!', '@', '#', '$', '%', '^', '&', '*', '(', ')']

def isDigit (ascii : UInt8) : Bool := 0x31 ≤ ascii && ascii ≤ 0x39

/-- The other keys that Shift changes. -/
def shiftedSigns : List (Char × Char) :=
  [('\x60', '~'), ('-', '_'), ('=', '+'), ('[', '\x7b'), (']', '\x7d'), ('\\', '|'), (';', ':'), ('\'', '"'),
   (',', '<'), ('.', '>'), ('/', '?')]

def shiftAscii (ascii : UInt8) : UInt8 :=
  if isLower ascii then ascii - 32
  else if isDigit ascii then UInt8.ofNat (shiftedDigits.getD (ascii.toNat - 0x31) '\x00').toNat
  else
    match shiftedSigns.find? (fun sign => sign.1.toNat = ascii.toNat) with
    | some sign => UInt8.ofNat sign.2.toNat
    | none => ascii

/-- What the callback is called with for a key, if it is called. -/
def keyAscii (shift : Bool) (key : UInt8) : Option Int :=
  let ascii := hidToAscii key
  if ascii ≠ 0 then some (if shift then shiftAscii ascii else ascii).toNat
  else if key = 0x52 then some 0x80
  else if key = 0x51 then some 0x81
  else if key = 0x50 then some 0x82
  else if key = 0x4F then some 0x83
  else none

/-- `usb_kb_report_t`, without the byte that is reserved. -/
structure UsbKbReport where
  modifiers : UInt8
  keys : Fin 6 → UInt8

/-- The static variables. Of the callback it matters whether there is one. -/
structure UsbKeyboard where
  usbKbCallback : Bool
  prevKeys : Fin 6 → UInt8
  prevModifiers : UInt8

/-- How the variables start. -/
def usbKeyboardStart : UsbKeyboard := ⟨false, fun _ => 0, 0⟩

def usbKeyboardSetCallback (keyboard : UsbKeyboard) (cb : Bool) : UsbKeyboard := { keyboard with usbKbCallback := cb }

/-- The loop that looks for new keys, and the calls it makes. -/
def handleKeys (keys : Fin 6 → UInt8) (shift : Bool) : List (Fin 6) → (Fin 6 → UInt8) → (Fin 6 → UInt8) × List Int
  | [], prevKeys => (prevKeys, [])
  | i :: rest, prevKeys =>
    let key := keys i
    if key = prevKeys i then handleKeys keys shift rest prevKeys
    else if key = 0 then handleKeys keys shift rest (Function.update prevKeys i 0)
    else
      let (after, calls) := handleKeys keys shift rest (Function.update prevKeys i key)
      (after, (keyAscii shift key).toList ++ calls)

/-- The loop that drops the keys that are not pressed any more. -/
def releaseKeys (keys : Fin 6 → UInt8) : List (Fin 6) → (Fin 6 → UInt8) → Fin 6 → UInt8
  | [], prevKeys => prevKeys
  | i :: rest, prevKeys =>
    let stillPressed := (List.finRange 6).any fun j => keys j = prevKeys i && keys j ≠ 0
    releaseKeys keys rest (if stillPressed then prevKeys else Function.update prevKeys i 0)

def usbKeyboardHandleReport (keyboard : UsbKeyboard) (report : UsbKbReport) : UsbKeyboard × List Int :=
  if !keyboard.usbKbCallback then (keyboard, [])
  else
    let shift := decide (report.modifiers &&& 0x22 ≠ 0)
    let (prevKeys, calls) := handleKeys report.keys shift (List.finRange 6) keyboard.prevKeys
    let prevKeys := releaseKeys report.keys (List.finRange 6) prevKeys
    ({ keyboard with prevKeys, prevModifiers := report.modifiers }, calls)

end Usb

end Kernix
