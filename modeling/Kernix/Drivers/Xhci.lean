import Kernix.Machine
import Mathlib.Data.Fin.Basic
import Mathlib.Data.ZMod.Defs
import Mathlib.Logic.Function.Basic

/-! The event ring of `xhci.c`, and the parser for HID report descriptors, which the four
drivers of host controllers have each as a function of its own: all it leaves behind is the
type of the device. The messages, the command ring and the registers that do not concern
events are left out. -/

namespace Kernix

/-- The entries of the event ring. -/
abbrev eventRingSize : Nat := 256

local instance controllerSlots : NeZero eventRingSize := ⟨by decide⟩

/-- `XHCI_TRB_TYPE_TRANSFER_EVENT`. -/
abbrev xhciTransferEvent : UInt32 := 32

/-- `xhci_trb_t`. -/
structure XhciTrb where
  parameter : UInt32
  status : UInt32
  command : UInt32
  control : UInt32
  deriving DecidableEq, Repr

/-- The two handlers that an event is handed to. Their argument is a pointer. -/
inductive XhciCall where
  | usbKeyboardHandleReport (report : UInt32)
  | usbMouseInterruptHandler (data length : UInt32)
  deriving DecidableEq, Repr

/-- `xhci_ctrl` with the register `erdp[0]`, which holds the place of an entry, and the
types of the devices. -/
structure XhciController where
  initialized : Bool
  eventRing : Fin eventRingSize → XhciTrb
  eventRingIndex : Fin eventRingSize
  erdp : Fin eventRingSize
  types : Nat → UInt8

/-- The part of `xhci_init` that sets the event ring up, in memory that
`kernel_memory_alloc` has cleared. -/
def xhciInit (types : Nat → UInt8) : XhciController where
  initialized := true
  eventRing _ := ⟨0, 0, 0, 0⟩
  eventRingIndex := 0
  erdp := 0
  types := types

/-- What `xhci_handle_event` does with an event. -/
def eventCalls (types : Nat → UInt8) (event : XhciTrb) : List XhciCall :=
  if (event.control >>> 10) &&& 0x3F = xhciTransferEvent then
    let slotId := (event.control >>> 24) &&& 0xFF
    let type := types slotId.toNat
    if type = 1 then [.usbKeyboardHandleReport event.parameter]
    else if type = 2 then [.usbMouseInterruptHandler event.parameter (event.status &&& 0xFFFF)]
    else []
  else []

/-- The event that `xhci_handle_event` finds: an entry whose cycle bit is one. -/
def xhciFoundEvent (ctrl : XhciController) : Option XhciTrb :=
  let event := ctrl.eventRing ctrl.eventRingIndex
  if ctrl.initialized && event.control &&& 1 ≠ 0 then some event else none

def xhciHandleEvent (ctrl : XhciController) : List XhciCall × XhciController :=
  match xhciFoundEvent ctrl with
  | none => ([], ctrl)
  | some event =>
    let eventRingIndex := ctrl.eventRingIndex + 1
    (eventCalls ctrl.types event, { ctrl with eventRingIndex, erdp := eventRingIndex })

section Reports

/-- An item that the parser passes: where it starts, how many bytes of data are taken for
its own, and what it says. -/
structure HidItem where
  offset : Nat
  bytes : Nat
  bType : Nat
  bTag : Nat
  data : Nat
  deriving DecidableEq, Repr

/-- `report_desc[index]`, of an array of as many bytes as the descriptor has. -/
def reportByte (reportDesc : List UInt8) (index : Nat) : Except Stop UInt8 :=
  match reportDesc[index]? with
  | some byte => .ok byte
  | none => .error .undefined

/-- `for (uint8_t j = 0; j < bSize; j++)`, with the turns that are left. -/
def itemData (reportDesc : List UInt8) (i : Nat) : Nat → Nat → Nat → Except Stop Nat
  | 0, _, data => .ok data
  | left + 1, j, data => do
    let byte ← reportByte reportDesc (i + 1 + j)
    itemData reportDesc i left (j + 1) (data ||| byte.toNat <<< (j * 8))

/-- The type that an item gives the device, for the type and the tag that are looked for. -/
def namedType (bType bTag type : Nat) (item : HidItem) : Nat :=
  if item.bType = bType ∧ item.bTag = bTag then
    if item.data = 0x04 then 1 else if item.data = 0x02 then 2 else type
  else type

/-- The loop from an index on, with the items that it passes and the type that it leaves.
`none` is a loop that has not ended yet. -/
def parseItems (reportDesc : List UInt8) : Nat → Nat → Nat → Except Stop (Option (List HidItem × Nat))
  | 0, _, _ => .ok none
  | fuel + 1, i, type =>
    if i < reportDesc.length then do
      let head ← reportByte reportDesc i
      let bSize := (head &&& 0x03).toNat
      let bType := ((head >>> 2) &&& 0x03).toNat
      let bTag := ((head >>> 4) &&& 0x0F).toNat
      let data ← itemData reportDesc i bSize 0 0
      let item : HidItem := ⟨i, bSize, bType, bTag, data⟩
      let rest ← parseItems reportDesc fuel ((i + 1 + bSize) % 2 ^ 16) (namedType 1 9 type item)
      return rest.map fun (items, type) => (item :: items, type)
    else .ok (some ([], type))

/-- The parser, for a device of some type. -/
def parseHidReport (fuel : Nat) (reportDesc : List UInt8) (type : Nat) : Except Stop (Option (List HidItem × Nat)) :=
  parseItems reportDesc fuel 0 type

def xhciParseHidReport := parseHidReport
def ohciParseHidReport := parseHidReport
def ehciParseHidReport := parseHidReport
def uhciParseHidReport := parseHidReport

end Reports

end Kernix
