import Kernix.Machine
import Mathlib.Data.Fin.Basic
import Mathlib.Data.ZMod.Defs
import Mathlib.Logic.Function.Basic

/-! The descriptor rings of `e1000.c`, which driver and device share. A descriptor points
to the buffer of its own number from `e1000_init` on, so its address is left out. The
reset, the MAC address and the registers that do not concern the rings are left out too. -/

namespace Kernix

/-- `RX_DESC_COUNT` and `TX_DESC_COUNT`. -/
abbrev descCount : Nat := 32

local instance driverSlots : NeZero descCount := ⟨by decide⟩

/-- `RX_BUFFER_SIZE` and `TX_BUFFER_SIZE`. -/
abbrev packetBufferSize : Nat := 2048

abbrev PacketBuffer := Fin packetBufferSize → UInt8

/-- `e1000_rx_desc_t`. -/
structure E1000RxDesc where
  length : Nat
  status : UInt8

/-- `e1000_tx_desc_t`. -/
structure E1000TxDesc where
  length : Nat
  cmd : UInt8
  status : UInt8

/-- `e1000_device_t`, and the head and tail registers of the two rings. -/
structure E1000Device where
  rxDescs : Fin descCount → E1000RxDesc
  txDescs : Fin descCount → E1000TxDesc
  rxBuffers : Fin descCount → PacketBuffer
  txBuffers : Fin descCount → PacketBuffer
  rxCur : Fin descCount
  txCur : Fin descCount
  rdh : Fin descCount
  rdt : Fin descCount
  tdh : Fin descCount
  tdt : Fin descCount

/-- The part of `e1000_init` that sets the rings up. -/
def e1000Init (dev : E1000Device) : E1000Device where
  rxDescs i := { dev.rxDescs i with status := 0 }
  txDescs i := { dev.txDescs i with cmd := 0, status := 1 }
  rxBuffers := dev.rxBuffers
  txBuffers := dev.txBuffers
  rxCur := 0
  txCur := 0
  rdh := 0
  rdt := Fin.last 31
  tdh := 0
  tdt := 0

/-- The bytes of `data` stand at the front of a buffer, and the rest of it stays. -/
def fillBuffer (buffer : PacketBuffer) (data : List UInt8) : PacketBuffer := fun i => data.getD i.val (buffer i)

/-- The first bytes of a buffer. -/
def readBuffer (buffer : PacketBuffer) (len : Nat) : List UInt8 := (List.ofFn buffer).take len

/-- The driver does not look whether the device is done with the descriptor. -/
def e1000SendPacket (dev : E1000Device) (data : List UInt8) : E1000Device :=
  if packetBufferSize < data.length then dev
  else
    let cur := dev.txCur
    let txCur := dev.txCur + 1
    { dev with
      txBuffers := Function.update dev.txBuffers cur (fillBuffer (dev.txBuffers cur) data)
      txDescs := Function.update dev.txDescs cur ⟨data.length, 0xB, 0⟩
      txCur
      tdt := txCur }

/-- A return value of zero is the empty list. -/
def e1000ReceivePacket (dev : E1000Device) (maxLen : Nat) : List UInt8 × E1000Device :=
  let cur := dev.rxCur
  let desc := dev.rxDescs cur
  if desc.status &&& 0x1 = 0 then ([], dev)
  else
    let rxCur := dev.rxCur + 1
    (readBuffer (dev.rxBuffers cur) (min desc.length maxLen),
      { dev with
        rxDescs := Function.update dev.rxDescs cur { desc with status := 0 }
        rxCur
        rdt := rxCur + Fin.last 31 })

/-- The device sends the packet at the head of the transmit ring, unless the ring is
empty, and sets the bit that says so. -/
def deviceTransmits (dev : E1000Device) : Option (List UInt8 × E1000Device) :=
  if dev.tdh = dev.tdt then none
  else
    let desc := dev.txDescs dev.tdh
    some (readBuffer (dev.txBuffers dev.tdh) desc.length,
      { dev with
        txDescs := Function.update dev.txDescs dev.tdh { desc with status := desc.status ||| 0x1 }
        tdh := dev.tdh + 1 })

/-- The device puts a frame into the receive ring, when a descriptor is free. -/
def deviceReceives (dev : E1000Device) (frame : List UInt8) : Option E1000Device :=
  if dev.rdh = dev.rdt then none
  else
    some { dev with
      rxBuffers := Function.update dev.rxBuffers dev.rdh (fillBuffer (dev.rxBuffers dev.rdh) frame)
      rxDescs := Function.update dev.rxDescs dev.rdh ⟨frame.length, (dev.rxDescs dev.rdh).status ||| 0x1⟩
      rdh := dev.rdh + 1 }

end Kernix
