import Kernix.Lib.Runs
import Kernix.Machine
import Mathlib.Data.Fin.Basic

/-! The enumeration of `drivers/pci/devices.c`, the configuration ports of
`drivers/pci/configuration.c` that it reads, and the capability list that
`drivers/pci/express_pci.c` looks through for each device. -/

namespace Kernix

local instance configSlots : NeZero 32 := ⟨by decide⟩
local instance configFunctions : NeZero 8 := ⟨by decide⟩

/-- What the function at a bus, slot and function number answers for a register. -/
abbrev ConfigSpace := UInt8 → Fin 32 → Fin 8 → UInt8 → UInt32

/-- `BUS_REG_CLASS_REV` and its neighbours. -/
abbrev busRegVendorId : UInt8 := 0x00
abbrev busRegClassRev : UInt8 := 0x08
abbrev busRegHeaderType : UInt8 := 0x0E
abbrev busRegBar0 : UInt8 := 0x10
abbrev busRegSecBus : UInt8 := 0x19

/-- The value at the data port, for an address that was put out before. -/
def configData (config : ConfigSpace) (address : UInt32) : UInt32 :=
  config (address >>> 16).toUInt8 (Fin.ofNat 32 (address >>> 11).toNat) (Fin.ofNat 8 (address >>> 8).toNat)
    (address.toUInt8 &&& 0xFC)

/-- The address that `bus_config_read_dword` puts out. -/
def configAddr (busNum devNum funcNum regOffset : UInt8) : UInt32 :=
  busNum.toUInt32 <<< 16 ||| devNum.toUInt32 <<< 11 ||| funcNum.toUInt32 <<< 8 ||| (regOffset &&& 0xFC).toUInt32 |||
    0x80000000

def busConfigReadDword (config : ConfigSpace) (busNum devNum funcNum regOffset : UInt8) : UInt32 :=
  configData config (configAddr busNum devNum funcNum regOffset)

def busConfigReadWord (config : ConfigSpace) (busNum devNum funcNum regOffset : UInt8) : UInt16 :=
  let fullValue := busConfigReadDword config busNum devNum funcNum (regOffset &&& 0xFC)
  let byteOffset := regOffset &&& 2
  (fullValue >>> (byteOffset * 8).toUInt32 &&& 0xFFFF).toUInt16

def busConfigReadByte (config : ConfigSpace) (busNum devNum funcNum regOffset : UInt8) : UInt8 :=
  let fullValue := busConfigReadDword config busNum devNum funcNum (regOffset &&& 0xFC)
  let byteOffset := regOffset &&& 3
  (fullValue >>> (byteOffset * 8).toUInt32 &&& 0xFF).toUInt8

/-- `pci_device_t`. -/
structure PciDevice where
  manufacturerId : UInt16
  productId : UInt16
  busNumber : UInt8
  slotNumber : UInt8
  functionNumber : UInt8
  deviceClass : UInt8
  deviceSubclass : UInt8
  progInterface : UInt8
  revisionId : UInt8
  headerFormat : UInt8
  isMultifunction : UInt8
  baseAddresses : Fin 6 → UInt32

/-- `DEVICE_CAP`. -/
abbrev deviceCap : Nat := 256

/-- Whether the read of the ids says that a function is absent. -/
def vendorAbsent (id : UInt32) : Bool := (id &&& 0xFFFF).toUInt16 = 0xFFFF

/-- The entry that the scan fills in. -/
def madEntry (config : ConfigSpace) (bus slot func : UInt8) : PciDevice :=
  let idTwist := busConfigReadDword config bus slot func busRegVendorId
  let classHorror := busConfigReadDword config bus slot func busRegClassRev
  let headerNightmare := busConfigReadDword config bus slot func busRegHeaderType
  { manufacturerId := (idTwist &&& 0xFFFF).toUInt16
    productId := (idTwist >>> 16 &&& 0xFFFF).toUInt16
    busNumber := bus
    slotNumber := slot
    functionNumber := func
    deviceClass := (classHorror >>> 24 &&& 0xFF).toUInt8
    deviceSubclass := (classHorror >>> 16 &&& 0xFF).toUInt8
    progInterface := (classHorror >>> 8 &&& 0xFF).toUInt8
    revisionId := (classHorror &&& 0xFF).toUInt8
    headerFormat := (headerNightmare >>> 16 &&& 0x7F).toUInt8
    isMultifunction := (headerNightmare >>> 16 &&& 0x80).toUInt8
    baseAddresses := fun bar => busConfigReadDword config bus slot func (busRegBar0 + UInt8.ofNat bar.val * 4) }

/-- Where `bus_device_scan_bus` is: at the test of its inner loop, or back at its caller. -/
inductive ScanPoint where
  | functions (slot func : UInt8)
  | returned

/-- The list has `crazy_count` entries. -/
structure ScanState where
  point : ScanPoint
  devices : List PciDevice

/-- The test of the outer loop. -/
def scanSlot (slot : UInt8) : ScanPoint := if slot < 32 then .functions slot 0 else .returned

/-- One turn of the inner loop, and the end of it. -/
def scanStep (config : ConfigSpace) (bus : UInt8) (state : ScanState) : ScanState :=
  match state.point with
  | .returned => state
  | .functions slot func =>
    if 8 ≤ func then ⟨scanSlot (slot + 1), state.devices⟩
    else if vendorAbsent (busConfigReadDword config bus slot func busRegVendorId) then
      -- the slot moves on without the test of the outer loop
      if func = 0 then ⟨.functions (slot + 1) func, state.devices⟩
      else ⟨.functions slot (func + 1), state.devices⟩
    else if deviceCap ≤ state.devices.length then ⟨.returned, state.devices⟩
    else
      let entry := madEntry config bus slot func
      if func = 0 ∧ entry.isMultifunction = 0 then ⟨scanSlot (slot + 1), state.devices ++ [entry]⟩
      else ⟨.functions slot (func + 1), state.devices ++ [entry]⟩

/-- The list that the scan leaves, when so many steps are enough for it. -/
def busDeviceScanBus (config : ConfigSpace) (bus : UInt8) (devices : List PciDevice) (steps : Nat) :
    Option (List PciDevice) :=
  let state := (scanStep config bus)^[steps] ⟨scanSlot 0, devices⟩
  match state.point with
  | .returned => some state.devices
  | .functions _ _ => none

/-- The bus that `bus_device_initialize` scans for an entry. -/
def nextBus (config : ConfigSpace) (device : PciDevice) : Option UInt8 :=
  if device.deviceClass = 0x06 ∧ device.deviceSubclass = 0x04 then
    let bridgeMagic :=
      busConfigReadDword config device.busNumber device.slotNumber device.functionNumber busRegSecBus
    let next := (bridgeMagic >>> 8 &&& 0xFF).toUInt8
    if 0 < next then some next else none
  else none

/-- The loop over the entries, which may get more on the way. -/
def bridgeHunt (config : ConfigSpace) : Nat → Nat → List PciDevice → Option (List PciDevice)
  | 0, _, _ => none
  | steps + 1, hunt, devices =>
    match devices[hunt]? with
    | none => some devices
    | some device =>
      match nextBus config device with
      | none => bridgeHunt config steps (hunt + 1) devices
      | some bus => do
        let devices ← busDeviceScanBus config bus devices steps
        bridgeHunt config steps (hunt + 1) devices

def busDeviceInitialize (config : ConfigSpace) (steps : Nat) : Option (List PciDevice) := do
  let devices ← busDeviceScanBus config 0 [] steps
  bridgeHunt config steps 0 devices

section Express

abbrev busRegStatus : UInt8 := 0x06
abbrev busRegCapPtr : UInt8 := 0x34

/-- `KEY_PCIE`. -/
abbrev keyPcie : UInt8 := 0x10

/-- `pcie_link_speed_t`. -/
inductive PcieLinkSpeed where
  | unknown | gen1 | gen2 | gen3 | gen4 | gen5
  deriving DecidableEq, Repr

variable (config : ConfigSpace) (path spot role : UInt8)

/-- The loop of the three functions below, as far as so many turns: to an entry with the
key, or to the end of the list. -/
def walkCapabilities : Nat → UInt8 → Option (Option UInt8)
  | 0, _ => none
  | turns + 1, walker =>
    if walker = 0 then some none
    else if busConfigReadByte config path spot role walker = keyPcie then some (some walker)
    else walkCapabilities turns (busConfigReadByte config path spot role (walker + 1))

/-- The walk from the pointer in the header on, if the status says that there is a list. -/
def findCapability (turns : Nat) : Option (Option UInt8) :=
  let state := busConfigReadWord config path spot role busRegStatus
  if state &&& 0x10 = 0 then some none
  else walkCapabilities config path spot role turns (busConfigReadByte config path spot role busRegCapPtr)

def busPcieCheckDevice (turns : Nat) : Option Nat := do
  match ← findCapability config path spot role turns with
  | none => return 0
  | some _ => return 1

def busPcieGetWidth (turns : Nat) : Option UInt8 := do
  match ← findCapability config path spot role turns with
  | none => return 0
  | some walker =>
    let info := busConfigReadWord config path spot role (walker + 0x12)
    return (info >>> 4 &&& 0x3F).toUInt8

def busPcieGetSpeed (turns : Nat) : Option PcieLinkSpeed := do
  match ← findCapability config path spot role turns with
  | none => return .unknown
  | some walker =>
    let info := busConfigReadWord config path spot role (walker + 0x12)
    let value := (info &&& 0x0F).toUInt8
    if value = 1 then return .gen1
    else if value = 2 then return .gen2
    else if value = 3 then return .gen3
    else if value = 4 then return .gen4
    else if value = 5 then return .gen5
    else return .unknown

end Express

/-- `bus_pci_initialize` of `pci_core.c`: the devices, and how many of them it counts. -/
def busPciInitialize (config : ConfigSpace) (steps turns : Nat) : Option (List PciDevice × Nat) := do
  let devices ← busDeviceInitialize config steps
  let pcieDevicesFound ← devices.foldlM (fun found device => do
    let check ← busPcieCheckDevice config device.busNumber device.slotNumber device.functionNumber turns
    return if check ≠ 0 then found + 1 else found) 0
  return (devices, pcieDevicesFound)

end Kernix
