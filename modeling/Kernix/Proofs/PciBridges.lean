import Kernix.Proofs.PciScan

/-! The enumeration over the bridges. Each scan that ends in time adds the functions of its
bus, and no bus is scanned twice when no two bridges lead to it. -/

namespace Kernix.Proofs
open Iteration

local instance bridgeSlots : NeZero 32 := ⟨by decide⟩
local instance bridgeFunctions : NeZero 8 := ⟨by decide⟩

/-- A function of the machine, by its bus. -/
abbrev PciPlace := UInt8 × Fin 32 × Fin 8

def placeEntry (config : ConfigSpace) (place : PciPlace) : PciDevice := functionEntry config place.1 place.2

/-- The function is a bridge that the enumeration follows to a bus. -/
def BridgeTo (config : ConfigSpace) (place : PciPlace) (bus : UInt8) : Prop :=
  OnBus config place.1 place.2 ∧ nextBus config (placeEntry config place) = some bus

/-- Each secondary bus is reached by one bridge. -/
def OneBridge (config : ConfigSpace) : Prop :=
  ∀ first second bus, BridgeTo config first bus → BridgeTo config second bus → first = second

/-- How far the loop over the entries has come, with the list there. -/
inductive Hunts (config : ConfigSpace) : Nat → List PciDevice → Prop where
  | start {devices : List PciDevice} (returns : ScanReturns config 0 [] devices) : Hunts config 0 devices
  | other {hunt : Nat} {devices : List PciDevice} {device : PciDevice} (hunts : Hunts config hunt devices)
      (entry : devices[hunt]? = some device) (leaf : nextBus config device = none) : Hunts config (hunt + 1) devices
  | scanned {hunt : Nat} {devices after : List PciDevice} {device : PciDevice} {bus : UInt8}
      (hunts : Hunts config hunt devices) (entry : devices[hunt]? = some device)
      (bridge : nextBus config device = some bus) (returns : ScanReturns config bus devices after) :
      Hunts config (hunt + 1) after

/-- The scans that `bus_device_initialize` makes. -/
inductive Scans (config : ConfigSpace) : UInt8 → List PciDevice → Prop where
  | root : Scans config 0 []
  | behind {hunt : Nat} {devices : List PciDevice} {device : PciDevice} {bus : UInt8}
      (hunts : Hunts config hunt devices) (entry : devices[hunt]? = some device)
      (bridge : nextBus config device = some bus) : Scans config bus devices

/-- The numbers of the function that an entry is for. -/
def deviceNumbers (device : PciDevice) : UInt8 × UInt8 × UInt8 :=
  (device.busNumber, device.slotNumber, device.functionNumber)

/-- The enumeration returns, and has listed no function twice. -/
def EnumerationRight (config : ConfigSpace) : Prop :=
  ∃ steps devices, busDeviceInitialize config steps = some devices ∧ (devices.map deviceNumbers).Nodup

/-- The functions that the list stands for. Their buses are the first one and those behind
the bridges that the loop has passed. -/
structure HuntHeld (config : ConfigSpace) (hunt : Nat) (devices : List PciDevice) (places : List PciPlace) : Prop where
  few : devices.length ≤ deviceCap
  entries : devices = places.map (placeEntry config)
  once : places.Nodup
  there : ∀ place ∈ places, OnBus config place.1 place.2
  reached : ∀ place ∈ places, place.1 = 0 ∨
    ∃ index bridge, index < hunt ∧ places[index]? = some bridge ∧ nextBus config (placeEntry config bridge) = some place.1

variable {config : ConfigSpace} {hunt steps : Nat} {bus : UInt8} {devices after : List PciDevice} {device : PciDevice}
  {places : List PciPlace}

theorem nextBus_pos (bridge : nextBus config device = some bus) : bus ≠ 0 := by
  unfold nextBus at bridge
  split at bridge
  · dsimp only at bridge
    split at bridge
    next positive =>
      cases bridge
      rintro zero
      rw [zero] at positive
      exact UInt8.lt_irrefl _ positive
    · cases bridge
  · cases bridge

theorem numbers_inj {first second : PciPlace}
    (same : deviceNumbers (placeEntry config first) = deviceNumbers (placeEntry config second)) : first = second := by
  obtain ⟨buses, rest⟩ := Prod.mk.inj same
  obtain ⟨slots, functions⟩ := Prod.mk.inj rest
  exact Prod.ext buses (place_of_numbers slots functions)

namespace HuntHeld

theorem start (right : ScanRight config 0 []) :
    ∃ devices places, ScanReturns config 0 [] devices ∧ HuntHeld config 0 devices places := by
  obtain ⟨added, returns, once, there, fits, -⟩ := right
  refine ⟨_, added.map fun place => (0, place), returns, ?_, ?_, ?_, ?_, ?_⟩
  · rwa [List.nil_append, List.length_map, ← Nat.zero_add added.length]
  · rw [List.map_map, List.nil_append]
    rfl
  · exact once.map fun first second same => (Prod.mk.inj same).2
  · intro place member
    obtain ⟨first, listed, rfl⟩ := List.mem_map.mp member
    exact there first listed
  · intro place member
    obtain ⟨first, listed, rfl⟩ := List.mem_map.mp member
    exact .inl rfl

theorem place (held : HuntHeld config hunt devices places) (entry : devices[hunt]? = some device) :
    ∃ place, places[hunt]? = some place ∧ placeEntry config place = device := by
  rw [held.entries, List.getElem?_map, Option.map_eq_some_iff] at entry
  exact entry

theorem other (held : HuntHeld config hunt devices places) : HuntHeld config (hunt + 1) devices places := by
  refine ⟨held.few, held.entries, held.once, held.there, fun place member => ?_⟩
  rcases held.reached place member with root | ⟨index, bridge, before, rest⟩
  · exact .inl root
  · exact .inr ⟨index, bridge, Nat.lt_succ_of_lt before, rest⟩

/-- No function of the bus behind a bridge is in the list when the loop comes to it. -/
theorem fresh (held : HuntHeld config hunt devices places) (one : OneBridge config) (entry : devices[hunt]? = some device)
    (bridge : nextBus config device = some bus) : ∀ place ∈ places, place.1 ≠ bus := by
  intro place member same
  obtain ⟨here, found, rfl⟩ := held.place entry
  rcases held.reached place member with root | ⟨index, earlier, before, listed, leads⟩
  · exact nextBus_pos bridge (same.symm.trans root)
  · have first : BridgeTo config earlier bus := ⟨held.there _ (List.mem_of_getElem? listed), same ▸ leads⟩
    have second : BridgeTo config here bus := ⟨held.there _ (List.mem_of_getElem? found), bridge⟩
    rw [one earlier here bus first second] at listed
    have inside : index < places.length := (List.getElem?_eq_some_iff.mp listed).1
    exact Nat.ne_of_lt before ((List.getElem?_inj inside held.once).mp (listed.trans found.symm))

theorem scanned (held : HuntHeld config hunt devices places) (one : OneBridge config)
    (entry : devices[hunt]? = some device)
    (bridge : nextBus config device = some bus) (right : ScanRight config bus devices) :
    ∃ after places, ScanReturns config bus devices after ∧ HuntHeld config (hunt + 1) after places := by
  have fresh := held.fresh one entry bridge
  obtain ⟨here, found, rfl⟩ := held.place entry
  obtain ⟨added, returns, once, there, fits, -⟩ := right
  have inside : hunt < places.length := (List.getElem?_eq_some_iff.mp found).1
  refine ⟨_, places ++ added.map fun place => (bus, place), returns, ?_, ?_, ?_, ?_, ?_⟩
  · rwa [List.length_append, List.length_map]
  · rw [List.map_append, List.map_map, ← held.entries]
    rfl
  · refine held.once.append (once.map fun first second same => (Prod.mk.inj same).2) ?_
    intro place old new
    obtain ⟨first, -, rfl⟩ := List.mem_map.mp new
    exact fresh _ old rfl
  · intro place member
    rcases List.mem_append.mp member with old | new
    · exact held.there place old
    · obtain ⟨first, listed, rfl⟩ := List.mem_map.mp new
      exact there first listed
  · intro place member
    rcases List.mem_append.mp member with old | new
    · rcases held.reached place old with root | ⟨index, earlier, before, listed, leads⟩
      · exact .inl root
      · refine .inr ⟨index, earlier, Nat.lt_succ_of_lt before, ?_, leads⟩
        rwa [List.getElem?_append_left (Nat.lt_trans before inside)]
    · obtain ⟨first, -, rfl⟩ := List.mem_map.mp new
      refine .inr ⟨hunt, here, Nat.lt_succ_self hunt, ?_, bridge⟩
      rwa [List.getElem?_append_left inside]

theorem listed_once (held : HuntHeld config hunt devices places) : (devices.map deviceNumbers).Nodup := by
  rw [held.entries, List.map_map]
  exact held.once.map fun first second same => numbers_inj same

end HuntHeld

theorem scan_mono {more : Nat} (enough : steps ≤ more) (result : busDeviceScanBus config bus devices steps = some after) :
    busDeviceScanBus config bus devices more = some after := by
  obtain ⟨extra, rfl⟩ := Nat.exists_eq_add_of_le enough
  have stops : (scanStep config bus)^[steps] ⟨scanSlot 0, devices⟩ = ⟨.returned, after⟩ := by
    unfold busDeviceScanBus at result
    dsimp only at result
    split at result
    next returned =>
      cases result
      rw [← returned]
    next => cases result
  unfold busDeviceScanBus
  rw [Nat.add_comm, Function.iterate_add_apply, stops, Function.iterate_fixed rfl]

theorem hunt_mono {more : Nat} (enough : steps ≤ more) (result : bridgeHunt config steps hunt devices = some after) :
    bridgeHunt config more hunt devices = some after := by
  induction steps generalizing more hunt devices with
  | zero => cases result
  | succ steps ih =>
    obtain ⟨more, rfl⟩ := Nat.exists_eq_succ_of_ne_zero (Nat.ne_of_gt (Nat.lt_of_lt_of_le (Nat.succ_pos steps) enough))
    have enough := Nat.le_of_succ_le_succ enough
    unfold bridgeHunt at result ⊢
    split
    next none =>
      rw [none] at result
      exact result
    next device entry =>
      rw [entry] at result
      dsimp only at result
      split
      next leaf =>
        rw [leaf] at result
        exact ih enough result
      next bus bridge =>
        rw [bridge] at result
        obtain ⟨middle, scanned, rest⟩ := Option.bind_eq_some_iff.mp result
        rw [scan_mono enough scanned]
        exact ih enough rest

/-- From wherever the loop has come, it gets to its end when the scans that are left are right. -/
theorem hunt_ends (one : OneBridge config)
    (rights : ∀ bus devices, Scans config bus devices → ScanRight config bus devices)
    (hunts : Hunts config hunt devices) (held : HuntHeld config hunt devices places) :
    ∃ steps after, bridgeHunt config steps hunt devices = some after ∧ (after.map deviceNumbers).Nodup := by
  induction left : deviceCap - hunt using Nat.strong_induction_on generalizing hunt devices places with
  | _ size ih =>
    cases entry : devices[hunt]? with
    | none =>
      refine ⟨1, devices, ?_, held.listed_once⟩
      rw [bridgeHunt, entry]
    | some device =>
      have inside := (List.getElem?_eq_some_iff.mp entry).1
      have fits := held.few
      have nearer : deviceCap - (hunt + 1) < size := by omega
      cases bridge : nextBus config device with
      | none =>
        obtain ⟨steps, after, result, once⟩ := ih _ nearer (hunts.other entry bridge) held.other rfl
        refine ⟨steps + 1, after, ?_, once⟩
        rw [bridgeHunt, entry]
        dsimp only
        rw [bridge]
        exact result
      | some bus =>
        have right := rights bus devices (.behind hunts entry bridge)
        obtain ⟨middle, places', returns, held'⟩ := held.scanned one entry bridge right
        obtain ⟨steps, after, result, once⟩ := ih _ nearer (hunts.scanned entry bridge returns) held' rfl
        obtain ⟨others, scanned⟩ := returns
        refine ⟨steps + others + 1, after, ?_, once⟩
        rw [bridgeHunt, entry]
        dsimp only
        rw [bridge]
        dsimp only
        rw [scan_mono (Nat.le_add_left others steps) scanned]
        exact hunt_mono (Nat.le_add_right steps others) result

/-- Once each scan that the enumeration makes is right, the enumeration is. -/
theorem enumeration_right (one : OneBridge config)
    (rights : ∀ bus devices, Scans config bus devices → ScanRight config bus devices) : EnumerationRight config := by
  obtain ⟨devices, places, returns, held⟩ := HuntHeld.start (rights 0 [] .root)
  obtain ⟨steps, after, result, once⟩ := hunt_ends one rights (.start returns) held
  obtain ⟨others, scanned⟩ := returns
  refine ⟨steps + others, after, ?_, once⟩
  unfold busDeviceInitialize
  rw [scan_mono (Nat.le_add_left others steps) scanned]
  exact hunt_mono (Nat.le_add_right steps others) result

/-- The list stays within its room over the scans. -/
theorem hunts_few (hunts : Hunts config hunt devices) : devices.length ≤ deviceCap := by
  induction hunts with
  | start returns => exact returned_few (Nat.zero_le _) returns
  | other _ _ _ ih => exact ih
  | scanned _ _ _ returns ih => exact returned_few ih returns

/-- For every configuration space: a scan lists the functions of its bus exactly when it
ends in time, and the enumeration lists no function twice when its scans do. -/
theorem pci_listed_right_iff (config : ConfigSpace) :
    (∀ bus devices, devices.length ≤ deviceCap → (ScanRight config bus devices ↔ ScanEnds config bus devices)) ∧
      ((∀ bus devices, Scans config bus devices → ScanEnds config bus devices) →
        OneBridge config → EnumerationRight config) := by
  refine ⟨fun bus devices few => scan_right_iff few, fun ends one => enumeration_right one fun bus devices scans => ?_⟩
  have few : devices.length ≤ deviceCap := by
    cases scans with
    | root => exact Nat.zero_le _
    | behind hunts => exact hunts_few hunts
  exact scanRight_of_ends few (ends bus devices scans)

/-- Every function answers with zeros, so that each slot has one function. -/
def zeroSpace : ConfigSpace := fun _ _ _ _ => 0

theorem pci_listed_right_zeros : ScanRight zeroSpace 0 [] ∧ EnumerationRight zeroSpace := by
  have ends (bus : UInt8) (devices : List PciDevice) : ScanEnds zeroSpace bus devices := by
    left
    change vendorAbsent 0 = false
    decide
  have one : OneBridge zeroSpace := by
    intro first second bus bridge
    have other : (placeEntry zeroSpace first).deviceClass ≠ 0x06 := by
      change ((0 : UInt32) >>> 24 &&& 0xFF).toUInt8 ≠ 0x06
      decide
    have leaf : nextBus zeroSpace (placeEntry zeroSpace first) = none := if_neg fun bridge => other bridge.1
    rw [bridge.2] at leaf
    cases leaf
  exact ⟨((pci_listed_right_iff zeroSpace).1 0 [] (Nat.zero_le _)).mpr (ends 0 []),
    (pci_listed_right_iff zeroSpace).2 (fun bus devices _ => ends bus devices) one⟩

/-- A machine with one device, in the first slot of the first bus. -/
def lonelyDevice : ConfigSpace := fun bus slot func _ => if bus = 0 ∧ slot = 0 ∧ func = 0 then 0 else 0xFFFFFFFF

/-- The scan comes back to the device over the slot numbers that are none. -/
theorem pci_listed_wrong : ¬ScanRight lonelyDevice 0 [] := by
  intro right
  have functions : (busFunctions lonelyDevice 0).length = 1 := by decide +kernel
  rcases ends_of_scanRight right with last | ⟨full, -⟩
  · exact absurd last (by decide)
  · rw [functions] at full
    exact absurd full (by decide)

end Kernix.Proofs
