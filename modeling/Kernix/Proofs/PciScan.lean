import Kernix.Proofs.ConfigSpace

/-! The scan of a bus. It is over behind the last slot when that slot has a function, and
runs past it when it has none. -/

namespace Kernix.Proofs
open Iteration

local instance scanSlots : NeZero 32 := ⟨by decide⟩
local instance scanFunctions : NeZero 8 := ⟨by decide⟩

/-- The scan returns with a list. -/
def ScanReturns (config : ConfigSpace) (bus : UInt8) (devices after : List PciDevice) : Prop :=
  ∃ steps, busDeviceScanBus config bus devices steps = some after

/-- The scan returns, and has added an entry for each function of the bus, or as many as
the list has room for. -/
def ScanRight (config : ConfigSpace) (bus : UInt8) (devices : List PciDevice) : Prop :=
  ∃ added : List (Fin 32 × Fin 8),
    ScanReturns config bus devices (devices ++ added.map (functionEntry config bus)) ∧ added.Nodup ∧
      (∀ place ∈ added, OnBus config bus place) ∧ devices.length + added.length ≤ deviceCap ∧
        ((∀ place, OnBus config bus place → place ∈ added) ∨ devices.length + added.length = deviceCap)

/-- The read for a slot number that the address has no room for finds a function. -/
def BehindSlots (config : ConfigSpace) (bus slot : UInt8) : Prop :=
  32 ≤ slot ∧ vendorAbsent (busConfigReadDword config bus slot 0 busRegVendorId) = false

/-- The last slot has a function, or the list gets full and there is a function for which
the scan finds no more room. -/
def ScanEnds (config : ConfigSpace) (bus : UInt8) (devices : List PciDevice) : Prop :=
  Present config bus 31 0 ∨
    deviceCap ≤ devices.length + (busFunctions config bus).length ∧
      (busFunctions config bus ≠ [] ∨ ∃ slot, BehindSlots config bus slot)

/-- From one point of the scan to another, with what is added on the way. A full list ends
the scan. -/
def ScanCarries (config : ConfigSpace) (bus : UInt8) (start : ScanPoint) (added : List PciDevice) (next : ScanPoint) :
    Prop :=
  ∀ devices : List PciDevice, devices.length ≤ deviceCap →
    if devices.length + added.length ≤ deviceCap then
      Leads (scanStep config bus) ⟨start, devices⟩ ⟨next, devices ++ added⟩
    else Leads (scanStep config bus) ⟨start, devices⟩ ⟨.returned, (devices ++ added).take deviceCap⟩

variable {config : ConfigSpace} {bus slot func : UInt8} {start middle next : ScanPoint} {added further : List PciDevice}
  {devices after : List PciDevice}

section Carried

theorem ScanCarries.refl (config : ConfigSpace) (bus : UInt8) (start : ScanPoint) :
    ScanCarries config bus start [] start := by
  intro devices few
  rw [List.length_nil, Nat.add_zero, if_pos few, List.append_nil]
  exact Leads.refl _ _

theorem ScanCarries.trans (carries : ScanCarries config bus start added middle)
    (rest : ScanCarries config bus middle further next) : ScanCarries config bus start (added ++ further) next := by
  intro devices few
  have first := carries devices few
  rw [List.length_append, ← Nat.add_assoc, ← List.append_assoc]
  by_cases room : devices.length + added.length ≤ deviceCap
  · rw [if_pos room] at first
    have second := rest (devices ++ added) (by rwa [List.length_append])
    rw [List.length_append] at second
    by_cases all : devices.length + added.length + further.length ≤ deviceCap
    · rw [if_pos all] at second ⊢
      exact first.trans second
    · rw [if_neg all] at second ⊢
      exact first.trans second
  · rw [if_neg room] at first
    rw [if_neg (by omega), List.take_append_of_le_length]
    · exact first
    · rw [List.length_append]
      omega

/-- A step that adds nothing. -/
theorem carries_moves (moves : ∀ devices, scanStep config bus ⟨start, devices⟩ = ⟨next, devices⟩) :
    ScanCarries config bus start [] next := by
  intro devices few
  rw [List.length_nil, Nat.add_zero, if_pos few, List.append_nil]
  exact Leads.one (moves devices)

theorem carries_present (inside : func < 8)
    (present : vendorAbsent (busConfigReadDword config bus slot func busRegVendorId) = false) :
    ScanCarries config bus (.functions slot func) [madEntry config bus slot func]
      (if func = 0 ∧ (madEntry config bus slot func).isMultifunction = 0 then scanSlot (slot + 1)
        else .functions slot (func + 1)) := by
  intro devices few
  have step : scanStep config bus ⟨.functions slot func, devices⟩ =
      if deviceCap ≤ devices.length then ⟨.returned, devices⟩
      else ⟨if func = 0 ∧ (madEntry config bus slot func).isMultifunction = 0 then scanSlot (slot + 1)
        else .functions slot (func + 1), devices ++ [madEntry config bus slot func]⟩ := by
    unfold scanStep
    dsimp only
    rw [if_neg (UInt8.not_le.mpr inside), present, if_neg (by simp)]
    split
    · rfl
    · split <;> rfl
  by_cases full : deviceCap ≤ devices.length
  · have length : devices.length = deviceCap := Nat.le_antisymm few full
    rw [if_pos full] at step
    rw [if_neg (by rw [length]; exact Nat.not_succ_le_self _), List.take_append_of_le_length full, ← length,
      List.take_length]
    exact Leads.one step
  · rw [if_neg full] at step
    rw [if_pos (by rw [List.length_singleton]; omega)]
    exact Leads.one step

theorem carries_slot_absent (absent : vendorAbsent (busConfigReadDword config bus slot 0 busRegVendorId) = true) :
    ScanCarries config bus (.functions slot 0) [] (.functions (slot + 1) 0) := by
  apply carries_moves
  intro devices
  unfold scanStep
  dsimp only
  rw [if_neg (by decide), if_pos absent, if_pos rfl]

theorem carries_func_absent (inside : func < 8) (further : func ≠ 0)
    (absent : vendorAbsent (busConfigReadDword config bus slot func busRegVendorId) = true) :
    ScanCarries config bus (.functions slot func) [] (.functions slot (func + 1)) := by
  apply carries_moves
  intro devices
  unfold scanStep
  dsimp only
  rw [if_neg (UInt8.not_le.mpr inside), if_pos absent, if_neg further]

theorem carries_slot_end : ScanCarries config bus (.functions slot 8) [] (scanSlot (slot + 1)) := by
  apply carries_moves
  intro devices
  rfl

theorem ofNat_succ (count : Nat) : UInt8.ofNat count + 1 = UInt8.ofNat (count + 1) := (UInt8.ofNat_add count 1).symm

/-- The functions of a multifunction device behind the first one. -/
theorem carries_further (config : ConfigSpace) (bus : UInt8) (slot : Fin 32) {count : Nat} (inside : count ≤ 8)
    (further : count ≠ 0) :
    ScanCarries config bus (.functions (slotNumber slot) (UInt8.ofNat count))
      ((furtherFunctions config bus slot count).map (functionEntry config bus)) (scanSlot (slotNumber slot + 1)) := by
  induction left : 8 - count generalizing count with
  | zero =>
    obtain rfl : count = 8 := by omega
    exact carries_slot_end
  | succ left ih =>
    have small : count < 8 := by omega
    have rest := ih (by omega : count + 1 ≤ 8) (by omega) (by omega)
    have number : funcNumber ⟨count, small⟩ = UInt8.ofNat count := rfl
    have below : UInt8.ofNat count < 8 := by
      rw [← number, UInt8.lt_iff_toNat_lt, funcNumber_toNat]
      exact small
    have nonzero : UInt8.ofNat count ≠ 0 := by
      intro zero
      have value := congrArg UInt8.toNat zero
      rw [← number, funcNumber_toNat] at value
      exact further value
    have step := furtherFunctions_step config bus slot ⟨count, small⟩
    have read := present_read config bus (slot, ⟨count, small⟩)
    dsimp only at step read
    rw [number] at read
    rw [step]
    by_cases present : Present config bus slot ⟨count, small⟩
    · have carried := carries_present below (read.mpr present)
      rw [if_neg fun first => nonzero first.1, ofNat_succ] at carried
      rw [if_pos present]
      exact carried.trans rest
    · have carried := carries_func_absent below nonzero
        (Bool.eq_true_of_not_eq_false fun there => present (read.mp there))
      rw [ofNat_succ] at carried
      rw [if_neg present]
      exact carried.trans rest

/-- A slot with a first function. -/
theorem carries_slot_present {slot : Fin 32} (present : Present config bus slot 0) :
    ScanCarries config bus (.functions (slotNumber slot) 0)
      ((slotFunctions config bus slot).map (functionEntry config bus))
      (scanSlot (slotNumber slot + 1)) := by
  have read := (present_read config bus (slot, 0)).mpr present
  have carried : ScanCarries config bus (.functions (slotNumber slot) 0) _ _ := carries_present (by decide) read
  have entry : madEntry config bus (slotNumber slot) 0 = functionEntry config bus (slot, 0) := rfl
  rw [entry] at carried
  by_cases multi : Multifunction config bus slot
  · rw [if_neg fun single => (multifunction_read config bus slot).mpr multi single.2] at carried
    rw [slotFunctions_multi present multi]
    exact carried.trans (carries_further config bus slot (by decide) (by decide))
  · have single : (functionEntry config bus (slot, 0)).isMultifunction = 0 := by
      by_contra more
      exact multi ((multifunction_read config bus slot).mp more)
    rw [if_pos ⟨rfl, single⟩] at carried
    rw [slotFunctions_single present multi]
    exact carried

/-- The slots from a number on. Without a first function in the last one, the scan runs on. -/
theorem carries_slots (config : ConfigSpace) (bus : UInt8) {count : Nat} (inside : count < 32) :
    ScanCarries config bus (.functions (UInt8.ofNat count) 0)
      ((((List.finRange 32).drop count).flatMap (slotFunctions config bus)).map (functionEntry config bus))
      (if Present config bus 31 0 then .returned else .functions 32 0) := by
  induction left : 31 - count generalizing count with
  | zero =>
    obtain rfl : count = 31 := by omega
    have last : (List.finRange 32).drop 31 = [31] := rfl
    rw [last, List.flatMap_singleton]
    by_cases present : Present config bus 31 0
    · rw [if_pos present]
      exact carries_slot_present present
    · rw [if_neg present, slotFunctions_absent present]
      have read := present_read config bus (31, 0)
      exact carries_slot_absent (Bool.eq_true_of_not_eq_false fun there => present (read.mp there))
  | succ left ih =>
    have rest := ih (by omega : count + 1 < 32) (by omega)
    have slots : (List.finRange 32).drop count = ⟨count, inside⟩ :: (List.finRange 32).drop (count + 1) := by
      rw [List.drop_eq_getElem_cons (by rwa [List.length_finRange]), List.getElem_finRange]
      rfl
    rw [slots, List.flatMap_cons, List.map_append]
    have onward : scanSlot (UInt8.ofNat count + 1) = .functions (UInt8.ofNat (count + 1)) 0 := by
      rw [ofNat_succ, scanSlot, if_pos]
      rw [UInt8.lt_iff_toNat_lt, UInt8.toNat_ofNat']
      change (count + 1) % 256 < 32
      omega
    have passed : ScanCarries config bus (.functions (UInt8.ofNat count) 0)
        ((slotFunctions config bus ⟨count, inside⟩).map (functionEntry config bus))
          (.functions (UInt8.ofNat (count + 1)) 0) := by
      by_cases present : Present config bus ⟨count, inside⟩ 0
      · rw [← onward]
        exact carries_slot_present present
      · rw [slotFunctions_absent present, ← ofNat_succ]
        have read := present_read config bus (⟨count, inside⟩, 0)
        exact carries_slot_absent (Bool.eq_true_of_not_eq_false fun there => present (read.mp there))
    exact passed.trans rest

theorem carries_bus (config : ConfigSpace) (bus : UInt8) :
    ScanCarries config bus (scanSlot 0) ((busFunctions config bus).map (functionEntry config bus))
      (if Present config bus 31 0 then .returned else .functions 32 0) :=
  carries_slots config bus (by decide)

/-- Slot numbers behind the last slot are passed, until one of them answers. -/
theorem carries_behind (config : ConfigSpace) (bus : UInt8) (count : Nat) (behind : 32 ≤ count) (wraps : count ≤ 256) :
    (ScanCarries config bus (.functions 32 0) [] (.functions (UInt8.ofNat count) 0) ∧
        ∀ slot, BehindSlots config bus slot → count ≤ slot.toNat) ∨
      ∃ entry next, ScanCarries config bus (.functions 32 0) [entry] next ∧ 32 ≤ entry.slotNumber := by
  induction count, behind using Nat.le_induction with
  | base => exact .inl ⟨ScanCarries.refl config bus _, fun slot behind => behind.1⟩
  | succ count behind ih =>
    have value : (UInt8.ofNat count).toNat = count := by rw [UInt8.toNat_ofNat', Nat.mod_eq_of_lt (by omega)]
    rcases ih (by omega) with ⟨passed, later⟩ | found
    · cases answer : vendorAbsent (busConfigReadDword config bus (UInt8.ofNat count) 0 busRegVendorId) with
      | true =>
        have next := passed.trans (carries_slot_absent answer)
        rw [ofNat_succ] at next
        refine .inl ⟨next, fun slot there => Nat.lt_of_le_of_ne (later slot there) fun here => ?_⟩
        have same : slot = UInt8.ofNat count := UInt8.toNat_inj.mp (here.symm.trans value.symm)
        rw [same] at there
        exact Bool.false_ne_true (there.2.symm.trans answer)
      | false =>
        refine .inr ⟨_, _, passed.trans (carries_present (by decide) answer), ?_⟩
        change 32 ≤ UInt8.ofNat count
        rwa [UInt8.le_iff_toNat_le, value]
    · exact .inr found

/-- Past the last slot, the first entry that is added is for no function of the bus, or for
one that is in the list already. -/
theorem carries_past (something : busFunctions config bus ≠ [] ∨ ∃ slot, BehindSlots config bus slot) :
    ∃ entry rest next, ScanCarries config bus (.functions 32 0) (entry :: rest) next ∧
      (32 ≤ entry.slotNumber ∨ ∃ place ∈ busFunctions config bus, entry = functionEntry config bus place) := by
  rcases carries_behind config bus 256 (by decide) (by decide) with ⟨passed, later⟩ | ⟨entry, next, carried, far⟩
  · have none (behind : ∃ slot, BehindSlots config bus slot) : False := by
      obtain ⟨slot, there⟩ := behind
      have small := slot.toNat_lt
      have large := later slot there
      omega
    have wrapped : ScanCarries config bus (.functions 32 0) [] (scanSlot 0) := passed
    have carried := wrapped.trans (carries_bus config bus)
    obtain ⟨place, places, functions⟩ := List.exists_cons_of_ne_nil (something.resolve_right none)
    rw [List.nil_append, functions, List.map_cons] at carried
    exact ⟨_, _, _, carried, .inr ⟨place, functions ▸ List.mem_cons_self, rfl⟩⟩
  · exact ⟨entry, [], next, carried, .inl far⟩

end Carried

section Returned

theorem scanReturns_iff : ScanReturns config bus devices after ↔
    Leads (scanStep config bus) ⟨scanSlot 0, devices⟩ ⟨.returned, after⟩ := by
  constructor
  · rintro ⟨steps, result⟩
    refine ⟨steps, ?_⟩
    unfold busDeviceScanBus at result
    dsimp only at result
    split at result
    next returned =>
      cases result
      rw [← returned]
    next => cases result
  · rintro ⟨steps, final⟩
    refine ⟨steps, ?_⟩
    unfold busDeviceScanBus
    rw [final]

/-- A scan that returns with the functions of the bus as far as there is room is right. -/
theorem scanRight_of_leads (few : devices.length ≤ deviceCap) (leads : Leads (scanStep config bus) ⟨scanSlot 0, devices⟩
    ⟨.returned, (devices ++ (busFunctions config bus).map (functionEntry config bus)).take deviceCap⟩) :
    ScanRight config bus devices := by
  refine ⟨(busFunctions config bus).take (deviceCap - devices.length), ?_, ?_, ?_, ?_, ?_⟩
  · rw [scanReturns_iff, List.map_take]
    rwa [List.take_append, List.take_of_length_le few] at leads
  · exact (busFunctions_nodup config bus).sublist (List.take_sublist _ _)
  · intro place member
    exact mem_busFunctions.mp (List.mem_of_mem_take member)
  · rw [List.length_take]
    omega
  · by_cases room : (busFunctions config bus).length ≤ deviceCap - devices.length
    · left
      intro place present
      rw [List.take_of_length_le room]
      exact mem_busFunctions.mpr present
    · right
      rw [List.length_take]
      omega

/-- With a full list the scan stops at the next function. -/
theorem ScanCarries.full {entry : PciDevice} (carries : ScanCarries config bus start (entry :: added) next)
    (full : devices.length = deviceCap) : Leads (scanStep config bus) ⟨start, devices⟩ ⟨.returned, devices⟩ := by
  have leads := carries devices (Nat.le_of_eq full)
  rw [if_neg (by rw [List.length_cons]; omega), List.take_append_of_le_length (Nat.le_of_eq full.symm), ← full,
    List.take_length] at leads
  exact leads

theorem scanRight_of_ends (few : devices.length ≤ deviceCap) (ends : ScanEnds config bus devices) :
    ScanRight config bus devices := by
  apply scanRight_of_leads few
  have carried := carries_bus config bus devices few
  rw [List.length_map] at carried
  by_cases room : devices.length + (busFunctions config bus).length ≤ deviceCap
  · rw [if_pos room] at carried
    rw [List.take_of_length_le (by rwa [List.length_append, List.length_map])]
    by_cases last : Present config bus 31 0
    · rwa [if_pos last] at carried
    · obtain ⟨filled, something⟩ := ends.resolve_left last
      obtain ⟨entry, rest, next, past, -⟩ := carries_past something
      rw [if_neg last] at carried
      exact carried.trans (past.full (by rw [List.length_append, List.length_map]; omega))
  · rwa [if_neg room] at carried

/-- No step takes an entry out of the list. -/
theorem scanStep_keeps {front : List PciDevice} (state : ScanState) (held : front <+: state.devices) :
    front <+: (scanStep config bus state).devices := by
  unfold scanStep
  split
  · exact held
  next slot func _ =>
    dsimp only
    split
    · exact held
    split
    · split <;> exact held
    split
    · exact held
    split <;> exact held.trans (List.prefix_append _ _)

/-- What the list has when the scan runs on is still in it when the scan returns. -/
theorem returned_keeps {point : ScanPoint} {front : List PciDevice}
    (leads : Leads (scanStep config bus) ⟨scanSlot 0, devices⟩ ⟨point, front⟩)
    (returns : ScanReturns config bus devices after) : front <+: after := by
  have final := leads.stops rfl (scanReturns_iff.mp returns)
  have keeps (state : ScanState) (held : front <+: state.devices) : front <+: (scanStep config bus state).devices :=
    scanStep_keeps state held
  have kept := Leads.keeps keeps final (List.prefix_refl front)
  exact kept

theorem scanStep_few (state : ScanState) (few : state.devices.length ≤ deviceCap) :
    (scanStep config bus state).devices.length ≤ deviceCap := by
  unfold scanStep
  split
  · exact few
  next slot func _ =>
    dsimp only
    split
    · exact few
    split
    · split <;> exact few
    split
    · exact few
    next room =>
      have more (entry : PciDevice) : (state.devices ++ [entry]).length ≤ deviceCap := by
        rw [List.length_append]
        exact Nat.not_le.mp room
      split <;> exact more _

theorem returned_few (few : devices.length ≤ deviceCap) (returns : ScanReturns config bus devices after) :
    after.length ≤ deviceCap := by
  have kept := Leads.keeps scanStep_few (scanReturns_iff.mp returns) few
  exact kept

/-- When the bus is empty and nothing answers behind it, the scan does not return. -/
theorem scan_runs (empty : busFunctions config bus = []) (none : ¬∃ slot, BehindSlots config bus slot) :
    ¬ScanReturns config bus devices after := by
  have absent (slot : UInt8) : vendorAbsent (busConfigReadDword config bus slot 0 busRegVendorId) = true := by
    refine Bool.eq_true_of_not_eq_false fun there => ?_
    by_cases far : 32 ≤ slot
    · exact none ⟨slot, far, there⟩
    · have near : slot.toNat < 32 := UInt8.not_le.mp far
      have same : slotNumber ⟨slot.toNat, near⟩ = slot := UInt8.ofNat_toNat
      have read := present_read config bus (⟨slot.toNat, near⟩, 0)
      dsimp only at read
      rw [same] at read
      exact busFunctions_nil empty _ (read.mp there)
  have turns (state : ScanState) (inside : ∃ slot, state.point = .functions slot 0) :
      ∃ slot, (scanStep config bus state).point = .functions slot 0 := by
    obtain ⟨slot, here⟩ := inside
    refine ⟨slot + 1, ?_⟩
    unfold scanStep
    rw [here]
    dsimp only
    rw [if_neg (by decide), if_pos (absent slot), if_pos rfl]
  intro returns
  have last := Leads.keeps turns (scanReturns_iff.mp returns) ⟨0, rfl⟩
  obtain ⟨slot, inside⟩ := last
  cases inside

theorem ends_of_scanRight (right : ScanRight config bus devices) : ScanEnds config bus devices := by
  obtain ⟨added, returns, once, there, fits, -⟩ := right
  by_contra runs
  obtain ⟨last, short⟩ := not_or.mp runs
  by_cases something : busFunctions config bus ≠ [] ∨ ∃ slot, BehindSlots config bus slot
  · have room : devices.length + (busFunctions config bus).length < deviceCap := by
      by_contra full
      exact short ⟨Nat.not_lt.mp full, something⟩
    obtain ⟨entry, rest, next, past, wrong⟩ := carries_past something
    have first := carries_bus config bus devices (by omega)
    rw [List.length_map, if_pos (Nat.le_of_lt room), if_neg last] at first
    have second := past (devices ++ (busFunctions config bus).map (functionEntry config bus))
      (by rw [List.length_append, List.length_map]; exact Nat.le_of_lt room)
    have more : devices ++ ((busFunctions config bus).map (functionEntry config bus) ++ [entry]) <+:
        devices ++ (busFunctions config bus).map (functionEntry config bus) ++ entry :: rest := ⟨rest, by simp⟩
    have listed : devices ++ ((busFunctions config bus).map (functionEntry config bus) ++ [entry]) <+:
        devices ++ added.map (functionEntry config bus) := by
      split at second
      · exact more.trans (returned_keeps (first.trans second) returns)
      · refine List.IsPrefix.trans ?_ (returned_keeps (first.trans second) returns)
        rw [List.prefix_take_iff]
        refine ⟨more, ?_⟩
        rw [List.length_append, List.length_append, List.length_map, List.length_singleton]
        omega
    have listed := (List.prefix_append_right_inj devices).mp listed
    rcases wrong with far | ⟨place, member, rfl⟩
    · have among := listed.subset (List.mem_append_right _ List.mem_cons_self)
      obtain ⟨place, -, rfl⟩ := List.mem_map.mp among
      have small := place.1.isLt
      change 32 ≤ slotNumber place.1 at far
      rw [UInt8.le_iff_toNat_le, slotNumber_toNat] at far
      exact Nat.not_le.mpr small far
    · have twice := (once.map fun first second => functionEntry_inj).sublist listed.sublist
      have apart := (List.nodup_append.mp twice).2.2
      exact apart _ (List.mem_map_of_mem member) _ List.mem_cons_self rfl
  · obtain ⟨empty, behind⟩ := not_or.mp something
    exact scan_runs (not_not.mp empty) behind returns

end Returned

/-- The scan adds what it should exactly when it ends in time. -/
theorem scan_right_iff (few : devices.length ≤ deviceCap) :
    ScanRight config bus devices ↔ ScanEnds config bus devices :=
  ⟨ends_of_scanRight, scanRight_of_ends few⟩

end Kernix.Proofs
