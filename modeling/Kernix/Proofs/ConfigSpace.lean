import Kernix.Drivers.Pci
import Mathlib.Data.List.FinRange

/-! The functions of a bus, and what a configuration address selects. -/

namespace Kernix.Proofs

local instance busSlots : NeZero 32 := ⟨by decide⟩
local instance slotPlaces : NeZero 8 := ⟨by decide⟩

/-- The function answers with the id of a vendor. -/
def Present (config : ConfigSpace) (bus : UInt8) (slot : Fin 32) (func : Fin 8) : Prop :=
  vendorAbsent (config bus slot func 0x00) = false

instance (config : ConfigSpace) (bus : UInt8) (slot : Fin 32) (func : Fin 8) : Decidable (Present config bus slot func) :=
  inferInstanceAs (Decidable (vendorAbsent (config bus slot func 0x00) = false))

/-- The header type of the first function has the bit for more functions. -/
def Multifunction (config : ConfigSpace) (bus : UInt8) (slot : Fin 32) : Prop :=
  (config bus slot 0 0x0C >>> 16 &&& 0x80).toUInt8 ≠ 0

instance (config : ConfigSpace) (bus : UInt8) (slot : Fin 32) : Decidable (Multifunction config bus slot) :=
  inferInstanceAs (Decidable (_ ≠ _))

/-- The function is there to be listed: the first one of its slot, or a further one of a
multifunction device. -/
def OnBus (config : ConfigSpace) (bus : UInt8) (place : Fin 32 × Fin 8) : Prop :=
  Present config bus place.1 0 ∧
    (place.2 = 0 ∨ Multifunction config bus place.1 ∧ Present config bus place.1 place.2)

instance (config : ConfigSpace) (bus : UInt8) (place : Fin 32 × Fin 8) : Decidable (OnBus config bus place) :=
  inferInstanceAs (Decidable (_ ∧ _))

/-- The functions of a slot. -/
def slotFunctions (config : ConfigSpace) (bus : UInt8) (slot : Fin 32) : List (Fin 32 × Fin 8) :=
  ((List.finRange 8).map fun func => (slot, func)).filter fun place => OnBus config bus place

/-- The functions of a bus, in the order of their slots. -/
def busFunctions (config : ConfigSpace) (bus : UInt8) : List (Fin 32 × Fin 8) :=
  (List.finRange 32).flatMap (slotFunctions config bus)

def slotNumber (slot : Fin 32) : UInt8 := UInt8.ofNat slot.val

def funcNumber (func : Fin 8) : UInt8 := UInt8.ofNat func.val

/-- The entry for a function of the bus. -/
def functionEntry (config : ConfigSpace) (bus : UInt8) (place : Fin 32 × Fin 8) : PciDevice :=
  madEntry config bus (slotNumber place.1) (funcNumber place.2)

variable {config : ConfigSpace} {bus slot func : UInt8} {place : Fin 32 × Fin 8}

theorem slotNumber_toNat (slot : Fin 32) : (slotNumber slot).toNat = slot.val := by
  rw [slotNumber, UInt8.toNat_ofNat', Nat.mod_eq_of_lt]
  have inside := slot.isLt
  omega

theorem funcNumber_toNat (func : Fin 8) : (funcNumber func).toNat = func.val := by
  rw [funcNumber, UInt8.toNat_ofNat', Nat.mod_eq_of_lt]
  have inside := func.isLt
  omega

/-- A byte is shifted without a loss when it stays in the word. -/
theorem byte_shifted (byte : UInt8) {count : UInt32} (fits : count.toNat ≤ 24) :
    (byte.toUInt32 <<< count).toNat = byte.toNat <<< count.toNat := by
  have small := byte.toNat_lt
  have power : 2 ^ count.toNat ≤ 2 ^ 24 := Nat.pow_le_pow_right (by decide) fits
  have product : byte.toNat * 2 ^ count.toNat < 2 ^ 8 * 2 ^ 24 := Nat.mul_lt_mul_of_lt_of_le small power (by decide)
  rw [UInt32.toNat_shiftLeft, UInt8.toNat_toUInt32, Nat.mod_eq_of_lt (by omega : count.toNat < 32), Nat.mod_eq_of_lt]
  rw [Nat.shiftLeft_eq]
  omega

/-- The fields of the address do not overlap when the slot and the function are in range. -/
theorem configAddr_toNat (bus : UInt8) (slotSmall : slot.toNat < 32) (funcSmall : func.toNat < 8) (register : UInt8) :
    (configAddr bus slot func register).toNat =
      2 ^ 31 + (((bus.toNat * 32 + slot.toNat) * 8 + func.toNat) * 256 + (register &&& 0xFC).toNat) := by
  have busSmall := bus.toNat_lt
  have registerSmall := (register &&& 0xFC).toNat_lt
  have slots : bus.toNat <<< 16 ||| slot.toNat <<< 11 = (bus.toNat * 32 + slot.toNat) <<< 11 := by
    rw [← Nat.shiftLeft_add_eq_or_of_lt] <;> simp only [Nat.shiftLeft_eq] <;> omega
  have functions : (bus.toNat * 32 + slot.toNat) <<< 11 ||| func.toNat <<< 8 =
      ((bus.toNat * 32 + slot.toNat) * 8 + func.toNat) <<< 8 := by
    rw [← Nat.shiftLeft_add_eq_or_of_lt] <;> simp only [Nat.shiftLeft_eq] <;> omega
  have registers := Nat.shiftLeft_add_eq_or_of_lt registerSmall ((bus.toNat * 32 + slot.toNat) * 8 + func.toNat)
  have enabled {rest : Nat} (small : rest < 2 ^ 31) : rest ||| 2 ^ 31 = 2 ^ 31 + rest := by
    have bit := Nat.shiftLeft_add_eq_or_of_lt small 1
    rw [Nat.one_shiftLeft] at bit
    rw [Nat.or_comm, bit]
  unfold configAddr
  rw [UInt32.toNat_or, UInt32.toNat_or, UInt32.toNat_or, UInt32.toNat_or, byte_shifted bus (by decide),
    byte_shifted slot (by decide), byte_shifted func (by decide), UInt8.toNat_toUInt32]
  change bus.toNat <<< 16 ||| slot.toNat <<< 11 ||| func.toNat <<< 8 ||| (register &&& 0xFC).toNat ||| 2 ^ 31 = _
  rw [slots, functions, ← registers, Nat.shiftLeft_eq, enabled]
  omega

/-- The read of a function in range is answered by it. -/
theorem busConfigReadDword_eq (config : ConfigSpace) (bus : UInt8) (place : Fin 32 × Fin 8) (register : UInt8) :
    busConfigReadDword config bus (slotNumber place.1) (funcNumber place.2) register =
      config bus place.1 place.2 (register &&& 0xFC) := by
  have slotSmall := place.1.isLt
  have funcSmall := place.2.isLt
  have registerSmall := (register &&& 0xFC).toNat_lt
  have address := configAddr_toNat bus (slotNumber_toNat place.1 ▸ slotSmall)
    (funcNumber_toNat place.2 ▸ funcSmall) register
  rw [slotNumber_toNat, funcNumber_toNat] at address
  have shifted {count : UInt32} (fits : count.toNat < 32) :
      (configAddr bus (slotNumber place.1) (funcNumber place.2) register >>> count).toNat =
        (2 ^ 31 + (((bus.toNat * 32 + place.1) * 8 + place.2) * 256 + (register &&& 0xFC).toNat)) / 2 ^ count.toNat := by
    rw [UInt32.toNat_shiftRight, Nat.mod_eq_of_lt fits, Nat.shiftRight_eq_div_pow, address]
  have busSelected : (configAddr bus (slotNumber place.1) (funcNumber place.2) register >>> 16).toUInt8 = bus := by
    apply UInt8.toNat_inj.mp
    rw [UInt32.toNat_toUInt8, shifted (by decide)]
    change _ / 2 ^ 16 % 2 ^ 8 = _
    have busSmall := bus.toNat_lt
    omega
  have slotSelected :
      Fin.ofNat 32 (configAddr bus (slotNumber place.1) (funcNumber place.2) register >>> 11).toNat = place.1 := by
    apply Fin.ext
    rw [Fin.val_ofNat, shifted (by decide)]
    change _ / 2 ^ 11 % 32 = _
    omega
  have funcSelected :
      Fin.ofNat 8 (configAddr bus (slotNumber place.1) (funcNumber place.2) register >>> 8).toNat = place.2 := by
    apply Fin.ext
    rw [Fin.val_ofNat, shifted (by decide)]
    change _ / 2 ^ 8 % 8 = _
    omega
  have registerSelected :
      (configAddr bus (slotNumber place.1) (funcNumber place.2) register).toUInt8 = register &&& 0xFC := by
    apply UInt8.toNat_inj.mp
    rw [UInt32.toNat_toUInt8, address]
    omega
  have masked : register &&& 0xFC &&& 0xFC = register &&& 0xFC := by rw [UInt8.and_assoc, UInt8.and_self]
  rw [busConfigReadDword, configData, busSelected, slotSelected, funcSelected, registerSelected, masked]

theorem present_read (config : ConfigSpace) (bus : UInt8) (place : Fin 32 × Fin 8) :
    vendorAbsent (busConfigReadDword config bus (slotNumber place.1) (funcNumber place.2) busRegVendorId) = false ↔
      Present config bus place.1 place.2 := by
  rw [busConfigReadDword_eq]
  rfl

theorem multifunction_read (config : ConfigSpace) (bus : UInt8) (slot : Fin 32) :
    (functionEntry config bus (slot, 0)).isMultifunction ≠ 0 ↔ Multifunction config bus slot := by
  have header := busConfigReadDword_eq config bus (slot, 0) busRegHeaderType
  rw [functionEntry, madEntry]
  dsimp only at header ⊢
  rw [header]
  rfl

theorem place_of_numbers {first second : Fin 32 × Fin 8} (slots : slotNumber first.1 = slotNumber second.1)
    (functions : funcNumber first.2 = funcNumber second.2) : first = second := by
  have slots' := congrArg UInt8.toNat slots
  have functions' := congrArg UInt8.toNat functions
  rw [slotNumber_toNat, slotNumber_toNat] at slots'
  rw [funcNumber_toNat, funcNumber_toNat] at functions'
  exact Prod.ext (Fin.ext slots') (Fin.ext functions')

theorem functionEntry_inj {first second : Fin 32 × Fin 8}
    (same : functionEntry config bus first = functionEntry config bus second) :
    first = second :=
  place_of_numbers (congrArg PciDevice.slotNumber same) (congrArg PciDevice.functionNumber same)

theorem mem_slotFunctions {slot : Fin 32} :
    place ∈ slotFunctions config bus slot ↔ place.1 = slot ∧ OnBus config bus place := by
  rw [slotFunctions, List.mem_filter, List.mem_map, decide_eq_true_eq]
  constructor
  · rintro ⟨⟨func, -, rfl⟩, present⟩
    exact ⟨rfl, present⟩
  · rintro ⟨rfl, present⟩
    exact ⟨⟨place.2, List.mem_finRange _, rfl⟩, present⟩

theorem mem_busFunctions : place ∈ busFunctions config bus ↔ OnBus config bus place := by
  rw [busFunctions, List.mem_flatMap]
  constructor
  · rintro ⟨slot, -, member⟩
    exact (mem_slotFunctions.mp member).2
  · intro present
    exact ⟨place.1, List.mem_finRange _, mem_slotFunctions.mpr ⟨rfl, present⟩⟩

theorem busFunctions_nodup (config : ConfigSpace) (bus : UInt8) : (busFunctions config bus).Nodup := by
  rw [busFunctions, List.nodup_flatMap]
  constructor
  · intro slot _
    exact ((List.nodup_finRange 8).map fun first second same => (Prod.mk.inj same).2).filter _
  · apply (List.nodup_finRange 32).imp
    intro first second apart place left right
    exact apart ((mem_slotFunctions.mp left).1.symm.trans (mem_slotFunctions.mp right).1)

theorem slotFunctions_absent {slot : Fin 32} (absent : ¬Present config bus slot 0) :
    slotFunctions config bus slot = [] := by
  apply List.eq_nil_iff_forall_not_mem.mpr
  intro place member
  obtain ⟨rfl, present, -⟩ := mem_slotFunctions.mp member
  exact absent present

theorem busFunctions_nil (absent : busFunctions config bus = []) (slot : Fin 32) : ¬Present config bus slot 0 := by
  intro present
  have member : (slot, 0) ∈ busFunctions config bus := mem_busFunctions.mpr ⟨present, .inl rfl⟩
  rw [absent] at member
  cases member

/-- The functions of a multifunction device from a number on. -/
def furtherFunctions (config : ConfigSpace) (bus : UInt8) (slot : Fin 32) (count : Nat) : List (Fin 32 × Fin 8) :=
  (((List.finRange 8).drop count).map fun func => (slot, func)).filter fun place => Present config bus place.1 place.2

theorem furtherFunctions_step (config : ConfigSpace) (bus : UInt8) (slot : Fin 32) (func : Fin 8) :
    furtherFunctions config bus slot func.val =
      if Present config bus slot func then (slot, func) :: furtherFunctions config bus slot (func.val + 1)
      else furtherFunctions config bus slot (func.val + 1) := by
  have inside : func.val < (List.finRange 8).length := by rw [List.length_finRange]; exact func.isLt
  rw [furtherFunctions, List.drop_eq_getElem_cons inside, List.getElem_finRange, List.map_cons, List.filter_cons]
  simp only [decide_eq_true_eq]
  rfl

theorem slotFunctions_single {slot : Fin 32} (present : Present config bus slot 0)
    (single : ¬Multifunction config bus slot) : slotFunctions config bus slot = [(slot, 0)] := by
  have nodup : (slotFunctions config bus slot).Nodup :=
    ((List.nodup_finRange 8).map fun first second same => (Prod.mk.inj same).2).filter _
  apply List.perm_singleton.mp
  apply (List.perm_ext_iff_of_nodup nodup (List.nodup_singleton _)).mpr
  intro place
  rw [mem_slotFunctions, List.mem_singleton]
  constructor
  · rintro ⟨rfl, -, first | further⟩
    · exact Prod.ext rfl first
    · exact absurd further.1 single
  · rintro rfl
    exact ⟨rfl, present, .inl rfl⟩

theorem slotFunctions_multi {slot : Fin 32} (present : Present config bus slot 0)
    (multi : Multifunction config bus slot) :
    slotFunctions config bus slot = (slot, 0) :: furtherFunctions config bus slot 1 := by
  have first : furtherFunctions config bus slot 0 = (slot, 0) :: furtherFunctions config bus slot 1 := by
    have step := furtherFunctions_step config bus slot 0
    rwa [if_pos present] at step
  rw [← first, slotFunctions, furtherFunctions, List.drop_zero]
  apply List.filter_congr
  intro place member
  obtain ⟨func, -, rfl⟩ := List.mem_map.mp member
  apply decide_eq_decide.mpr
  constructor
  · rintro ⟨-, rfl | further⟩
    · exact present
    · exact further.2
  · exact fun there => ⟨present, .inr ⟨multi, there⟩⟩

end Kernix.Proofs
