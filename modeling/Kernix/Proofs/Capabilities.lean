import Kernix.Drivers.Pci
import Mathlib.Tactic.IntervalCases

/-! The capability lists of the devices on a bus. A list is a walk through the bytes of a
function, which the driver follows without counting; it comes to the end of the list, to
the capability that it looks for, or nowhere. -/

namespace Kernix.Proofs

variable {config : ConfigSpace} {path spot role : UInt8}

section Words

/-- The word at an offset, or in front of an odd one. -/
def wordAt (bytes : UInt8 → UInt8) (offset : UInt8) : Nat :=
  (bytes (offset &&& 0xFE)).toNat + 256 * (bytes ((offset &&& 0xFE) + 1)).toNat

theorem offset_low (offset : UInt8) {mask : UInt8} {width : Nat} (ones : mask.toNat = 2 ^ width - 1) :
    (offset &&& mask).toNat = offset.toNat % 2 ^ width := by
  rw [UInt8.toNat_and, ones, Nat.and_two_pow_sub_one_eq_mod]

/-- How far a register is shifted for one of its bytes. -/
theorem shift_toNat {place : UInt8} (small : place.toNat < 4) (register : UInt32) :
    (register >>> (place * 8).toUInt32).toNat = register.toNat / 256 ^ place.toNat := by
  have eight : (place * 8).toNat = place.toNat * 8 := by
    rw [UInt8.toNat_mul]
    change place.toNat * 8 % 256 = place.toNat * 8
    omega
  rw [UInt32.toNat_shiftRight, UInt8.toNat_toUInt32, eight, Nat.mod_eq_of_lt (by omega : place.toNat * 8 < 32),
    Nat.shiftRight_eq_div_pow, Nat.mul_comm, Nat.pow_mul]

theorem busConfigReadByte_toNat (config : ConfigSpace) (path spot role offset : UInt8) :
    (busConfigReadByte config path spot role offset).toNat =
      (busConfigReadDword config path spot role (offset &&& 0xFC)).toNat / 256 ^ (offset.toNat % 4) % 256 := by
  have low : (offset &&& 3).toNat = offset.toNat % 4 := offset_low offset (show (3 : UInt8).toNat = 2 ^ 2 - 1 from rfl)
  unfold busConfigReadByte
  dsimp only
  rw [UInt32.toNat_toUInt8, UInt32.toNat_and, shift_toNat (by omega), low]
  change (_ &&& (2 ^ 8 - 1)) % 2 ^ 8 = _
  rw [Nat.and_two_pow_sub_one_eq_mod, Nat.mod_mod]

/-- Both bytes of a word lie in one register. -/
theorem busConfigReadWord_bytes (config : ConfigSpace) (path spot role offset : UInt8) :
    (busConfigReadWord config path spot role offset).toNat = wordAt (busConfigReadByte config path spot role) offset := by
  have small := offset.toNat_lt
  have two : (offset &&& 2).toNat = offset.toNat / 2 % 2 * 2 := by
    rw [UInt8.toNat_and]
    exact and_block offset.toNat 1 1
  have even : (offset &&& 0xFE).toNat = offset.toNat / 2 % 2 ^ 7 * 2 := by
    rw [UInt8.toNat_and]
    exact and_block offset.toNat 7 1
  have next : ((offset &&& 0xFE) + 1).toNat = offset.toNat / 2 % 2 ^ 7 * 2 + 1 := by
    rw [UInt8.toNat_add, even]
    change (_ + 1) % 256 = _
    omega
  have register (place : UInt8) (same : place.toNat / 4 = offset.toNat / 4) : place &&& 0xFC = offset &&& 0xFC := by
    apply UInt8.toNat_inj.mp
    have block (value : UInt8) : (value &&& 0xFC).toNat = value.toNat / 2 ^ 2 % 2 ^ 6 * 2 ^ 2 := by
      rw [UInt8.toNat_and]
      exact and_block value.toNat 6 2
    rw [block, block]
    change place.toNat / 4 % 2 ^ 6 * 2 ^ 2 = offset.toNat / 4 % 2 ^ 6 * 2 ^ 2
    rw [same]
  have word : (busConfigReadWord config path spot role offset).toNat =
      (busConfigReadDword config path spot role (offset &&& 0xFC)).toNat / 256 ^ (offset.toNat / 2 % 2 * 2) % 65536 := by
    unfold busConfigReadWord
    dsimp only
    rw [UInt32.toNat_toUInt16, UInt32.toNat_and, shift_toNat (by omega), two]
    change (_ &&& (2 ^ 16 - 1)) % 2 ^ 16 = _
    rw [Nat.and_two_pow_sub_one_eq_mod, Nat.mod_mod]
  rw [wordAt, busConfigReadByte_toNat, busConfigReadByte_toNat, register (offset &&& 0xFE) (by omega),
    register ((offset &&& 0xFE) + 1) (by omega), even, next,
    word]
  generalize (busConfigReadDword config path spot role (offset &&& 0xFC)).toNat = value
  have place : offset.toNat / 2 % 2 ^ 7 * 2 % 4 = offset.toNat / 2 % 2 * 2 := by omega
  have behind : (offset.toNat / 2 % 2 ^ 7 * 2 + 1) % 4 = offset.toNat / 2 % 2 * 2 + 1 := by omega
  rw [place, behind, Nat.pow_succ, ← Nat.div_div_eq_div_mul]
  omega

end Words

section Lists
variable (bytes : UInt8 → UInt8)

/-- The pointers of a capability list. -/
def capabilityAt (count : Nat) : UInt8 := (fun place => bytes (place + 1))^[count] (bytes busRegCapPtr)

/-- The walk is over here. -/
def WalkEnds (place : UInt8) : Prop := place = 0 ∨ bytes place = keyPcie

/-- The function has no list, or one that comes to its end or to the capability. -/
def ListEnds : Prop := (bytes busRegStatus).toNat / 16 % 2 = 1 → ∃ count, WalkEnds bytes (capabilityAt bytes count)

/-- The capability is in the list, and this is its first place. -/
def PcieAt (place : UInt8) : Prop :=
  (bytes busRegStatus).toNat / 16 % 2 = 1 ∧ ∃ count, capabilityAt bytes count = place ∧ place ≠ 0 ∧
    bytes place = keyPcie ∧ ∀ earlier < count, ¬WalkEnds bytes (capabilityAt bytes earlier)

theorem PcieAt.unique {bytes : UInt8 → UInt8} {first second : UInt8} (found : PcieAt bytes first)
    (other : PcieAt bytes second) : first = second := by
  obtain ⟨_, count, rfl, _, key, before⟩ := found
  obtain ⟨_, count', rfl, _, key', before'⟩ := other
  rcases Nat.lt_trichotomy count count' with early | same | late
  · exact (before' _ early (.inr key)).elim
  · rw [same]
  · exact (before _ late (.inr key')).elim

end Lists

section Walks

theorem walkCapabilities_first {turns count : Nat} {walker : UInt8} (enough : count < turns)
    (ends : WalkEnds (busConfigReadByte config path spot role)
      ((fun place => busConfigReadByte config path spot role (place + 1))^[count] walker))
    (before : ∀ earlier < count, ¬WalkEnds (busConfigReadByte config path spot role)
      ((fun place => busConfigReadByte config path spot role (place + 1))^[earlier] walker)) :
    walkCapabilities config path spot role turns walker =
      some (if (fun place => busConfigReadByte config path spot role (place + 1))^[count] walker = 0 then none
        else some ((fun place => busConfigReadByte config path spot role (place + 1))^[count] walker)) := by
  induction turns generalizing count walker with
  | zero => cases enough
  | succ turns ih =>
    cases count with
    | zero =>
      rw [Function.iterate_zero_apply] at ends ⊢
      rw [walkCapabilities]
      by_cases none : walker = 0
      · rw [if_pos none, if_pos none]
      · rw [if_neg none, if_neg none, if_pos (ends.resolve_left none)]
    | succ count =>
      have here := before 0 (Nat.succ_pos count)
      rw [Function.iterate_zero_apply, WalkEnds, not_or] at here
      rw [walkCapabilities, if_neg here.1, if_neg here.2]
      exact ih (Nat.lt_of_succ_lt_succ enough) ends fun earlier early => before (earlier + 1) (Nat.succ_lt_succ early)

theorem walkCapabilities_ends {turns : Nat} {walker : UInt8} {found : Option UInt8}
    (walked : walkCapabilities config path spot role turns walker = some found) :
    ∃ count, WalkEnds (busConfigReadByte config path spot role)
      ((fun place => busConfigReadByte config path spot role (place + 1))^[count] walker) := by
  induction turns generalizing walker with
  | zero => cases walked
  | succ turns ih =>
    rw [walkCapabilities] at walked
    split at walked
    next none => exact ⟨0, .inl none⟩
    next =>
      split at walked
      next key => exact ⟨0, .inr key⟩
      next =>
        obtain ⟨count, ends⟩ := ih walked
        exact ⟨count + 1, ends⟩

/-- The walk stops within a turn for every byte that a pointer can point to, or never. -/
theorem walkCapabilities_outcome (config : ConfigSpace) (path spot role walker : UInt8) :
    let pointers := fun count => (fun place => busConfigReadByte config path spot role (place + 1))^[count] walker
    (∃ count, WalkEnds (busConfigReadByte config path spot role) (pointers count) ∧
      (∀ earlier < count, ¬WalkEnds (busConfigReadByte config path spot role) (pointers earlier)) ∧
      ∀ more, walkCapabilities config path spot role (256 + more) walker =
        some (if pointers count = 0 then none else some (pointers count))) ∨
    (∀ count, ¬WalkEnds (busConfigReadByte config path spot role) (pointers count)) ∧
      ∀ turns, walkCapabilities config path spot role turns walker = none := by
  by_cases stops : ∃ count, WalkEnds (busConfigReadByte config path spot role)
      ((fun place => busConfigReadByte config path spot role (place + 1))^[count] walker)
  · obtain ⟨count, small, ends, before⟩ :=
      Iteration.first_stop UInt8.toFin (fun _ _ => UInt8.toFin_inj.mp) _ stops
    exact .inl ⟨count, ends, before, fun more =>
      walkCapabilities_first (Nat.lt_add_right more small) ends before⟩
  · refine .inr ⟨not_exists.mp stops, fun turns => ?_⟩
    cases walked : walkCapabilities config path spot role turns walker with
    | none => rfl
    | some found => exact (stops (walkCapabilities_ends walked)).elim

theorem status_listed (config : ConfigSpace) (path spot role : UInt8) :
    busConfigReadWord config path spot role busRegStatus &&& 0x10 = 0 ↔
      ¬(busConfigReadByte config path spot role busRegStatus).toNat / 16 % 2 = 1 := by
  have small := (busConfigReadByte config path spot role busRegStatus).toNat_lt
  have word := busConfigReadWord_bytes config path spot role busRegStatus
  have masked : (busConfigReadWord config path spot role busRegStatus &&& 0x10).toNat =
      (busConfigReadWord config path spot role busRegStatus).toNat / 2 ^ 4 % 2 ^ 1 * 2 ^ 4 := by
    rw [UInt16.toNat_and]
    exact and_block _ 1 4
  rw [← UInt16.toNat_inj, masked, word, wordAt]
  change ((busConfigReadByte config path spot role busRegStatus).toNat + 256 * _) / 16 % 2 * 16 = 0 ↔ _
  omega

/-- What the three functions find. -/
theorem findCapability_outcome (config : ConfigSpace) (path spot role : UInt8) :
    let bytes := busConfigReadByte config path spot role
    (∃ place, PcieAt bytes place ∧ ∀ more, findCapability config path spot role (256 + more) = some (some place)) ∨
    ((∀ place, ¬PcieAt bytes place) ∧ ListEnds bytes ∧
      ∀ more, findCapability config path spot role (256 + more) = some none) ∨
    (¬ListEnds bytes ∧ ∀ turns, findCapability config path spot role turns = none) := by
  intro bytes
  have listed := status_listed config path spot role
  unfold findCapability
  by_cases unlisted : busConfigReadWord config path spot role busRegStatus &&& 0x10 = 0
  · simp only [if_pos unlisted]
    exact .inr (.inl ⟨fun _ found => listed.mp unlisted found.1, fun list => (listed.mp unlisted list).elim,
      fun _ => trivial⟩)
  simp only [if_neg unlisted]
  have list : (bytes busRegStatus).toNat / 16 % 2 = 1 := not_not.mp fun other => unlisted (listed.mpr other)
  rcases walkCapabilities_outcome config path spot role (bytes busRegCapPtr) with
    ⟨count, ends, before, walked⟩ | ⟨never, walked⟩
  · by_cases finished : capabilityAt bytes count = 0
    · refine .inr (.inl ⟨?_, fun _ => ⟨count, ends⟩, fun more => (walked more).trans (congrArg some (if_pos finished))⟩)
      rintro place ⟨_, other, rfl, nonzero, key, before'⟩
      rcases Nat.lt_trichotomy count other with early | same | late
      · exact before' count early (.inl finished)
      · exact nonzero (same ▸ finished)
      · exact before other late (.inr key)
    · exact .inl ⟨_, ⟨list, count, rfl, finished, ends.resolve_left finished, before⟩,
        fun more => (walked more).trans (congrArg some (if_neg finished))⟩
  · refine .inr (.inr ⟨fun finishes => ?_, walked⟩)
    obtain ⟨count, ends⟩ := finishes list
    exact never count ends

end Walks

section Links

/-- The link speed with a number. -/
def linkSpeed : Nat → PcieLinkSpeed
  | 1 => .gen1
  | 2 => .gen2
  | 3 => .gen3
  | 4 => .gen4
  | 5 => .gen5
  | _ => .unknown

/-- The link word behind a capability, cut to the width and to the speed. -/
theorem link_fields (config : ConfigSpace) (path spot role place : UInt8) :
    let info := busConfigReadWord config path spot role (place + 0x12)
    let word := wordAt (busConfigReadByte config path spot role) (place + 0x12)
    (info >>> 4 &&& 0x3F).toUInt8 = UInt8.ofNat (word / 16 % 64) ∧
      (info &&& 0x0F).toUInt8 = UInt8.ofNat (word % 16) := by
  intro info word
  have same : info.toNat = word := busConfigReadWord_bytes config path spot role (place + 0x12)
  constructor
  · apply UInt8.toNat_inj.mp
    rw [UInt16.toNat_toUInt8, UInt16.toNat_and, UInt16.toNat_shiftRight, Nat.shiftRight_eq_div_pow, same,
      UInt8.toNat_ofNat']
    change (word / 16 &&& (2 ^ 6 - 1)) % 2 ^ 8 = _
    rw [Nat.and_two_pow_sub_one_eq_mod]
  · apply UInt8.toNat_inj.mp
    rw [UInt16.toNat_toUInt8, UInt16.toNat_and, same, UInt8.toNat_ofNat']
    change (word &&& (2 ^ 4 - 1)) % 2 ^ 8 = _
    rw [Nat.and_two_pow_sub_one_eq_mod]

theorem linkSpeed_eq {value : Nat} (small : value < 16) :
    (if UInt8.ofNat value = 1 then some PcieLinkSpeed.gen1 else if UInt8.ofNat value = 2 then some .gen2
      else if UInt8.ofNat value = 3 then some .gen3 else if UInt8.ofNat value = 4 then some .gen4
      else if UInt8.ofNat value = 5 then some .gen5 else some .unknown) = some (linkSpeed value) := by
  interval_cases value <;> rfl

/-- What the functions of `express_pci.c` return for a device, from its configuration bytes:
they come back exactly when the capability list ends or leads to the capability, and then
say whether it does, and what the link word behind it holds. -/
theorem pcie_functions (config : ConfigSpace) (path spot role : UInt8) :
    let bytes := busConfigReadByte config path spot role
    (∀ place, PcieAt bytes place → ∀ more,
      busPcieCheckDevice config path spot role (256 + more) = some 1 ∧
      busPcieGetWidth config path spot role (256 + more) =
        some (UInt8.ofNat (wordAt bytes (place + 0x12) / 16 % 64)) ∧
      busPcieGetSpeed config path spot role (256 + more) = some (linkSpeed (wordAt bytes (place + 0x12) % 16))) ∧
    ((∀ place, ¬PcieAt bytes place) → ListEnds bytes → ∀ more,
      busPcieCheckDevice config path spot role (256 + more) = some 0 ∧
      busPcieGetWidth config path spot role (256 + more) = some 0 ∧
      busPcieGetSpeed config path spot role (256 + more) = some .unknown) ∧
    (¬ListEnds bytes → ∀ turns,
      busPcieCheckDevice config path spot role turns = none ∧ busPcieGetWidth config path spot role turns = none ∧
      busPcieGetSpeed config path spot role turns = none) := by
  intro bytes
  unfold busPcieCheckDevice busPcieGetWidth busPcieGetSpeed
  rcases findCapability_outcome config path spot role with ⟨first, found, finds⟩ | ⟨none, ends, finds⟩ | ⟨endless, finds⟩
  · refine ⟨fun place other more => ?_, fun none => (none first found).elim, fun endless => ?_⟩
    · obtain rfl := other.unique found
      have fields := link_fields config path spot role place
      rw [finds]
      refine ⟨rfl, ?_, ?_⟩
      · exact congrArg some fields.1
      · have speed := linkSpeed_eq (Nat.mod_lt (wordAt bytes (place + 0x12)) (show 16 > 0 by decide))
        rw [← fields.2] at speed
        exact speed
    · obtain ⟨_, count, rfl, _, key, _⟩ := found
      exact (endless fun _ => ⟨count, .inr key⟩).elim
  · refine ⟨fun place found => (none place found).elim, fun _ _ more => ?_, fun endless => (endless ends).elim⟩
    rw [finds]
    exact ⟨rfl, rfl, rfl⟩
  · refine ⟨fun place found => ?_, fun _ ends => (endless ends).elim, fun _ turns => ?_⟩
    · obtain ⟨_, count, rfl, _, key, _⟩ := found
      exact (endless fun _ => ⟨count, .inr key⟩).elim
    · rw [finds]
      exact ⟨rfl, rfl, rfl⟩

end Links

section Boot

/-- The configuration bytes of a device in the list. -/
def deviceBytes (config : ConfigSpace) (device : PciDevice) : UInt8 → UInt8 :=
  busConfigReadByte config device.busNumber device.slotNumber device.functionNumber

/-- The list of the device leads to the PCI Express capability. -/
def LeadsToPcie (bytes : UInt8 → UInt8) : Prop := ∃ place, PcieAt bytes place

/-- A count that may break off. -/
theorem countM_eq {α : Type} (check : α → Option Nat) (finishes has : α → Prop) [DecidablePred finishes]
    [DecidablePred has] (checks : ∀ item, check item = if finishes item then some (if has item then 1 else 0) else none)
    (items : List α) (found : Nat) :
    (items.foldlM (fun found item => do
      let check ← check item
      return if check ≠ 0 then found + 1 else found) found : Option Nat) =
      if ∀ item ∈ items, finishes item then some (found + items.countP fun item => has item) else none := by
  induction items generalizing found with
  | nil => simp
  | cons item items ih =>
    simp only [List.foldlM_cons, checks item, List.forall_mem_cons, List.countP_cons]
    by_cases ends : finishes item
    · simp only [ends, true_and]
      by_cases here : has item
      · have next := ih (found + 1)
        rw [Nat.add_assoc, Nat.add_comm 1] at next
        simpa [here] using next
      · simpa [here] using ih found
    · simp [ends]

/-- A count that does not break off has seen every item through. -/
theorem countM_checks {α : Type} (check : α → Option Nat) {items : List α} {found count : Nat}
    (counted : (items.foldlM (fun found item => do
      let check ← check item
      return if check ≠ 0 then found + 1 else found) found : Option Nat) = some count) :
    ∀ item ∈ items, check item ≠ none := by
  induction items generalizing found with
  | nil => exact fun _ member => nomatch member
  | cons item items ih =>
    rw [List.foldlM_cons] at counted
    cases checked : check item with
    | none =>
      rw [checked] at counted
      cases counted
    | some value =>
      rw [checked] at counted
      exact List.forall_mem_cons.mpr ⟨by rw [checked]; exact Option.some_ne_none value, ih counted⟩

open Classical in
theorem busPcieCheckDevice_eq (config : ConfigSpace) (path spot role : UInt8) (more : Nat) :
    busPcieCheckDevice config path spot role (256 + more) =
      if ListEnds (busConfigReadByte config path spot role) then
        some (if LeadsToPcie (busConfigReadByte config path spot role) then 1 else 0)
      else none := by
  obtain ⟨finds, misses, endless⟩ := pcie_functions config path spot role
  by_cases ends : ListEnds (busConfigReadByte config path spot role)
  · rw [if_pos ends]
    by_cases here : LeadsToPcie (busConfigReadByte config path spot role)
    · obtain ⟨place, found⟩ := here
      rw [if_pos ⟨place, found⟩, (finds place found more).1]
    · rw [if_neg here, (misses (not_exists.mp here) ends more).1]
  · rw [if_neg ends, (endless ends _).1]

open Classical in
/-- At boot the devices with the capability are counted. The count is done exactly when no
listed device has a capability list that runs in a circle past the capability, and is the
number of listed devices that have it. -/
theorem busPciInitialize_counts (config : ConfigSpace) (steps : Nat) :
    (∀ more, busPciInitialize config steps (256 + more) =
      (busDeviceInitialize config steps).bind fun devices =>
        if ∀ device ∈ devices, ListEnds (deviceBytes config device) then
          some (devices, devices.countP fun device => LeadsToPcie (deviceBytes config device))
        else none) ∧
    ∀ turns devices count, busPciInitialize config steps turns = some (devices, count) →
      ∀ device ∈ devices, ListEnds (deviceBytes config device) := by
  unfold busPciInitialize
  cases busDeviceInitialize config steps with
  | none => exact ⟨fun _ => rfl, fun _ _ _ counted => nomatch counted⟩
  | some devices =>
    refine ⟨fun more => ?_, fun turns listed count counted => ?_⟩
    · have counted := countM_eq _ _ _ (fun device : PciDevice => busPcieCheckDevice_eq config device.busNumber
        device.slotNumber device.functionNumber more) devices 0
      simp only [Option.bind_eq_bind, Option.bind_some] at counted ⊢
      rw [counted, Nat.zero_add]
      unfold deviceBytes
      split <;> rfl
    · cases tally : (devices.foldlM (fun found device => do
          let check ← busPcieCheckDevice config device.busNumber device.slotNumber device.functionNumber turns
          return if check ≠ 0 then found + 1 else found) 0 : Option Nat) with
      | none =>
        rw [Option.bind_eq_bind, Option.bind_some, tally] at counted
        cases counted
      | some total =>
        rw [Option.bind_eq_bind, Option.bind_some, tally] at counted
        cases counted
        intro device member
        by_contra endless
        exact countM_checks _ tally device member
          ((pcie_functions config device.busNumber device.slotNumber device.functionNumber).2.2 endless turns).1

end Boot

end Kernix.Proofs
