import Kernix.Drivers.Mouse
import Kernix.Interrupts.Pic
import Kernix.Lib.SlotList

/-! Which requests of the devices reach their handlers. The controllers, the gates and the
entries come to a short list of lines whose interrupts nobody has ended: such a line, and
all that are no more urgent, are silent from then on. -/

namespace Kernix.Proofs

section Bits

theorem bitOf_oneBit (n k : Fin 8) : bitOf (oneBit n) k = decide (k = n) := by
  revert n k
  decide

theorem bitOf_maskedByte (current : UInt8) (n k : Fin 8) (enable : Bool) :
    bitOf (maskedByte current n enable) k = if k = n then enable else bitOf current k := by
  have one : (oneBit n).toBitVec.getLsbD k = decide (k = n) := bitOf_oneBit n k
  unfold bitOf maskedByte
  cases enable
  · rw [if_neg Bool.false_ne_true, UInt8.toBitVec_and, UInt8.toBitVec_not, BitVec.getLsbD_and, BitVec.getLsbD_not, one]
    by_cases same : k = n <;> simp [same]
  · rw [if_pos rfl, UInt8.toBitVec_or, BitVec.getLsbD_or, one]
    by_cases same : k = n <;> simp [same]

/-- An end of interrupt, for the most urgent line in service. -/
theorem clearFirst_eq {bits : Fin 8 → Bool} {n : Fin 8} (first : bits n = true) (lower : ∀ k < n, bits k = false) :
    clearFirst bits = Function.update bits n false := by
  unfold clearFirst
  rw [FirstIndex.found_iff.mpr ⟨first, lower⟩]

theorem accepts_iff (pic : Pic) (n : Fin 8) : pic.accepts n = true ↔
    pic.stage = .ready ∧ bitOf pic.mask n = false ∧ ∀ k ≤ n, pic.inService k = false := by
  unfold Pic.accepts
  simp only [Bool.and_eq_true, decide_eq_true_eq, Bool.not_eq_true', List.all_eq_true, List.mem_finRange, true_implies,
    Bool.or_eq_true, and_assoc]
  refine and_congr_right fun _ => and_congr_right fun _ => forall_congr' fun k => ?_
  rw [← not_le, or_iff_not_imp_left, not_not]

end Bits

section Gates

/-- A number from three of its pieces. -/
theorem pieces_or (value : Nat) :
    value % 65536 ||| value / 65536 % 65536 * 65536 ||| value / 4294967296 * 4294967296 = value := by
  have low : value / 65536 % 65536 * 65536 ||| value % 65536 = value / 65536 % 65536 * 65536 + value % 65536 := by
    rw [Nat.mul_comm]
    exact (Nat.two_pow_add_eq_or_of_lt (i := 16) (Nat.mod_lt _ (by decide)) _).symm
  have high : value / 4294967296 * 4294967296 ||| (value / 65536 % 65536 * 65536 + value % 65536) =
      value / 4294967296 * 4294967296 + (value / 65536 % 65536 * 65536 + value % 65536) := by
    rw [Nat.mul_comm (value / 4294967296)]
    exact (Nat.two_pow_add_eq_or_of_lt (i := 32) (by omega) _).symm
  rw [Nat.or_comm (value % 65536), low, Nat.or_comm, high]
  omega

/-- The processor finds the handler that was put into a gate, if the gate is present. -/
theorem idtSetGate_target (idt : Idt) (num vector : UInt8) (handler : UInt64) (flags : UInt8) :
    (idtSetGate idt num handler flags vector).target =
      if vector = num then if flags &&& idtFlagPresent ≠ 0 then some handler else none else (idt vector).target := by
  unfold idtSetGate
  rw [Function.update_apply]
  split
  next =>
    unfold IdtEntry.target
    refine if_congr Iff.rfl (congrArg some ?_) rfl
    apply UInt64.toNat_inj.mp
    have small : handler.toNat < 18446744073709551616 := handler.toNat_lt
    have low (value : Nat) : value &&& 65535 = value % 65536 := Nat.and_two_pow_sub_one_eq_mod value 16
    have high (value : Nat) : value &&& 4294967295 = value % 4294967296 := Nat.and_two_pow_sub_one_eq_mod value 32
    have fits : handler.toNat / 4294967296 % 4294967296 = handler.toNat / 4294967296 := by omega
    have middle : handler.toNat / 65536 % 65536 * 65536 % 18446744073709551616 =
      handler.toNat / 65536 % 65536 * 65536 := by
      omega
    have top : handler.toNat / 4294967296 * 4294967296 % 18446744073709551616 = handler.toNat / 4294967296 * 4294967296 :=
      Nat.mod_eq_of_lt (lt_of_le_of_lt (Nat.div_mul_le_self _ _) small)
    simp only [UInt64.toNat_or, UInt64.toNat_shiftLeft, UInt16.toNat_toUInt64, UInt64.toNat_toUInt16, UInt64.toNat_and,
      UInt64.toNat_shiftRight, UInt32.toNat_toUInt64, UInt64.toNat_toUInt32, UInt64.reduceToNat, Nat.reduceMod,
      Nat.shiftLeft_eq, Nat.shiftRight_eq_div_pow, Nat.reducePow, low, high, Nat.mod_mod, fits, middle, top]
    exact pieces_or handler.toNat
  next => rfl

variable {k : Nat} {key : Fin k → UInt8} (handler : Fin k → UInt64) (flags : UInt8)

/-- Gates that are set one after the other leave the others alone. -/
theorem setGates_others {vector : UInt8} {items : List (Fin k)} (others : ∀ n ∈ items, vector ≠ key n) (idt : Idt) :
    (items.foldl (fun idt n => idtSetGate idt (key n) (handler n) flags) idt vector).target = (idt vector).target := by
  induction items generalizing idt with
  | nil => rfl
  | cons first items ih =>
    rw [List.foldl_cons, ih fun n member => others n (List.mem_cons_of_mem _ member), idtSetGate_target,
      if_neg (others first List.mem_cons_self)]

theorem setGates_target (apart : Function.Injective key) {items : List (Fin k)} {n : Fin k} (member : n ∈ items)
    (idt : Idt) : (items.foldl (fun idt n => idtSetGate idt (key n) (handler n) flags) idt (key n)).target =
      if flags &&& idtFlagPresent ≠ 0 then some (handler n) else none := by
  induction items generalizing idt with
  | nil => cases member
  | cons first items ih =>
    rw [List.foldl_cons]
    by_cases later : n ∈ items
    · exact ih later _
    · have same : n = first := (List.mem_cons.mp member).resolve_right later
      rw [setGates_others, idtSetGate_target, if_pos (congrArg key same), same]
      intro other inside equal
      exact later (apart equal ▸ inside)

theorem hardwareVector_injective : Function.Injective fun n : Fin 16 => UInt8.ofNat (32 + n) := by
  unfold Function.Injective
  decide

theorem exceptionVector_injective : Function.Injective fun n : Fin 32 => UInt8.ofNat n := by
  unfold Function.Injective
  decide

/-- The gate of a hardware interrupt leads to its entry. -/
theorem idtInit_hardware (points : EntryPoints) (system : InterruptSystem) (n : Fin 16) :
    ((idtInit points system).idt (UInt8.ofNat (32 + n))).target = some (points.address (n.natAdd 32)) := by
  have gate := setGates_target (fun n : Fin 16 => points.address (n.natAdd 32))
    (idtFlagPresent ||| idtFlagRing0 ||| idtFlagGateInt) hardwareVector_injective (List.mem_finRange n)
    (isrInstall points fun _ => .zero)
  rw [if_pos (by decide)] at gate
  exact gate

/-- The gate of an exception is not present. -/
theorem idtInit_exception (points : EntryPoints) (system : InterruptSystem) (n : Fin 32) :
    ((idtInit points system).idt (UInt8.ofNat n)).target = none := by
  have apart (n : Fin 32) (m : Fin 16) : UInt8.ofNat n ≠ UInt8.ofNat (32 + m) := by
    revert n m
    decide
  have later := setGates_others (fun n : Fin 16 => points.address (n.natAdd 32))
    (idtFlagPresent ||| idtFlagRing0 ||| idtFlagGateInt)
    (fun m (_ : m ∈ List.finRange 16) => apart n m) (isrInstall points fun _ => .zero)
  have gate := setGates_target (fun n : Fin 32 => points.address (n.castAdd 16)) 0
    exceptionVector_injective (List.mem_finRange n) fun _ => .zero
  rw [if_neg (by decide)] at gate
  exact later.trans gate

/-- An entry pushes its own number. -/
theorem pushes_address (points : EntryPoints) (n : Fin 48) : points.pushes (points.address n) = some (UInt8.ofNat n) := by
  have found : (List.finRange 48).find? (fun m => points.address m = points.address n) = some n :=
    FirstIndex.found_iff.mpr ⟨decide_eq_true rfl, fun lower less =>
      decide_eq_false fun same => ne_of_lt less (points.injective same)⟩
  unfold EntryPoints.pushes
  rw [found]
  rfl

end Gates

section Lines

/-- A line that a device can use: the secondary controller is wired to line 2. -/
abbrev DeviceLine := { n : Fin 16 // n.val ≠ 2 }

/-- How urgent a line is, as the primary controller sees it. -/
def urgency (n : Fin 16) : Fin 8 := if (lineOf n).1 then cascadeLine else (lineOf n).2

/-- What a request on a line calls. -/
def servedCall (n : Fin 16) : InterruptCall :=
  match n.val with
  | 0 => .timerHandleInterrupt
  | 1 => .keyboardInterruptHandler
  | 12 => .mouseInterruptHandler
  | _ => .nothing

/-- The lines that are masked, those whose interrupts nobody has ended, and what the handlers
look at before they end one. -/
structure Lines where
  masked : Fin 16 → Bool
  unended : List (Fin 16)
  totalTicks : Nat
  mouseCycle : Nat

/-- A request gets through when its line is open, and more urgent than those that nobody has ended. -/
def Passes (masked : Fin 16 → Bool) (unended : List (Fin 16)) (n : Fin 16) : Prop :=
  masked n = false ∧ ((lineOf n).1 = true → masked cascadeIrq = false) ∧ ∀ m ∈ unended, urgency n < urgency m

instance (masked : Fin 16 → Bool) (unended : List (Fin 16)) (n : Fin 16) : Decidable (Passes masked unended n) :=
  inferInstanceAs (Decidable (_ ∧ (_ → _) ∧ _))

def Lines.Through (lines : Lines) (n : Fin 16) : Prop := Passes lines.masked lines.unended n

instance (lines : Lines) (n : Fin 16) : Decidable (lines.Through n) :=
  inferInstanceAs (Decidable (Passes _ _ _))

/-- The timer that runs, the keyboard, and the mouse with a byte that it keeps end their interrupts. -/
def Lines.ends (lines : Lines) (n : Fin 16) (status b : UInt8) : Bool :=
  match n.val with
  | 0 => lines.totalTicks ≠ 0
  | 1 => true
  | 12 => !(status &&& 0x20 = 0) && !(lines.mouseCycle = 0 ∧ b &&& 0x08 = 0)
  | _ => false

def Lines.serve (lines : Lines) (n : Fin 16) (status b : UInt8) : Lines :=
  if lines.ends n status b then
    { lines with
      totalTicks := if n.val = 0 then u64 (lines.totalTicks + 1) else lines.totalTicks
      mouseCycle := if n.val = 12 then (lines.mouseCycle + 1) % 3 else lines.mouseCycle }
  else { lines with unended := n :: lines.unended }

theorem movePointer_cycle {fbWidth fbHeight : Nat} {mouse after : Mouse}
    (result : movePointer fbWidth fbHeight mouse = .ok after) : after.mouseCycle = mouse.mouseCycle := by
  unfold movePointer at result
  obtain ⟨_, _, result⟩ := bind_ok result
  obtain ⟨_, _, result⟩ := bind_ok result
  obtain ⟨_, _, result⟩ := bind_ok result
  obtain ⟨_, _, result⟩ := bind_ok result
  split at result
  · obtain ⟨_, _, result⟩ := bind_ok result
    obtain ⟨_, _, result⟩ := bind_ok result
    cases result
    rfl
  · cases result
    rfl

/-- The cycle of the mouse here is that of its driver. -/
theorem mouseInterruptHandler_cycle {fbWidth fbHeight : Nat} {mouse after : Mouse} {status b : UInt8}
    (result : mouseInterruptHandler fbWidth fbHeight status b mouse = .ok after) (cycle : mouse.mouseCycle ≤ 2)
    (system : InterruptSystem) (same : system.mouseCycle = mouse.mouseCycle) :
    (runCall system status b .mouseInterruptHandler).mouseCycle = after.mouseCycle := by
  unfold mouseInterruptHandler at result
  unfold runCall
  rw [same]
  split at result
  next other =>
    cases result
    rw [if_pos other, same]
  next own =>
    rw [if_neg own]
    split at result
    next dropped =>
      cases result
      rw [if_pos dropped, same]
    next kept =>
      rw [if_neg kept]
      obtain ⟨_, _, result⟩ := bind_ok result
      have next : (mouse.mouseCycle + 1) % 2 ^ 8 = mouse.mouseCycle + 1 := Nat.mod_eq_of_lt (by omega)
      simp only [next] at result
      split at result
      next whole =>
        rw [movePointer_cycle result]
        show (mouse.mouseCycle + 1) % 3 = 0
        rw [whole]
      next part =>
        cases result
        exact Nat.mod_eq_of_lt (by omega)

/-- What happens to the interrupts: requests, and the calls that open and close lines. -/
inductive InterruptEvent where
  | request (n : DeviceLine) (status b : UInt8)
  | irqSetMask (num : Fin 16) (enable : Bool)
  | irqRegisterHandler (num : Fin 16) (routine : Nat)
  | irqUnregisterHandler (num : Fin 16)
  | timerSystemInitialize

def interruptEvent (points : EntryPoints) (system : InterruptSystem) :
    InterruptEvent → Option InterruptCall × InterruptSystem
  | .request n status b => request points system n.val status b
  | .irqSetMask num enable => (none, { system with pics := irqSetMask system.pics num enable })
  | .irqRegisterHandler num routine => (none, irqRegisterHandler system num routine)
  | .irqUnregisterHandler num => (none, irqUnregisterHandler system num)
  | .timerSystemInitialize => (none, { system with totalTicks := 1 })

def Lines.event (lines : Lines) : InterruptEvent → Option InterruptCall × Lines
  | .request n status b =>
    if lines.Through n.val then (some (servedCall n.val), lines.serve n.val status b) else (none, lines)
  | .irqSetMask num enable => (none, { lines with masked := Function.update lines.masked num enable })
  | .irqRegisterHandler num _ => (none, { lines with masked := Function.update lines.masked num false })
  | .irqUnregisterHandler num => (none, { lines with masked := Function.update lines.masked num true })
  | .timerSystemInitialize => (none, { lines with totalTicks := 1 })

/-- The controllers hold in service what nobody has ended. -/
structure Wired (pics : Pics) (masked : Fin 16 → Bool) (unended : List (Fin 16)) : Prop where
  stages : pics.primary.stage = .ready ∧ pics.secondary.stage = .ready
  bases : pics.primary.base = 0x20 ∧ pics.secondary.base = 0x28
  wiring : pics.primary.wiring = 0x04 ∧ pics.secondary.wiring = 0x02
  masks : ∀ n, masked n = bitOf (if (lineOf n).1 then pics.secondary.mask else pics.primary.mask) (lineOf n).2
  primary : ∀ k, pics.primary.inService k = true ↔ ∃ m ∈ unended, urgency m = k
  secondary : ∀ k, pics.secondary.inService k = true ↔ ∃ m ∈ unended, (lineOf m).1 = true ∧ (lineOf m).2 = k

variable {pics : Pics} {masked : Fin 16 → Bool} {unended : List (Fin 16)} {n : Fin 16}

/-- Whatever state the controllers were in. -/
theorem reprogramPic_eq (pics : Pics) :
    reprogramPic pics = ⟨⟨.ready, 0x20, 0x04, 0xFF, fun _ => false⟩, ⟨.ready, 0x28, 0x02, 0xFF, fun _ => false⟩⟩ := rfl

theorem Wired.initial (pics : Pics) :
    Wired ([0, 1, 12, 2].foldl (fun pics num => irqSetMask pics num false) (reprogramPic pics))
      (fun n => !decide (n.val < 3 ∨ n.val = 12)) [] where
  stages := ⟨rfl, rfl⟩
  bases := ⟨rfl, rfl⟩
  wiring := ⟨rfl, rfl⟩
  masks := by
    rw [reprogramPic_eq]
    decide
  primary k := iff_of_false Bool.false_ne_true fun ⟨_, member, _⟩ => by cases member
  secondary k := iff_of_false Bool.false_ne_true fun ⟨_, member, _⟩ => by cases member

theorem data_ready {pic : Pic} (ready : pic.stage = .ready) (value : UInt8) :
    pic.data value = { pic with mask := value } := by
  cases pic
  cases ready
  rfl

theorem Wired.setMask (wired : Wired pics masked unended) (num : Fin 16) (enable : Bool) :
    Wired (irqSetMask pics num enable) (Function.update masked num enable) unended := by
  have same (n : Fin 16) : (n = num) ↔ (lineOf n).1 = (lineOf num).1 ∧ (lineOf n).2 = (lineOf num).2 := by
    revert n num
    decide
  have ready := wired.stages
  have high : (lineOf num).1 = decide (8 ≤ num.val) := rfl
  unfold irqSetMask
  split
  next low =>
    have first : (lineOf num).1 = false := by rw [high, decide_eq_false (by omega)]
    have written : pics.outb primaryPicData (maskedByte pics.primary.mask (lineOf num).2 enable) =
        { pics with primary := { pics.primary with mask := maskedByte pics.primary.mask (lineOf num).2 enable } } :=
      congrArg (fun pic => { pics with primary := pic }) (data_ready ready.1 _)
    rw [written]
    refine ⟨wired.stages, wired.bases, wired.wiring, fun n => ?_, wired.primary, wired.secondary⟩
    rw [Function.update_apply, wired.masks]
    cases second : (lineOf n).1
    · simp only [if_false, Bool.false_eq_true, bitOf_maskedByte, same, second, first, true_and]
    · rw [if_neg fun equal => by rw [equal, first] at second; cases second]
      simp only [if_true]
  next low =>
    have second : (lineOf num).1 = true := by rw [high, decide_eq_true (by omega)]
    have written : pics.outb secondaryPicData (maskedByte pics.secondary.mask (lineOf num).2 enable) =
        { pics with secondary := { pics.secondary with mask := maskedByte pics.secondary.mask (lineOf num).2 enable } } :=
      congrArg (fun pic => { pics with secondary := pic }) (data_ready ready.2 _)
    rw [written]
    refine ⟨wired.stages, wired.bases, wired.wiring, fun n => ?_, wired.primary, wired.secondary⟩
    rw [Function.update_apply, wired.masks]
    cases first : (lineOf n).1
    · rw [if_neg fun equal => by rw [equal, second] at first; cases first]
      simp only [if_false, Bool.false_eq_true]
    · simp only [if_true, bitOf_maskedByte, same, first, second, true_and]

/-- Nothing at least as urgent is in service. -/
theorem Wired.quiet (wired : Wired pics masked unended) (k : Fin 8) :
    (∀ lower ≤ k, pics.primary.inService lower = false) ↔ ∀ m ∈ unended, k < urgency m := by
  constructor
  · intro quiet m member
    by_contra urgent
    have idle := quiet (urgency m) (not_lt.mp urgent)
    rw [(wired.primary _).mpr ⟨m, member, rfl⟩] at idle
    cases idle
  · intro less lower below
    rw [← Bool.not_eq_true, wired.primary]
    rintro ⟨m, member, rfl⟩
    exact absurd below (not_le.mpr (less m member))

/-- The requests that the controllers let through. -/
theorem Wired.accepts (wired : Wired pics masked unended) {k : Fin 16} (first : (lineOf k).1 = false) :
    pics.primary.accepts (lineOf k).2 = true ↔ masked k = false ∧ ∀ m ∈ unended, (lineOf k).2 < urgency m := by
  rw [accepts_iff, wired.quiet, wired.masks, first, if_neg Bool.false_ne_true]
  exact and_iff_right wired.stages.1

/-- The secondary controller serves nothing as long as the primary one lets it through. -/
theorem Wired.accepts_secondary (wired : Wired pics masked unended) {k : Fin 16} (second : (lineOf k).1 = true)
    (less : ∀ m ∈ unended, cascadeLine < urgency m) :
    pics.secondary.accepts (lineOf k).2 = true ↔ masked k = false := by
  rw [accepts_iff, wired.masks, second, if_pos rfl, and_iff_right wired.stages.2]
  refine and_iff_left fun lower _ => ?_
  rw [← Bool.not_eq_true, wired.secondary]
  rintro ⟨m, member, high, _⟩
  have urgent := less m member
  rw [urgency, if_pos high] at urgent
  exact lt_irrefl _ urgent

theorem lineVector (n : Fin 16) :
    (if (lineOf n).1 then 0x28 else 0x20) + UInt8.ofNat (lineOf n).2 = UInt8.ofNat (32 + n) := by
  revert n
  decide

/-- A line goes into service. -/
theorem serves_iff {bits : Fin 8 → Bool} (place : Fin 16 → Fin 8) (known : Fin 16 → Prop)
    (bits_iff : ∀ k, bits k = true ↔ ∃ m ∈ unended, known m ∧ place m = k) (n : Fin 16) (isKnown : known n) (k : Fin 8) :
    Function.update bits (place n) true k = true ↔ ∃ m ∈ n :: unended, known m ∧ place m = k := by
  rw [Function.update_apply, List.exists_mem_cons_iff]
  split
  next same => exact iff_of_true rfl (.inl ⟨isKnown, same.symm⟩)
  next apart =>
    rw [bits_iff]
    exact (or_iff_right fun both => apart both.2.symm).symm

/-- A request that gets through brings its own vector, and its line is in service. -/
theorem Wired.deliver_passes (wired : Wired pics masked unended) (passes : Passes masked unended n) :
    ∃ after, pics.deliver n = some (UInt8.ofNat (32 + n), after) ∧ Wired after masked (n :: unended) := by
  obtain ⟨unmasked, cascade, less⟩ := passes
  have vector := lineVector n
  have primary := serves_iff urgency (fun _ => True) (by simpa using wired.primary) n trivial
  simp only [true_and] at primary
  unfold Pics.deliver
  cases part : (lineOf n).1
  · have urgent : urgency n = (lineOf n).2 := if_neg (by rw [part]; exact Bool.false_ne_true)
    rw [urgent] at less primary
    rw [part, if_neg Bool.false_ne_true] at vector
    rw [if_neg Bool.false_ne_true, if_pos ((wired.accepts part).mpr ⟨unmasked, less⟩), wired.bases.1, vector]
    refine ⟨_, rfl, wired.stages, wired.bases, wired.wiring, wired.masks, primary, fun k => ?_⟩
    rw [List.exists_mem_cons_iff, part]
    exact (wired.secondary k).trans (or_iff_right fun both => Bool.false_ne_true both.1).symm
  · have urgent : urgency n = cascadeLine := if_pos part
    rw [urgent] at less primary
    rw [part, if_pos rfl] at vector
    have opened : pics.primary.accepts cascadeLine = true := (wired.accepts (k := 2) rfl).mpr ⟨cascade part, less⟩
    have accepted := (wired.accepts_secondary part less).mpr unmasked
    rw [if_pos rfl, if_pos (by rw [wired.wiring.1, wired.wiring.2, accepted, opened]; rfl), wired.bases.2, vector]
    exact ⟨_, rfl, wired.stages, wired.bases, wired.wiring, wired.masks, primary,
      serves_iff (fun m => (lineOf m).2) _ wired.secondary n part⟩

theorem Wired.deliver_blocked (wired : Wired pics masked unended) (blocked : ¬Passes masked unended n) :
    pics.deliver n = none := by
  unfold Pics.deliver
  cases part : (lineOf n).1
  · have urgent : urgency n = (lineOf n).2 := if_neg (by rw [part]; exact Bool.false_ne_true)
    rw [if_neg Bool.false_ne_true, if_neg]
    intro accepted
    obtain ⟨unmasked, less⟩ := (wired.accepts part).mp accepted
    exact blocked ⟨unmasked, by rw [part]; exact fun second => (Bool.false_ne_true second).elim, by rwa [urgent]⟩
  · have urgent : urgency n = cascadeLine := if_pos part
    rw [if_pos rfl, if_neg]
    intro accepted
    simp only [Bool.and_eq_true] at accepted
    obtain ⟨opened, less⟩ := (wired.accepts (k := 2) rfl).mp accepted.2
    exact blocked ⟨(wired.accepts_secondary part less).mp accepted.1.2, fun _ => opened, by rwa [urgent]⟩

/-- The end of the most urgent interrupt in service, at the primary controller. -/
theorem Wired.clears (wired : Wired pics masked (n :: unended)) (less : ∀ m ∈ unended, urgency n < urgency m)
    (k : Fin 8) : clearFirst pics.primary.inService k = true ↔ ∃ m ∈ unended, urgency m = k := by
  rw [clearFirst_eq (n := urgency n), Function.update_apply]
  · split
    next same =>
      refine iff_of_false Bool.false_ne_true ?_
      rintro ⟨m, member, equal⟩
      exact absurd (equal.trans same) (ne_of_gt (less m member))
    next apart =>
      rw [wired.primary, List.exists_mem_cons_iff]
      exact or_iff_right fun same => apart same.symm
  · exact (wired.primary _).mpr ⟨n, List.mem_cons_self, rfl⟩
  · intro lower below
    rw [← Bool.not_eq_true, wired.primary, List.exists_mem_cons_iff]
    rintro (same | ⟨m, member, rfl⟩)
    · exact absurd below (same ▸ lt_irrefl _)
    · exact lt_asymm below (less m member)

theorem Wired.ends_primary (wired : Wired pics masked (n :: unended)) (less : ∀ m ∈ unended, urgency n < urgency m)
    (first : (lineOf n).1 = false) : Wired (pics.outb primaryPicCmd eoiSignal) masked unended := by
  refine ⟨wired.stages, wired.bases, wired.wiring, wired.masks, wired.clears less, fun k => ?_⟩
  refine (wired.secondary k).trans ?_
  rw [List.exists_mem_cons_iff, first]
  exact or_iff_right fun both => Bool.false_ne_true both.1

theorem Wired.ends_secondary (wired : Wired pics masked (n :: unended)) (less : ∀ m ∈ unended, urgency n < urgency m)
    (second : (lineOf n).1 = true) {num : UInt8} (high : 8 ≤ num) : Wired (irqAck pics num) masked unended := by
  have others : ∀ m ∈ unended, (lineOf m).1 = false := by
    intro m member
    by_contra also
    have urgent := less m member
    rw [urgency, if_pos second, urgency, if_pos (Bool.not_eq_false _ ▸ also)] at urgent
    exact lt_irrefl _ urgent
  unfold irqAck
  rw [if_pos high]
  refine ⟨wired.stages, wired.bases, wired.wiring, wired.masks, wired.clears less, fun k => ?_⟩
  show clearFirst pics.secondary.inService k = true ↔ _
  have only (k : Fin 8) : pics.secondary.inService k = true ↔ (lineOf n).2 = k := by
    rw [wired.secondary, List.exists_mem_cons_iff, and_iff_right second]
    refine or_iff_left ?_
    rintro ⟨m, member, high, _⟩
    rw [others m member] at high
    cases high
  rw [clearFirst_eq (n := (lineOf n).2) ((only _).mpr rfl), Function.update_apply]
  · refine iff_of_false ?_ ?_
    · split
      next => exact Bool.false_ne_true
      next apart => exact fun set => apart ((only k).mp set).symm
    · rintro ⟨m, member, high, _⟩
      rw [others m member] at high
      cases high
  · intro lower below
    rw [← Bool.not_eq_true, only]
    exact ne_of_gt below

end Lines

section Runs

/-- The system does what its lines say. -/
structure ServesLines (points : EntryPoints) (system : InterruptSystem) (lines : Lines) : Prop where
  wired : Wired system.pics lines.masked lines.unended
  hardware : ∀ n : Fin 16, (system.idt (UInt8.ofNat (32 + n))).target = some (points.address (n.natAdd 32))
  exceptions : ∀ n : Fin 32, (system.idt (UInt8.ofNat n)).target = none
  totalTicks : system.totalTicks = lines.totalTicks
  mouseCycle : system.mouseCycle = lines.mouseCycle

variable {points : EntryPoints} {system : InterruptSystem} {lines : Lines} {n : Fin 16}

/-- The lines behind `idt_init`. -/
def Lines.start (totalTicks mouseCycle : Nat) : Lines where
  masked := fun n => !decide (n.val < 3 ∨ n.val = 12)
  unended := []
  totalTicks := totalTicks
  mouseCycle := mouseCycle

theorem ServesLines.initial (points : EntryPoints) (system : InterruptSystem) :
    ServesLines points (idtInit points system) (.start system.totalTicks system.mouseCycle) where
  wired := .initial system.pics
  hardware := idtInit_hardware points system
  exceptions := idtInit_exception points system
  totalTicks := rfl
  mouseCycle := rfl

/-- What the common routine makes of the number of a line. -/
theorem exceptionProcessor_line (system : InterruptSystem) (n : Fin 16) :
    exceptionProcessor system (UInt8.ofNat (32 + n)) = servedCall n := by
  have high : ¬(UInt8.ofNat (32 + n)).toNat < exceptionVectorsCount := by
    revert n
    decide
  unfold exceptionProcessor
  rw [dif_neg high]
  revert n
  decide

theorem servedCall_other (apart : n ≠ 0 ∧ n ≠ 1 ∧ n ≠ 12) : servedCall n = .nothing := by
  revert apart
  revert n
  decide

theorem ends_other (apart : n ≠ 0 ∧ n ≠ 1 ∧ n ≠ 12) (lines : Lines) (status b : UInt8) :
    lines.ends n status b = false := by
  unfold Lines.ends
  split
  next same => exact absurd (Fin.ext same) apart.1
  next same => exact absurd (Fin.ext same) apart.2.1
  next same => exact absurd (Fin.ext same) apart.2.2
  next => rfl

/-- The handler of a line that has just gone into service. -/
theorem ServesLines.called {after : Pics} (serves : ServesLines points system lines) (through : lines.Through n)
    (wired : Wired after lines.masked (n :: lines.unended)) (status b : UInt8) :
    ServesLines points (runCall { system with pics := after } status b (servedCall n)) (lines.serve n status b) := by
  obtain ⟨_, _, less⟩ := through
  have stays (ends : lines.ends n status b = false) : ServesLines points { system with pics := after }
    (lines.serve n status b) := by
    unfold Lines.serve
    rw [if_neg (by rw [ends]; exact Bool.false_ne_true)]
    exact ⟨wired, serves.hardware, serves.exceptions, serves.totalTicks, serves.mouseCycle⟩
  by_cases timer : n = 0
  · subst timer
    show ServesLines points (if system.totalTicks = 0 then _ else _) _
    split
    next stopped => exact stays (by rw [Lines.ends, ← serves.totalTicks, stopped]; rfl)
    next runs =>
      have ends : lines.ends 0 status b = true := by
        rw [Lines.ends, ← serves.totalTicks]
        exact decide_eq_true runs
      unfold Lines.serve
      rw [if_pos ends]
      exact ⟨wired.ends_primary less rfl, serves.hardware, serves.exceptions,
        congrArg (fun ticks => u64 (ticks + 1)) serves.totalTicks, serves.mouseCycle⟩
  by_cases keyboard : n = 1
  · subst keyboard
    exact ⟨wired.ends_primary less rfl, serves.hardware, serves.exceptions, serves.totalTicks, serves.mouseCycle⟩
  by_cases mouse : n = 12
  · subst mouse
    show ServesLines points (if status &&& 0x20 = 0 then _ else if system.mouseCycle = 0 ∧ b &&& 0x08 = 0 then _ else _) _
    split
    next other => exact stays (by simp [Lines.ends, other])
    next own =>
      split
      next dropped =>
        rw [serves.mouseCycle] at dropped
        exact stays (by simp [Lines.ends, dropped])
      next kept =>
        rw [serves.mouseCycle] at kept
        have ends : lines.ends 12 status b = true := by simp [Lines.ends, own, kept]
        unfold Lines.serve
        rw [if_pos ends]
        exact ⟨wired.ends_secondary less rfl (by decide), serves.hardware, serves.exceptions, serves.totalTicks,
          congrArg (fun cycle => (cycle + 1) % 3) serves.mouseCycle⟩
  · rw [servedCall_other ⟨timer, keyboard, mouse⟩]
    exact stays (ends_other ⟨timer, keyboard, mouse⟩ lines status b)

/-- Whatever happens, the system goes on as its lines do. -/
theorem ServesLines.event (serves : ServesLines points system lines) (event : InterruptEvent) :
    (interruptEvent points system event).1 = (lines.event event).1 ∧
      ServesLines points (interruptEvent points system event).2 (lines.event event).2 := by
  cases event with
  | request n status b =>
    unfold interruptEvent Lines.event request
    dsimp only
    by_cases through : lines.Through n.val
    · obtain ⟨after, delivered, wired⟩ := serves.wired.deliver_passes through
      have pushed : (system.idt (UInt8.ofNat (32 + n.val))).target.bind points.pushes =
          some (UInt8.ofNat (32 + n.val)) := by
        rw [serves.hardware]
        exact pushes_address points _
      rw [if_pos through, delivered]
      unfold takeVector
      dsimp only
      rw [pushed]
      dsimp only
      rw [exceptionProcessor_line]
      exact ⟨rfl, serves.called through wired status b⟩
    · rw [if_neg through, serves.wired.deliver_blocked through]
      exact ⟨rfl, serves⟩
  | irqSetMask num enable =>
    exact ⟨rfl, serves.wired.setMask num enable, serves.hardware, serves.exceptions, serves.totalTicks, serves.mouseCycle⟩
  | irqRegisterHandler num routine =>
    exact ⟨rfl, serves.wired.setMask num false, serves.hardware, serves.exceptions, serves.totalTicks, serves.mouseCycle⟩
  | irqUnregisterHandler num =>
    exact ⟨rfl, serves.wired.setMask num true, serves.hardware, serves.exceptions, serves.totalTicks, serves.mouseCycle⟩
  | timerSystemInitialize => exact ⟨rfl, serves.wired, serves.hardware, serves.exceptions, rfl, serves.mouseCycle⟩

/-- What each event calls, and the system behind them all. -/
def runInterrupts (points : EntryPoints) (system : InterruptSystem) :
    List InterruptEvent → List (Option InterruptCall) × InterruptSystem
  | [] => ([], system)
  | event :: events =>
    let (call, system) := interruptEvent points system event
    let (calls, system) := runInterrupts points system events
    (call :: calls, system)

def Lines.run (lines : Lines) : List InterruptEvent → List (Option InterruptCall) × Lines
  | [] => ([], lines)
  | event :: events =>
    let (call, lines) := lines.event event
    let (calls, lines) := lines.run events
    (call :: calls, lines)

theorem ServesLines.run (serves : ServesLines points system lines) (events : List InterruptEvent) :
    (runInterrupts points system events).1 = (lines.run events).1 ∧
      ServesLines points (runInterrupts points system events).2 (lines.run events).2 := by
  induction events generalizing system lines with
  | nil => exact ⟨rfl, serves⟩
  | cons event events ih =>
    obtain ⟨same, next⟩ := serves.event event
    obtain ⟨rest, last⟩ := ih next
    exact ⟨congrArg₂ List.cons same rest, last⟩

theorem Lines.run_append (lines : Lines) (events more : List InterruptEvent) :
    (lines.run (events ++ more)).2 = ((lines.run events).2.run more).2 := by
  induction events generalizing lines with
  | nil => rfl
  | cons event events ih => exact ih _

/-- Nobody ends an interrupt later on. -/
theorem Lines.event_unended (lines : Lines) (event : InterruptEvent) {m : Fin 16} (member : m ∈ lines.unended) :
    m ∈ (lines.event event).2.unended := by
  unfold Lines.event
  split
  next =>
    split
    · unfold Lines.serve
      split
      · exact member
      · exact List.mem_cons_of_mem _ member
    · exact member
  all_goals exact member

theorem Lines.run_unended (lines : Lines) (events : List InterruptEvent) {m : Fin 16} (member : m ∈ lines.unended) :
    m ∈ (lines.run events).2.unended := by
  induction events generalizing lines with
  | nil => exact member
  | cons event events ih => exact ih _ (lines.event_unended event member)

theorem ServesLines.deliver_iff (serves : ServesLines points system lines) (n : Fin 16) :
    (system.pics.deliver n).isSome = true ↔ lines.Through n := by
  by_cases through : lines.Through n
  · obtain ⟨after, delivered, _⟩ := serves.wired.deliver_passes through
    exact iff_of_true (by rw [delivered]; rfl) through
  · exact iff_of_false (by rw [serves.wired.deliver_blocked through]; exact Bool.false_ne_true) through

/-- In every run from `idt_init` on: what is called is what the lines say, and a request gets
through exactly when its line is open and more urgent than all that were left without an end;
those stay silent whatever follows. No exception ever gets to its entry. -/
theorem interrupts_served (points : EntryPoints) (system : InterruptSystem) (events : List InterruptEvent) :
    (runInterrupts points (idtInit points system) events).1 =
        ((Lines.start system.totalTicks system.mouseCycle).run events).1 ∧
      (∀ n : DeviceLine, ((runInterrupts points (idtInit points system) events).2.pics.deliver n.val).isSome = true ↔
        ((Lines.start system.totalTicks system.mouseCycle).run events).2.Through n.val) ∧
      (∀ m ∈ ((Lines.start system.totalTicks system.mouseCycle).run events).2.unended, ∀ n : DeviceLine,
        urgency m ≤ urgency n.val → ∀ more,
          ((runInterrupts points (idtInit points system) (events ++ more)).2.pics.deliver n.val).isSome = false) ∧
      ∀ (vector : Fin 32) (status b : UInt8),
        (takeVector points (runInterrupts points (idtInit points system) events).2
          (UInt8.ofNat vector) status b).1 = none := by
  have initial := ServesLines.initial points system
  obtain ⟨calls, serves⟩ := initial.run events
  refine ⟨calls, fun n => serves.deliver_iff n.val, fun m member n below more => ?_, fun vector status b => ?_⟩
  · have later := (initial.run (events ++ more)).2
    rw [← Bool.not_eq_true, later.deliver_iff]
    intro through
    have still := Lines.run_unended _ more member
    rw [← Lines.run_append] at still
    exact absurd below (not_le.mpr (through.2.2 m still))
  · unfold takeVector
    rw [serves.exceptions]
    rfl

end Runs

end Kernix.Proofs
