import Kernix.Drivers.Keyboard
import Mathlib.Data.List.Induction
import Mathlib.Tactic.Tauto

/-! The three decoders of the keyboard next to each other. They part at the release of
Caps Lock and at the keys that one of Shift and Caps Lock alone changes. -/

namespace Kernix.Proofs

/-- A controller with data of the keyboard. -/
abbrev keyboardData : UInt8 := 0x01

/-- A character that is delivered, in contrast to an arrow. -/
def typedCharacter : KeyCall → Option Int
  | .consoleHandleKey c => if c < 0x80 then some c else none
  | .guiHandleKey key => some key

/-- What `keyboard_read_direct` returned, unless it was nothing. -/
def readCharacter (key : UInt8) : List Int := if key = 0 then [] else [(key.toNat : Int)]

section
variable (decode : Bool → Modifiers → UInt8 → Modifiers × List KeyCall)

/-- The bytes one after the other. Whether the GUI runs may depend on what has been
delivered. -/
def decodeCodes (guiRunning : List KeyCall → Bool) (mods : Modifiers) (codes : List UInt8) : Modifiers × List KeyCall :=
  codes.foldl (fun state sc =>
    let step := decode (guiRunning state.2) state.1 sc
    (step.1, state.2 ++ step.2)) (mods, [])

theorem decodeCodes_snoc (guiRunning : List KeyCall → Bool) (mods : Modifiers) (codes : List UInt8) (sc : UInt8) :
    decodeCodes decode guiRunning mods (codes ++ [sc]) =
      let state := decodeCodes decode guiRunning mods codes
      let step := decode (guiRunning state.2) state.1 sc
      (step.1, state.2 ++ step.2) := by
  simp [decodeCodes]

/-- The characters alone. -/
def typedCodes (guiRunning : List KeyCall → Bool) (mods : Modifiers) (codes : List UInt8) : Modifiers × List Int :=
  let state := decodeCodes decode guiRunning mods codes
  (state.1, state.2.filterMap typedCharacter)

end

/-- The decoders, for a byte that is there. -/
abbrev pollByte (guiRunning : Bool) (mods : Modifiers) (sc : UInt8) : Modifiers × List KeyCall :=
  keyboardPollPass guiRunning mods keyboardData sc

def readCodes (mods : Modifiers) (codes : List UInt8) : Modifiers × List Int :=
  codes.foldl (fun state sc =>
    let step := keyboardReadDirect state.1 keyboardData sc
    (step.1, state.2 ++ readCharacter step.2)) (mods, [])

theorem readCodes_snoc (mods : Modifiers) (codes : List UInt8) (sc : UInt8) :
    readCodes mods (codes ++ [sc]) =
      let state := readCodes mods codes
      let step := keyboardReadDirect state.1 keyboardData sc
      (step.1, state.2 ++ readCharacter step.2) := by
  simp [readCodes]

/-- Ctrl is not held, and not pressed. -/
def NoCtrl (mods : Modifiers) (codes : List UInt8) : Prop := mods.ctrlPressed = false ∧ 0x1D ∉ codes

/-- A letter under Shift alone is upper case, and a stroke of Caps Lock toggles it once. -/
structure CasesRight (run : List UInt8 → Modifiers × List Int) (codes : List UInt8) : Prop where
  upper : ∀ front sc, codes = front ++ [sc] → isLower (scancodeToAscii sc) = true → (run front).1 = ⟨true, false, false⟩ →
    (run codes).2 = (run front).2 ++ [((scancodeToAscii sc - 32).toNat : Int)]
  locks : ∀ front, codes = front ++ [0x3A, 0xBA] → (run codes).1.capsLock = !(run front).1.capsLock

/-- What the decoders make of a sequence of bytes. -/
structure DecodedAlike (guiRunning : List KeyCall → Bool) (mods : Modifiers) (codes : List UInt8) : Prop where
  polled : decodeCodes pollByte guiRunning mods codes = decodeCodes keyboardInterruptHandler guiRunning mods codes
  read : NoCtrl mods codes → (readCodes mods codes).2 = (typedCodes keyboardInterruptHandler guiRunning mods codes).2
  interrupt : CasesRight (typedCodes keyboardInterruptHandler guiRunning mods) codes
  poll : CasesRight (typedCodes pollByte guiRunning mods) codes
  direct : NoCtrl mods codes → CasesRight (readCodes mods) codes

/-- A byte that the decoders read in one way: not the release of Caps Lock, and under
one of Shift and Caps Lock alone no letter, under Caps Lock no other key of two characters. -/
def ReadOneWay (mods : Modifiers) (sc : UInt8) : Prop :=
  sc ≠ 0xBA ∧ (mods.shiftPressed ≠ mods.capsLock →
    if mods.ctrlPressed then sc ≠ 0x2E
    else isLower (scancodeToAscii sc) = false ∧ (mods.capsLock = true → scancodeToAscii sc = scancodeToAsciiShift sc))

instance (mods : Modifiers) (sc : UInt8) : Decidable (ReadOneWay mods sc) := by
  unfold ReadOneWay
  infer_instance

/-- The bytes and the modifiers are few enough to go through. -/
local instance everyScancode {holds : UInt8 → Prop} [DecidablePred holds] : Decidable (∀ sc, holds sc) :=
  decidable_of_iff (∀ n : Fin 256, holds (UInt8.ofFin n)) ⟨fun all sc => all sc.toFin, fun all _ => all _⟩

local instance everyModifiers {holds : Modifiers → Prop} [DecidablePred holds] : Decidable (∀ mods, holds mods) :=
  decidable_of_iff (∀ shift caps ctrl : Bool, holds ⟨shift, caps, ctrl⟩)
    ⟨fun all mods => all mods.shiftPressed mods.capsLock mods.ctrlPressed, fun all _ _ _ => all _⟩

theorem release_capsLock (sc : UInt8) : sc &&& 0x80 ≠ 0 → (sc &&& 0x7F = 0x3A ↔ sc = 0xBA) := by
  revert sc
  decide +kernel

/-- The two keys lead to the same call where the byte is read in one way. -/
theorem delivered_same_iff (guiRunning : Bool) (mods : Modifiers) (sc : UInt8) : sc ≠ 0xBA →
    (deliverKey guiRunning mods.ctrlPressed sc (pollKey mods sc) =
      deliverKey guiRunning mods.ctrlPressed sc (interruptKey mods sc) ↔ ReadOneWay mods sc) := by
  revert guiRunning mods sc
  decide +kernel

/-- A byte that is no key of a character is read in one way. -/
theorem readOneWay_modifier (mods : Modifiers) (sc : UInt8) :
    (sc = 0 ∨ sc &&& 0x80 ≠ 0 ∨ sc = 0x2A ∨ sc = 0x36 ∨ sc = 0x3A ∨ sc = 0x1D) → (ReadOneWay mods sc ↔ sc ≠ 0xBA) := by
  revert mods sc
  decide +kernel

/-- Without Ctrl `keyboard_read_direct` reads the key that the interrupt delivers. -/
theorem direct_delivered (guiRunning : Bool) (mods : Modifiers) (sc : UInt8) : mods.ctrlPressed = false →
    ReadOneWay mods sc → readCharacter (directKey mods sc) =
      (deliverKey guiRunning mods.ctrlPressed sc (interruptKey mods sc)).filterMap typedCharacter := by
  revert guiRunning mods sc
  decide +kernel

/-- A poll does with a byte what the interrupt does, where the byte is read in one way. -/
theorem pollByte_same_iff (guiRunning : Bool) (mods : Modifiers) (sc : UInt8) :
    pollByte guiRunning mods sc = keyboardInterruptHandler guiRunning mods sc ↔ ReadOneWay mods sc := by
  have modifier := readOneWay_modifier mods sc
  unfold pollByte keyboardPollPass keyboardInterruptHandler
  rw [if_neg (by decide), if_neg (by decide)]
  by_cases none : sc = 0
  · rw [if_pos none, if_pos none, modifier (.inl none)]
    simp [none]
  rw [if_neg none, if_neg none]
  by_cases release : sc &&& 0x80 ≠ 0
  · rw [if_pos release, if_pos release, modifier (.inr (.inl release))]
    have caps := release_capsLock sc release
    by_cases capsLock : sc = 0xBA
    · have made : (0xBA : UInt8) &&& 0x7F = 0x3A := by decide
      subst capsLock
      rw [made]
      simp [Modifiers.ext_iff]
    · dsimp only
      rw [if_neg fun made => capsLock (caps.mp made)]
      simp [capsLock]
  rw [if_neg release, if_neg release]
  by_cases shift : sc = 0x2A ∨ sc = 0x36
  · rw [if_pos shift, if_pos shift, modifier (by tauto)]
    rcases shift with rfl | rfl <;> simp
  rw [if_neg shift, if_neg shift]
  by_cases capsLock : sc = 0x3A
  · rw [if_pos capsLock, if_pos capsLock, modifier (by tauto)]
    simp [capsLock]
  rw [if_neg capsLock, if_neg capsLock]
  by_cases ctrl : sc = 0x1D
  · rw [if_pos ctrl, if_pos ctrl, modifier (by tauto)]
    simp [ctrl]
  rw [if_neg ctrl, if_neg ctrl]
  have late (code : UInt8) (high : code &&& 0x80 ≠ 0) : sc ≠ code := by
    rintro rfl
    exact release high
  rw [if_neg (late 0x9D (by decide)), if_neg (late 0x9D (by decide)), Prod.mk.injEq]
  simp only [true_and]
  exact delivered_same_iff guiRunning mods sc (late 0xBA (by decide))

/-- Without Ctrl, `keyboard_read_direct` follows the interrupt. -/
theorem readDirect_follows (guiRunning : Bool) {mods : Modifiers} {sc : UInt8} (free : mods.ctrlPressed = false)
    (other : sc ≠ 0x1D) (plain : ReadOneWay mods sc) :
    (keyboardReadDirect mods keyboardData sc).1 = (keyboardInterruptHandler guiRunning mods sc).1 ∧
    readCharacter (keyboardReadDirect mods keyboardData sc).2 =
      (keyboardInterruptHandler guiRunning mods sc).2.filterMap typedCharacter ∧
    (keyboardInterruptHandler guiRunning mods sc).1.ctrlPressed = false := by
  have delivered := direct_delivered guiRunning mods sc free plain
  have caps := release_capsLock sc
  obtain ⟨shift, capsLock, ctrl⟩ := mods
  cases free
  unfold keyboardReadDirect keyboardInterruptHandler
  rw [if_neg (by decide)]
  by_cases none : sc = 0
  · rw [if_pos none, if_pos none]
    exact ⟨rfl, rfl, rfl⟩
  rw [if_neg none, if_neg none]
  by_cases release : sc &&& 0x80 ≠ 0
  · rw [if_pos release, if_pos release]
    dsimp only
    rw [if_neg fun made => plain.1 ((caps release).mp made)]
    refine ⟨?_, rfl, ?_⟩ <;> split <;> split <;> rfl
  rw [if_neg release, if_neg release]
  by_cases shifts : sc = 0x2A ∨ sc = 0x36
  · rw [if_pos shifts, if_pos shifts]
    exact ⟨rfl, rfl, rfl⟩
  rw [if_neg shifts, if_neg shifts]
  by_cases locks : sc = 0x3A
  · rw [if_pos locks, if_pos locks]
    exact ⟨rfl, rfl, rfl⟩
  have late : sc ≠ 0x9D := by
    rintro rfl
    exact release (by decide)
  rw [if_neg locks, if_neg locks, if_neg other, if_neg late]
  exact ⟨rfl, delivered, rfl⟩

variable {guiRunning : List KeyCall → Bool} {mods : Modifiers} {codes : List UInt8}

/-- Each byte is read in one way, in the state in which the interrupt finds it. -/
def PlainCodes (guiRunning : List KeyCall → Bool) (mods : Modifiers) (codes : List UInt8) : Prop :=
  ∀ front sc, front ++ [sc] <+: codes → ReadOneWay (decodeCodes keyboardInterruptHandler guiRunning mods front).1 sc

theorem PlainCodes.front {front : List UInt8} (plain : PlainCodes guiRunning mods codes) (inside : front <+: codes) :
    PlainCodes guiRunning mods front :=
  fun earlier sc within => plain earlier sc (within.trans inside)

theorem PlainCodes.polled (plain : PlainCodes guiRunning mods codes) :
    decodeCodes pollByte guiRunning mods codes = decodeCodes keyboardInterruptHandler guiRunning mods codes := by
  induction codes using List.reverseRecOn with
  | nil => rfl
  | append_singleton front sc ih =>
    have last := plain front sc (List.prefix_refl _)
    rw [decodeCodes_snoc, decodeCodes_snoc, ih (plain.front (List.prefix_append _ _))]
    dsimp only
    rw [(pollByte_same_iff _ _ sc).mpr last]

/-- The decoder that reads directly is in the state of the interrupt. -/
theorem PlainCodes.read (plain : PlainCodes guiRunning mods codes) (free : NoCtrl mods codes) :
    readCodes mods codes = typedCodes keyboardInterruptHandler guiRunning mods codes ∧
      (decodeCodes keyboardInterruptHandler guiRunning mods codes).1.ctrlPressed = false := by
  induction codes using List.reverseRecOn with
  | nil => exact ⟨rfl, free.1⟩
  | append_singleton front sc ih =>
    have other : sc ≠ 0x1D := fun same => free.2 (by simp [same])
    have earlier : NoCtrl mods front := ⟨free.1, fun member => free.2 (List.mem_append_left _ member)⟩
    obtain ⟨same, released⟩ := ih (plain.front (List.prefix_append _ _)) earlier
    have last := plain front sc (List.prefix_refl _)
    obtain ⟨state, delivered, still⟩ :=
      readDirect_follows (guiRunning (decodeCodes keyboardInterruptHandler guiRunning mods front).2) released other last
    unfold typedCodes at same ⊢
    dsimp only at same ⊢
    rw [readCodes_snoc, decodeCodes_snoc, same]
    dsimp only
    rw [state, delivered, List.filterMap_append]
    exact ⟨rfl, still⟩

/-- No letter comes under Shift alone, and no stroke of Caps Lock is finished. -/
theorem PlainCodes.casesRight (plain : PlainCodes guiRunning mods codes) {run : List UInt8 → Modifiers × List Int}
    (state : ∀ front, front <+: codes → (run front).1 = (decodeCodes keyboardInterruptHandler guiRunning mods front).1) :
    CasesRight run codes := by
  constructor
  · rintro front sc rfl lower held
    have last := plain front sc (List.prefix_refl _)
    rw [← state front (List.prefix_append _ _), held] at last
    have upper := (last.2 (by decide)).1
    rw [lower] at upper
    cases upper
  · rintro front rfl
    have last := plain (front ++ [0x3A]) 0xBA (by simp)
    exact absurd rfl last.1

theorem PlainCodes.alike (plain : PlainCodes guiRunning mods codes) : DecodedAlike guiRunning mods codes where
  polled := plain.polled
  read free := by rw [(plain.read free).1]
  interrupt := plain.casesRight fun _ _ => rfl
  poll := plain.casesRight fun front inside => congrArg Prod.fst (plain.front inside).polled
  direct free := plain.casesRight fun front inside => by
    have earlier : NoCtrl mods front := ⟨free.1, fun member => free.2 (inside.subset member)⟩
    rw [((plain.front inside).read earlier).1]
    rfl

/-- The decoders agree on a sequence and on all that leads up to it when each byte of it
is read in one way. -/
theorem decoders_alike_iff (guiRunning : List KeyCall → Bool) (mods : Modifiers) (codes : List UInt8) :
    (∀ front, front <+: codes → DecodedAlike guiRunning mods front) ↔ PlainCodes guiRunning mods codes := by
  constructor
  · intro alike front sc inside
    have before := (alike front ((List.prefix_append _ _).trans inside)).polled
    have after := (alike _ inside).polled
    rw [decodeCodes_snoc, decodeCodes_snoc, before] at after
    dsimp only at after
    obtain ⟨state, calls⟩ := Prod.mk.inj after
    exact (pollByte_same_iff _ _ sc).mp (Prod.ext state (List.append_cancel_left calls))
  · intro plain front inside
    exact (plain.front inside).alike

/-- Shift is pressed, and the letter `a`. -/
theorem shifted_letter_parts : ¬DecodedAlike (fun _ => false) ⟨false, false, false⟩ [0x2A, 0x1E] := by
  intro alike
  exact absurd alike.polled (by decide)

end Kernix.Proofs
