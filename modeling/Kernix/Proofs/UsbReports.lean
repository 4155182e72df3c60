import Kernix.Drivers.Keyboard
import Mathlib.Data.Fin.VecNotation
import Mathlib.Data.List.FinRange

/-! Keys that are held from one report to the next. The driver keeps the keys of a report
by their slots, so a held key is new to it when the release of another one moves it. -/

namespace Kernix.Proofs

variable {keys previous : Fin 6 → UInt8} {shift : Bool} {keyboard : UsbKeyboard} {report : UsbKbReport}

/-- The callback is called for the keys that the report before does not have. -/
def dueCalls (previous keys : Fin 6 → UInt8) (shift : Bool) : List Int :=
  (List.finRange 6).filterMap fun i => if ∀ j, previous j ≠ keys i then keyAscii shift (keys i) else none

/-- Each key that was pressed before, and has a character, is in the slot that it was in. -/
def StandStill (previous keys : Fin 6 → UInt8) : Prop :=
  ∀ i j, keys i = previous j → keyAscii false (keys i) ≠ none → previous i = keys i

/-- All calls behind a sequence of reports are due. -/
def ReportsRight : UsbKeyboard → (Fin 6 → UInt8) → List UsbKbReport → Prop
  | _, _, [] => True
  | keyboard, previous, report :: reports =>
    (usbKeyboardHandleReport keyboard report).2 = dueCalls previous report.keys (report.modifiers &&& 0x22 ≠ 0) ∧
      ReportsRight (usbKeyboardHandleReport keyboard report).1 report.keys reports

/-- No held key moves in a sequence of reports. -/
def KeysStand : (Fin 6 → UInt8) → List UsbKbReport → Prop
  | _, [] => True
  | previous, report :: reports => StandStill previous report.keys ∧ KeysStand report.keys reports

/-- No report has a key twice. -/
def KeysOnce (report : UsbKbReport) : Prop := ∀ i j, report.keys i = report.keys j → report.keys i ≠ 0 → i = j

section Filters
variable {α β : Type} {f : α → Option β} {first second : α → Prop} [DecidablePred first] [DecidablePred second]

theorem filterMap_sublist (fewer : ∀ item, first item → second item) (items : List α) :
    (items.filterMap fun item => if first item then f item else none).Sublist
      (items.filterMap fun item => if second item then f item else none) := by
  induction items with
  | nil => exact .slnil
  | cons item items ih =>
    rw [List.filterMap_cons, List.filterMap_cons]
    by_cases kept : first item
    · rw [if_pos kept, if_pos (fewer item kept)]
      cases f item with
      | none => exact ih
      | some value => exact ih.cons_cons value
    · rw [if_neg kept]
      by_cases more : second item
      · rw [if_pos more]
        cases f item with
        | none => exact ih
        | some value => exact ih.cons value
      · rw [if_neg more]
        exact ih

/-- Of two filters the narrower one gives the same where it drops nothing that has a value. -/
theorem filterMap_same_iff (fewer : ∀ item, first item → second item) (items : List α) :
    (items.filterMap fun item => if second item then f item else none) =
        (items.filterMap fun item => if first item then f item else none) ↔
      ∀ item ∈ items, second item → f item ≠ none → first item := by
  induction items with
  | nil => simp
  | cons item items ih =>
    rw [List.filterMap_cons, List.filterMap_cons, List.forall_mem_cons, ← ih]
    by_cases kept : first item
    · rw [if_pos kept, if_pos (fewer item kept)]
      cases f item <;> simp [kept]
    · rw [if_neg kept]
      by_cases more : second item
      · rw [if_pos more]
        cases value : f item with
        | none => simp
        | some value =>
          refine iff_of_false ?_ fun both => kept (both.1 more nofun)
          intro same
          have shorter := (@filterMap_sublist _ _ f _ _ _ _ fewer items).length_le
          have lengths := congrArg List.length same
          simp only [List.length_cons] at lengths
          omega
      · simp [more]

end Filters

/-- Both loops together leave the keys of the report, and the first one calls for every
slot whose key has changed. -/
theorem handleKeys_changed {slots : List (Fin 6)} (once : slots.Nodup) :
    handleKeys keys shift slots previous =
      (fun i => if i ∈ slots then keys i else previous i,
        slots.filterMap fun i => if keys i ≠ previous i then keyAscii shift (keys i) else none) := by
  induction slots generalizing previous with
  | nil => simp [handleKeys]
  | cons slot slots ih =>
    obtain ⟨fresh, once⟩ := List.nodup_cons.mp once
    have filled (key : UInt8) (same : key = keys slot) :
        (fun i => if i ∈ slots then keys i else Function.update previous slot key i) =
          fun i => if i ∈ slot :: slots then keys i else previous i := by
      funext i
      by_cases here : i = slot
      · subst here
        simp [fresh, same]
      · simp [here]
    have calls (key : UInt8) :
        (slots.filterMap fun i => if keys i ≠ Function.update previous slot key i then keyAscii shift
          (keys i) else none) =
          slots.filterMap fun i => if keys i ≠ previous i then keyAscii shift (keys i) else none := by
      apply List.filterMap_congr
      intro i member
      rw [Function.update_of_ne (by rintro rfl; exact fresh member)]
    rw [handleKeys, List.filterMap_cons]
    dsimp only
    by_cases same : keys slot = previous slot
    · rw [if_pos same, ih once, if_neg (not_not.mpr same), ← filled _ rfl, same, Function.update_eq_self]
    · rw [if_neg same, if_pos same]
      by_cases none : keys slot = 0
      · rw [if_pos none, ih once, calls, filled 0 none.symm, none]
        rfl
      · rw [if_neg none, ih once, calls, filled _ rfl]
        cases keyAscii shift (keys slot) <;> rfl

theorem releaseKeys_kept (slots : List (Fin 6)) : releaseKeys keys slots keys = keys := by
  induction slots with
  | nil => rfl
  | cons slot slots ih =>
    rw [releaseKeys]
    by_cases none : keys slot = 0
    · have same : Function.update keys slot 0 = keys := by rw [← none, Function.update_eq_self]
      rw [same, ite_self]
      exact ih
    · have pressed : ((List.finRange 6).any fun j => keys j = keys slot && keys j ≠ 0) = true := by
        rw [List.any_eq_true]
        exact ⟨slot, List.mem_finRange slot, by simpa using none⟩
      rw [if_pos pressed]
      exact ih

/-- With a callback the driver calls it for the slots that have changed. -/
theorem usbKeyboardHandleReport_changed (given : keyboard.usbKbCallback = true) :
    usbKeyboardHandleReport keyboard report =
      (⟨true, report.keys, report.modifiers⟩, (List.finRange 6).filterMap fun i =>
        if report.keys i ≠ keyboard.prevKeys i then keyAscii (report.modifiers &&& 0x22 ≠ 0)
          (report.keys i) else none) := by
  have filled : (fun i => if i ∈ List.finRange 6 then report.keys i else keyboard.prevKeys i) = report.keys :=
    funext fun i => if_pos (List.mem_finRange i)
  unfold usbKeyboardHandleReport
  rw [given]
  dsimp only
  rw [handleKeys_changed (List.nodup_finRange 6), filled, releaseKeys_kept]
  rfl

/-- Shift does not change which keys have a character. -/
theorem keyAscii_none_iff (key : UInt8) : keyAscii shift key = none ↔ keyAscii false key = none := by
  unfold keyAscii
  dsimp only
  split
  · simp
  · rfl

theorem report_right_iff (given : keyboard.usbKbCallback = true) :
    (usbKeyboardHandleReport keyboard report).2 =
        dueCalls keyboard.prevKeys report.keys (report.modifiers &&& 0x22 ≠ 0) ↔
      StandStill keyboard.prevKeys report.keys := by
  rw [usbKeyboardHandleReport_changed given, dueCalls]
  refine (filterMap_same_iff (fun i absent same => absent i same.symm) _).trans ?_
  constructor
  · intro right i j held mapped
    by_contra moved
    have absent := right i (List.mem_finRange i) (fun same => moved same.symm) (mt (keyAscii_none_iff _).mp mapped)
    exact absent j held.symm
  · intro still i _ changed mapped j held
    exact changed (still i j held.symm (mt (keyAscii_none_iff _).mpr mapped)).symm

/-- The calls are the ones that are due for as long as no held key changes its slot. -/
theorem usb_reports_right_iff (given : keyboard.usbKbCallback = true) (reports : List UsbKbReport) :
    ReportsRight keyboard keyboard.prevKeys reports ↔ KeysStand keyboard.prevKeys reports := by
  induction reports generalizing keyboard with
  | nil => rfl
  | cons report reports ih =>
    rw [ReportsRight, KeysStand, report_right_iff given, usbKeyboardHandleReport_changed given]
    exact and_congr_right fun _ => @ih ⟨true, report.keys, report.modifiers⟩ rfl

/-- The driver behind `usb_keyboard_set_callback`, before the first report. -/
def listening : UsbKeyboard := usbKeyboardSetCallback usbKeyboardStart true

/-- `a` and `b` are pressed, then `a` is released, and `b` moves to the first slot. -/
private def releasedReports : List UsbKbReport := [⟨0, ![0x04, 0x05, 0, 0, 0, 0]⟩, ⟨0, ![0x05, 0, 0, 0, 0, 0]⟩]

theorem usb_reports_right_iff_released :
    ReportsRight listening listening.prevKeys releasedReports ↔ KeysStand listening.prevKeys releasedReports :=
  usb_reports_right_iff rfl releasedReports

/-- A key that is held is handed on again. -/
theorem usb_reports_wrong : ¬∀ reports : List UsbKbReport, (∀ report ∈ reports, KeysOnce report) →
    ReportsRight listening listening.prevKeys reports := by
  intro right
  have once : ∀ report ∈ releasedReports, KeysOnce report := by
    intro report member
    simp only [releasedReports, List.mem_cons, List.not_mem_nil, or_false] at member
    rcases member with rfl | rfl
    · unfold KeysOnce
      decide
    · unfold KeysOnce
      decide
  obtain ⟨-, second, -⟩ := right releasedReports once
  exact absurd second (by decide +kernel)

end Kernix.Proofs
