import Mathlib.Tactic.Linarith
import Kernix.Drivers.Mouse
import Kernix.Lib.Runs

/-! The pointers stay on the screen. A position outside takes its accumulator along, so the
accumulator never is a pixel further out than the position. -/

namespace Kernix.Proofs

/-- A position in front of the last pixels that the cursor needs, and its accumulator: it
may be up to 99 hundredths on the other side of the edge. -/
structure AxisInside (size : Nat) (axis : Axis) : Prop where
  divided : axis.position = axis.accum.tdiv 100
  low : -99 ≤ axis.accum
  high : axis.accum ≤ (size - 17) * 100 + 99

/-- What a mouse is to keep, for a cursor of 16 pixels. -/
structure PointerInside (fbWidth fbHeight : Nat) (x y : Axis) : Prop where
  column : 0 ≤ x.position ∧ x.position ≤ fbWidth - 17
  row : 0 ≤ y.position ∧ y.position ≤ fbHeight - 17
  accumX : x.position = x.accum.tdiv 100
  accumY : y.position = y.accum.tdiv 100

/-- A side of a framebuffer. -/
def Side (size : Nat) : Prop := 34 ≤ size ∧ size ≤ 10000

section Axes
variable {size : Nat} {axis : Axis}

theorem tdiv_cases (value divisor : Int) :
    0 ≤ value ∧ value.tdiv divisor = value / divisor ∨ value < 0 ∧ value.tdiv divisor = -(-value / divisor) := by
  rcases Int.lt_or_le value 0 with negative | natural
  · right
    refine ⟨negative, ?_⟩
    rw [← Int.tdiv_eq_ediv_of_nonneg (by omega : 0 ≤ -value), Int.neg_tdiv, Int.neg_neg]
  · exact .inl ⟨natural, Int.tdiv_eq_ediv_of_nonneg natural⟩

theorem AxisInside.position (inside : AxisInside size axis) (side : Side size) :
    0 ≤ axis.position ∧ axis.position ≤ size - 17 := by
  obtain ⟨divided, low, high⟩ := inside
  obtain ⟨least, most⟩ := side
  rw [divided]
  rcases tdiv_cases axis.accum 100 with ⟨natural, value⟩ | ⟨negative, value⟩ <;>
    rw [value] <;> constructor <;> omega

theorem AxisInside.pointer {fbWidth fbHeight : Nat} {x y : Axis} (columns : AxisInside fbWidth x)
    (rows : AxisInside fbHeight y) (wide : Side fbWidth) (high : Side fbHeight) :
    PointerInside fbWidth fbHeight x y :=
  ⟨columns.position wide, rows.position high, columns.divided, rows.divided⟩

theorem placeAxis_inside {position : Int} (low : 0 ≤ position) (high : position ≤ size - 17) (side : Side size) :
    ∃ axis, placeAxis position = .ok axis ∧ AxisInside size axis := by
  obtain ⟨least, most⟩ := side
  refine ⟨⟨position, position * 100⟩, ?_, ?_, by dsimp only; omega, by dsimp only; omega⟩
  · unfold placeAxis
    rw [intValue_returns (by omega) (by omega)]
    rfl
  · exact (Int.mul_tdiv_cancel position (by decide)).symm

/-- The middle of a side of the screen. -/
theorem middle_inside (side : Side size) : ∃ axis, placeAxis (i32 (size / 2)) = .ok axis ∧ AxisInside size axis := by
  have half := side
  obtain ⟨least, most⟩ := half
  have middle : i32 (size / 2) = (size / 2 : Nat) := i32_eq (by omega)
  rw [middle]
  exact placeAxis_inside (by omega) (by omega) side

/-- Whatever the accumulator has become, the tests bring it back. -/
theorem clampAxis_inside (side : Side size) (accum : Int) :
    ∃ axis, clampAxis size 16 accum = .ok axis ∧ AxisInside size axis := by
  have bounds := side
  obtain ⟨least, most⟩ := bounds
  have limit : i32 (u32 (size + (2 ^ 32 - 16))) = (size : Int) - 16 := by
    unfold i32 u32
    omega
  have last : i32 (u32 (u32 (size + (2 ^ 32 - 16)) + (2 ^ 32 - 1))) = (size : Int) - 17 := by
    unfold i32 u32
    omega
  unfold clampAxis
  rw [limit, last]
  dsimp only
  have division := tdiv_cases accum 100
  by_cases outside : accum.tdiv 100 < 0
  · simp only [if_pos outside]
    rw [if_neg (by omega)]
    exact ⟨_, rfl, rfl, by decide, by dsimp only; omega⟩
  · simp only [if_neg outside]
    split
    · exact placeAxis_inside (by omega) (by omega) side
    · exact ⟨_, rfl, rfl, by dsimp only; omega, by dsimp only; omega⟩

end Axes

section Ps2
variable {fbWidth fbHeight : Nat} {mouse : Mouse}

/-- What a running mouse keeps. -/
structure MouseKept (fbWidth fbHeight : Nat) (mouse : Mouse) : Prop where
  columns : AxisInside fbWidth mouse.x
  rows : AxisInside fbHeight mouse.y
  cycle : mouse.mouseCycle ≤ 2
  image : mouse.mouseCursorImage = some (16, 16)
  sensitivity : 10 ≤ mouse.mouseSensitivityFactor ∧ mouse.mouseSensitivityFactor ≤ 500

theorem i8_range (byte : UInt8) : -128 ≤ i8 byte ∧ i8 byte ≤ 127 := by
  have small := byte.toNat_lt
  unfold i8
  split <;> omega

/-- No movement is longer than 896 pixels. -/
theorem scaledDelta_range {factor rel : Int} (sensitivity : 10 ≤ factor ∧ factor ≤ 500)
    (range : -128 ≤ rel ∧ rel ≤ 127) (quick : Bool) :
    ∃ delta, scaledDelta factor rel quick = .ok delta ∧ -89600 ≤ delta ∧ delta ≤ 89600 := by
  have low : -64000 ≤ rel * factor := by nlinarith
  have high : rel * factor ≤ 64000 := by nlinarith
  unfold scaledDelta
  rw [intValue_returns (by omega) (by omega)]
  simp only [bind, Except.bind]
  cases quick with
  | false => exact ⟨_, rfl, by omega, by omega⟩
  | true =>
    rw [if_pos rfl, intValue_returns (by omega) (by omega)]
    refine ⟨_, rfl, ?_⟩
    rcases tdiv_cases (rel * factor * 14) 10 with ⟨_, value⟩ | ⟨_, value⟩ <;>
      rw [value] <;> constructor <;> omega

/-- A whole packet moves the pointer, and leaves it on the screen. -/
theorem movePointer_kept (wide : Side fbWidth) (high : Side fbHeight) (kept : MouseKept fbWidth fbHeight mouse) :
    ∃ after, movePointer fbWidth fbHeight mouse = .ok after ∧ MouseKept fbWidth fbHeight after := by
  obtain ⟨columns, rows, cycle, image, sensitivity⟩ := kept
  obtain ⟨deltaX, scalesX, lowX, highX⟩ := scaledDelta_range sensitivity (i8_range (mouse.mousePacket 1))
    (decide ((5 < i8 (mouse.mousePacket 1) ∨ i8 (mouse.mousePacket 1) < -5) ∨
      (5 < i8 (mouse.mousePacket 2) ∨ i8 (mouse.mousePacket 2) < -5)))
  obtain ⟨deltaY, scalesY, lowY, highY⟩ := scaledDelta_range sensitivity (i8_range (mouse.mousePacket 2))
    (decide ((5 < i8 (mouse.mousePacket 1) ∨ i8 (mouse.mousePacket 1) < -5) ∨
      (5 < i8 (mouse.mousePacket 2) ∨ i8 (mouse.mousePacket 2) < -5)))
  obtain ⟨least, most⟩ := wide
  obtain ⟨least', most'⟩ := high
  obtain ⟨x, clampsX, insideX⟩ := clampAxis_inside ⟨least, most⟩ (mouse.x.accum + deltaX)
  obtain ⟨y, clampsY, insideY⟩ := clampAxis_inside ⟨least', most'⟩ (mouse.y.accum - deltaY)
  have lowA := columns.low
  have highA := columns.high
  have lowB := rows.low
  have highB := rows.high
  unfold movePointer
  simp only [bind, Except.bind, scalesX, scalesY]
  rw [intValue_returns (by omega) (by omega)]
  dsimp only
  rw [intValue_returns (by omega) (by omega)]
  dsimp only
  rw [if_pos ⟨by omega, by omega⟩, image]
  simp only [Option.getD_some, clampsX, clampsY]
  exact ⟨_, rfl, insideX, insideY, cycle, rfl, sensitivity⟩

/-- A byte of a packet goes into its place, and the third one ends the packet. -/
theorem mouseInterruptHandler_kept (wide : Side fbWidth) (high : Side fbHeight)
    (kept : MouseKept fbWidth fbHeight mouse) (status b : UInt8) :
    ∃ after, mouseInterruptHandler fbWidth fbHeight status b mouse = .ok after ∧ MouseKept fbWidth fbHeight after := by
  have cycle := kept.cycle
  unfold mouseInterruptHandler
  split
  · exact ⟨mouse, rfl, kept⟩
  split
  · exact ⟨mouse, rfl, kept⟩
  · have place : setElement mouse.mousePacket mouse.mouseCycle b =
        .ok (Function.update mouse.mousePacket ⟨(mouse.mouseCycle : Int).toNat, by omega⟩ b) := dif_pos (by omega)
    have next : (mouse.mouseCycle + 1) % 2 ^ 8 = mouse.mouseCycle + 1 := Nat.mod_eq_of_lt (by omega)
    simp only [bind, Except.bind, place, next]
    split
    · exact movePointer_kept wide high ⟨kept.columns, kept.rows, Nat.zero_le 2, kept.image, kept.sensitivity⟩
    · next more =>
      exact ⟨_, rfl, kept.columns, kept.rows, show mouse.mouseCycle + 1 ≤ 2 by omega, kept.image, kept.sensitivity⟩

theorem mouseSetSensitivity_kept (kept : MouseKept fbWidth fbHeight mouse) (factor : Int) :
    MouseKept fbWidth fbHeight (mouseSetSensitivity factor mouse) := by
  refine ⟨kept.columns, kept.rows, kept.cycle, kept.image, ?_⟩
  unfold mouseSetSensitivity
  dsimp only
  split <;> split <;> constructor <;> omega

theorem mouseEvent_kept (wide : Side fbWidth) (high : Side fbHeight) (kept : MouseKept fbWidth fbHeight mouse)
    (event : MouseEvent) :
    ∃ after, mouseEvent fbWidth fbHeight mouse event = .ok after ∧ MouseKept fbWidth fbHeight after := by
  cases event with
  | sensitivity factor => exact ⟨_, rfl, mouseSetSensitivity_kept kept factor⟩
  | interrupt status b => exact mouseInterruptHandler_kept wide high kept status b

/-- The mouse starts in the middle of the screen. -/
theorem mouseInit_kept (wide : Side fbWidth) (high : Side fbHeight) :
    ∃ mouse, mouseInit fbWidth fbHeight mouseStart = .ok mouse ∧ MouseKept fbWidth fbHeight mouse := by
  obtain ⟨x, placesX, insideX⟩ := middle_inside wide
  obtain ⟨y, placesY, insideY⟩ := middle_inside high
  obtain ⟨least, most⟩ := wide
  obtain ⟨least', most'⟩ := high
  unfold mouseInit
  rw [if_neg (by decide)]
  simp only [bind, Except.bind, placesX, placesY]
  rw [if_pos ⟨by omega, by omega⟩]
  exact ⟨_, rfl, insideX, insideY, show 0 ≤ 2 by decide, rfl, show (10 : Int) ≤ 120 ∧ (120 : Int) ≤ 500 by decide⟩

end Ps2

section Usb
variable {fbWidth fbHeight : Nat} {mouse : UsbMouse}

structure UsbMouseKept (fbWidth fbHeight : Nat) (mouse : UsbMouse) : Prop where
  columns : AxisInside fbWidth mouse.x
  rows : AxisInside fbHeight mouse.y

theorem i16_range (value : Int) : -2 ^ 15 ≤ i16 value ∧ i16 value < 2 ^ 15 := by
  unfold i16
  omega

theorem usbDelta_range (short low high : UInt8) (reportSize : Int) :
    -2 ^ 15 ≤ usbDelta short low high reportSize ∧ usbDelta short low high reportSize < 2 ^ 15 := by
  have byte := i8_range short
  unfold usbDelta
  generalize ((low.toNat ||| high.toNat <<< 8 : Nat) : Int) = bytes
  have word := i16_range bytes
  have range : -2 ^ 15 ≤ (if 5 ≤ reportSize then i16 bytes else i8 short) ∧
      (if 5 ≤ reportSize then i16 bytes else i8 short) < 2 ^ 15 := by
    split <;> omega
  generalize (if 5 ≤ reportSize then i16 bytes else i8 short) = delta at range
  dsimp only
  split
  · exact i16_range _
  · exact range

theorem usbMouseInterruptHandler_kept (wide : Side fbWidth) (high : Side fbHeight)
    (kept : UsbMouseKept fbWidth fbHeight mouse) (report : Nat → UInt8) (reportSize : Int) :
    ∃ after, usbMouseInterruptHandler fbWidth fbHeight report reportSize mouse = .ok after ∧
      UsbMouseKept fbWidth fbHeight after := by
  have rangeX := usbDelta_range (report 1) (report 1) (report 2) reportSize
  have rangeY := usbDelta_range (report 2) (report 3) (report 4) reportSize
  have lowX := kept.columns.low
  have highX := kept.columns.high
  have lowY := kept.rows.low
  have highY := kept.rows.high
  obtain ⟨least, most⟩ := wide
  obtain ⟨least', most'⟩ := high
  obtain ⟨x, clampsX, insideX⟩ := clampAxis_inside ⟨least, most⟩
    (mouse.x.accum + usbDelta (report 1) (report 1) (report 2) reportSize * 100)
  obtain ⟨y, clampsY, insideY⟩ := clampAxis_inside ⟨least', most'⟩
    (mouse.y.accum + usbDelta (report 2) (report 3) (report 4) reportSize * 100)
  unfold usbMouseInterruptHandler
  split
  · exact ⟨mouse, rfl, kept⟩
  · simp only [bind, Except.bind]
    rw [intValue_returns (by omega) (by omega)]
    dsimp only
    rw [intValue_returns (by omega) (by omega)]
    dsimp only
    rw [intValue_returns (by omega) (by omega)]
    dsimp only
    rw [intValue_returns (by omega) (by omega)]
    dsimp only
    rw [if_neg (by omega), if_neg (by omega), clampsX]
    dsimp only
    rw [clampsY]
    exact ⟨_, rfl, insideX, insideY⟩

theorem usbMouseInit_kept (wide : Side fbWidth) (high : Side fbHeight) :
    ∃ mouse, usbMouseInit fbWidth fbHeight usbMouseStart = .ok mouse ∧ UsbMouseKept fbWidth fbHeight mouse := by
  obtain ⟨x, placesX, insideX⟩ := middle_inside wide
  obtain ⟨y, placesY, insideY⟩ := middle_inside high
  obtain ⟨least, most⟩ := wide
  obtain ⟨least', most'⟩ := high
  unfold usbMouseInit
  rw [if_neg (by decide)]
  simp only [bind, Except.bind, placesX, placesY]
  rw [if_pos ⟨by omega, by omega⟩]
  exact ⟨_, rfl, insideX, insideY⟩

end Usb

/-- A report that has arrived, with its size. -/
abbrev UsbReport := (Nat → UInt8) × Int

/-- Both pointers stay on the screen, whatever the devices send. -/
theorem mouse_pointers_inside {fbWidth fbHeight : Nat} (wide : Side fbWidth) (high : Side fbHeight)
    (events : List MouseEvent) (reports : List UsbReport) :
    (∃ mouse, mouseInit fbWidth fbHeight mouseStart = .ok mouse ∧
      Runs.Always (mouseEvent fbWidth fbHeight)
        (fun mouse => PointerInside fbWidth fbHeight mouse.x mouse.y ∧ mouse.mouseCycle ≤ 2) mouse events) ∧
    ∃ mouse, usbMouseInit fbWidth fbHeight usbMouseStart = .ok mouse ∧
      Runs.Always (fun mouse report => usbMouseInterruptHandler fbWidth fbHeight report.1 report.2 mouse)
        (fun mouse => PointerInside fbWidth fbHeight mouse.x mouse.y) mouse reports := by
  obtain ⟨mouse, starts, kept⟩ := mouseInit_kept wide high
  obtain ⟨usbMouse, begins, holds⟩ := usbMouseInit_kept wide high
  refine ⟨⟨mouse, starts, Runs.always_of_keeps (MouseKept fbWidth fbHeight) ?_ ?_ kept events⟩,
    usbMouse, begins, Runs.always_of_keeps (UsbMouseKept fbWidth fbHeight) ?_ ?_ holds reports⟩
  · exact fun _ kept => ⟨kept.columns.pointer kept.rows wide high, kept.cycle⟩
  · exact fun _ event kept => mouseEvent_kept wide high kept event
  · exact fun _ kept => kept.columns.pointer kept.rows wide high
  · exact fun _ report kept => usbMouseInterruptHandler_kept wide high kept report.1 report.2

/-- A packet to the right and up, behind a byte that begins none; and a report of each size. -/
theorem mouse_pointers_inside_vga :
    (∃ mouse, mouseInit 640 480 mouseStart = .ok mouse ∧
      Runs.Always (mouseEvent 640 480) (fun mouse => PointerInside 640 480 mouse.x mouse.y ∧ mouse.mouseCycle ≤ 2) mouse
        [.sensitivity 700, .interrupt 0x20 0x00, .interrupt 0x20 0x08, .interrupt 0x20 0x7F, .interrupt 0x20 0x80]) ∧
    ∃ mouse, usbMouseInit 640 480 usbMouseStart = .ok mouse ∧
      Runs.Always (fun mouse report => usbMouseInterruptHandler 640 480 report.1 report.2 mouse)
        (fun mouse => PointerInside 640 480 mouse.x mouse.y) mouse [(fun _ => 0x7F, 4), (fun _ => 0x80, 5)] :=
  mouse_pointers_inside ⟨by decide, by decide⟩ ⟨by decide, by decide⟩ _ _

end Kernix.Proofs
