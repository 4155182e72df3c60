import Kernix.Lib.ByteMemory

/-! Pictures in memory: words of four bytes, row after row. Nested loops that store each
word once leave exactly their picture, and two pictures are the same when their bytes are. -/

namespace Raster
open ByteMemory

/-- The number of a word of a picture that many words wide. -/
def place (width x y : Nat) : Nat := y * width + x

/-- A row after `count` passes of the loop over its columns. -/
def paintRow (memory : Memory) (first : Nat) (pixel : Nat → Nat) : Nat → Memory
  | 0 => memory
  | count + 1 => store (paintRow memory first pixel count) (first + 4 * count) 4 (pixel count)

/-- A picture after `rows` passes of the loop over its rows. -/
def paint (memory : Memory) (base width : Nat) (pixel : Nat → Nat → Nat) : Nat → Memory
  | 0 => memory
  | rows + 1 =>
    paintRow (paint memory base width pixel rows) (base + 4 * place width 0 rows) (fun x => pixel x rows) width

section Loops
variable (memory : Memory) (first base width : Nat)

theorem paintRow_confined (pixel : Nat → Nat) (count : Nat) :
    Confined (paintRow memory first pixel count) memory first (4 * count) := by
  induction count with
  | zero => exact .refl memory first _
  | succ count ih =>
    exact ((store_confined _ _ _ _).mono (by omega) (by omega)).trans (ih.mono (Nat.le_refl _) (by omega))

theorem paintRow_load {pixel : Nat → Nat} {count x : Nat} (inside : x < count) (fits : pixel x < 2 ^ 32) :
    load (paintRow memory first pixel count) (first + 4 * x) 4 = pixel x := by
  induction count with
  | zero => cases inside
  | succ count ih =>
    rw [paintRow]
    rcases Nat.lt_succ_iff_lt_or_eq.mp inside with early | rfl
    · rw [load_store_apart _ (by omega)]
      exact ih early
    · exact load_store_fits _ fits

/-- The places of a row lie behind those of the rows before it. -/
theorem row_end {rows y : Nat} (before : y < rows) : (y + 1) * width ≤ rows * width :=
  Nat.mul_le_mul_right width before

/-- Every word is the one that its pass has stored. -/
theorem paint_load {pixel : Nat → Nat → Nat} {rows x y : Nat} (column : x < width) (row : y < rows)
    (fits : pixel x y < 2 ^ 32) :
    load (paint memory base width pixel rows) (base + 4 * place width x y) 4 = pixel x y := by
  induction rows with
  | zero => cases row
  | succ rows ih =>
    rw [paint]
    rcases Nat.lt_succ_iff_lt_or_eq.mp row with early | rfl
    · have behind := row_end width early
      rw [Nat.succ_mul] at behind
      have kept : load (paintRow (paint memory base width pixel rows) (base + 4 * place width 0 rows)
          (fun x => pixel x rows) width) (base + 4 * place width x y) 4 =
          load (paint memory base width pixel rows) (base + 4 * place width x y) 4 := by
        refine load_agree ((paintRow_confined _ _ _ _).agree (Or.inl ?_))
        simp only [place]
        omega
      rw [kept]
      exact ih early
    · have there : base + 4 * place width x y = base + 4 * place width 0 y + 4 * x := by
        simp only [place]
        omega
      rw [there]
      exact paintRow_load _ _ column fits

end Loops

section Places
variable {width height : Nat} {p : Nat → Prop}

theorem place_lt {x y : Nat} (column : x < width) (row : y < height) : place width x y < height * width := by
  have behind := row_end width row
  rw [Nat.succ_mul] at behind
  rw [place]
  omega

/-- The rows and columns reach every word. -/
theorem places_iff : (∀ x < width, ∀ y < height, p (place width x y)) ↔ ∀ index < height * width, p index := by
  constructor
  · intro all index inside
    have wide : 0 < width := by
      by_contra none
      obtain rfl : width = 0 := by omega
      exact Nat.not_lt_zero index inside
    have here := all (index % width) (Nat.mod_lt _ wide) (index / width) ((Nat.div_lt_iff_lt_mul wide).mpr inside)
    rwa [place, Nat.div_add_mod'] at here
  · exact fun all x column y row => all _ (place_lt column row)

/-- They do so from the last row to the first as well. -/
theorem flipped_iff :
    (∀ x < width, ∀ y < height, p (place width x (height - 1 - y))) ↔ ∀ index < height * width, p index := by
  rw [← places_iff]
  constructor
  · intro all x column y row
    have back : height - 1 - (height - 1 - y) = y := by omega
    have here := all x column (height - 1 - y) (by omega)
    rwa [back] at here
  · exact fun all x column y row => all x column (height - 1 - y) (by omega)

end Places

/-- Pictures have the same words when they have the same bytes. -/
theorem words_iff {first second : Memory} {start other count : Nat} :
    (∀ index < count, load first (start + 4 * index) 4 = load second (other + 4 * index) 4) ↔
      ∀ offset < 4 * count, first (start + offset) = second (other + offset) := by
  constructor
  · intro words offset inside
    have apart : offset = 4 * (offset / 4) + offset % 4 := (Nat.div_add_mod offset 4).symm
    have word := words (offset / 4) (by omega)
    rw [apart, ← Nat.add_assoc, ← Nat.add_assoc, ← byte_load first (start + 4 * (offset / 4)) (Nat.mod_lt offset four),
      ← byte_load second (other + 4 * (offset / 4)) (Nat.mod_lt offset four), word]
  · intro bytes index inside
    apply load_moved
    intro offset small
    rw [Nat.add_assoc, Nat.add_assoc]
    exact bytes _ (by omega)
where
  four : 0 < 4 := by decide

end Raster
