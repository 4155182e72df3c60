import Mathlib.Algebra.Order.Field.Rat
import Mathlib.Tactic.FieldSimp
import Mathlib.Algebra.Order.Ring.Abs
import Mathlib.Tactic.Linarith
import Kernix.Display.Visual
import Kernix.Lib.LineWalk

/-! The loop of `draw_line` walks along its line: its error term is the one that belongs
to the pixel it is at, whatever the direction. -/

namespace Kernix.Proofs
open LineWalk

/-- How many pixels there are from one coordinate to another. -/
def gap (a b : Nat) : Nat := ((b : Int) - a).natAbs

/-- The height of the line from one point to another at a place in between. -/
def idealAt (a0 b0 a1 b1 a : Nat) : ℚ := b0 + (a - a0) * (b1 - b0) / (a1 - a0)

/-- A pixel is at most half a pixel off its line in the minor direction. -/
def HalfPixel (x0 y0 x1 y1 : Nat) (pixel : Nat × Nat) : Prop :=
  if gap y0 y1 ≤ gap x0 x1 then |(pixel.2 : ℚ) - idealAt x0 y0 x1 y1 pixel.1| ≤ 1 / 2
  else |(pixel.1 : ℚ) - idealAt y0 x0 y1 x1 pixel.2| ≤ 1 / 2

/-- From one coordinate to another that is at most one further, on the way to the last. -/
def Approaches (last before after : Nat) : Prop :=
  before ≤ after ∧ after ≤ before + 1 ∧ after ≤ last ∨ after ≤ before ∧ before ≤ after + 1 ∧ last ≤ after

/-- The pixels of a line, from the first to the last. -/
structure LineOf (x0 y0 x1 y1 : Nat) (pixels : List (Nat × Nat)) : Prop where
  count : pixels.length = max (gap x0 x1) (gap y0 y1) + 1
  starts : pixels.head? = some (x0, y0)
  ends : pixels.getLast? = some (x1, y1)
  moves : ∀ index before after, pixels[index]? = some before → pixels[index + 1]? = some after →
    Approaches x1 before.1 after.1 ∧ Approaches y1 before.2 after.2
  near : ∀ pixel ∈ pixels, HalfPixel x0 y0 x1 y1 pixel

section Coordinates
variable {a b : Nat}

/-- The coordinate after some steps. -/
def along (a b count : Nat) : Nat := if a < b then a + count else a - count

/-- The direction of the steps. -/
def direction (a b : Nat) : Int := if a < b then 1 else -1

theorem along_end : along a b (gap a b) = b := by
  unfold along gap
  split <;> omega

theorem u32Add_along {count : Nat} (small : a < 2 ^ 29) (little : b < 2 ^ 29) (inside : count < gap a b) :
    u32Add (along a b count) (direction a b) = along a b (count + 1) := by
  unfold gap at inside
  unfold u32Add along direction
  split <;> omega

theorem along_approaches {count next : Nat} (grows : count ≤ next) (little : next ≤ count + 1)
    (inside : next ≤ gap a b) : Approaches b (along a b count) (along a b next) := by
  unfold gap at inside
  unfold Approaches along
  split <;> omega

theorem along_eq_iff {count : Nat} (inside : count ≤ gap a b) : along a b count = b ↔ count = gap a b := by
  unfold gap at inside ⊢
  unfold along
  split <;> omega

theorem distance_eq (small : a < 2 ^ 29) (little : b < 2 ^ 29) : distance a b = .ok (gap a b : Int) := by
  unfold distance gap
  have value : i32 (u32 (b + (2 ^ 32 - a))) = (b : Int) - a := by
    unfold i32 u32
    split <;> omega
  dsimp only
  rw [value]
  split
  · rw [intValue_returns (by omega) (by omega)]
    congr 1
    omega
  · congr 1
    omega

theorem along_sub (inside : count ≤ gap a b) : ((along a b count : Nat) : ℚ) - a = direction a b * count := by
  unfold gap at inside
  unfold along direction
  split
  · push_cast
    ring
  · rw [Nat.cast_sub (by omega)]
    push_cast
    ring

theorem direction_cases (a b : Nat) : direction a b = 1 ∨ direction a b = -1 := by
  unfold direction
  split
  · exact .inl rfl
  · exact .inr rfl

end Coordinates

/-- The deviation of a walk, as the distance from the ideal line. -/
theorem half_off {a0 b0 a1 b1 k l : Nat} (goes : 0 < gap a0 a1) (inside : k ≤ gap a0 a1) (within : l ≤ gap b0 b1)
    (above : -(gap a0 a1 : Int) ≤ 2 * (l * gap a0 a1 - k * gap b0 b1))
    (below : 2 * (l * gap a0 a1 - k * gap b0 b1 : Int) ≤ gap a0 a1) :
    |((along b0 b1 l : Nat) : ℚ) - idealAt a0 b0 a1 b1 (along a0 a1 k)| ≤ 1 / 2 := by
  have length : (0 : ℚ) < gap a0 a1 := by exact_mod_cast goes
  have horizontal := along_sub (b := a1) inside
  have vertical := along_sub (b := b1) within
  have whole := along_sub (b := a1) (le_refl (gap a0 a1))
  have height := along_sub (b := b1) (le_refl (gap b0 b1))
  rw [along_end] at whole height
  have off : ((along b0 b1 l : Nat) : ℚ) - idealAt a0 b0 a1 b1 (along a0 a1 k) =
      direction b0 b1 * ((l * gap a0 a1 - k * gap b0 b1) / gap a0 a1) := by
    unfold idealAt
    rw [whole, height, horizontal]
    have start : ((along b0 b1 l : Nat) : ℚ) = b0 + direction b0 b1 * l := by linarith
    rw [start]
    rcases direction_cases a0 a1 with right | left
    · rw [right]
      field_simp
      ring
    · rw [left]
      field_simp
      ring
  have size : |(l * gap a0 a1 - k * gap b0 b1 : ℚ) / gap a0 a1| ≤ 1 / 2 := by
    have above' : -(gap a0 a1 : ℚ) ≤ 2 * (l * gap a0 a1 - k * gap b0 b1) := by exact_mod_cast above
    have below' : 2 * (l * gap a0 a1 - k * gap b0 b1 : ℚ) ≤ gap a0 a1 := by exact_mod_cast below
    rw [abs_le, le_div_iff₀ length, div_le_iff₀ length]
    constructor <;> linarith
  rw [off, abs_mul]
  rcases direction_cases b0 b1 with up | down
  · rw [up]
    simpa using size
  · rw [down]
    simpa using size

section Loop
variable {x0 y0 x1 y1 : Nat}

/-- The pen after some steps of the walk. -/
def penAt (x0 y0 x1 y1 : Nat) (place : Nat × Nat) : Pen :=
  ⟨along x0 x1 place.1, along y0 y1 place.2, error (gap x0 x1) (gap y0 y1) place.1 place.2⟩

/-- What `draw_line` keeps during its loop. -/
def lineFor (x0 y0 x1 y1 : Nat) : LineEnd :=
  ⟨x1, y1, gap x0 x1, gap y0 y1, direction x0 x1, direction y0 y1⟩

/-- One turn of the loop is one step of the walk. -/
theorem lineStep_next {place : Nat × Nat} (smallX : x0 < 2 ^ 29 ∧ x1 < 2 ^ 29) (smallY : y0 < 2 ^ 29 ∧ y1 < 2 ^ 29)
    (near : Near (gap x0 x1) (gap y0 y1) place)
    (inside : (next (gap x0 x1) (gap y0 y1) place).1 ≤ gap x0 x1 ∧ (next (gap x0 x1) (gap y0 y1) place).2 ≤ gap y0 y1) :
    lineStep (lineFor x0 y0 x1 y1) (penAt x0 y0 x1 y1 place) =
      .ok (penAt x0 y0 x1 y1 (next (gap x0 x1) (gap y0 y1) place)) := by
  obtain ⟨k, l⟩ := place
  have wide : gap x0 x1 < 2 ^ 29 := by unfold gap; omega
  have high : gap y0 y1 < 2 ^ 29 := by unfold gap; omega
  obtain ⟨above, below⟩ := near
  have off := error_eq (gap x0 x1) (gap y0 y1) k l
  unfold next at inside ⊢
  unfold lineStep lineFor penAt
  dsimp only at above below inside ⊢
  have far : ((max (gap x0 x1) (gap y0 y1) : Nat) : Int) < 2 ^ 29 := by omega
  rw [intValue_returns (by omega) (by omega), intValue_returns (by omega) (by omega)]
  simp only [bind, Except.bind]
  by_cases column : -(gap y0 y1 : Int) < 2 * error (gap x0 x1) (gap y0 y1) k l <;>
    by_cases row : 2 * error (gap x0 x1) (gap y0 y1) k l < (gap x0 x1 : Int)
  · have diagonal := error_eq (gap x0 x1) (gap y0 y1) (k + 1) (l + 1)
    rw [deviation_up, deviation_right] at diagonal
    simp only [if_pos column, if_pos row] at inside ⊢
    rw [intValue_returns (by omega) (by omega)]
    simp only [pure, Except.pure]
    rw [intValue_returns (by omega) (by omega), u32Add_along smallX.1 smallX.2 (by omega),
      u32Add_along smallY.1 smallY.2 (by omega)]
    simp only [diagonal]
    congr 2
    omega
  · have straight := error_eq (gap x0 x1) (gap y0 y1) (k + 1) l
    rw [deviation_right] at straight
    simp only [if_pos column, if_neg row] at inside ⊢
    rw [intValue_returns (by omega) (by omega), u32Add_along smallX.1 smallX.2 (by omega)]
    simp only [pure, Except.pure, straight]
    congr 2
    omega
  · have straight := error_eq (gap x0 x1) (gap y0 y1) k (l + 1)
    rw [deviation_up] at straight
    simp only [if_neg column, if_pos row] at inside ⊢
    simp only [pure, Except.pure]
    rw [intValue_returns (by omega) (by omega), u32Add_along smallY.1 smallY.2 (by omega)]
    simp only [straight]
    congr 2
    omega
  · simp only [if_neg column, if_neg row]
    rfl

/-- The pixel after some turns. -/
def pixelOf (x0 y0 x1 y1 count : Nat) : Nat × Nat :=
  (along x0 x1 (walk (gap x0 x1) (gap y0 y1) count).1, along y0 y1 (walk (gap x0 x1) (gap y0 y1) count).2)

/-- The loop from any turn on: it needs as many turns as there are steps left, and one more. -/
theorem lineFrom_walk (smallX : x0 < 2 ^ 29 ∧ x1 < 2 ^ 29) (smallY : y0 < 2 ^ 29 ∧ y1 < 2 ^ 29) {left count : Nat}
    (total : count + left = max (gap x0 x1) (gap y0 y1)) (fuel : Nat) :
    lineFrom (lineFor x0 y0 x1 y1) fuel (penAt x0 y0 x1 y1 (walk (gap x0 x1) (gap y0 y1) count)) =
      .ok (if left < fuel then some ((List.range' count (left + 1)).map (pixelOf x0 y0 x1 y1)) else none) := by
  induction fuel generalizing left count with
  | zero => rfl
  | succ fuel ih =>
    have inside := walk_inside (show count ≤ max (gap x0 x1) (gap y0 y1) by omega)
    have there : ((penAt x0 y0 x1 y1 (walk (gap x0 x1) (gap y0 y1) count)).x = (lineFor x0 y0 x1 y1).x1 ∧
        (penAt x0 y0 x1 y1 (walk (gap x0 x1) (gap y0 y1) count)).y = (lineFor x0 y0 x1 y1).y1) ↔
        walk (gap x0 x1) (gap y0 y1) count = (gap x0 x1, gap y0 y1) := by
      rw [Prod.ext_iff]
      exact and_congr (along_eq_iff inside.1) (along_eq_iff inside.2)
    unfold lineFrom
    cases left with
    | zero =>
      have ends : walk (gap x0 x1) (gap y0 y1) count = (gap x0 x1, gap y0 y1) := by
        rw [show count = max (gap x0 x1) (gap y0 y1) from total, walk_end]
      rw [if_pos (there.mpr ends), if_pos (Nat.succ_pos fuel)]
      rfl
    | succ left =>
      have before := walk_before (show count < max (gap x0 x1) (gap y0 y1) by omega)
      have further := walk_inside (show count + 1 ≤ max (gap x0 x1) (gap y0 y1) by omega)
      rw [walk_succ] at further
      have step := lineStep_next smallX smallY (walk_near count (by omega)) further
      rw [← walk_succ] at step
      rw [if_neg (fun same => before (there.mp same)), step]
      simp only [bind, Except.bind]
      rw [ih (show count + 1 + left = max (gap x0 x1) (gap y0 y1) by omega)]
      by_cases enough : left < fuel
      · rw [if_pos enough, if_pos (by omega)]
        rfl
      · rw [if_neg enough, if_neg (by omega)]
        rfl

theorem linePixels_walk (smallX : x0 < 2 ^ 29 ∧ x1 < 2 ^ 29) (smallY : y0 < 2 ^ 29 ∧ y1 < 2 ^ 29) (fuel : Nat) :
    linePixels fuel x0 y0 x1 y1 =
      .ok (if max (gap x0 x1) (gap y0 y1) < fuel then
        some ((List.range (max (gap x0 x1) (gap y0 y1) + 1)).map (pixelOf x0 y0 x1 y1)) else none) := by
  have wide : gap x0 x1 < 2 ^ 29 := by unfold gap; omega
  have high : gap y0 y1 < 2 ^ 29 := by unfold gap; omega
  have runs := lineFrom_walk smallX smallY (Nat.zero_add (max (gap x0 x1) (gap y0 y1))) fuel
  rw [← List.range_eq_range'] at runs
  unfold linePixels
  rw [distance_eq smallX.1 smallX.2, distance_eq smallY.1 smallY.2]
  simp only [bind, Except.bind]
  rw [intValue_returns (by omega) (by omega)]
  have start : penAt x0 y0 x1 y1 (walk (gap x0 x1) (gap y0 y1) 0) = ⟨x0, y0, gap x0 x1 - gap y0 y1⟩ := by
    have err := error_eq (gap x0 x1) (gap y0 y1) 0 0
    simp only [deviation, Nat.cast_zero, Int.zero_mul, Int.sub_self] at err
    simp only [penAt, walk, Function.iterate_zero, id, err, along]
    congr 1
    · split <;> rfl
    · split <;> rfl
    · omega
  rwa [start] at runs

theorem pixelOf_half {count : Nat} (inside : count ≤ max (gap x0 x1) (gap y0 y1)) :
    HalfPixel x0 y0 x1 y1 (pixelOf x0 y0 x1 y1 count) := by
  have near := walk_near count inside
  have within := walk_inside inside
  obtain ⟨above, below⟩ := near
  unfold deviation at above below
  unfold HalfPixel pixelOf
  by_cases shallow : gap y0 y1 ≤ gap x0 x1
  · rw [if_pos shallow]
    rw [max_eq_left shallow] at above below
    by_cases goes : 0 < gap x0 x1
    · exact half_off goes within.1 within.2 above below
    · -- A line of one pixel.
      obtain rfl : count = 0 := by omega
      have start : along x0 x1 0 = x0 ∧ along y0 y1 0 = y0 := by
        unfold along
        constructor <;> split <;> rfl
      show |((along y0 y1 0 : Nat) : ℚ) - idealAt x0 y0 x1 y1 (along x0 x1 0)| ≤ 1 / 2
      rw [start.1, start.2, idealAt, sub_self, zero_mul, zero_div, add_zero, sub_self, abs_zero]
      norm_num
  · rw [if_neg shallow]
    rw [max_eq_right (by omega)] at above below
    exact half_off (by omega) within.2 within.1 (by omega) (by omega)

/-- The pixels that are walked to are those of a line. -/
theorem pixels_line : LineOf x0 y0 x1 y1 ((List.range (max (gap x0 x1) (gap y0 y1) + 1)).map (pixelOf x0 y0 x1 y1)) where
  count := by rw [List.length_map, List.length_range]
  starts := by
    rw [List.head?_map, List.head?_range, if_neg (Nat.succ_ne_zero _)]
    unfold pixelOf along
    split <;> split <;> rfl
  ends := by
    rw [List.getLast?_map, List.getLast?_range, if_neg (Nat.succ_ne_zero _), Option.map_some, Nat.add_sub_cancel,
      pixelOf, walk_end, along_end, along_end]
  moves := by
    intro index before after first second
    obtain ⟨place, earlier, rfl⟩ := Option.map_eq_some_iff.mp (List.getElem?_map ▸ first)
    obtain ⟨place', later, rfl⟩ := Option.map_eq_some_iff.mp (List.getElem?_map ▸ second)
    obtain ⟨_, rfl⟩ := List.getElem?_eq_some_iff.mp earlier
    obtain ⟨behind, rfl⟩ := List.getElem?_eq_some_iff.mp later
    rw [List.length_range] at behind
    simp only [List.getElem_range]
    obtain ⟨columns, rows⟩ := next_grows (gap x0 x1) (gap y0 y1) (walk (gap x0 x1) (gap y0 y1) index)
    have within := walk_inside (show index + 1 ≤ max (gap x0 x1) (gap y0 y1) by omega)
    rw [← walk_succ] at columns rows
    exact ⟨along_approaches columns.1 columns.2 within.1, along_approaches rows.1 rows.2 within.2⟩
  near := by
    intro pixel member
    obtain ⟨count, inside, rfl⟩ := List.mem_map.mp member
    exact pixelOf_half (Nat.lt_succ_iff.mp (List.mem_range.mp inside))

end Loop

/-- `draw_line` ends after as many turns as the longer side has pixels, and one, and has
set the pixels of the line. -/
theorem draw_line_ends {x0 y0 x1 y1 : Nat} (startX : x0 < 2 ^ 29) (startY : y0 < 2 ^ 29) (endX : x1 < 2 ^ 29)
    (endY : y1 < 2 ^ 29) :
    ∃ pixels, LineOf x0 y0 x1 y1 pixels ∧ ∀ fuel,
      linePixels fuel x0 y0 x1 y1 = .ok (if pixels.length ≤ fuel then some pixels else none) ∧
      ∀ g color, drawLine g fuel x0 y0 x1 y1 color =
        .ok (if pixels.length ≤ fuel then some (pixels.flatMap fun pixel => putpixel g pixel.1 pixel.2 color)
          else none) := by
  refine ⟨_, pixels_line, fun fuel => ?_⟩
  have visits := linePixels_walk ⟨startX, endX⟩ ⟨startY, endY⟩ fuel
  have turns : (if max (gap x0 x1) (gap y0 y1) < fuel then
      some ((List.range (max (gap x0 x1) (gap y0 y1) + 1)).map (pixelOf x0 y0 x1 y1)) else none) =
      if ((List.range (max (gap x0 x1) (gap y0 y1) + 1)).map (pixelOf x0 y0 x1 y1)).length ≤ fuel then
        some ((List.range (max (gap x0 x1) (gap y0 y1) + 1)).map (pixelOf x0 y0 x1 y1)) else none := by
    rw [List.length_map, List.length_range]
    rfl
  rw [turns] at visits
  refine ⟨visits, fun g color => ?_⟩
  unfold drawLine
  rw [visits]
  simp only [bind, Except.bind, pure, Except.pure]
  split <;> rfl

theorem draw_line_ends_steep : ∃ pixels, LineOf 5 9 3 0 pixels ∧ ∀ fuel,
    linePixels fuel 5 9 3 0 = .ok (if pixels.length ≤ fuel then some pixels else none) ∧
    ∀ g color, drawLine g fuel 5 9 3 0 color =
      .ok (if pixels.length ≤ fuel then some (pixels.flatMap fun pixel => putpixel g pixel.1 pixel.2 color)
        else none) :=
  draw_line_ends (by decide) (by decide) (by decide) (by decide)

/-- A line that goes to the left and down. -/
example : linePixels 5 4 2 0 0 = .ok (some [(4, 2), (3, 2), (2, 1), (1, 1), (0, 0)]) := by decide

end Kernix.Proofs
