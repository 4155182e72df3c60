import Mathlib.Logic.Function.Iterate
import Mathlib.Tactic.Ring
import Mathlib.Tactic.Linarith

/-! The walk along a line by an error term. The walk goes `right` columns to the right and
`up` rows up in all; after `k` columns and `l` rows the error tells whether the next pixel
is in another column, in another row or both. What is kept is that the pixel is at most
half a pixel off the line, in the direction in which the line goes less far. -/

namespace LineWalk

variable (right up : Nat)

/-- How far off the line a pixel is, in pixels times the way to go. -/
def deviation (k l : Nat) : Int := l * right - k * up

def error (k l : Nat) : Int := deviation right up (k + 1) (l + 1)

def next (place : Nat × Nat) : Nat × Nat :=
  (if -(up : Int) < 2 * error right up place.1 place.2 then place.1 + 1 else place.1,
    if 2 * error right up place.1 place.2 < right then place.2 + 1 else place.2)

/-- At most half a pixel off. -/
structure Near (place : Nat × Nat) : Prop where
  above : -(max right up : Nat) ≤ 2 * deviation right up place.1 place.2
  below : 2 * deviation right up place.1 place.2 ≤ (max right up : Nat)

/-- Where the walk is after `count` steps. -/
def walk (count : Nat) : Nat × Nat := (next right up)^[count] (0, 0)

variable {right up}

theorem deviation_right (k l : Nat) : deviation right up (k + 1) l = deviation right up k l - up := by
  unfold deviation
  push_cast
  ring

theorem deviation_up (k l : Nat) : deviation right up k (l + 1) = deviation right up k l + right := by
  unfold deviation
  push_cast
  ring

theorem error_eq (right up k l : Nat) : error right up k l = deviation right up k l - up + right := by
  rw [error, deviation_up, deviation_right]

section Steps
variable {place : Nat × Nat}

/-- A line that goes further to the right has a pixel in each column. -/
theorem next_shallow (shallow : up ≤ right) (goes : 0 < right) (near : Near right up place) :
    (next right up place).1 = place.1 + 1 ∧ Near right up (next right up place) := by
  obtain ⟨k, l⟩ := place
  obtain ⟨above, below⟩ := near
  have far : max right up = right := max_eq_left shallow
  rw [far] at above below
  dsimp only at above below
  -- Were the error on the bound, the line would be a diagonal that was left by half a pixel.
  have column : -(up : Int) < 2 * error right up k l := by
    rw [error_eq]
    by_contra still
    have diagonal : up = right := by omega
    subst diagonal
    have whole : deviation up up k l = (l - k) * up := by
      unfold deviation
      ring
    have half : 2 * ((l - k : Int) * up) = -up := by omega
    have factor : (2 * (l - k : Int) + 1) * up = 0 := by linarith
    rcases mul_eq_zero.mp factor with odd | none <;> omega
  have moved : next right up (k, l) = (k + 1, if 2 * error right up k l < right then l + 1 else l) := by
    rw [next, if_pos column]
  rw [moved]
  refine ⟨rfl, ?_, ?_⟩ <;> rw [far] <;> rw [error_eq] at column ⊢ <;> dsimp only
  all_goals
    split
    · rw [deviation_up, deviation_right]
      omega
    · rw [deviation_right]
      omega

/-- A line that goes further up has a pixel in each row. -/
theorem next_steep (steep : right < up) (near : Near right up place) :
    (next right up place).2 = place.2 + 1 ∧ Near right up (next right up place) := by
  obtain ⟨k, l⟩ := place
  obtain ⟨above, below⟩ := near
  have far : max right up = up := max_eq_right steep.le
  rw [far] at above below
  dsimp only at above below
  have row : 2 * error right up k l < right := by
    rw [error_eq]
    omega
  have moved : next right up (k, l) = (if -(up : Int) < 2 * error right up k l then k + 1 else k, l + 1) := by
    rw [next, if_pos row]
  rw [moved]
  refine ⟨rfl, ?_, ?_⟩ <;> rw [far] <;> rw [error_eq] at row ⊢ <;> dsimp only
  all_goals
    split
    · rw [deviation_up, deviation_right]
      omega
    · rw [deviation_up]
      omega

theorem next_grows (right up : Nat) (place : Nat × Nat) :
    (place.1 ≤ (next right up place).1 ∧ (next right up place).1 ≤ place.1 + 1) ∧
      place.2 ≤ (next right up place).2 ∧ (next right up place).2 ≤ place.2 + 1 := by
  unfold next
  dsimp only
  constructor <;> split <;> omega

end Steps

section Walks

theorem walk_succ (count : Nat) : walk right up (count + 1) = next right up (walk right up count) :=
  Function.iterate_succ_apply' _ _ _

theorem near_start : Near right up (0, 0) := by
  constructor <;> simp [deviation]

theorem walk_shallow (shallow : up ≤ right) (goes : 0 < right) (count : Nat) :
    (walk right up count).1 = count ∧ Near right up (walk right up count) := by
  induction count with
  | zero => exact ⟨rfl, near_start⟩
  | succ count ih =>
    obtain ⟨column, near⟩ := next_shallow shallow goes ih.2
    rw [walk_succ]
    exact ⟨column.trans (by rw [ih.1]), near⟩

theorem walk_steep (steep : right < up) (count : Nat) :
    (walk right up count).2 = count ∧ Near right up (walk right up count) := by
  induction count with
  | zero => exact ⟨rfl, near_start⟩
  | succ count ih =>
    obtain ⟨row, near⟩ := next_steep steep ih.2
    rw [walk_succ]
    exact ⟨row.trans (by rw [ih.1]), near⟩

/-- Less than one step off is not off at all. -/
theorem eq_of_near {length l m : Nat} (goes : 0 < length) (above : -(length : Int) ≤ 2 * ((l - m) * length))
    (below : 2 * ((l - m : Int) * length) ≤ length) : l = m := by
  rcases lt_trichotomy l m with less | same | more
  · have step : (l - m : Int) ≤ -1 := by omega
    nlinarith
  · exact same
  · have step : (1 : Int) ≤ l - m := by omega
    nlinarith

theorem walk_near (count : Nat) (inside : count ≤ max right up) : Near right up (walk right up count) := by
  by_cases shallow : up ≤ right
  · by_cases goes : 0 < right
    · exact (walk_shallow shallow goes count).2
    · obtain rfl : count = 0 := by omega
      exact near_start
  · exact (walk_steep (by omega) count).2

/-- The walk ends where the line does. -/
theorem walk_end : walk right up (max right up) = (right, up) := by
  by_cases shallow : up ≤ right
  · rw [max_eq_left shallow]
    by_cases goes : 0 < right
    · obtain ⟨column, near⟩ := walk_shallow shallow goes right
      obtain ⟨above, below⟩ := near
      rw [max_eq_left shallow] at above below
      have off : deviation right up (walk right up right).1 (walk right up right).2 =
          ((walk right up right).2 - up) * right := by
        rw [column, deviation]
        ring
      rw [off] at above below
      exact Prod.ext column (eq_of_near goes above below)
    · obtain rfl : right = 0 := by omega
      obtain rfl : up = 0 := by omega
      rfl
  · have steep : right < up := by omega
    rw [max_eq_right steep.le]
    obtain ⟨row, near⟩ := walk_steep steep up
    obtain ⟨above, below⟩ := near
    rw [max_eq_right steep.le] at above below
    have off : deviation right up (walk right up up).1 (walk right up up).2 =
        -(((walk right up up).1 - right) * up) := by
      rw [row, deviation]
      ring
    rw [off] at above below
    have column : (walk right up up).1 = right := eq_of_near (by omega : 0 < up) (by omega) (by omega)
    exact Prod.ext column row

/-- It is not there earlier. -/
theorem walk_before {count : Nat} (before : count < max right up) : walk right up count ≠ (right, up) := by
  intro there
  by_cases shallow : up ≤ right
  · have column := (walk_shallow shallow (by omega) count).1
    rw [there] at column
    dsimp only at column
    omega
  · have row := (walk_steep (by omega : right < up) count).1
    rw [there] at row
    dsimp only at row
    omega

theorem walk_grows {first last : Nat} (order : first ≤ last) :
    (walk right up first).1 ≤ (walk right up last).1 ∧ (walk right up first).2 ≤ (walk right up last).2 := by
  induction order with
  | refl => exact ⟨le_rfl, le_rfl⟩
  | step _ ih =>
    obtain ⟨⟨columns, _⟩, rows, _⟩ := next_grows right up (walk right up _)
    rw [Nat.succ_eq_add_one, walk_succ]
    exact ⟨ih.1.trans columns, ih.2.trans rows⟩

/-- It does not go beyond the end. -/
theorem walk_inside {count : Nat} (inside : count ≤ max right up) :
    (walk right up count).1 ≤ right ∧ (walk right up count).2 ≤ up := by
  have ends : walk right up (max right up) = (right, up) := walk_end
  have grows : (walk right up count).1 ≤ (walk right up (max right up)).1 ∧ _ := walk_grows inside
  rwa [ends] at grows

end Walks

end LineWalk
