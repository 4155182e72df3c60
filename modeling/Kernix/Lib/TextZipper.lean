import Mathlib.Data.List.Basic

/-! A line of text of bounded length with a cursor in it: the characters before the
cursor, the nearest first, and the characters behind it. -/

universe u

structure TextZipper (α : Type u) (capacity : Nat) where
  before : List α
  after : List α
  fits : before.length + after.length ≤ capacity

namespace TextZipper

variable {α : Type u} {capacity : Nat}

/-- The whole line. -/
def text (zipper : TextZipper α capacity) : List α := zipper.before.reverse ++ zipper.after

def position (zipper : TextZipper α capacity) : Nat := zipper.before.length

def empty : TextZipper α capacity := ⟨[], [], Nat.zero_le _⟩

/-- A character goes in front of the cursor, unless the line is full. -/
def insert (item : α) (zipper : TextZipper α capacity) : TextZipper α capacity :=
  if room : zipper.before.length + zipper.after.length < capacity then
    ⟨item :: zipper.before, zipper.after, by rw [List.length_cons]; omega⟩
  else zipper

/-- The character before the cursor goes away. -/
def delete : TextZipper α capacity → TextZipper α capacity
  | ⟨[], after, fits⟩ => ⟨[], after, fits⟩
  | ⟨_ :: before, after, fits⟩ => ⟨before, after, by simp only [List.length_cons] at fits; omega⟩

def moveLeft : TextZipper α capacity → TextZipper α capacity
  | ⟨[], after, fits⟩ => ⟨[], after, fits⟩
  | ⟨item :: before, after, fits⟩ => ⟨before, item :: after, by simp only [List.length_cons] at fits ⊢; omega⟩

def moveRight : TextZipper α capacity → TextZipper α capacity
  | ⟨before, [], fits⟩ => ⟨before, [], fits⟩
  | ⟨before, item :: after, fits⟩ => ⟨item :: before, after, by simp only [List.length_cons] at fits ⊢; omega⟩

def moveHome (zipper : TextZipper α capacity) : TextZipper α capacity :=
  ⟨[], zipper.text, by simpa [text] using zipper.fits⟩

def moveEnd (zipper : TextZipper α capacity) : TextZipper α capacity :=
  ⟨zipper.text.reverse, [], by simpa [text, Nat.add_comm] using zipper.fits⟩

theorem placed_fits {text : List α} (column : Nat) (fits : text.length ≤ capacity) :
    (text.take column).reverse.length + (text.drop column).length ≤ capacity := by
  rw [List.length_reverse, ← List.length_append, List.take_append_drop]
  exact fits

/-- A text with the cursor at a column, or behind the text where it is shorter. -/
def place (column : Nat) (text : List α) (fits : text.length ≤ capacity) : TextZipper α capacity :=
  ⟨(text.take column).reverse, text.drop column, placed_fits column fits⟩

theorem length_text (zipper : TextZipper α capacity) :
    zipper.text.length = zipper.before.length + zipper.after.length := by
  simp [text]

theorem length_le (zipper : TextZipper α capacity) : zipper.text.length ≤ capacity := by
  rw [length_text]
  exact zipper.fits

theorem position_le (zipper : TextZipper α capacity) : zipper.position ≤ zipper.text.length := by
  rw [length_text, position]
  exact Nat.le_add_right _ _

/-- Nothing lies behind the cursor exactly when it stands at the length of the line. -/
theorem position_eq_length (zipper : TextZipper α capacity) :
    zipper.position = zipper.text.length ↔ zipper.after = [] := by
  rw [length_text, position, ← List.length_eq_zero_iff]
  omega

@[simp] theorem text_empty : (empty : TextZipper α capacity).text = [] := rfl

@[simp] theorem position_empty : (empty : TextZipper α capacity).position = 0 := rfl

theorem insert_room {item : α} {zipper : TextZipper α capacity}
    (room : zipper.before.length + zipper.after.length < capacity) :
    (zipper.insert item).before = item :: zipper.before ∧ (zipper.insert item).after = zipper.after := by
  rw [insert, dif_pos room]
  exact ⟨rfl, rfl⟩

theorem insert_full {item : α} {zipper : TextZipper α capacity}
    (full : ¬zipper.before.length + zipper.after.length < capacity) : zipper.insert item = zipper :=
  dif_neg full

/-- Only an insertion brings a character into the line. -/
theorem mem_insert {item other : α} {zipper : TextZipper α capacity} (member : other ∈ (zipper.insert item).text) :
    other = item ∨ other ∈ zipper.text := by
  unfold insert at member
  split at member
  next =>
    simp only [text, List.reverse_cons, List.append_assoc, List.singleton_append, List.mem_append,
      List.mem_cons] at member
    rw [text, List.mem_append]
    tauto
  next => exact .inr member

@[simp] theorem text_moveLeft (zipper : TextZipper α capacity) : zipper.moveLeft.text = zipper.text := by
  obtain ⟨_ | ⟨item, before⟩, after, fits⟩ := zipper
  · rfl
  · simp [moveLeft, text]

@[simp] theorem text_moveRight (zipper : TextZipper α capacity) : zipper.moveRight.text = zipper.text := by
  obtain ⟨before, _ | ⟨item, after⟩, fits⟩ := zipper
  · rfl
  · simp [moveRight, text]

theorem position_moveLeft (zipper : TextZipper α capacity) : zipper.moveLeft.position = zipper.position - 1 := by
  obtain ⟨_ | ⟨item, before⟩, after, fits⟩ := zipper <;> rfl

theorem position_moveRight (zipper : TextZipper α capacity) :
    zipper.moveRight.position = min (zipper.position + 1) zipper.text.length := by
  obtain ⟨before, _ | ⟨item, after⟩, fits⟩ := zipper
  · simp [moveRight, position, text]
  · simp [moveRight, position, text]

@[simp] theorem text_moveHome (zipper : TextZipper α capacity) : zipper.moveHome.text = zipper.text := rfl

@[simp] theorem text_place (column : Nat) {text : List α} (fits : text.length ≤ capacity) :
    (place column text fits).text = text := by
  simp [place, TextZipper.text]

@[simp] theorem position_place (column : Nat) {text : List α} (fits : text.length ≤ capacity) :
    (place column text fits).position = min column text.length := by
  simp [place, position]

@[simp] theorem text_moveEnd (zipper : TextZipper α capacity) : zipper.moveEnd.text = zipper.text := by
  simp [moveEnd, text]

end TextZipper
