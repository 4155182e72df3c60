import Mathlib.Data.Fin.Basic
import Mathlib.Data.List.FinRange
import Mathlib.Logic.Function.Basic

/-! Tables of slots: the first slot that passes a test, and a list kept in the first
slots. -/

namespace FirstIndex
variable {n : Nat} {stop : Fin n → Bool} {index : Fin n}

theorem found_iff : (List.finRange n).find? stop = some index ↔ stop index = true ∧
    ∀ earlier < index, stop earlier = false := by
  rw [List.find?_eq_some_iff_getElem]
  simp only [List.getElem_finRange]
  constructor
  · rintro ⟨stops, place, inside, rfl, before⟩
    refine ⟨stops, fun earlier early => ?_⟩
    simpa using before earlier early
  · rintro ⟨stops, before⟩
    refine ⟨stops, index.val, by simp, by simp, fun place early => ?_⟩
    rw [before _ (by simpa [Fin.lt_def] using early)]
    rfl

theorem none_iff : (List.finRange n).find? stop = none ↔ ∀ index, stop index = false := by
  simp

end FirstIndex

namespace SlotList
universe u
variable {α : Type u} {capacity : Nat} {slots : Fin capacity → α} {items : List α}

structure Holds (slots : Fin capacity → α) (items : List α) : Prop where
  fits : items.length ≤ capacity
  slot : ∀ index (inside : index < items.length), slots ⟨index, by omega⟩ = items[index]

theorem holds_nil (slots : Fin capacity → α) : Holds slots [] := by
  refine ⟨Nat.zero_le _, ?_⟩
  intro index inside
  cases inside

/-- A slot holds at most one item, so that the array determines a list of a length. -/
theorem Holds.unique {others : List α} (held : Holds slots items) (other : Holds slots others)
    (length : items.length = others.length) : items = others := by
  apply List.ext_getElem length
  intro index left right
  rw [← held.slot index left, ← other.slot index right]

/-- The array gives the list back. -/
theorem Holds.take_ofFn (held : Holds slots items) : (List.ofFn slots).take items.length = items := by
  have fits := held.fits
  apply List.ext_getElem
  · rw [List.length_take, List.length_ofFn]
    omega
  · intro index _ inside
    rw [List.getElem_take, List.getElem_ofFn, held.slot index inside]

theorem Holds.push (held : Holds slots items) (room : items.length < capacity) (value : α) :
    Holds (Function.update slots ⟨items.length, room⟩ value) (items ++ [value]) := by
  refine ⟨by rw [List.length_append, List.length_singleton]; exact room, ?_⟩
  intro index inside
  simp only [List.length_append, List.length_singleton] at inside
  by_cases last : index = items.length
  · subst last
    simp
  · have early : index < items.length := by omega
    rw [Function.update_of_ne (by simpa [Fin.ext_iff] using last), held.slot index early, List.getElem_append_left early]

theorem Holds.set (held : Holds slots items) {position : Nat} (inside : position < items.length) (value : α) :
    Holds (Function.update slots ⟨position, Nat.lt_of_lt_of_le inside held.fits⟩ value) (items.set position value) := by
  refine ⟨by simpa using held.fits, ?_⟩
  intro index within
  rw [List.length_set] at within
  by_cases same : index = position
  · subst same
    simp
  · rw [Function.update_of_ne (by simpa [Fin.ext_iff] using same), held.slot index within,
      List.getElem_set_ne (Ne.symm same)]

/-- The slots behind a position take over the item after them. -/
def shifted (slots : Fin capacity → α) (position count : Nat) : Fin capacity → α := fun index =>
  if inside : position ≤ index.val ∧ index.val < position + count ∧ index.val + 1 < capacity then
    slots ⟨index.val + 1, inside.2.2⟩
  else slots index

theorem shifted_none (slots : Fin capacity → α) (position : Nat) : shifted slots position 0 = slots := by
  funext index
  rw [shifted, dif_neg (by omega)]

/-- The first of them moves, and then the others do. -/
theorem shifted_step (slots : Fin capacity → α) {position count : Nat} (inside : position + count + 1 < capacity) :
    shifted (Function.update slots ⟨position, by omega⟩ (slots ⟨position + 1, by omega⟩)) (position + 1) count =
      shifted slots position (count + 1) := by
  funext index
  simp only [shifted]
  by_cases here : index.val = position
  · subst here
    rw [dif_neg (by omega), dif_pos (by omega)]
    exact Function.update_self index _ _
  · have apart {other : Fin capacity} (ne : other.val ≠ position) (value : α) :
        Function.update slots ⟨position, by omega⟩ value other = slots other :=
      Function.update_of_ne (by simpa [Fin.ext_iff] using ne) _ _
    rw [apart here]
    by_cases moved : position + 1 ≤ index.val ∧ index.val < position + 1 + count ∧ index.val + 1 < capacity
    · rw [dif_pos moved, dif_pos (by omega), apart (by simp only [ne_eq]; omega)]
    · rw [dif_neg moved, dif_neg (by omega)]

theorem Holds.erase (held : Holds slots items) {position : Nat} (inside : position < items.length) :
    Holds (shifted slots position (items.length - 1 - position)) (items.eraseIdx position) := by
  have fits := held.fits
  refine ⟨by rw [List.length_eraseIdx_of_lt inside]; omega, ?_⟩
  intro index within
  rw [List.length_eraseIdx_of_lt inside] at within
  simp only [shifted]
  by_cases early : index < position
  · rw [dif_neg (by omega), List.getElem_eraseIdx_of_lt _ early, held.slot index (by omega)]
  · rw [dif_pos (by omega), List.getElem_eraseIdx_of_ge _ (by omega), held.slot (index + 1) (by omega)]

end SlotList
