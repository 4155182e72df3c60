import Kernix.Common.Array
import Mathlib.Data.List.TakeWhile

/-! The string functions on lists of bytes: comparing is equality, a common start
is a prefix, and a copy holds the string it was made of. -/

namespace Kernix.Proofs

theorem strEquals_iff (first second : List UInt8) : strEquals first second = true ↔ first = second := by
  induction first generalizing second with
  | nil => cases second <;> simp [strEquals]
  | cons byte first ih => cases second <;> simp [strEquals, ih]

theorem strStartsWith_iff (input start : List UInt8) : strStartsWith input start = true ↔ start <+: input := by
  induction start generalizing input with
  | nil => cases input <;> simp [strStartsWith]
  | cons first start ih =>
    cases input with
    | nil => simp [strStartsWith]
    | cons byte input =>
      simp only [strStartsWith, Bool.and_eq_true, decide_eq_true_eq, ih, List.cons_prefix_cons]
      exact and_congr_left fun _ => eq_comm

theorem text_clean {size : Nat} (array : Fin size → UInt8) : 0 ∉ text array :=
  fun zero => by simpa using List.mem_takeWhile_imp zero

/-- An array whose first bytes are a string and a terminator holds the string. -/
theorem text_eq {size : Nat} {array : Fin size → UInt8} {source : List UInt8} (fits : source.length < size)
    (bytes : ∀ index (inside : index < source.length), array ⟨index, by omega⟩ = source[index])
    (terminated : array ⟨source.length, fits⟩ = 0) (clean : 0 ∉ source) : text array = source := by
  have front : (List.ofFn array).take source.length = source := by
    apply List.ext_getElem
    · simp only [List.length_take, List.length_ofFn]
      omega
    · intro index inside within
      simp only [List.getElem_take, List.getElem_ofFn]
      exact bytes index within
  have back : (List.ofFn array).drop source.length = 0 :: (List.ofFn array).drop (source.length + 1) := by
    rw [List.drop_eq_getElem_cons (by simpa using fits), List.getElem_ofFn, terminated]
  have whole := (List.take_append_drop source.length (List.ofFn array)).symm
  rw [front, back] at whole
  rw [text, whole, List.takeWhile_append_of_pos]
  · simp
  · intro byte member
    simp only [ne_eq, decide_eq_true_eq]
    rintro rfl
    exact clean member

theorem inside_fits {size position length index : Nat} (fits : position + length < size) (inside : index < length) :
    position + index < size :=
  Nat.lt_trans (Nat.add_lt_add_left inside position) fits

/-- What a copy from a position on leaves in the array. -/
structure Copied {size : Nat} (before after : Fin size → UInt8) (position : Nat) (source : List UInt8) : Prop where
  fits : position + source.length < size
  bytes : ∀ index (inside : index < source.length), after ⟨position + index, inside_fits fits inside⟩ = source[index]
  terminated : after ⟨position + source.length, fits⟩ = 0
  front : ∀ index : Fin size, index.val < position → after index = before index
  back : ∀ index : Fin size, position + source.length < index.val → after index = before index

theorem strCopyFrom_copied {size : Nat} {before after : Fin size → UInt8} {position : Nat} {source : List UInt8}
    (clean : 0 ∉ source) (result : strCopyFrom before position source = .ok after) :
    Copied before after position source := by
  induction source generalizing before position with
  | nil =>
    unfold strCopyFrom at result
    split at result
    next inside =>
      cases result
      refine ⟨inside, by simp, by simp, ?_, ?_⟩
      · intro index early
        exact Function.update_of_ne (by simp only [ne_eq, Fin.ext_iff]; omega) _ _
      · intro index late
        simp only [List.length_nil] at late
        exact Function.update_of_ne (by simp only [ne_eq, Fin.ext_iff]; omega) _ _
    next => cases result
  | cons byte source ih =>
    obtain ⟨nonzero, rest⟩ := not_or.mp (fun zero => clean (List.mem_cons.mpr zero))
    unfold strCopyFrom at result
    split at result
    next inside =>
      rw [if_neg (Ne.symm nonzero)] at result
      have copied := ih rest result
      have room := copied.fits
      refine ⟨by simp only [List.length_cons]; omega, ?_, ?_, ?_, ?_⟩
      · intro index within
        cases index with
        | zero =>
          rw [copied.front _ (by simp)]
          simp
        | succ index =>
          have byte := copied.bytes index (by simpa using within)
          simp only [List.getElem_cons_succ, ← byte]
          congr 2
          omega
      · rw [← copied.terminated]
        congr 2
        simp only [List.length_cons]
        omega
      · intro index early
        rw [copied.front index (by omega)]
        exact Function.update_of_ne (by simp only [ne_eq, Fin.ext_iff]; omega) _ _
      · intro index late
        simp only [List.length_cons] at late
        rw [copied.back index (by omega)]
        exact Function.update_of_ne (by simp only [ne_eq, Fin.ext_iff]; omega) _ _
    next => cases result

/-- A copied string fits its array with its terminator, and the array holds it. -/
theorem strCopy_text {size : Nat} {before after : Fin size → UInt8} {source : List UInt8} (clean : 0 ∉ source)
    (result : strCopy before source = .ok after) : source.length < size ∧ text after = source := by
  have copied := strCopyFrom_copied clean result
  have fits : source.length < size := by simpa using copied.fits
  refine ⟨fits, text_eq fits ?_ ?_ clean⟩
  · intro index inside
    simpa using copied.bytes index inside
  · simpa using copied.terminated

theorem strCopyFrom_returns {size : Nat} (before : Fin size → UInt8) {position : Nat} {source : List UInt8}
    (fits : position + source.length < size) : ∃ after, strCopyFrom before position source = .ok after := by
  induction source generalizing before position with
  | nil =>
    simp only [strCopyFrom]
    exact ⟨_, dif_pos (by simpa using fits)⟩
  | cons byte source ih =>
    simp only [List.length_cons] at fits
    simp only [strCopyFrom]
    rw [dif_pos (by omega)]
    split
    · exact ⟨_, rfl⟩
    · exact ih _ (by omega)

/-- A string that is shorter than the array is copied. -/
theorem strCopy_returns {size : Nat} (before : Fin size → UInt8) {source : List UInt8} (fits : source.length < size) :
    ∃ after, strCopy before source = .ok after :=
  strCopyFrom_returns before (by omega)

/-- A longer one is written past the end of the array. -/
theorem strCopyFrom_long {size : Nat} (before : Fin size → UInt8) {position : Nat} {source : List UInt8}
    (clean : 0 ∉ source)
    (long : size ≤ position + source.length) : strCopyFrom before position source = .error .undefined := by
  induction source generalizing before position with
  | nil =>
    simp only [strCopyFrom]
    exact dif_neg (by simpa using long)
  | cons byte source ih =>
    obtain ⟨nonzero, clean⟩ := not_or.mp (mt List.mem_cons.mpr clean)
    rw [List.length_cons] at long
    simp only [strCopyFrom]
    split
    · rw [if_neg (Ne.symm nonzero)]
      exact ih _ clean (by omega)
    · rfl

theorem strCopy_long {size : Nat} {before : Fin size → UInt8} {source : List UInt8} (clean : 0 ∉ source)
    (long : size ≤ source.length) : strCopy before source = .error .undefined :=
  strCopyFrom_long before clean (by omega)

private theorem strCopyFrom_terminated {size : Nat} {before after : Fin size → UInt8} {position : Nat}
    {source : List UInt8}
    (result : strCopyFrom before position source = .ok after) : ∃ index, after index = 0 := by
  induction source generalizing before position with
  | nil =>
    unfold strCopyFrom at result
    split at result
    next inside =>
      cases result
      exact ⟨⟨position, inside⟩, Function.update_self ..⟩
    next => cases result
  | cons byte source ih =>
    unfold strCopyFrom at result
    split at result
    next inside =>
      split at result
      next zero =>
        cases result
        exact ⟨⟨position, inside⟩, (Function.update_self ..).trans zero⟩
      next => exact ih result
    next => cases result

/-- The terminator is inside of the array. -/
def Terminated {size : Nat} (array : Fin size → UInt8) : Prop := (text array).length < size

theorem strCopy_short {size : Nat} {before after : Fin size → UInt8} {source : List UInt8}
    (result : strCopy before source = .ok after) : (text after).length < size := by
  obtain ⟨index, zero⟩ := strCopyFrom_terminated result
  apply Nat.lt_of_le_of_lt _ index.isLt
  by_contra long
  have inside : index.val < (text after).length := by omega
  have start : (text after)[index.val] = after index := by
    have same := (List.takeWhile_prefix (l := List.ofFn after) (p := (· ≠ 0))).getElem inside
    rw [List.getElem_ofFn] at same
    exact same
  have nonzero := List.mem_takeWhile_imp (List.getElem_mem inside)
  rw [start, zero] at nonzero
  simp at nonzero

end Kernix.Proofs
