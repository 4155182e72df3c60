import Mathlib.Data.Nat.ModEq
import Mathlib.Algebra.BigOperators.Group.List.Basic

/-! One's-complement arithmetic on words whose largest value is `top`. A carry out
of a word is added to its low end, so a sum is known modulo `top`, and the two
words for zero are told apart by whether anything was added at all. -/

namespace OnesComplement

/-- The sum of two words with the carry added at the low end. -/
def add (top left right : Nat) : Nat := (left + right) % (top + 1) + (left + right) / (top + 1)

/-- The sum of a list of words. -/
def sum (top : Nat) (words : List Nat) : Nat := words.foldl (add top) 0

def complement (top word : Nat) : Nat := top - word

/-- The word that a number of any size is folded to. -/
def residue (top number : Nat) : Nat := if number = 0 then 0 else (number - 1) % top + 1

/-- What one fold of the carry keeps of a number. -/
structure Folds (top number word : Nat) : Prop where
  congruent : word ≡ number [MOD top]
  zero : word = 0 ↔ number = 0

variable {top number word : Nat}

theorem Folds.refl (top number : Nat) : Folds top number number := ⟨rfl, Iff.rfl⟩

theorem Folds.trans {middle : Nat} (left : Folds top number middle) (right : Folds top middle word) :
    Folds top number word :=
  ⟨right.congruent.trans left.congruent, right.zero.trans left.zero⟩

theorem Folds.add_right (folds : Folds top number word) (more : Nat) : Folds top (number + more) (word + more) := by
  refine ⟨folds.congruent.add_right more, ?_⟩
  have zero := folds.zero
  omega

/-- Adding the carry at the low end is a fold. -/
theorem folds_carry (top number : Nat) : Folds top number (number % (top + 1) + number / (top + 1)) := by
  have split := Nat.mod_add_div number (top + 1)
  constructor
  · have lifted : number % (top + 1) + number / (top + 1) + top * (number / (top + 1)) ≡
        number % (top + 1) + number / (top + 1) [MOD top] := by
      rw [Nat.ModEq, Nat.add_mul_mod_self_left]
    refine lifted.symm.trans ?_
    rw [Nat.add_assoc, Nat.add_comm (number / (top + 1)), ← Nat.succ_mul, split]
  · constructor
    · intro zero
      rw [← split, (Nat.add_eq_zero_iff.mp zero).1, (Nat.add_eq_zero_iff.mp zero).2, Nat.mul_zero]
    · rintro rfl
      simp

theorem residue_le (positive : 0 < top) (number : Nat) : residue top number ≤ top := by
  unfold residue
  split
  · exact Nat.zero_le top
  · exact Nat.mod_lt _ positive

theorem folds_residue (top number : Nat) : Folds top number (residue top number) := by
  unfold residue
  split
  case isTrue zero =>
    rw [zero]
    exact Folds.refl top 0
  case isFalse nonzero =>
    refine ⟨?_, by omega⟩
    have shifted : (number - 1) % top + 1 ≡ number - 1 + 1 [MOD top] := (Nat.mod_modEq _ top).add_right 1
    rwa [Nat.sub_add_cancel (Nat.one_le_iff_ne_zero.mpr nonzero)] at shifted

/-- A number is folded to one word only. -/
theorem Folds.eq_residue (folds : Folds top number word) (positive : 0 < top) (bound : word ≤ top) :
    word = residue top number := by
  have other := folds_residue top number
  have same : word ≡ residue top number [MOD top] := folds.congruent.trans other.congruent.symm
  have limit := residue_le positive number
  by_cases zero : number = 0
  · rw [folds.zero.mpr zero, other.zero.mpr zero]
  · have left := mt folds.zero.mp zero
    have right := mt other.zero.mp zero
    have shifted : word - 1 ≡ residue top number - 1 [MOD top] := by
      apply Nat.ModEq.add_right_cancel' 1
      rwa [Nat.sub_add_cancel (Nat.one_le_iff_ne_zero.mpr left), Nat.sub_add_cancel (Nat.one_le_iff_ne_zero.mpr right)]
    have words := shifted.eq_of_lt_of_lt (by omega) (by omega)
    omega

theorem residue_eq (positive : 0 < top) (bound : number ≤ top) : residue top number = number :=
  ((Folds.refl top number).eq_residue positive bound).symm

/-- Folding before an addition changes nothing. -/
theorem residue_folds (positive : 0 < top) (folds : Folds top number word) : residue top word = residue top number :=
  (folds.trans (folds_residue top word)).eq_residue positive (residue_le positive word)

/-- Two words leave a carry of at most one, and then a low part below `top`. -/
theorem add_le {left right : Nat} (lower : left ≤ top) (upper : right ≤ top) : add top left right ≤ top := by
  unfold add
  by_cases carry : left + right < top + 1
  · rw [Nat.mod_eq_of_lt carry, Nat.div_eq_of_lt carry]
    omega
  · have wrapped : (left + right) % (top + 1) = left + right - (top + 1) := by
      rw [Nat.mod_eq_sub_mod (by omega), Nat.mod_eq_of_lt (by omega)]
    have one : (left + right) / (top + 1) = 1 := Nat.div_eq_of_lt_le (by omega) (by omega)
    rw [wrapped, one]
    omega

/-- The sum of the words is their sum as numbers, folded at the end. -/
theorem sum_eq_residue (positive : 0 < top) {words : List Nat} (bound : ∀ word ∈ words, word ≤ top) :
    sum top words = residue top words.sum := by
  have general : ∀ start ≤ top, words.foldl (add top) start = residue top (start + words.sum) := by
    induction words with
    | nil =>
      intro start inside
      rw [List.foldl_nil, List.sum_nil, Nat.add_zero, residue_eq positive inside]
    | cons word words ih =>
      intro start inside
      have fits := bound word List.mem_cons_self
      have next := ih (fun other member => bound other (List.mem_cons_of_mem _ member)) _ (add_le inside fits)
      rw [List.foldl_cons, next, List.sum_cons, ← Nat.add_assoc]
      exact residue_folds positive ((folds_carry top (start + word)).add_right words.sum)
  have total := general 0 (Nat.zero_le top)
  rwa [Nat.zero_add] at total

/-- A sum together with its complement is folded to the largest word. -/
theorem residue_complement (positive : 0 < top) (number : Nat) :
    residue top (number + complement top (residue top number)) = top := by
  have bound := residue_le positive number
  refine (Folds.eq_residue ⟨?_, ?_⟩ positive (Nat.le_refl top)).symm
  · have pair : residue top number + complement top (residue top number) = top := Nat.add_sub_cancel' bound
    have congruent := (folds_residue top number).congruent.add_right (complement top (residue top number))
    rwa [pair] at congruent
  · have zero := (folds_residue top number).zero
    unfold complement
    omega

end OnesComplement
