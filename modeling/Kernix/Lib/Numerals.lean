import Mathlib.Data.Nat.Digits.Lemmas

/-! Numbers as lists of digits, the lowest digit first. Zero has a digit as well. -/

namespace Numerals
variable {base : Nat}

def lowFirst (base n : Nat) : List Nat := if n = 0 then [0] else Nat.digits base n

/-- The lowest digit comes off, and others follow when something is left. -/
theorem lowFirst_step (large : 1 < base) (n : Nat) :
    lowFirst base n = n % base :: if n / base = 0 then [] else lowFirst base (n / base) := by
  unfold lowFirst
  by_cases zero : n = 0
  · simp [zero]
  · rw [if_neg zero, Nat.digits_def' large (Nat.pos_of_ne_zero zero)]
    split
    case isTrue last => rw [last, Nat.digits_zero]
    case isFalse => rfl

theorem lowFirst_ne_nil (large : 1 < base) (n : Nat) : lowFirst base n ≠ [] := by
  rw [lowFirst_step large]
  exact List.cons_ne_nil _ _

theorem lowFirst_lt (large : 1 < base) {n digit : Nat} (member : digit ∈ lowFirst base n) : digit < base := by
  unfold lowFirst at member
  split at member
  · rw [List.mem_singleton.mp member]
    omega
  · exact Nat.digits_lt_base large member

theorem ofDigits_lowFirst (n : Nat) : Nat.ofDigits base (lowFirst base n) = n := by
  unfold lowFirst
  split
  case isTrue zero => simp [zero]
  case isFalse => exact Nat.ofDigits_digits base n

theorem length_lowFirst_le (large : 1 < base) {n count : Nat} (some : 0 < count) (small : n < base ^ count) :
    (lowFirst base n).length ≤ count := by
  unfold lowFirst
  split
  · exact some
  · exact (Nat.digits_length_le_iff large n).mpr small

/-- No number but zero has a zero for its highest digit. -/
theorem lowFirst_leading {n : Nat} (zero : (lowFirst base n).getLast? = some 0) : lowFirst base n = [0] := by
  unfold lowFirst at zero ⊢
  split at zero
  case isTrue none => rw [if_pos none]
  case isFalse some =>
    have last := Nat.getLast_digit_ne_zero base some
    rw [List.getLast?_eq_getLast_of_ne_nil (Nat.digits_ne_nil_iff_ne_zero.mpr some)] at zero
    exact absurd (Option.some.inj zero) last

end Numerals
