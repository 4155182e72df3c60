import Mathlib.Algebra.Group.Int.Defs
import Mathlib.Algebra.GroupWithZero.Nat

/-! Arithmetic of the kernel's `u64` values and the ways a call can fail to return. -/

namespace Kernix

/-- Unsigned 64-bit arithmetic wraps. -/
def u64 (value : Nat) : Nat := value % 2 ^ 64

/-- The `u64` difference, which wraps when the second operand is larger. -/
def u64Sub (left right : Nat) : Nat := (left + 2 ^ 64 - right % 2 ^ 64) % 2 ^ 64

/-- Unsigned 32-bit arithmetic wraps as well. -/
def u32 (value : Nat) : Nat := value % 2 ^ 32

/-- A `u64` read as a signed `long`. -/
def i64 (value : Nat) : Int := if value < 2 ^ 63 then value else value - 2 ^ 64

/-- A number cut to an `int`. -/
def i32 (value : Nat) : Int := if value % 2 ^ 32 < 2 ^ 31 then (value % 2 ^ 32 : Nat) else (value % 2 ^ 32 : Nat) - 2 ^ 32

/-- A signed number converted to `u64`. -/
def u64OfInt (value : Int) : Nat := (value % 2 ^ 64).toNat

/-- How a call can end without returning to its caller. -/
inductive Stop where
  /-- `initiate_panic` with its message. -/
  | panic (message : String)
  /-- The `while (1) hlt` loops. -/
  | halted
  /-- An access outside the object it is made through, which C leaves undefined. -/
  | undefined
  deriving DecidableEq, Repr

/-- The value of an `int` expression. Outside the range of an `int` it is undefined. -/
def intValue (value : Int) : Except Stop Int :=
  if -2 ^ 31 ≤ value ∧ value < 2 ^ 31 then .ok value else .error .undefined

theorem u64_eq {value : Nat} (fits : value < 2 ^ 64) : u64 value = value := Nat.mod_eq_of_lt fits

theorem i64_eq {value : Nat} (fits : value < 2 ^ 63) : i64 value = value := if_pos fits

theorem i32_eq {value : Nat} (fits : value < 2 ^ 31) : i32 value = value := by
  rw [i32, Nat.mod_eq_of_lt (by omega), if_pos fits]

theorem u64OfInt_eq {value : Nat} (fits : value < 2 ^ 64) : u64OfInt (value : Int) = value := by
  unfold u64OfInt
  omega

theorem u64_lt (value : Nat) : u64 value < 2 ^ 64 := Nat.mod_lt _ (by decide)

theorem u64OfInt_lt (value : Int) : u64OfInt value < 2 ^ 64 := by
  unfold u64OfInt
  omega

theorem u64Sub_eq {left right : Nat} (bound : left < 2 ^ 64) (le : right ≤ left) :
    u64Sub left right = left - right := by
  unfold u64Sub
  omega

theorem u64Sub_lt (left right : Nat) : u64Sub left right < 2 ^ 64 := Nat.mod_lt _ (by decide)

/-- Adding an offset and taking it off again gives back any 64-bit value. -/
theorem u64Sub_offset {address : Nat} (bound : address < 2 ^ 64) (offset : Nat) :
    u64Sub (u64 (address + offset)) offset = address := by
  simp only [u64Sub, u64]
  omega

theorem intValue_eq {value result : Int} (returns : intValue value = .ok result) : result = value := by
  unfold intValue at returns
  split at returns
  · exact (Except.ok.inj returns).symm
  · cases returns

theorem intValue_returns {value : Int} (least : -2 ^ 31 ≤ value) (most : value < 2 ^ 31) : intValue value = .ok value :=
  if_pos ⟨least, most⟩

/-- A sequence that returns, split into its first part and the rest. -/
theorem bind_ok {α β : Type} {first : Except Stop α} {rest : α → Except Stop β} {value : β}
    (result : (first >>= rest) = .ok value) : ∃ middle, first = .ok middle ∧ rest middle = .ok value := by
  cases first with
  | error stop => cases result
  | ok middle => exact ⟨middle, rfl, result⟩

/-- A mapped result comes from a result. -/
theorem map_ok {α β : Type} {first : Except Stop α} {change : α → β} {value : β}
    (result : first.map change = .ok value) : ∃ middle, first = .ok middle ∧ change middle = value := by
  cases first with
  | error stop => cases result
  | ok middle =>
    cases result
    exact ⟨middle, rfl, rfl⟩

/-- Masking with a block of ones cuts off the bits below and above it. -/
theorem and_block (value width shift : Nat) :
    value &&& ((2 ^ width - 1) <<< shift) = value / 2 ^ shift % 2 ^ width * 2 ^ shift := by
  have scaled : value / 2 ^ shift % 2 ^ width * 2 ^ shift = ((value >>> shift) &&& (2 ^ width - 1)) <<< shift := by
    rw [Nat.and_two_pow_sub_one_eq_mod, Nat.shiftLeft_eq, Nat.shiftRight_eq_div_pow]
  rw [scaled]
  apply Nat.eq_of_testBit_eq
  intro bit
  simp only [Nat.testBit_and, Nat.testBit_shiftLeft, Nat.testBit_shiftRight, Nat.testBit_two_pow_sub_one]
  by_cases low : shift ≤ bit
  · rw [Nat.add_sub_cancel' low]
    simp [low]
  · simp [low]

end Kernix
