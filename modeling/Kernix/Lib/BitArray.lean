import Mathlib.Algebra.GroupWithZero.Nat
import Mathlib.Logic.Function.Basic

/-! A bit array packed into bytes, the least significant bit of a byte first. -/

namespace BitArray

def test (bytes : Nat → UInt8) (index : Nat) : Bool := (bytes (index / 8)).toBitVec.getLsbD (index % 8)

def set (bytes : Nat → UInt8) (index : Nat) : Nat → UInt8 :=
  Function.update bytes (index / 8) (bytes (index / 8) ||| 1 <<< UInt8.ofNat (index % 8))

def clear (bytes : Nat → UInt8) (index : Nat) : Nat → UInt8 :=
  Function.update bytes (index / 8) (bytes (index / 8) &&& ~~~(1 <<< UInt8.ofNat (index % 8)))

private theorem mask_bit : ∀ bit other : Fin 8,
    ((1 : UInt8) <<< UInt8.ofNat bit.val).toBitVec.getLsbD other.val = decide (other = bit) := by
  decide

/-- The mask of an index, seen at another index of the same byte. -/
private theorem mask_index {index other : Nat} (same : other / 8 = index / 8) :
    ((1 : UInt8) <<< UInt8.ofNat (index % 8)).toBitVec.getLsbD (other % 8) = decide (other = index) := by
  have bit := mask_bit ⟨index % 8, Nat.mod_lt _ (by decide)⟩ ⟨other % 8, Nat.mod_lt _ (by decide)⟩
  rw [bit, decide_eq_decide, Fin.mk.injEq]
  omega

/-- Setting a bit changes that bit and no other. -/
theorem test_set (bytes : Nat → UInt8) (index other : Nat) :
    test (set bytes index) other = (decide (other = index) || test bytes other) := by
  by_cases same : other / 8 = index / 8
  · simp only [test, set, same, Function.update_self, UInt8.toBitVec_or, BitVec.getLsbD_or, mask_index same]
    exact Bool.or_comm _ _
  · have apart : other ≠ index := fun equal => same (by rw [equal])
    simp [test, set, Function.update_of_ne same, apart]

/-- Clearing a bit changes that bit and no other. -/
theorem test_clear (bytes : Nat → UInt8) (index other : Nat) :
    test (clear bytes index) other = (!decide (other = index) && test bytes other) := by
  by_cases same : other / 8 = index / 8
  · have inside : other % 8 < 8 := Nat.mod_lt _ (by decide)
    simp only [test, clear, same, Function.update_self, UInt8.toBitVec_and, UInt8.toBitVec_not, BitVec.getLsbD_and,
      BitVec.getLsbD_not, mask_index same, inside, decide_true, Bool.true_and]
    exact Bool.and_comm _ _
  · have apart : other ≠ index := fun equal => same (by rw [equal])
    simp [test, clear, Function.update_of_ne same, apart]

end BitArray
