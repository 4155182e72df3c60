import Mathlib.Data.List.Basic

/-! Resources that are taken and given back, such as blocks of a heap or open files. What is
given back without being in use is counted as a fault. -/

/-- What is in use, the last taken first, and the number of faults. -/
structure Holdings (ρ : Type) where
  held : List ρ
  faults : Nat

namespace Holdings
variable {ρ : Type} {holdings : Holdings ρ} {item other : ρ}

def add (holdings : Holdings ρ) (item : ρ) : Holdings ρ := { holdings with held := item :: holdings.held }

/-- Only what is not in use can be had. -/
def take [DecidableEq ρ] (holdings : Holdings ρ) (item : ρ) : Option ρ × Holdings ρ :=
  if item ∈ holdings.held then (none, holdings) else (some item, holdings.add item)

def give [DecidableEq ρ] (holdings : Holdings ρ) (item : ρ) : Holdings ρ :=
  if item ∈ holdings.held then { holdings with held := holdings.held.erase item }
  else { holdings with faults := holdings.faults + 1 }

variable [DecidableEq ρ]

theorem take_cases (holdings : Holdings ρ) (item : ρ) :
    item ∈ holdings.held ∧ holdings.take item = (none, holdings) ∨
      item ∉ holdings.held ∧ holdings.take item = (some item, holdings.add item) := by
  unfold take
  by_cases used : item ∈ holdings.held
  · exact .inl ⟨used, if_pos used⟩
  · exact .inr ⟨used, if_neg used⟩

/-- What was taken last and is given back leaves what there was. -/
@[simp] theorem give_add (holdings : Holdings ρ) (item : ρ) : (holdings.add item).give item = holdings := by
  simp [give, add]

/-- What was taken before the last is given back from below it. -/
theorem give_under (differ : item ≠ other) : ((holdings.add item).add other).give item = holdings.add other := by
  have member : item ∈ ((holdings.add item).add other).held := by simp [add]
  rw [give, if_pos member]
  simp [add, List.erase_cons_tail, Ne.symm differ]

/-- Something in use is given back without a fault. -/
theorem give_held (used : item ∈ holdings.held) :
    holdings.give item = { holdings with held := holdings.held.erase item } :=
  if_pos used

end Holdings
