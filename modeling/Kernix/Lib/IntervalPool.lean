import Mathlib.Algebra.GroupWithZero.Nat
import Mathlib.Order.Interval.Finset.Nat
import Mathlib.Data.Finset.Card
import Mathlib.Data.List.Basic

/-! A pool of numbered cells handed out in intervals. What is free and what is
held always make up the same territory, without overlap. -/

namespace IntervalPool

/-- The free cells and the intervals held, each a start and a length. -/
structure Pool where
  free : Finset Nat
  live : List (Nat × Nat)

def cells (interval : Nat × Nat) : Finset Nat := Finset.Ico interval.1 (interval.1 + interval.2)

theorem cells_card (interval : Nat × Nat) : (cells interval).card = interval.2 := by
  simp [cells]

/-- A pool hands out an interval of free cells, takes a held one back, or does nothing. -/
inductive Step : Pool → Pool → Prop where
  | refuse (pool : Pool) : Step pool pool
  | take {pool : Pool} {interval : Nat × Nat} (available : cells interval ⊆ pool.free) :
      Step pool ⟨pool.free \ cells interval, interval :: pool.live⟩
  | give {pool : Pool} {interval : Nat × Nat} {live : List (Nat × Nat)} (held : pool.live.Perm (interval :: live)) :
      Step pool ⟨pool.free ∪ cells interval, live⟩

structure Valid (pool : Pool) : Prop where
  apart : pool.live.Pairwise fun first second => Disjoint (cells first) (cells second)
  taken : ∀ interval ∈ pool.live, Disjoint (cells interval) pool.free

/-- Every cell that is free or held. -/
def territory (pool : Pool) : Finset Nat := pool.free ∪ pool.live.toFinset.biUnion cells

/-- The number of free cells and of cells held, counted per interval. -/
def total (pool : Pool) : Nat := pool.free.card + (pool.live.map Prod.snd).sum

theorem Step.valid {before after : Pool} (valid : Valid before) (moves : Step before after) : Valid after := by
  cases moves with
  | refuse => exact valid
  | take available =>
    constructor
    · refine List.Pairwise.cons ?_ valid.apart
      intro other member
      exact ((valid.taken other member).mono_right available).symm
    · intro other member
      rcases List.mem_cons.mp member with rfl | member
      · exact Finset.disjoint_sdiff
      · exact (valid.taken other member).mono_right Finset.sdiff_subset
  | give held =>
    have apart := held.pairwise valid.apart (fun disjoint => disjoint.symm)
    obtain ⟨clear, rest⟩ := List.pairwise_cons.mp apart
    refine ⟨rest, fun other member => ?_⟩
    refine Finset.disjoint_union_right.mpr ⟨?_, (clear other member).symm⟩
    exact valid.taken other (held.mem_iff.mpr (List.mem_cons_of_mem _ member))

theorem Step.territory {before after : Pool} (moves : Step before after) :
    territory after = territory before := by
  cases moves with
  | refuse => rfl
  | take available =>
    simp only [IntervalPool.territory, List.toFinset_cons, Finset.biUnion_insert]
    rw [← Finset.union_assoc, Finset.sdiff_union_of_subset available]
  | give held =>
    simp only [IntervalPool.territory, List.toFinset_eq_of_perm _ _ held, List.toFinset_cons, Finset.biUnion_insert]
    rw [Finset.union_assoc]

theorem Step.total {before after : Pool} (valid : Valid before) (moves : Step before after) :
    total after = total before := by
  cases moves with
  | refuse => rfl
  | take available =>
    have smaller := Finset.card_sdiff_add_card_eq_card available
    simp only [IntervalPool.total, List.map_cons, List.sum_cons, cells_card] at smaller ⊢
    omega
  | give held =>
    have disjoint := valid.taken _ (held.mem_iff.mpr List.mem_cons_self)
    have larger := Finset.card_union_of_disjoint disjoint.symm
    have counts := (held.map Prod.snd).sum_eq
    simp only [IntervalPool.total, List.map_cons, List.sum_cons, cells_card] at larger counts ⊢
    omega

end IntervalPool
