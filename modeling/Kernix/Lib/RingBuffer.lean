import Mathlib.Data.Fin.Basic
import Mathlib.Data.ZMod.Defs
import Mathlib.Data.List.ReduceOption
import Mathlib.Logic.Function.Basic

/-! Ring buffers: a first slot, a count and a free slot describe the queue whose
items stand in consecutive slots around the ring. -/

namespace RingBuffer
universe u
variable {α : Type u} {capacity : Nat} [NeZero capacity]

/-- The values of `count` slots from `start` on, around the ring. -/
def contents {β : Type u} (slots : Fin capacity → β) (start : Fin capacity) (count : Nat) : List β :=
  (List.range count).map fun offset => slots (start + Fin.ofNat capacity offset)

/-- The slots hold exactly `items`, and `stop` is the slot behind the last. -/
structure Holds (slots : Fin capacity → Option α) (start stop : Fin capacity) (count : Nat) (items : List α) :
    Prop where
  contents : contents slots start count = items.map some
  stop : stop = start + Fin.ofNat capacity count
  fits : count ≤ capacity

@[simp] theorem contents_length {β : Type u} (slots : Fin capacity → β) (start : Fin capacity) (count : Nat) :
    (contents slots start count).length = count := by
  simp [contents]

theorem offset_succ (start : Fin capacity) (offset : Nat) :
    start + Fin.ofNat capacity (offset + 1) = start + 1 + Fin.ofNat capacity offset := by
  apply Fin.ext
  simp only [Fin.val_add, Fin.val_ofNat, Fin.val_one', Nat.add_mod_mod, Nat.mod_add_mod]
  congr 1
  omega

theorem offset_add_one (start : Fin capacity) (offset : Nat) :
    start + Fin.ofNat capacity offset + 1 = start + Fin.ofNat capacity (offset + 1) := by
  rw [offset_succ]
  exact add_right_comm _ _ _

/-- Within one turn different offsets are different slots. -/
theorem offset_ne (start : Fin capacity) {left right : Nat} (less : left < right) (bound : right < capacity) :
    start + Fin.ofNat capacity left ≠ start + Fin.ofNat capacity right := by
  intro same
  have offsets := congrArg Fin.val (add_left_cancel same)
  simp only [Fin.val_ofNat] at offsets
  rw [Nat.mod_eq_of_lt (less.trans bound), Nat.mod_eq_of_lt bound] at offsets
  omega

theorem contents_front {β : Type u} (slots : Fin capacity → β) (start : Fin capacity) (count : Nat) :
    contents slots start (count + 1) = slots start :: contents slots (start + 1) count := by
  unfold contents
  rw [List.range_succ_eq_map, List.map_cons, List.map_map]
  congr 1
  · congr 1
    apply Fin.ext
    simp
  · apply List.map_congr_left
    intro offset _
    simp only [Function.comp_apply]
    rw [← offset_succ]

theorem contents_back {β : Type u} (slots : Fin capacity → β) (start : Fin capacity) (count : Nat) :
    contents slots start (count + 1) = contents slots start count ++ [slots (start + Fin.ofNat capacity count)] := by
  simp [contents, List.range_succ]

/-- Writing a slot that is not in use changes nothing. -/
theorem contents_update {β : Type u} (slots : Fin capacity → β) (start slot : Fin capacity) (count : Nat) (value : β)
    (outside : ∀ offset < count, start + Fin.ofNat capacity offset ≠ slot) :
    contents (Function.update slots slot value) start count = contents slots start count := by
  apply List.map_congr_left
  intro offset member
  exact Function.update_of_ne (outside offset (List.mem_range.mp member)) _ _

theorem Holds.empty (slots : Fin capacity → Option α) (start : Fin capacity) : Holds slots start start 0 [] where
  contents := rfl
  stop := by
    apply Fin.ext
    simp
  fits := Nat.zero_le _

section
variable {slots : Fin capacity → Option α} {start stop : Fin capacity} {count : Nat} {items : List α}

theorem Holds.length (holds : Holds slots start stop count items) : items.length = count := by
  have lengths := congrArg List.length holds.contents
  simpa using lengths.symm

/-- The items can be read off the slots. -/
theorem Holds.values (holds : Holds slots start stop count items) :
    (RingBuffer.contents slots start count).reduceOption = items := by
  rw [holds.contents]
  simp [List.reduceOption, List.filterMap_map]

theorem Holds.push (holds : Holds slots start stop count items) (room : count < capacity) (item : α) :
    Holds (Function.update slots stop (some item)) start (stop + 1) (count + 1) (items ++ [item]) where
  contents := by
    rw [contents_back, contents_update, holds.contents, holds.stop, Function.update_self]
    · simp
    · intro offset less
      rw [holds.stop]
      exact offset_ne start less room
  stop := by rw [holds.stop, offset_add_one]
  fits := room

theorem Holds.front {item : α} {rest : List α} (holds : Holds slots start stop count (item :: rest)) :
    slots start = some item := by
  have counted := holds.length
  have front := holds.contents
  rw [← counted, List.length_cons, contents_front] at front
  simpa using congrArg List.head? front

theorem Holds.pop {item : α} {rest : List α} (holds : Holds slots start stop count (item :: rest)) :
    Holds (Function.update slots start none) (start + 1) stop (count - 1) rest := by
  have counted := holds.length
  rw [List.length_cons] at counted
  subst counted
  have values := holds.contents
  rw [contents_front, List.map_cons] at values
  have fits := holds.fits
  refine ⟨?_, ?_, by omega⟩
  · rw [Nat.add_sub_cancel, contents_update]
    · exact (List.cons.inj values).2
    · intro offset less same
      rw [← offset_succ] at same
      apply offset_ne start (Nat.succ_pos offset) (by omega : offset + 1 < capacity)
      rw [same]
      apply Fin.ext
      simp
  · rw [holds.stop, Nat.add_sub_cancel, offset_succ]

end

section Heads
variable {β : Type u} {slots : Fin capacity → β} {start stop slot : Fin capacity}

/-- How many slots lie from one head to the other, around the ring. -/
def distance (start stop : Fin capacity) : Nat := (stop - start).val

/-- The values between two heads. A ring whose heads meet is empty. -/
def queue (slots : Fin capacity → β) (start stop : Fin capacity) : List β := contents slots start (distance start stop)

/-- A slot lies between the heads. -/
def Between (start stop slot : Fin capacity) : Prop := distance start slot < distance start stop

omit [NeZero capacity] in
theorem distance_lt (start stop : Fin capacity) : distance start stop < capacity := (stop - start).isLt

theorem offset_distance (start stop : Fin capacity) : start + Fin.ofNat capacity (distance start stop) = stop := by
  rw [distance, Fin.ofNat_val_eq_self, add_sub_cancel]

theorem distance_offset (start : Fin capacity) {count : Nat} (bound : count < capacity) :
    distance start (start + Fin.ofNat capacity count) = count := by
  rw [distance, add_sub_cancel_left, Fin.val_ofNat, Nat.mod_eq_of_lt bound]

@[simp] theorem distance_self (start : Fin capacity) : distance start start = 0 := by
  rw [distance, sub_self, Fin.val_zero]

theorem distance_inj (same : distance start slot = distance start stop) : slot = stop := by
  rw [← offset_distance start slot, same, offset_distance]

theorem distance_pos (apart : start ≠ stop) : 0 < distance start stop := by
  by_contra none
  have zero : distance start stop = 0 := by omega
  exact apart (distance_inj (by rw [distance_self, zero]))

/-- The rear head moves on, unless it would meet the front one. -/
theorem distance_push (room : stop + 1 ≠ start) : distance start (stop + 1) = distance start stop + 1 := by
  have bound := distance_lt start stop
  have moved : stop + 1 = start + Fin.ofNat capacity (distance start stop + 1) := by
    rw [← offset_add_one, offset_distance]
  by_cases last : distance start stop + 1 = capacity
  · rw [last] at moved
    have turn : (Fin.ofNat capacity capacity) = 0 := Fin.ext (by simp)
    rw [turn, add_zero] at moved
    exact absurd moved room
  · rw [moved, distance_offset start (by omega)]

/-- The front head moves on, unless it has met the rear one. -/
theorem distance_pop (apart : start ≠ stop) : distance start stop = distance (start + 1) stop + 1 := by
  have bound := distance_lt start stop
  have some := distance_pos apart
  have moved : stop = start + 1 + Fin.ofNat capacity (distance start stop - 1) := by
    rw [← offset_succ, Nat.sub_add_cancel some, offset_distance]
  have shorter : distance (start + 1) stop = distance start stop - 1 := by
    conv_lhs => rw [moved]
    exact distance_offset _ (by omega)
  omega

@[simp] theorem queue_empty (slots : Fin capacity → β) (start : Fin capacity) : queue slots start start = [] := by
  rw [queue, distance_self]
  rfl

theorem queue_push (room : stop + 1 ≠ start) (value : β) :
    queue (Function.update slots stop value) start (stop + 1) = queue slots start stop ++ [value] := by
  rw [queue, distance_push room, contents_back, offset_distance, Function.update_self, contents_update]
  · rfl
  · intro offset less same
    rw [← offset_distance start stop] at same
    exact offset_ne start less (distance_lt start stop) same

theorem queue_pop (apart : start ≠ stop) : queue slots start stop = slots start :: queue slots (start + 1) stop := by
  rw [queue, distance_pop apart, contents_front]
  rfl

theorem between_push (room : stop + 1 ≠ start) :
    Between start (stop + 1) slot ↔ Between start stop slot ∨ slot = stop := by
  rw [Between, Between, distance_push room, Nat.lt_succ_iff, Nat.le_iff_lt_or_eq]
  refine or_congr_right ⟨distance_inj, ?_⟩
  rintro rfl
  rfl

theorem between_pop (apart : start ≠ stop) : Between (start + 1) stop slot ↔ Between start stop slot ∧ slot ≠ start := by
  rw [Between, Between, distance_pop apart]
  by_cases first : start = slot
  · subst first
    refine iff_of_false ?_ fun both => both.2 rfl
    have bound := distance_lt (start + 1) stop
    have turn : distance (start + 1) start + 1 = capacity := by
      by_contra short
      have least := distance_lt (start + 1) start
      have moved := distance_offset start (by omega : distance (start + 1) start + 1 < capacity)
      rw [offset_succ, offset_distance, distance_self] at moved
      omega
    omega
  · rw [distance_pop first]
    have other : slot ≠ start := Ne.symm first
    simp only [Nat.add_lt_add_iff_right, ne_eq, other, not_false_eq_true, and_true]

end Heads

end RingBuffer
