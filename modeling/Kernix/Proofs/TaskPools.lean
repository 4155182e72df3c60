import Kernix.Proofs.TaskAccounts
import Mathlib.Data.Finset.Card

/-! The two pools that a new task is made from. A slot is used again when its task has been
terminated, a stack never is, so the stacks can run out while there are free slots. -/

namespace Kernix.Proofs
open SchedulerState Transition

variable {cpuCount : Nat}

/-- A byte of `task_stacks` belongs to the stack area that the task's record describes. -/
def InStack (task : Task) (byte : Int) : Prop :=
  ∃ start, task.stackStart = some start ∧ 8 * start ≤ byte ∧ byte < 8 * start + task.stackCapacity

/-- Every live task has a stack area inside `task_stacks`, and shares it with no other live task. -/
structure OwnStacks (observed : Observed cpuCount) : Prop where
  placed : ∀ task, observed.life task = .live → ∃ start, (observed.state.taskPool task).stackStart = some start ∧
    0 ≤ start ∧ 8 * start + (observed.state.taskPool task).stackCapacity ≤ 8 * (maxTaskCount * stackWords)
  apart : ∀ task other byte, observed.life task = .live → observed.life other = .live →
    InStack (observed.state.taskPool task) byte → InStack (observed.state.taskPool other) byte → task = other

/-- A call that returns `NULL` finds all slots with live tasks, and changes nothing. -/
def RefusesWhenFull (before after : Observed cpuCount) : Prop :=
  (∀ task, before.life task = .live) ∧ after.state = before.state

def liveSlots (observed : Observed cpuCount) : Finset TaskPointer := {task | observed.life task = .live}

/-- A new task asks for no more than one of the `task_stacks`, and either there is one left
or every task that ever got one is still live. -/
def SparesPools (observed : Observed cpuCount) (op : SchedulerOp) : Prop :=
  ∀ birth ∈ birthOf observed.state op, birth.stackSize ≤ 8 * stackWords ∧
    (observed.state.stackIndex < maxTaskCount ∨ (liveSlots observed).card = observed.state.stackIndex)

/-- The slots that a task was ever made in. -/
def usedSlots (observed : Observed cpuCount) : Finset TaskPointer :=
  {task | (observed.state.taskPool task).identifier ≠ 0}

/-- Live tasks have different ones of the stacks given out so far, and no more slots than stacks are used. -/
structure Stacked (observed : Observed cpuCount) : Prop where
  stack : ∀ task, observed.life task = .live → ∃ index < observed.state.stackIndex,
    (observed.state.taskPool task).stackStart = some ((index * stackWords : Nat) : Int) ∧
    (observed.state.taskPool task).stackCapacity ≤ 8 * stackWords
  apart : ∀ task other, observed.life task = .live → observed.life other = .live →
    (observed.state.taskPool task).stackStart = (observed.state.taskPool other).stackStart → task = other
  used : (usedSlots observed).card ≤ observed.state.stackIndex

variable {before after observed : Observed cpuCount} {apicId : Nat}

theorem stacked_booted (cpuList : Fin cpuCount → CpuInfo) : Stacked (booted cpuList) where
  stack _ impossible := by cases impossible
  apart _ _ impossible := by cases impossible
  used := by
    have vacant : usedSlots (booted cpuList) = ∅ := Finset.filter_eq_empty_iff.mpr fun _ _ named => named rfl
    rw [vacant]
    exact Nat.zero_le _

/-- The stacks of live tasks stay where they are as long as slots are only closed. -/
theorem Stacked.kept (stacked : Stacked before) (live : ∀ task, after.life task = .live → before.life task = .live)
    (identifier : ∀ task, (after.state.taskPool task).identifier = (before.state.taskPool task).identifier)
    (stackStart : ∀ task, (after.state.taskPool task).stackStart = (before.state.taskPool task).stackStart)
    (stackCapacity : ∀ task, (after.state.taskPool task).stackCapacity = (before.state.taskPool task).stackCapacity)
    (stackIndex : after.state.stackIndex = before.state.stackIndex) : Stacked after where
  stack task alive := by
    rw [stackIndex, stackStart, stackCapacity]
    exact stacked.stack task (live task alive)
  apart task other alive otherAlive same := by
    rw [stackStart, stackStart] at same
    exact stacked.apart task other (live task alive) (live other otherAlive) same
  used := by
    unfold usedSlots
    simp only [identifier, stackIndex]
    exact stacked.used

theorem Stacked.opened (stacked : Stacked before) {birth : Birth} {task : TaskPointer} {target : Fin cpuCount}
    (opens : Opens before.state apicId birth task target after.state)
    (start : birth.stackStart = before.state.stackIndex * stackWords) (size : birth.stackSize ≤ 8 * stackWords)
    (recorded : after.life = Function.update before.life task .live) : Stacked after := by
  have older {other : TaskPointer} (different : other ≠ task) (live : after.life other = .live) :
      before.life other = .live := by
    rw [recorded, Function.update_of_ne different] at live
    exact live
  -- the stack of the new task lies behind those of all others
  have fresh {other : TaskPointer} (different : other ≠ task) (live : after.life other = .live) :
      (after.state.taskPool other).stackStart ≠ (after.state.taskPool task).stackStart := by
    obtain ⟨index, given, found, _⟩ := stacked.stack other (older different live)
    rw [opens.others other different, opens.stackStart, found, start]
    intro same
    have equal : index * stackWords = before.state.stackIndex * stackWords := by
      exact Int.ofNat.inj (Option.some.inj same)
    unfold stackWords at equal
    omega
  refine ⟨fun other live => ?_, fun first second live alive same => ?_, ?_⟩
  · rw [opens.stackIndex]
    by_cases new : other = task
    · rw [new, opens.stackStart, opens.stackCapacity, start]
      exact ⟨before.state.stackIndex, by omega, rfl, size⟩
    · obtain ⟨index, given, found⟩ := stacked.stack other (older new live)
      rw [opens.others other new]
      exact ⟨index, by omega, found⟩
  · by_cases new : first = task
    · by_cases young : second = task
      · rw [new, young]
      · rw [new] at same
        exact absurd same.symm (fresh young alive)
    · by_cases young : second = task
      · rw [young] at same
        exact absurd same (fresh new live)
      · rw [opens.others first new, opens.others second young] at same
        exact stacked.apart first second (older new live) (older young alive) same
  · have grown : usedSlots after ⊆ insert task (usedSlots before) := by
      intro other named
      by_cases new : other = task
      · rw [new]
        exact Finset.mem_insert_self task _
      · apply Finset.mem_insert_of_mem
        simp only [usedSlots, Finset.mem_filter, Finset.mem_univ, true_and] at named ⊢
        rw [opens.others other new] at named
        exact named
    rw [opens.stackIndex]
    calc
      (usedSlots after).card ≤ (insert task (usedSlots before)).card := Finset.card_le_card grown
      _ ≤ (usedSlots before).card + 1 := Finset.card_insert_le _ _
      _ ≤ before.state.stackIndex + 1 := Nat.succ_le_succ stacked.used

theorem stacked_reachable {cpuList : Fin cpuCount → CpuInfo}
    (reached : Reachable (· = booted cpuList) (WatchedStep SparesPools) observed) :
    Lives observed.state observed.life ∧ Stacked observed := by
  apply watched_invariant Stacked (stacked_booted cpuList) ?_ reached
  intro before after apicId op created stacked lives admitted account recorded
  cases account with
  | left leaves lasting =>
    rw [record_left before.life lasting] at recorded
    apply stacked.kept (fun task live => by rw [← recorded]; exact live) _ _ _ leaves.stackIndex
    all_goals
      intro task
      rw [leaves.task]
  | @opened _ birth _ _ _ asked opens =>
    have start : birth.stackStart = before.state.stackIndex * stackWords := by
      cases op with
      | createNewTask | initializeScheduler | initializeApScheduler =>
        cases asked
        rfl
      | _ => cases asked
    exact stacked.opened opens start (admitted birth asked).1 (recorded.trans (record_opened before.life asked _))
  | @closed task _ leaves =>
    apply stacked.kept _ _ _ _ (leaves.stackIndex.trans (markTerminated_numbers before.state task).2)
    · intro other live
      rw [recorded, record, Function.update_apply] at live
      split at live
      next => cases live
      next => exact live
    all_goals
      intro other
      rw [leaves.task, markTerminated_taskPool, updateTask_taskPool]
      split
      next same =>
        subst same
        rfl
      next => rfl

/-- As long as there are stacks left, there are slots left. -/
theorem Stacked.room (stacked : Stacked observed) (left : observed.state.stackIndex < maxTaskCount) :
    freeSlot observed.state ≠ none := by
  intro full
  have named : usedSlots observed = Finset.univ := by
    apply Finset.filter_true_of_mem
    intro task _ zero
    have taken := List.find?_eq_none.mp full task (List.mem_finRange task)
    simp [zero] at taken
  have used := stacked.used
  rw [named, Finset.card_univ, Fintype.card_fin] at used
  omega

theorem Stacked.ownStacks (stacked : Stacked observed) (bound : observed.state.stackIndex ≤ maxTaskCount) :
    OwnStacks observed where
  placed task live := by
    obtain ⟨index, given, start, size⟩ := stacked.stack task live
    refine ⟨_, start, Int.natCast_nonneg _, ?_⟩
    simp only [stackWords, maxTaskCount] at *
    omega
  apart task other byte live alive inside shared := by
    obtain ⟨index, _, start, size⟩ := stacked.stack task live
    obtain ⟨rank, _, origin, extent⟩ := stacked.stack other alive
    obtain ⟨first, found, low, high⟩ := inside
    obtain ⟨second, same, below, above⟩ := shared
    rw [start] at found
    rw [origin] at same
    cases found
    cases same
    apply stacked.apart task other live alive
    rw [start, origin]
    simp only [stackWords] at *
    have equal : index = rank := by omega
    rw [equal]

/-- With a stack left `create_new_task` does not fail, and without one there are 256 live tasks. -/
theorem Stacked.refuses (stacked : Stacked before) {name : List UInt8} {entry priority stackSize : Nat}
    (bound : before.state.stackIndex ≤ maxTaskCount)
    (admitted : SparesPools before (.createNewTask name entry priority stackSize))
    (called : Performs apicId (.createNewTask name entry priority stackSize) before none after) :
    RefusesWhenFull before after := by
  obtain ⟨same, full⟩ := createNewTask_none called.1
  have exhausted : maxTaskCount ≤ before.state.stackIndex := by
    by_contra left
    rcases full with noSlot | noStack
    · exact stacked.room (Nat.lt_of_not_le left) noSlot
    · exact left noStack
  refine ⟨fun task => ?_, same⟩
  rcases (admitted _ rfl).2 with left | every
  · omega
  · have whole : liveSlots before = Finset.univ := by
      apply Finset.eq_univ_of_card
      rw [every, Fintype.card_fin]
      omega
    have member : task ∈ liveSlots before := by
      rw [whole]
      exact Finset.mem_univ task
    exact (Finset.mem_filter.mp member).2

instance (observed : Observed cpuCount) (op : SchedulerOp) : Decidable (SparesPools observed op) :=
  inferInstanceAs (Decidable (∀ birth ∈ birthOf observed.state op, birth.stackSize ≤ 8 * stackWords ∧
    (observed.state.stackIndex < maxTaskCount ∨ (liveSlots observed).card = observed.state.stackIndex)))

/-- The stacks are gone once 256 tasks have been made, whatever became of them. -/
theorem createNewTask_exhausted {state : SchedulerState cpuCount} (exhausted : maxTaskCount ≤ state.stackIndex)
    (apicId : Nat) (name : List UInt8) (entry priority stackSize : Nat) :
    createNewTask state apicId name entry priority stackSize = .ok (state, none) := by
  unfold createNewTask
  simp only
  split
  next => rfl
  next => rw [if_pos exhausted]

/-- Tasks that are created and terminated one after the other, behind `initialize_scheduler`. -/
def shortLived (tasks : Nat) : List (Nat × SchedulerOp) :=
  (0, .initializeScheduler 0x1000) :: (List.replicate tasks
    [(0, .createNewTask (literal "worker") 0x2000 5 4096), (0, .terminateTask (some 1))]).flatten

end Kernix.Proofs
