import Kernix.Lib.RingBuffer
import Kernix.Processes.Scheduler
import Kernix.Lib.SlotList
import Mathlib.Data.List.FinRange

/-! The ready queues as bounded queues: what they hold in order, and what a push, a pop and
a pop by priority do to it. What a queue is for can be said without its ring: over whole
runs, the pushes that it has accepted come out again one after the other. -/

namespace Kernix

/-- The tasks of a queue, the oldest first. -/
def TaskQueue.tasks (queue : TaskQueue) : List TaskPointer :=
  (RingBuffer.contents queue.taskList queue.startIndex queue.itemCount).reduceOption

/-- The indices and the count describe the slots in use. -/
def TaskQueue.Filled (queue : TaskQueue) : Prop :=
  RingBuffer.Holds queue.taskList queue.startIndex queue.endIndex queue.itemCount queue.tasks

namespace Proofs

theorem filled_of_holds {queue : TaskQueue} {tasks : List TaskPointer}
    (holds : RingBuffer.Holds queue.taskList queue.startIndex queue.endIndex queue.itemCount tasks) :
    queue.Filled ∧ queue.tasks = tasks := by
  have same : queue.tasks = tasks := holds.values
  refine ⟨?_, same⟩
  unfold TaskQueue.Filled
  rw [same]
  exact holds

theorem initializeTaskQueue_filled : initializeTaskQueue.Filled :=
  (filled_of_holds (RingBuffer.Holds.empty _ _)).1

@[simp] theorem initializeTaskQueue_tasks : initializeTaskQueue.tasks = [] :=
  (filled_of_holds (RingBuffer.Holds.empty _ _)).2

theorem taskQueuePush_room {queue : TaskQueue} (filled : queue.Filled) (room : queue.tasks.length < maxTaskCount)
    (task : TaskPointer) :
    (taskQueuePush queue task).Filled ∧ (taskQueuePush queue task).tasks = queue.tasks ++ [task] := by
  have counted := filled.length
  have space : queue.itemCount < maxTaskCount := by omega
  unfold taskQueuePush
  rw [if_neg (by omega)]
  exact filled_of_holds (filled.push space task)

/-- A push on a full queue is ignored. -/
theorem taskQueuePush_full {queue : TaskQueue} (filled : queue.Filled) (full : maxTaskCount ≤ queue.tasks.length)
    (task : TaskPointer) : taskQueuePush queue task = queue := by
  have counted := filled.length
  unfold taskQueuePush
  rw [if_pos (by omega)]

theorem taskQueuePush_filled {queue : TaskQueue} (filled : queue.Filled) (task : TaskPointer) :
    (taskQueuePush queue task).Filled := by
  by_cases room : queue.tasks.length < maxTaskCount
  · exact (taskQueuePush_room filled room task).1
  · rw [taskQueuePush_full filled (by omega)]
    exact filled

theorem taskQueuePush_tasks {queue : TaskQueue} (filled : queue.Filled) (task : TaskPointer) :
    (taskQueuePush queue task).tasks =
      if queue.tasks.length < maxTaskCount then queue.tasks ++ [task] else queue.tasks := by
  split
  next room => exact (taskQueuePush_room filled room task).2
  next full => rw [taskQueuePush_full filled (by omega)]

theorem tasks_length_le {queue : TaskQueue} (filled : queue.Filled) : queue.tasks.length ≤ maxTaskCount := by
  rw [filled.length]
  exact filled.fits

theorem taskQueuePop_front {queue : TaskQueue} {task : TaskPointer} {rest : List TaskPointer} (filled : queue.Filled)
    (front : queue.tasks = task :: rest) :
    (taskQueuePop queue).1 = some task ∧ (taskQueuePop queue).2.Filled ∧ (taskQueuePop queue).2.tasks = rest := by
  unfold TaskQueue.Filled at filled
  rw [front] at filled
  have counted := filled.length
  unfold taskQueuePop
  rw [if_neg (by rw [← counted]; exact Nat.succ_ne_zero _)]
  exact ⟨filled.front, filled_of_holds filled.pop⟩

/-- `task` stands first in the lowest level that is not empty. -/
def Front (ready : Fin maxPriorityLevels → List TaskPointer) (level : Fin maxPriorityLevels) (task : TaskPointer)
    (rest : List TaskPointer) : Prop :=
  ready level = task :: rest ∧ ∀ lower < level, ready lower = []

theorem Front.unique {ready : Fin maxPriorityLevels → List TaskPointer} {level other : Fin maxPriorityLevels}
    {task another : TaskPointer} {rest remaining : List TaskPointer} (front : Front ready level task rest)
    (again : Front ready other another remaining) : level = other ∧ task = another := by
  have same : level = other := by
    rcases lt_trichotomy level other with below | same | above
    · cases (again.2 level below).symm.trans front.1
    · exact same
    · cases (front.2 other above).symm.trans again.1
  subst same
  have lists := front.1.symm.trans again.1
  exact ⟨rfl, (List.cons.inj lists).1⟩

private theorem popPriorityFrom_cases (queues : ReadyQueues) (filled : ∀ level, (queues level).Filled)
    (levels : List (Fin maxPriorityLevels)) (sorted : levels.Pairwise (· < ·))
    (skipped : ∀ level, level ∉ levels → (queues level).tasks = []) :
    (taskQueuePopPriorityFrom queues levels = (none, queues) ∧ ∀ level, (queues level).tasks = []) ∨
    ∃ level task rest, Front (fun level => (queues level).tasks) level task rest ∧
      taskQueuePopPriorityFrom queues levels =
        (some task, Function.update queues level (taskQueuePop (queues level)).2) := by
  induction levels with
  | nil => exact .inl ⟨rfl, fun level => skipped level (by simp)⟩
  | cons level levels ih =>
    have counted := (filled level).length
    rw [List.pairwise_cons] at sorted
    rw [taskQueuePopPriorityFrom]
    cases waiting : (queues level).tasks with
    | nil =>
      rw [waiting, List.length_nil] at counted
      rw [if_neg (by omega)]
      apply ih sorted.2
      intro other outside
      by_cases same : other = level
      · rw [same, waiting]
      · exact skipped other (by simp [same, outside])
    | cons task rest =>
      rw [waiting, List.length_cons] at counted
      rw [if_pos (by omega)]
      right
      refine ⟨level, task, rest, ⟨waiting, ?_⟩, ?_⟩
      · intro lower less
        apply skipped
        intro member
        rcases List.mem_cons.mp member with same | later
        · exact absurd same (ne_of_lt less)
        · exact absurd (sorted.1 lower later) (lt_asymm less)
      · rw [← (taskQueuePop_front (filled level) waiting).1]

/-- The pop takes the oldest task of the lowest level that is not empty, or none when all are. -/
theorem taskQueuePopPriority_cases (queues : ReadyQueues) (filled : ∀ level, (queues level).Filled) :
    (taskQueuePopPriority queues = (none, queues) ∧ ∀ level, (queues level).tasks = []) ∨
    ∃ level task rest, Front (fun level => (queues level).tasks) level task rest ∧
      taskQueuePopPriority queues =
        (some task, Function.update queues level (taskQueuePop (queues level)).2) := by
  apply popPriorityFrom_cases queues filled
  · exact List.pairwise_lt_finRange _
  · intro level outside
    exact absurd (List.mem_finRange level) outside

section Runs

/-- The operations on the ready queues of a CPU. -/
inductive QueueOp where
  | push (level : Fin maxPriorityLevels) (task : TaskPointer)
  | pop (level : Fin maxPriorityLevels)
  | popPriority

/-- One operation, with what it returns; a push returns nothing. -/
def queueStep (queues : ReadyQueues) : QueueOp → Option TaskPointer × ReadyQueues
  | .push level task => (none, Function.update queues level (taskQueuePush (queues level) task))
  | .pop level => ((taskQueuePop (queues level)).1, Function.update queues level (taskQueuePop (queues level)).2)
  | .popPriority => taskQueuePopPriority queues

/-- What the operations return, and the queues behind them. -/
def runQueues (queues : ReadyQueues) : List QueueOp → List (Option TaskPointer) × ReadyQueues
  | [] => ([], queues)
  | op :: ops =>
    let (first, queues) := queueStep queues op
    let (rest, queues) := runQueues queues ops
    (first :: rest, queues)

/-- The history of a CPU's queues: the pushes that each level has accepted, in their order,
and how many of them have been popped. -/
structure QueueHistory where
  accepted : Fin maxPriorityLevels → List TaskPointer
  popped : Fin maxPriorityLevels → Nat

namespace QueueHistory

def empty : QueueHistory := ⟨fun _ => [], fun _ => 0⟩

def waiting (history : QueueHistory) (level : Fin maxPriorityLevels) : List TaskPointer :=
  (history.accepted level).drop (history.popped level)

/-- A push is accepted while fewer than 256 tasks wait. -/
def push (history : QueueHistory) (level : Fin maxPriorityLevels) (task : TaskPointer) : QueueHistory :=
  if (history.waiting level).length < maxTaskCount then
    { history with accepted := Function.update history.accepted level (history.accepted level ++ [task]) }
  else history

/-- A pop returns the first accepted push that has not been popped. -/
def pop (history : QueueHistory) (level : Fin maxPriorityLevels) : Option TaskPointer × QueueHistory :=
  match (history.accepted level)[history.popped level]? with
  | none => (none, history)
  | some task => (some task, { history with popped := Function.update history.popped level (history.popped level + 1) })

/-- The lowest level at which a task waits. -/
def lowest (history : QueueHistory) : Option (Fin maxPriorityLevels) :=
  (List.finRange maxPriorityLevels).find? fun level => history.popped level < (history.accepted level).length

def step (history : QueueHistory) : QueueOp → Option TaskPointer × QueueHistory
  | .push level task => (none, history.push level task)
  | .pop level => history.pop level
  | .popPriority =>
    match history.lowest with
    | none => (none, history)
    | some level => history.pop level

def run (history : QueueHistory) : List QueueOp → List (Option TaskPointer) × QueueHistory
  | [] => ([], history)
  | op :: ops =>
    let (first, history) := history.step op
    let (rest, history) := history.run ops
    (first :: rest, history)

end QueueHistory

/-- The rings hold what waits in the history. -/
structure Follows (queues : ReadyQueues) (history : QueueHistory) : Prop where
  filled : ∀ level, (queues level).Filled
  waiting : ∀ level, (queues level).tasks = history.waiting level
  counted : ∀ level, history.popped level ≤ (history.accepted level).length

variable {queues : ReadyQueues} {history : QueueHistory}

theorem Follows.empty : Follows (fun _ => initializeTaskQueue) .empty where
  filled := fun _ => initializeTaskQueue_filled
  waiting := fun _ => initializeTaskQueue_tasks
  counted := fun _ => Nat.le_refl 0

theorem Follows.push (follows : Follows queues history) (level : Fin maxPriorityLevels) (task : TaskPointer) :
    Follows (Function.update queues level (taskQueuePush (queues level) task)) (history.push level task) := by
  have filled := follows.filled level
  have waiting := follows.waiting level
  unfold QueueHistory.push
  split
  next room =>
    obtain ⟨kept, longer⟩ := taskQueuePush_room filled (waiting ▸ room) task
    refine ⟨fun other => ?_, fun other => ?_, fun other => ?_⟩
    · rcases eq_or_ne other level with rfl | apart
      · rwa [Function.update_self]
      · rw [Function.update_of_ne apart]
        exact follows.filled other
    · rcases eq_or_ne other level with rfl | apart
      · rw [Function.update_self, longer, waiting]
        simp only [QueueHistory.waiting, Function.update_self]
        rw [List.drop_append_of_le_length (follows.counted other)]
      · simp only [QueueHistory.waiting, Function.update_of_ne apart]
        exact follows.waiting other
    · rcases eq_or_ne other level with rfl | apart
      · have counted := follows.counted other
        simp only [Function.update_self, List.length_append]
        omega
      · simp only [Function.update_of_ne apart]
        exact follows.counted other
  next full =>
    rw [taskQueuePush_full filled (by rw [waiting]; omega), Function.update_eq_self]
    exact follows

theorem Follows.pop (follows : Follows queues history) (level : Fin maxPriorityLevels) :
    (taskQueuePop (queues level)).1 = (history.pop level).1 ∧
      Follows (Function.update queues level (taskQueuePop (queues level)).2) (history.pop level).2 := by
  have filled := follows.filled level
  have waiting := follows.waiting level
  unfold QueueHistory.pop
  split
  next none =>
    have empty : (queues level).tasks = [] := by
      rw [waiting, QueueHistory.waiting, List.drop_eq_nil_iff]
      exact List.getElem?_eq_none_iff.mp none
    have counted : (queues level).itemCount = 0 := by rw [← filled.length, empty, List.length_nil]
    rw [taskQueuePop, if_pos counted, Function.update_eq_self]
    exact ⟨rfl, follows⟩
  next task next =>
    obtain ⟨inside, here⟩ := List.getElem?_eq_some_iff.mp next
    have front : (queues level).tasks = task :: (history.accepted level).drop (history.popped level + 1) := by
      rw [waiting, QueueHistory.waiting, List.drop_eq_getElem_cons inside, here]
    obtain ⟨taken, kept, rest⟩ := taskQueuePop_front filled front
    refine ⟨taken, fun other => ?_, fun other => ?_, fun other => ?_⟩
    · rcases eq_or_ne other level with rfl | apart
      · rwa [Function.update_self]
      · rw [Function.update_of_ne apart]
        exact follows.filled other
    · rcases eq_or_ne other level with rfl | apart
      · rw [Function.update_self, rest]
        simp only [QueueHistory.waiting, Function.update_self]
      · simp only [QueueHistory.waiting, Function.update_of_ne apart]
        exact follows.waiting other
    · rcases eq_or_ne other level with rfl | apart
      · simp only [Function.update_self]
        omega
      · simp only [Function.update_of_ne apart]
        exact follows.counted other

/-- No task waits at a level whose accepted pushes have all been popped. -/
theorem Follows.idle_iff (follows : Follows queues history) (level : Fin maxPriorityLevels) :
    (queues level).tasks = [] ↔ ¬history.popped level < (history.accepted level).length := by
  rw [follows.waiting, QueueHistory.waiting, List.drop_eq_nil_iff, not_lt]

/-- The pop by priority is a pop at the lowest level at which a task waits. -/
theorem Follows.popPriority (follows : Follows queues history) :
    (queueStep queues .popPriority).1 = (history.step .popPriority).1 ∧
      Follows (queueStep queues .popPriority).2 (history.step .popPriority).2 := by
  unfold queueStep QueueHistory.step
  dsimp only
  rcases taskQueuePopPriority_cases queues follows.filled with ⟨result, idle⟩ | ⟨level, task, rest, front, result⟩
  · have none : history.lowest = none :=
      FirstIndex.none_iff.mpr fun level => decide_eq_false ((follows.idle_iff level).mp (idle level))
    rw [result, none]
    exact ⟨rfl, follows⟩
  · have waits : history.popped level < (history.accepted level).length := by
      by_contra none
      cases front.1.symm.trans ((follows.idle_iff level).mpr none)
    have lowest : history.lowest = some level :=
      FirstIndex.found_iff.mpr ⟨decide_eq_true waits, fun lower less =>
        decide_eq_false ((follows.idle_iff lower).mp (front.2 lower less))⟩
    obtain ⟨taken, kept⟩ := follows.pop level
    rw [result, lowest]
    exact ⟨(taskQueuePop_front (follows.filled level) front.1).1.symm.trans taken, kept⟩

theorem Follows.step (follows : Follows queues history) (op : QueueOp) :
    (queueStep queues op).1 = (history.step op).1 ∧ Follows (queueStep queues op).2 (history.step op).2 := by
  cases op with
  | push level task => exact ⟨rfl, follows.push level task⟩
  | pop level => exact follows.pop level
  | popPriority => exact follows.popPriority

theorem Follows.run (follows : Follows queues history) (ops : List QueueOp) :
    (runQueues queues ops).1 = (history.run ops).1 ∧ Follows (runQueues queues ops).2 (history.run ops).2 := by
  induction ops generalizing queues history with
  | nil => exact ⟨rfl, follows⟩
  | cons op ops ih =>
    obtain ⟨same, moved⟩ := follows.step op
    obtain ⟨rest, ends⟩ := ih moved
    exact ⟨congrArg₂ List.cons same rest, ends⟩

/-- A pop by priority takes the oldest task of the lowest level that has one, leaves the other
levels alone and returns nothing exactly when all are empty. -/
structure PopsLowest (queues : ReadyQueues) : Prop where
  none : (taskQueuePopPriority queues).1 = none ↔ ∀ level, (queues level).tasks = []
  some : ∀ task, (taskQueuePopPriority queues).1 = some task → ∃ level rest,
    (queues level).tasks = task :: rest ∧ (∀ lower < level, (queues lower).tasks = []) ∧
      ((taskQueuePopPriority queues).2 level).tasks = rest ∧
      ∀ other ≠ level, (taskQueuePopPriority queues).2 other = queues other

theorem pops_lowest (filled : ∀ level, (queues level).Filled) : PopsLowest queues := by
  rcases taskQueuePopPriority_cases queues filled with ⟨result, idle⟩ | ⟨level, task, rest, front, result⟩
  · refine ⟨iff_of_true (by rw [result]) idle, fun task taken => ?_⟩
    rw [result] at taken
    cases taken
  · refine ⟨iff_of_false (by rw [result]; exact Option.some_ne_none task) fun idle => ?_, fun other taken => ?_⟩
    · cases front.1.symm.trans (idle level)
    · rw [result] at taken ⊢
      obtain rfl := Option.some.inj taken
      refine ⟨level, rest, front.1, front.2, ?_, fun other apart => Function.update_of_ne apart ..⟩
      dsimp only
      rw [Function.update_self]
      exact (taskQueuePop_front (filled level) front.1).2.2

/-- In every run the pops at a level return its accepted pushes one after the other, and a pop
by priority is one at the lowest level that holds a task. -/
theorem ready_queues_fifo (ops : List QueueOp) :
    (runQueues (fun _ => initializeTaskQueue) ops).1 = (QueueHistory.empty.run ops).1 ∧
      (∀ level, ((runQueues (fun _ => initializeTaskQueue) ops).2 level).tasks =
        (QueueHistory.empty.run ops).2.waiting level) ∧
      PopsLowest (runQueues (fun _ => initializeTaskQueue) ops).2 := by
  obtain ⟨same, follows⟩ := Follows.empty.run ops
  exact ⟨same, follows.waiting, pops_lowest follows.filled⟩

end Runs

end Proofs
end Kernix
