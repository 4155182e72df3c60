import Kernix.Processes.Sections
import Kernix.Proofs.TaskQueues

/-! The lock of a processor's data keeps its ready queues whole. Whatever the processors that
push to them and pop from them do between two accesses of another, the queues end up as they
do when nobody interrupts anybody. -/

namespace Kernix.Proofs
open Mutex

theorem spinlock_lawful : spinlock.Lawful where
  opens := rfl
  shut := rfl
  released := rfl
  differ := Nat.one_ne_zero

/-- The work of an operation on the queues. -/
def queueWork : QueueOp → Work ReadyQueues QueueLocals
  | .push level task => ⟨.start (some level) (some task), pushAccesses⟩
  | .pop level => ⟨.start (some level) none, popAccesses⟩
  | .popPriority => ⟨.start none none, popPriorityAccesses⟩

/-- What the code returns: a push returns nothing. -/
def queueResult : QueueOp → QueueLocals → Option TaskPointer
  | .push _ _, _ => none
  | _, locals => locals.task

section Sections

theorem push_whole (queues : ReadyQueues) (level : Fin maxPriorityLevels) (task : TaskPointer) :
    ((queueWork (.push level task)).whole queues).1 =
      Function.update queues level (taskQueuePush (queues level) task) := by
  unfold queueWork Work.whole finish pushAccesses taskQueuePush
  by_cases full : maxTaskCount ≤ (queues level).itemCount
  · simp [QueueLocals.start, onQueue, checkRoom, full]
  · simp [QueueLocals.start, onQueue, checkRoom, loadEnd, storeItem, storeEnd, loadCount, storeCount, full]

/-- The accesses of a pop, from any values of the other local variables. -/
theorem pop_finish (queues : ReadyQueues) (locals : QueueLocals) (level : Fin maxPriorityLevels)
    (goes : locals.stopped = false) (found : locals.level = some level) (none : locals.task = none) :
    (finish popAccesses (queues, locals)).1 = Function.update queues level (taskQueuePop (queues level)).2 ∧
      (finish popAccesses (queues, locals)).2.task = (taskQueuePop (queues level)).1 := by
  unfold finish popAccesses taskQueuePop
  by_cases empty : (queues level).itemCount = 0
  · simp [onQueue, checkItems, empty, goes, found, none]
  · simp [onQueue, checkItems, loadStart, loadItem, storeItem, storeStart, loadCount, storeCount, empty, goes, found]

/-- A level that was found stays. -/
theorem findLevel_found (queues : ReadyQueues) (locals : QueueLocals) (levels : List (Fin maxPriorityLevels))
    {level : Fin maxPriorityLevels} (found : locals.level = some level) :
    finish (levels.map findLevel) (queues, locals) = (queues, locals) := by
  induction levels with
  | nil => rfl
  | cons p levels ih =>
    have stays : findLevel p (queues, locals) = (queues, locals) := by
      unfold findLevel
      dsimp only
      rw [found]
    unfold finish at ih ⊢
    rw [List.map_cons, List.foldl_cons, stays]
    exact ih

/-- The loop over the levels finds the first one that holds a task. -/
theorem findLevel_finish (queues : ReadyQueues) (locals : QueueLocals) (levels : List (Fin maxPriorityLevels))
    (none : locals.level = none) :
    finish (levels.map findLevel) (queues, locals) =
      (queues, { locals with level := levels.find? fun p => 0 < (queues p).itemCount }) := by
  induction levels with
  | nil => rw [List.find?_nil, ← none]; rfl
  | cons p levels ih =>
    have looks : findLevel p (queues, locals) =
        (queues, { locals with level := if 0 < (queues p).itemCount then some p else .none }) := by
      unfold findLevel
      dsimp only
      rw [none]
    unfold finish at ih ⊢
    rw [List.map_cons, List.foldl_cons, looks]
    by_cases holds : 0 < (queues p).itemCount
    · rw [if_pos holds, List.find?_cons_of_pos (by simpa using holds)]
      exact findLevel_found queues _ levels rfl
    · rw [if_neg holds, List.find?_cons_of_neg (by simpa using holds), ← none]
      exact ih

theorem popPriorityFrom_find (queues : ReadyQueues) (levels : List (Fin maxPriorityLevels)) :
    taskQueuePopPriorityFrom queues levels =
      match levels.find? fun p => 0 < (queues p).itemCount with
      | none => (none, queues)
      | some level => ((taskQueuePop (queues level)).1, Function.update queues level (taskQueuePop (queues level)).2) := by
  induction levels with
  | nil => rfl
  | cons p levels ih =>
    rw [taskQueuePopPriorityFrom]
    by_cases holds : 0 < (queues p).itemCount
    · rw [if_pos holds, List.find?_cons_of_pos (by simpa using holds)]
    · rw [if_neg holds, List.find?_cons_of_neg (by simpa using holds), ih]

/-- With no level found, the accesses of the pop do nothing. -/
theorem popAccesses_none (queues : ReadyQueues) (locals : QueueLocals) (none : locals.level = none) :
    finish popAccesses (queues, locals) = (queues, locals) := by
  have stays (access : Access TaskQueue QueueLocals) : onQueue access (queues, locals) = (queues, locals) := by
    unfold onQueue
    dsimp only
    rw [none]
    exact ite_self _
  unfold finish popAccesses
  simp only [List.map_cons, List.map_nil, List.foldl_cons, List.foldl_nil, stays]

/-- Nobody interrupted, the accesses come to the function that they were taken from. -/
theorem queueWork_whole (queues : ReadyQueues) (op : QueueOp) :
    ((queueWork op).whole queues).1 = (queueStep queues op).2 ∧
      queueResult op ((queueWork op).whole queues).2 = (queueStep queues op).1 := by
  cases op with
  | push level task => exact ⟨push_whole queues level task, rfl⟩
  | pop level => exact pop_finish queues _ level rfl rfl rfl
  | popPriority =>
    have loop : (queueWork .popPriority).whole queues = finish popAccesses (finish
        ((List.finRange maxPriorityLevels).map findLevel) (queues, .start none none)) := List.foldl_append
    rw [loop, findLevel_finish queues _ _ rfl]
    unfold queueStep taskQueuePopPriority
    dsimp only
    rw [popPriorityFrom_find]
    split
    next missing =>
      rw [popAccesses_none queues _ missing]
      exact ⟨rfl, rfl⟩
    next level found => exact pop_finish queues _ level rfl found rfl

/-- Operations one after the other, access by access, are those of the functions. -/
theorem serial_queues (ops : List QueueOp) (queues : ReadyQueues) :
    (serial queueWork ops queues).2 = (runQueues queues ops).2 ∧
      List.zipWith queueResult ops (serial queueWork ops queues).1 = (runQueues queues ops).1 := by
  induction ops generalizing queues with
  | nil => exact ⟨rfl, rfl⟩
  | cons op ops ih =>
    obtain ⟨data, result⟩ := queueWork_whole queues op
    have rest := ih (queueStep queues op).2
    rw [← data] at rest
    unfold serial runQueues
    dsimp only
    rw [← data, ← result, ← rest.2, List.zipWith_cons_cons]
    exact ⟨rest.1, rfl⟩

end Sections

/-- Processors at work on the ready queues of one of them. -/
abbrev QueueSystem (ρ : Type) := System Nat ρ QueueOp ReadyQueues QueueLocals

def queueTurns {ρ : Type} [DecidableEq ρ] (queues : ReadyQueues) (turns : List (Turn ρ QueueOp)) : QueueSystem ρ :=
  turns.foldl (turn spinlock queueWork) (.start spinlock queues)

/-- What holds however the processors took their turns. -/
structure QueuesLocked {ρ : Type} [DecidableEq ρ] (queues : ReadyQueues) (system : QueueSystem ρ) : Prop where
  /-- No two processors have the lock. -/
  alone : ∀ first second, (system.places first).isInside = true → (system.places second).isInside = true → first = second
  /-- The word of the lock says whether one of them has it. -/
  locked : spinlockIsLocked system.word = true ↔ ∃ processor, (system.places processor).isInside = true
  /-- While nobody has it, all that was done comes to calls one after the other. -/
  serial : spinlockIsLocked system.word = false →
    (List.zipWith queueResult system.taken system.returned, system.data) = runQueues queues system.taken
  /-- Whoever waits for it gets it, if the one that has it goes on. -/
  served : ∀ processor op, system.places processor = .waiting op →
    ∃ turns : List (Turn ρ QueueOp), (∀ label ∈ turns, ∃ active, label = .go active) ∧
      ((turns.foldl (turn spinlock queueWork) system).places processor).isInside = true

theorem queues_locked {ρ : Type} [DecidableEq ρ] (queues : ReadyQueues) (turns : List (Turn ρ QueueOp)) :
    QueuesLocked queues (queueTurns queues turns) := by
  have ordered : Ordered spinlock queueWork queues (queueTurns queues turns) := ordered_run spinlock_lawful queues turns
  have free : (queueTurns queues turns).word = spinlock.free ↔ spinlockIsLocked (queueTurns queues turns).word = false := by
    unfold spinlockIsLocked
    rw [decide_eq_false_iff_not, not_not]
    rfl
  refine ⟨fun first second => ordered.alone, ?_, fun unlocked => ?_, fun processor op waits => ?_⟩
  · rw [← Bool.not_eq_false, ← free, ordered.free_iff spinlock_lawful]
    simp
  · have done := ordered.done spinlock_lawful (free.mpr unlocked)
    obtain ⟨data, results⟩ := serial_queues (queueTurns queues turns).taken queues
    refine Prod.ext ?_ ((congrArg Prod.snd done).trans data)
    exact (congrArg (List.zipWith queueResult _) (congrArg Prod.fst done)).trans results
  · obtain ⟨turns, goes, inside⟩ := ordered.gets_in spinlock_lawful waits
    exact ⟨turns, goes, congrArg Place.isInside inside⟩

end Kernix.Proofs
