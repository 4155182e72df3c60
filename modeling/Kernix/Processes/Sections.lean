import Kernix.Lib.Mutex
import Kernix.Processes.Scheduler

/-! The scheduler calls cut into atomic sections, for processors that interleave. What a
spinlock protects is one section, and so is each stretch of code between two locks;
`create_new_task` picks its processor, finds its slot and fills it in three of them. Then the
locks themselves, of `spinlock.c`, and the queue functions access by access, as a processor
makes them while it has the lock of the queues. A fence orders the accesses, which take place
one after the other here. -/

namespace Kernix
open SchedulerState

/-- The arguments of `create_new_task`, and the processor whose idle task it makes, if
`initialize_scheduler` or `initialize_ap_scheduler` calls it. -/
structure Request (cpuCount : Nat) where
  name : List UInt8
  entry : Nat
  priority : Nat
  stackSize : Nat
  idleOf : Option (Fin cpuCount)

/-- The section that a processor comes to next, with the local variables of its call. -/
inductive Pending (cpuCount : Nat) where
  | chooseTarget (request : Request cpuCount)
  | searchSlot (request : Request cpuCount) (target : Option (Fin cpuCount))
  | fillSlot (request : Request cpuCount) (target : Option (Fin cpuCount)) (task : TaskPointer)
  | enlist (request : Request cpuCount) (target : Fin cpuCount) (task : TaskPointer)
  | installIdle (pcpu : Fin cpuCount) (idleTask : Option TaskPointer)
  | popNext (pcpu : Fin cpuCount)
  | leaveOld (pcpu : Fin cpuCount) (nextTask : Option TaskPointer)
  | requeueOld (pcpu : Fin cpuCount) (oldTask nextTask : TaskPointer)
  | makeCurrent (pcpu : Fin cpuCount) (nextTask : TaskPointer)
  | makeReady (target : Fin cpuCount) (task : TaskPointer)
  | halted

variable {cpuCount : Nat}

/-- `create_new_task` returns, to its caller or to the rest of `initialize_scheduler`. -/
def Request.answer (request : Request cpuCount) (task : Option TaskPointer) : Option (Pending cpuCount) :=
  request.idleOf.map fun pcpu => .installIdle pcpu task

/-- `target_pcpu` as the first lines of `create_new_task` choose it. -/
def chosenTarget (state : SchedulerState cpuCount) (apicId : Nat) : Option (Fin cpuCount) :=
  (leastLoaded state).orElse fun _ => perCpuCurrent state.perCpu apicId

/-- The entry of `perform_scheduling`, up to its first lock. -/
def enterScheduling (state : SchedulerState cpuCount) (apicId : Nat) :
    SchedulerState cpuCount × Option (Pending cpuCount) :=
  (state, (perCpuCurrent state.perCpu apicId).map .popNext)

/-- The section of `perform_scheduling` between its two locks. -/
def leaveOldTask (state : SchedulerState cpuCount) (pcpu : Fin cpuCount) (popped : Option TaskPointer) :
    Except Stop (SchedulerState cpuCount × Option (Pending cpuCount)) :=
  match popped.orElse fun _ => (state.perCpu pcpu).idleTask with
  | none => .error .undefined
  | some nextTask =>
    if (state.perCpu pcpu).currentTask = some nextTask then
      .ok (state.updateTask nextTask fun task => { task with remainingTicks := timeSliceTicks }, none)
    else
      match (state.perCpu pcpu).currentTask with
      | none => .ok (state, some (.makeCurrent pcpu nextTask))
      | some oldTask =>
        if (state.taskPool oldTask).status = .running then
          .ok (state.updateTask oldTask fun task => { task with status := .ready },
            some (.requeueOld pcpu oldTask nextTask))
        else .ok (state, some (.makeCurrent pcpu nextTask))

/-- One section, and the one that follows it in the same call. -/
def advance (state : SchedulerState cpuCount) (apicId : Nat) :
    Pending cpuCount → Except Stop (SchedulerState cpuCount × Option (Pending cpuCount))
  | .chooseTarget request => .ok (state, some (.searchSlot request (chosenTarget state apicId)))
  | .searchSlot request target =>
    match freeSlot state with
    | none => .ok (state, request.answer none)
    | some task =>
      if state.stackIndex ≥ maxTaskCount then .ok (state, request.answer none)
      else .ok (state, some (.fillSlot request target task))
  | .fillSlot request target task =>
    match target with
    | none => .error .undefined
    | some target => do
      let prepared ← prepareTask state task target request.name request.entry request.priority request.stackSize
      .ok (prepared, some (.enlist request target task))
  | .enlist request target task => do
    let enlisted ← Kernix.enlist state target request.priority task
    .ok (enlisted, request.answer (some task))
  | .installIdle pcpu none =>
    .ok (state.updateCpu pcpu fun pcpu => { pcpu with idleTask := none }, some .halted)
  | .installIdle pcpu (some idleTask) =>
    let state := state.updateCpu pcpu fun pcpu =>
      { pcpu with idleTask := some idleTask, currentTask := some idleTask }
    .ok (state.updateTask idleTask fun task => { task with status := .running }, none)
  | .popNext pcpu =>
    let popped := taskQueuePopPriority (state.perCpu pcpu).readyQueues
    .ok (state.updateCpu pcpu fun pcpu => { pcpu with readyQueues := popped.2 }, some (.leaveOld pcpu popped.1))
  | .leaveOld pcpu nextTask => leaveOldTask state pcpu nextTask
  | .requeueOld pcpu oldTask nextTask => do
    let requeued ← state.pushReady pcpu (state.taskPool oldTask).priorityLevel oldTask
    .ok (requeued, some (.makeCurrent pcpu nextTask))
  | .makeCurrent pcpu nextTask => .ok (Kernix.makeCurrent state pcpu nextTask, none)
  | .makeReady target task => do
    let state ← (state.updateTask task fun task => { task with status := .ready }).pushReady target
      (state.taskPool task).priorityLevel task
    .ok (state, none)
  | .halted => .ok (state, some .halted)

section Locks
open Mutex

/-- `spinlock_init`. -/
def spinlockInit : Nat := 0

/-- `__sync_bool_compare_and_swap`: whether the word was the expected one, and the word behind it. -/
def compareAndSwap (word expected desired : Nat) : Bool × Nat :=
  if word = expected then (true, desired) else (false, word)

/-- `spinlock_try_acquire`, which is also one turn of the loop of `spinlock_acquire`. -/
def spinlockTryAcquire (locked : Nat) : Bool × Nat := compareAndSwap locked 0 1

def spinlockRelease (_locked : Nat) : Nat := 0

def spinlockIsLocked (locked : Nat) : Bool := locked ≠ 0

def spinlock : Lock Nat where
  free := spinlockInit
  tryTake := spinlockTryAcquire
  release := spinlockRelease

/-- What the queue functions keep in registers: whether they return early, the queue that
they work on, an index, a count and the task. -/
structure QueueLocals where
  stopped : Bool
  level : Option (Fin maxPriorityLevels)
  index : Fin maxTaskCount
  count : Nat
  task : Option TaskPointer

def QueueLocals.start (level : Option (Fin maxPriorityLevels)) (task : Option TaskPointer) : QueueLocals where
  stopped := false
  level := level
  index := 0
  count := 0
  task := task

section Accesses

/-- An access to the queue that the code works on, unless it has returned. -/
def onQueue (access : Access TaskQueue QueueLocals) : Access ReadyQueues QueueLocals := fun (queues, locals) =>
  if locals.stopped then (queues, locals)
  else
    match locals.level with
    | none => (queues, locals)
    | some level =>
      let (queue, locals) := access (queues level, locals)
      (Function.update queues level queue, locals)

/-- `if (queue->item_count >= MAX_TASK_COUNT) return;` -/
def checkRoom : Access TaskQueue QueueLocals := fun (queue, locals) =>
  (queue, { locals with stopped := maxTaskCount ≤ queue.itemCount })

/-- `if (queue->item_count == 0) return NULL;` -/
def checkItems : Access TaskQueue QueueLocals := fun (queue, locals) =>
  (queue, { locals with stopped := queue.itemCount = 0 })

def loadEnd : Access TaskQueue QueueLocals := fun (queue, locals) => (queue, { locals with index := queue.endIndex })

def loadStart : Access TaskQueue QueueLocals := fun (queue, locals) => (queue, { locals with index := queue.startIndex })

def storeItem (item : QueueLocals → Option TaskPointer) : Access TaskQueue QueueLocals := fun (queue, locals) =>
  ({ queue with taskList := Function.update queue.taskList locals.index (item locals) }, locals)

def loadItem : Access TaskQueue QueueLocals := fun (queue, locals) =>
  (queue, { locals with task := queue.taskList locals.index })

/-- The indices go up by one, round the end of the array. -/
def storeEnd : Access TaskQueue QueueLocals := fun (queue, locals) => ({ queue with endIndex := locals.index + 1 }, locals)

def storeStart : Access TaskQueue QueueLocals := fun (queue, locals) => ({ queue with startIndex := locals.index + 1 }, locals)

def loadCount : Access TaskQueue QueueLocals := fun (queue, locals) => (queue, { locals with count := queue.itemCount })

def storeCount (change : Nat → Nat) : Access TaskQueue QueueLocals := fun (queue, locals) =>
  ({ queue with itemCount := change locals.count }, locals)

/-- `if (queues[p].item_count > 0)`, in a turn of the loop over the levels. -/
def findLevel (p : Fin maxPriorityLevels) : Access ReadyQueues QueueLocals := fun (queues, locals) =>
  match locals.level with
  | some _ => (queues, locals)
  | none => (queues, { locals with level := if 0 < (queues p).itemCount then some p else none })

end Accesses

/-- The accesses of `task_queue_push`. -/
def pushAccesses : List (Access ReadyQueues QueueLocals) :=
  [checkRoom, loadEnd, storeItem QueueLocals.task, loadEnd, storeEnd, loadCount, storeCount (· + 1)].map onQueue

/-- The accesses of `task_queue_pop`. -/
def popAccesses : List (Access ReadyQueues QueueLocals) :=
  [checkItems, loadStart, loadItem, loadStart, storeItem fun _ => none, loadStart, storeStart, loadCount,
    storeCount (· - 1)].map onQueue

/-- The accesses of `task_queue_pop_priority`. -/
def popPriorityAccesses : List (Access ReadyQueues QueueLocals) :=
  (List.finRange maxPriorityLevels).map findLevel ++ popAccesses

end Locks

end Kernix
