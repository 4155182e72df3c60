import Kernix.Common.Array
import Kernix.Machine
import Mathlib.Logic.Function.Basic

/-! The scheduler of `scheduler.c`: the tasks of `scheduler.h`, the ready queues that they
are kept in, and the per-CPU data of `per_cpu.c`, an array that has one element for each of
the `cpu_count` processors that were found. A call runs on the processor whose local APIC
number it is given, and its sections under a spinlock run undisturbed. -/

namespace Kernix

abbrev maxTaskCount : Nat := 256

abbrev maxPriorityLevels : Nat := 32

instance : NeZero maxTaskCount := ⟨by decide⟩

/-- `task_status_t`. -/
inductive TaskStatus where
  | ready
  | running
  | blocked
  | terminated
  deriving DecidableEq, Repr

/-- A `task_t*` that is not `NULL`: every task lives in `task_pool`. -/
abbrev TaskPointer := Fin maxTaskCount

/-- `task_t`. A stack pointer is a word index into `task_stacks`, or `NULL`. -/
structure Task where
  identifier : Nat
  status : TaskStatus
  priorityLevel : Nat
  stackPointer : Option Int
  stackStart : Option Int
  stackCapacity : Nat
  startFunction : Nat
  executionContext : Fin 20 → Nat
  taskName : Fin 32 → UInt8
  remainingTicks : Nat
  assignedCpu : Nat

/-- What a static variable holds before the first write. -/
def Task.zero : Task where
  identifier := 0
  status := .ready
  priorityLevel := 0
  stackPointer := none
  stackStart := none
  stackCapacity := 0
  startFunction := 0
  executionContext := fun _ => 0
  taskName := fun _ => 0
  remainingTicks := 0
  assignedCpu := 0

/-- `task_queue_t`. Both indices are only ever set to zero or to a remainder by `MAX_TASK_COUNT`. -/
structure TaskQueue where
  taskList : Fin maxTaskCount → Option TaskPointer
  itemCount : Nat
  startIndex : Fin maxTaskCount
  endIndex : Fin maxTaskCount

def initializeTaskQueue : TaskQueue where
  taskList := fun _ => none
  itemCount := 0
  startIndex := 0
  endIndex := 0

def taskQueuePush (queue : TaskQueue) (task : TaskPointer) : TaskQueue :=
  if queue.itemCount ≥ maxTaskCount then queue
  else
    { taskList := Function.update queue.taskList queue.endIndex (some task)
      itemCount := queue.itemCount + 1
      startIndex := queue.startIndex
      endIndex := queue.endIndex + 1 }

def taskQueuePop (queue : TaskQueue) : Option TaskPointer × TaskQueue :=
  if queue.itemCount = 0 then (none, queue)
  else
    (queue.taskList queue.startIndex,
      { taskList := Function.update queue.taskList queue.startIndex none
        itemCount := queue.itemCount - 1
        startIndex := queue.startIndex + 1
        endIndex := queue.endIndex })

/-- The ready queues of one CPU. -/
abbrev ReadyQueues := Fin maxPriorityLevels → TaskQueue

/-- `for (p = ...; p < MAX_PRIORITY_LEVELS; p++)`, over the levels that are left. -/
def taskQueuePopPriorityFrom (queues : ReadyQueues) : List (Fin maxPriorityLevels) → Option TaskPointer × ReadyQueues
  | [] => (none, queues)
  | level :: levels =>
    if (queues level).itemCount > 0 then
      let (task, queue) := taskQueuePop (queues level)
      (task, Function.update queues level queue)
    else taskQueuePopPriorityFrom queues levels

def taskQueuePopPriority (queues : ReadyQueues) : Option TaskPointer × ReadyQueues :=
  taskQueuePopPriorityFrom queues (List.finRange maxPriorityLevels)

/-- The fields of `cpu_t` that `per_cpu_init` reads. -/
structure CpuInfo where
  apicId : Nat
  online : Nat

/-- The fields of `per_cpu_data_t` that the scheduler uses. -/
structure PerCpuData where
  cpuId : Nat
  apicId : Nat
  isOnline : Nat
  currentTask : Option TaskPointer
  idleTask : Option TaskPointer
  readyQueues : ReadyQueues
  taskCount : Nat

section PerCpu
variable {cpuCount : Nat}

def perCpuInit (cpuList : Fin cpuCount → CpuInfo) (cpu : Fin cpuCount) : PerCpuData where
  cpuId := cpu
  apicId := (cpuList cpu).apicId
  isOnline := (cpuList cpu).online
  currentTask := none
  idleTask := none
  readyQueues := fun _ => initializeTaskQueue
  taskCount := 0

/-- The result is `NULL` for a number that no processor has. -/
def perCpuGet (cpuCount cpuId : Nat) : Option (Fin cpuCount) :=
  if known : cpuId < cpuCount then some ⟨cpuId, known⟩ else none

/-- The first processor with the local APIC's number, on the processor that runs the call. -/
def perCpuCurrent (perCpu : Fin cpuCount → PerCpuData) (apicId : Nat) : Option (Fin cpuCount) :=
  (List.finRange cpuCount).find? fun cpu => (perCpu cpu).apicId = apicId

def perCpuSetOnline (perCpu : Fin cpuCount → PerCpuData) (cpuId online : Nat) : Fin cpuCount → PerCpuData :=
  match perCpuGet cpuCount cpuId with
  | none => perCpu
  | some cpu => Function.update perCpu cpu { perCpu cpu with isOnline := online }

end PerCpu

abbrev timeSliceTicks : Nat := 10

/-- The length of one of the `task_stacks`, in words. -/
abbrev stackWords : Nat := 1024

/-- The static variables of `scheduler.c`, and the array of `per_cpu.c`. -/
structure SchedulerState (cpuCount : Nat) where
  taskPool : TaskPointer → Task
  nextTaskId : Nat
  /-- All of `task_stacks`, word by word. -/
  taskStacks : Int → Nat
  stackIndex : Nat
  perCpu : Fin cpuCount → PerCpuData

/-- How a call to `perform_scheduling` goes on once its bookkeeping is done. -/
inductive Dispatch where
  /-- It returns to its caller. -/
  | stay
  /-- `perform_task_switch`, with the context to save into, if any, and the one to load. -/
  | switch (old : Option TaskPointer) (next : TaskPointer)
  /-- `idle_task_entry`, which never returns. -/
  | idle
  deriving DecidableEq, Repr

namespace SchedulerState
variable {cpuCount : Nat}

def updateTask (state : SchedulerState cpuCount) (task : TaskPointer) (change : Task → Task) :
    SchedulerState cpuCount :=
  { state with taskPool := Function.update state.taskPool task (change (state.taskPool task)) }

def updateCpu (state : SchedulerState cpuCount) (cpu : Fin cpuCount) (change : PerCpuData → PerCpuData) :
    SchedulerState cpuCount :=
  { state with perCpu := Function.update state.perCpu cpu (change (state.perCpu cpu)) }

/-- The state before the first call to the scheduler. -/
def boot (cpuList : Fin cpuCount → CpuInfo) : SchedulerState cpuCount where
  taskPool := fun _ => .zero
  nextTaskId := 1
  taskStacks := fun _ => 0
  stackIndex := 0
  perCpu := perCpuInit cpuList

/-- `task_queue_push(&pcpu->ready_queues[priority], task)`. -/
def pushReady (state : SchedulerState cpuCount) (cpu : Fin cpuCount) (priority : Nat) (task : TaskPointer) :
    Except Stop (SchedulerState cpuCount) :=
  if level : priority < maxPriorityLevels then
    .ok (state.updateCpu cpu fun pcpu =>
      { pcpu with
        readyQueues := Function.update pcpu.readyQueues ⟨priority, level⟩
          (taskQueuePush (pcpu.readyQueues ⟨priority, level⟩) task) })
  else .error .undefined

end SchedulerState

open SchedulerState

variable {cpuCount : Nat}

/-- The online CPU with the fewest tasks: the first loop of `create_new_task`. -/
def leastLoaded (state : SchedulerState cpuCount) : Option (Fin cpuCount) :=
  ((List.finRange cpuCount).foldl
    (fun (best : Option (Fin cpuCount) × Nat) cpu =>
      let pcpu := state.perCpu cpu
      if pcpu.isOnline ≠ 0 ∧ pcpu.taskCount < best.2 then (some cpu, pcpu.taskCount) else best)
    (none, 2 ^ 32 - 1)).1

/-- The pool slot that the second loop of `create_new_task` finds. -/
def freeSlot (state : SchedulerState cpuCount) : Option TaskPointer :=
  (List.finRange maxTaskCount).find? fun task =>
    (state.taskPool task).status = .terminated ∨ (state.taskPool task).identifier = 0

/-- `*(task->stack_pointer--) = value`. -/
def stackPush (stack : (Int → Nat) × Int) (value : Nat) : Except Stop ((Int → Nat) × Int) :=
  if 0 ≤ stack.2 ∧ stack.2 < maxTaskCount * stackWords then
    .ok (Function.update stack.1 stack.2 value, stack.2 - 1)
  else .error .undefined

/-- The words that `create_new_task` puts on a new stack. -/
def initialFrame (entry : Nat) : List Nat := [entry, 0, 0, 0, 0, 0, 0, 0x202]

/-- The part of `create_new_task` that fills in the slot and the stack. -/
def prepareTask (state : SchedulerState cpuCount) (task : TaskPointer) (target : Fin cpuCount) (name : List UInt8)
    (entry priority stackSize : Nat) : Except Stop (SchedulerState cpuCount) := do
  let stackStart : Int := state.stackIndex * stackWords
  let taskName ← strCopy (state.taskPool task).taskName name
  let stack ← (initialFrame entry).foldlM stackPush (state.taskStacks, stackStart + stackSize / 8 - 1)
  let prepared : Task :=
    { identifier := state.nextTaskId
      status := .ready
      priorityLevel := priority
      stackPointer := some stack.2
      stackStart := some stackStart
      stackCapacity := stackSize
      startFunction := entry
      executionContext := (state.taskPool task).executionContext
      taskName := taskName
      remainingTicks := timeSliceTicks
      assignedCpu := (state.perCpu target).cpuId }
  .ok
    { taskPool := Function.update state.taskPool task prepared
      nextTaskId := u32 (state.nextTaskId + 1)
      taskStacks := stack.1
      stackIndex := state.stackIndex + 1
      perCpu := state.perCpu }

/-- The new task joins its ready queue and is counted. -/
def enlist (state : SchedulerState cpuCount) (target : Fin cpuCount) (priority : Nat) (task : TaskPointer) :
    Except Stop (SchedulerState cpuCount) := do
  let state ← state.pushReady target priority task
  .ok (state.updateCpu target fun pcpu => { pcpu with taskCount := u32 (pcpu.taskCount + 1) })

def createNewTask (state : SchedulerState cpuCount) (apicId : Nat) (name : List UInt8) (entry priority stackSize : Nat) :
    Except Stop (SchedulerState cpuCount × Option TaskPointer) :=
  let target := (leastLoaded state).orElse fun _ => perCpuCurrent state.perCpu apicId
  match freeSlot state with
  | none => .ok (state, none)
  | some task =>
    if state.stackIndex ≥ maxTaskCount then .ok (state, none)
    else
      match target with
      | none => .error .undefined
      | some target => do
        let prepared ← prepareTask state task target name entry priority stackSize
        let enlisted ← enlist prepared target priority task
        .ok (enlisted, some task)

/-- `initialize_scheduler` and `initialize_ap_scheduler`, which differ in the name they give. -/
def initializeWith (idleName : List UInt8) (state : SchedulerState cpuCount) (apicId idleTaskEntry : Nat) :
    Except Stop (SchedulerState cpuCount × TaskPointer) :=
  match perCpuCurrent state.perCpu apicId with
  | none => .error .halted
  | some cpu => do
    let emptied := state.updateCpu cpu fun pcpu => { pcpu with readyQueues := fun _ => initializeTaskQueue }
    let created ← createNewTask emptied apicId idleName idleTaskEntry 0 4096
    match created.2 with
    | none => .error .halted
    | some idleTask =>
      let state := created.1.updateCpu cpu fun pcpu =>
        { pcpu with idleTask := some idleTask, currentTask := some idleTask }
      .ok (state.updateTask idleTask fun task => { task with status := .running }, idleTask)

def initializeScheduler (state : SchedulerState cpuCount) (apicId idleTaskEntry : Nat) :
    Except Stop (SchedulerState cpuCount × TaskPointer) :=
  initializeWith (literal "idle") state apicId idleTaskEntry

def initializeApScheduler (state : SchedulerState cpuCount) (apicId idleTaskEntry : Nat) :
    Except Stop (SchedulerState cpuCount × TaskPointer) :=
  initializeWith (literal "idle_ap") state apicId idleTaskEntry

/-- `old_task` goes back to the end of its ready queue if there is one and it is still running. -/
def requeueOld (state : SchedulerState cpuCount) (cpu : Fin cpuCount) :
    Option TaskPointer → Except Stop (SchedulerState cpuCount)
  | none => .ok state
  | some oldTask =>
    if (state.taskPool oldTask).status = .running then
      (state.updateTask oldTask fun task => { task with status := .ready }).pushReady cpu
        (state.taskPool oldTask).priorityLevel oldTask
    else .ok state

/-- `next_task` becomes the current task and runs for a whole time slice. -/
def makeCurrent (state : SchedulerState cpuCount) (cpu : Fin cpuCount) (nextTask : TaskPointer) :
    SchedulerState cpuCount :=
  (state.updateCpu cpu fun pcpu => { pcpu with currentTask := some nextTask }).updateTask nextTask fun task =>
    { task with status := .running, remainingTicks := timeSliceTicks }

/-- The part of `perform_scheduling` behind its early return. -/
def switchTask (state : SchedulerState cpuCount) (cpu : Fin cpuCount) (nextTask : TaskPointer) :
    Except Stop (SchedulerState cpuCount × Dispatch) := do
  let oldTask := (state.perCpu cpu).currentTask
  let requeued ← requeueOld state cpu oldTask
  let dispatch : Dispatch :=
    if some nextTask ≠ (state.perCpu cpu).idleTask then .switch oldTask nextTask else .idle
  .ok (makeCurrent requeued cpu nextTask, dispatch)

def performScheduling (state : SchedulerState cpuCount) (apicId : Nat) :
    Except Stop (SchedulerState cpuCount × Dispatch) :=
  match perCpuCurrent state.perCpu apicId with
  | none => .ok (state, .stay)
  | some cpu =>
    let popped := taskQueuePopPriority (state.perCpu cpu).readyQueues
    let state := state.updateCpu cpu fun pcpu => { pcpu with readyQueues := popped.2 }
    match popped.1.orElse fun _ => (state.perCpu cpu).idleTask with
    -- with no idle task `next_task` is `NULL` here, and both ways on write through it
    | none => .error .undefined
    | some nextTask =>
      if (state.perCpu cpu).currentTask = some nextTask then
        .ok (state.updateTask nextTask fun task => { task with remainingTicks := timeSliceTicks }, .stay)
      else switchTask state cpu nextTask

/-- The task that `pcpu->current_task` points at, if the call runs on a known processor. -/
def getCurrentTask (state : SchedulerState cpuCount) (apicId : Nat) : Option TaskPointer :=
  (perCpuCurrent state.perCpu apicId).bind fun cpu => (state.perCpu cpu).currentTask

def yieldCurrentTask (state : SchedulerState cpuCount) (apicId : Nat) :
    Except Stop (SchedulerState cpuCount × Dispatch) :=
  match getCurrentTask state apicId with
  | none => .ok (state, .stay)
  | some _ => performScheduling state apicId

/-- `if (remaining_ticks > 0) remaining_ticks--`. -/
def spendTick (state : SchedulerState cpuCount) (task : TaskPointer) : SchedulerState cpuCount :=
  if (state.taskPool task).remainingTicks > 0 then
    state.updateTask task fun task => { task with remainingTicks := task.remainingTicks - 1 }
  else state

def handleSchedulerTimer (state : SchedulerState cpuCount) (apicId : Nat) :
    Except Stop (SchedulerState cpuCount × Dispatch) :=
  match getCurrentTask state apicId with
  | none => .ok (state, .stay)
  | some task =>
    let state := spendTick state task
    if (state.taskPool task).remainingTicks = 0 then performScheduling state apicId else .ok (state, .stay)

def blockCurrentTask (state : SchedulerState cpuCount) (apicId : Nat) :
    Except Stop (SchedulerState cpuCount × Dispatch) :=
  match getCurrentTask state apicId with
  | none => .ok (state, .stay)
  | some task => performScheduling (state.updateTask task fun task => { task with status := .blocked }) apicId

def unblockTask (state : SchedulerState cpuCount) (task : Option TaskPointer) :
    Except Stop (SchedulerState cpuCount) :=
  match task with
  | none => .ok state
  | some task =>
    if (state.taskPool task).status ≠ .blocked then .ok state
    else
      match perCpuGet cpuCount (state.taskPool task).assignedCpu with
      | none => .ok state
      | some target =>
        (state.updateTask task fun task => { task with status := .ready }).pushReady target
          (state.taskPool task).priorityLevel task

/-- The task is marked as terminated, and its processor counts one task less. -/
def markTerminated (state : SchedulerState cpuCount) (task : TaskPointer) : SchedulerState cpuCount :=
  let state := state.updateTask task fun task => { task with status := .terminated }
  match perCpuGet cpuCount (state.taskPool task).assignedCpu with
  | none => state
  | some target =>
    state.updateCpu target fun pcpu => { pcpu with taskCount := u32 (pcpu.taskCount + (2 ^ 32 - 1)) }

def terminateTask (state : SchedulerState cpuCount) (apicId : Nat) (task : Option TaskPointer) :
    Except Stop (SchedulerState cpuCount × Dispatch) :=
  match task with
  | none => .ok (state, .stay)
  | some task =>
    let state := markTerminated state task
    match perCpuCurrent state.perCpu apicId with
    | none => .ok (state, .stay)
    | some cpu =>
      if (state.perCpu cpu).currentTask = some task then
        performScheduling (state.updateCpu cpu fun pcpu => { pcpu with currentTask := none }) apicId
      else .ok (state, .stay)

end Kernix
