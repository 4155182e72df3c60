import Kernix.Processes.Scheduler
import Kernix.Proofs.TaskQueues
import Mathlib.Data.List.Basic

/-! What each scheduler call does to the current tasks, the statuses and the ready
queues, read as lists. Later proofs use these facts and never the code itself. -/

namespace Kernix

namespace SchedulerState
variable {cpuCount : Nat}

def ready (state : SchedulerState cpuCount) (cpu : Fin cpuCount) (level : Fin maxPriorityLevels) : List TaskPointer :=
  ((state.perCpu cpu).readyQueues level).tasks

def current (state : SchedulerState cpuCount) (cpu : Fin cpuCount) : Option TaskPointer :=
  (state.perCpu cpu).currentTask

def idle (state : SchedulerState cpuCount) (cpu : Fin cpuCount) : Option TaskPointer := (state.perCpu cpu).idleTask

def status (state : SchedulerState cpuCount) (task : TaskPointer) : TaskStatus := (state.taskPool task).status

def Filled (state : SchedulerState cpuCount) : Prop :=
  ∀ cpu level, ((state.perCpu cpu).readyQueues level).Filled

end SchedulerState

namespace Proofs
open SchedulerState
variable {cpuCount : Nat} {before after : SchedulerState cpuCount} {cpu : Fin cpuCount}

/-- A bounded queue ignores what it has no room for. -/
def pushed (tasks : List TaskPointer) (task : TaskPointer) : List TaskPointer :=
  if tasks.length < maxTaskCount then tasks ++ [task] else tasks

theorem mem_pushed {tasks : List TaskPointer} {task other : TaskPointer} (member : other ∈ pushed tasks task) :
    other = task ∨ other ∈ tasks := by
  unfold pushed at member
  split at member
  next room =>
    rcases List.mem_append.mp member with old | new
    · exact .inr old
    · exact .inl (List.mem_singleton.mp new)
  next full => exact .inr member

@[simp] theorem updateTask_taskPool (state : SchedulerState cpuCount) (task other : TaskPointer) (change : Task → Task) :
    (state.updateTask task change).taskPool other =
      if other = task then change (state.taskPool task) else state.taskPool other :=
  Function.update_apply _ _ _ _

@[simp] theorem updateTask_perCpu (state : SchedulerState cpuCount) (task : TaskPointer) (change : Task → Task) :
    (state.updateTask task change).perCpu = state.perCpu := rfl

@[simp] theorem updateCpu_taskPool (state : SchedulerState cpuCount) (cpu : Fin cpuCount)
    (change : PerCpuData → PerCpuData) : (state.updateCpu cpu change).taskPool = state.taskPool := rfl

@[simp] theorem updateCpu_perCpu (state : SchedulerState cpuCount) (cpu other : Fin cpuCount)
    (change : PerCpuData → PerCpuData) :
    (state.updateCpu cpu change).perCpu other = if other = cpu then change (state.perCpu cpu) else state.perCpu other :=
  Function.update_apply _ _ _ _

theorem ready_congr (same : after.perCpu = before.perCpu) : after.ready = before.ready := by
  funext cpu level
  unfold ready
  rw [same]

theorem current_congr (same : after.perCpu = before.perCpu) : after.current = before.current := by
  funext cpu
  unfold current
  rw [same]

theorem status_congr (same : after.taskPool = before.taskPool) : after.status = before.status := by
  funext task
  unfold status
  rw [same]

/-- A scheduling call touches statuses, time slices, queues and current tasks only. -/
structure Frame (before after : SchedulerState cpuCount) : Prop where
  task : ∀ task, after.taskPool task =
    { before.taskPool task with
      status := after.status task
      remainingTicks := (after.taskPool task).remainingTicks }
  cpu : ∀ cpu, after.perCpu cpu =
    { before.perCpu cpu with
      currentTask := after.current cpu
      readyQueues := (after.perCpu cpu).readyQueues }
  nextTaskId : after.nextTaskId = before.nextTaskId
  taskStacks : after.taskStacks = before.taskStacks
  stackIndex : after.stackIndex = before.stackIndex

theorem Frame.refl (state : SchedulerState cpuCount) : Frame state state := ⟨fun _ => rfl, fun _ => rfl, rfl, rfl, rfl⟩

theorem Frame.trans {first second third : SchedulerState cpuCount} (earlier : Frame first second)
    (later : Frame second third) : Frame first third where
  task task := by rw [later.task, earlier.task]
  cpu cpu := by rw [later.cpu, earlier.cpu]
  nextTaskId := later.nextTaskId.trans earlier.nextTaskId
  taskStacks := later.taskStacks.trans earlier.taskStacks
  stackIndex := later.stackIndex.trans earlier.stackIndex

theorem Frame.identifier (frame : Frame before after) (task : TaskPointer) :
    (after.taskPool task).identifier = (before.taskPool task).identifier := by
  rw [frame.task]

theorem Frame.priorityLevel (frame : Frame before after) (task : TaskPointer) :
    (after.taskPool task).priorityLevel = (before.taskPool task).priorityLevel := by
  rw [frame.task]

theorem Frame.idle (frame : Frame before after) (cpu : Fin cpuCount) : after.idle cpu = before.idle cpu := by
  unfold SchedulerState.idle
  rw [frame.cpu]

theorem Frame.apicId (frame : Frame before after) (cpu : Fin cpuCount) :
    (after.perCpu cpu).apicId = (before.perCpu cpu).apicId := by
  rw [frame.cpu]

theorem perCpuCurrent_congr (same : ∀ cpu, (after.perCpu cpu).apicId = (before.perCpu cpu).apicId) (apicId : Nat) :
    perCpuCurrent after.perCpu apicId = perCpuCurrent before.perCpu apicId := by
  unfold perCpuCurrent
  simp only [same]

/-- Giving a task another status or time slice. -/
theorem updateTask_frame (state : SchedulerState cpuCount) (task : TaskPointer) (change : Task → Task)
    (keeps : ∀ old, change old =
      { old with status := (change old).status, remainingTicks := (change old).remainingTicks }) :
    Frame state (state.updateTask task change) where
  task other := by
    unfold status
    rw [updateTask_taskPool]
    split
    next same =>
      subst same
      exact keeps _
    next => rfl
  cpu _ := rfl
  nextTaskId := rfl
  taskStacks := rfl
  stackIndex := rfl

/-- Giving a processor other queues or another current task. -/
theorem updateCpu_frame (state : SchedulerState cpuCount) (cpu : Fin cpuCount) (change : PerCpuData → PerCpuData)
    (keeps : ∀ old, change old =
      { old with currentTask := (change old).currentTask, readyQueues := (change old).readyQueues }) :
    Frame state (state.updateCpu cpu change) where
  task _ := rfl
  cpu other := by
    unfold current
    rw [updateCpu_perCpu]
    split
    next same =>
      subst same
      exact keeps _
    next => rfl
  nextTaskId := rfl
  taskStacks := rfl
  stackIndex := rfl

/-- One processor gets other queues. -/
def withQueues (state : SchedulerState cpuCount) (cpu : Fin cpuCount) (queues : ReadyQueues) :
    SchedulerState cpuCount :=
  state.updateCpu cpu fun pcpu => { pcpu with readyQueues := queues }

section
variable (state : SchedulerState cpuCount) (cpu : Fin cpuCount) (queues : ReadyQueues)

theorem withQueues_frame : Frame state (withQueues state cpu queues) := updateCpu_frame _ _ _ fun _ => rfl

theorem withQueues_current : (withQueues state cpu queues).current = state.current := by
  funext other
  unfold withQueues current
  rw [updateCpu_perCpu]
  split
  next same => rw [same]
  next => rfl

theorem withQueues_ready (other : Fin cpuCount) (level : Fin maxPriorityLevels) :
    (withQueues state cpu queues).ready other level =
      if other = cpu then (queues level).tasks else state.ready other level := by
  unfold withQueues ready
  rw [updateCpu_perCpu]
  split <;> rfl

theorem withQueues_filled (filled : state.Filled) (kept : ∀ level, (queues level).Filled) :
    (withQueues state cpu queues).Filled := by
  intro other level
  unfold withQueues
  rw [updateCpu_perCpu]
  split
  · exact kept level
  · exact filled other level

end

/-- Emptying the queues of one processor. -/
theorem mem_emptied {task : TaskPointer} {other : Fin cpuCount} {level : Fin maxPriorityLevels}
    (member : task ∈ (withQueues before cpu fun _ => initializeTaskQueue).ready other level) :
    task ∈ before.ready other level := by
  rw [withQueues_ready] at member
  split at member
  · rw [initializeTaskQueue_tasks] at member
    cases member
  · exact member

/-- A push onto the ready queue of a priority. -/
structure Enqueued (before : SchedulerState cpuCount) (cpu : Fin cpuCount) (priority : Nat) (task : TaskPointer)
    (after : SchedulerState cpuCount) : Prop where
  frame : Frame before after
  taskPool : after.taskPool = before.taskPool
  level : ∃ level : Fin maxPriorityLevels, level.val = priority ∧ ∀ other rank, after.ready other rank =
    if other = cpu ∧ rank = level then pushed (before.ready other rank) task else before.ready other rank
  current : after.current = before.current
  filled : after.Filled

theorem pushReady_enqueued {priority : Nat} {task : TaskPointer} (filled : before.Filled)
    (result : before.pushReady cpu priority task = .ok after) : Enqueued before cpu priority task after := by
  unfold pushReady at result
  split at result
  next bound =>
    generalize named : (⟨priority, bound⟩ : Fin maxPriorityLevels) = level at result
    have same : after = withQueues before cpu (Function.update (before.perCpu cpu).readyQueues level
        (taskQueuePush ((before.perCpu cpu).readyQueues level) task)) := by
      cases result
      rfl
    subst same
    refine ⟨withQueues_frame _ _ _, rfl, ⟨level, by rw [← named], ?_⟩, withQueues_current _ _ _, ?_⟩
    · intro other rank
      rw [withQueues_ready]
      by_cases sameCpu : other = cpu
      · subst sameCpu
        by_cases sameLevel : rank = level
        · subst sameLevel
          simp only [Function.update_self, and_self, if_true]
          exact taskQueuePush_tasks (filled _ _) task
        · simp only [Function.update_of_ne sameLevel, sameLevel, and_false, if_true, if_false]
          rfl
      · simp only [sameCpu, false_and, if_false]
    · apply withQueues_filled before cpu _ filled
      intro rank
      by_cases sameLevel : rank = level
      · subst sameLevel
        rw [Function.update_self]
        exact taskQueuePush_filled (filled _ _) task
      · rw [Function.update_of_ne sameLevel]
        exact filled _ _
  next => cases result

/-- What `task_queue_pop_priority` takes off the queues of one processor, and the lists it leaves. -/
inductive Pops (before : SchedulerState cpuCount) (cpu : Fin cpuCount) :
    Option TaskPointer → (Fin cpuCount → Fin maxPriorityLevels → List TaskPointer) → Prop where
  | empty (vacant : ∀ level, before.ready cpu level = []) : Pops before cpu none before.ready
  | front {level : Fin maxPriorityLevels} {task : TaskPointer} {rest : List TaskPointer}
      (first : Front (before.ready cpu) level task rest) :
      Pops before cpu (some task) fun other rank =>
        if other = cpu ∧ rank = level then rest else before.ready other rank

theorem Pops.mem {popped : Option TaskPointer}
    {lists : Fin cpuCount → Fin maxPriorityLevels → List TaskPointer} (pops : Pops before cpu popped lists)
    {task : TaskPointer} {other : Fin cpuCount} {level : Fin maxPriorityLevels} (member : task ∈ lists other level) :
    task ∈ before.ready other level := by
  cases pops with
  | empty vacant => exact member
  | front first =>
    simp only at member
    split at member
    next same =>
      rw [same.1, same.2, first.1]
      exact List.mem_cons_of_mem _ member
    next => exact member

theorem Pops.popped_mem {task : TaskPointer} {lists : Fin cpuCount → Fin maxPriorityLevels → List TaskPointer}
    (pops : Pops before cpu (some task) lists) : ∃ level, task ∈ before.ready cpu level := by
  cases pops with
  | @front level _ rest first =>
    refine ⟨level, ?_⟩
    rw [first.1]
    exact List.mem_cons_self

theorem popPriority_pops (filled : before.Filled) {popped : Option TaskPointer} {queues : ReadyQueues}
    (result : taskQueuePopPriority (before.perCpu cpu).readyQueues = (popped, queues)) :
    Pops before cpu popped (withQueues before cpu queues).ready ∧ (withQueues before cpu queues).Filled := by
  rcases taskQueuePopPriority_cases (before.perCpu cpu).readyQueues (filled cpu) with
    ⟨found, vacant⟩ | ⟨level, task, rest, first, found⟩
  · cases result.symm.trans found
    have same : (withQueues before cpu (before.perCpu cpu).readyQueues).ready = before.ready := by
      funext other level
      rw [withQueues_ready]
      split
      next same =>
        subst same
        rfl
      next => rfl
    rw [same]
    exact ⟨.empty vacant, withQueues_filled before cpu _ filled (filled cpu)⟩
  · cases result.symm.trans found
    have taken := taskQueuePop_front (filled cpu level) first.1
    have lists : (withQueues before cpu (Function.update (before.perCpu cpu).readyQueues level
        (taskQueuePop ((before.perCpu cpu).readyQueues level)).2)).ready =
        fun other rank => if other = cpu ∧ rank = level then rest else before.ready other rank := by
      funext other rank
      rw [withQueues_ready]
      by_cases sameCpu : other = cpu
      · subst sameCpu
        by_cases sameLevel : rank = level
        · subst sameLevel
          simp only [Function.update_self, and_self, if_true]
          exact taken.2.2
        · simp only [Function.update_of_ne sameLevel, sameLevel, and_false, if_true, if_false]
          rfl
      · simp only [sameCpu, false_and, if_false]
    rw [lists]
    refine ⟨.front first, withQueues_filled before cpu _ filled ?_⟩
    intro rank
    by_cases sameLevel : rank = level
    · subst sameLevel
      rw [Function.update_self]
      exact taken.2.1
    · rw [Function.update_of_ne sameLevel]
      exact filled _ _

/-- The task that the pop or else the idle fallback gives, and the lists that the pop leaves. -/
def Picks (before : SchedulerState cpuCount) (cpu : Fin cpuCount) (next : TaskPointer)
    (lists : Fin cpuCount → Fin maxPriorityLevels → List TaskPointer) : Prop :=
  ∃ popped, Pops before cpu popped lists ∧ (popped.orElse fun _ => before.idle cpu) = some next

/-- What `perform_scheduling` does on a processor. -/
inductive Scheduled (before : SchedulerState cpuCount) (cpu : Fin cpuCount) (after : SchedulerState cpuCount) : Prop where
  /-- The current task was picked again. -/
  | stay {next : TaskPointer} (picks : Picks before cpu next after.ready) (same : before.current cpu = some next)
      (status : after.status = before.status) (current : after.current = before.current)
  /-- The old task was running and goes back to its queue. -/
  | requeue {next old : TaskPointer} {level : Fin maxPriorityLevels}
      {lists : Fin cpuCount → Fin maxPriorityLevels → List TaskPointer} (picks : Picks before cpu next lists)
      (different : before.current cpu ≠ some next) (old_current : before.current cpu = some old)
      (running : before.status old = .running) (level_eq : level.val = (before.taskPool old).priorityLevel)
      (ready : ∀ other rank, after.ready other rank =
        if other = cpu ∧ rank = level then pushed (lists other rank) old else lists other rank)
      (status : after.status = Function.update (Function.update before.status old .ready) next .running)
      (current : after.current = Function.update before.current cpu (some next))
  /-- There was no old task, or it was not running. -/
  | leave {next : TaskPointer} (picks : Picks before cpu next after.ready)
      (different : before.current cpu ≠ some next)
      (idle : ∀ old, before.current cpu = some old → before.status old ≠ .running)
      (status : after.status = Function.update before.status next .running)
      (current : after.current = Function.update before.current cpu (some next))

theorem performScheduling_unknown {apicId : Nat} (unknown : perCpuCurrent before.perCpu apicId = none) :
    performScheduling before apicId = .ok (before, .stay) := by
  unfold performScheduling
  rw [unknown]

theorem makeCurrent_frame (state : SchedulerState cpuCount) (cpu : Fin cpuCount) (next : TaskPointer) :
    Frame state (makeCurrent state cpu next) :=
  (updateCpu_frame _ _ _ fun _ => rfl).trans (updateTask_frame _ _ _ fun _ => rfl)

theorem makeCurrent_ready (state : SchedulerState cpuCount) (cpu : Fin cpuCount) (next : TaskPointer) :
    (makeCurrent state cpu next).ready = state.ready := by
  funext other level
  unfold makeCurrent ready
  rw [updateTask_perCpu, updateCpu_perCpu]
  split
  next same => rw [same]
  next => rfl

theorem makeCurrent_status (state : SchedulerState cpuCount) (cpu : Fin cpuCount) (next : TaskPointer) :
    (makeCurrent state cpu next).status = Function.update state.status next .running := by
  funext other
  unfold makeCurrent status
  rw [updateTask_taskPool, Function.update_apply]
  split <;> rfl

theorem makeCurrent_current (state : SchedulerState cpuCount) (cpu : Fin cpuCount) (next : TaskPointer) :
    (makeCurrent state cpu next).current = Function.update state.current cpu (some next) := by
  funext other
  unfold makeCurrent current
  rw [updateTask_perCpu, updateCpu_perCpu, Function.update_apply]
  split <;> rfl

theorem makeCurrent_filled {state : SchedulerState cpuCount} (filled : state.Filled) (cpu : Fin cpuCount)
    (next : TaskPointer) : (makeCurrent state cpu next).Filled := by
  intro other level
  unfold makeCurrent
  rw [updateTask_perCpu, updateCpu_perCpu]
  split
  · exact filled cpu level
  · exact filled other level

theorem switchTask_scheduled {popped : Option TaskPointer} {next : TaskPointer} {queues : ReadyQueues}
    {dispatch : Dispatch} (pops : Pops before cpu popped (withQueues before cpu queues).ready)
    (filled : (withQueues before cpu queues).Filled)
    (chosen : (popped.orElse fun _ => before.idle cpu) = some next) (different : before.current cpu ≠ some next)
    (result : switchTask (withQueues before cpu queues) cpu next = .ok (after, dispatch)) :
    Frame before after ∧ after.Filled ∧ Scheduled before cpu after := by
  unfold switchTask at result
  obtain ⟨middle, requeued, rest⟩ := bind_ok result
  cases rest
  have popFrame := withQueues_frame before cpu queues
  have popCurrent := withQueues_current before cpu queues
  have statuses : (withQueues before cpu queues).status = before.status := rfl
  have old_eq : ((withQueues before cpu queues).perCpu cpu).currentTask = before.current cpu :=
    congrFun popCurrent cpu
  rw [old_eq] at requeued
  have stays (unchanged : middle = withQueues before cpu queues)
      (idle : ∀ old, before.current cpu = some old → before.status old ≠ .running) :
      Frame before (makeCurrent middle cpu next) ∧ (makeCurrent middle cpu next).Filled ∧
        Scheduled before cpu (makeCurrent middle cpu next) := by
    subst unchanged
    refine ⟨popFrame.trans (makeCurrent_frame _ _ _), makeCurrent_filled filled _ _, ?_⟩
    refine .leave ⟨popped, ?_, chosen⟩ different idle ?_ ?_
    · rw [makeCurrent_ready]
      exact pops
    · rw [makeCurrent_status, statuses]
    · rw [makeCurrent_current, popCurrent]
  cases old : before.current cpu with
  | none =>
    rw [old] at requeued
    cases requeued
    exact stays rfl fun _ found => by rw [old] at found; cases found
  | some task =>
    rw [old] at requeued
    unfold requeueOld at requeued
    simp only at requeued
    split at requeued
    next running =>
      have changed := updateTask_frame (withQueues before cpu queues) task
        (fun task => { task with status := .ready }) fun _ => rfl
      have changedFilled : ((withQueues before cpu queues).updateTask task
        fun task => { task with status := .ready }).Filled := filled
      have pushes := pushReady_enqueued changedFilled requeued
      obtain ⟨level, level_eq, lists⟩ := pushes.level
      refine ⟨popFrame.trans (changed.trans (pushes.frame.trans (makeCurrent_frame _ _ _))),
        makeCurrent_filled pushes.filled _ _, ?_⟩
      refine .requeue ⟨popped, pops, chosen⟩ different old running level_eq ?_ ?_ ?_
      · intro other rank
        rw [makeCurrent_ready, lists]
        rfl
      · rw [makeCurrent_status]
        congr 1
        funext other
        unfold status
        rw [pushes.taskPool, updateTask_taskPool, Function.update_apply]
        split <;> rfl
      · rw [makeCurrent_current, pushes.current]
        exact congrArg (fun current => Function.update current cpu (some next)) popCurrent
    next notRunning =>
      cases requeued
      exact stays rfl fun _ found => by
        rw [old] at found
        cases found
        exact notRunning

theorem performScheduling_scheduled {apicId : Nat} {dispatch : Dispatch} (filled : before.Filled)
    (found : perCpuCurrent before.perCpu apicId = some cpu)
    (result : performScheduling before apicId = .ok (after, dispatch)) :
    Frame before after ∧ after.Filled ∧ Scheduled before cpu after := by
  unfold performScheduling at result
  rw [found] at result
  cases taken : taskQueuePopPriority (before.perCpu cpu).readyQueues with
  | mk popped queues =>
    obtain ⟨pops, poppedFilled⟩ := popPriority_pops filled taken
    simp only [taken] at result
    have idle_eq : ((withQueues before cpu queues).perCpu cpu).idleTask = before.idle cpu :=
      (withQueues_frame before cpu queues).idle cpu
    have old_eq : ((withQueues before cpu queues).perCpu cpu).currentTask = before.current cpu :=
      congrFun (withQueues_current before cpu queues) cpu
    split at result
    next => cases result
    next next picked =>
      have chosen : (popped.orElse fun _ => before.idle cpu) = some next := by
        rw [← idle_eq]
        exact picked
      split at result
      next same =>
        cases result
        have refreshed := updateTask_frame (withQueues before cpu queues) next
          (fun task => { task with remainingTicks := timeSliceTicks }) fun _ => rfl
        refine ⟨(withQueues_frame before cpu queues).trans refreshed, poppedFilled, ?_⟩
        refine .stay ⟨popped, pops, chosen⟩ (old_eq.symm.trans same) ?_ (withQueues_current before cpu queues)
        funext other
        unfold status
        rw [updateTask_taskPool]
        split
        next known =>
          subst known
          rfl
        next => rfl
      next different =>
        exact switchTask_scheduled pops poppedFilled chosen (fun same => different (old_eq.trans same)) result

/-- What `create_new_task` does when it finds a slot and a stack. -/
structure CreatedTask (before : SchedulerState cpuCount) (apicId priority : Nat) (task : TaskPointer)
    (target : Fin cpuCount) (level : Fin maxPriorityLevels) (after : SchedulerState cpuCount) : Prop where
  slot : freeSlot before = some task
  stack : before.stackIndex < maxTaskCount
  chosen : ((leastLoaded before).orElse fun _ => perCpuCurrent before.perCpu apicId) = some target
  level_eq : level.val = priority
  identifier : (after.taskPool task).identifier = before.nextTaskId
  priorityLevel : (after.taskPool task).priorityLevel = priority
  status : after.status task = .ready
  executionContext : (after.taskPool task).executionContext = (before.taskPool task).executionContext
  others : ∀ other, other ≠ task → after.taskPool other = before.taskPool other
  ready : ∀ cpu rank, after.ready cpu rank =
    if cpu = target ∧ rank = level then pushed (before.ready cpu rank) task else before.ready cpu rank
  perCpu : ∀ cpu, after.perCpu cpu =
    { before.perCpu cpu with
      readyQueues := (after.perCpu cpu).readyQueues
      taskCount := (after.perCpu cpu).taskCount }
  filled : after.Filled
  nextTaskId : after.nextTaskId = u32 (before.nextTaskId + 1)
  stackIndex : after.stackIndex = before.stackIndex + 1

theorem CreatedTask.idle {apicId priority : Nat} {task : TaskPointer} {target : Fin cpuCount}
    {level : Fin maxPriorityLevels} (creation : CreatedTask before apicId priority task target level after) :
    after.idle = before.idle := by
  funext cpu
  unfold SchedulerState.idle
  rw [creation.perCpu]

theorem CreatedTask.current {apicId priority : Nat} {task : TaskPointer} {target : Fin cpuCount}
    {level : Fin maxPriorityLevels} (creation : CreatedTask before apicId priority task target level after) :
    after.current = before.current := by
  funext cpu
  unfold SchedulerState.current
  rw [creation.perCpu]

theorem CreatedTask.statuses {apicId priority : Nat} {task other : TaskPointer} {target : Fin cpuCount}
    {level : Fin maxPriorityLevels} (creation : CreatedTask before apicId priority task target level after)
    (different : other ≠ task) : after.status other = before.status other := by
  unfold SchedulerState.status
  rw [creation.others other different]

/-- Not even the new task's slot gets another context. -/
theorem CreatedTask.context {apicId priority : Nat} {task : TaskPointer} {target : Fin cpuCount}
    {level : Fin maxPriorityLevels} (creation : CreatedTask before apicId priority task target level after)
    (other : TaskPointer) : (after.taskPool other).executionContext = (before.taskPool other).executionContext := by
  by_cases same : other = task
  · rw [same, creation.executionContext]
  · rw [creation.others other same]

theorem prepareTask_result {task : TaskPointer} {target : Fin cpuCount} {name : List UInt8}
    {entry priority stackSize : Nat}
    (result : prepareTask before task target name entry priority stackSize = .ok after) :
    ∃ prepared : Task, prepared.identifier = before.nextTaskId ∧ prepared.priorityLevel = priority ∧
      prepared.status = .ready ∧ prepared.assignedCpu = (before.perCpu target).cpuId ∧
      prepared.executionContext = (before.taskPool task).executionContext ∧
        after.taskPool = Function.update before.taskPool task prepared ∧
      after.perCpu = before.perCpu ∧ after.nextTaskId = u32 (before.nextTaskId + 1) ∧
      after.stackIndex = before.stackIndex + 1 := by
  unfold prepareTask at result
  obtain ⟨taskName, _, result⟩ := bind_ok result
  obtain ⟨stack, _, result⟩ := bind_ok result
  cases result
  refine ⟨_, rfl, rfl, rfl, rfl, ?_, rfl, rfl, rfl, rfl⟩
  rfl

theorem enlist_result {priority : Nat} {task : TaskPointer} (filled : before.Filled)
    (result : enlist before cpu priority task = .ok after) :
    ∃ queued, Enqueued before cpu priority task queued ∧ after.taskPool = queued.taskPool ∧
      after.nextTaskId = queued.nextTaskId ∧ after.stackIndex = queued.stackIndex ∧
      ∀ other, after.perCpu other = { queued.perCpu other with taskCount := (after.perCpu other).taskCount } := by
  unfold enlist at result
  obtain ⟨queued, push, result⟩ := bind_ok result
  cases result
  refine ⟨queued, pushReady_enqueued filled push, rfl, rfl, rfl, ?_⟩
  intro other
  rw [updateCpu_perCpu]
  split
  next same => rw [same]
  next => rfl

theorem createNewTask_cases {apicId entry priority stackSize : Nat} {name : List UInt8} {created : Option TaskPointer}
    (filled : before.Filled)
    (result : createNewTask before apicId name entry priority stackSize = .ok (after, created)) :
    (after = before ∧ created = none) ∨
    ∃ task target level, created = some task ∧ CreatedTask before apicId priority task target level after := by
  unfold createNewTask at result
  simp only at result
  split at result
  next =>
    cases result
    exact .inl ⟨rfl, rfl⟩
  next task slot =>
    split at result
    next =>
      cases result
      exact .inl ⟨rfl, rfl⟩
    next room =>
      split at result
      next => cases result
      next target chosen =>
        obtain ⟨prepared, preparing, result⟩ := bind_ok result
        obtain ⟨enlisted, enlisting, result⟩ := bind_ok result
        cases result
        obtain ⟨filling, identifier, priorityLevel, status, _, context, pool, cpus, nextTaskId, stackIndex⟩ :=
          prepareTask_result preparing
        have preparedFilled : prepared.Filled := by
          intro other level
          rw [cpus]
          exact filled other level
        obtain ⟨queued, pushes, samePool, sameId, sameIndex, counted⟩ := enlist_result preparedFilled enlisting
        obtain ⟨level, level_eq, lists⟩ := pushes.level
        have slotPool : after.taskPool = Function.update before.taskPool task filling := by
          rw [samePool, pushes.taskPool, pool]
        refine .inr ⟨task, target, level, rfl, slot, by omega, chosen, level_eq, ?_, ?_, ?_, ?_, ?_, ?_, ?_, ?_, ?_, ?_⟩
        · rw [slotPool, Function.update_self, identifier]
        · rw [slotPool, Function.update_self, priorityLevel]
        · unfold SchedulerState.status
          rw [slotPool, Function.update_self, status]
        · rw [slotPool, Function.update_self, context]
        · intro other different
          rw [slotPool, Function.update_of_ne different]
        · intro other rank
          rw [← ready_congr cpus, ← lists]
          unfold ready
          rw [counted]
        · intro other
          rw [counted, pushes.frame.cpu, pushes.current, current_congr cpus, cpus]
          rfl
        · intro other rank
          rw [counted]
          exact pushes.filled other rank
        · rw [sameId, pushes.frame.nextTaskId, nextTaskId]
        · rw [sameIndex, pushes.frame.stackIndex, stackIndex]

/-- A task gets another status, and nothing else changes but time slices. -/
structure Restatus (before : SchedulerState cpuCount) (task : TaskPointer) (status : TaskStatus)
    (after : SchedulerState cpuCount) : Prop where
  frame : Frame before after
  perCpu : after.perCpu = before.perCpu
  status : after.status = Function.update before.status task status

theorem Restatus.ready {task : TaskPointer} {status : TaskStatus} (changed : Restatus before task status after) :
    after.ready = before.ready :=
  ready_congr changed.perCpu

theorem Restatus.current {task : TaskPointer} {status : TaskStatus} (changed : Restatus before task status after) :
    after.current = before.current :=
  current_congr changed.perCpu

theorem Restatus.filled {task : TaskPointer} {status : TaskStatus} (changed : Restatus before task status after)
    (filled : before.Filled) : after.Filled := by
  intro cpu level
  rw [changed.perCpu]
  exact filled cpu level

theorem setStatus_restatus (state : SchedulerState cpuCount) (task : TaskPointer) (status : TaskStatus) :
    Restatus state task status (state.updateTask task fun task => { task with status := status }) where
  frame := updateTask_frame _ _ _ fun _ => rfl
  perCpu := rfl
  status := by
    funext other
    unfold SchedulerState.status
    rw [updateTask_taskPool, Function.update_apply]
    split <;> rfl

/-- A task gets another number of ticks. -/
theorem setTicks_restatus (state : SchedulerState cpuCount) (task : TaskPointer) (ticks : Task → Nat) :
    Restatus state task (state.status task)
      (state.updateTask task fun task => { task with remainingTicks := ticks task }) where
  frame := updateTask_frame _ _ _ fun _ => rfl
  perCpu := rfl
  status := by
    funext other
    unfold SchedulerState.status
    rw [updateTask_taskPool, Function.update_apply]
    split <;> rfl

theorem spendTick_restatus (state : SchedulerState cpuCount) (task : TaskPointer) :
    Restatus state task (state.status task) (spendTick state task) := by
  unfold spendTick
  split
  next => exact setTicks_restatus state task fun task => task.remainingTicks - 1
  next => exact ⟨.refl _, rfl, (Function.update_eq_self _ _).symm⟩

theorem getCurrentTask_some {apicId : Nat} {task : TaskPointer} (found : getCurrentTask before apicId = some task) :
    ∃ cpu, perCpuCurrent before.perCpu apicId = some cpu ∧ before.current cpu = some task :=
  Option.bind_eq_some_iff.mp found

theorem unblockTask_cases {task : TaskPointer} (result : unblockTask before (some task) = .ok after) :
    after = before ∨
    ∃ target middle, before.status task = .blocked ∧
      perCpuGet cpuCount (before.taskPool task).assignedCpu = some target ∧ Restatus before task .ready middle ∧
      middle.pushReady target (before.taskPool task).priorityLevel task = .ok after := by
  unfold unblockTask at result
  simp only at result
  split at result
  next =>
    cases result
    exact .inl rfl
  next blocked =>
    split at result
    next =>
      cases result
      exact .inl rfl
    next target known => exact .inr ⟨target, _, not_not.mp blocked, known, setStatus_restatus _ _ _, result⟩

theorem markTerminated_taskPool (state : SchedulerState cpuCount) (task : TaskPointer) :
    (markTerminated state task).taskPool =
      (state.updateTask task fun task => { task with status := .terminated }).taskPool := by
  unfold markTerminated
  simp only
  split <;> rfl

/-- The processor that the task is assigned to may count one task less. -/
theorem markTerminated_perCpu (state : SchedulerState cpuCount) (task : TaskPointer) (cpu : Fin cpuCount) :
    (markTerminated state task).perCpu cpu =
      { state.perCpu cpu with taskCount := ((markTerminated state task).perCpu cpu).taskCount } := by
  unfold markTerminated
  simp only
  split
  next => rfl
  next =>
    rw [updateCpu_perCpu]
    split
    next same =>
      subst same
      rfl
    next => rfl

theorem markTerminated_status (state : SchedulerState cpuCount) (task : TaskPointer) :
    (markTerminated state task).status = Function.update state.status task .terminated := by
  rw [← (setStatus_restatus state task .terminated).status]
  exact status_congr (markTerminated_taskPool state task)

theorem markTerminated_identifier (state : SchedulerState cpuCount) (task other : TaskPointer) :
    ((markTerminated state task).taskPool other).identifier = (state.taskPool other).identifier := by
  rw [markTerminated_taskPool]
  exact (setStatus_restatus state task .terminated).frame.identifier other

theorem markTerminated_ready (state : SchedulerState cpuCount) (task : TaskPointer) :
    (markTerminated state task).ready = state.ready := by
  funext cpu level
  unfold ready
  rw [markTerminated_perCpu]

theorem markTerminated_idle (state : SchedulerState cpuCount) (task : TaskPointer) :
    (markTerminated state task).idle = state.idle := by
  funext cpu
  unfold SchedulerState.idle
  rw [markTerminated_perCpu]

theorem markTerminated_perCpuCurrent (state : SchedulerState cpuCount) (task : TaskPointer) {apicId : Nat} :
    perCpuCurrent (markTerminated state task).perCpu apicId = perCpuCurrent state.perCpu apicId :=
  perCpuCurrent_congr (fun cpu => by rw [markTerminated_perCpu]) apicId

theorem markTerminated_current (state : SchedulerState cpuCount) (task : TaskPointer) :
    (markTerminated state task).current = state.current := by
  funext cpu
  unfold current
  rw [markTerminated_perCpu]

theorem markTerminated_numbers (state : SchedulerState cpuCount) (task : TaskPointer) :
    (markTerminated state task).nextTaskId = state.nextTaskId ∧
      (markTerminated state task).stackIndex = state.stackIndex := by
  unfold markTerminated
  simp only
  split <;> exact ⟨rfl, rfl⟩

/-- A processor without a current task. -/
def withoutCurrent (state : SchedulerState cpuCount) (cpu : Fin cpuCount) : SchedulerState cpuCount :=
  state.updateCpu cpu fun pcpu => { pcpu with currentTask := none }

theorem withoutCurrent_ready (state : SchedulerState cpuCount) (cpu : Fin cpuCount) :
    (withoutCurrent state cpu).ready = state.ready := by
  funext other level
  unfold withoutCurrent ready
  rw [updateCpu_perCpu]
  split
  next same => rw [same]
  next => rfl

theorem withoutCurrent_current (state : SchedulerState cpuCount) (cpu : Fin cpuCount) :
    (withoutCurrent state cpu).current = Function.update state.current cpu none := by
  funext other
  unfold withoutCurrent current
  rw [updateCpu_perCpu, Function.update_apply]
  split <;> rfl

theorem withoutCurrent_frame (state : SchedulerState cpuCount) (cpu : Fin cpuCount) :
    Frame state (withoutCurrent state cpu) := updateCpu_frame _ _ _ fun _ => rfl

theorem withoutCurrent_filled {state : SchedulerState cpuCount} (filled : state.Filled) (cpu : Fin cpuCount) :
    (withoutCurrent state cpu).Filled := by
  intro other level
  unfold withoutCurrent
  rw [updateCpu_perCpu]
  split
  · exact filled cpu level
  · exact filled other level

theorem markTerminated_filled {state : SchedulerState cpuCount} (filled : state.Filled) (task : TaskPointer) :
    (markTerminated state task).Filled := by
  intro cpu level
  rw [markTerminated_perCpu]
  exact filled cpu level

theorem perCpuSetOnline_same (perCpu : Fin cpuCount → PerCpuData) (cpuId online : Nat) (cpu : Fin cpuCount) :
    perCpuSetOnline perCpu cpuId online cpu =
      { perCpu cpu with isOnline := (perCpuSetOnline perCpu cpuId online cpu).isOnline } := by
  unfold perCpuSetOnline
  cases perCpuGet cpuCount cpuId with
  | none => rfl
  | some target =>
    simp only [Function.update_apply]
    split
    next same => rw [same]
    next => rfl

/-- A processor gets its idle task and runs it. -/
structure Installed (before : SchedulerState cpuCount) (cpu : Fin cpuCount) (idle : TaskPointer)
    (after : SchedulerState cpuCount) : Prop where
  task : ∀ task, after.taskPool task = { before.taskPool task with status := after.status task }
  status : after.status = Function.update before.status idle .running
  ready : after.ready = before.ready
  current : after.current = Function.update before.current cpu (some idle)
  idle : after.idle = Function.update before.idle cpu (some idle)
  numbers : ∀ other, (after.perCpu other).cpuId = (before.perCpu other).cpuId ∧
    (after.perCpu other).apicId = (before.perCpu other).apicId
  filled : after.Filled
  nextTaskId : after.nextTaskId = before.nextTaskId
  stackIndex : after.stackIndex = before.stackIndex

theorem Installed.apicId {idle : TaskPointer} (install : Installed before cpu idle after) (other : Fin cpuCount) :
    (after.perCpu other).apicId = (before.perCpu other).apicId :=
  (install.numbers other).2

theorem install_installed (state : SchedulerState cpuCount) (filled : state.Filled) (cpu : Fin cpuCount)
    (idle : TaskPointer) :
    Installed state cpu idle ((state.updateCpu cpu fun pcpu =>
      { pcpu with idleTask := some idle, currentTask := some idle }).updateTask idle
        fun task => { task with status := .running }) where
  task other := by
    unfold status
    rw [updateTask_taskPool]
    split
    next same =>
      subst same
      rfl
    next => rfl
  status := (setStatus_restatus _ idle .running).status
  ready := by
    funext other level
    unfold ready
    rw [updateTask_perCpu, updateCpu_perCpu]
    split
    next same =>
      subst same
      rfl
    next => rfl
  current := by
    funext other
    unfold current
    rw [updateTask_perCpu, updateCpu_perCpu, Function.update_apply]
    split <;> rfl
  idle := by
    funext other
    unfold SchedulerState.idle
    rw [updateTask_perCpu, updateCpu_perCpu, Function.update_apply]
    split <;> rfl
  numbers other := by
    rw [updateTask_perCpu, updateCpu_perCpu]
    split
    next same =>
      subst same
      exact ⟨rfl, rfl⟩
    next => exact ⟨rfl, rfl⟩
  filled := by
    intro other level
    rw [updateTask_perCpu, updateCpu_perCpu]
    split
    · exact filled cpu level
    · exact filled other level
  nextTaskId := rfl
  stackIndex := rfl

theorem initializeWith_installed {apicId idleTaskEntry : Nat} {idleName : List UInt8} {idle : TaskPointer}
    (filled : before.Filled) (result : initializeWith idleName before apicId idleTaskEntry = .ok (after, idle)) :
    ∃ cpu target level middle, perCpuCurrent before.perCpu apicId = some cpu ∧
      CreatedTask (withQueues before cpu fun _ => initializeTaskQueue) apicId 0 idle target level middle ∧
      Installed middle cpu idle after := by
  unfold initializeWith at result
  split at result
  next => cases result
  next cpu known =>
    obtain ⟨⟨middle, created⟩, creating, result⟩ := bind_ok result
    have emptied : (withQueues before cpu fun _ => initializeTaskQueue).Filled :=
      withQueues_filled before cpu _ filled fun _ => initializeTaskQueue_filled
    rcases createNewTask_cases emptied creating with ⟨_, nothing⟩ | ⟨task, target, level, some_eq, creation⟩
    · subst nothing
      cases result
    · subst some_eq
      cases result
      exact ⟨cpu, target, level, middle, known, creation, install_installed middle creation.filled cpu idle⟩

end Proofs
end Kernix
