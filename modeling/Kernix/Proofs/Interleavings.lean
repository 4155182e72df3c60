import Kernix.Processes.Sections
import Kernix.Proofs.SchedulerRuns

/-! Processors that interleave their scheduler calls section by section, and why the
sections are the calls: run one after the other they do what the call does. -/

namespace Kernix.Proofs
open SchedulerState Transition

variable {cpuCount : Nat}

/-- The first section of `initialize_scheduler` and `initialize_ap_scheduler`. -/
def enterInitialize (idleName : List UInt8) (state : SchedulerState cpuCount) (apicId idleTaskEntry : Nat) :
    SchedulerState cpuCount × Option (Pending cpuCount) :=
  match perCpuCurrent state.perCpu apicId with
  | none => (state, some .halted)
  | some pcpu =>
    (state.updateCpu pcpu fun pcpu => { pcpu with readyQueues := fun _ => initializeTaskQueue },
      some (.chooseTarget ⟨idleName, idleTaskEntry, 0, 4096, some pcpu⟩))

/-- The first section of `unblock_task`, up to its lock. -/
def enterUnblock (state : SchedulerState cpuCount) (task : TaskPointer) :
    SchedulerState cpuCount × Option (Pending cpuCount) :=
  if (state.taskPool task).status ≠ .blocked then (state, none)
  else (state, (perCpuGet cpuCount (state.taskPool task).assignedCpu).map fun target => .makeReady target task)

/-- The first section of `terminate_task`, which has no lock before that of `perform_scheduling`. -/
def enterTerminate (state : SchedulerState cpuCount) (apicId : Nat) (task : TaskPointer) :
    SchedulerState cpuCount × Option (Pending cpuCount) :=
  let state := markTerminated state task
  match perCpuCurrent state.perCpu apicId with
  | none => (state, none)
  | some cpu =>
    if (state.perCpu cpu).currentTask = some task then
      enterScheduling (state.updateCpu cpu fun pcpu => { pcpu with currentTask := none }) apicId
    else (state, none)

/-- The first section of a call, and the one that follows it. -/
def enter (state : SchedulerState cpuCount) (apicId : Nat) :
    SchedulerOp → SchedulerState cpuCount × Option (Pending cpuCount)
  | .initializeScheduler idleTaskEntry => enterInitialize (literal "idle") state apicId idleTaskEntry
  | .initializeApScheduler idleTaskEntry => enterInitialize (literal "idle_ap") state apicId idleTaskEntry
  | .createNewTask name entry priority stackSize =>
    (state, some (.chooseTarget ⟨name, entry, priority, stackSize, none⟩))
  | .yieldCurrentTask =>
    match getCurrentTask state apicId with
    | none => (state, none)
    | some _ => enterScheduling state apicId
  | .performScheduling => enterScheduling state apicId
  | .handleSchedulerTimer =>
    match getCurrentTask state apicId with
    | none => (state, none)
    | some task =>
      let state := spendTick state task
      if (state.taskPool task).remainingTicks = 0 then enterScheduling state apicId else (state, none)
  | .blockCurrentTask =>
    match getCurrentTask state apicId with
    | none => (state, none)
    | some task => enterScheduling (state.updateTask task fun task => { task with status := .blocked }) apicId
  | .unblockTask none | .terminateTask none => (state, none)
  | .unblockTask (some task) => enterUnblock state task
  | .terminateTask (some task) => enterTerminate state apicId task
  | .perCpuSetOnline cpuId online => ({ state with perCpu := perCpuSetOnline state.perCpu cpuId online }, none)

/-- What is left of a call, with no other processor in between. -/
def finish (apicId : Nat) :
    Nat → SchedulerState cpuCount × Option (Pending cpuCount) → Except Stop (SchedulerState cpuCount)
  | _, (state, none) => .ok state
  | 0, (_, some _) => .error .halted
  | sections + 1, (state, some pending) => advance state apicId pending >>= finish apicId sections

@[simp] theorem finish_none (apicId sections : Nat) (state : SchedulerState cpuCount) :
    finish apicId sections (state, none) = .ok state := by
  cases sections <;> rfl

@[simp] theorem finish_some (apicId sections : Nat) (state : SchedulerState cpuCount) (pending : Pending cpuCount) :
    finish apicId (sections + 1) (state, some pending) = advance state apicId pending >>= finish apicId sections := rfl

theorem finish_halted (apicId sections : Nat) (state : SchedulerState cpuCount) :
    finish apicId sections (state, some .halted) = .error .halted := by
  induction sections with
  | zero => rfl
  | succ sections ih => exact ih

section
variable (state : SchedulerState cpuCount) (apicId sections : Nat)

theorem finish_leaveOld (cpu : Fin cpuCount) (popped : Option TaskPointer) :
    finish apicId (sections + 3) (state, some (.leaveOld cpu popped)) =
      match popped.orElse fun _ => (state.perCpu cpu).idleTask with
      | none => .error .undefined
      | some nextTask =>
        if (state.perCpu cpu).currentTask = some nextTask then
          .ok (state.updateTask nextTask fun task => { task with remainingTicks := timeSliceTicks })
        else (switchTask state cpu nextTask).map Prod.fst := by
  rw [finish_some, advance, leaveOldTask]
  cases popped.orElse fun _ => (state.perCpu cpu).idleTask with
  | none => rfl
  | some nextTask =>
    simp only
    split
    next => rfl
    next =>
      unfold switchTask requeueOld
      cases (state.perCpu cpu).currentTask with
      | none => rfl
      | some oldTask =>
        simp only
        split
        next =>
          simp only [bind, Except.bind, finish_some]
          rw [advance]
          simp only [updateTask_taskPool, if_true]
          cases SchedulerState.pushReady _ _ _ _ with
          | error => rfl
          | ok requeued => exact finish_none _ _ _
        next => rfl

theorem finish_scheduling :
    finish apicId (sections + 4) (enterScheduling state apicId) = (performScheduling state apicId).map Prod.fst := by
  unfold enterScheduling performScheduling
  cases perCpuCurrent state.perCpu apicId with
  | none => exact finish_none _ _ _
  | some cpu =>
    rw [Option.map_some, finish_some, advance]
    simp only [bind, Except.bind]
    rw [finish_leaveOld]
    generalize (state.updateCpu cpu _) = popped
    cases (taskQueuePopPriority (state.perCpu cpu).readyQueues).1.orElse fun _ => (popped.perCpu cpu).idleTask with
    | none => rfl
    | some nextTask =>
      simp only
      split <;> rfl

/-- `create_new_task` in its four sections. -/
theorem finish_chooseTarget (request : Request cpuCount) :
    finish apicId 5 (state, some (.chooseTarget request)) =
      createNewTask state apicId request.name request.entry request.priority request.stackSize >>= fun created =>
        finish apicId 1 (created.1, request.answer created.2) := by
  have refused : finish apicId 3 (state, request.answer none) = finish apicId 1 (state, request.answer none) := by
    unfold Request.answer
    cases request.idleOf <;> rfl
  rw [finish_some, advance, createNewTask]
  simp only [bind, Except.bind, finish_some]
  rw [advance]
  cases freeSlot state with
  | none => exact refused
  | some task =>
    by_cases full : state.stackIndex ≥ maxTaskCount
    · simp only [if_pos full]
      exact refused
    · simp only [if_neg full, finish_some, chosenTarget]
      rw [advance.eq_def]
      cases (leastLoaded state).orElse fun _ => perCpuCurrent state.perCpu apicId with
      | none => rfl
      | some target =>
        simp only [bind, Except.bind]
        cases prepareTask state task target request.name request.entry request.priority request.stackSize with
        | error => rfl
        | ok prepared =>
          simp only [finish_some]
          rw [advance]
          simp only [bind, Except.bind]
          cases Kernix.enlist prepared target request.priority task <;> rfl

theorem finish_initialize (idleName : List UInt8) (idleTaskEntry : Nat) :
    finish apicId 5 (enterInitialize idleName state apicId idleTaskEntry) =
      (initializeWith idleName state apicId idleTaskEntry).map Prod.fst := by
  unfold enterInitialize initializeWith
  cases perCpuCurrent state.perCpu apicId with
  | none => exact finish_halted _ _ _
  | some pcpu =>
    simp only
    rw [finish_chooseTarget]
    simp only [bind, Except.bind]
    cases createNewTask (state.updateCpu pcpu fun pcpu => { pcpu with readyQueues := fun _ => initializeTaskQueue })
      apicId idleName idleTaskEntry 0 4096 with
    | error => rfl
    | ok created =>
      obtain ⟨middle, task⟩ := created
      cases task <;> rfl

end

/-- The sections of a call, run one after the other, are the call. -/
theorem finish_enter (state : SchedulerState cpuCount) (apicId : Nat) (op : SchedulerOp) :
    finish apicId 5 (enter state apicId op) = (runOp state apicId op).map Prod.fst := by
  have mapped {α β : Type} (first : Except Stop (SchedulerState cpuCount × α)) (change : α → β) :
      (first.map fun result => (result.1, change result.2)).map Prod.fst = first.map Prod.fst := by
    cases first <;> rfl
  cases op with
  | initializeScheduler idleTaskEntry | initializeApScheduler idleTaskEntry =>
    rw [runOp, enter, finish_initialize]
    exact (mapped _ some).symm
  | createNewTask name entry priority stackSize =>
    rw [runOp, enter, finish_chooseTarget]
    cases createNewTask state apicId name entry priority stackSize <;> rfl
  | yieldCurrentTask =>
    rw [runOp, enter, mapped _ fun _ => none, yieldCurrentTask]
    cases getCurrentTask state apicId with
    | none => rfl
    | some task => exact finish_scheduling _ _ 1
  | performScheduling =>
    rw [runOp, enter, mapped _ fun _ => none]
    exact finish_scheduling _ _ 1
  | handleSchedulerTimer =>
    rw [runOp, enter, mapped _ fun _ => none, handleSchedulerTimer]
    cases getCurrentTask state apicId with
    | none => rfl
    | some task =>
      simp only
      split
      next => exact finish_scheduling _ _ 1
      next => rfl
  | blockCurrentTask =>
    rw [runOp, enter, mapped _ fun _ => none, blockCurrentTask]
    cases getCurrentTask state apicId with
    | none => rfl
    | some task => exact finish_scheduling _ _ 1
  | unblockTask task =>
    cases task with
    | none => rfl
    | some task =>
      rw [runOp, enter, enterUnblock, unblockTask]
      split
      next => rfl
      next =>
        cases perCpuGet cpuCount (state.taskPool task).assignedCpu with
        | none => rfl
        | some target =>
          rw [Option.map_some, finish_some, advance]
          simp only [bind, Except.bind]
          cases SchedulerState.pushReady _ _ _ _ <;> rfl
  | terminateTask task =>
    cases task with
    | none => rfl
    | some task =>
      rw [runOp, enter, mapped _ fun _ => none, enterTerminate, terminateTask]
      cases perCpuCurrent (markTerminated state task).perCpu apicId with
      | none => rfl
      | some cpu =>
        simp only
        split
        next => exact finish_scheduling _ _ 1
        next => rfl
  | perCpuSetOnline cpuId online => rfl

/-- The scheduler, and the section that each processor comes to next if it is in a call. -/
structure Processors (cpuCount : Nat) where
  state : SchedulerState cpuCount
  pending : Fin cpuCount → Option (Pending cpuCount)

/-- No processor has made a call since `per_cpu_init`. -/
def Processors.boot (cpuList : Fin cpuCount → CpuInfo) : Processors cpuCount :=
  ⟨SchedulerState.boot cpuList, fun _ => none⟩

/-- A processor that enters a call, or one that goes on with the call that it is in. -/
abbrev Turning (cpuCount : Nat) := Fin cpuCount × Option SchedulerOp

section
variable (cpuList : Fin cpuCount → CpuInfo)

def turn (before : Processors cpuCount) (label : Turning cpuCount) : Option (Processors cpuCount) :=
  let apicId := (cpuList label.1).apicId
  match before.pending label.1, label.2 with
  | none, some op =>
    let result := enter before.state apicId op
    some ⟨result.1, Function.update before.pending label.1 result.2⟩
  | some pending, none =>
    match advance before.state apicId pending with
    | .error _ => none
    | .ok result => some ⟨result.1, Function.update before.pending label.1 result.2⟩
  | _, _ => none

variable (guard : Processors cpuCount → Turning cpuCount → Prop)

/-- The turns of a run, in any order of the processors, as far as `guard` admits them. -/
def TurnStep (before : Processors cpuCount) (label : Turning cpuCount) (after : Processors cpuCount) : Prop :=
  guard before label ∧ turn cpuList before label = some after

variable [∀ before label, Decidable (guard before label)]

/-- A run computed, unless a turn is not admitted or the code's behaviour is undefined. -/
def takeTurns (processors : Processors cpuCount) : List (Turning cpuCount) → Option (Processors cpuCount)
  | [] => some processors
  | label :: labels =>
    if guard processors label then (turn cpuList processors label).bind (takeTurns · labels) else none

theorem takeTurns_reachable {initial : Processors cpuCount → Prop} {labels : List (Turning cpuCount)}
    {first last : Processors cpuCount} (reached : Reachable initial (TurnStep cpuList guard) first)
    (run : takeTurns cpuList guard first labels = some last) : Reachable initial (TurnStep cpuList guard) last := by
  induction labels generalizing first with
  | nil =>
    cases run
    exact reached
  | cons label labels ih =>
    unfold takeTurns at run
    split at run
    next admitted =>
      obtain ⟨middle, turned, rest⟩ := Option.bind_eq_some_iff.mp run
      exact ih (.step reached ⟨admitted, turned⟩) rest
    next => cases run

end

end Kernix.Proofs
