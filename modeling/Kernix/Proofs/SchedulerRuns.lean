import Kernix.Lib.Runs
import Kernix.Proofs.SchedulerSteps

/-! Runs of the scheduler: any sequence of its calls, on any of the processors,
with a record of which pool slots have been handed out and terminated. -/

namespace Kernix.Proofs
open SchedulerState Transition

inductive SchedulerOp where
  | initializeScheduler (idleTaskEntry : Nat)
  | initializeApScheduler (idleTaskEntry : Nat)
  | createNewTask (name : List UInt8) (entry priority stackSize : Nat)
  | yieldCurrentTask
  | performScheduling
  | handleSchedulerTimer
  | blockCurrentTask
  | unblockTask (task : Option TaskPointer)
  | terminateTask (task : Option TaskPointer)
  | perCpuSetOnline (cpuId online : Nat)

/-- What has become of a pool slot: not handed out yet, handed out, or terminated since. -/
inductive Life where
  | unborn
  | live
  | terminated
  deriving DecidableEq

/-- The scheduler, with the history of every slot. -/
structure Observed (cpuCount : Nat) where
  state : SchedulerState cpuCount
  life : TaskPointer → Life

variable {cpuCount : Nat}

/-- One call on the processor with the given number, and the slot it hands out. -/
def runOp (state : SchedulerState cpuCount) (apicId : Nat) :
    SchedulerOp → Except Stop (SchedulerState cpuCount × Option TaskPointer)
  | .initializeScheduler idleTaskEntry =>
    (initializeScheduler state apicId idleTaskEntry).map fun result => (result.1, some result.2)
  | .initializeApScheduler idleTaskEntry =>
    (initializeApScheduler state apicId idleTaskEntry).map fun result => (result.1, some result.2)
  | .createNewTask name entry priority stackSize => createNewTask state apicId name entry priority stackSize
  | .yieldCurrentTask => (yieldCurrentTask state apicId).map fun result => (result.1, none)
  | .performScheduling => (performScheduling state apicId).map fun result => (result.1, none)
  | .handleSchedulerTimer => (handleSchedulerTimer state apicId).map fun result => (result.1, none)
  | .blockCurrentTask => (blockCurrentTask state apicId).map fun result => (result.1, none)
  | .unblockTask task => (unblockTask state task).map fun result => (result, none)
  | .terminateTask task => (terminateTask state apicId task).map fun result => (result.1, none)
  | .perCpuSetOnline cpuId online =>
    .ok ({ state with perCpu := perCpuSetOnline state.perCpu cpuId online }, none)

def record (life : TaskPointer → Life) : SchedulerOp → Option TaskPointer → TaskPointer → Life
  | .terminateTask (some task), _ => Function.update life task .terminated
  | _, some task => Function.update life task .live
  | _, none => life

/-- One call on one processor, and the slot that it hands out, if any. -/
def Performs (apicId : Nat) (op : SchedulerOp) (before : Observed cpuCount) (created : Option TaskPointer)
    (after : Observed cpuCount) : Prop :=
  runOp before.state apicId op = .ok (after.state, created) ∧ after.life = record before.life op created

/-- The machine after `per_cpu_init`. -/
def booted (cpuList : Fin cpuCount → CpuInfo) : Observed cpuCount := ⟨boot cpuList, fun _ => .unborn⟩

/-- The calls of a run, each with the processor that makes it, as far as `guard` admits them. -/
def GuardedStep (guard : SchedulerState cpuCount → Nat → SchedulerOp → Prop) (before : Observed cpuCount)
    (label : Nat × SchedulerOp) (after : Observed cpuCount) : Prop :=
  guard before.state label.1 label.2 ∧ ∃ created, Performs label.1 label.2 before created after

section
variable (guard : SchedulerState cpuCount → Nat → SchedulerOp → Prop)
  [∀ state apicId op, Decidable (guard state apicId op)]

/-- A run computed: the last state, unless a call is not admitted or does not return. -/
def observeRun (observed : Observed cpuCount) : List (Nat × SchedulerOp) → Option (Observed cpuCount)
  | [] => some observed
  | label :: labels =>
    if guard observed.state label.1 label.2 then
      match runOp observed.state label.1 label.2 with
      | .error _ => none
      | .ok result => observeRun ⟨result.1, record observed.life label.2 result.2⟩ labels
    else none

theorem observeRun_reachable {initial : Observed cpuCount → Prop} {labels : List (Nat × SchedulerOp)}
    {first last : Observed cpuCount} (reached : Reachable initial (GuardedStep guard) first)
    (run : observeRun guard first labels = some last) : Reachable initial (GuardedStep guard) last := by
  induction labels generalizing first with
  | nil =>
    cases run
    exact reached
  | cons label labels ih =>
    unfold observeRun at run
    split at run
    next admitted =>
      split at run
      next => cases run
      next result called => exact ih (.step reached ⟨admitted, result.2, called, rfl⟩) run
    next => cases run

end

/-- The only processor has run `initialize_scheduler`. -/
def Started (processor : CpuInfo) (observed : Observed 1) : Prop :=
  ∃ idleTaskEntry created,
    Performs processor.apicId (.initializeScheduler idleTaskEntry) (booted fun _ => processor) created observed

/-- A run that starts with `initialize_scheduler` on the only processor. -/
def startedRun (guard : SchedulerState 1 → Nat → SchedulerOp → Prop)
    [∀ state apicId op, Decidable (guard state apicId op)] (processor : CpuInfo) (idleTaskEntry : Nat)
    (labels : List (Nat × SchedulerOp)) : Option (Observed 1) :=
  match runOp (boot fun _ => processor) processor.apicId (.initializeScheduler idleTaskEntry) with
  | .error _ => none
  | .ok result =>
    observeRun guard ⟨result.1, record (fun _ => .unborn) (.initializeScheduler idleTaskEntry) result.2⟩ labels

theorem startedRun_reachable (guard : SchedulerState 1 → Nat → SchedulerOp → Prop)
    [∀ state apicId op, Decidable (guard state apicId op)] {processor : CpuInfo} {idleTaskEntry : Nat}
    {labels : List (Nat × SchedulerOp)} {last : Observed 1}
    (run : startedRun guard processor idleTaskEntry labels = some last) :
    Reachable (Started processor) (GuardedStep guard) last := by
  unfold startedRun at run
  split at run
  next => cases run
  next result called =>
    have started : Started processor
        ⟨result.1, record (fun _ => .unborn) (.initializeScheduler idleTaskEntry) result.2⟩ :=
      ⟨idleTaskEntry, result.2, called, rfl⟩
    exact observeRun_reachable guard (.initial started) run

/-- A machine with one processor, whose local APIC has number 0. -/
def oneProcessor : Fin 1 → CpuInfo := fun _ => ⟨0, 1⟩

section
variable {before after : SchedulerState cpuCount} {apicId : Nat} {dispatch : Dispatch}

/-- The calls that end in `perform_scheduling`, with the state in which they call it. -/
inductive Calls (before : SchedulerState cpuCount) (apicId : Nat) : SchedulerOp → SchedulerState cpuCount → Prop where
  | perform : Calls before apicId .performScheduling before
  | yield {task : TaskPointer} (current : getCurrentTask before apicId = some task) :
      Calls before apicId .yieldCurrentTask before
  | timer {task : TaskPointer} (current : getCurrentTask before apicId = some task)
      (spent : ((spendTick before task).taskPool task).remainingTicks = 0) :
      Calls before apicId .handleSchedulerTimer (spendTick before task)
  | block {task : TaskPointer} (current : getCurrentTask before apicId = some task) :
      Calls before apicId .blockCurrentTask (before.updateTask task fun task => { task with status := .blocked })
  | terminate {task : TaskPointer} {cpu : Fin cpuCount}
      (known : perCpuCurrent (markTerminated before task).perCpu apicId = some cpu)
      (current : (markTerminated before task).current cpu = some task) :
      Calls before apicId (.terminateTask (some task))
        ((markTerminated before task).updateCpu cpu fun pcpu => { pcpu with currentTask := none })

/-- Such a call does what `perform_scheduling` does from there. -/
theorem runOp_calls {op : SchedulerOp} {entry : SchedulerState cpuCount} (calls : Calls before apicId op entry) :
    runOp before apicId op = (performScheduling entry apicId).map fun result => (result.1, none) := by
  cases calls with
  | perform => rfl
  | yield current =>
    simp only [runOp, yieldCurrentTask]
    rw [current]
  | timer current spent =>
    simp only [runOp, handleSchedulerTimer]
    rw [current]
    simp only [spent, if_true]
  | block current =>
    simp only [runOp, blockCurrentTask]
    rw [current]
  | terminate known current =>
    have isCurrent : ((markTerminated before _).perCpu _).currentTask = some _ := current
    simp only [runOp, terminateTask]
    rw [known]
    simp only
    rw [if_pos isCurrent]

/-- The two calls that set up a processor. -/
def SchedulerOp.Starts : SchedulerOp → Prop
  | .initializeScheduler _ | .initializeApScheduler _ => True
  | _ => False

/-- All that one call can do. -/
inductive Effect (before : SchedulerState cpuCount) (apicId : Nat) :
    SchedulerOp → Option TaskPointer → SchedulerState cpuCount → Prop where
  | scheduled {op : SchedulerOp} {entry after : SchedulerState cpuCount} {dispatch : Dispatch}
      (calls : Calls before apicId op entry) (result : performScheduling entry apicId = .ok (after, dispatch)) :
      Effect before apicId op none after
  | nothing {op : SchedulerOp} (passive : ∀ task, op ≠ .terminateTask (some task)) :
      Effect before apicId op none before
  | ticked {task : TaskPointer} (current : getCurrentTask before apicId = some task) :
      Effect before apicId .handleSchedulerTimer none (spendTick before task)
  | marked {task : TaskPointer}
      (elsewhere : ∀ cpu, perCpuCurrent before.perCpu apicId = some cpu → before.current cpu ≠ some task) :
      Effect before apicId (.terminateTask (some task)) none (markTerminated before task)
  | created {name : List UInt8} {entry priority stackSize : Nat} {task : TaskPointer} {target : Fin cpuCount}
      {level : Fin maxPriorityLevels} {after : SchedulerState cpuCount}
      (creation : CreatedTask before apicId priority task target level after) :
      Effect before apicId (.createNewTask name entry priority stackSize) (some task) after
  | unblocked {task : TaskPointer} {target : Fin cpuCount} {middle after : SchedulerState cpuCount}
      (blocked : before.status task = .blocked)
      (known : perCpuGet cpuCount (before.taskPool task).assignedCpu = some target)
      (changed : Restatus before task .ready middle)
      (push : middle.pushReady target (before.taskPool task).priorityLevel task = .ok after) :
      Effect before apicId (.unblockTask (some task)) none after
  | initialized {op : SchedulerOp} {idle : TaskPointer} {cpu target : Fin cpuCount} {level : Fin maxPriorityLevels}
      {middle after : SchedulerState cpuCount} (starts : op.Starts)
      (known : perCpuCurrent before.perCpu apicId = some cpu)
      (creation : CreatedTask (withQueues before cpu fun _ => initializeTaskQueue) apicId 0 idle target level middle)
      (install : Installed middle cpu idle after) :
      Effect before apicId op (some idle) after
  | online {cpuId value : Nat} :
      Effect before apicId (.perCpuSetOnline cpuId value) none
        { before with perCpu := perCpuSetOnline before.perCpu cpuId value }

private theorem terminateTask_effect {task : TaskPointer}
    (result : terminateTask before apicId (some task) = .ok (after, dispatch)) :
    Effect before apicId (.terminateTask (some task)) none after := by
  unfold terminateTask at result
  simp only at result
  split at result
  next unknown =>
    cases result
    apply Effect.marked
    intro cpu known
    rw [markTerminated_perCpuCurrent, known] at unknown
    cases unknown
  next cpu known =>
    split at result
    next isCurrent => exact .scheduled (.terminate known isCurrent) result
    next notCurrent =>
      cases result
      apply Effect.marked
      intro other found
      rw [markTerminated_perCpuCurrent, found] at known
      cases known
      rw [← markTerminated_current before task]
      exact notCurrent

theorem runOp_effect {op : SchedulerOp} {created : Option TaskPointer} (filled : before.Filled)
    (result : runOp before apicId op = .ok (after, created)) : Effect before apicId op created after := by
  cases op with
  | initializeScheduler idleTaskEntry | initializeApScheduler idleTaskEntry =>
    obtain ⟨⟨_, idle⟩, installed, pair⟩ := map_ok result
    cases pair
    obtain ⟨cpu, target, level, middle, known, creation, install⟩ := initializeWith_installed filled installed
    exact .initialized trivial known creation install
  | createNewTask name entry priority stackSize =>
    rcases createNewTask_cases filled result with ⟨rfl, rfl⟩ | ⟨task, target, level, rfl, creation⟩
    · exact .nothing fun _ same => by cases same
    · exact .created creation
  | yieldCurrentTask =>
    obtain ⟨⟨_, dispatch⟩, yielded, pair⟩ := map_ok result
    cases pair
    unfold yieldCurrentTask at yielded
    split at yielded
    next =>
      cases yielded
      exact .nothing fun _ same => by cases same
    next task current => exact .scheduled (.yield current) yielded
  | performScheduling =>
    obtain ⟨⟨_, dispatch⟩, scheduled, pair⟩ := map_ok result
    cases pair
    exact .scheduled .perform scheduled
  | handleSchedulerTimer =>
    obtain ⟨⟨_, dispatch⟩, handled, pair⟩ := map_ok result
    cases pair
    unfold handleSchedulerTimer at handled
    split at handled
    next =>
      cases handled
      exact .nothing fun _ same => by cases same
    next task current =>
      simp only at handled
      split at handled
      next spent => exact .scheduled (.timer current spent) handled
      next =>
        cases handled
        exact .ticked current
  | blockCurrentTask =>
    obtain ⟨⟨_, dispatch⟩, blocked, pair⟩ := map_ok result
    cases pair
    unfold blockCurrentTask at blocked
    split at blocked
    next =>
      cases blocked
      exact .nothing fun _ same => by cases same
    next task current => exact .scheduled (.block current) blocked
  | unblockTask task =>
    obtain ⟨_, unblocked, pair⟩ := map_ok result
    cases pair
    cases task with
    | none =>
      cases unblocked
      exact .nothing fun _ same => by cases same
    | some task =>
      rcases unblockTask_cases unblocked with rfl | ⟨target, middle, blocked, known, changed, push⟩
      · exact .nothing fun _ same => by cases same
      · exact .unblocked blocked known changed push
  | terminateTask task =>
    obtain ⟨⟨_, dispatch⟩, terminated, pair⟩ := map_ok result
    cases pair
    cases task with
    | none =>
      cases terminated
      exact .nothing fun _ same => by cases same
    | some task => exact terminateTask_effect terminated
  | perCpuSetOnline cpuId online =>
    cases result
    exact .online

end

theorem boot_filled (cpuList : Fin cpuCount → CpuInfo) : (boot cpuList).Filled := fun _ _ => initializeTaskQueue_filled

theorem boot_ready (cpuList : Fin cpuCount → CpuInfo) (cpu : Fin cpuCount) (level : Fin maxPriorityLevels) :
    (boot cpuList).ready cpu level = [] :=
  initializeTaskQueue_tasks

/-- The processor has got its idle task on a machine where nothing else happened. -/
theorem Started.installed {processor : CpuInfo} {observed : Observed 1} (started : Started processor observed) :
    ∃ idle level middle,
      perCpuCurrent (boot fun _ : Fin 1 => processor).perCpu processor.apicId = some 0 ∧
      CreatedTask (withQueues (boot fun _ => processor) 0 fun _ => initializeTaskQueue) processor.apicId 0 idle 0 level
        middle ∧
      Installed middle 0 idle observed.state ∧ observed.life = Function.update (fun _ => Life.unborn) idle .live := by
  obtain ⟨idleTaskEntry, created, called, recorded⟩ := started
  obtain ⟨⟨_, idle⟩, installs, pair⟩ := map_ok called
  cases pair
  obtain ⟨cpu, target, level, middle, known, creation, install⟩ := initializeWith_installed (boot_filled _) installs
  cases Subsingleton.elim 0 cpu
  cases Subsingleton.elim 0 target
  exact ⟨idle, level, middle, known, creation, install, recorded⟩

end Kernix.Proofs
