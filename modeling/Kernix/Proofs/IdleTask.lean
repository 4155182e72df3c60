import Kernix.Proofs.SchedulerRuns

/-! When a single processor turns to its idle task. The idle task is queued like
any other, at the highest priority, so other tasks may have to wait for it. -/

namespace Kernix.Proofs
open SchedulerState Transition

variable {cpuCount : Nat} {before after : SchedulerState cpuCount} {apicId : Nat}

/-- Any call but the initialisation, made by the processor. -/
def MadeBy (apicId : Nat) (_ : SchedulerState 1) (caller : Nat) : SchedulerOp → Prop
  | .initializeScheduler _ | .initializeApScheduler _ => False
  | _ => caller = apicId

/-- What lets `perform_scheduling` return on a processor. -/
structure Healthy (state : SchedulerState cpuCount) (apicId : Nat) (cpu : Fin cpuCount) : Prop where
  filled : state.Filled
  known : perCpuCurrent state.perCpu apicId = some cpu
  idle : ∃ task, state.idle cpu = some task
  levels : ∀ task, (state.taskPool task).priorityLevel < maxPriorityLevels

theorem pushReady_returns {cpu : Fin cpuCount} {priority : Nat} (level : priority < maxPriorityLevels)
    (state : SchedulerState cpuCount) (task : TaskPointer) :
    ∃ after, state.pushReady cpu priority task = .ok after := by
  unfold pushReady
  rw [dif_pos level]
  exact ⟨_, rfl⟩

theorem requeueOld_returns (state : SchedulerState cpuCount) (cpu : Fin cpuCount) (old : Option TaskPointer)
    (levels : ∀ task, (state.taskPool task).priorityLevel < maxPriorityLevels) :
    ∃ after, requeueOld state cpu old = .ok after := by
  cases old with
  | none => exact ⟨_, rfl⟩
  | some task =>
    unfold requeueOld
    simp only
    split
    · exact pushReady_returns (levels task) _ task
    · exact ⟨_, rfl⟩

theorem switchTask_returns (state : SchedulerState cpuCount) (cpu : Fin cpuCount) (next : TaskPointer)
    (levels : ∀ task, (state.taskPool task).priorityLevel < maxPriorityLevels) :
    ∃ after dispatch, switchTask state cpu next = .ok (after, dispatch) := by
  obtain ⟨requeued, returned⟩ := requeueOld_returns state cpu (state.perCpu cpu).currentTask levels
  unfold switchTask
  simp only
  rw [returned]
  exact ⟨_, _, rfl⟩

theorem Healthy.returns {cpu : Fin cpuCount} (healthy : Healthy before apicId cpu) :
    ∃ after dispatch, performScheduling before apicId = .ok (after, dispatch) := by
  obtain ⟨idle, installed⟩ := healthy.idle
  unfold performScheduling
  rw [healthy.known]
  simp only
  split
  next missing =>
    have kept := (withQueues_frame before cpu (taskQueuePopPriority (before.perCpu cpu).readyQueues).2).idle cpu
    rw [Option.orElse_eq_or] at missing
    have fallback := (Option.or_eq_none_iff.mp missing).2
    rw [installed] at kept
    cases kept.symm.trans fallback
  next next chosen =>
    split
    · exact ⟨_, _, rfl⟩
    · exact switchTask_returns _ cpu next healthy.levels

theorem Healthy.changed {cpu : Fin cpuCount} (healthy : Healthy before apicId cpu) (filled : after.Filled)
    (apicIds : ∀ other, (after.perCpu other).apicId = (before.perCpu other).apicId)
    (idle : after.idle cpu = before.idle cpu)
    (levels : ∀ task, (after.taskPool task).priorityLevel = (before.taskPool task).priorityLevel) :
    Healthy after apicId cpu where
  filled := filled
  known := (perCpuCurrent_congr apicIds apicId).trans healthy.known
  idle := by
    rw [idle]
    exact healthy.idle
  levels task := by
    rw [levels]
    exact healthy.levels task

theorem Healthy.framed {cpu : Fin cpuCount} (healthy : Healthy before apicId cpu) (filled : after.Filled)
    (frame : Frame before after) : Healthy after apicId cpu :=
  healthy.changed filled frame.apicId (frame.idle cpu) frame.priorityLevel

theorem Healthy.marked {cpu : Fin cpuCount} (healthy : Healthy before apicId cpu) (task : TaskPointer) :
    Healthy (markTerminated before task) apicId cpu := by
  apply healthy.changed (markTerminated_filled healthy.filled task)
  · intro other
    rw [markTerminated_perCpu]
  · rw [markTerminated_idle]
  · intro other
    rw [markTerminated_taskPool]
    exact (setStatus_restatus before task .terminated).frame.priorityLevel other

/-- A call that ends in `perform_scheduling` reaches it in a healthy state. -/
theorem Healthy.entry {cpu : Fin cpuCount} (healthy : Healthy before apicId cpu) {op : SchedulerOp}
    {entry : SchedulerState cpuCount} (calls : Calls before apicId op entry) : Healthy entry apicId cpu := by
  cases calls with
  | perform => exact healthy
  | yield current => exact healthy
  | @timer task current spent =>
    have spend := spendTick_restatus before task
    exact healthy.framed (spend.filled healthy.filled) spend.frame
  | @block task current =>
    have blocks := setStatus_restatus before task .blocked
    exact healthy.framed (blocks.filled healthy.filled) blocks.frame
  | @terminate task place known current =>
    have marked := healthy.marked task
    exact marked.framed (withoutCurrent_filled marked.filled place) (withoutCurrent_frame _ place)

theorem levels_created {priority : Nat} {task : TaskPointer} {target : Fin cpuCount} {level : Fin maxPriorityLevels}
    (creation : CreatedTask before apicId priority task target level after)
    (levels : ∀ other, (before.taskPool other).priorityLevel < maxPriorityLevels) (other : TaskPointer) :
    (after.taskPool other).priorityLevel < maxPriorityLevels := by
  by_cases same : other = task
  · rw [same, creation.priorityLevel, ← creation.level_eq]
    exact level.isLt
  · rw [creation.others other same]
    exact levels other

theorem Healthy.created {cpu : Fin cpuCount} (healthy : Healthy before apicId cpu) {priority : Nat}
    {task : TaskPointer} {target : Fin cpuCount} {level : Fin maxPriorityLevels}
    (creation : CreatedTask before apicId priority task target level after) : Healthy after apicId cpu where
  filled := creation.filled
  known := (perCpuCurrent_congr (fun other => by rw [creation.perCpu]) apicId).trans healthy.known
  idle := by
    rw [creation.idle]
    exact healthy.idle
  levels := levels_created creation healthy.levels

theorem Healthy.effect {cpu : Fin cpuCount} (healthy : Healthy before apicId cpu) {op : SchedulerOp}
    {created : Option TaskPointer} (effect : Effect before apicId op created after) : Healthy after apicId cpu := by
  cases effect with
  | scheduled calls result =>
    have entered := healthy.entry calls
    obtain ⟨frame, filled, scheduled⟩ := performScheduling_scheduled entered.filled entered.known result
    exact entered.framed filled frame
  | nothing passive => exact healthy
  | @ticked task current =>
    have spend := spendTick_restatus before task
    exact healthy.framed (spend.filled healthy.filled) spend.frame
  | marked elsewhere => exact healthy.marked _
  | created creation => exact healthy.created creation
  | unblocked blocked known changed push =>
    have pushes := pushReady_enqueued (changed.filled healthy.filled) push
    exact healthy.framed pushes.filled (changed.frame.trans pushes.frame)
  | @initialized _ idle place target level middle _ starts known creation install =>
    have emptied : Healthy (withQueues before place fun _ => initializeTaskQueue) apicId cpu :=
      healthy.framed (withQueues_filled before place _ healthy.filled fun _ => initializeTaskQueue_filled)
        (withQueues_frame before place _)
    have made := emptied.created creation
    refine ⟨install.filled, (perCpuCurrent_congr install.apicId apicId).trans made.known, ?_, ?_⟩
    · rw [install.idle, Function.update_apply]
      split
      · exact ⟨idle, rfl⟩
      · exact made.idle
    · intro task
      rw [install.task]
      exact made.levels task
  | @online cpuId value =>
    have same := perCpuSetOnline_same before.perCpu cpuId value
    apply healthy.changed
    · intro other level
      simp only
      rw [same]
      exact healthy.filled other level
    · intro other
      simp only
      rw [same]
    · simp only [SchedulerState.idle]
      rw [same]
    · exact fun _ => rfl

theorem healthy_started {processor : CpuInfo} {observed : Observed 1} (started : Started processor observed) :
    Healthy observed.state processor.apicId 0 := by
  obtain ⟨idle, level, middle, known, creation, install, _⟩ := started.installed
  have sameApic (cpu : Fin 1) : (observed.state.perCpu cpu).apicId = ((boot fun _ => processor).perCpu cpu).apicId := by
    rw [install.apicId, creation.perCpu]
    exact (withQueues_frame _ _ _).apicId cpu
  have low (task : TaskPointer) : ((withQueues (boot fun _ : Fin 1 => processor) 0
      fun _ => initializeTaskQueue).taskPool task).priorityLevel < maxPriorityLevels :=
    (by decide : 0 < maxPriorityLevels)
  refine ⟨install.filled, (perCpuCurrent_congr sameApic _).trans known, ⟨idle, ?_⟩, ?_⟩
  · rw [install.idle, Function.update_self]
  · intro task
    rw [install.task]
    exact levels_created creation low task

/-- The idle task waits at the head of the first queue that is not empty. -/
def IdleFirst (state : SchedulerState cpuCount) (cpu : Fin cpuCount) : Prop :=
  ∃ level idle rest, state.idle cpu = some idle ∧ Front (state.ready cpu) level idle rest

def NothingElseQueued (state : SchedulerState cpuCount) (cpu : Fin cpuCount) : Prop :=
  ∀ level task, task ∈ state.ready cpu level → state.idle cpu = some task

/-- The processor runs another task, and the idle task is queued in front of the work that waits. -/
structure IdleAhead (state : SchedulerState cpuCount) (cpu : Fin cpuCount) : Prop where
  first : IdleFirst state cpu
  busy : state.current cpu ≠ state.idle cpu
  waiting : ∃ level task, task ∈ state.ready cpu level ∧ state.idle cpu ≠ some task

/-- The processor turned to its idle task. -/
def TurnsIdle (before after : SchedulerState cpuCount) (cpu : Fin cpuCount) : Prop :=
  before.current cpu ≠ before.idle cpu ∧ after.current cpu = before.idle cpu

theorem Scheduled.turns_idle_iff {cpu : Fin cpuCount} {idle : TaskPointer} (scheduled : Scheduled before cpu after)
    (installed : before.idle cpu = some idle) :
    TurnsIdle before after cpu ↔
      before.current cpu ≠ some idle ∧ (IdleFirst before cpu ∨ ∀ level, before.ready cpu level = []) := by
  have picked {next : TaskPointer} {lists : Fin cpuCount → Fin maxPriorityLevels → List TaskPointer}
      (picks : Picks before cpu next lists) :
      next = idle ↔ IdleFirst before cpu ∨ ∀ level, before.ready cpu level = [] := by
    obtain ⟨popped, pops, chosen⟩ := picks
    cases pops with
    | empty vacant =>
      rw [installed] at chosen
      cases chosen
      exact ⟨fun _ => .inr vacant, fun _ => rfl⟩
    | @front level task rest first =>
      cases chosen
      constructor
      · rintro rfl
        exact .inl ⟨level, _, rest, installed, first⟩
      · rintro (⟨other, found, remaining, same, front⟩ | vacant)
        · rw [installed] at same
          cases same
          exact (first.unique front).2
        · cases (vacant level).symm.trans first.1
  unfold TurnsIdle
  rw [installed]
  cases scheduled with
  | @stay next picks same status current =>
    rw [current, same, ← picked picks]
    constructor
    · rintro ⟨different, equal⟩
      exact absurd equal different
    · rintro ⟨different, equal⟩
      exact absurd (congrArg some equal) different
  | requeue picks different old_current running level_eq ready status current =>
    rw [current, Function.update_self, Option.some.injEq, picked picks]
  | leave picks different none_running status current =>
    rw [current, Function.update_self, Option.some.injEq, picked picks]

/-- Other work is overtaken exactly when the idle task is queued in front of it. -/
theorem Scheduled.idle_alone_iff {cpu : Fin cpuCount} {idle : TaskPointer} (scheduled : Scheduled before cpu after)
    (installed : before.idle cpu = some idle) :
    (TurnsIdle before after cpu → NothingElseQueued before cpu) ↔ ¬ IdleAhead before cpu := by
  rw [scheduled.turns_idle_iff installed]
  constructor
  · rintro alone ⟨first, busy, level, task, member, other⟩
    rw [installed] at busy
    exact other (alone ⟨busy, .inl first⟩ level task member)
  · rintro behind ⟨busy, first | vacant⟩ level task member
    · by_contra other
      exact behind ⟨first, by rw [installed]; exact busy, level, task, member, other⟩
    · rw [vacant level] at member
      cases member

theorem healthy_reachable {processor : CpuInfo} {observed : Observed 1}
    (reached : Reachable (Started processor) (GuardedStep (MadeBy processor.apicId)) observed) :
    Healthy observed.state processor.apicId 0 := by
  apply reached.invariant fun observed => Healthy observed.state processor.apicId 0
  · intro observed started
    exact healthy_started started
  · rintro before ⟨caller, op⟩ after healthy ⟨made, created, called, _⟩
    have same : caller = processor.apicId := by
      cases op with
      | initializeScheduler _ => cases made
      | initializeApScheduler _ => cases made
      | _ => exact made
    subst same
    exact healthy.effect (runOp_effect healthy.filled called)

/-- At each call of `perform_scheduling` in each run, the processor leaves no queued task waiting when it
turns to the idle task, exactly when the idle task is not queued in front of other work. -/
theorem idle_task_alone_iff {processor : CpuInfo} {observed : Observed 1}
    (reached : Reachable (Started processor) (GuardedStep (MadeBy processor.apicId)) observed)
    {op : SchedulerOp} {entry : SchedulerState 1} (calls : Calls observed.state processor.apicId op entry) :
    ∃ after dispatch, performScheduling entry processor.apicId = .ok (after, dispatch) ∧
      ((TurnsIdle entry after 0 → NothingElseQueued entry 0) ↔ ¬ IdleAhead entry 0) := by
  have healthy := (healthy_reachable reached).entry calls
  obtain ⟨after, dispatch, result⟩ := healthy.returns
  obtain ⟨idle, installed⟩ := healthy.idle
  obtain ⟨frame, filled, scheduled⟩ := performScheduling_scheduled healthy.filled healthy.known result
  exact ⟨after, dispatch, result, scheduled.idle_alone_iff installed⟩

instance (apicId : Nat) (state : SchedulerState 1) (caller : Nat) : (op : SchedulerOp) →
    Decidable (MadeBy apicId state caller op)
  | .initializeScheduler _ | .initializeApScheduler _ => inferInstanceAs (Decidable False)
  | .createNewTask _ _ _ _ | .yieldCurrentTask | .performScheduling | .handleSchedulerTimer | .blockCurrentTask
  | .unblockTask _ | .terminateTask _ | .perCpuSetOnline _ _ => inferInstanceAs (Decidable (caller = apicId))

/-- Two tasks are created, and the first of them runs. -/
def twoWorkers : List (Nat × SchedulerOp) :=
  [(0, .createNewTask (literal "first") 0x2000 5 4096), (0, .createNewTask (literal "second") 0x3000 5 4096),
    (0, .performScheduling), (0, .performScheduling)]

theorem idle_task_alone_iff_twoWorkers :
    ∃ observed, startedRun (MadeBy 0) (oneProcessor 0) 0x1000 twoWorkers = some observed ∧
      ∃ after dispatch, performScheduling observed.state 0 = .ok (after, dispatch) ∧
        ((TurnsIdle observed.state after 0 → NothingElseQueued observed.state 0) ↔ ¬ IdleAhead observed.state 0) := by
  have returns : (startedRun (MadeBy 0) (oneProcessor 0) 0x1000 twoWorkers).isSome = true := by decide +kernel
  obtain ⟨observed, run⟩ := Option.isSome_iff_exists.mp returns
  exact ⟨observed, run, idle_task_alone_iff (startedRun_reachable (MadeBy 0) run) .perform⟩

/-- The idle task, preempted by the first task, is chosen before the second one. -/
theorem idle_task_overtakes :
    ¬ ∀ observed, Reachable (Started (oneProcessor 0)) (GuardedStep (MadeBy 0)) observed →
      ∀ op entry after dispatch, Calls observed.state 0 op entry →
        performScheduling entry 0 = .ok (after, dispatch) → TurnsIdle entry after 0 → NothingElseQueued entry 0 := by
  intro claim
  have returns : (startedRun (MadeBy 0) (oneProcessor 0) 0x1000 twoWorkers).bind
      (fun observed => (performScheduling observed.state 0).toOption.map fun result =>
        (observed.state.idle 0, observed.state.current 0, result.1.current 0, observed.state.ready 0 5)) =
      some (some 0, some 1, some 0, [2]) := by decide +kernel
  obtain ⟨observed, run, called⟩ := Option.bind_eq_some_iff.mp returns
  obtain ⟨⟨after, dispatch⟩, result, values⟩ := Option.map_eq_some_iff.mp called
  obtain ⟨idle, current, turned, queued⟩ : observed.state.idle 0 = some 0 ∧ observed.state.current 0 = some 1 ∧
      after.current 0 = some 0 ∧ observed.state.ready 0 5 = [2] := by simpa using values
  have scheduled : performScheduling observed.state 0 = .ok (after, dispatch) := by
    cases outcome : performScheduling observed.state 0 with
    | error stop =>
      rw [outcome] at result
      cases result
    | ok value =>
      rw [outcome] at result
      cases result
      rfl
  have alone := claim observed (startedRun_reachable (MadeBy 0) run) _ _ after dispatch .perform scheduled
    ⟨by rw [current, idle]; decide, by rw [turned, idle]⟩ 5 2 (by rw [queued]; exact List.mem_singleton_self _)
  rw [idle] at alone
  cases alone

end Kernix.Proofs
