import Kernix.Proofs.SchedulerRuns
import Mathlib.Algebra.BigOperators.Fin
import Mathlib.Algebra.Order.BigOperators.Group.Finset

/-! Terminated tasks. They stay away from every processor as long as no task is
terminated while something else still points at it. -/

namespace Kernix.Proofs
open SchedulerState Transition

variable {cpuCount : Nat} {before after : SchedulerState cpuCount} {apicId : Nat}

/-- Something on some processor points at the task. -/
inductive Held (state : SchedulerState cpuCount) (task : TaskPointer) : Prop where
  | queued {cpu : Fin cpuCount} {level : Fin maxPriorityLevels} (member : task ∈ state.ready cpu level)
  | current {cpu : Fin cpuCount} (runs : state.current cpu = some task)
  | idle {cpu : Fin cpuCount} (falls_back : state.idle cpu = some task)

theorem Held.mono {task : TaskPointer} (held : Held after task)
    (queued : ∀ cpu level, task ∈ after.ready cpu level → Held before task)
    (current : ∀ cpu, after.current cpu = some task → Held before task)
    (idle : ∀ cpu, after.idle cpu = some task → Held before task) : Held before task := by
  cases held with
  | queued member => exact queued _ _ member
  | current runs => exact current _ runs
  | idle falls_back => exact idle _ falls_back

theorem Held.congr {task : TaskPointer} (held : Held after task) (ready : after.ready = before.ready)
    (current : after.current = before.current) (idle : after.idle = before.idle) : Held before task := by
  apply held.mono
  · intro cpu level member
    rw [ready] at member
    exact .queued member
  · intro cpu runs
    rw [current] at runs
    exact .current runs
  · intro cpu falls_back
    rw [idle] at falls_back
    exact .idle falls_back

theorem Picks.held {cpu : Fin cpuCount} {next : TaskPointer}
    {lists : Fin cpuCount → Fin maxPriorityLevels → List TaskPointer} (picks : Picks before cpu next lists) :
    Held before next := by
  obtain ⟨popped, pops, chosen⟩ := picks
  cases popped with
  | none => exact .idle chosen
  | some task =>
    cases chosen
    obtain ⟨level, member⟩ := pops.popped_mem
    exact .queued member

/-- Scheduling adds no pointer to a task. -/
theorem Scheduled.held {cpu : Fin cpuCount} (scheduled : Scheduled before cpu after) (frame : Frame before after)
    {task : TaskPointer} (held : Held after task) : Held before task := by
  have idle (other : Fin cpuCount) (falls_back : after.idle other = some task) : Held before task :=
    .idle (by rw [← frame.idle]; exact falls_back)
  have turned {next : TaskPointer} {lists : Fin cpuCount → Fin maxPriorityLevels → List TaskPointer}
      (picks : Picks before cpu next lists)
      (current : after.current = Function.update before.current cpu (some next)) (other : Fin cpuCount)
      (runs : after.current other = some task) : Held before task := by
    rw [current, Function.update_apply] at runs
    split at runs
    next =>
      cases runs
      exact picks.held
    next => exact .current runs
  cases scheduled with
  | stay picks same status current =>
    obtain ⟨popped, pops, chosen⟩ := picks
    exact held.mono (fun _ _ member => .queued (pops.mem member))
      (fun other runs => .current (by rw [← current]; exact runs)) idle
  | requeue picks different old_current running level_eq ready status current =>
    refine held.mono ?_ (turned picks current) idle
    obtain ⟨popped, pops, chosen⟩ := picks
    intro other level member
    rw [ready] at member
    split at member
    next =>
      rcases mem_pushed member with rfl | waiting
      · exact .current old_current
      · exact .queued (pops.mem waiting)
    next => exact .queued (pops.mem member)
  | leave picks different none_running status current =>
    refine held.mono ?_ (turned picks current) idle
    obtain ⟨popped, pops, chosen⟩ := picks
    exact fun _ _ member => .queued (pops.mem member)

/-- Scheduling only changes the status of tasks that something points at. -/
theorem Scheduled.status {cpu : Fin cpuCount} (scheduled : Scheduled before cpu after) (task : TaskPointer) :
    after.status task = before.status task ∨
      Held before task ∧ (after.status task = .ready ∨ after.status task = .running) := by
  cases scheduled with
  | stay picks same status current => exact .inl (congrFun status task)
  | @requeue next old _ _ picks different old_current running level_eq ready status current =>
    rw [status, Function.update_apply]
    split
    next same =>
      subst same
      exact .inr ⟨picks.held, .inr rfl⟩
    next =>
      rw [Function.update_apply]
      split
      next same =>
        subst same
        exact .inr ⟨.current old_current, .inl rfl⟩
      next => exact .inl rfl
  | leave picks different none_running status current =>
    rw [status, Function.update_apply]
    split
    next same =>
      subst same
      exact .inr ⟨picks.held, .inr rfl⟩
    next => exact .inl rfl

/-- Only live tasks are pointed at, and the pool tells them from the others. -/
structure Tracked (state : SchedulerState cpuCount) (life : TaskPointer → Life) : Prop where
  filled : state.Filled
  held : ∀ task, Held state task → life task = .live
  live : ∀ task, life task = .live → (state.taskPool task).identifier ≠ 0 ∧ state.status task ≠ .terminated
  terminated : ∀ task, life task = .terminated → state.status task = .terminated
  unborn : ∀ task, life task = .unborn → state.status task = .ready
  numbers : state.nextTaskId = state.stackIndex + 1 ∧ state.stackIndex ≤ maxTaskCount

theorem tracked_booted (cpuList : Fin cpuCount → CpuInfo) :
    Tracked (booted cpuList).state (booted cpuList).life where
  filled _ _ := initializeTaskQueue_filled
  held task held := by
    cases held with
    | @queued cpu level member =>
      rw [show (booted cpuList).state.ready cpu level = [] from boot_ready cpuList cpu level] at member
      cases member
    | current runs => cases runs
    | idle falls_back => cases falls_back
  live _ impossible := by cases impossible
  terminated _ impossible := by cases impossible
  unborn _ _ := rfl
  numbers := ⟨rfl, Nat.zero_le _⟩

/-- Scheduling keeps track, and so does any change that it is made of. -/
theorem Tracked.changed {life : TaskPointer → Life} (tracked : Tracked before life) (filled : after.Filled)
    (held : ∀ task, Held after task → life task = .live)
    (identifier : ∀ task, (after.taskPool task).identifier = (before.taskPool task).identifier)
    (status : ∀ task, after.status task = before.status task ∨
      life task = .live ∧ after.status task ≠ .terminated)
    (nextTaskId : after.nextTaskId = before.nextTaskId) (stackIndex : after.stackIndex = before.stackIndex) :
    Tracked after life where
  filled := filled
  held := held
  live task live := by
    obtain ⟨named, alive⟩ := tracked.live task live
    refine ⟨by rw [identifier]; exact named, ?_⟩
    rcases status task with same | ⟨_, kept⟩
    · rw [same]
      exact alive
    · exact kept
  terminated task dead := by
    rcases status task with same | ⟨live, _⟩
    · rw [same]
      exact tracked.terminated task dead
    · rw [live] at dead
      cases dead
  unborn task fresh := by
    rcases status task with same | ⟨live, _⟩
    · rw [same]
      exact tracked.unborn task fresh
    · rw [live] at fresh
      cases fresh
  numbers := by
    rw [nextTaskId, stackIndex]
    exact tracked.numbers

theorem Tracked.performScheduling {life : TaskPointer → Life} {dispatch : Dispatch} (tracked : Tracked before life)
    (result : Kernix.performScheduling before apicId = .ok (after, dispatch)) : Tracked after life := by
  cases known : perCpuCurrent before.perCpu apicId with
  | none =>
    rw [performScheduling_unknown known] at result
    cases result
    exact tracked
  | some cpu =>
    obtain ⟨frame, filled, scheduled⟩ := performScheduling_scheduled tracked.filled known result
    apply tracked.changed filled (fun task held => tracked.held task (scheduled.held frame held)) frame.identifier ?_
      frame.nextTaskId frame.stackIndex
    intro task
    rcases scheduled.status task with same | ⟨held, active⟩
    · exact .inl same
    · refine .inr ⟨tracked.held task held, ?_⟩
      rcases active with ready | running
      · simp [ready]
      · simp [running]

/-- The slot that `create_new_task` finds holds no live task. -/
theorem freeSlot_not_live {life : TaskPointer → Life}
    (alive : ∀ task, life task = .live → (before.taskPool task).identifier ≠ 0 ∧ before.status task ≠ .terminated)
    {task : TaskPointer} (slot : freeSlot before = some task) : life task ≠ .live := by
  intro live
  obtain ⟨named, lasting⟩ := alive task live
  have free := List.find?_some slot
  simp only [decide_eq_true_eq] at free
  rcases free with ended | unnamed
  · exact lasting ended
  · exact named unnamed

theorem CreatedTask.held {priority : Nat} {task other : TaskPointer} {target : Fin cpuCount}
    {level : Fin maxPriorityLevels} (creation : CreatedTask before apicId priority task target level after)
    (held : Held after other) : other = task ∨ Held before other := by
  cases held with
  | queued member =>
    rw [creation.ready] at member
    split at member
    next =>
      rcases mem_pushed member with same | waiting
      · exact .inl same
      · exact .inr (.queued waiting)
    next => exact .inr (.queued member)
  | @current cpu runs =>
    rw [creation.current] at runs
    exact .inr (.current runs)
  | @idle cpu falls_back =>
    rw [creation.idle] at falls_back
    exact .inr (.idle falls_back)

theorem Tracked.created {life : TaskPointer → Life} (tracked : Tracked before life) {priority : Nat}
    {task : TaskPointer} {target : Fin cpuCount} {level : Fin maxPriorityLevels}
    (creation : CreatedTask before apicId priority task target level after) :
    Tracked after (Function.update life task .live) := by
  have numbers := tracked.numbers
  have room := creation.stack
  have small : before.nextTaskId + 1 < 2 ^ 32 := by
    simp only [maxTaskCount] at room
    omega
  refine ⟨creation.filled, ?_, ?_, ?_, ?_, ?_⟩
  · intro other held
    by_cases same : other = task
    · rw [same, Function.update_self]
    · rw [Function.update_of_ne same]
      rcases creation.held held with equal | earlier
      · exact absurd equal same
      · exact tracked.held other earlier
  · intro other live
    by_cases same : other = task
    · rw [same, creation.identifier, creation.status]
      exact ⟨by omega, by simp⟩
    · rw [Function.update_of_ne same] at live
      rw [creation.others other same, creation.statuses same]
      exact tracked.live other live
  · intro other dead
    by_cases same : other = task
    · rw [same, Function.update_self] at dead
      cases dead
    · rw [Function.update_of_ne same] at dead
      rw [creation.statuses same]
      exact tracked.terminated other dead
  · intro other fresh
    by_cases same : other = task
    · rw [same, Function.update_self] at fresh
      cases fresh
    · rw [Function.update_of_ne same] at fresh
      rw [creation.statuses same]
      exact tracked.unborn other fresh
  · rw [creation.nextTaskId, creation.stackIndex, u32, Nat.mod_eq_of_lt small]
    omega

theorem Tracked.emptied {life : TaskPointer → Life} (tracked : Tracked before life) (cpu : Fin cpuCount) :
    Tracked (withQueues before cpu fun _ => initializeTaskQueue) life := by
  have frame := withQueues_frame before cpu fun _ => initializeTaskQueue
  apply tracked.changed (withQueues_filled before cpu _ tracked.filled fun _ => initializeTaskQueue_filled) ?_
    frame.identifier (fun _ => .inl rfl) rfl rfl
  intro task held
  apply tracked.held
  apply held.mono
  · exact fun other level member => .queued (mem_emptied member)
  · intro other runs
    rw [withQueues_current] at runs
    exact .current runs
  · intro other falls_back
    rw [frame.idle] at falls_back
    exact .idle falls_back

theorem Tracked.installed {life : TaskPointer → Life} (tracked : Tracked before life) {cpu : Fin cpuCount}
    {idle : TaskPointer} (live : life idle = .live) (install : Installed before cpu idle after) :
    Tracked after life := by
  apply tracked.changed install.filled ?_ (fun task => by rw [install.task]) ?_ install.nextTaskId install.stackIndex
  · intro task held
    cases held with
    | queued member =>
      rw [install.ready] at member
      exact tracked.held task (.queued member)
    | current runs =>
      rw [install.current, Function.update_apply] at runs
      split at runs
      next =>
        cases runs
        exact live
      next => exact tracked.held task (.current runs)
    | idle falls_back =>
      rw [install.idle, Function.update_apply] at falls_back
      split at falls_back
      next =>
        cases falls_back
        exact live
      next => exact tracked.held task (.idle falls_back)
  · intro task
    rw [install.status, Function.update_apply]
    split
    next same =>
      subst same
      exact .inr ⟨live, by simp⟩
    next => exact .inl rfl

theorem Tracked.restatus {life : TaskPointer → Life} (tracked : Tracked before life) {task : TaskPointer}
    {status : TaskStatus} (changed : Restatus before task status after)
    (allowed : status = before.status task ∨ life task = .live ∧ status ≠ .terminated) : Tracked after life := by
  apply tracked.changed (changed.filled tracked.filled) ?_ changed.frame.identifier ?_ changed.frame.nextTaskId
    changed.frame.stackIndex
  · intro other held
    apply tracked.held
    exact held.congr changed.ready changed.current (funext changed.frame.idle)
  · intro other
    rw [changed.status, Function.update_apply]
    split
    next same =>
      subst same
      exact allowed
    next => exact .inl rfl

theorem Tracked.enqueued {life : TaskPointer → Life} (tracked : Tracked before life) {cpu : Fin cpuCount}
    {priority : Nat} {task : TaskPointer} (live : life task = .live)
    (pushes : Enqueued before cpu priority task after) : Tracked after life := by
  apply tracked.changed pushes.filled ?_ pushes.frame.identifier
    (fun other => .inl (congrFun (status_congr pushes.taskPool) other)) pushes.frame.nextTaskId pushes.frame.stackIndex
  obtain ⟨level, level_eq, lists⟩ := pushes.level
  intro other held
  cases held with
  | queued member =>
    rw [lists] at member
    split at member
    next =>
      rcases mem_pushed member with same | waiting
      · rw [same]
        exact live
      · exact tracked.held other (.queued waiting)
    next => exact tracked.held other (.queued member)
  | current runs =>
    rw [pushes.current] at runs
    exact tracked.held other (.current runs)
  | idle falls_back =>
    rw [pushes.frame.idle] at falls_back
    exact tracked.held other (.idle falls_back)

/-- Nothing points at the task but the processor that makes the call. -/
structure Detached (state : SchedulerState cpuCount) (apicId : Nat) (task : TaskPointer) : Prop where
  queued : ∀ cpu level, task ∉ state.ready cpu level
  idle : ∀ cpu, state.idle cpu ≠ some task
  current : ∀ cpu, state.current cpu = some task → perCpuCurrent state.perCpu apicId = some cpu

/-- A call of `terminate_task` on a task that nothing else points at, or any other call. -/
def TerminatesDetached (state : SchedulerState cpuCount) (apicId : Nat) : SchedulerOp → Prop
  | .terminateTask (some task) => Detached state apicId task
  | _ => True

/-- A task that nothing points at any more may end. -/
theorem Tracked.ended {life : TaskPointer → Life} (tracked : Tracked before life) {task : TaskPointer}
    (filled : after.Filled) (held : ∀ other, Held after other → Held before other ∧ other ≠ task)
    (identifier : ∀ other, (after.taskPool other).identifier = (before.taskPool other).identifier)
    (status : after.status = Function.update before.status task .terminated)
    (nextTaskId : after.nextTaskId = before.nextTaskId) (stackIndex : after.stackIndex = before.stackIndex) :
    Tracked after (Function.update life task .terminated) := by
  refine ⟨filled, ?_, ?_, ?_, ?_, ?_⟩
  · intro other points
    obtain ⟨earlier, different⟩ := held other points
    rw [Function.update_of_ne different]
    exact tracked.held other earlier
  · intro other live
    have different : other ≠ task := by
      intro same
      rw [same, Function.update_self] at live
      cases live
    rw [Function.update_of_ne different] at live
    rw [identifier, status, Function.update_of_ne different]
    exact tracked.live other live
  · intro other dead
    by_cases same : other = task
    · rw [status, same, Function.update_self]
    · rw [Function.update_of_ne same] at dead
      rw [status, Function.update_of_ne same]
      exact tracked.terminated other dead
  · intro other fresh
    have different : other ≠ task := by
      intro same
      rw [same, Function.update_self] at fresh
      cases fresh
    rw [Function.update_of_ne different] at fresh
    rw [status, Function.update_of_ne different]
    exact tracked.unborn other fresh
  · rw [nextTaskId, stackIndex]
    exact tracked.numbers

private theorem marked_held {task other : TaskPointer} (held : Held (markTerminated before task) other) :
    Held before other :=
  held.congr (markTerminated_ready before task) (markTerminated_current before task) (markTerminated_idle before task)

theorem Tracked.marked {life : TaskPointer → Life} (tracked : Tracked before life) {task : TaskPointer}
    (detached : Detached before apicId task)
    (elsewhere : ∀ cpu, perCpuCurrent before.perCpu apicId = some cpu → before.current cpu ≠ some task) :
    Tracked (markTerminated before task) (Function.update life task .terminated) := by
  obtain ⟨nextTaskId, stackIndex⟩ := markTerminated_numbers before task
  apply tracked.ended (markTerminated_filled tracked.filled task) ?_ (markTerminated_identifier before task)
    (markTerminated_status before task) nextTaskId stackIndex
  intro other held
  have earlier := marked_held held
  refine ⟨earlier, ?_⟩
  rintro rfl
  cases earlier with
  | queued member => exact detached.queued _ _ member
  | current runs => exact elsewhere _ (detached.current _ runs) runs
  | idle falls_back => exact detached.idle _ falls_back

/-- The task that calls `terminate_task` on itself leaves its processor. -/
theorem Tracked.left {life : TaskPointer → Life} (tracked : Tracked before life) {task : TaskPointer}
    {cpu : Fin cpuCount} (detached : Detached before apicId task)
    (known : perCpuCurrent before.perCpu apicId = some cpu) :
    Tracked (withoutCurrent (markTerminated before task) cpu) (Function.update life task .terminated) := by
  obtain ⟨nextTaskId, stackIndex⟩ := markTerminated_numbers before task
  have frame := withoutCurrent_frame (markTerminated before task) cpu
  apply tracked.ended (withoutCurrent_filled (markTerminated_filled tracked.filled task) cpu) ?_
    (fun other => by rw [frame.identifier, markTerminated_identifier]) (markTerminated_status before task)
    nextTaskId stackIndex
  intro other held
  cases held with
  | @queued place level member =>
    rw [withoutCurrent_ready, markTerminated_ready] at member
    refine ⟨.queued member, ?_⟩
    rintro rfl
    exact detached.queued _ _ member
  | @current place runs =>
    rw [withoutCurrent_current, markTerminated_current, Function.update_apply] at runs
    split at runs
    next => cases runs
    next different =>
      refine ⟨.current runs, ?_⟩
      rintro rfl
      have found := detached.current _ runs
      rw [known] at found
      cases found
      exact different rfl
  | @idle place falls_back =>
    rw [frame.idle, markTerminated_idle] at falls_back
    refine ⟨.idle falls_back, ?_⟩
    rintro rfl
    exact detached.idle _ falls_back

theorem Tracked.online {life : TaskPointer → Life} (tracked : Tracked before life) (cpuId online : Nat) :
    Tracked { before with perCpu := perCpuSetOnline before.perCpu cpuId online } life := by
  have same := perCpuSetOnline_same before.perCpu cpuId online
  refine tracked.changed ?_ ?_ (fun _ => rfl) (fun _ => .inl rfl) rfl rfl
  · intro cpu level
    simp only
    rw [same]
    exact tracked.filled cpu level
  · intro task held
    apply tracked.held
    apply held.congr
    · funext cpu level
      simp only [ready]
      rw [same]
    · funext cpu
      simp only [SchedulerState.current]
      rw [same]
    · funext cpu
      simp only [SchedulerState.idle]
      rw [same]

/-- Every call on detached tasks keeps track. -/
theorem Tracked.effect {life : TaskPointer → Life} (tracked : Tracked before life) {op : SchedulerOp}
    {created : Option TaskPointer} (detached : TerminatesDetached before apicId op)
    (effect : Effect before apicId op created after) : Tracked after (record life op created) := by
  cases effect with
  | scheduled calls result =>
    cases calls with
    | perform => exact tracked.performScheduling result
    | yield current => exact tracked.performScheduling result
    | timer current spent =>
      exact (tracked.restatus (spendTick_restatus _ _) (.inl rfl)).performScheduling result
    | block current =>
      obtain ⟨cpu, known, runs⟩ := getCurrentTask_some current
      have live := tracked.held _ (.current runs)
      exact (tracked.restatus (setStatus_restatus _ _ _) (.inr ⟨live, by simp⟩)).performScheduling result
    | terminate known current =>
      rw [markTerminated_perCpuCurrent] at known
      exact (tracked.left detached known).performScheduling result
  | nothing passive =>
    cases op with
    | terminateTask task =>
      cases task with
      | none => exact tracked
      | some task => exact absurd rfl (passive task)
    | _ => exact tracked
  | ticked current => exact tracked.restatus (spendTick_restatus _ _) (.inl rfl)
  | marked elsewhere => exact tracked.marked detached elsewhere
  | created creation => exact tracked.created creation
  | @unblocked task target middle _ blocked known changed push =>
    have live : life task = .live := by
      cases alive : life task with
      | live => rfl
      | unborn => cases (tracked.unborn task alive).symm.trans blocked
      | terminated => cases (tracked.terminated task alive).symm.trans blocked
    have ready := tracked.restatus changed (.inr ⟨live, by simp⟩)
    exact ready.enqueued live (pushReady_enqueued ready.filled push)
  | @initialized _ idle cpu target level middle _ starts known creation install =>
    have made := ((tracked.emptied cpu).created creation).installed (Function.update_self _ _ _) install
    cases op with
    | initializeScheduler _ => exact made
    | initializeApScheduler _ => exact made
    | _ => cases starts
  | online => exact tracked.online _ _

theorem tracked_reachable {cpuList : Fin cpuCount → CpuInfo} {observed : Observed cpuCount}
    (reached : Reachable (· = booted cpuList) (GuardedStep TerminatesDetached) observed) :
    Tracked observed.state observed.life := by
  apply reached.invariant fun observed => Tracked observed.state observed.life
  · rintro _ rfl
    exact tracked_booted cpuList
  · rintro before label after tracked ⟨detached, created, called, recorded⟩
    rw [recorded]
    exact tracked.effect detached (runOp_effect tracked.filled called)

/-- The number of slots of ready queues that hold the task. -/
def occurrences (state : SchedulerState cpuCount) (task : TaskPointer) : Nat :=
  ∑ cpu, ∑ level, (state.ready cpu level).count task

theorem count_pushed_le {tasks : List TaskPointer} {task : TaskPointer} (absent : task ∉ tasks) :
    (pushed tasks task).count task ≤ 1 := by
  have none_yet : tasks.count task = 0 := List.count_eq_zero.mpr absent
  unfold pushed
  split
  · rw [List.count_append, none_yet, List.count_singleton_self]
  · omega

theorem CreatedTask.occurrences_le {priority : Nat} {task : TaskPointer} {target : Fin cpuCount}
    {level : Fin maxPriorityLevels} (creation : CreatedTask before apicId priority task target level after)
    (absent : ¬ Held before task) : occurrences after task ≤ 1 := by
  have missing (cpu : Fin cpuCount) (rank : Fin maxPriorityLevels) : task ∉ before.ready cpu rank :=
    fun member => absent (.queued member)
  calc
    occurrences after task ≤
        ∑ cpu : Fin cpuCount, ∑ rank, if cpu = target then if rank = level then 1 else 0 else 0 := by
      apply Finset.sum_le_sum
      intro cpu _
      apply Finset.sum_le_sum
      intro rank _
      rw [creation.ready]
      by_cases sameCpu : cpu = target
      · by_cases sameLevel : rank = level
        · rw [if_pos ⟨sameCpu, sameLevel⟩, if_pos sameCpu, if_pos sameLevel]
          exact count_pushed_le (missing cpu rank)
        · rw [if_neg fun both => sameLevel both.2, List.count_eq_zero.mpr (missing cpu rank)]
          exact Nat.zero_le _
      · rw [if_neg fun both => sameCpu both.1, List.count_eq_zero.mpr (missing cpu rank)]
        exact Nat.zero_le _
    _ = 1 := by simp

theorem Tracked.handed_out {life : TaskPointer → Life} (tracked : Tracked before life) {op : SchedulerOp}
    {task : TaskPointer} (effect : Effect before apicId op (some task) after) : occurrences after task ≤ 1 := by
  cases effect with
  | created creation =>
    exact creation.occurrences_le fun held => freeSlot_not_live tracked.live creation.slot (tracked.held task held)
  | @initialized _ _ cpu _ _ _ _ starts known creation install =>
    have emptied := tracked.emptied cpu
    have once := creation.occurrences_le fun held => freeSlot_not_live emptied.live creation.slot (emptied.held task held)
    unfold occurrences at once ⊢
    rw [install.ready]
    exact once

/-- A terminated task whose slot has not been handed out again neither runs nor is a current task. -/
def StaysAway (observed : Observed cpuCount) : Prop :=
  ∀ task, observed.life task = .terminated →
    observed.state.status task ≠ .running ∧ ∀ cpu, observed.state.current cpu ≠ some task

/-- A slot that the next call hands out is queued at most once. -/
def HandedOutOnce (observed : Observed cpuCount) : Prop :=
  ∀ apicId op task after, Performs apicId op observed (some task) after → occurrences after.state task ≤ 1

theorem scheduler_run_terminated {cpuList : Fin cpuCount → CpuInfo} {observed : Observed cpuCount}
    (reached : Reachable (· = booted cpuList) (GuardedStep TerminatesDetached) observed) :
    StaysAway observed ∧ HandedOutOnce observed := by
  have tracked := tracked_reachable reached
  constructor
  · intro task dead
    constructor
    · simp [tracked.terminated task dead]
    · intro cpu runs
      cases (tracked.held task (.current runs)).symm.trans dead
  · intro apicId op task after called
    exact tracked.handed_out (runOp_effect tracked.filled called.1)

instance (state : SchedulerState cpuCount) (apicId : Nat) (task : TaskPointer) :
    Decidable (Detached state apicId task) :=
  decidable_of_iff ((∀ cpu level, task ∉ state.ready cpu level) ∧ (∀ cpu, state.idle cpu ≠ some task) ∧
      ∀ cpu, state.current cpu = some task → perCpuCurrent state.perCpu apicId = some cpu)
    ⟨fun facts => ⟨facts.1, facts.2.1, facts.2.2⟩, fun facts => ⟨facts.queued, facts.idle, facts.current⟩⟩

instance (state : SchedulerState cpuCount) (apicId : Nat) : (op : SchedulerOp) →
    Decidable (TerminatesDetached state apicId op)
  | .terminateTask (some task) => inferInstanceAs (Decidable (Detached state apicId task))
  | .terminateTask none | .initializeScheduler _ | .initializeApScheduler _ | .createNewTask _ _ _ _
  | .yieldCurrentTask | .performScheduling | .handleSchedulerTimer | .blockCurrentTask | .unblockTask _
  | .perCpuSetOnline _ _ => inferInstanceAs (Decidable True)

/-- A task that is created, runs and terminates itself. -/
def selfExit : List (Nat × SchedulerOp) :=
  [(0, .initializeScheduler 0x1000), (0, .createNewTask (literal "worker") 0x2000 5 4096), (0, .performScheduling),
    (0, .performScheduling), (0, .terminateTask (some 1))]

theorem scheduler_run_terminated_selfExit :
    ∃ observed, observeRun TerminatesDetached (booted oneProcessor) selfExit = some observed ∧
      observed.life 1 = .terminated ∧ StaysAway observed ∧ HandedOutOnce observed := by
  have returns : (observeRun TerminatesDetached (booted oneProcessor) selfExit).map (fun observed => observed.life 1) =
      some .terminated := by decide +kernel
  obtain ⟨observed, run, ended⟩ := Option.map_eq_some_iff.mp returns
  exact ⟨observed, run, ended, scheduler_run_terminated (observeRun_reachable TerminatesDetached (.initial rfl) run)⟩

/-- A task that is terminated while it still waits in its ready queue. -/
def staleEntry : List (Nat × SchedulerOp) :=
  [(0, .initializeScheduler 0x1000), (0, .createNewTask (literal "worker") 0x2000 5 4096), (0, .terminateTask (some 1)),
    (0, .performScheduling), (0, .performScheduling)]

/-- The queue still hands it to `perform_scheduling`, which makes it run. -/
theorem terminated_task_runs :
    ¬ ∀ observed, Reachable (· = booted oneProcessor) (GuardedStep fun _ _ _ => True) observed →
      StaysAway observed ∧ HandedOutOnce observed := by
  intro claim
  have returns : (observeRun (fun _ _ _ => True) (booted oneProcessor) staleEntry).map
      (fun observed => (observed.life 1, observed.state.status 1)) = some (.terminated, .running) := by decide +kernel
  obtain ⟨observed, run, ended⟩ := Option.map_eq_some_iff.mp returns
  obtain ⟨dead, runs⟩ := Prod.mk.inj ended
  exact ((claim observed (observeRun_reachable _ (.initial rfl) run)).1 1 dead).1 runs

end Kernix.Proofs
