import Kernix.Proofs.FirstSwitch
import Kernix.Proofs.TaskTermination

/-! What one scheduler call does to the slots of the pool, the stacks and the task counts:
it opens a slot, it closes one, or it leaves them all as they are. -/

namespace Kernix.Proofs
open SchedulerState Transition

variable {cpuCount : Nat} {before after : SchedulerState cpuCount} {apicId : Nat}

/-- Of a task only the status and the time slice change, and no task ends. -/
structure LeavesSlots (before after : SchedulerState cpuCount) : Prop where
  task : ∀ task, after.taskPool task =
    { before.taskPool task with
      status := after.status task
      remainingTicks := (after.taskPool task).remainingTicks }
  ended : ∀ task, after.status task = .terminated → before.status task = .terminated
  cpuId : ∀ cpu, (after.perCpu cpu).cpuId = (before.perCpu cpu).cpuId
  taskCount : ∀ cpu, (after.perCpu cpu).taskCount = (before.perCpu cpu).taskCount
  nextTaskId : after.nextTaskId = before.nextTaskId
  stackIndex : after.stackIndex = before.stackIndex

theorem LeavesSlots.refl (state : SchedulerState cpuCount) : LeavesSlots state state :=
  ⟨fun _ => rfl, fun _ => id, fun _ => rfl, fun _ => rfl, rfl, rfl⟩

theorem LeavesSlots.trans {first second third : SchedulerState cpuCount} (earlier : LeavesSlots first second)
    (later : LeavesSlots second third) : LeavesSlots first third where
  task task := by rw [later.task, earlier.task]
  ended task dead := earlier.ended task (later.ended task dead)
  cpuId cpu := (later.cpuId cpu).trans (earlier.cpuId cpu)
  taskCount cpu := (later.taskCount cpu).trans (earlier.taskCount cpu)
  nextTaskId := later.nextTaskId.trans earlier.nextTaskId
  stackIndex := later.stackIndex.trans earlier.stackIndex

theorem LeavesSlots.of_frame (frame : Frame before after)
    (ended : ∀ task, after.status task = .terminated → before.status task = .terminated) :
    LeavesSlots before after where
  task := frame.task
  ended := ended
  cpuId cpu := by rw [frame.cpu]
  taskCount cpu := by rw [frame.cpu]
  nextTaskId := frame.nextTaskId
  stackIndex := frame.stackIndex

theorem Restatus.leaves {task : TaskPointer} {status : TaskStatus} (changed : Restatus before task status after)
    (alive : status = .terminated → before.status task = .terminated) : LeavesSlots before after := by
  apply LeavesSlots.of_frame changed.frame
  intro other dead
  rw [changed.status, Function.update_apply] at dead
  split at dead
  next same =>
    rw [same]
    exact alive dead
  next => exact dead

theorem performScheduling_leaves {dispatch : Dispatch} (filled : before.Filled)
    (result : performScheduling before apicId = .ok (after, dispatch)) : LeavesSlots before after := by
  cases known : perCpuCurrent before.perCpu apicId with
  | none =>
    rw [performScheduling_unknown known] at result
    cases result
    exact .refl _
  | some cpu =>
    obtain ⟨frame, _, scheduled⟩ := performScheduling_scheduled filled known result
    apply LeavesSlots.of_frame frame
    intro task dead
    rcases scheduled.status task with same | ⟨_, ready | running⟩
    · rw [← same]
      exact dead
    · cases ready.symm.trans dead
    · cases running.symm.trans dead

/-- A slot is filled for a new task, which gets the next stack and joins the tasks of a processor. -/
structure Opens (before : SchedulerState cpuCount) (apicId : Nat) (birth : Birth) (task : TaskPointer)
    (target : Fin cpuCount) (after : SchedulerState cpuCount) : Prop where
  slot : freeSlot before = some task
  room : before.stackIndex < maxTaskCount
  chosen : ((leastLoaded before).orElse fun _ => perCpuCurrent before.perCpu apicId) = some target
  identifier : (after.taskPool task).identifier = before.nextTaskId
  status : after.status task ≠ .terminated
  assignedCpu : (after.taskPool task).assignedCpu = (before.perCpu target).cpuId
  stackStart : (after.taskPool task).stackStart = some (birth.stackStart : Int)
  stackCapacity : (after.taskPool task).stackCapacity = birth.stackSize
  others : ∀ other, other ≠ task → after.taskPool other = before.taskPool other
  cpuId : ∀ cpu, (after.perCpu cpu).cpuId = (before.perCpu cpu).cpuId
  taskCount : ∀ cpu, (after.perCpu cpu).taskCount =
    if cpu = target then u32 ((before.perCpu cpu).taskCount + 1) else (before.perCpu cpu).taskCount
  nextTaskId : after.nextTaskId = u32 (before.nextTaskId + 1)
  stackIndex : after.stackIndex = before.stackIndex + 1

/-- Joining a ready queue changes nothing of the record, and one processor counts one task more. -/
theorem enlist_counts {target : Fin cpuCount} {priority : Nat} {task : TaskPointer}
    (result : enlist before target priority task = .ok after) :
    after.taskPool = before.taskPool ∧ after.nextTaskId = before.nextTaskId ∧ after.stackIndex = before.stackIndex ∧
      ∀ cpu, (after.perCpu cpu).cpuId = (before.perCpu cpu).cpuId ∧ (after.perCpu cpu).taskCount =
        if cpu = target then u32 ((before.perCpu cpu).taskCount + 1) else (before.perCpu cpu).taskCount := by
  unfold enlist pushReady at result
  split at result
  next level =>
    cases result
    refine ⟨rfl, rfl, rfl, fun cpu => ?_⟩
    simp only [updateCpu_perCpu]
    by_cases same : cpu = target
    · subst same
      simp only [if_true, and_self]
    · simp only [same, if_false, and_self]
  next => cases result

theorem createNewTask_opens {name : List UInt8} {entry priority stackSize : Nat} {task : TaskPointer}
    (result : createNewTask before apicId name entry priority stackSize = .ok (after, some task)) :
    ∃ target, Opens before apicId ⟨entry, stackSize, before.stackIndex * stackWords⟩ task target after := by
  unfold createNewTask at result
  simp only at result
  split at result
  next => cases result
  next found slot =>
    split at result
    next => cases result
    next room =>
      split at result
      next => cases result
      next target chosen =>
        obtain ⟨prepared, preparing, result⟩ := bind_ok result
        obtain ⟨enlisted, enlisting, result⟩ := bind_ok result
        cases result
        obtain ⟨pool, nextTaskId, stackIndex, counts⟩ := enlist_counts enlisting
        unfold prepareTask at preparing
        obtain ⟨taskName, _, preparing⟩ := bind_ok preparing
        obtain ⟨stack, _, preparing⟩ := bind_ok preparing
        cases preparing
        simp only at pool
        refine ⟨target, slot, by omega, chosen, ?_, ?_, ?_, ?_, ?_, ?_, fun cpu => (counts cpu).1,
          fun cpu => (counts cpu).2, nextTaskId, stackIndex⟩
        · rw [pool, Function.update_self]
        · unfold SchedulerState.status
          rw [pool, Function.update_self]
          simp
        · rw [pool, Function.update_self]
        · rw [pool, Function.update_self]
          simp
        · rw [pool, Function.update_self]
        · intro other different
          rw [pool, Function.update_of_ne different]

/-- Without a slot, or without a stack, `create_new_task` changes nothing. -/
theorem createNewTask_none {name : List UInt8} {entry priority stackSize : Nat}
    (result : createNewTask before apicId name entry priority stackSize = .ok (after, none)) :
    after = before ∧ (freeSlot before = none ∨ maxTaskCount ≤ before.stackIndex) := by
  unfold createNewTask at result
  simp only at result
  split at result
  next full =>
    cases result
    exact ⟨rfl, .inl full⟩
  next found slot =>
    split at result
    next exhausted =>
      cases result
      exact ⟨rfl, .inr exhausted⟩
    next =>
      split at result
      next => cases result
      next =>
        obtain ⟨_, _, result⟩ := bind_ok result
        obtain ⟨_, _, result⟩ := bind_ok result
        cases result

/-- The choice of a processor depends on what is counted and who is online. -/
theorem leastLoaded_congr (same : ∀ cpu, (after.perCpu cpu).isOnline = (before.perCpu cpu).isOnline ∧
    (after.perCpu cpu).taskCount = (before.perCpu cpu).taskCount) : leastLoaded after = leastLoaded before := by
  unfold leastLoaded
  simp only [same]

theorem initializeWith_opens {idleName : List UInt8} {idleTaskEntry : Nat} {idle : TaskPointer}
    (result : initializeWith idleName before apicId idleTaskEntry = .ok (after, idle)) :
    ∃ target, Opens before apicId ⟨idleTaskEntry, 4096, before.stackIndex * stackWords⟩ idle target after := by
  unfold initializeWith at result
  split at result
  next => cases result
  next cpu known =>
    obtain ⟨⟨middle, created⟩, creating, result⟩ := bind_ok result
    cases created with
    | none => cases result
    | some task =>
      cases result
      obtain ⟨target, opens⟩ := createNewTask_opens creating
      have frame := withQueues_frame before cpu fun _ => initializeTaskQueue
      have emptied : LeavesSlots before _ := .of_frame frame fun _ => id
      have loads : leastLoaded (withQueues before cpu fun _ => initializeTaskQueue) = leastLoaded before :=
        leastLoaded_congr fun other => by rw [frame.cpu]; exact ⟨rfl, rfl⟩
      have installed (other : Fin cpuCount) : ((middle.updateCpu cpu fun pcpu =>
          { pcpu with idleTask := some idle, currentTask := some idle }).perCpu other).cpuId =
            (middle.perCpu other).cpuId ∧ ((middle.updateCpu cpu fun pcpu =>
          { pcpu with idleTask := some idle, currentTask := some idle }).perCpu other).taskCount =
            (middle.perCpu other).taskCount := by
        rw [updateCpu_perCpu]
        split
        next same => rw [same]; exact ⟨rfl, rfl⟩
        next => exact ⟨rfl, rfl⟩
      refine ⟨target, opens.slot, opens.room, ?_, ?_, ?_, ?_, ?_, ?_, ?_, ?_, ?_, opens.nextTaskId, opens.stackIndex⟩
      · rw [← loads, ← perCpuCurrent_congr frame.apicId apicId]
        exact opens.chosen
      · rw [updateTask_taskPool, if_pos rfl]
        exact opens.identifier
      · unfold SchedulerState.status
        rw [updateTask_taskPool, if_pos rfl]
        simp
      · rw [updateTask_taskPool, if_pos rfl]
        exact opens.assignedCpu.trans (emptied.cpuId target)
      · rw [updateTask_taskPool, if_pos rfl]
        exact opens.stackStart
      · rw [updateTask_taskPool, if_pos rfl]
        exact opens.stackCapacity
      · intro other different
        rw [updateTask_taskPool, if_neg different]
        exact opens.others other different
      · intro other
        rw [updateTask_perCpu, (installed other).1, opens.cpuId]
        exact emptied.cpuId other
      · intro other
        rw [updateTask_perCpu, (installed other).2, opens.taskCount, ← emptied.taskCount]
        rfl

/-- What one call does to the slots, with what it returns. -/
inductive Account (before : SchedulerState cpuCount) (apicId : Nat) :
    SchedulerOp → Option TaskPointer → SchedulerState cpuCount → Prop where
  | left {op : SchedulerOp} {after : SchedulerState cpuCount} (leaves : LeavesSlots before after)
      (lasting : ∀ task, op ≠ .terminateTask (some task)) : Account before apicId op none after
  | opened {op : SchedulerOp} {birth : Birth} {task : TaskPointer} {target : Fin cpuCount}
      {after : SchedulerState cpuCount} (asked : birthOf before op = some birth)
      (opens : Opens before apicId birth task target after) : Account before apicId op (some task) after
  | closed {task : TaskPointer} {after : SchedulerState cpuCount}
    (leaves : LeavesSlots (markTerminated before task) after) :
      Account before apicId (.terminateTask (some task)) none after

theorem runOp_account {op : SchedulerOp} {created : Option TaskPointer} (filled : before.Filled)
    (result : runOp before apicId op = .ok (after, created)) : Account before apicId op created after := by
  cases runOp_effect filled result with
  | scheduled calls scheduled =>
    have last := performScheduling_leaves (calls.filled filled) scheduled
    cases calls with
    | perform | yield => exact .left last (by simp)
    | timer => exact .left (((spendTick_restatus _ _).leaves id).trans last) (by simp)
    | block => exact .left (((setStatus_restatus _ _ _).leaves (by simp)).trans last) (by simp)
    | @terminate task cpu known current =>
      have gone := LeavesSlots.of_frame (withoutCurrent_frame (markTerminated before task) cpu) fun _ => id
      exact .closed (gone.trans last)
  | nothing passive => exact .left (.refl _) passive
  | ticked current => exact .left ((spendTick_restatus _ _).leaves id) (by simp)
  | marked elsewhere => exact .closed (.refl _)
  | created creation =>
    obtain ⟨target, opens⟩ := createNewTask_opens result
    exact .opened rfl opens
  | unblocked blocked known changed push =>
    have pushes := pushReady_enqueued (changed.filled filled) push
    have queued : LeavesSlots _ after :=
      .of_frame pushes.frame fun task dead => by rw [← status_congr pushes.taskPool]; exact dead
    exact .left ((changed.leaves (by simp)).trans queued) (by simp)
  | initialized starts known creation install =>
    cases op with
    | initializeScheduler idleTaskEntry | initializeApScheduler idleTaskEntry =>
      obtain ⟨⟨_, idle⟩, installed, pair⟩ := map_ok result
      cases pair
      obtain ⟨target, opens⟩ := initializeWith_opens installed
      exact .opened rfl opens
    | _ => cases starts
  | @online cpuId value =>
    have same := perCpuSetOnline_same before.perCpu cpuId value
    refine .left ⟨fun _ => rfl, fun _ => id, fun cpu => ?_, fun cpu => ?_, rfl, rfl⟩ (by simp)
    · simp only
      rw [same]
    · simp only
      rw [same]

theorem record_left (life : TaskPointer → Life) {op : SchedulerOp} (lasting : ∀ task, op ≠ .terminateTask (some task)) :
    record life op none = life := by
  cases op with
  | terminateTask task =>
    cases task with
    | none => rfl
    | some task => exact absurd rfl (lasting task)
  | _ => rfl

theorem record_opened (life : TaskPointer → Life) {state : SchedulerState cpuCount} {op : SchedulerOp} {birth : Birth}
    (asked : birthOf state op = some birth) (task : TaskPointer) :
    record life op (some task) = Function.update life task .live := by
  cases op with
  | createNewTask | initializeScheduler | initializeApScheduler => rfl
  | _ => cases asked

/-- A live slot is not free, and the tasks are numbered in the order of their stacks. -/
structure Lives (state : SchedulerState cpuCount) (life : TaskPointer → Life) : Prop where
  filled : state.Filled
  live : ∀ task, life task = .live → (state.taskPool task).identifier ≠ 0 ∧ state.status task ≠ .terminated
  numbers : state.nextTaskId = state.stackIndex + 1 ∧ state.stackIndex ≤ maxTaskCount

theorem lives_booted (cpuList : Fin cpuCount → CpuInfo) : Lives (booted cpuList).state (booted cpuList).life where
  filled := boot_filled cpuList
  live _ impossible := by cases impossible
  numbers := ⟨rfl, Nat.zero_le _⟩

theorem Lives.account {life : TaskPointer → Life} (lives : Lives before life) {op : SchedulerOp}
    {created : Option TaskPointer} (filled : after.Filled) (account : Account before apicId op created after) :
    Lives after (record life op created) := by
  cases account with
  | left leaves lasting =>
    rw [record_left life lasting]
    refine ⟨filled, fun task live => ?_, by rw [leaves.nextTaskId, leaves.stackIndex]; exact lives.numbers⟩
    obtain ⟨named, alive⟩ := lives.live task live
    exact ⟨by rw [leaves.task]; exact named, fun dead => alive (leaves.ended task dead)⟩
  | @opened _ birth task target _ asked opens =>
    rw [record_opened life asked]
    obtain ⟨nextTaskId, bound⟩ := lives.numbers
    have room := opens.room
    have small : before.nextTaskId + 1 < 2 ^ 32 := by
      simp only [maxTaskCount] at room
      omega
    refine ⟨filled, fun other live => ?_, ?_⟩
    · by_cases same : other = task
      · rw [same, opens.identifier]
        exact ⟨by omega, opens.status⟩
      · rw [Function.update_of_ne same] at live
        unfold SchedulerState.status
        rw [opens.others other same]
        exact lives.live other live
    · rw [opens.nextTaskId, opens.stackIndex, u32, Nat.mod_eq_of_lt small]
      omega
  | @closed task _ leaves =>
    obtain ⟨nextTaskId, stackIndex⟩ := markTerminated_numbers before task
    refine ⟨filled, fun other live => ?_, ?_⟩
    · have different : other ≠ task := by
        rintro rfl
        rw [record, Function.update_self] at live
        cases live
      rw [record, Function.update_of_ne different] at live
      obtain ⟨named, alive⟩ := lives.live other live
      refine ⟨by rw [leaves.task]; exact (markTerminated_identifier before task other).trans_ne named, fun dead => ?_⟩
      have earlier := leaves.ended other dead
      rw [markTerminated_status, Function.update_of_ne different] at earlier
      exact alive earlier
    · rw [leaves.nextTaskId, leaves.stackIndex, nextTaskId, stackIndex]
      exact lives.numbers

/-- The calls of a run, as far as `guard`, which knows what became of the slots, admits them. -/
def WatchedStep (guard : Observed cpuCount → SchedulerOp → Prop) (before : Observed cpuCount)
    (label : Nat × SchedulerOp) (after : Observed cpuCount) : Prop :=
  guard before label.2 ∧ ∃ created, Performs label.1 label.2 before created after

section
variable {guard : Observed cpuCount → SchedulerOp → Prop} {cpuList : Fin cpuCount → CpuInfo}

/-- What is true of the slots after booting, and stays so, is true in every state of a run. -/
theorem watched_invariant (holds : Observed cpuCount → Prop) (starts : holds (booted cpuList))
    (preserved : ∀ before after apicId op created, holds before → Lives before.state before.life → guard before op →
      Account before.state apicId op created after.state → after.life = record before.life op created → holds after)
    {observed : Observed cpuCount} (reached : Reachable (· = booted cpuList) (WatchedStep guard) observed) :
    Lives observed.state observed.life ∧ holds observed := by
  apply reached.invariant fun observed => Lives observed.state observed.life ∧ holds observed
  · rintro _ rfl
    exact ⟨lives_booted cpuList, starts⟩
  · rintro before ⟨apicId, op⟩ after ⟨lives, held⟩ ⟨admitted, created, called, recorded⟩
    have account := runOp_account lives.filled called
    refine ⟨?_, preserved before after apicId op created held lives admitted account recorded⟩
    rw [recorded]
    exact lives.account (runOp_filled lives.filled called) account

/-- Such a run computed: the last state, unless a call is not admitted or does not return. -/
def watchedRun (guard : Observed cpuCount → SchedulerOp → Prop) [∀ observed op, Decidable (guard observed op)]
    (observed : Observed cpuCount) : List (Nat × SchedulerOp) → Option (Observed cpuCount)
  | [] => some observed
  | label :: labels =>
    if guard observed label.2 then
      match runOp observed.state label.1 label.2 with
      | .error _ => none
      | .ok result => watchedRun guard ⟨result.1, record observed.life label.2 result.2⟩ labels
    else none

theorem watchedRun_reachable [∀ observed op, Decidable (guard observed op)] {labels : List (Nat × SchedulerOp)}
    {first last : Observed cpuCount} (reached : Reachable (· = booted cpuList) (WatchedStep guard) first)
    (run : watchedRun guard first labels = some last) : Reachable (· = booted cpuList) (WatchedStep guard) last := by
  induction labels generalizing first with
  | nil =>
    cases run
    exact reached
  | cons label labels ih =>
    unfold watchedRun at run
    split at run
    next admitted =>
      split at run
      next => cases run
      next result called => exact ih (.step reached ⟨admitted, result.2, called, rfl⟩) run
    next => cases run

end

end Kernix.Proofs
