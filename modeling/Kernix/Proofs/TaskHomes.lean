import Kernix.Proofs.SchedulerRuns

/-! Which processor a task belongs to. As long as no task is terminated, every queue,
`current_task` and `idle_task` that holds a task belongs to the processor that the task
is assigned to, and each small change of the scheduler keeps it so. -/

namespace Kernix.Proofs
open SchedulerState

variable {cpuCount : Nat} {before middle after : SchedulerState cpuCount} {cpu : Fin cpuCount} {task : TaskPointer}

/-- The slot is in use and assigned to the processor. -/
def AtHome (state : SchedulerState cpuCount) (cpu : Fin cpuCount) (task : TaskPointer) : Prop :=
  (state.taskPool task).assignedCpu = cpu.val ∧ (state.taskPool task).identifier ≠ 0

/-- No slot is handed out twice, and what the per-CPU data hold is at home there. -/
structure Settled (state : SchedulerState cpuCount) : Prop where
  filled : state.Filled
  cpuId : ∀ cpu, (state.perCpu cpu).cpuId = cpu.val
  unused : ∀ task, (state.taskPool task).identifier = 0 → state.status task = .ready
  lasting : ∀ task, state.status task ≠ .terminated
  nextTaskId : state.nextTaskId = state.stackIndex + 1
  stackIndex : state.stackIndex ≤ maxTaskCount
  queued : ∀ cpu level task, task ∈ state.ready cpu level → AtHome state cpu task
  current : ∀ cpu task, state.current cpu = some task → AtHome state cpu task
  idle : ∀ cpu task, state.idle cpu = some task → AtHome state cpu task

/-- What no section but the one that fills a slot changes. -/
structure Keeps (before after : SchedulerState cpuCount) : Prop where
  assignedCpu : ∀ task, (after.taskPool task).assignedCpu = (before.taskPool task).assignedCpu
  identifier : ∀ task, (after.taskPool task).identifier = (before.taskPool task).identifier
  cpuId : ∀ cpu, (after.perCpu cpu).cpuId = (before.perCpu cpu).cpuId
  nextTaskId : after.nextTaskId = before.nextTaskId
  stackIndex : after.stackIndex = before.stackIndex

theorem Keeps.refl (state : SchedulerState cpuCount) : Keeps state state :=
  ⟨fun _ => rfl, fun _ => rfl, fun _ => rfl, rfl, rfl⟩

theorem Keeps.trans (earlier : Keeps before middle) (later : Keeps middle after) : Keeps before after where
  assignedCpu task := (later.assignedCpu task).trans (earlier.assignedCpu task)
  identifier task := (later.identifier task).trans (earlier.identifier task)
  cpuId cpu := (later.cpuId cpu).trans (earlier.cpuId cpu)
  nextTaskId := later.nextTaskId.trans earlier.nextTaskId
  stackIndex := later.stackIndex.trans earlier.stackIndex

theorem Frame.keeps (frame : Frame before after) : Keeps before after where
  assignedCpu task := by rw [frame.task]
  identifier := frame.identifier
  cpuId cpu := by rw [frame.cpu]
  nextTaskId := frame.nextTaskId
  stackIndex := frame.stackIndex

theorem Keeps.atHome (keeps : Keeps before after) (home : AtHome before cpu task) : AtHome after cpu task := by
  unfold AtHome
  rw [keeps.assignedCpu, keeps.identifier]
  exact home

/-- A change that fills no slot, as what it may bring into queues, current tasks and idle tasks. -/
theorem Settled.change (settled : Settled before) (keeps : Keeps before after) (filled : after.Filled)
    (status : ∀ task, after.status task = before.status task ∨
      (before.taskPool task).identifier ≠ 0 ∧ after.status task ≠ .terminated)
    (queued : ∀ cpu level task, task ∈ after.ready cpu level → AtHome before cpu task)
    (current : ∀ cpu task, after.current cpu = some task → AtHome before cpu task)
    (idle : ∀ cpu task, after.idle cpu = some task → AtHome before cpu task) : Settled after where
  filled := filled
  cpuId cpu := (keeps.cpuId cpu).trans (settled.cpuId cpu)
  unused task unused := by
    rw [keeps.identifier] at unused
    rcases status task with same | ⟨used, _⟩
    · rw [same]
      exact settled.unused task unused
    · exact (used unused).elim
  lasting task := by
    rcases status task with same | ⟨_, lives⟩
    · rw [same]
      exact settled.lasting task
    · exact lives
  nextTaskId := by rw [keeps.nextTaskId, keeps.stackIndex, settled.nextTaskId]
  stackIndex := by
    rw [keeps.stackIndex]
    exact settled.stackIndex
  queued cpu level task member := keeps.atHome (queued cpu level task member)
  current cpu task runs := keeps.atHome (current cpu task runs)
  idle cpu task fallback := keeps.atHome (idle cpu task fallback)

/-- The slots of `Function.update`d statuses: only one task has got another one. -/
theorem status_update {status : TaskStatus} (changed : after.status = Function.update before.status task status)
    (used : (before.taskPool task).identifier ≠ 0) (lives : status ≠ .terminated) (other : TaskPointer) :
    after.status other = before.status other ∨
      (before.taskPool other).identifier ≠ 0 ∧ after.status other ≠ .terminated := by
  rw [changed, Function.update_apply]
  split
  next same =>
    subst same
    exact .inr ⟨used, lives⟩
  next => exact .inl rfl

theorem Settled.restatus (settled : Settled before) {status : TaskStatus} (changed : Restatus before task status after)
    (used : (before.taskPool task).identifier ≠ 0) (lives : status ≠ .terminated) : Settled after := by
  apply settled.change changed.frame.keeps (changed.filled settled.filled) (status_update changed.status used lives)
  · rw [changed.ready]
    exact settled.queued
  · rw [changed.current]
    exact settled.current
  · intro cpu task
    rw [changed.frame.idle]
    exact settled.idle cpu task

/-- The processor's queues may lose tasks. -/
theorem Settled.withQueues (settled : Settled before) {queues : ReadyQueues}
    (filled : (withQueues before cpu queues).Filled)
    (fewer : ∀ other level task,
      task ∈ (withQueues before cpu queues).ready other level → task ∈ before.ready other level) :
    Settled (withQueues before cpu queues) := by
  have frame := withQueues_frame before cpu queues
  apply settled.change frame.keeps filled (fun _ => .inl rfl)
  · exact fun other level task member => settled.queued other level task (fewer other level task member)
  · rw [withQueues_current]
    exact settled.current
  · intro other task
    rw [frame.idle]
    exact settled.idle other task

theorem Settled.pushReady (settled : Settled before) {priority : Nat} (home : AtHome before cpu task)
    (result : before.pushReady cpu priority task = .ok after) : Settled after ∧ Keeps before after := by
  have pushes := pushReady_enqueued settled.filled result
  obtain ⟨level, _, lists⟩ := pushes.level
  have statuses := status_congr pushes.taskPool
  have keeps := pushes.frame.keeps
  refine ⟨settled.change keeps pushes.filled (fun _ => .inl (by rw [statuses])) ?_ ?_ ?_, keeps⟩
  · intro other rank queued member
    rw [lists] at member
    split at member
    next own =>
      obtain ⟨rfl, rfl⟩ := own
      rcases mem_pushed member with rfl | old
      · exact home
      · exact settled.queued _ _ _ old
    next => exact settled.queued _ _ _ member
  · rw [pushes.current]
    exact settled.current
  · intro other task
    rw [pushes.frame.idle]
    exact settled.idle other task

/-- One processor gets another current or idle task. -/
theorem home_update {places updated : Fin cpuCount → Option TaskPointer}
    (changed : updated = Function.update places cpu (some task))
    (homes : ∀ cpu task, places cpu = some task → AtHome before cpu task) (home : AtHome before cpu task)
    (other : Fin cpuCount) (next : TaskPointer) (found : updated other = some next) : AtHome before other next := by
  rw [changed, Function.update_apply] at found
  split at found
  next same =>
    subst same
    cases found
    exact home
  next => exact homes other next found

theorem Settled.makeCurrent (settled : Settled before) (home : AtHome before cpu task) :
    Settled (makeCurrent before cpu task) := by
  have frame := makeCurrent_frame before cpu task
  apply settled.change frame.keeps (makeCurrent_filled settled.filled cpu task)
    (status_update (makeCurrent_status before cpu task) home.2 (by decide))
  · rw [makeCurrent_ready]
    exact settled.queued
  · exact home_update (makeCurrent_current before cpu task) settled.current home
  · intro other task
    rw [frame.idle]
    exact settled.idle other task

theorem Settled.installed (settled : Settled before) (home : AtHome before cpu task)
    (install : Installed before cpu task after) : Settled after ∧ Keeps before after := by
  have keeps : Keeps before after :=
    ⟨fun task => by rw [install.task], fun task => by rw [install.task], fun cpu => (install.numbers cpu).1,
      install.nextTaskId, install.stackIndex⟩
  refine ⟨settled.change keeps install.filled (status_update install.status home.2 (by decide)) ?_ ?_ ?_, keeps⟩
  · rw [install.ready]
    exact settled.queued
  · exact home_update install.current settled.current home
  · exact home_update install.idle settled.idle home

/-- The counters of the processors do not say where a task is. -/
theorem Settled.recount (settled : Settled before) (pool : after.taskPool = before.taskPool)
    (nextTaskId : after.nextTaskId = before.nextTaskId) (stackIndex : after.stackIndex = before.stackIndex)
    (cpus : ∀ cpu, after.perCpu cpu =
      { before.perCpu cpu with
        isOnline := (after.perCpu cpu).isOnline
        taskCount := (after.perCpu cpu).taskCount }) : Settled after ∧ Keeps before after := by
  have keeps : Keeps before after :=
    ⟨fun task => by rw [pool], fun task => by rw [pool], fun cpu => by rw [cpus], nextTaskId, stackIndex⟩
  refine ⟨settled.change keeps ?_ (fun task => .inl (by rw [status_congr pool])) ?_ ?_ ?_, keeps⟩
  · intro cpu level
    rw [cpus]
    exact settled.filled cpu level
  · intro cpu level task
    unfold ready
    rw [cpus]
    exact settled.queued cpu level task
  · intro cpu task
    unfold SchedulerState.current
    rw [cpus]
    exact settled.current cpu task
  · intro cpu task
    unfold SchedulerState.idle
    rw [cpus]
    exact settled.idle cpu task

theorem Settled.counted (settled : Settled before) (cpu : Fin cpuCount) (count : PerCpuData → Nat) :
    Settled (before.updateCpu cpu fun pcpu => { pcpu with taskCount := count pcpu }) ∧
      Keeps before (before.updateCpu cpu fun pcpu => { pcpu with taskCount := count pcpu }) :=
  settled.recount rfl rfl rfl fun other => by
    rw [updateCpu_perCpu]
    split
    next same =>
      subst same
      rfl
    next => rfl

theorem Settled.enlist (settled : Settled before) {priority : Nat} (home : AtHome before cpu task)
    (result : enlist before cpu priority task = .ok after) : Settled after ∧ Keeps before after := by
  unfold Kernix.enlist at result
  obtain ⟨queued, push, result⟩ := bind_ok result
  obtain ⟨settledQueued, keeps⟩ := settled.pushReady home push
  cases result
  obtain ⟨settledCounted, kept⟩ := settledQueued.counted cpu fun pcpu => u32 (pcpu.taskCount + 1)
  exact ⟨settledCounted, keeps.trans kept⟩

/-- Filling in an unused slot: it belongs to the processor that was chosen. -/
theorem Settled.prepare (settled : Settled before) {name : List UInt8} {entry priority stackSize : Nat}
    (unused : (before.taskPool task).identifier = 0) (room : before.stackIndex < maxTaskCount)
    (result : prepareTask before task cpu name entry priority stackSize = .ok after) :
    Settled after ∧ AtHome after cpu task ∧ ∀ other home, AtHome before home other → AtHome after home other := by
  obtain ⟨filling, identifier, _, status, assigned, _, pool, cpus, nextTaskId, stackIndex⟩ := prepareTask_result result
  have fresh : filling.identifier ≠ 0 := by
    rw [identifier, settled.nextTaskId]
    exact Nat.succ_ne_zero _
  have apart {home : Fin cpuCount} {other : TaskPointer} (known : AtHome before home other) : other ≠ task := by
    rintro rfl
    exact known.2 unused
  have homes (other : TaskPointer) (home : Fin cpuCount) (known : AtHome before home other) :
      AtHome after home other := by
    unfold AtHome
    rw [pool, Function.update_of_ne (apart known)]
    exact known
  have statuses (other : TaskPointer) : after.status other = if other = task then .ready else before.status other := by
    unfold SchedulerState.status
    rw [pool, Function.update_apply]
    split
    next => exact status
    next => rfl
  refine ⟨⟨?_, ?_, ?_, ?_, ?_, ?_, ?_, ?_, ?_⟩, ?_, homes⟩
  · intro cpu level
    rw [cpus]
    exact settled.filled cpu level
  · intro cpu
    rw [cpus]
    exact settled.cpuId cpu
  · intro other zero
    rw [statuses]
    split
    next => rfl
    next different =>
      rw [pool, Function.update_of_ne different] at zero
      exact settled.unused other zero
  · intro other
    rw [statuses]
    split
    next => decide
    next => exact settled.lasting other
  · rw [nextTaskId, stackIndex, settled.nextTaskId]
    unfold u32 maxTaskCount at *
    omega
  · rw [stackIndex]
    exact room
  · intro other level queued member
    rw [ready_congr cpus] at member
    exact homes _ _ (settled.queued other level queued member)
  · intro other runs found
    rw [current_congr cpus] at found
    exact homes _ _ (settled.current other runs found)
  · intro other fallback found
    unfold SchedulerState.idle at found
    rw [cpus] at found
    exact homes _ _ (settled.idle other fallback found)
  · unfold AtHome
    rw [pool, Function.update_self, assigned, settled.cpuId]
    exact ⟨rfl, fresh⟩

end Kernix.Proofs
