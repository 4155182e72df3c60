import Kernix.Proofs.IdleTask
import Mathlib.Data.List.Rotate

/-! How the tasks of one priority share a processor. As long as two of them have nothing
but turns to take, the timer and the calls that yield pass the processor on from one to the
next, a whole time slice each, and no task of a lower priority runs at all. -/

namespace Kernix.Proofs
open SchedulerState

variable {cpuCount : Nat} {before after : SchedulerState cpuCount} {apicId : Nat} {cpu : Fin cpuCount}
  {level : Fin maxPriorityLevels} {tasks : List TaskPointer} {left : Nat}

/-- The running task and, behind it, those that wait at its level: more than one, and none
at a level above. The running task has `left` ticks. -/
structure Sharing (state : SchedulerState cpuCount) (apicId : Nat) (cpu : Fin cpuCount) (level : Fin maxPriorityLevels)
    (tasks : List TaskPointer) (left : Nat) : Prop where
  healthy : Healthy state apicId cpu
  current : state.current cpu = tasks.head?
  waiting : state.ready cpu level = tasks.tail
  urgent : ∀ lower < level, state.ready cpu lower = []
  levels : ∀ task ∈ tasks, (state.taskPool task).priorityLevel = level
  nodup : tasks.Nodup
  several : 1 < tasks.length
  running : ∀ task, state.current cpu = some task →
    state.status task = .running ∧ (state.taskPool task).remainingTicks = left

/-- Whatever `perform_scheduling` picks gets a whole time slice. -/
theorem performScheduling_slice {dispatch : Dispatch} (known : perCpuCurrent before.perCpu apicId = some cpu)
    (result : performScheduling before apicId = .ok (after, dispatch)) {task : TaskPointer}
    (current : after.current cpu = some task) : (after.taskPool task).remainingTicks = timeSliceTicks := by
  unfold performScheduling at result
  rw [known] at result
  cases taken : taskQueuePopPriority (before.perCpu cpu).readyQueues with
  | mk popped queues =>
    simp only [taken] at result
    split at result
    next => cases result
    next next chosen =>
      split at result
      next same =>
        cases result
        rw [current_congr (updateTask_perCpu ..)] at current
        cases same.symm.trans current
        rw [updateTask_taskPool, if_pos rfl]
      next =>
        unfold switchTask at result
        obtain ⟨requeued, _, rest⟩ := bind_ok result
        cases rest
        rw [makeCurrent_current, Function.update_self] at current
        cases current
        unfold makeCurrent
        rw [updateTask_taskPool, if_pos rfl]

/-- What the tasks that share a processor leave as it is: the queues of other levels and
processors, what runs elsewhere and the tasks that do not share. -/
structure Undisturbed (before after : SchedulerState cpuCount) (cpu : Fin cpuCount) (level : Fin maxPriorityLevels)
    (tasks : List TaskPointer) : Prop where
  queues : ∀ other rank, ¬(other = cpu ∧ rank = level) → after.ready other rank = before.ready other rank
  elsewhere : ∀ other, other ≠ cpu → after.current other = before.current other
  others : ∀ task, task ∉ tasks → after.status task = before.status task

theorem Undisturbed.refl (state : SchedulerState cpuCount) (cpu : Fin cpuCount) (level : Fin maxPriorityLevels)
    (tasks : List TaskPointer) : Undisturbed state state cpu level tasks :=
  ⟨fun _ _ _ => rfl, fun _ _ => rfl, fun _ _ => rfl⟩

theorem Undisturbed.trans {first second third : SchedulerState cpuCount} (earlier : Undisturbed first second cpu level tasks)
    (later : Undisturbed second third cpu level tasks) : Undisturbed first third cpu level tasks where
  queues other rank apart := (later.queues other rank apart).trans (earlier.queues other rank apart)
  elsewhere other apart := (later.elsewhere other apart).trans (earlier.elsewhere other apart)
  others task outside := (later.others task outside).trans (earlier.others task outside)

theorem Undisturbed.rotated {turns : Nat} (kept : Undisturbed before after cpu level (tasks.rotate turns)) :
    Undisturbed before after cpu level tasks :=
  ⟨kept.queues, kept.elsewhere, fun task outside => kept.others task fun member => outside (List.mem_rotate.mp member)⟩

/-- The pop takes the task that has waited longest. -/
theorem Sharing.picks {running next picked : TaskPointer} {rest : List TaskPointer}
    {lists : Fin cpuCount → Fin maxPriorityLevels → List TaskPointer}
    (sharing : Sharing before apicId cpu level (running :: next :: rest) left) (picks : Picks before cpu picked lists) :
    picked = next ∧ lists = fun other rank => if other = cpu ∧ rank = level then rest else before.ready other rank := by
  have first : Front (before.ready cpu) level next rest := ⟨sharing.waiting, sharing.urgent⟩
  obtain ⟨popped, pops, chosen⟩ := picks
  cases pops with
  | empty vacant => cases (vacant level).symm.trans first.1
  | front front =>
    obtain ⟨rfl, rfl⟩ := front.unique first
    obtain rfl := (List.cons.inj (front.1.symm.trans first.1)).2
    exact ⟨(Option.some.inj chosen).symm, rfl⟩

/-- One call passes the processor on. -/
theorem Sharing.turn (sharing : Sharing before apicId cpu level tasks left) :
    ∃ after dispatch, performScheduling before apicId = .ok (after, dispatch) ∧
      Sharing after apicId cpu level (tasks.rotate 1) timeSliceTicks ∧ Undisturbed before after cpu level tasks := by
  obtain ⟨after, dispatch, result⟩ := sharing.healthy.returns
  refine ⟨after, dispatch, result, ?_⟩
  obtain ⟨frame, filled, scheduled⟩ := performScheduling_scheduled sharing.healthy.filled sharing.healthy.known result
  have several := sharing.several
  match tasks, several with
  | running :: next :: rest, several =>
  have runs : before.current cpu = some running := sharing.current
  obtain ⟨outside, nodup⟩ := List.nodup_cons.mp sharing.nodup
  have apart : running ≠ next := fun same => outside (same ▸ List.mem_cons_self)
  cases scheduled with
  | stay picks same status current =>
    obtain ⟨rfl, _⟩ := sharing.picks picks
    exact absurd (Option.some.inj (runs.symm.trans same)) apart
  | leave picks different idle status current => exact absurd (sharing.running running runs).1 (idle running runs)
  | @requeue picked old rank lists picks different old_current active level_eq ready status current =>
    obtain ⟨rfl, rfl⟩ := sharing.picks picks
    dsimp only at ready
    cases runs.symm.trans old_current
    obtain rfl : rank = level := Fin.ext (level_eq.trans (sharing.levels running List.mem_cons_self))
    have turned : after.current cpu = some picked := by rw [current, Function.update_self]
    have fits : (before.ready cpu rank).length ≤ maxTaskCount := tasks_length_le (sharing.healthy.filled cpu rank)
    rw [sharing.waiting, List.tail_cons, List.length_cons] at fits
    have rotated : (running :: picked :: rest).rotate 1 = picked :: (rest ++ [running]) := by simp
    refine ⟨⟨sharing.healthy.framed filled frame, ?_, ?_, fun lower less => ?_, fun task member => ?_, ?_, ?_,
      fun task found => ?_⟩, fun other level apart => ?_, fun other apart => ?_, fun task outside => ?_⟩
    · rw [rotated, turned, List.head?_cons]
    · rw [rotated, ready, if_pos ⟨rfl, rfl⟩, if_pos ⟨rfl, rfl⟩, List.tail_cons, pushed, if_pos (by omega)]
    · rw [ready, if_neg fun both => ne_of_lt less both.2, if_neg fun both => ne_of_lt less both.2]
      exact sharing.urgent lower less
    · rw [frame.priorityLevel]
      exact sharing.levels task (List.mem_rotate.mp member)
    · exact List.nodup_rotate.mpr sharing.nodup
    · rw [List.length_rotate]
      exact several
    · cases turned.symm.trans found
      refine ⟨?_, performScheduling_slice sharing.healthy.known result turned⟩
      rw [status, Function.update_self]
    · rw [ready, if_neg apart, if_neg apart]
    · rw [current, Function.update_of_ne apart]
    · rw [status, Function.update_of_ne, Function.update_of_ne]
      · exact fun same => outside (same ▸ List.mem_cons_self)
      · exact fun same => outside (same ▸ List.mem_cons_of_mem _ List.mem_cons_self)

/-- The calls that may pass the processor on. -/
def SchedulerOp.Shares : SchedulerOp → Prop
  | .handleSchedulerTimer | .yieldCurrentTask | .performScheduling => True
  | _ => False

/-- The ticks that are left to the running task, and the turns that have been taken: the
timer waits for the last tick, the other calls do not. -/
def countTurn (clock : Nat × Nat) : SchedulerOp → Nat × Nat
  | .handleSchedulerTimer => if 1 < clock.1 then (clock.1 - 1, clock.2) else (timeSliceTicks, clock.2 + 1)
  | _ => (timeSliceTicks, clock.2 + 1)

/-- Calls on one processor, one after the other. -/
def runTicks (apicId : Nat) (state : SchedulerState cpuCount) (ops : List SchedulerOp) :
    Except Stop (SchedulerState cpuCount) :=
  ops.foldlM (fun state op => (runOp state apicId op).map Prod.fst) state

/-- A task runs, and gives away a tick. -/
theorem Sharing.spend (sharing : Sharing before apicId cpu level tasks left) :
    ∃ running, getCurrentTask before apicId = some running ∧
      ((spendTick before running).taskPool running).remainingTicks = left - 1 ∧
      Sharing (spendTick before running) apicId cpu level tasks (left - 1) ∧
      Undisturbed before (spendTick before running) cpu level tasks := by
  have runs : before.current cpu ≠ none := by
    rw [sharing.current, ne_eq, List.head?_eq_none_iff]
    rintro rfl
    exact absurd sharing.several (Nat.not_lt_zero 1)
  obtain ⟨running, current⟩ := Option.ne_none_iff_exists'.mp runs
  have ticks := (sharing.running running current).2
  have spent := spendTick_restatus before running
  have less : ((spendTick before running).taskPool running).remainingTicks = left - 1 := by
    unfold spendTick
    split
    · rw [updateTask_taskPool, if_pos rfl, ticks]
    · omega
  have statuses : (spendTick before running).status = before.status := by rw [spent.status, Function.update_eq_self]
  refine ⟨running, Option.bind_eq_some_iff.mpr ⟨cpu, sharing.healthy.known, current⟩, less,
    ⟨sharing.healthy.framed (spent.filled sharing.healthy.filled) spent.frame, ?_, ?_, ?_, ?_, sharing.nodup,
      sharing.several, fun task now => ?_⟩, fun other rank _ => ?_, fun other _ => ?_, fun task _ => ?_⟩
  · rw [spent.current]
    exact sharing.current
  · rw [spent.ready]
    exact sharing.waiting
  · rw [spent.ready]
    exact sharing.urgent
  · intro task member
    rw [spent.frame.priorityLevel]
    exact sharing.levels task member
  · rw [spent.current] at now
    cases current.symm.trans now
    rw [statuses]
    exact ⟨(sharing.running running current).1, less⟩
  · rw [spent.ready]
  · rw [spent.current]
  · rw [statuses]

/-- A call passes the processor on when the clock counts a turn. -/
theorem Sharing.call {op : SchedulerOp} (sharing : Sharing before apicId cpu level tasks left) (shares : op.Shares)
    (turns : Nat) : ∃ after, (runOp before apicId op).map Prod.fst = .ok after ∧
      Sharing after apicId cpu level (tasks.rotate ((countTurn (left, turns) op).2 - turns)) (countTurn (left, turns) op).1 ∧
      Undisturbed before after cpu level tasks := by
  obtain ⟨running, found, less, spent, kept⟩ := sharing.spend
  have passes {entry : SchedulerState cpuCount} {ticks : Nat} (entered : Sharing entry apicId cpu level tasks ticks)
      (undisturbed : Undisturbed before entry cpu level tasks) (calls : Calls before apicId op entry)
      (counts : countTurn (left, turns) op = (timeSliceTicks, turns + 1)) :
      ∃ after, (runOp before apicId op).map Prod.fst = .ok after ∧
        Sharing after apicId cpu level (tasks.rotate ((countTurn (left, turns) op).2 - turns))
          (countTurn (left, turns) op).1 ∧ Undisturbed before after cpu level tasks := by
    obtain ⟨after, dispatch, result, turned, rest⟩ := entered.turn
    refine ⟨after, ?_, ?_, undisturbed.trans rest⟩
    · rw [runOp_calls calls, result]
      rfl
    · rw [counts, Nat.add_sub_cancel_left]
      exact turned
  cases op with
  | performScheduling => exact passes sharing (.refl ..) .perform rfl
  | yieldCurrentTask => exact passes sharing (.refl ..) (.yield found) rfl
  | handleSchedulerTimer =>
    by_cases many : 1 < left
    · have counts : countTurn (left, turns) .handleSchedulerTimer = (left - 1, turns) := if_pos many
      refine ⟨spendTick before running, ?_, ?_, kept⟩
      · unfold runOp handleSchedulerTimer
        rw [found]
        dsimp only
        rw [if_neg (by omega)]
        rfl
      · rw [counts, Nat.sub_self, List.rotate_zero]
        exact spent
    · exact passes spent kept (.timer found (by omega)) (if_neg many)
  | _ => exact shares.elim

/-- In every run of these calls the turns go round. -/
theorem Sharing.run (sharing : Sharing before apicId cpu level tasks left) (ops : List SchedulerOp)
    (shares : ∀ op ∈ ops, op.Shares) (turns : Nat) : ∃ after, runTicks apicId before ops = .ok after ∧
      Sharing after apicId cpu level (tasks.rotate ((ops.foldl countTurn (left, turns)).2 - turns))
        (ops.foldl countTurn (left, turns)).1 ∧
      turns ≤ (ops.foldl countTurn (left, turns)).2 ∧ Undisturbed before after cpu level tasks := by
  induction ops generalizing before tasks left turns with
  | nil =>
    refine ⟨before, rfl, ?_, Nat.le_refl turns, .refl ..⟩
    rw [List.foldl_nil, Nat.sub_self, List.rotate_zero]
    exact sharing
  | cons op ops ih =>
    obtain ⟨middle, result, shared, kept⟩ := sharing.call (shares op List.mem_cons_self) turns
    obtain ⟨after, run, ends, later, rest⟩ :=
      ih shared (fun op member => shares op (List.mem_cons_of_mem _ member)) (countTurn (left, turns) op).2
    rw [Prod.mk.eta] at ends later
    have forward : turns ≤ (countTurn (left, turns) op).2 := by
      unfold countTurn
      split
      · split <;> simp
      · simp
    refine ⟨after, ?_, ?_, forward.trans later, kept.trans rest.rotated⟩
    · unfold runTicks
      rw [List.foldlM_cons, result]
      exact run
    · rw [List.rotate_rotate] at ends
      rw [List.foldl_cons]
      have sum : (countTurn (left, turns) op).2 - turns +
          ((ops.foldl countTurn (countTurn (left, turns) op)).2 - (countTurn (left, turns) op).2) =
          (ops.foldl countTurn (countTurn (left, turns) op)).2 - turns := by omega
      rw [sum] at ends
      exact ends

/-- From a state in which tasks share a processor, after any calls of the timer and of those
that yield: the task whose turn it is runs, the others wait behind it, and the tasks of lower
priority are where they were. -/
theorem slices_go_round (sharing : Sharing before apicId cpu level tasks left) (ops : List SchedulerOp)
    (shares : ∀ op ∈ ops, op.Shares) : ∃ after, runTicks apicId before ops = .ok after ∧
      after.current cpu = tasks[(ops.foldl countTurn (left, 0)).2 % tasks.length]? ∧
      after.ready cpu level = (tasks.rotate (ops.foldl countTurn (left, 0)).2).tail ∧
      Undisturbed before after cpu level tasks := by
  obtain ⟨after, run, ends, _, kept⟩ := sharing.run ops shares 0
  refine ⟨after, run, ?_, ends.waiting, kept⟩
  rw [ends.current, Nat.sub_zero, ← List.rotate_mod]
  exact List.head?_rotate (Nat.mod_lt _ (by have := sharing.several; omega))

/-- The idle task and two others of its priority, which the timer interrupts. -/
def threeTasks : List (Nat × SchedulerOp) :=
  [(0, .createNewTask (literal "first") 0x2000 0 4096), (0, .createNewTask (literal "second") 0x3000 0 4096),
    (0, .performScheduling)]

theorem slices_go_round_threeTasks :
    ∃ observed, startedRun (MadeBy 0) (oneProcessor 0) 0x1000 threeTasks = some observed ∧
      ∃ after, runTicks 0 observed.state (List.replicate 25 .handleSchedulerTimer ++ [.yieldCurrentTask]) = .ok after ∧
        after.current 0 = some 0 ∧ after.ready 0 0 = [1, 2] := by
  have state : (startedRun (MadeBy 0) (oneProcessor 0) 0x1000 threeTasks).map (fun observed =>
      (observed.state.current 0, observed.state.ready 0 0, observed.state.status 0,
        (observed.state.taskPool 0).remainingTicks, [0, 1, 2].map fun task =>
          (observed.state.taskPool task).priorityLevel)) = some (some 0, [1, 2], .running, 10, [0, 0, 0]) := by
    decide +kernel
  obtain ⟨observed, run, values⟩ := Option.map_eq_some_iff.mp state
  obtain ⟨current, waiting, status, ticks, first, second, third⟩ : observed.state.current 0 = some 0 ∧
      observed.state.ready 0 0 = [1, 2] ∧ observed.state.status 0 = .running ∧
      (observed.state.taskPool 0).remainingTicks = 10 ∧ (observed.state.taskPool 0).priorityLevel = 0 ∧
      (observed.state.taskPool 1).priorityLevel = 0 ∧ (observed.state.taskPool 2).priorityLevel = 0 := by
    simpa using values
  have sharing : Sharing observed.state 0 0 0 [0, 1, 2] 10 := by
    refine ⟨healthy_reachable (startedRun_reachable (MadeBy 0) run), current, waiting, fun lower less => ?_, ?_,
      by decide, by decide, ?_⟩
    · exact absurd less (Fin.not_lt_zero lower)
    · simp [first, second, third]
    · intro task now
      cases current.symm.trans now
      exact ⟨status, ticks⟩
  obtain ⟨after, result, runs, queue, _⟩ := slices_go_round sharing
    (List.replicate 25 .handleSchedulerTimer ++ [.yieldCurrentTask]) (by simp [SchedulerOp.Shares])
  exact ⟨observed, run, after, result, runs, queue⟩

end Kernix.Proofs
