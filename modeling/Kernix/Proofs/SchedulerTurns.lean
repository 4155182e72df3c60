import Kernix.Proofs.IdleTask

/-! A call of `perform_scheduling` on a single processor, counted: in how many slots
of each ready queue a task waits before the call and after it. -/

namespace Kernix.Proofs
open SchedulerState

variable {before after : SchedulerState 1} {idle task next : TaskPointer}

/-- The old task goes back to its ready queue. -/
def Returns (before : SchedulerState 1) (next task : TaskPointer) : Prop :=
  before.current 0 = some task ∧ before.status task = .running ∧ task ≠ next

instance (before : SchedulerState 1) (next task : TaskPointer) : Decidable (Returns before next task) :=
  inferInstanceAs (Decidable (_ ∧ _ ∧ _))

/-- A call of `perform_scheduling`, as what it does to the number of slots that hold each task. -/
structure Turn (before after : SchedulerState 1) (next : TaskPointer) (popped : Option TaskPointer)
    (level : Fin maxPriorityLevels) : Prop where
  chosen : (popped.orElse fun _ => before.idle 0) = some next
  vacant : popped = none → ∀ rank, before.ready 0 rank = []
  counts : ∀ rank task,
    (after.ready 0 rank).count task + (if popped = some task ∧ rank = level then 1 else 0) =
      (before.ready 0 rank).count task +
        if Returns before next task ∧ rank.val = (before.taskPool task).priorityLevel then 1 else 0
  current : after.current 0 = some next
  status : ∀ task, after.status task =
    if task = next ∧ before.current 0 ≠ some next then .running
    else if Returns before next task then .ready else before.status task

theorem Pops.counts {popped : Option TaskPointer} {lists : Fin 1 → Fin maxPriorityLevels → List TaskPointer}
    (pops : Pops before 0 popped lists) :
    ∃ level, ∀ rank task, (lists 0 rank).count task + (if popped = some task ∧ rank = level then 1 else 0) =
      (before.ready 0 rank).count task := by
  cases pops with
  | empty vacant => exact ⟨0, fun rank task => by simp⟩
  | @front level found rest first =>
    refine ⟨level, fun rank task => ?_⟩
    simp only [true_and, Option.some.injEq]
    by_cases same : rank = level
    · subst same
      simp only [if_true, and_true]
      rw [first.1, List.count_cons]
      simp
    · simp only [same, and_false, if_false, Nat.add_zero]

/-- The queues keep room for a task that goes back. -/
theorem Pops.room {popped : Option TaskPointer} {lists : Fin 1 → Fin maxPriorityLevels → List TaskPointer}
    (pops : Pops before 0 popped lists) (filled : before.Filled) {rank : Fin maxPriorityLevels}
    (room : rank ≠ 0 → (before.ready 0 rank).length < maxTaskCount) : (lists 0 rank).length < maxTaskCount := by
  cases pops with
  | empty vacant =>
    rw [vacant rank]
    decide
  | @front level found rest first =>
    simp only [true_and]
    split
    next same =>
      subst same
      have bound : (before.ready 0 rank).length ≤ maxTaskCount := tasks_length_le (filled 0 rank)
      rw [first.1, List.length_cons] at bound
      exact bound
    next different =>
      by_cases zero : rank = 0
      · subst zero
        rw [first.2 0 (Fin.pos_of_ne_zero fun equal => different equal.symm)]
        decide
      · exact room zero

theorem count_pushed {tasks : List TaskPointer} (room : tasks.length < maxTaskCount) (task other : TaskPointer) :
    (pushed tasks task).count other = tasks.count other + if task = other then 1 else 0 := by
  unfold pushed
  rw [if_pos room, List.count_append, List.count_singleton]
  simp

/-- How often each task is queued when one of the queues takes a task. -/
theorem counts_pushed {old new : Fin maxPriorityLevels → List TaskPointer} {level : Fin maxPriorityLevels}
    (lists : ∀ rank, new rank = if rank = level then pushed (old rank) task else old rank)
    (room : (old level).length < maxTaskCount) (rank : Fin maxPriorityLevels) (other : TaskPointer) :
    (new rank).count other = (old rank).count other + if rank = level ∧ task = other then 1 else 0 := by
  rw [lists]
  by_cases own : rank = level
  · subst own
    simp only [true_and, if_true]
    exact count_pushed room task other
  · simp only [own, false_and, if_false, Nat.add_zero]

theorem Scheduled.turn (filled : before.Filled) (scheduled : Scheduled before 0 after)
    (room : ∀ rank, rank ≠ 0 → (before.ready 0 rank).length < maxTaskCount) :
    ∃ next popped level, Turn before after next popped level := by
  have vacated {popped : Option TaskPointer} {lists : Fin 1 → Fin maxPriorityLevels → List TaskPointer}
      (pops : Pops before 0 popped lists) (nothing : popped = none) (rank : Fin maxPriorityLevels) :
      before.ready 0 rank = [] := by
    cases pops with
    | empty vacant => exact vacant rank
    | front first => cases nothing
  cases scheduled with
  | @stay next picks same status current =>
    obtain ⟨popped, pops, chosen⟩ := picks
    obtain ⟨level, counts⟩ := pops.counts
    have stays (task : TaskPointer) : ¬ Returns before next task := by
      rintro ⟨runs, _, different⟩
      exact different (Option.some.inj (runs.symm.trans same))
    refine ⟨next, popped, level, chosen, vacated pops, ?_, by rw [current, same], ?_⟩
    · intro rank task
      rw [counts, if_neg fun both => stays task both.1, Nat.add_zero]
    · intro task
      rw [if_neg fun both => both.2 same, if_neg (stays task), status]
  | @requeue next old level lists picks different old_current running level_eq ready status current =>
    obtain ⟨popped, pops, chosen⟩ := picks
    obtain ⟨taken, counts⟩ := pops.counts
    have returns (task : TaskPointer) : Returns before next task ↔ old = task := by
      unfold Returns
      rw [old_current]
      constructor
      · exact fun facts => Option.some.inj facts.1
      · rintro rfl
        exact ⟨rfl, running, fun same => different (by rw [old_current, same])⟩
    have space := pops.room filled (room level)
    refine ⟨next, popped, taken, chosen, vacated pops, ?_, by rw [current, Function.update_self], ?_⟩
    · intro rank task
      have pushes : (after.ready 0 rank).count task =
          (lists 0 rank).count task + if rank = level ∧ old = task then 1 else 0 :=
        counts_pushed (fun rank => by simpa using ready 0 rank) space rank task
      have back : (Returns before next task ∧ rank.val = (before.taskPool task).priorityLevel) ↔
          rank = level ∧ old = task := by
        rw [returns]
        constructor
        · rintro ⟨rfl, rank_eq⟩
          exact ⟨Fin.ext (rank_eq.trans level_eq.symm), rfl⟩
        · rintro ⟨rfl, rfl⟩
          exact ⟨rfl, level_eq⟩
      rw [pushes, ← counts rank task]
      simp only [back]
      omega
    · intro task
      rw [status, Function.update_apply, Function.update_apply]
      simp only [returns, different, ne_eq, not_false_eq_true, and_true, eq_comm]
  | @leave next picks different none_running status current =>
    obtain ⟨popped, pops, chosen⟩ := picks
    obtain ⟨taken, counts⟩ := pops.counts
    have stays (task : TaskPointer) : ¬ Returns before next task :=
      fun facts => none_running task facts.1 facts.2.1
    refine ⟨next, popped, taken, chosen, vacated pops, ?_, by rw [current, Function.update_self], ?_⟩
    · intro rank task
      rw [counts, if_neg fun both => stays task both.1, Nat.add_zero]
    · intro task
      rw [status, Function.update_apply, if_neg (stays task)]
      simp only [different, ne_eq, not_false_eq_true, and_true]

/-- A task that is not the idle task. While a call enters `perform_scheduling` the current task may be blocked. -/
structure Ordinary (entering : Bool) (state : SchedulerState 1) (task : TaskPointer) : Prop where
  alive : state.status task ≠ .terminated
  waits : ∀ rank, (state.ready 0 rank).count task =
    if state.status task = .ready ∧ rank.val = (state.taskPool task).priorityLevel then 1 else 0
  running : state.status task = .running → state.current 0 = some task
  current : state.current 0 = some task →
    state.status task = .running ∨ entering = true ∧ state.status task = .blocked

theorem Turn.ordinary {popped : Option TaskPointer} {level : Fin maxPriorityLevels}
    (turn : Turn before after next popped level) (frame : Frame before after) (installed : before.idle 0 = some idle)
    (different : task ≠ idle) (ordinary : Ordinary true before task) : Ordinary false after task := by
  have priority := frame.priorityLevel task
  have chosen := turn.chosen
  by_cases taken : popped = some task
  · -- it was ready and waited in the slot that the pop took
    subst taken
    cases chosen
    have counted := turn.counts level task
    have one : (before.ready 0 level).count task = 1 ∧ before.status task = .ready ∧
        level.val = (before.taskPool task).priorityLevel := by
      have waits := ordinary.waits level
      have stays : ¬ Returns before task task := fun facts => facts.2.2 rfl
      simp only [stays, false_and, if_false, and_self, if_true] at counted
      split at waits
      next own => exact ⟨waits, own⟩
      next => omega
    have notCurrent : before.current 0 ≠ some task := by
      intro runs
      rcases ordinary.current runs with running | ⟨_, blocked⟩
      · cases one.2.1.symm.trans running
      · cases one.2.1.symm.trans blocked
    have status : after.status task = .running := by
      rw [turn.status, if_pos ⟨rfl, notCurrent⟩]
    refine ⟨by simp [status], ?_, fun _ => turn.current, fun _ => .inl status⟩
    intro rank
    have counted := turn.counts rank task
    have waits := ordinary.waits rank
    have stays : ¬ Returns before task task := fun facts => facts.2.2 rfl
    rw [if_neg (by rw [status]; exact fun both => nomatch both.1)]
    by_cases own : rank = level
    · subst own
      simp only [stays, false_and, if_false, and_self, if_true] at counted
      omega
    · have elsewhere : ¬ (rank.val = (before.taskPool task).priorityLevel) := fun equal =>
        own (Fin.ext (equal.trans one.2.2.symm))
      simp only [stays, false_and, if_false, own, and_false] at counted
      simp only [elsewhere, and_false, if_false] at waits
      omega
  · have notNext : task ≠ next := by
      rintro rfl
      cases popped with
      | none => exact different (Option.some.inj (chosen.symm.trans installed))
      | some other => exact taken chosen
    have notCurrent : after.current 0 ≠ some task := by
      rw [turn.current]
      exact fun same => notNext (Option.some.inj same).symm
    have counted (rank : Fin maxPriorityLevels) := turn.counts rank task
    simp only [taken, false_and, if_false, Nat.add_zero] at counted
    by_cases back : Returns before next task
    · have status : after.status task = .ready := by
        rw [turn.status, if_neg fun both => notNext both.1, if_pos back]
      refine ⟨by simp [status], ?_, ?_, fun runs => absurd runs notCurrent⟩
      · intro rank
        have waits := ordinary.waits rank
        rw [if_neg (by rw [back.2.1]; exact fun both => nomatch both.1)] at waits
        rw [counted, waits, status, priority]
        simp [back]
      · intro running
        cases status.symm.trans running
    · have status : after.status task = before.status task := by
        rw [turn.status, if_neg fun both => notNext both.1, if_neg back]
      refine ⟨by rw [status]; exact ordinary.alive, ?_, ?_, fun runs => absurd runs notCurrent⟩
      · intro rank
        rw [counted, ordinary.waits rank, status, priority]
        simp [back]
      · intro running
        rw [status] at running
        exact absurd ⟨ordinary.running running, running, notNext⟩ back

/-- How often the idle task may be queued. -/
def idleAllowance (entering current : Bool) : TaskStatus → Nat
  | .running => 1
  | .ready => if current then 1 else 2
  | .blocked => if current && !entering then 0 else 1
  | .terminated => 0

/-- The idle task waits at its own priority only, perhaps also while it runs. -/
structure IdlePlaced (entering : Bool) (state : SchedulerState 1) (idle : TaskPointer) : Prop where
  alive : state.status idle ≠ .terminated
  elsewhere : ∀ rank, rank ≠ 0 → (state.ready 0 rank).count idle = 0
  waits : (state.ready 0 0).count idle ≤
    idleAllowance entering (decide (state.current 0 = some idle)) (state.status idle)
  running : state.status idle = .running → state.current 0 = some idle

/-- Choosing the idle task takes it off its queue, if it was there. -/
private theorem Turn.idle_count {popped : Option TaskPointer} {level : Fin maxPriorityLevels}
    (turn : Turn before after idle popped level) (placed : IdlePlaced true before idle) (rank : Fin maxPriorityLevels) :
    (after.ready 0 rank).count idle = (before.ready 0 rank).count idle - 1 := by
  have stays : ¬ Returns before idle idle := fun facts => facts.2.2 rfl
  have counted (rank : Fin maxPriorityLevels) := turn.counts rank idle
  simp only [stays, false_and, if_false, Nat.add_zero] at counted
  cases popped with
  | none =>
    have total := counted rank
    rw [turn.vacant rfl rank] at total ⊢
    simpa using total
  | some first =>
    cases turn.chosen
    have taken := counted level
    simp only [and_self, if_true] at taken
    have low : level = 0 := by
      by_contra high
      have none_there := placed.elsewhere level high
      omega
    by_cases own : rank = level
    · subst own
      omega
    · have total := counted rank
      simp only [own, and_false, if_false, Nat.add_zero] at total
      rw [total, placed.elsewhere rank fun zero => own (zero.trans low.symm)]

theorem Turn.idle_placed {popped : Option TaskPointer} {level : Fin maxPriorityLevels}
    (turn : Turn before after next popped level) (installed : before.idle 0 = some idle)
    (priority : (before.taskPool idle).priorityLevel = 0) (placed : IdlePlaced true before idle) :
    IdlePlaced false after idle := by
  have allowed := placed.waits
  by_cases again : next = idle
  · subst again
    have counted := turn.idle_count placed
    have stays : ¬ Returns before next next := fun facts => facts.2.2 rfl
    have status := turn.status next
    simp only [stays, if_false, true_and] at status
    refine ⟨?_, ?_, ?_, fun _ => turn.current⟩
    · rw [status]
      split
      · simp
      · exact placed.alive
    · intro rank high
      rw [counted, placed.elsewhere rank high]
    · rw [counted, status, turn.current]
      have alive := placed.alive
      by_cases current : before.current 0 = some next
      · simp only [current, ne_eq, not_true, if_false, decide_true] at allowed ⊢
        cases state : before.status next <;> simp_all [idleAllowance]
      · simp only [current, ne_eq, not_false_eq_true, if_true, decide_false, decide_true] at allowed ⊢
        cases state : before.status next <;> simp_all [idleAllowance]
  · have notCurrent : after.current 0 ≠ some idle := by
      rw [turn.current]
      exact fun same => again (Option.some.inj same)
    have untaken : popped ≠ some idle := by
      rintro rfl
      exact again (Option.some.inj turn.chosen).symm
    have counted (rank : Fin maxPriorityLevels) := turn.counts rank idle
    simp only [untaken, false_and, if_false, Nat.add_zero] at counted
    have status := turn.status idle
    rw [if_neg fun both => again both.1.symm] at status
    refine ⟨?_, ?_, ?_, ?_⟩
    · rw [status]
      split
      · simp
      · exact placed.alive
    · intro rank high
      rw [counted, placed.elsewhere rank high, priority]
      have nonzero : rank.val ≠ 0 := fun zero => high (Fin.ext zero)
      simp [nonzero]
    · rw [counted, status]
      simp only [notCurrent, decide_false]
      by_cases back : Returns before next idle
      · have running := back.2.1
        simp only [running, idleAllowance] at allowed
        simp [back, priority, idleAllowance]
        omega
      · have alive := placed.alive
        have running (runs : before.status idle = .running) : False :=
          back ⟨placed.running runs, runs, fun same => again same.symm⟩
        simp only [back, false_and, if_false, Nat.add_zero]
        cases state : before.status idle <;> simp_all [idleAllowance]
        split at allowed <;> omega
    · rw [status]
      split
      next => exact fun impossible => nomatch impossible
      next back => exact fun runs => absurd ⟨placed.running runs, runs, fun same => again same.symm⟩ back

theorem Turn.next_mem {popped : Option TaskPointer} {level : Fin maxPriorityLevels}
    (turn : Turn before after next popped level) (installed : before.idle 0 = some idle) :
    next = idle ∨ next ∈ before.ready 0 level := by
  cases popped with
  | none => exact .inl (Option.some.inj (turn.chosen.symm.trans installed))
  | some first =>
    cases turn.chosen
    have counted := turn.counts level next
    have stays : ¬ Returns before next next := fun facts => facts.2.2 rfl
    simp only [stays, false_and, if_false, and_self, if_true] at counted
    exact .inr (List.count_pos_iff.mp (by omega))

theorem Ordinary.current_running (ordinary : Ordinary false before task) (runs : before.current 0 = some task) :
    before.status task = .running := by
  rcases ordinary.current runs with running | ⟨impossible, _⟩
  · exact running
  · cases impossible

theorem Ordinary.entry (ordinary : Ordinary false before task) : Ordinary true before task :=
  ⟨ordinary.alive, ordinary.waits, ordinary.running, fun runs => .inl (ordinary.current_running runs)⟩

theorem IdlePlaced.entry (placed : IdlePlaced false before idle) : IdlePlaced true before idle := by
  refine ⟨placed.alive, placed.elsewhere, placed.waits.trans ?_, placed.running⟩
  cases before.status idle <;> simp [idleAllowance]
  split <;> omega

theorem Ordinary.congr {entering : Bool} (ordinary : Ordinary entering before task)
    (status : after.status task = before.status task) (current : after.current 0 = before.current 0)
    (priority : (after.taskPool task).priorityLevel = (before.taskPool task).priorityLevel)
    (counts : ∀ rank, (after.ready 0 rank).count task = (before.ready 0 rank).count task) :
    Ordinary entering after task where
  alive := by
    rw [status]
    exact ordinary.alive
  waits rank := by
    rw [counts, status, priority]
    exact ordinary.waits rank
  running := by
    rw [status, current]
    exact ordinary.running
  current := by
    rw [status, current]
    exact ordinary.current

theorem IdlePlaced.congr {entering : Bool} (placed : IdlePlaced entering before idle)
    (status : after.status idle = before.status idle) (current : after.current 0 = before.current 0)
    (counts : ∀ rank, (after.ready 0 rank).count idle = (before.ready 0 rank).count idle) :
    IdlePlaced entering after idle where
  alive := by
    rw [status]
    exact placed.alive
  elsewhere rank high := by
    rw [counts]
    exact placed.elsewhere rank high
  waits := by
    rw [counts, status, current]
    exact placed.waits
  running := by
    rw [status, current]
    exact placed.running

/-- A live task that is current or blocked is in no queue. -/
theorem Ordinary.absent {entering : Bool} (ordinary : Ordinary entering before task)
    (busy : before.status task ≠ .ready) (rank : Fin maxPriorityLevels) : (before.ready 0 rank).count task = 0 := by
  rw [ordinary.waits, if_neg fun both => busy both.1]

theorem Ordinary.count_le {entering : Bool} (ordinary : Ordinary entering before task)
    (rank : Fin maxPriorityLevels) : (before.ready 0 rank).count task ≤ 1 := by
  rw [ordinary.waits]
  split <;> omega

/-- The places where a task can be. -/
inductive Place where
  | current
  | ready
  | blocked

/-- The task is there, and is queued nowhere else. -/
def StandsAt (state : SchedulerState 1) (task : TaskPointer) : Place → Prop
  | .current => state.current 0 = some task ∧ state.status task = .running ∧ ∀ rank, task ∉ state.ready 0 rank
  | .ready => state.current 0 ≠ some task ∧ state.status task = .ready ∧
    ∃ own : Fin maxPriorityLevels, own.val = (state.taskPool task).priorityLevel ∧
      ∀ rank, (state.ready 0 rank).count task = if rank = own then 1 else 0
  | .blocked => state.current 0 ≠ some task ∧ state.status task = .blocked ∧ ∀ rank, task ∉ state.ready 0 rank

theorem Ordinary.place {state : SchedulerState 1} (ordinary : Ordinary false state task)
    (level : (state.taskPool task).priorityLevel < maxPriorityLevels) : ∃! place, StandsAt state task place := by
  cases status : state.status task with
  | running =>
    refine ⟨.current, ⟨ordinary.running status, status, fun rank => ?_⟩, ?_⟩
    · rw [← List.count_eq_zero]
      exact ordinary.absent (by rw [status]; simp) rank
    · rintro (_ | _ | _) ⟨_, other, _⟩
      · rfl
      · cases status.symm.trans other
      · cases status.symm.trans other
  | ready =>
    refine ⟨.ready, ⟨?_, status, ⟨_, level⟩, rfl, fun rank => ?_⟩, ?_⟩
    · intro runs
      cases status.symm.trans (ordinary.current_running runs)
    · rw [ordinary.waits, status]
      simp [Fin.ext_iff]
    · rintro (_ | _ | _) ⟨_, other, _⟩
      · cases status.symm.trans other
      · rfl
      · cases status.symm.trans other
  | blocked =>
    refine ⟨.blocked, ⟨?_, status, fun rank => ?_⟩, ?_⟩
    · intro runs
      cases status.symm.trans (ordinary.current_running runs)
    · rw [← List.count_eq_zero]
      exact ordinary.absent (by rw [status]; simp) rank
    · rintro (_ | _ | _) ⟨_, other, _⟩
      · cases status.symm.trans other
      · cases status.symm.trans other
      · rfl
  | terminated => exact absurd status ordinary.alive

end Kernix.Proofs
