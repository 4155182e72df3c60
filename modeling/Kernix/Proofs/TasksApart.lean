import Kernix.Proofs.Interleavings
import Kernix.Proofs.TaskHomes

/-! Tasks while the processors interleave. What a call has in its local variables belongs
to the processor it acts for, as much as what is in its queues, so that no two processors
ever run one task. -/

namespace Kernix.Proofs
open SchedulerState Transition

variable {cpuCount : Nat} {before middle after : SchedulerState cpuCount} {cpu : Fin cpuCount} {task : TaskPointer}

/-- A call has the task in its local variables, and acts for the processor. -/
def Carries (cpu : Fin cpuCount) (task : TaskPointer) : Pending cpuCount → Prop
  | .enlist _ target created => target = cpu ∧ created = task
  | .installIdle pcpu idleTask => pcpu = cpu ∧ idleTask = some task
  | .leaveOld pcpu nextTask => pcpu = cpu ∧ nextTask = some task
  | .requeueOld pcpu oldTask nextTask => pcpu = cpu ∧ (oldTask = task ∨ nextTask = task)
  | .makeCurrent pcpu nextTask => pcpu = cpu ∧ nextTask = task
  | .makeReady target unblocked => target = cpu ∧ unblocked = task
  | .chooseTarget _ | .searchSlot _ _ | .fillSlot _ _ _ | .popNext _ | .halted => False

/-- An idle task is made for the processor that `create_new_task` has chosen. -/
def Aimed : Pending cpuCount → Prop
  | .searchSlot request target | .fillSlot request target _ => ∀ pcpu, request.idleOf = some pcpu → target = some pcpu
  | .enlist request target _ => ∀ pcpu, request.idleOf = some pcpu → target = pcpu
  | _ => True

/-- The slot that a call has found and not filled in yet. -/
def filling : Pending cpuCount → Option TaskPointer
  | .fillSlot _ _ task => some task
  | _ => none

/-- What a section that is about to come relies on. -/
structure Sound (state : SchedulerState cpuCount) (pending : Pending cpuCount) : Prop where
  carried : ∀ cpu task, Carries cpu task pending → AtHome state cpu task
  aimed : Aimed pending
  vacant : ∀ task, filling pending = some task →
    (state.taskPool task).identifier = 0 ∧ state.stackIndex < maxTaskCount

structure Homed (processors : Processors cpuCount) : Prop where
  settled : Settled processors.state
  sound : ∀ processor pending, processors.pending processor = some pending → Sound processors.state pending
  alone : ∀ first second pending other, processors.pending first = some pending →
    processors.pending second = some other → filling pending ≠ none → filling other ≠ none → first = second

/-- A section that neither carries nor aims nor fills relies on nothing. -/
theorem Sound.free {pending : Pending cpuCount} (state : SchedulerState cpuCount)
    (nothing : ∀ cpu task, ¬ Carries cpu task pending) (aimed : Aimed pending) (fills : filling pending = none) :
    Sound state pending where
  carried cpu task carries := (nothing cpu task carries).elim
  aimed := aimed
  vacant task found := by
    rw [fills] at found
    cases found

theorem Sound.kept {pending : Pending cpuCount} (sound : Sound before pending) (keeps : Keeps before after) :
    Sound after pending where
  carried cpu task carries := keeps.atHome (sound.carried cpu task carries)
  aimed := sound.aimed
  vacant task found := by
    rw [keeps.identifier, keeps.stackIndex]
    exact sound.vacant task found

/-- A section of one processor, as what it leaves behind for itself and what it does to the others. -/
theorem Homed.section {processors : Processors cpuCount} {processor : Fin cpuCount} {next : Option (Pending cpuCount)}
    (homed : Homed processors) (settled : Settled after)
    (others : ∀ other pending, other ≠ processor → processors.pending other = some pending →
      Sound processors.state pending → Sound after pending)
    (sound : ∀ pending, next = some pending → Sound after pending)
    (alone : ∀ pending, next = some pending → filling pending ≠ none →
      ∀ other pending, other ≠ processor → processors.pending other = some pending → filling pending = none) :
    Homed ⟨after, Function.update processors.pending processor next⟩ := by
  have pendings {other : Fin cpuCount} {pending : Pending cpuCount}
      (found : Function.update processors.pending processor next other = some pending) :
      (other = processor ∧ next = some pending) ∨ (other ≠ processor ∧ processors.pending other = some pending) := by
    rw [Function.update_apply] at found
    split at found
    next same => exact .inl ⟨same, found⟩
    next different => exact .inr ⟨different, found⟩
  refine ⟨settled, ?_, ?_⟩
  · intro other pending found
    rcases pendings found with ⟨_, mine⟩ | ⟨different, old⟩
    · exact sound pending mine
    · exact others other pending different old (homed.sound other pending old)
  · intro first second pending other atFirst atSecond fills fills'
    rcases pendings atFirst with ⟨rfl, mine⟩ | ⟨different, old⟩
    · rcases pendings atSecond with ⟨same, _⟩ | ⟨different, old⟩
      · exact same.symm
      · exact (fills' (alone pending mine fills second other different old)).elim
    · rcases pendings atSecond with ⟨rfl, mine⟩ | ⟨_, old'⟩
      · exact (fills (alone other mine fills' first pending different old)).elim
      · exact homed.alone first second pending other old old' fills fills'

/-- What a section that finds and fills no slot leaves behind. -/
structure Moves (before after : SchedulerState cpuCount) (next : Option (Pending cpuCount)) : Prop where
  settled : Settled after
  keeps : Keeps before after
  sound : ∀ pending, next = some pending → Sound after pending
  fills : ∀ pending, next = some pending → filling pending = none

theorem Moves.homed {processors : Processors cpuCount} {processor : Fin cpuCount} {next : Option (Pending cpuCount)}
    (moves : Moves processors.state after next) (homed : Homed processors) :
    Homed ⟨after, Function.update processors.pending processor next⟩ :=
  homed.section moves.settled (fun _ _ _ _ sound => sound.kept moves.keeps) moves.sound
    fun pending mine found => (found (moves.fills pending mine)).elim

/-- The call is over. -/
theorem Moves.done (settled : Settled after) (keeps : Keeps before after) : Moves before after none where
  settled := settled
  keeps := keeps
  sound _ nothing := by cases nothing
  fills _ nothing := by cases nothing

theorem Moves.go {pending : Pending cpuCount} (settled : Settled after) (keeps : Keeps before after)
    (sound : Sound after pending) (fills : filling pending = none) : Moves before after (some pending) where
  settled := settled
  keeps := keeps
  sound _ same := by
    cases same
    exact sound
  fills _ same := by
    cases same
    exact fills

theorem Moves.later (keeps : Keeps before middle) {next : Option (Pending cpuCount)} (moves : Moves middle after next) :
    Moves before after next :=
  ⟨moves.settled, keeps.trans moves.keeps, moves.sound, moves.fills⟩

theorem Settled.enterScheduling (settled : Settled before) (apicId : Nat) :
    Moves before (enterScheduling before apicId).1 (enterScheduling before apicId).2 := by
  unfold Kernix.enterScheduling
  cases perCpuCurrent before.perCpu apicId with
  | none => exact .done settled (.refl _)
  | some cpu => exact .go settled (.refl _) (.free _ (fun _ _ carries => carries) trivial rfl) rfl

theorem Settled.enterInitialize (settled : Settled before) (idleName : List UInt8) (apicId idleTaskEntry : Nat) :
    Moves before (enterInitialize idleName before apicId idleTaskEntry).1
      (enterInitialize idleName before apicId idleTaskEntry).2 := by
  unfold Proofs.enterInitialize
  cases perCpuCurrent before.perCpu apicId with
  | none => exact .go settled (.refl _) (.free _ (fun _ _ carries => carries) trivial rfl) rfl
  | some cpu =>
    have emptied : Settled (Proofs.withQueues before cpu fun _ => initializeTaskQueue) :=
      settled.withQueues (withQueues_filled before cpu _ settled.filled fun _ => initializeTaskQueue_filled)
        fun _ _ _ => mem_emptied
    exact .go emptied (withQueues_frame before cpu _).keeps (.free _ (fun _ _ carries => carries) trivial rfl) rfl

theorem Settled.enterUnblock (settled : Settled before) (task : TaskPointer) :
    Moves before (enterUnblock before task).1 (enterUnblock before task).2 := by
  unfold Proofs.enterUnblock
  split
  next => exact .done settled (.refl _)
  next blocked =>
    have isBlocked : before.status task = .blocked := not_not.mp blocked
    cases known : perCpuGet cpuCount (before.taskPool task).assignedCpu with
    | none => exact .done settled (.refl _)
    | some target =>
      refine .go settled (.refl _) ⟨?_, trivial, fun _ found => by cases found⟩ rfl
      rintro cpu other ⟨rfl, rfl⟩
      unfold perCpuGet at known
      split at known
      next bound =>
        cases known
        refine ⟨rfl, fun unused => ?_⟩
        rw [settled.unused task unused] at isBlocked
        cases isBlocked
      next => cases known

/-- The calls that the processors interleave. -/
def SchedulerOp.Lasting : SchedulerOp → Prop
  | .terminateTask _ => False
  | _ => True

theorem Settled.enter (settled : Settled before) (apicId : Nat) {op : SchedulerOp} (lasting : op.Lasting) :
    Moves before (enter before apicId op).1 (enter before apicId op).2 := by
  have usedCurrent {task : TaskPointer} (found : getCurrentTask before apicId = some task) :
      (before.taskPool task).identifier ≠ 0 := by
    obtain ⟨cpu, _, runs⟩ := getCurrentTask_some found
    exact (settled.current cpu task runs).2
  cases op with
  | initializeScheduler idleTaskEntry => exact settled.enterInitialize _ _ _
  | initializeApScheduler idleTaskEntry => exact settled.enterInitialize _ _ _
  | createNewTask name entry priority stackSize =>
    exact .go settled (.refl _) (.free _ (fun _ _ carries => carries) trivial rfl) rfl
  | yieldCurrentTask =>
    rw [Proofs.enter]
    cases getCurrentTask before apicId with
    | none => exact .done settled (.refl _)
    | some task => exact settled.enterScheduling apicId
  | performScheduling => exact settled.enterScheduling apicId
  | handleSchedulerTimer =>
    rw [Proofs.enter]
    cases current : getCurrentTask before apicId with
    | none => exact .done settled (.refl _)
    | some task =>
      have spent := spendTick_restatus before task
      have ticked := settled.restatus spent (usedCurrent current) (settled.lasting task)
      simp only
      split
      next => exact (ticked.enterScheduling apicId).later spent.frame.keeps
      next => exact .done ticked spent.frame.keeps
  | blockCurrentTask =>
    rw [Proofs.enter]
    cases current : getCurrentTask before apicId with
    | none => exact .done settled (.refl _)
    | some task =>
      have changed := setStatus_restatus before task .blocked
      have blocked := settled.restatus changed (usedCurrent current) (by decide)
      exact (blocked.enterScheduling apicId).later changed.frame.keeps
  | unblockTask task =>
    cases task with
    | none => exact .done settled (.refl _)
    | some task => exact settled.enterUnblock task
  | terminateTask task => exact lasting.elim
  | perCpuSetOnline cpuId online =>
    have counted : Settled (Proofs.enter before apicId (.perCpuSetOnline cpuId online)).1 ∧
        Keeps before (Proofs.enter before apicId (.perCpuSetOnline cpuId online)).1 :=
      settled.recount rfl rfl rfl fun cpu => by
        simp only [Proofs.enter]
        rw [perCpuSetOnline_same]
    exact .done counted.1 counted.2

/-- `pcpu->idle_task` is the `NULL` of a `create_new_task` that failed, and the processor halts. -/
theorem Settled.withoutIdle (settled : Settled before) (cpu : Fin cpuCount) :
    Moves before (before.updateCpu cpu fun pcpu => { pcpu with idleTask := none }) (some .halted) := by
  have cpus (other : Fin cpuCount) : (before.updateCpu cpu fun pcpu => { pcpu with idleTask := none }).perCpu other =
      { before.perCpu other with idleTask := if other = cpu then none else before.idle other } := by
    rw [updateCpu_perCpu]
    split
    next same => rw [same]
    next => rfl
  have keeps : Keeps before (before.updateCpu cpu fun pcpu => { pcpu with idleTask := none }) :=
    ⟨fun _ => rfl, fun _ => rfl, fun other => by rw [cpus], rfl, rfl⟩
  refine .go (settled.change keeps ?_ (fun _ => .inl rfl) ?_ ?_ ?_) keeps
    (.free _ (fun _ _ carries => carries) trivial rfl) rfl
  · intro other level
    rw [cpus]
    exact settled.filled other level
  · intro other level task
    unfold ready
    rw [cpus]
    exact settled.queued other level task
  · intro other task
    unfold SchedulerState.current
    rw [cpus]
    exact settled.current other task
  · intro other task found
    unfold SchedulerState.idle at found
    rw [cpus] at found
    simp only at found
    split at found
    next => cases found
    next => exact settled.idle other task found

theorem Settled.popNext (settled : Settled before) (cpu : Fin cpuCount) :
    Moves before
      (before.updateCpu cpu fun pcpu =>
        { pcpu with readyQueues := (taskQueuePopPriority (before.perCpu cpu).readyQueues).2 })
      (some (.leaveOld cpu (taskQueuePopPriority (before.perCpu cpu).readyQueues).1)) := by
  cases taken : taskQueuePopPriority (before.perCpu cpu).readyQueues with
  | mk popped queues =>
    obtain ⟨pops, filled⟩ := popPriority_pops settled.filled taken
    have keeps := (withQueues_frame before cpu queues).keeps
    refine .go (settled.withQueues filled fun _ _ _ => pops.mem) keeps ⟨?_, trivial, fun _ found => by cases found⟩ rfl
    rintro other task ⟨rfl, rfl⟩
    obtain ⟨level, member⟩ := pops.popped_mem
    exact keeps.atHome (settled.queued cpu level task member)

theorem Settled.leaveOldTask (settled : Settled before) {popped : Option TaskPointer} {next : Option (Pending cpuCount)}
    (homes : ∀ task, popped = some task → AtHome before cpu task)
    (result : leaveOldTask before cpu popped = .ok (after, next)) : Moves before after next := by
  unfold Kernix.leaveOldTask at result
  split at result
  next => cases result
  next nextTask picked =>
    have home : AtHome before cpu nextTask := by
      cases popped with
      | none => exact settled.idle cpu nextTask picked
      | some task =>
        cases picked
        exact homes nextTask rfl
    have goes : Sound before (.makeCurrent cpu nextTask) := by
      refine ⟨?_, trivial, fun _ found => by cases found⟩
      rintro other task ⟨rfl, rfl⟩
      exact home
    split at result
    next =>
      cases result
      have changed := setTicks_restatus before nextTask fun _ => timeSliceTicks
      exact .done (settled.restatus changed home.2 (settled.lasting nextTask)) changed.frame.keeps
    next =>
      split at result
      next =>
        cases result
        exact .go settled (.refl _) goes rfl
      next oldTask old =>
        split at result
        next =>
          cases result
          have oldHome := settled.current cpu oldTask old
          have changed := setStatus_restatus before oldTask .ready
          refine .go (settled.restatus changed oldHome.2 (by decide)) changed.frame.keeps
            ⟨?_, trivial, fun _ found => by cases found⟩ rfl
          rintro other task ⟨rfl, rfl | rfl⟩
          · exact changed.frame.keeps.atHome oldHome
          · exact changed.frame.keeps.atHome home
        next =>
          cases result
          exact .go settled (.refl _) goes rfl

/-- `create_new_task` returns a task to its caller, which runs on the processor it was made for. -/
theorem Settled.answer (settled : Settled before) {request : Request cpuCount} {task : Option TaskPointer}
    (homes : ∀ pcpu other, request.idleOf = some pcpu → task = some other → AtHome before pcpu other) :
    Moves before before (request.answer task) := by
  unfold Request.answer
  cases idle : request.idleOf with
  | none => exact .done settled (.refl _)
  | some pcpu =>
    refine .go settled (.refl _) ⟨?_, trivial, fun _ found => by cases found⟩ rfl
    rintro other carried ⟨rfl, rfl⟩
    exact homes pcpu carried idle rfl

/-- A section other than the search for a slot and the filling of it. -/
theorem Settled.advance (settled : Settled before) {apicId : Nat} {pending : Pending cpuCount}
    {next : Option (Pending cpuCount)} (sound : Sound before pending)
    (own : ∀ request pcpu, pending = .chooseTarget request → request.idleOf = some pcpu →
      chosenTarget before apicId = some pcpu)
    (searches : ∀ request target, pending ≠ .searchSlot request target) (fills : filling pending = none)
    (result : advance before apicId pending = .ok (after, next)) : Moves before after next := by
  cases pending with
  | chooseTarget request =>
    cases result
    refine .go settled (.refl _) (.free _ (fun _ _ carries => carries) ?_ rfl) rfl
    intro pcpu idle
    exact own request pcpu rfl idle
  | searchSlot request target => exact (searches request target rfl).elim
  | fillSlot request target task => cases fills
  | enlist request target task =>
    rw [Kernix.advance] at result
    obtain ⟨enlisted, enlisting, result⟩ := bind_ok result
    cases result
    have home := sound.carried target task ⟨rfl, rfl⟩
    obtain ⟨settledAfter, keeps⟩ := settled.enlist home enlisting
    refine (settledAfter.answer ?_).later keeps
    intro pcpu other idle same
    cases same
    rw [← sound.aimed pcpu idle]
    exact keeps.atHome home
  | installIdle pcpu idleTask =>
    cases idleTask with
    | none =>
      cases result
      exact settled.withoutIdle pcpu
    | some idleTask =>
      cases result
      have home := sound.carried pcpu idleTask ⟨rfl, rfl⟩
      obtain ⟨settledAfter, keeps⟩ := settled.installed home (install_installed before settled.filled pcpu idleTask)
      exact .done settledAfter keeps
  | popNext pcpu =>
    cases result
    exact settled.popNext pcpu
  | leaveOld pcpu nextTask =>
    refine settled.leaveOldTask ?_ result
    rintro task rfl
    exact sound.carried pcpu task ⟨rfl, rfl⟩
  | requeueOld pcpu oldTask nextTask =>
    rw [Kernix.advance] at result
    obtain ⟨requeued, push, result⟩ := bind_ok result
    cases result
    obtain ⟨settledAfter, keeps⟩ := settled.pushReady (sound.carried pcpu oldTask ⟨rfl, .inl rfl⟩) push
    refine .go settledAfter keeps ⟨?_, trivial, fun _ found => by cases found⟩ rfl
    rintro other task ⟨rfl, rfl⟩
    exact keeps.atHome (sound.carried pcpu nextTask ⟨rfl, .inr rfl⟩)
  | makeCurrent pcpu nextTask =>
    cases result
    exact .done (settled.makeCurrent (sound.carried pcpu nextTask ⟨rfl, rfl⟩)) (makeCurrent_frame _ _ _).keeps
  | makeReady target task =>
    rw [Kernix.advance] at result
    obtain ⟨pushed, push, result⟩ := bind_ok result
    cases result
    have home := sound.carried target task ⟨rfl, rfl⟩
    have changed := setStatus_restatus before task .ready
    have ready := settled.restatus changed home.2 (by decide)
    obtain ⟨settledAfter, keeps⟩ := ready.pushReady (changed.frame.keeps.atHome home) push
    exact .done settledAfter (changed.frame.keeps.trans keeps)
  | halted =>
    cases result
    exact .go settled (.refl _) sound rfl

/-- The search for a slot finds one that is not in use, since no task is ever terminated. -/
theorem Settled.freeSlot_unused (settled : Settled before) (found : freeSlot before = some task) :
    (before.taskPool task).identifier = 0 := by
  have free := List.find?_some found
  rcases of_decide_eq_true free with dead | unused
  · exact (settled.lasting task dead).elim
  · exact unused

section
variable (cpuList : Fin cpuCount → CpuInfo)

/-- No call terminates a task. An idle task is only made when `create_new_task` comes to choose the
processor that it is for, and no processor looks for a slot while another fills in the one it has found. -/
def OwnIdle (processors : Processors cpuCount) (processor : Fin cpuCount) : Pending cpuCount → Prop
  | .chooseTarget request =>
    ∀ pcpu, request.idleOf = some pcpu → chosenTarget processors.state (cpuList processor).apicId = some pcpu
  | .searchSlot _ _ => ∀ other, other ≠ processor → (processors.pending other).bind filling = none
  | _ => True

def Admitted (processors : Processors cpuCount) : Turning cpuCount → Prop
  | (_, some op) => op.Lasting
  | (processor, none) => ∀ pending ∈ processors.pending processor, OwnIdle cpuList processors processor pending

end

variable {cpuList : Fin cpuCount → CpuInfo}

theorem Homed.searchSlot {processors : Processors cpuCount} {processor : Fin cpuCount} {apicId : Nat}
    {request : Request cpuCount} {target : Option (Fin cpuCount)} {next : Option (Pending cpuCount)}
    (homed : Homed processors) (here : processors.pending processor = some (.searchSlot request target))
    (alone : ∀ other, other ≠ processor → (processors.pending other).bind filling = none)
    (result : advance processors.state apicId (.searchSlot request target) = .ok (after, next)) :
    Homed ⟨after, Function.update processors.pending processor next⟩ := by
  have settled := homed.settled
  have refused : Moves processors.state processors.state (request.answer none) :=
    settled.answer fun _ _ _ same => by cases same
  rw [advance] at result
  split at result
  next =>
    cases result
    exact refused.homed homed
  next task found =>
    split at result
    next =>
      cases result
      exact refused.homed homed
    next room =>
      cases result
      refine homed.section settled (fun _ _ _ _ sound => sound) ?_ ?_
      · rintro pending ⟨⟩
        refine ⟨fun _ _ carries => carries.elim, (homed.sound processor _ here).aimed, ?_⟩
        rintro other ⟨⟩
        exact ⟨settled.freeSlot_unused found, by omega⟩
      · intro _ _ _ other pending different atOther
        have idle := alone other different
        rw [atOther] at idle
        exact idle

theorem Homed.fillSlot {processors : Processors cpuCount} {processor : Fin cpuCount} {apicId : Nat}
    {request : Request cpuCount} {target : Option (Fin cpuCount)} {task : TaskPointer}
    {next : Option (Pending cpuCount)} (homed : Homed processors)
    (here : processors.pending processor = some (.fillSlot request target task))
    (result : advance processors.state apicId (.fillSlot request target task) = .ok (after, next)) :
    Homed ⟨after, Function.update processors.pending processor next⟩ := by
  have sound := homed.sound processor _ here
  obtain ⟨unused, room⟩ := sound.vacant task rfl
  rw [advance.eq_def] at result
  cases target with
  | none => cases result
  | some target =>
    obtain ⟨prepared, preparing, result⟩ := bind_ok result
    cases result
    obtain ⟨settled, home, homes⟩ := homed.settled.prepare unused room preparing
    refine homed.section settled ?_ ?_ ?_
    · intro other pending different atOther before
      have idle : filling pending = none := by
        by_contra fills
        exact different (homed.alone other processor pending _ atOther here fills (by simp [filling]))
      refine ⟨fun cpu task carries => homes task cpu (before.carried cpu task carries), before.aimed, ?_⟩
      rw [idle]
      exact fun _ found => by cases found
    · rintro pending ⟨⟩
      refine ⟨?_, fun pcpu idle => Option.some.inj (sound.aimed pcpu idle), fun _ found => by cases found⟩
      rintro cpu other ⟨rfl, rfl⟩
      exact home
    · rintro pending ⟨⟩ fills
      exact (fills rfl).elim

theorem Homed.turn {processors next : Processors cpuCount} {label : Turning cpuCount} (homed : Homed processors)
    (admitted : Admitted cpuList processors label) (turned : turn cpuList processors label = some next) : Homed next := by
  obtain ⟨processor, entered⟩ := label
  unfold Proofs.turn at turned
  simp only at turned
  split at turned
  next op idle =>
    cases turned
    exact (homed.settled.enter _ admitted).homed homed
  next pending here =>
    have own := admitted pending here
    split at turned
    next => cases turned
    next result advanced =>
      cases turned
      by_cases searches : ∃ request target, pending = .searchSlot request target
      · obtain ⟨request, target, rfl⟩ := searches
        exact homed.searchSlot here own advanced
      · by_cases fills : ∃ request target task, pending = .fillSlot request target task
        · obtain ⟨request, target, task, rfl⟩ := fills
          exact homed.fillSlot here advanced
        · have moves := homed.settled.advance (homed.sound processor pending here)
            (fun request pcpu same idle => by subst same; exact own pcpu idle)
            (fun request target same => searches ⟨request, target, same⟩) ?_ advanced
          · exact moves.homed homed
          · cases pending with
            | fillSlot request target task => exact (fills ⟨request, target, task, rfl⟩).elim
            | _ => rfl
  next => cases turned

theorem homed_boot (cpuList : Fin cpuCount → CpuInfo) : Homed (.boot cpuList) where
  settled :=
    { filled := boot_filled cpuList
      cpuId := fun _ => rfl
      unused := fun _ _ => rfl
      lasting := fun _ dead => by cases dead
      nextTaskId := rfl
      stackIndex := Nat.zero_le _
      queued := fun cpu level task member => by
        rw [show (Processors.boot cpuList).state.ready cpu level = [] from boot_ready cpuList cpu level] at member
        cases member
      current := fun _ _ runs => by cases runs
      idle := fun _ _ fallback => by cases fallback }
  sound _ _ found := by cases found
  alone _ _ _ _ found := by cases found

/-- No task is the current task of two processors. -/
def TasksApart (state : SchedulerState cpuCount) : Prop :=
  ∀ first second task, state.current first = some task → state.current second = some task → first = second

/-- Every idle task is assigned to its processor and waits in no other processor's queues. -/
def IdleAtHome (state : SchedulerState cpuCount) : Prop :=
  ∀ cpu task, state.idle cpu = some task →
    perCpuGet cpuCount (state.taskPool task).assignedCpu = some cpu ∧
    ∀ other level, task ∈ state.ready other level → other = cpu

theorem AtHome.unique {first second : Fin cpuCount} (home : AtHome before first task)
    (other : AtHome before second task) : first = second :=
  Fin.ext (home.1.symm.trans other.1)

theorem interleaving_keeps_apart {processors : Processors cpuCount}
    (reached : Reachable (· = Processors.boot cpuList) (TurnStep cpuList (Admitted cpuList)) processors) :
    TasksApart processors.state ∧ IdleAtHome processors.state := by
  have homed : Homed processors := by
    apply reached.invariant Homed
    · rintro _ rfl
      exact homed_boot cpuList
    · rintro before label after homed ⟨admitted, turned⟩
      exact homed.turn admitted turned
  have settled := homed.settled
  constructor
  · intro first second task runs runs'
    exact (settled.current first task runs).unique (settled.current second task runs')
  · intro cpu task fallback
    have home := settled.idle cpu task fallback
    constructor
    · unfold perCpuGet
      rw [home.1]
      exact dif_pos cpu.isLt
    · intro other level member
      exact (settled.queued other level task member).unique home

instance (op : SchedulerOp) : Decidable op.Lasting :=
  match op with
  | .terminateTask _ => inferInstanceAs (Decidable False)
  | .initializeScheduler _ | .initializeApScheduler _ | .createNewTask _ _ _ _ | .yieldCurrentTask
  | .performScheduling | .handleSchedulerTimer | .blockCurrentTask | .unblockTask _
  | .perCpuSetOnline _ _ => inferInstanceAs (Decidable True)

instance (processors : Processors cpuCount) (processor : Fin cpuCount) : (pending : Pending cpuCount) →
    Decidable (OwnIdle cpuList processors processor pending)
  | .chooseTarget request =>
    inferInstanceAs (Decidable (∀ pcpu, request.idleOf = some pcpu →
      chosenTarget processors.state (cpuList processor).apicId = some pcpu))
  | .searchSlot _ _ =>
    inferInstanceAs (Decidable (∀ other, other ≠ processor → (processors.pending other).bind filling = none))
  | .fillSlot _ _ _ | .enlist _ _ _ | .installIdle _ _ | .popNext _ | .leaveOld _ _ | .requeueOld _ _ _
  | .makeCurrent _ _ | .makeReady _ _ | .halted => inferInstanceAs (Decidable True)

instance (processors : Processors cpuCount) : (label : Turning cpuCount) → Decidable (Admitted cpuList processors label)
  | (_, some op) => inferInstanceAs (Decidable op.Lasting)
  | (processor, none) =>
    inferInstanceAs (Decidable (∀ pending ∈ processors.pending processor, OwnIdle cpuList processors processor pending))

/-- A call, and as many of its further sections. -/
def callTurns (processor : Fin cpuCount) (op : SchedulerOp) (sections : Nat) : List (Turning cpuCount) :=
  (processor, some op) :: List.replicate sections (processor, none)

/-- The first processor is online from the start, the other one is not. -/
def twoProcessors (cpu : Fin 2) : CpuInfo := ⟨cpu, if cpu = 0 then 1 else 0⟩

/-- Both processors get their idle tasks before the first other task is created, and then schedule in turns. -/
def idleFirst : List (Turning 2) :=
  callTurns 0 (.initializeScheduler 0x1000) 5 ++ callTurns 0 (.perCpuSetOnline 1 1) 0 ++
    callTurns 1 (.initializeApScheduler 0x1000) 5 ++ callTurns 0 (.createNewTask (literal "worker") 0x2000 5 4096) 4 ++
    callTurns 0 .performScheduling 2 ++
    [(0, some .performScheduling), (1, some .performScheduling), (0, none), (1, none), (1, none), (0, none), (0, none),
      (0, none)]

theorem interleaving_keeps_apart_idleFirst :
    ∃ processors, takeTurns twoProcessors (Admitted twoProcessors) (.boot twoProcessors) idleFirst = some processors ∧
      processors.state.current 0 = some 2 ∧ processors.state.current 1 = some 1 ∧
      TasksApart processors.state ∧ IdleAtHome processors.state := by
  have returns : (takeTurns twoProcessors (Admitted twoProcessors) (.boot twoProcessors) idleFirst).map
      (fun processors => (processors.state.current 0, processors.state.current 1)) = some (some 2, some 1) := by
    decide +kernel
  obtain ⟨processors, run, ended⟩ := Option.map_eq_some_iff.mp returns
  obtain ⟨first, second⟩ := Prod.mk.inj ended
  exact ⟨processors, run, first, second,
    interleaving_keeps_apart (takeTurns_reachable twoProcessors (Admitted twoProcessors) (.initial rfl) run)⟩

/-- Every turn but a call of `terminate_task`. -/
def AnyLasting (_ : Processors cpuCount) (label : Turning cpuCount) : Prop := ∀ op ∈ label.2, op.Lasting

instance (processors : Processors cpuCount) (label : Turning cpuCount) : Decidable (AnyLasting processors label) :=
  inferInstanceAs (Decidable (∀ op ∈ label.2, op.Lasting))

/-- The second processor comes online and gets a task before it makes its idle task. -/
def workerFirst : List (Turning 2) :=
  callTurns 0 (.initializeScheduler 0x1000) 5 ++ callTurns 0 (.perCpuSetOnline 1 1) 0 ++
    callTurns 0 (.createNewTask (literal "worker") 0x2000 5 4096) 4 ++ callTurns 1 (.initializeApScheduler 0x1000) 5 ++
    callTurns 0 .performScheduling 2 ++ callTurns 0 .performScheduling 4

/-- Its idle task then goes to the first processor's queue, and both run it. -/
theorem idle_task_shared :
    ¬ ∀ processors, Reachable (· = Processors.boot twoProcessors) (TurnStep twoProcessors AnyLasting) processors →
      TasksApart processors.state ∧ IdleAtHome processors.state := by
  intro claim
  have returns : (takeTurns twoProcessors AnyLasting (.boot twoProcessors) workerFirst).map
      (fun processors => (processors.state.current 0, processors.state.current 1)) = some (some 2, some 2) := by
    decide +kernel
  obtain ⟨processors, run, ended⟩ := Option.map_eq_some_iff.mp returns
  obtain ⟨first, second⟩ := Prod.mk.inj ended
  cases (claim processors (takeTurns_reachable twoProcessors AnyLasting (.initial rfl) run)).1 0 1 2 first second

end Kernix.Proofs
