import Kernix.Proofs.TaskAccounts
import Mathlib.Data.Finset.Card

/-! The task counts of the processors, and the processors that new tasks go to. The
counts are right as long as no call terminates what is not a live task. -/

namespace Kernix.Proofs
open SchedulerState Transition

variable {cpuCount : Nat}

/-- The tasks of a processor that were created and have not been terminated since. -/
def liveTasks (observed : Observed cpuCount) (cpu : Fin cpuCount) : Finset TaskPointer :=
  {task | observed.life task = .live ∧ (observed.state.taskPool task).assignedCpu = cpu}

/-- Every count is the number of live tasks, so that none has wrapped around. -/
structure CountsLive (observed : Observed cpuCount) : Prop where
  count : ∀ cpu, (observed.state.perCpu cpu).taskCount = (liveTasks observed cpu).card
  bound : ∀ cpu, (observed.state.perCpu cpu).taskCount ≤ maxTaskCount

/-- The slot went to an online processor that no other online one had fewer live tasks than. -/
def GivenToIdlest (before : Observed cpuCount) (task : TaskPointer) (after : Observed cpuCount) : Prop :=
  ∃ target : Fin cpuCount, (after.state.taskPool task).assignedCpu = target ∧
    (before.state.perCpu target).isOnline ≠ 0 ∧
    ∀ other, (before.state.perCpu other).isOnline ≠ 0 →
      (liveTasks before target).card ≤ (liveTasks before other).card

/-- Only live tasks are terminated, and tasks are created while some processor is online. -/
def CountsOn (observed : Observed cpuCount) : SchedulerOp → Prop
  | .terminateTask (some task) => observed.life task = .live
  | op => (birthOf observed.state op).isSome → ∃ cpu, (observed.state.perCpu cpu).isOnline ≠ 0

theorem liveTasks_le (observed : Observed cpuCount) (cpu : Fin cpuCount) :
    (liveTasks observed cpu).card ≤ maxTaskCount :=
  (Finset.card_le_univ _).trans (Fintype.card_fin _).le

theorem mem_liveTasks {observed : Observed cpuCount} {cpu : Fin cpuCount} {task : TaskPointer} :
    task ∈ liveTasks observed cpu ↔
      observed.life task = .live ∧ (observed.state.taskPool task).assignedCpu = cpu := by
  simp [liveTasks]

/-- The counts are right, and the processors are numbered as they stand in their array. -/
structure Tallied (observed : Observed cpuCount) : Prop where
  cpuId : ∀ cpu, (observed.state.perCpu cpu).cpuId = cpu
  count : ∀ cpu, (observed.state.perCpu cpu).taskCount = (liveTasks observed cpu).card

variable {before after : Observed cpuCount} {apicId : Nat}

theorem tallied_booted (cpuList : Fin cpuCount → CpuInfo) : Tallied (booted cpuList) where
  cpuId _ := rfl
  count cpu := by
    have vacant : liveTasks (booted cpuList) cpu = ∅ := by
      apply Finset.filter_eq_empty_iff.mpr
      intro task _ live
      cases live.1
    rw [vacant]
    rfl

theorem Tallied.left (tallied : Tallied before) (leaves : LeavesSlots before.state after.state)
    (recorded : after.life = before.life) : Tallied after where
  cpuId cpu := (leaves.cpuId cpu).trans (tallied.cpuId cpu)
  count cpu := by
    have same : liveTasks after cpu = liveTasks before cpu := by
      ext task
      rw [mem_liveTasks, mem_liveTasks, recorded, leaves.task]
    rw [leaves.taskCount, tallied.count, same]

theorem Tallied.opened (tallied : Tallied before) (lives : Lives before.state before.life) {birth : Birth}
    {task : TaskPointer} {target : Fin cpuCount} (opens : Opens before.state apicId birth task target after.state)
    (recorded : after.life = Function.update before.life task .live) : Tallied after where
  cpuId cpu := (opens.cpuId cpu).trans (tallied.cpuId cpu)
  count cpu := by
    have absent : task ∉ liveTasks before cpu :=
      fun member => freeSlot_not_live lives.live opens.slot (mem_liveTasks.mp member).1
    have assigned : (after.state.taskPool task).assignedCpu = target := by rw [opens.assignedCpu, tallied.cpuId]
    have older (other : TaskPointer) (different : other ≠ task) :
        other ∈ liveTasks after cpu ↔ other ∈ liveTasks before cpu := by
      rw [mem_liveTasks, mem_liveTasks, recorded, Function.update_of_ne different, opens.others other different]
    have newer : task ∈ liveTasks after cpu ↔ cpu = target := by
      rw [mem_liveTasks, recorded, Function.update_self, assigned, Fin.val_inj]
      exact ⟨fun both => both.2.symm, fun same => ⟨rfl, same.symm⟩⟩
    rw [opens.taskCount, tallied.count]
    split
    next same =>
      have joined : liveTasks after cpu = insert task (liveTasks before cpu) := by
        ext other
        by_cases new : other = task
        · rw [new]
          exact ⟨fun _ => Finset.mem_insert_self task _, fun _ => newer.mpr same⟩
        · simp [new, older other new]
      have bound := liveTasks_le before cpu
      simp only [maxTaskCount] at bound
      rw [joined, Finset.card_insert_of_notMem absent, u32, Nat.mod_eq_of_lt (by omega)]
    next elsewhere =>
      have unchanged : liveTasks after cpu = liveTasks before cpu := by
        ext other
        by_cases new : other = task
        · simp [new, newer, elsewhere, absent]
        · exact older other new
      rw [unchanged]

theorem markTerminated_counts (state : SchedulerState cpuCount) (task : TaskPointer) (cpu : Fin cpuCount) :
    ((markTerminated state task).perCpu cpu).taskCount =
      if (state.taskPool task).assignedCpu = cpu then u32 ((state.perCpu cpu).taskCount + (2 ^ 32 - 1))
      else (state.perCpu cpu).taskCount := by
  have assigned : ((state.updateTask task fun task => { task with status := .terminated }).taskPool task).assignedCpu =
      (state.taskPool task).assignedCpu := by
    rw [updateTask_taskPool, if_pos rfl]
  unfold markTerminated
  simp only [assigned]
  unfold perCpuGet
  split
  next unknown =>
    split at unknown
    next => cases unknown
    next outside =>
      have apart : (state.taskPool task).assignedCpu ≠ cpu := by
        intro same
        rw [same] at outside
        exact outside cpu.isLt
      rw [if_neg apart]
      rfl
  next target known =>
    split at known
    next inside =>
      cases known
      rw [updateCpu_perCpu]
      by_cases same : cpu = ⟨(state.taskPool task).assignedCpu, inside⟩
      · subst same
        rw [if_pos rfl, if_pos rfl]
        rfl
      · rw [if_neg same, if_neg fun equal => same (Fin.ext equal.symm)]
        rfl
    next => cases known

theorem Tallied.closed (tallied : Tallied before) {task : TaskPointer} (live : before.life task = .live)
    (leaves : LeavesSlots (markTerminated before.state task) after.state)
    (recorded : after.life = Function.update before.life task .terminated) : Tallied after where
  cpuId cpu := by
    rw [leaves.cpuId, markTerminated_perCpu]
    exact tallied.cpuId cpu
  count cpu := by
    have removed : liveTasks after cpu = (liveTasks before cpu).erase task := by
      ext other
      rw [Finset.mem_erase, mem_liveTasks, mem_liveTasks, recorded, leaves.task, markTerminated_taskPool,
        updateTask_taskPool]
      by_cases gone : other = task
      · simp [gone]
      · simp [gone]
    rw [leaves.taskCount, markTerminated_counts, tallied.count, removed]
    have bound := liveTasks_le before cpu
    simp only [maxTaskCount] at bound
    split
    next assigned =>
      have member : task ∈ liveTasks before cpu := mem_liveTasks.mpr ⟨live, assigned⟩
      have present := Finset.card_pos.mpr ⟨task, member⟩
      rw [Finset.card_erase_of_mem member, u32]
      omega
    next elsewhere =>
      rw [Finset.erase_eq_of_notMem fun member => elsewhere (mem_liveTasks.mp member).2]

theorem tallied_reachable {cpuList : Fin cpuCount → CpuInfo} {observed : Observed cpuCount}
    (reached : Reachable (· = booted cpuList) (WatchedStep CountsOn) observed) :
    Lives observed.state observed.life ∧ Tallied observed := by
  apply watched_invariant Tallied (tallied_booted cpuList) ?_ reached
  intro before after apicId op created tallied lives admitted account recorded
  cases account with
  | left leaves lasting => exact tallied.left leaves (recorded.trans (record_left before.life lasting))
  | opened asked opens => exact tallied.opened lives opens (recorded.trans (record_opened before.life asked _))
  | closed leaves => exact tallied.closed admitted leaves recorded

/-- A search for the least, from a bound on. -/
theorem foldl_least {α : Type} (eligible : α → Prop) [DecidablePred eligible] (weight : α → Nat) (items : List α)
    (best : Option α × Nat) :
    ∃ last, items.foldl (fun best item =>
        if eligible item ∧ weight item < best.2 then (some item, weight item) else best) best = last ∧
      last.2 ≤ best.2 ∧ (∀ item ∈ items, eligible item → last.2 ≤ weight item) ∧
      (last = best ∨ ∃ item, eligible item ∧ last = (some item, weight item)) := by
  induction items generalizing best with
  | nil => exact ⟨best, rfl, Nat.le_refl _, by simp, .inl rfl⟩
  | cons item items ih =>
    rw [List.foldl_cons]
    split
    next better =>
      obtain ⟨last, run, least, below, source⟩ := ih (some item, weight item)
      refine ⟨last, run, least.trans better.2.le, ?_, .inr ?_⟩
      · intro other member suits
        rcases List.mem_cons.mp member with rfl | later
        · exact least
        · exact below other later suits
      · rcases source with rfl | found
        · exact ⟨item, better.1, rfl⟩
        · exact found
    next worse =>
      obtain ⟨last, run, least, below, source⟩ := ih best
      refine ⟨last, run, least, ?_, source⟩
      intro other member suits
      rcases List.mem_cons.mp member with rfl | later
      · exact least.trans (Nat.le_of_not_lt fun less => worse ⟨suits, less⟩)
      · exact below other later suits

theorem leastLoaded_least (state : SchedulerState cpuCount) {cpu : Fin cpuCount}
    (online : (state.perCpu cpu).isOnline ≠ 0) (bound : (state.perCpu cpu).taskCount < 2 ^ 32 - 1) :
    ∃ target, leastLoaded state = some target ∧ (state.perCpu target).isOnline ≠ 0 ∧
      ∀ other, (state.perCpu other).isOnline ≠ 0 →
        (state.perCpu target).taskCount ≤ (state.perCpu other).taskCount := by
  obtain ⟨last, run, _, below, source⟩ := foldl_least (fun cpu => (state.perCpu cpu).isOnline ≠ 0)
    (fun cpu => (state.perCpu cpu).taskCount) (List.finRange cpuCount) (none, 2 ^ 32 - 1)
  have least := below cpu (List.mem_finRange cpu) online
  unfold leastLoaded
  rw [run]
  rcases source with rfl | ⟨target, suits, rfl⟩
  · exact absurd bound (Nat.not_lt.mpr least)
  · exact ⟨target, rfl, suits, fun other => below other (List.mem_finRange other)⟩

/-- With right counts the new task goes where the fewest live tasks are. -/
theorem Tallied.given (tallied : Tallied before) {op : SchedulerOp} {task : TaskPointer}
    (admitted : CountsOn before op) (account : Account before.state apicId op (some task) after.state) :
    GivenToIdlest before task after := by
  cases account with
  | @opened _ birth _ target _ asked opens =>
    obtain ⟨cpu, online⟩ : ∃ cpu, (before.state.perCpu cpu).isOnline ≠ 0 := by
      cases op with
      | createNewTask | initializeScheduler | initializeApScheduler => exact admitted rfl
      | _ => cases asked
    have bound : (before.state.perCpu cpu).taskCount < 2 ^ 32 - 1 := by
      have small := liveTasks_le before cpu
      rw [tallied.count]
      simp only [maxTaskCount] at small
      omega
    obtain ⟨least, found, suits, fewest⟩ := leastLoaded_least before.state online bound
    have same : target = least := by
      have chosen := opens.chosen
      rw [found] at chosen
      exact (Option.some.inj chosen).symm
    subst same
    refine ⟨target, by rw [opens.assignedCpu, tallied.cpuId], suits, fun other alive => ?_⟩
    rw [← tallied.count, ← tallied.count]
    exact fewest other alive

theorem task_counts_live {cpuList : Fin cpuCount → CpuInfo} {observed : Observed cpuCount}
    (reached : Reachable (· = booted cpuList) (WatchedStep CountsOn) observed) :
    CountsLive observed ∧ ∀ apicId op task after, CountsOn observed op → Performs apicId op observed (some task) after →
      GivenToIdlest observed task after := by
  obtain ⟨lives, tallied⟩ := tallied_reachable reached
  refine ⟨⟨tallied.count, fun cpu => ?_⟩, ?_⟩
  · rw [tallied.count]
    exact liveTasks_le observed cpu
  · intro apicId op task after admitted called
    exact tallied.given admitted (runOp_account lives.filled called.1)

instance (observed : Observed cpuCount) : (op : SchedulerOp) → Decidable (CountsOn observed op)
  | .terminateTask (some task) => inferInstanceAs (Decidable (observed.life task = .live))
  | .terminateTask none | .initializeScheduler _ | .initializeApScheduler _ | .createNewTask _ _ _ _
  | .yieldCurrentTask | .performScheduling | .handleSchedulerTimer | .blockCurrentTask | .unblockTask _
  | .perCpuSetOnline _ _ => inferInstanceAs (Decidable ((birthOf observed.state _).isSome →
      ∃ cpu, (observed.state.perCpu cpu).isOnline ≠ 0))

theorem task_counts_live_selfExit :
    ∃ observed, watchedRun CountsOn (booted oneProcessor) selfExit = some observed ∧
      (observed.state.perCpu 0).taskCount = 1 ∧ CountsLive observed ∧
      ∀ apicId op task after, CountsOn observed op → Performs apicId op observed (some task) after →
        GivenToIdlest observed task after := by
  have returns : (watchedRun CountsOn (booted oneProcessor) selfExit).map
      (fun observed => (observed.state.perCpu 0).taskCount) = some 1 := by decide +kernel
  obtain ⟨observed, run, count⟩ := Option.map_eq_some_iff.mp returns
  exact ⟨observed, run, count, task_counts_live (watchedRun_reachable (.initial rfl) run)⟩

/-- A task that is terminated twice. -/
def endedTwice : List (Nat × SchedulerOp) :=
  [(0, .initializeScheduler 0x1000), (0, .createNewTask (literal "worker") 0x2000 5 4096), (0, .terminateTask (some 1)),
    (0, .terminateTask (some 1))]

/-- The idle task is still there, and no longer tallied. -/
theorem live_task_uncounted :
    ¬ ∀ observed, Reachable (· = booted oneProcessor) (WatchedStep fun _ _ => True) observed →
      CountsLive observed ∧ ∀ apicId op task after, Performs apicId op observed (some task) after →
        GivenToIdlest observed task after := by
  intro always
  have returns : (watchedRun (fun _ _ => True) (booted oneProcessor) endedTwice).map
      (fun observed => ((observed.state.perCpu 0).taskCount, observed.life 0,
        (observed.state.taskPool 0).assignedCpu)) = some (0, .live, 0) := by decide +kernel
  obtain ⟨observed, run, ended⟩ := Option.map_eq_some_iff.mp returns
  simp only [Prod.mk.injEq] at ended
  obtain ⟨count, live, assigned⟩ := ended
  have counts := (always observed (watchedRun_reachable (.initial rfl) run)).1.count 0
  have member : (0 : TaskPointer) ∈ liveTasks observed 0 := mem_liveTasks.mpr ⟨live, assigned⟩
  rw [count] at counts
  exact absurd (Finset.card_pos.mpr ⟨0, member⟩) (by omega)

end Kernix.Proofs
