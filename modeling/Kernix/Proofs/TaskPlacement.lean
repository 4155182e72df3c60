import Kernix.Proofs.SchedulerTurns
import Mathlib.Algebra.BigOperators.Group.Finset.Piecewise
import Mathlib.Algebra.Order.BigOperators.Group.Finset
import Mathlib.Data.Fintype.Card

/-! Where the tasks of a single processor are. Every task but the idle task is in
exactly one place, and no queue is ever too full to take one more. -/

namespace Kernix.Proofs
open SchedulerState Transition

/-- A list that repeats only one value is not much longer than the type is large. -/
theorem length_add_card_lt {α : Type} [Fintype α] [DecidableEq α] {items : List α} {special : α} (absent : Finset α)
    (once : ∀ item, item ≠ special → items.count item ≤ 1) (missing : ∀ item ∈ absent, items.count item = 0)
    (outside : special ∉ absent) : items.length + absent.card < Fintype.card α + items.count special := by
  have total : ∑ item : α, (items : Multiset α).count item = Multiset.card (items : Multiset α) :=
    Multiset.sum_count_eq_card fun _ _ => Finset.mem_univ _
  simp only [Multiset.coe_count, Multiset.coe_card] at total
  rw [← Finset.add_sum_erase _ _ (Finset.mem_univ special)] at total
  have inside : absent ⊆ Finset.univ.erase special := fun item member =>
    Finset.mem_erase.mpr ⟨fun same => outside (same ▸ member), Finset.mem_univ _⟩
  have rest : ∑ item ∈ Finset.univ.erase special, items.count item + absent.card ≤
      (Finset.univ.erase special).card := by
    calc
      _ = ∑ item ∈ Finset.univ.erase special, (items.count item + if item ∈ absent then 1 else 0) := by
        rw [Finset.sum_add_distrib, ← Finset.card_filter, Finset.filter_mem_eq_inter, Finset.inter_eq_right.mpr inside]
      _ ≤ ∑ item ∈ Finset.univ.erase special, 1 := by
        apply Finset.sum_le_sum
        intro item member
        by_cases gone : item ∈ absent
        · rw [if_pos gone, missing item gone]
        · rw [if_neg gone]
          exact once item (Finset.ne_of_mem_erase member)
      _ = (Finset.univ.erase special).card := (Finset.card_eq_sum_ones _).symm
  have one_less : (Finset.univ.erase special).card + 1 = Fintype.card α :=
    Finset.card_erase_add_one (Finset.mem_univ special)
  omega

variable {before after : SchedulerState 1} {apicId : Nat} {idle task : TaskPointer}

/-- The whole machine: one idle task, the other live tasks each in one place, and unused slots. -/
structure Arranged (entering : Bool) (apicId : Nat) (idle : TaskPointer) (state : SchedulerState 1)
    (life : TaskPointer → Life) : Prop where
  healthy : Healthy state apicId 0
  installed : state.idle 0 = some idle
  idleLive : life idle = .live
  idlePriority : (state.taskPool idle).priorityLevel = 0
  idlePlaced : IdlePlaced entering state idle
  someone : ∃ task, state.current 0 = some task ∧ life task = .live
  ordinary : ∀ task, task ≠ idle → life task = .live → Ordinary entering state task
  unborn : ∀ task, life task = .unborn → state.status task = .ready ∧ ∀ rank, task ∉ state.ready 0 rank
  named : ∀ task, life task = .live → (state.taskPool task).identifier ≠ 0
  everyone : ∀ task, life task ≠ .terminated
  numbers : state.nextTaskId = state.stackIndex + 1 ∧ state.stackIndex ≤ maxTaskCount

section
variable {life : TaskPointer → Life}

theorem Arranged.entry (arranged : Arranged false apicId idle before life) : Arranged true apicId idle before life :=
  { arranged with
    idlePlaced := arranged.idlePlaced.entry
    ordinary := fun task different live => (arranged.ordinary task different live).entry }

theorem Arranged.once {entering : Bool} (arranged : Arranged entering apicId idle before life)
    (rank : Fin maxPriorityLevels) (task : TaskPointer) (different : task ≠ idle) :
    (before.ready 0 rank).count task ≤ 1 := by
  cases lives : life task with
  | live => exact (arranged.ordinary task different lives).count_le rank
  | unborn =>
    rw [List.count_eq_zero.mpr ((arranged.unborn task lives).2 rank)]
    omega
  | terminated => exact absurd lives (arranged.everyone task)

/-- A queue has room for a task that is in none. -/
theorem Arranged.room {entering : Bool} (arranged : Arranged entering apicId idle before life)
    {rank : Fin maxPriorityLevels} (absent : Finset TaskPointer)
    (missing : ∀ task ∈ absent, (before.ready 0 rank).count task = 0) (outside : idle ∉ absent)
    (enough : (before.ready 0 rank).count idle ≤ absent.card) : (before.ready 0 rank).length < maxTaskCount := by
  have bound := length_add_card_lt absent (arranged.once rank) missing outside
  rw [Fintype.card_fin] at bound
  omega

/-- The high queues never hold the idle task. -/
theorem Arranged.room_high {entering : Bool} (arranged : Arranged entering apicId idle before life)
    (rank : Fin maxPriorityLevels) (high : rank ≠ 0) : (before.ready 0 rank).length < maxTaskCount := by
  apply arranged.room ∅
  · intro task member
    cases member
  · simp
  · rw [arranged.idlePlaced.elsewhere rank high]
    exact Nat.zero_le _

theorem Arranged.queued_live {entering : Bool} (arranged : Arranged entering apicId idle before life)
    {rank : Fin maxPriorityLevels} (member : task ∈ before.ready 0 rank) : life task = .live := by
  cases lives : life task with
  | live => rfl
  | unborn => exact absurd member ((arranged.unborn task lives).2 rank)
  | terminated => exact absurd lives (arranged.everyone task)

/-- `perform_scheduling` puts everything in order again. -/
theorem Arranged.scheduled (arranged : Arranged true apicId idle before life) (frame : Frame before after)
    (filled : after.Filled) (scheduled : Scheduled before 0 after) : Arranged false apicId idle after life := by
  obtain ⟨next, popped, level, turn⟩ := scheduled.turn arranged.healthy.filled arranged.room_high
  have nextLive : life next = .live := by
    rcases turn.next_mem arranged.installed with rfl | member
    · exact arranged.idleLive
    · exact arranged.queued_live member
  refine
    { healthy := arranged.healthy.framed filled frame
      installed := (frame.idle 0).trans arranged.installed
      idleLive := arranged.idleLive
      idlePriority := (frame.priorityLevel idle).trans arranged.idlePriority
      idlePlaced := turn.idle_placed arranged.installed arranged.idlePriority arranged.idlePlaced
      someone := ⟨next, turn.current, nextLive⟩
      ordinary := fun task different live =>
        turn.ordinary frame arranged.installed different (arranged.ordinary task different live)
      unborn := ?_
      named := fun task live => by
        rw [frame.identifier]
        exact arranged.named task live
      everyone := arranged.everyone
      numbers := by
        rw [frame.nextTaskId, frame.stackIndex]
        exact arranged.numbers }
  intro task fresh
  obtain ⟨ready, unqueued⟩ := arranged.unborn task fresh
  have notNext : task ≠ next := by
    rintro rfl
    cases fresh.symm.trans nextLive
  have stays : ¬ Returns before next task := by
    rintro ⟨_, running, _⟩
    cases ready.symm.trans running
  refine ⟨by rw [turn.status, if_neg fun both => notNext both.1, if_neg stays, ready], ?_⟩
  intro rank
  have counted := turn.counts rank task
  simp only [stays, false_and, if_false, List.count_eq_zero.mpr (unqueued rank)] at counted
  exact List.count_eq_zero.mp (by omega)

theorem idleAllowance_le_two (entering current : Bool) (status : TaskStatus) :
    idleAllowance entering current status ≤ 2 := by
  cases status <;> simp [idleAllowance] <;> split <;> omega

theorem idleAllowance_current (entering : Bool) (status : TaskStatus) : idleAllowance entering true status ≤ 1 := by
  cases status <;> simp [idleAllowance]
  split <;> omega

/-- There is room for a task that waits nowhere and does not run. -/
theorem Arranged.room_joining (arranged : Arranged false apicId idle before life) (different : task ≠ idle)
    (absent : ∀ rank, (before.ready 0 rank).count task = 0) (notCurrent : before.current 0 ≠ some task)
    (rank : Fin maxPriorityLevels) : (before.ready 0 rank).length < maxTaskCount := by
  by_cases high : rank ≠ 0
  · exact arranged.room_high rank high
  · rw [not_not] at high
    subst high
    have allowed := arranged.idlePlaced.waits
    obtain ⟨running, runs, live⟩ := arranged.someone
    by_cases idles : running = idle
    · subst idles
      rw [runs, decide_eq_true rfl] at allowed
      apply arranged.room {task}
      · intro other member
        rw [Finset.mem_singleton.mp member]
        exact absent 0
      · simpa using fun same => different same.symm
      · rw [Finset.card_singleton]
        exact allowed.trans (idleAllowance_current _ _)
    · have busy := arranged.ordinary running idles live
      have status := busy.current_running runs
      have other : task ≠ running := fun same => notCurrent (by rw [same, runs])
      apply arranged.room {task, running}
      · intro item member
        rcases Finset.mem_insert.mp member with same | same
        · rw [same]
          exact absent 0
        · rw [Finset.mem_singleton.mp same]
          exact busy.absent (by rw [status]; simp) 0
      · simp only [Finset.mem_insert, Finset.mem_singleton, not_or]
        exact ⟨fun same => different same.symm, fun same => idles same.symm⟩
      · rw [Finset.card_pair other]
        exact allowed.trans (idleAllowance_le_two _ _ _)

/-- A task that waits nowhere joins its queue. -/
theorem Arranged.joined {lives : TaskPointer → Life} {level : Fin maxPriorityLevels}
    (arranged : Arranged false apicId idle before life) (different : task ≠ idle)
    (absent : ∀ rank, (before.ready 0 rank).count task = 0) (notCurrent : before.current 0 ≠ some task)
    (healthy : Healthy after apicId 0) (idle_eq : after.idle 0 = before.idle 0)
    (current : after.current = before.current)
    (statuses : ∀ other, other ≠ task → after.status other = before.status other)
    (priorities : ∀ other, other ≠ task →
      (after.taskPool other).priorityLevel = (before.taskPool other).priorityLevel)
    (identifiers : ∀ other, other ≠ task → (after.taskPool other).identifier = (before.taskPool other).identifier)
    (status : after.status task = .ready) (named : (after.taskPool task).identifier ≠ 0)
    (level_eq : level.val = (after.taskPool task).priorityLevel)
    (lists : ∀ other rank, after.ready other rank =
      if other = 0 ∧ rank = level then pushed (before.ready other rank) task else before.ready other rank)
    (numbers : after.nextTaskId = after.stackIndex + 1 ∧ after.stackIndex ≤ maxTaskCount)
    (alive : lives task = .live) (kept : ∀ other, other ≠ task → lives other = life other) :
    Arranged false apicId idle after lives := by
  have counts (rank : Fin maxPriorityLevels) (other : TaskPointer) : (after.ready 0 rank).count other =
      (before.ready 0 rank).count other + if rank = level ∧ task = other then 1 else 0 :=
    counts_pushed (fun rank => by simpa using lists 0 rank) (arranged.room_joining different absent notCurrent level)
      rank other
  have same_counts (rank : Fin maxPriorityLevels) (other : TaskPointer) (apart : other ≠ task) :
      (after.ready 0 rank).count other = (before.ready 0 rank).count other := by
    rw [counts, if_neg fun both => apart both.2.symm, Nat.add_zero]
  have idle_apart : idle ≠ task := fun same => different same.symm
  refine
    { healthy := healthy
      installed := idle_eq.trans arranged.installed
      idleLive := (kept idle idle_apart).trans arranged.idleLive
      idlePriority := by
        rw [priorities idle idle_apart]
        exact arranged.idlePriority
      idlePlaced := arranged.idlePlaced.congr (statuses idle idle_apart) (congrFun current 0)
        fun rank => same_counts rank idle idle_apart
      someone := ?_
      ordinary := ?_
      unborn := ?_
      named := ?_
      everyone := ?_
      numbers := numbers }
  · obtain ⟨running, runs, live⟩ := arranged.someone
    have apart : running ≠ task := fun same => notCurrent (by rw [← same, runs])
    exact ⟨running, by rw [current, runs], (kept running apart).trans live⟩
  · intro other notIdle live
    by_cases same : other = task
    · subst same
      refine ⟨by simp [status], ?_, fun runs => (by rw [status] at runs; cases runs), ?_⟩
      · intro rank
        rw [counts, absent rank, Nat.zero_add]
        simp only [status, true_and, and_true, ← level_eq, Fin.ext_iff]
      · intro runs
        rw [current] at runs
        exact absurd runs notCurrent
    · rw [kept other same] at live
      exact (arranged.ordinary other notIdle live).congr (statuses other same) (congrFun current 0)
        (priorities other same) fun rank => same_counts rank other same
  · intro other fresh
    have apart : other ≠ task := by
      rintro rfl
      cases alive.symm.trans fresh
    rw [kept other apart] at fresh
    obtain ⟨ready, unqueued⟩ := arranged.unborn other fresh
    refine ⟨(statuses other apart).trans ready, fun rank => ?_⟩
    rw [← List.count_eq_zero, same_counts rank other apart, List.count_eq_zero]
    exact unqueued rank
  · intro other live
    by_cases same : other = task
    · rw [same]
      exact named
    · rw [kept other same] at live
      rw [identifiers other same]
      exact arranged.named other live
  · intro other
    by_cases same : other = task
    · rw [same, alive]
      simp
    · rw [kept other same]
      exact arranged.everyone other

theorem Arranged.created (arranged : Arranged false apicId idle before life) {priority : Nat}
    {level : Fin maxPriorityLevels} {target : Fin 1}
    (creation : CreatedTask before apicId priority task target level after) :
    Arranged false apicId idle after (Function.update life task .live) := by
  have fresh : life task = .unborn := by
    have free := List.find?_some creation.slot
    simp only [decide_eq_true_eq] at free
    cases lives : life task with
    | unborn => rfl
    | terminated => exact absurd lives (arranged.everyone task)
    | live =>
      rcases free with ended | unnamed
      · by_cases same : task = idle
        · rw [same] at ended
          exact absurd ended arranged.idlePlaced.alive
        · exact absurd ended (arranged.ordinary task same lives).alive
      · exact absurd unnamed (arranged.named task lives)
  have different : task ≠ idle := by
    rintro rfl
    cases fresh.symm.trans arranged.idleLive
  have unqueued := (arranged.unborn task fresh).2
  have numbers := arranged.numbers
  have room := creation.stack
  cases Subsingleton.elim 0 target
  refine arranged.joined different (fun rank => List.count_eq_zero.mpr (unqueued rank)) ?_
    (arranged.healthy.created creation) ?_ ?_ ?_ ?_ ?_ creation.status ?_ ?_ creation.ready ?_
    (Function.update_self _ _ _) (fun other apart => Function.update_of_ne apart _ _)
  · intro runs
    obtain ⟨running, now, live⟩ := arranged.someone
    cases now.symm.trans runs
    cases fresh.symm.trans live
  · exact congrFun creation.idle 0
  · exact creation.current
  · intro other apart
    exact creation.statuses apart
  · intro other apart
    rw [creation.others other apart]
  · intro other apart
    rw [creation.others other apart]
  · rw [creation.identifier]
    omega
  · rw [creation.priorityLevel, creation.level_eq]
  · rw [creation.nextTaskId, creation.stackIndex, u32, Nat.mod_eq_of_lt]
    · omega
    · simp only [maxTaskCount] at room
      omega

/-- Only the status of one task changes, in a way that its place allows. -/
theorem Arranged.restatus {entering : Bool} {status : TaskStatus} (arranged : Arranged false apicId idle before life)
    (changed : Restatus before task status after) (live : life task = .live)
    (idlePlaced : IdlePlaced entering after idle)
    (ordinary : ∀ other, other ≠ idle → life other = .live → Ordinary entering after other) :
    Arranged entering apicId idle after life where
  healthy := arranged.healthy.framed (changed.filled arranged.healthy.filled) changed.frame
  installed := (changed.frame.idle 0).trans arranged.installed
  idleLive := arranged.idleLive
  idlePriority := (changed.frame.priorityLevel idle).trans arranged.idlePriority
  idlePlaced := idlePlaced
  someone := by
    rw [changed.current]
    exact arranged.someone
  ordinary := ordinary
  unborn other fresh := by
    have apart : other ≠ task := by
      rintro rfl
      cases live.symm.trans fresh
    rw [changed.status, Function.update_of_ne apart, changed.ready]
    exact arranged.unborn other fresh
  named other lives := by
    rw [changed.frame.identifier]
    exact arranged.named other lives
  everyone := arranged.everyone
  numbers := by
    rw [changed.frame.nextTaskId, changed.frame.stackIndex]
    exact arranged.numbers

theorem Arranged.current_live {entering : Bool} (arranged : Arranged entering apicId idle before life)
    (runs : before.current 0 = some task) : life task = .live := by
  obtain ⟨running, now, live⟩ := arranged.someone
  cases now.symm.trans runs
  exact live

theorem Arranged.ticked (arranged : Arranged false apicId idle before life) (runs : before.current 0 = some task) :
    Arranged false apicId idle (spendTick before task) life := by
  have spent := spendTick_restatus before task
  have status : (spendTick before task).status = before.status := by
    rw [spent.status, Function.update_eq_self]
  have current := congrFun spent.current 0
  have counts (other : TaskPointer) (rank : Fin maxPriorityLevels) :
      ((spendTick before task).ready 0 rank).count other = (before.ready 0 rank).count other := by
    rw [spent.ready]
  exact arranged.restatus spent (arranged.current_live runs)
    (arranged.idlePlaced.congr (congrFun status idle) current (counts idle))
    fun other different live => (arranged.ordinary other different live).congr (congrFun status other) current
      (spent.frame.priorityLevel other) (counts other)

/-- `block_current_task` marks the current task before it calls `perform_scheduling`. -/
theorem Arranged.blocked (arranged : Arranged false apicId idle before life) (runs : before.current 0 = some task)
    (changed : Restatus before task .blocked after) : Arranged true apicId idle after life := by
  have current := congrFun changed.current 0
  have status (other : TaskPointer) (apart : other ≠ task) : after.status other = before.status other := by
    rw [changed.status, Function.update_of_ne apart]
  have marked : after.status task = .blocked := by
    rw [changed.status, Function.update_self]
  have counts (other : TaskPointer) (rank : Fin maxPriorityLevels) :
      (after.ready 0 rank).count other = (before.ready 0 rank).count other := by
    rw [changed.ready]
  have placed := arranged.idlePlaced
  apply arranged.restatus changed (arranged.current_live runs)
  · by_cases same : idle = task
    · subst same
      refine ⟨by simp [marked], ?_, ?_, fun running => (by rw [marked] at running; cases running)⟩
      · intro rank high
        rw [counts]
        exact placed.elsewhere rank high
      · have allowed := placed.waits
        rw [runs, decide_eq_true rfl] at allowed
        rw [counts, marked]
        have unit := allowed.trans (idleAllowance_current _ _)
        simpa [idleAllowance] using unit
    · exact placed.entry.congr (status idle same) current (counts idle)
  · intro other different live
    have ordinary := arranged.ordinary other different live
    by_cases same : other = task
    · subst same
      have running := ordinary.current_running runs
      refine ⟨by simp [marked], ?_, fun impossible => (by rw [marked] at impossible; cases impossible),
        fun _ => .inr ⟨rfl, marked⟩⟩
      intro rank
      rw [counts, ordinary.absent (by rw [running]; simp), marked]
      simp
    · exact ordinary.entry.congr (status other same) current (changed.frame.priorityLevel other) (counts other)

/-- There is room for the idle task when it is blocked. -/
theorem Arranged.room_idle (arranged : Arranged false apicId idle before life)
    (blocked : before.status idle = .blocked) : (before.ready 0 0).length < maxTaskCount := by
  have allowed := arranged.idlePlaced.waits
  rw [blocked] at allowed
  obtain ⟨running, runs, live⟩ := arranged.someone
  by_cases idles : running = idle
  · subst idles
    rw [runs, decide_eq_true rfl] at allowed
    apply arranged.room ∅
    · intro task member
      cases member
    · simp
    · simpa [idleAllowance] using allowed
  · have busy := arranged.ordinary running idles live
    have status : before.status running ≠ .ready := by
      simp [busy.current_running runs]
    have elsewhere : before.current 0 ≠ some idle := by
      rw [runs]
      exact fun same => idles (Option.some.inj same)
    rw [decide_eq_false elsewhere] at allowed
    apply arranged.room {running}
    · intro task member
      rw [Finset.mem_singleton.mp member]
      exact busy.absent status 0
    · simpa using fun same => idles same.symm
    · simpa [idleAllowance] using allowed

/-- The idle task, blocked like any other, waits once more when it is unblocked. -/
private theorem Arranged.idle_unblocked {middle : SchedulerState 1} (arranged : Arranged false apicId idle before life)
    (blocked : before.status idle = .blocked) (changed : Restatus before idle .ready middle)
    (pushes : Enqueued middle 0 (before.taskPool idle).priorityLevel idle after) :
    Arranged false apicId idle after life := by
  have placed := arranged.idlePlaced
  have frame := changed.frame.trans pushes.frame
  have current : after.current = before.current := pushes.current.trans changed.current
  have status : after.status = Function.update before.status idle .ready :=
    (status_congr pushes.taskPool).trans changed.status
  obtain ⟨level, level_eq, lists⟩ := pushes.level
  have low : level = 0 := Fin.ext (level_eq.trans arranged.idlePriority)
  subst low
  have counts (rank : Fin maxPriorityLevels) (other : TaskPointer) : (after.ready 0 rank).count other =
      (before.ready 0 rank).count other + if rank = 0 ∧ idle = other then 1 else 0 :=
    counts_pushed (fun rank => by simpa [changed.ready] using lists 0 rank) (arranged.room_idle blocked) rank other
  have same_counts (other : TaskPointer) (apart : other ≠ idle) (rank : Fin maxPriorityLevels) :
      (after.ready 0 rank).count other = (before.ready 0 rank).count other := by
    rw [counts, if_neg fun both => apart both.2.symm, Nat.add_zero]
  refine
    { healthy := arranged.healthy.framed pushes.filled frame
      installed := (frame.idle 0).trans arranged.installed
      idleLive := arranged.idleLive
      idlePriority := (frame.priorityLevel idle).trans arranged.idlePriority
      idlePlaced := ?_
      someone := by
        rw [current]
        exact arranged.someone
      ordinary := fun other apart live => (arranged.ordinary other apart live).congr
        (by rw [status, Function.update_of_ne apart]) (congrFun current 0) (frame.priorityLevel other)
        (same_counts other apart)
      unborn := ?_
      named := fun other live => by
        rw [frame.identifier]
        exact arranged.named other live
      everyone := arranged.everyone
      numbers := by
        rw [frame.nextTaskId, frame.stackIndex]
        exact arranged.numbers }
  · have ready : after.status idle = .ready := by
      rw [status, Function.update_self]
    refine ⟨by simp [ready], ?_, ?_, fun running => (by rw [ready] at running; cases running)⟩
    · intro rank high
      rw [counts, placed.elsewhere rank high, if_neg fun both => high both.1]
    · have allowed := placed.waits
      rw [counts, if_pos ⟨rfl, rfl⟩, ready, current]
      rw [blocked] at allowed
      simp only [idleAllowance] at allowed ⊢
      by_cases idles : before.current 0 = some idle
      · simpa [idles] using allowed
      · simpa [idles] using allowed
  · intro other fresh
    have apart : other ≠ idle := by
      rintro rfl
      cases arranged.idleLive.symm.trans fresh
    obtain ⟨ready, unqueued⟩ := arranged.unborn other fresh
    refine ⟨by rw [status, Function.update_of_ne apart, ready], fun rank => ?_⟩
    rw [← List.count_eq_zero, same_counts other apart, List.count_eq_zero]
    exact unqueued rank

theorem Arranged.unblocked {middle : SchedulerState 1} (arranged : Arranged false apicId idle before life)
    (blocked : before.status task = .blocked) (changed : Restatus before task .ready middle)
    (pushes : Enqueued middle 0 (before.taskPool task).priorityLevel task after) :
    Arranged false apicId idle after life := by
  by_cases same : task = idle
  · subst same
    exact arranged.idle_unblocked blocked changed pushes
  · have live : life task = .live := by
      cases lives : life task with
      | live => rfl
      | unborn => cases (arranged.unborn task lives).1.symm.trans blocked
      | terminated => exact absurd lives (arranged.everyone task)
    have ordinary := arranged.ordinary task same live
    have frame := changed.frame.trans pushes.frame
    obtain ⟨level, level_eq, lists⟩ := pushes.level
    have status : after.status = Function.update before.status task .ready :=
      (status_congr pushes.taskPool).trans changed.status
    have own : level.val = (after.taskPool task).priorityLevel := by
      rw [frame.priorityLevel, level_eq]
    refine arranged.joined same (fun rank => ordinary.absent (by rw [blocked]; simp) rank) ?_
      (arranged.healthy.framed pushes.filled frame) (frame.idle 0) (pushes.current.trans changed.current) ?_
      (fun other _ => frame.priorityLevel other) (fun other _ => frame.identifier other) ?_ ?_ own ?_ ?_ live
      (fun _ _ => rfl)
    · intro runs
      cases blocked.symm.trans (ordinary.current_running runs)
    · intro other apart
      rw [status, Function.update_of_ne apart]
    · rw [status, Function.update_self]
    · rw [frame.identifier]
      exact arranged.named task live
    · intro other rank
      rw [lists, changed.ready]
    · rw [frame.nextTaskId, frame.stackIndex]
      exact arranged.numbers

/-- The calls that move tasks around on one processor. -/
def MovesTasks (apicId : Nat) (_ : SchedulerState 1) (caller : Nat) : SchedulerOp → Prop
  | .createNewTask _ _ priority _ => caller = apicId ∧ priority < maxPriorityLevels
  | .yieldCurrentTask | .performScheduling | .handleSchedulerTimer | .blockCurrentTask | .unblockTask _ =>
    caller = apicId
  | _ => False

theorem Arranged.effect (arranged : Arranged false apicId idle before life) {op : SchedulerOp}
    {created : Option TaskPointer} (moves : MovesTasks apicId before apicId op)
    (effect : Effect before apicId op created after) : Arranged false apicId idle after (record life op created) := by
  have scheduling {entry : SchedulerState 1} {dispatch : Dispatch} (entered : Arranged true apicId idle entry life)
      (result : performScheduling entry apicId = .ok (after, dispatch)) : Arranged false apicId idle after life := by
    obtain ⟨frame, filled, scheduled⟩ :=
      performScheduling_scheduled entered.healthy.filled entered.healthy.known result
    exact entered.scheduled frame filled scheduled
  have here {found : TaskPointer} (current : getCurrentTask before apicId = some found) :
      before.current 0 = some found := by
    obtain ⟨cpu, _, runs⟩ := getCurrentTask_some current
    cases Subsingleton.elim 0 cpu
    exact runs
  cases effect with
  | scheduled calls result =>
    cases calls with
    | perform => exact scheduling arranged.entry result
    | yield current => exact scheduling arranged.entry result
    | timer current spent => exact scheduling (arranged.ticked (here current)).entry result
    | block current => exact scheduling (arranged.blocked (here current) (setStatus_restatus _ _ _)) result
    | terminate known current => cases moves
  | nothing passive =>
    cases op with
    | terminateTask task => cases moves
    | _ => exact arranged
  | ticked current => exact arranged.ticked (here current)
  | marked elsewhere => cases moves
  | created creation => exact arranged.created creation
  | @unblocked _ target _ _ blocked known changed push =>
    cases Subsingleton.elim 0 target
    exact arranged.unblocked blocked changed (pushReady_enqueued (changed.filled arranged.healthy.filled) push)
  | @initialized op =>
    cases op with
    | initializeScheduler _ => cases moves
    | initializeApScheduler _ => cases moves
    | _ => contradiction
  | online => cases moves

end

/-- After `initialize_scheduler` the idle task runs, and it is queued as well. -/
theorem arranged_started {processor : CpuInfo} {observed : Observed 1} (started : Started processor observed) :
    ∃ idle, Arranged false processor.apicId idle observed.state observed.life := by
  have healthy := healthy_started started
  obtain ⟨idle, level, middle, known, creation, install, recorded⟩ := started.installed
  have low : level = 0 := Fin.ext creation.level_eq
  subst low
  have status : observed.state.status idle = .running := by
    rw [install.status, Function.update_self]
  have current : observed.state.current 0 = some idle := by
    rw [install.current, Function.update_self]
  have empty (rank : Fin maxPriorityLevels) :
      (withQueues (boot fun _ : Fin 1 => processor) 0 fun _ => initializeTaskQueue).ready 0 rank = [] :=
    initializeTaskQueue_tasks
  have counts (rank : Fin maxPriorityLevels) (task : TaskPointer) :
      (observed.state.ready 0 rank).count task = if rank = 0 ∧ idle = task then 1 else 0 := by
    rw [install.ready, counts_pushed (fun rank => by simpa using creation.ready 0 rank) (by simp [empty]) rank task,
      empty]
    exact Nat.zero_add _
  have only (task : TaskPointer) (live : observed.life task = .live) : task = idle := by
    by_contra apart
    rw [recorded, Function.update_of_ne apart] at live
    cases live
  refine ⟨idle,
    { healthy := healthy
      installed := by rw [install.idle, Function.update_self]
      idleLive := by rw [recorded, Function.update_self]
      idlePriority := by rw [install.task, creation.priorityLevel]
      idlePlaced := ⟨by simp [status], fun rank high => by rw [counts, if_neg fun both => high both.1],
        by rw [counts, status]; simp [idleAllowance], fun _ => current⟩
      someone := ⟨idle, current, by rw [recorded, Function.update_self]⟩
      ordinary := fun task apart live => absurd (only task live) apart
      unborn := ?_
      named := fun task live => by
        rw [only task live, install.task, creation.identifier]
        exact Nat.one_ne_zero
      everyone := ?_
      numbers := ?_ }⟩
  · intro task fresh
    have apart : task ≠ idle := by
      rintro rfl
      rw [recorded, Function.update_self] at fresh
      cases fresh
    refine ⟨?_, fun rank => ?_⟩
    · rw [install.status, Function.update_of_ne apart, creation.statuses apart]
      rfl
    · rw [← List.count_eq_zero, counts, if_neg fun both => apart both.2.symm]
  · intro task
    rw [recorded, Function.update_apply]
    split <;> simp
  · rw [install.nextTaskId, install.stackIndex, creation.nextTaskId, creation.stackIndex]
    exact ⟨rfl, (by decide : 0 + 1 ≤ maxTaskCount)⟩

theorem arranged_reachable {processor : CpuInfo} {observed : Observed 1}
    (reached : Reachable (Started processor) (GuardedStep (MovesTasks processor.apicId)) observed) :
    ∃ idle, Arranged false processor.apicId idle observed.state observed.life := by
  apply reached.invariant fun observed => ∃ idle, Arranged false processor.apicId idle observed.state observed.life
  · intro observed started
    exact arranged_started started
  · rintro before ⟨caller, op⟩ after ⟨idle, arranged⟩ ⟨moves, created, called, recorded⟩
    have same : caller = processor.apicId := by
      cases op with
      | createNewTask _ _ _ _ => exact moves.1
      | initializeScheduler _ | initializeApScheduler _ | terminateTask _ | perCpuSetOnline _ _ => cases moves
      | _ => exact moves
    subst same
    rw [recorded]
    exact ⟨idle, arranged.effect moves (runOp_effect arranged.healthy.filled called)⟩

/-- In every run without terminations each created task but the idle task is in exactly one place. -/
theorem scheduler_run_places {processor : CpuInfo} {observed : Observed 1}
    (reached : Reachable (Started processor) (GuardedStep (MovesTasks processor.apicId)) observed)
    (created : observed.life task = .live) (ordinary : observed.state.idle 0 ≠ some task) :
    ∃! place, StandsAt observed.state task place := by
  obtain ⟨idle, arranged⟩ := arranged_reachable reached
  have different : task ≠ idle := by
    rintro rfl
    exact ordinary arranged.installed
  exact (arranged.ordinary task different created).place (arranged.healthy.levels task)

instance (apicId : Nat) (state : SchedulerState 1) (caller : Nat) : (op : SchedulerOp) →
    Decidable (MovesTasks apicId state caller op)
  | .createNewTask _ _ priority _ => inferInstanceAs (Decidable (caller = apicId ∧ priority < maxPriorityLevels))
  | .yieldCurrentTask | .performScheduling | .handleSchedulerTimer | .blockCurrentTask
  | .unblockTask _ => inferInstanceAs (Decidable (caller = apicId))
  | .initializeScheduler _ | .initializeApScheduler _ | .terminateTask _
  | .perCpuSetOnline _ _ => inferInstanceAs (Decidable False)

/-- Two tasks of which the first blocks and is unblocked while the second runs. -/
def blockAndUnblock : List (Nat × SchedulerOp) :=
  twoWorkers ++ [(0, .blockCurrentTask), (0, .performScheduling), (0, .unblockTask (some 1))]

theorem scheduler_run_places_blockAndUnblock :
    ∃ observed, startedRun (MovesTasks 0) (oneProcessor 0) 0x1000 blockAndUnblock = some observed ∧
      observed.state.status 1 = .ready ∧ ∃! place, StandsAt observed.state 1 place := by
  have returns : (startedRun (MovesTasks 0) (oneProcessor 0) 0x1000 blockAndUnblock).map
      (fun observed => (observed.life 1, observed.state.idle 0, observed.state.status 1)) =
      some (.live, some 0, .ready) := by decide +kernel
  obtain ⟨observed, run, values⟩ := Option.map_eq_some_iff.mp returns
  obtain ⟨live, idle, status⟩ : observed.life 1 = .live ∧ observed.state.idle 0 = some 0 ∧
      observed.state.status 1 = .ready := by simpa using values
  exact ⟨observed, run, status, scheduler_run_places (startedRun_reachable (MovesTasks 0) run) live
    (by rw [idle]; decide)⟩

end Kernix.Proofs
