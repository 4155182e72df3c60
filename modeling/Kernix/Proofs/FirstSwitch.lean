import Kernix.Proofs.SchedulerRuns
import Kernix.Proofs.TaskRecords

/-! Runs of the scheduler with the switches that its calls end in: what the machine finds
in the record of a task that it enters for the first time. -/

namespace Kernix.Proofs
open SchedulerState Transition X86 ByteMemory

variable {cpuCount : Nat} {before after : SchedulerState cpuCount} {apicId : Nat}

/-- One call, the slot that it hands out and how it goes on. -/
def runDispatch (state : SchedulerState cpuCount) (apicId : Nat) :
    SchedulerOp → Except Stop (SchedulerState cpuCount × Option TaskPointer × Dispatch)
  | .initializeScheduler idleTaskEntry =>
    (initializeScheduler state apicId idleTaskEntry).map fun result => (result.1, some result.2, .stay)
  | .initializeApScheduler idleTaskEntry =>
    (initializeApScheduler state apicId idleTaskEntry).map fun result => (result.1, some result.2, .stay)
  | .createNewTask name entry priority stackSize =>
    (createNewTask state apicId name entry priority stackSize).map fun result => (result.1, result.2, .stay)
  | .yieldCurrentTask => (yieldCurrentTask state apicId).map fun result => (result.1, none, result.2)
  | .performScheduling => (performScheduling state apicId).map fun result => (result.1, none, result.2)
  | .handleSchedulerTimer => (handleSchedulerTimer state apicId).map fun result => (result.1, none, result.2)
  | .blockCurrentTask => (blockCurrentTask state apicId).map fun result => (result.1, none, result.2)
  | .unblockTask task => (unblockTask state task).map fun result => (result, none, .stay)
  | .terminateTask task => (terminateTask state apicId task).map fun result => (result.1, none, result.2)
  | .perCpuSetOnline cpuId online =>
    .ok ({ state with perCpu := perCpuSetOnline state.perCpu cpuId online }, none, .stay)

theorem runDispatch_runOp (state : SchedulerState cpuCount) (apicId : Nat) (op : SchedulerOp) :
    (runDispatch state apicId op).map (fun result => (result.1, result.2.1)) = runOp state apicId op := by
  have mapped {α β γ : Type} (first : Except Stop α) (f : α → β) (g : β → γ) :
      (first.map f).map g = first.map fun result => g (f result) := by
    cases first <;> rfl
  cases op with
  | perCpuSetOnline cpuId online => rfl
  | createNewTask name entry priority stackSize =>
    rw [runDispatch, runOp, mapped]
    cases createNewTask state apicId name entry priority stackSize <;> rfl
  | _ => rw [runDispatch, runOp, mapped]

/-- A switch leaves the old task for another one. -/
theorem performScheduling_switch {old : Option TaskPointer} {next : TaskPointer}
    (result : performScheduling before apicId = .ok (after, .switch old next)) : old ≠ some next := by
  unfold performScheduling at result
  split at result
  next => cases result
  next cpu known =>
    simp only at result
    split at result
    next => cases result
    next chosen picked =>
      split at result
      next => cases result
      next different =>
        obtain ⟨requeued, _, rest⟩ := bind_ok result
        simp only [Except.ok.injEq, Prod.mk.injEq] at rest
        split at rest
        next =>
          cases rest.2
          exact different
        next => cases rest.2

theorem runDispatch_switch {op : SchedulerOp} {created : Option TaskPointer} {old : Option TaskPointer}
    {next : TaskPointer} (result : runDispatch before apicId op = .ok (after, created, .switch old next)) :
    old ≠ some next := by
  cases op with
  | initializeScheduler | initializeApScheduler | createNewTask | unblockTask =>
    obtain ⟨_, _, pair⟩ := map_ok result
    cases pair
  | perCpuSetOnline => cases result
  | performScheduling =>
    obtain ⟨⟨_, _⟩, called, pair⟩ := map_ok result
    cases pair
    exact performScheduling_switch called
  | yieldCurrentTask =>
    obtain ⟨⟨_, _⟩, called, pair⟩ := map_ok result
    cases pair
    unfold yieldCurrentTask at called
    split at called
    next => cases called
    next => exact performScheduling_switch called
  | handleSchedulerTimer =>
    obtain ⟨⟨_, _⟩, called, pair⟩ := map_ok result
    cases pair
    unfold handleSchedulerTimer at called
    split at called
    next => cases called
    next =>
      simp only at called
      split at called
      next => exact performScheduling_switch called
      next => cases called
  | blockCurrentTask =>
    obtain ⟨⟨_, _⟩, called, pair⟩ := map_ok result
    cases pair
    unfold blockCurrentTask at called
    split at called
    next => cases called
    next => exact performScheduling_switch called
  | terminateTask task =>
    obtain ⟨⟨_, _⟩, called, pair⟩ := map_ok result
    cases pair
    unfold terminateTask at called
    split at called
    next => cases called
    next =>
      simp only at called
      split at called
      next => cases called
      next =>
        split at called
        next => exact performScheduling_switch called
        next => cases called

/-- What `create_new_task` was asked for, and the word of `task_stacks` at which the new stack starts. -/
structure Birth where
  entry : Nat
  stackSize : Nat
  stackStart : Nat
  deriving DecidableEq

/-- The task that a call makes. -/
def birthOf (state : SchedulerState cpuCount) : SchedulerOp → Option Birth
  | .createNewTask _ entry _ stackSize => some ⟨entry, stackSize, state.stackIndex * stackWords⟩
  | .initializeScheduler idleTaskEntry | .initializeApScheduler idleTaskEntry =>
    some ⟨idleTaskEntry, 4096, state.stackIndex * stackWords⟩
  | _ => none

/-- The first switch into a task: two words of its record before the switch, and where the machine was after it. -/
structure Entry where
  birth : Birth
  returnWord : Nat
  nameWord : Nat
  rip : Nat
  rsp : Nat
  deriving DecidableEq

/-- The scheduler, the tasks that no switch has entered yet, and the first switches into the others. -/
structure System (cpuCount : Nat) where
  state : SchedulerState cpuCount
  unentered : TaskPointer → Option Birth
  entries : List Entry

def recordBirth (system : System cpuCount) (op : SchedulerOp) : Option TaskPointer → TaskPointer → Option Birth
  | none => system.unentered
  | some task => Function.update system.unentered task (birthOf system.state op)

/-- A switch into a task, with the state of the machine behind it. -/
def recordEntry (pool : TaskPointer → Task) (next : TaskPointer) (final : State) (birth : Birth) : Entry where
  birth := birth
  returnWord := (pool next).executionContext 17
  nameWord := nameWord (pool next).taskName
  rip := final.rip.toNat
  rsp := (final.registers .rsp).toNat

/-- The system behind a call that ends in a switch. -/
def switched (base : Nat) (system : System cpuCount) (op : SchedulerOp) (after : SchedulerState cpuCount)
    (created old : Option TaskPointer) (next : TaskPointer) (call final : State) : System cpuCount where
  state := { after with taskPool := savedPool base after.taskPool call old }
  unentered := Function.update (recordBirth system op created) next none
  entries := ((recordBirth system op created next).map (recordEntry after.taskPool next final)).toList ++ system.entries

section
variable (base taskStacks : Nat)

/-- A call on a processor, which may end in a switch of the machine whose state is given. -/
inductive SystemStep : System cpuCount → Nat × SchedulerOp × State → System cpuCount → Prop where
  | stays {system : System cpuCount} {apicId : Nat} {op : SchedulerOp} {call : State} {after : SchedulerState cpuCount}
      {created : Option TaskPointer} {dispatch : Dispatch}
      (result : runDispatch system.state apicId op = .ok (after, created, dispatch))
      (noSwitch : ∀ old next, dispatch ≠ .switch old next) :
      SystemStep system (apicId, op, call) ⟨after, recordBirth system op created, system.entries⟩
  | switches {system : System cpuCount} {apicId : Nat} {op : SchedulerOp} {call final : State}
      {after : SchedulerState cpuCount} {created old : Option TaskPointer} {next : TaskPointer}
      (result : runDispatch system.state apicId op = .ok (after, created, .switch old next))
      (machine : SwitchCall base taskStacks after.taskPool old next call) (entered : switchTo call = some final) :
      SystemStep system (apicId, op, call) (switched base system op after created old next call final)

/-- In the stack area of the task, up to the end where an empty stack has its pointer. -/
def InsideStack (birth : Birth) (pointer : Nat) : Prop :=
  taskStacks + 8 * birth.stackStart ≤ pointer ∧ pointer ≤ taskStacks + 8 * birth.stackStart + birth.stackSize

/-- The switch has gone to the task's entry, on the task's stack. -/
def Entry.Enters (entry : Entry) : Prop := entry.rip = entry.birth.entry ∧ InsideStack taskStacks entry.birth entry.rsp

/-- The record had the entry in word 17 of its context and a place on the stack in the letters of its name. -/
def Entry.Prepared (entry : Entry) : Prop :=
  entry.returnWord = entry.birth.entry ∧ InsideStack taskStacks entry.birth entry.nameWord

end

theorem Frame.context (frame : Frame before after) (task : TaskPointer) :
    (after.taskPool task).executionContext = (before.taskPool task).executionContext := by
  rw [frame.task]

/-- The call that ends in `perform_scheduling` changes no context before it. -/
theorem Calls.context {op : SchedulerOp} {entry : SchedulerState cpuCount} (calls : Calls before apicId op entry)
    (task : TaskPointer) : (entry.taskPool task).executionContext = (before.taskPool task).executionContext := by
  cases calls with
  | perform | yield => rfl
  | @timer current found spent => exact (spendTick_restatus before current).frame.context task
  | @block current found => exact (setStatus_restatus before current .blocked).frame.context task
  | @terminate current cpu known found =>
    rw [updateCpu_taskPool, markTerminated_taskPool]
    exact (setStatus_restatus before current .terminated).frame.context task

theorem Calls.filled {op : SchedulerOp} {entry : SchedulerState cpuCount} (calls : Calls before apicId op entry)
    (filled : before.Filled) : entry.Filled := by
  cases calls with
  | perform | yield => exact filled
  | @timer current found spent => exact (spendTick_restatus before current).filled filled
  | @block current found => exact (setStatus_restatus before current .blocked).filled filled
  | @terminate current cpu known found => exact withoutCurrent_filled (markTerminated_filled filled current) cpu

theorem performScheduling_frame {dispatch : Dispatch} (filled : before.Filled)
    (result : performScheduling before apicId = .ok (after, dispatch)) : Frame before after ∧ after.Filled := by
  cases known : perCpuCurrent before.perCpu apicId with
  | none =>
    rw [performScheduling_unknown known] at result
    cases result
    exact ⟨.refl _, filled⟩
  | some cpu =>
    obtain ⟨frame, kept, _⟩ := performScheduling_scheduled filled known result
    exact ⟨frame, kept⟩

/-- No call writes to an `execution_context`, not even `create_new_task`. -/
theorem runOp_context {op : SchedulerOp} {created : Option TaskPointer} (filled : before.Filled)
    (result : runOp before apicId op = .ok (after, created)) (task : TaskPointer) :
    (after.taskPool task).executionContext = (before.taskPool task).executionContext := by
  cases runOp_effect filled result with
  | scheduled calls scheduled =>
    rw [(performScheduling_frame (calls.filled filled) scheduled).1.context, calls.context]
  | nothing => rfl
  | @ticked current found => exact (spendTick_restatus before current).frame.context task
  | @marked dead elsewhere =>
    rw [markTerminated_taskPool]
    exact (setStatus_restatus before dead .terminated).frame.context task
  | created creation => exact creation.context task
  | unblocked blocked known changed push =>
    rw [(pushReady_enqueued (changed.filled filled) push).frame.context, changed.frame.context]
  | initialized starts known creation install =>
    rw [install.task, creation.context]
    rfl
  | online => rfl

theorem runOp_filled {op : SchedulerOp} {created : Option TaskPointer} (filled : before.Filled)
    (result : runOp before apicId op = .ok (after, created)) : after.Filled := by
  cases runOp_effect filled result with
  | scheduled calls scheduled => exact (performScheduling_frame (calls.filled filled) scheduled).2
  | nothing => exact filled
  | @ticked current found => exact (spendTick_restatus before current).filled filled
  | @marked dead elsewhere => exact markTerminated_filled filled dead
  | created creation => exact creation.filled
  | unblocked blocked known changed push => exact (pushReady_enqueued (changed.filled filled) push).filled
  | initialized starts known creation install => exact install.filled
  | online =>
    intro cpu level
    simp only
    rw [perCpuSetOnline_same]
    exact filled cpu level

/-- What a run keeps: the words that contexts hold are words, and every first switch has gone where the record said. -/
structure Coherent (taskStacks : Nat) (system : System cpuCount) : Prop where
  filled : system.state.Filled
  words : ∀ task index, (system.state.taskPool task).executionContext index < 2 ^ 64
  entries : ∀ entry ∈ system.entries, entry.Enters taskStacks ↔ entry.Prepared taskStacks

theorem savedPool_words {base : Nat} {pool : TaskPointer → Task} {call : State}
    (words : ∀ task index, (pool task).executionContext index < 2 ^ 64) (old : Option TaskPointer) (task : TaskPointer)
    (index : Fin 20) : (savedPool base pool call old task).executionContext index < 2 ^ 64 := by
  cases old with
  | none => exact words task index
  | some old =>
    rw [savedPool, Function.update_apply]
    split
    next => exact load_lt (savePart call).memory (contextAddress base old + 8 * index) 8
    next => exact words task index

variable {base taskStacks : Nat} {system next : System cpuCount} {label : Nat × SchedulerOp × State}

theorem Coherent.step (coherent : Coherent taskStacks system) (step : SystemStep base taskStacks system label next) :
    Coherent taskStacks next := by
  have called {apicId : Nat} {op : SchedulerOp} {after : SchedulerState cpuCount} {created : Option TaskPointer}
      {dispatch : Dispatch} (result : runDispatch system.state apicId op = .ok (after, created, dispatch)) :
      after.Filled ∧ ∀ task index, (after.taskPool task).executionContext index < 2 ^ 64 := by
    have performed : runOp system.state apicId op = .ok (after, created) := by
      rw [← runDispatch_runOp, result]
      rfl
    refine ⟨runOp_filled coherent.filled performed, fun task index => ?_⟩
    rw [runOp_context coherent.filled performed]
    exact coherent.words task index
  cases step with
  | stays result noSwitch =>
    obtain ⟨filled, words⟩ := called result
    exact ⟨filled, words, coherent.entries⟩
  | @switches apicId op call final after created old task result machine entered =>
    obtain ⟨filled, words⟩ := called result
    refine ⟨filled, savedPool_words words old, ?_⟩
    intro entry member
    rcases List.mem_append.mp member with first | earlier
    · obtain ⟨birth, _, rfl⟩ := Option.map_eq_some_iff.mp (Option.mem_toList.mp first)
      obtain ⟨rip, rsp⟩ := machine.enters (runDispatch_switch result) entered
      rw [Nat.mod_eq_of_lt (words task 17)] at rip
      unfold Entry.Enters Entry.Prepared recordEntry
      simp only [rip, rsp]
    · exact coherent.entries entry earlier

/-- The system after `per_cpu_init`. -/
def System.boot (cpuList : Fin cpuCount → CpuInfo) : System cpuCount := ⟨SchedulerState.boot cpuList, fun _ => none, []⟩

theorem first_switch_enters_iff {cpuList : Fin cpuCount → CpuInfo}
    (reached : Reachable (· = System.boot cpuList) (SystemStep base taskStacks) system) :
    ∀ entry ∈ system.entries, entry.Enters taskStacks ↔ entry.Prepared taskStacks := by
  have coherent : Coherent taskStacks system := by
    apply reached.invariant (Coherent taskStacks)
    · rintro _ rfl
      exact ⟨boot_filled cpuList, fun _ _ => Nat.two_pow_pos 64, fun _ member => by cases member⟩
    · exact fun _ _ _ coherent step => coherent.step step
  exact coherent.entries

/-- A memory that holds nothing but the pool. -/
def poolMemory (base taskStacks : Nat) (pool : TaskPointer → Task) : Memory := fun position =>
  if inside : base ≤ position ∧ position < base + taskSize * maxTaskCount then
    taskByte taskStacks
      (pool ⟨(position - base) / taskSize, Nat.div_lt_of_lt_mul (by omega : position - base < taskSize * maxTaskCount)⟩)
      ((position - base) % taskSize)
  else 0

theorem poolMemory_holds (base taskStacks : Nat) (pool : TaskPointer → Task) :
    PoolAt (poolMemory base taskStacks pool) base taskStacks pool := by
  intro task offset low
  have small := task.isLt
  have inside : base ≤ base + taskSize * task + offset ∧
      base + taskSize * task + offset < base + taskSize * maxTaskCount := by
    unfold taskSize maxTaskCount at *
    omega
  have place : base + taskSize * task + offset - base = taskSize * task + offset := by omega
  have quotient : (taskSize * task + offset) / taskSize = task := by
    unfold taskSize at *
    omega
  have remainder : (taskSize * task + offset) % taskSize = offset := by
    unfold taskSize at *
    omega
  unfold poolMemory
  rw [dif_pos inside]
  simp only [place, quotient, remainder]

/-- A switch on a stack below the pool, which starts at 0x100000. -/
def plainCall (taskStacks : Nat) (pool : TaskPointer → Task) (old : Option TaskPointer) (next : TaskPointer) : State where
  registers
    | .rdi => BitVec.ofNat 64 (old.elim 0 (contextAddress 0x100000))
    | .rsi => BitVec.ofNat 64 (contextAddress 0x100000 next)
    | .rsp => 0x8000#64
    | _ => 0#64
  flags := ⟨2, clear_fixed⟩
  memory := poolMemory 0x100000 taskStacks pool
  writes := []
  rip := 0#64

theorem plainCall_switch (taskStacks : Nat) (pool : TaskPointer → Task) (old : Option TaskPointer) (next : TaskPointer) :
    SwitchCall 0x100000 taskStacks pool old next (plainCall taskStacks pool old next) := by
  have small (task : TaskPointer) : contextAddress 0x100000 task < 2 ^ 64 := by
    have inside := contextAddress_inside 0x100000 task
    unfold taskSize maxTaskCount at inside
    omega
  have top : (0x8000 : Word).toNat + 8 ≤ 0x100000 := by decide
  have scratch : (0x8000 - 8 : Word).toNat + 8 ≤ 0x100000 := by decide
  refine ⟨by decide, poolMemory_holds _ _ _, ?_, ?_, .inl top, .inl scratch⟩
  · unfold plainCall
    cases old with
    | none => rfl
    | some task => exact (BitVec.toNat_ofNat _ _).trans (Nat.mod_eq_of_lt (small task))
  · exact (BitVec.toNat_ofNat _ _).trans (Nat.mod_eq_of_lt (small next))

/-- A run computed, on a machine that makes only plain calls. -/
def drive (taskStacks : Nat) (system : System cpuCount) : List (Nat × SchedulerOp) → Option (System cpuCount)
  | [] => some system
  | (apicId, op) :: labels =>
    match runDispatch system.state apicId op with
    | .error _ => none
    | .ok (after, created, .switch old next) =>
      let call := plainCall taskStacks after.taskPool old next
      (switchTo call).bind fun final =>
        drive taskStacks (switched 0x100000 system op after created old next call final) labels
    | .ok (after, created, _) => drive taskStacks ⟨after, recordBirth system op created, system.entries⟩ labels

theorem drive_reachable {initial : System cpuCount → Prop} {labels : List (Nat × SchedulerOp)}
    {first last : System cpuCount}
    (reached : Reachable initial (SystemStep 0x100000 taskStacks) first)
    (run : drive taskStacks first labels = some last) :
    Reachable initial (SystemStep 0x100000 taskStacks) last := by
  induction labels generalizing first with
  | nil =>
    cases run
    exact reached
  | cons label labels ih =>
    obtain ⟨apicId, op⟩ := label
    unfold drive at run
    split at run
    next => cases run
    next after created old next result =>
      obtain ⟨final, entered, rest⟩ := Option.bind_eq_some_iff.mp run
      exact ih (.step reached (.switches result (plainCall_switch _ _ _ _) entered)) rest
    next after created dispatch noSwitch result =>
      have moved : SystemStep 0x100000 taskStacks first (apicId, op, plainCall taskStacks after.taskPool none 0)
          ⟨after, recordBirth first op created, first.entries⟩ := .stays result noSwitch
      exact ih (.step reached moved) run

/-- The second call of `perform_scheduling` leaves the idle task for the new one. -/
def firstSwitch (name : List UInt8) (entry : Nat) : List (Nat × SchedulerOp) :=
  [(0, .initializeScheduler 0x1000), (0, .createNewTask name entry 5 4096), (0, .performScheduling),
    (0, .performScheduling)]

/-- A task whose name happens to be the address of a word on its stack, and whose entry is address 0. -/
theorem first_switch_enters_iff_named :
    ∃ system, drive 0x4141414141412000 (.boot oneProcessor) (firstSwitch (literal "AAAAAAAA") 0) = some system ∧
      system.entries = [⟨⟨0, 4096, 1024⟩, 0, 0x4141414141414141, 0, 0x4141414141414141⟩] ∧
      ∀ entry ∈ system.entries, entry.Enters 0x4141414141412000 ↔ entry.Prepared 0x4141414141412000 := by
  have returns : (drive 0x4141414141412000 (.boot oneProcessor) (firstSwitch (literal "AAAAAAAA") 0)).map System.entries =
      some [⟨⟨0, 4096, 1024⟩, 0, 0x4141414141414141, 0, 0x4141414141414141⟩] := by decide +kernel
  obtain ⟨system, run, entries⟩ := Option.map_eq_some_iff.mp returns
  exact ⟨system, run, entries, first_switch_enters_iff (drive_reachable (.initial rfl) run)⟩

/-- An ordinary task is entered at address 0, with the letters of its name for a stack pointer. -/
theorem first_switch_misses :
    ¬ ∀ system, Reachable (· = System.boot oneProcessor) (SystemStep 0x100000 0x200000) system →
      ∀ entry ∈ system.entries, entry.birth.stackSize ≤ 8192 → entry.Enters 0x200000 := by
  intro claim
  have returns : (drive 0x200000 (.boot oneProcessor) (firstSwitch (literal "worker") 0x2000)).map System.entries =
      some [⟨⟨0x2000, 4096, 1024⟩, 0, 0x72656b726f77, 0, 0x72656b726f77⟩] := by decide +kernel
  obtain ⟨system, run, entries⟩ := Option.map_eq_some_iff.mp returns
  have enters := claim system (drive_reachable (.initial rfl) run)
  rw [entries] at enters
  exact absurd (enters _ List.mem_cons_self (by decide)).1 (by decide)

end Kernix.Proofs
