import Kernix.Processes.TaskSwitch

/-! What `perform_task_switch` saves and what it restores. After a switch away from a task
and back to it, the task resumes with what was saved, but the stack pointer is saved behind
the end of `execution_context`. -/

namespace Kernix.Proofs
open X86 ByteMemory

/-- Where the code keeps the general registers, from the start of a context on. -/
def generalSlots : Slots :=
  [(112, .rax), (104, .rbx), (96, .rcx), (88, .rdx), (80, .rsi), (72, .rdi), (64, .rbp), (56, .r8), (48, .r9), (40, .r10),
    (32, .r11), (24, .r12), (16, .r13), (8, .r14), (0, .r15)]

/-- The registers that are restored before the flags are. -/
def earlySlots : Slots :=
  [(0, .r15), (8, .r14), (16, .r13), (24, .r12), (32, .r11), (40, .r10), (48, .r9), (56, .r8), (64, .rbp), (88, .rdx),
    (96, .rcx), (104, .rbx), (112, .rax)]

/-- The words of a context. -/
structure Saved (state : State) (context : Nat) (registers : Reg → Word) (flags returnAddress : Word) : Prop where
  general : ∀ slot ∈ generalSlots, state.read (context + slot.1) = registers slot.2
  rsp : state.read (context + 160) = registers .rsp + 8
  returnAddress : state.read (context + 136) = returnAddress
  flags : state.read (context + 152) = flags

/-- The word at an address lies outside the part of a context that the code uses. -/
def Beside (context address : Nat) : Prop := address + 8 ≤ context ∨ context + 168 ≤ address

/-- The saves that follow those of the general registers. -/
def lastSaves : List Instr :=
  [.load .rax ⟨.rsp, 0⟩, .store ⟨.rdi, 136⟩ .rax, .lea .rax ⟨.rsp, 8⟩, .store ⟨.rdi, 160⟩ .rax, .pushfq, .pop .rax,
    .store ⟨.rdi, 152⟩ .rax]

section
variable (state : State)

theorem displaced {base : Reg} (fits : (state.registers base).toNat + 168 ≤ 2 ^ 64) (displacement : Nat)
    (small : displacement < 168) :
    (state.registers base + BitVec.ofNat 64 displacement).toNat = (state.registers base).toNat + displacement :=
  address_eq state base displacement (by omega)

theorem lastSaves_read (fits : (state.registers .rdi).toNat + 168 ≤ 2 ^ 64) (address : Nat) :
    (execAll state lastSaves).read address =
      ((((state.write ((state.registers .rdi).toNat + 136) state.top).write ((state.registers .rdi).toNat + 160)
        (state.registers .rsp + 8)).write (state.registers .rsp - 8).toNat state.flags.bits).write
          ((state.registers .rdi).toNat + 152) state.flags.bits).read address := by
  refine congrArg (fun memory => BitVec.ofNat 64 (load memory address 8)) ?_
  simp only [execAll, lastSaves, List.foldl, exec, State.address, State.push, State.drop, State.top, set_registers,
    write_registers, reduceCtorEq, if_false, if_true, set_flags, write_flags]
  rw [displaced state fits 136 (by decide), displaced state fits 160 (by decide), displaced state fits 152 (by decide)]
  simp [read_write_same]

theorem lastSaves_reads (fits : (state.registers .rdi).toNat + 168 ≤ 2 ^ 64)
    (scratch : Beside (state.registers .rdi).toNat (state.registers .rsp - 8).toNat) :
    (execAll state lastSaves).read ((state.registers .rdi).toNat + 136) = state.top ∧
      (execAll state lastSaves).read ((state.registers .rdi).toNat + 160) = state.registers .rsp + 8 ∧
      (execAll state lastSaves).read ((state.registers .rdi).toNat + 152) = state.flags.bits ∧
      ∀ displacement, displacement + 8 ≤ 136 →
        (execAll state lastSaves).read ((state.registers .rdi).toNat + displacement) =
          state.read ((state.registers .rdi).toNat + displacement) := by
  have reads := lastSaves_read state fits
  generalize (state.registers .rdi).toNat = context at *
  unfold Beside at scratch
  refine ⟨?_, ?_, ?_, ?_⟩
  · rw [reads, read_write_apart _ _ (by omega), read_write_apart _ _ (by omega), read_write_apart _ _ (by omega),
      read_write_same]
  · rw [reads, read_write_apart _ _ (by omega), read_write_apart _ _ (by omega), read_write_same]
  · rw [reads, read_write_same]
  · intro displacement low
    rw [reads, read_write_apart _ _ (by omega), read_write_apart _ _ (by omega), read_write_apart _ _ (by omega),
      read_write_apart _ _ (by omega)]

/-- Saving changes no register but `rax`. -/
theorem saveBlock_registers {reg : Reg} (kept : reg ≠ .rax) :
    (execAll state saveBlock).registers reg = state.registers reg := by
  cases reg with
  | rax => exact (kept rfl).elim
  | rsp => simp [saveBlock, execAll, exec, State.push, State.drop, BitVec.sub_add_cancel]
  | _ => simp [saveBlock, execAll, exec, State.push, State.drop]

theorem saveBlock_eq : execAll state saveBlock = execAll (execAll state (stores .rdi generalSlots)) lastSaves :=
  execAll_append state (stores .rdi generalSlots) lastSaves

theorem saveBlock_saved (fits : (state.registers .rdi).toNat + 168 ≤ 2 ^ 64)
    (top : Beside (state.registers .rdi).toNat (state.registers .rsp).toNat)
    (scratch : Beside (state.registers .rdi).toNat (state.registers .rsp - 8).toNat) :
    Saved (execAll state saveBlock) (state.registers .rdi).toNat state.registers state.flags.bits state.top := by
  have registers := stores_registers state .rdi generalSlots
  have flags := stores_flags state .rdi generalSlots
  have low : ∀ slot ∈ generalSlots, slot.1 + 8 ≤ 120 := by decide
  have room : (state.registers .rdi).toNat + 120 ≤ 2 ^ 64 := by omega
  have stored (slot : Nat × Reg) (member : slot ∈ generalSlots) :
      (execAll state (stores .rdi generalSlots)).read ((state.registers .rdi).toNat + slot.1) =
        state.registers slot.2 :=
    stores_read state low room (by decide) member
  have topKept : (execAll state (stores .rdi generalSlots)).top = state.top := by
    unfold State.top
    rw [registers]
    apply stores_read_apart state low room
    intro slot member
    have bound := low slot member
    unfold Beside at top
    omega
  rw [saveBlock_eq]
  generalize execAll state (stores .rdi generalSlots) = middle at *
  obtain ⟨returnAddress, rsp, saved, kept⟩ := lastSaves_reads middle (by rw [registers]; exact fits)
    (by rw [registers]; exact scratch)
  rw [registers] at returnAddress rsp saved kept
  rw [topKept] at returnAddress
  rw [flags] at saved
  refine ⟨?_, rsp, returnAddress, saved⟩
  intro slot member
  have bound := low slot member
  rw [kept slot.1 (by omega)]
  exact stored slot member

/-- The loads that follow those of the general registers. -/
def lastLoads : List Instr :=
  [.load .r10 ⟨.rsi, 152⟩, .push .r10, .popfq, .load .rsp ⟨.rsi, 160⟩, .load .rdi ⟨.rsi, 72⟩, .load .r10 ⟨.rsi, 80⟩,
    .pushWord ⟨.rsi, 136⟩,
    .move .rsi .r10]

/-- The final `ret`. -/
def returned : State := { state.drop with rip := state.top }

theorem restoreBlock_eq : execAll state restoreBlock = execAll (execAll state (loads .rsi earlySlots)) lastLoads :=
  execAll_append state (loads .rsi earlySlots) lastLoads

/-- The context gives the stack pointer, the return address, the flags and two of the general registers. -/
structure Switched (middle final : State) (context : Nat) : Prop where
  rip : final.rip = middle.read (context + 136)
  rsp : final.registers .rsp = middle.read (context + 160)
  rdi : final.registers .rdi = middle.read (context + 72)
  rsi : final.registers .rsi = middle.read (context + 80)
  flags : final.flags = middle.flags.replace writableFlags (middle.read (context + 152))
  others : ∀ reg, reg ≠ .rsp → reg ≠ .rdi → reg ≠ .rsi → reg ≠ .r10 → final.registers reg = middle.registers reg

theorem lastLoads_switched (fits : (state.registers .rsi).toNat + 168 ≤ 2 ^ 64)
    (scratch : Beside (state.registers .rsi).toNat (state.registers .rsp - 8).toNat) :
    Switched state (returned (execAll state lastLoads)) (state.registers .rsi).toNat := by
  generalize word_eq : state.read ((state.registers .rsi).toNat + 152) = word
  generalize named : exec (exec (exec state (.load .r10 ⟨.rsi, 152⟩)) (.push .r10)) .popfq = flagged
  have split : execAll state lastLoads =
      execAll flagged [.load .rsp ⟨.rsi, 160⟩, .load .rdi ⟨.rsi, 72⟩, .load .r10 ⟨.rsi, 80⟩, .pushWord ⟨.rsi, 136⟩,
        .move .rsi .r10] := by
    rw [← named]
    rfl
  have loaded : exec state (.load .r10 ⟨.rsi, 152⟩) = state.set .r10 word := by
    rw [exec, address_eq state .rsi 152 (by omega), word_eq]
  rw [push_popfq, loaded] at named
  have registers (reg : Reg) (other : reg ≠ .r10) : flagged.registers reg = state.registers reg := by
    rw [← named, write_registers]
    exact if_neg other
  have flags : flagged.flags = state.flags.replace writableFlags word := by
    rw [← named]
    rfl
  have reads (displacement : Nat) (small : displacement + 8 ≤ 168) :
      flagged.read (flagged.registers .rsi + BitVec.ofNat 64 displacement).toNat =
        state.read ((state.registers .rsi).toNat + displacement) := by
    rw [registers .rsi (by decide), displaced state fits displacement (by omega), ← named]
    exact read_write_apart (state.set .r10 word) _ (by
      unfold Beside at scratch
      have same : (state.set .r10 word).registers .rsp = state.registers .rsp := rfl
      rw [same]
      omega)
  rw [split]
  have rsp := reads 160 (by decide)
  have rdi := reads 72 (by decide)
  have rsi := reads 80 (by decide)
  have rip := reads 136 (by decide)
  refine ⟨?_, ?_, ?_, ?_, by rw [word_eq]; exact flags, ?_⟩
  all_goals
    simp only [returned, execAll, List.foldl, exec, State.address, set_registers, read_set, reduceCtorEq, if_false, rsp,
      rdi, rsi, rip]
  · rw [set_top _ _ (by decide), push_top]
  · rw [set_drop_registers _ _ (by decide), push_drop_registers]
    simp
  · rw [set_drop_registers _ _ (by decide), push_drop_registers]
    simp
  · rw [set_drop_registers _ _ (by decide), push_registers _ _ (by decide)]
    simp
  · intro reg notRsp notRdi notRsi notR10
    rw [set_drop_registers _ _ (by decide), push_drop_registers]
    simp [notRsp, notRdi, notRsi, notR10, registers reg notR10]

/-- The registers that a context gives. Only `r10` is lost. -/
structure Loaded (before final : State) (context : Nat) : Prop where
  rip : final.rip = before.read (context + 136)
  rsp : final.registers .rsp = before.read (context + 160)
  general : ∀ slot ∈ generalSlots, slot.2 ≠ .r10 → final.registers slot.2 = before.read (context + slot.1)
  flags : ∀ saved : Flags, before.read (context + 152) = saved.bits → final.flags = saved

theorem restoreBlock_loaded (fits : (state.registers .rsi).toNat + 168 ≤ 2 ^ 64)
    (scratch : Beside (state.registers .rsi).toNat (state.registers .rsp - 8).toNat) :
    Loaded state (returned (execAll state restoreBlock)) (state.registers .rsi).toNat := by
  obtain ⟨memory, flags⟩ := loads_memory state .rsi earlySlots
  have rsi : (execAll state (loads .rsi earlySlots)).registers .rsi = state.registers .rsi :=
    loads_other state (by decide)
  have rsp : (execAll state (loads .rsi earlySlots)).registers .rsp = state.registers .rsp :=
    loads_other state (by decide)
  have low : ∀ slot ∈ earlySlots, slot.1 + 8 ≤ 120 := by decide
  have early (slot : Nat × Reg) (member : slot ∈ earlySlots) :
      (execAll state (loads .rsi earlySlots)).registers slot.2 =
        state.read ((state.registers .rsi).toNat + slot.1) :=
    loads_register state low (by omega) (by decide) (by decide) member
  have cover : ∀ slot ∈ generalSlots, slot ∈ earlySlots ∨ slot = (80, .rsi) ∨ slot = (72, .rdi) := by decide
  have kept : ∀ slot ∈ earlySlots, slot.2 ≠ .rsp ∧ slot.2 ≠ .rdi ∧ slot.2 ≠ .rsi := by decide
  rw [restoreBlock_eq]
  generalize execAll state (loads .rsi earlySlots) = middle at *
  have switched := lastLoads_switched middle (by rw [rsi]; exact fits) (by rw [rsi, rsp]; exact scratch)
  have reads (address : Nat) : middle.read address = state.read address := by
    unfold State.read
    rw [memory]
  rw [rsi] at switched
  refine ⟨by rw [switched.rip, reads], by rw [switched.rsp, reads], ?_, ?_⟩
  case refine_2 =>
    intro saved word
    rw [switched.flags, reads, word, Flags.replace_bits]
  intro slot member notR10
  rcases cover slot member with before | rfl | rfl
  · obtain ⟨notRsp, notRdi, notRsi⟩ := kept slot before
    rw [switched.others slot.2 notRsp notRdi notRsi notR10]
    exact early slot before
  · rw [switched.rsi, reads]
  · rw [switched.rdi, reads]

/-- The code up to `.skip_save`. -/
def savePart : State :=
  if state.registers .rdi = 0 then exec state (.cmp .rdi 0) else execAll (exec state (.cmp .rdi 0)) saveBlock

/-- The code from there on. -/
def restorePart : State :=
  if state.registers .rsi = 0 then exec state (.cmp .rsi 0) else execAll (exec state (.cmp .rsi 0)) restoreBlock

def returnCode : List (Line SwitchLabel) := [.ret, .label .exit, .ret]

def restoreCode : List (Line SwitchLabel) :=
  .label .skipSave :: .instr (.cmp .rsi 0) :: .je .exit :: restoreBlock.map .instr ++ returnCode

theorem run_restoreCode (fuel : Nat) : run (fuel + 27) restoreCode state = some (returned (restorePart state)) := by
  unfold restorePart
  have steps : run (fuel + 27) restoreCode state = run (fuel + 24)
      (if (exec state (.cmp .rsi 0)).flags.zero then codeFrom SwitchLabel.exit (restoreBlock.map .instr ++ returnCode)
        else restoreBlock.map .instr ++ returnCode) (exec state (.cmp .rsi 0)) := rfl
  rw [steps]
  simp only [exec, Flags.zero_compare]
  by_cases none : state.registers .rsi = 0
  · simp only [none, decide_true, if_true]
    rfl
  · simp only [none, decide_false, if_false, Bool.false_eq_true]
    exact run_block restoreBlock _ (fuel + 3) _

/-- A call saves into the old context, if there is one, and loads the new one. -/
theorem switchTo_eq : switchTo state = some (returned (restorePart (savePart state))) := by
  unfold savePart
  have steps : switchTo state = run 49
      (if (exec state (.cmp .rdi 0)).flags.zero then codeFrom SwitchLabel.skipSave (saveBlock.map .instr ++ restoreCode)
        else saveBlock.map .instr ++ restoreCode) (exec state (.cmp .rdi 0)) := rfl
  rw [steps]
  simp only [exec, Flags.zero_compare]
  by_cases none : state.registers .rdi = 0
  · simp only [none, decide_true, if_true]
    exact run_restoreCode _ 22
  · simp only [none, decide_false, if_false, Bool.false_eq_true]
    rw [← run_restoreCode _ 0]
    exact run_block saveBlock _ 27 _

end

section Resumption

variable {state later final : State} {task : Nat}

/-- A call that switches away from a task, whose `execution_context` it gets. -/
structure Leaves (task : Nat) (state : State) : Prop where
  fits : task + taskSize ≤ 2 ^ 64
  old : (state.registers .rdi).toNat = task + contextOffset

theorem Leaves.context (leaves : Leaves task state) : (state.registers .rdi).toNat + 168 ≤ 2 ^ 64 := by
  have fits := leaves.fits
  rw [leaves.old]
  unfold taskSize contextOffset at *
  omega

theorem Leaves.saves (leaves : Leaves task state) : savePart state = execAll (exec state (.cmp .rdi 0)) saveBlock := by
  unfold savePart
  rw [if_neg]
  intro null
  have old := leaves.old
  rw [null] at old
  simp at old

/-- The stack is not part of the context that is saved into. -/
structure StackBeside (context : Nat) (state : State) : Prop where
  top : Beside context (state.registers .rsp).toNat
  scratch : Beside context (state.registers .rsp - 8).toNat

/-- The flags after the comparison with `NULL`, which the code saves. -/
def savedFlags (state : State) : Flags := state.flags.compare (state.registers .rdi) 0

theorem Leaves.saved (leaves : Leaves task state) (beside : StackBeside (task + contextOffset) state) :
    Saved (savePart state) (task + contextOffset) state.registers (savedFlags state).bits state.top := by
  rw [leaves.saves, ← leaves.old]
  rw [← leaves.old] at beside
  exact saveBlock_saved (exec state (.cmp .rdi 0)) leaves.context beside.top beside.scratch

/-- Saving into one context leaves the words outside of it alone. -/
theorem saveBlock_read_apart (state : State) (fits : (state.registers .rdi).toNat + 168 ≤ 2 ^ 64) {address : Nat}
    (outside : Beside (state.registers .rdi).toNat address)
    (scratch : address + 8 ≤ (state.registers .rsp - 8).toNat ∨ (state.registers .rsp - 8).toNat + 8 ≤ address) :
    (execAll state saveBlock).read address = state.read address := by
  have registers := stores_registers state .rdi generalSlots
  have low : ∀ slot ∈ generalSlots, slot.1 + 8 ≤ 120 := by decide
  unfold Beside at outside
  have stored : (execAll state (stores .rdi generalSlots)).read address = state.read address := by
    apply stores_read_apart state low (by omega)
    intro slot member
    have bound := low slot member
    omega
  rw [saveBlock_eq]
  generalize execAll state (stores .rdi generalSlots) = middle at *
  rw [lastSaves_read middle (by rw [registers]; exact fits), registers, read_write_apart _ _ (by omega),
    read_write_apart _ _ scratch, read_write_apart _ _ (by omega), read_write_apart _ _ (by omega)]
  exact stored

/-- Saving leaves a word alone that lies outside of the old context, if there is one. -/
theorem savePart_read (state : State) {address : Nat}
    (old : state.registers .rdi = 0 ∨
      (state.registers .rdi).toNat + 168 ≤ 2 ^ 64 ∧ Beside (state.registers .rdi).toNat address)
    (scratch : address + 8 ≤ (state.registers .rsp - 8).toNat ∨ (state.registers .rsp - 8).toNat + 8 ≤ address) :
    (savePart state).read address = state.read address := by
  unfold savePart
  split
  next => rfl
  next present =>
    rcases old with null | ⟨fits, apart⟩
    · exact (present null).elim
    · exact saveBlock_read_apart (exec state (.cmp .rdi 0)) fits apart scratch

/-- A later call that switches back to the task: nothing has written to the saved words, and the call
saves into another context or into none. -/
structure SwitchesBack (task : Nat) (state later : State) : Prop where
  new : (later.registers .rsi).toNat = task + contextOffset
  kept : ∀ displacement, displacement + 8 ≤ 168 →
    later.read (task + contextOffset + displacement) = (savePart state).read (task + contextOffset + displacement)
  scratch : Beside (task + contextOffset) (later.registers .rsp - 8).toNat
  other : later.registers .rdi = 0 ∨ (later.registers .rdi).toNat + 168 ≤ 2 ^ 64 ∧
    ((later.registers .rdi).toNat + 168 ≤ task + contextOffset ∨
      task + contextOffset + 168 ≤ (later.registers .rdi).toNat)

/-- The words of the task's context when the call comes to load them. -/
theorem SwitchesBack.reads (back : SwitchesBack task state later) (displacement : Nat) (small : displacement + 8 ≤ 168) :
    (savePart later).read (task + contextOffset + displacement) =
      (savePart state).read (task + contextOffset + displacement) := by
  have scratch := back.scratch
  unfold Beside at scratch
  rw [← back.kept displacement small]
  refine savePart_read later (back.other.imp_right fun ⟨fits, apart⟩ => ⟨fits, ?_⟩) (by omega)
  unfold Beside
  omega

theorem savePart_registers (state : State) {reg : Reg} (kept : reg ≠ .rax) :
    (savePart state).registers reg = state.registers reg := by
  unfold savePart
  split
  next => rfl
  next => exact saveBlock_registers (exec state (.cmp .rdi 0)) kept

/-- A call loads the context of the task that it switches to. -/
theorem switchTo_loaded (state : State) {context : Nat} (new : (state.registers .rsi).toNat = context)
    (fits : context + 168 ≤ 2 ^ 64) (present : context ≠ 0) (scratch : Beside context (state.registers .rsp - 8).toNat)
    (result : switchTo state = some final) : Loaded (savePart state) final context := by
  have rsi := savePart_registers state (by decide : Reg.rsi ≠ .rax)
  have rsp := savePart_registers state (by decide : Reg.rsp ≠ .rax)
  rw [switchTo_eq] at result
  cases result
  unfold restorePart
  rw [if_neg]
  · subst new
    rw [← rsi] at fits scratch ⊢
    rw [← rsp] at scratch
    obtain ⟨rip, rsp, general, flags⟩ := restoreBlock_loaded (exec (savePart state) (.cmp .rsi 0)) fits scratch
    exact ⟨rip, rsp, general, flags⟩
  · rw [rsi]
    intro null
    rw [null] at new
    exact present new.symm

/-- The task goes on where `perform_task_switch` was to return to, with the registers it had. -/
structure Resumed (state last : State) : Prop where
  returnAddress : last.rip = state.top
  rsp : last.registers .rsp = state.registers .rsp + 8
  flags : last.flags = savedFlags state
  registers : ∀ reg, reg ≠ .rsp → reg ≠ .r10 → last.registers reg = state.registers reg

theorem switch_back_resumes (leaves : Leaves task state) (beside : StackBeside (task + contextOffset) state)
    (back : SwitchesBack task state later) (result : switchTo later = some final) : Resumed state final := by
  have saved := leaves.saved beside
  have fits : task + contextOffset + 168 ≤ 2 ^ 64 := by
    have context := leaves.context
    rw [leaves.old] at context
    exact context
  have loaded := switchTo_loaded later back.new fits (by unfold contextOffset; omega) back.scratch result
  have low : ∀ slot ∈ generalSlots, slot.1 + 8 ≤ 168 := by decide
  have cover : ∀ reg : Reg, reg ≠ .rsp → ∃ slot ∈ generalSlots, slot.2 = reg := by
    intro reg notRsp
    cases reg with
    | rsp => exact (notRsp rfl).elim
    | _ => decide
  refine ⟨?_, ?_, ?_, ?_⟩
  · rw [loaded.rip, back.reads 136 (by decide), saved.returnAddress]
  · rw [loaded.rsp, back.reads 160 (by decide), saved.rsp]
  · apply loaded.flags
    rw [back.reads 152 (by decide), saved.flags]
  · intro reg notRsp notR10
    obtain ⟨slot, member, rfl⟩ := cover reg notRsp
    rw [loaded.general slot member notR10, back.reads slot.1 (low slot member), saved.general slot member]

/-- The range lies in the record, but not in its `execution_context`. -/
def Misplaced (task : Nat) (range : Nat × Nat) : Prop :=
  range.1 < task + taskSize ∧ task < range.1 + range.2 ∧
    ¬ (task + contextOffset ≤ range.1 ∧ range.1 + range.2 ≤ task + contextOffset + 8 * contextWords)

/-- What a call is to do for the task that it switches away from. -/
structure SavesAndResumes (task : Nat) (state : State) : Prop where
  inside : ∀ final, switchTo state = some final →
    ∃ log, final.writes = log ++ state.writes ∧ ∀ range ∈ log, ¬ Misplaced task range
  fields : ∀ final, switchTo state = some final → ∀ position, task ≤ position → position < task + taskSize →
    (position < task + contextOffset ∨ task + contextOffset + 8 * contextWords ≤ position) →
    final.memory position = state.memory position
  resumes : ∀ later last, StackBeside (task + contextOffset) state → SwitchesBack task state later →
    switchTo later = some last → Resumed state last

theorem restorePart_logged (state : State) : Logged state (returned (restorePart state)) := by
  have compared := exec_logged state (.cmp .rsi 0)
  have returns (last : State) : Logged last (returned last) := ⟨[], rfl, fun _ _ => rfl⟩
  refine Logged.trans ?_ (returns _)
  unfold restorePart
  split
  next => exact compared
  next => exact compared.trans (execAll_logged _ restoreBlock)

/-- Saving writes to 168 bytes from the start of the context on, and to the word below the stack. The stack
pointer goes to the last eight of them. -/
theorem saveBlock_writes (state : State) (fits : (state.registers .rdi).toNat + 168 ≤ 2 ^ 64) :
    ∃ log, (execAll state saveBlock).writes = log ++ state.writes ∧ ((state.registers .rdi).toNat + 160, 8) ∈ log ∧
      ∀ range ∈ log, ((state.registers .rdi).toNat ≤ range.1 ∧ range.1 + range.2 ≤ (state.registers .rdi).toNat + 168) ∨
        range = ((state.registers .rsp - 8).toNat, 8) := by
  obtain ⟨early, writes, within⟩ := stores_writes state (by decide : ∀ slot ∈ generalSlots, slot.1 + 8 ≤ 168) fits
  have registers := stores_registers state .rdi generalSlots
  rw [saveBlock_eq]
  generalize execAll state (stores .rdi generalSlots) = middle at *
  rw [← registers] at fits within ⊢
  have late : (execAll middle lastSaves).writes = [((middle.registers .rdi).toNat + 152, 8),
      ((middle.registers .rsp - 8).toNat, 8), ((middle.registers .rdi).toNat + 160, 8),
      ((middle.registers .rdi).toNat + 136, 8)] ++ middle.writes := by
    rw [← displaced middle fits 136 (by decide), ← displaced middle fits 152 (by decide),
      ← displaced middle fits 160 (by decide)]
    rfl
  rw [late, writes, ← List.append_assoc]
  refine ⟨_, rfl, by simp, ?_⟩
  intro range member
  rcases List.mem_append.mp member with last | first
  · simp only [List.mem_cons, List.not_mem_nil, or_false] at last
    rcases last with rfl | rfl | rfl | rfl
    · exact .inl ⟨by omega, by omega⟩
    · exact .inr rfl
    · exact .inl ⟨by omega, by omega⟩
    · exact .inl ⟨by omega, by omega⟩
  · exact .inl (within range first)

/-- The word at index 20 of the 20 words is written in every call. -/
theorem switch_writes_outside (leaves : Leaves task state) : ¬ SavesAndResumes task state := by
  intro claim
  obtain ⟨log, writes, inside⟩ := claim.inside _ (switchTo_eq state)
  obtain ⟨saved, savedWrites, member, _⟩ := saveBlock_writes (exec state (.cmp .rdi 0)) leaves.context
  obtain ⟨rest, restWrites, _⟩ := restorePart_logged (savePart state)
  rw [restWrites, leaves.saves, savedWrites, ← List.append_assoc] at writes
  have compared : (exec state (.cmp .rdi 0)).writes = state.writes := rfl
  rw [compared] at writes
  have same : rest ++ saved = log := List.append_cancel_right writes
  apply inside _ (same ▸ List.mem_append_right rest member)
  have old : ((exec state (.cmp .rdi 0)).registers .rdi).toNat = task + contextOffset := leaves.old
  unfold Misplaced taskSize contextWords
  simp only [old]
  unfold contextOffset
  omega

/-- A task whose record starts at 0x1000 and whose name is all `A`, with its stack at 0x8000. -/
def leavingCall : State where
  registers
    | .rdi => 0x1030
    | .rsi => 0x2030
    | .rsp => 0x8000
    | _ => 0
  flags := ⟨2, clear_fixed⟩
  memory := fun _ => 0x41
  writes := []
  rip := 0

theorem leavingCall_leaves : Leaves 0x1000 leavingCall := ⟨by decide, by decide⟩

theorem switch_writes_outside_leavingCall : ¬ SavesAndResumes 0x1000 leavingCall :=
  switch_writes_outside leavingCall_leaves

/-- The call puts the low byte of the stack pointer in the place of the first letter of the name. -/
theorem switch_overwrites_name : ¬ ∀ task state, Leaves task state → SavesAndResumes task state := by
  intro claim
  have letter : (switchTo leavingCall).map (fun final => final.memory (0x1000 + nameOffset)) = some 0x08 := by
    decide +kernel
  obtain ⟨final, result, changed⟩ := Option.map_eq_some_iff.mp letter
  have kept := (claim 0x1000 leavingCall leavingCall_leaves).fields final result (0x1000 + nameOffset)
    (by decide) (by decide) (by decide)
  rw [changed] at kept
  exact absurd kept (by decide)

end Resumption

end Kernix.Proofs
