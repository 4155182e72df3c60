import Kernix.Proofs.ContextSwitch

/-! `perform_task_switch` on the records of `task_pool`: which fields of the new task it
takes the return address and the stack pointer from, and what it makes of the old task's
record. -/

namespace Kernix.Proofs
open X86 ByteMemory

variable {base taskStacks : Nat} {pool : TaskPointer → Task} {memory : Memory}

theorem PoolAt.context (holds : PoolAt memory base taskStacks pool) (task : TaskPointer) (index : Fin 20) :
    load memory (contextAddress base task + 8 * index) 8 = (pool task).executionContext index % 2 ^ 64 := by
  have small := index.isLt
  rw [show (2 : Nat) ^ 64 = 256 ^ 8 by decide]
  apply load_bytes
  intro offset low
  have byte := holds task (48 + 8 * index.val + offset) (by unfold taskSize; omega)
  have position : contextAddress base task + 8 * index + offset =
    base + taskSize * task + (48 + 8 * index.val + offset) := by
    unfold contextAddress contextOffset
    omega
  have quotient : (48 + 8 * index.val + offset - 48) / 8 = index.val := by omega
  have remainder : (48 + 8 * index.val + offset - 48) % 8 = offset := by omega
  rw [position, byte]
  unfold taskByte contextOffset nameOffset
  iterate 8 rw [if_neg (by omega)]
  rw [dif_pos (by omega)]
  simp only [quotient, remainder]
  rfl

theorem PoolAt.name (holds : PoolAt memory base taskStacks pool) (task : TaskPointer) :
    load memory (contextAddress base task + 160) 8 = nameWord (pool task).taskName := by
  have bytes : ∀ offset < 8, memory (contextAddress base task + 160 + offset) =
      UInt8.ofNat (nameWord (pool task).taskName / 256 ^ offset) := by
    intro offset low
    unfold nameWord
    rw [byte_load _ _ low]
    have byte := holds task (208 + offset) (by unfold taskSize; omega)
    have position : contextAddress base task + 160 + offset = base + taskSize * task + (208 + offset) := by
      unfold contextAddress contextOffset
      omega
    rw [position, byte]
    unfold taskByte contextOffset nameOffset
    iterate 8 rw [if_neg (by omega)]
    rw [dif_neg (by omega), dif_pos (by omega)]
    simp only [Nat.zero_add, Nat.add_sub_cancel_left]
    rw [dif_pos (by omega)]
  rw [load_bytes bytes]
  exact Nat.mod_eq_of_lt (load_lt _ _ _)

/-- A word outside of the whole pool. -/
def OutsidePool (base address : Nat) : Prop := address + 8 ≤ base ∨ base + taskSize * maxTaskCount ≤ address

/-- A call of `perform_task_switch` as `perform_scheduling` makes it, on a stack outside of the pool. -/
structure SwitchCall (base taskStacks : Nat) (pool : TaskPointer → Task) (old : Option TaskPointer) (next : TaskPointer)
    (call : State) : Prop where
  fits : base + taskSize * maxTaskCount ≤ 2 ^ 64
  holds : PoolAt call.memory base taskStacks pool
  old : (call.registers .rdi).toNat = old.elim 0 (contextAddress base)
  new : (call.registers .rsi).toNat = contextAddress base next
  top : OutsidePool base (call.registers .rsp).toNat
  scratch : OutsidePool base (call.registers .rsp - 8).toNat

/-- The context of a task lies in the pool. -/
theorem contextAddress_inside (base : Nat) (task : TaskPointer) :
    base + 48 ≤ contextAddress base task ∧ contextAddress base task + 208 ≤ base + taskSize * maxTaskCount := by
  have small := task.isLt
  unfold contextAddress contextOffset taskSize
  unfold maxTaskCount at *
  omega

theorem OutsidePool.beside {address : Nat} (outside : OutsidePool base address) (task : TaskPointer) :
    Beside (contextAddress base task) address := by
  have inside := contextAddress_inside base task
  unfold OutsidePool at outside
  unfold Beside
  omega

theorem contextAddress_apart {first second : TaskPointer} (different : first ≠ second) {displacement : Nat}
    (small : displacement + 8 ≤ 168) : Beside (contextAddress base first)
    (contextAddress base second + displacement) := by
  have apart : first.val ≠ second.val := fun same => different (Fin.ext same)
  unfold Beside contextAddress contextOffset taskSize
  omega

section
variable {old : Option TaskPointer} {next : TaskPointer} {call final : State}

theorem SwitchCall.saves_null (switch : SwitchCall base taskStacks pool none next call) : call.registers .rdi = 0 :=
  BitVec.eq_of_toNat_eq switch.old

/-- What the call does to the old context does not touch the new one. -/
theorem SwitchCall.read_new (switch : SwitchCall base taskStacks pool old next call) (different : old ≠ some next)
    {displacement : Nat} (small : displacement + 8 ≤ 168) :
    (savePart call).read (contextAddress base next + displacement) =
      call.read (contextAddress base next + displacement) := by
  have inside := contextAddress_inside base next
  have scratch := switch.scratch
  have fits := switch.fits
  unfold OutsidePool at scratch
  apply savePart_read
  · cases old with
    | none => exact .inl switch.saves_null
    | some task =>
      have room := contextAddress_inside base task
      have address : (call.registers .rdi).toNat = contextAddress base task := switch.old
      rw [address]
      exact .inr ⟨by omega, contextAddress_apart (fun same => different (by rw [same])) small⟩
  · omega

/-- The call goes where word 17 of the new task's context says, on the stack that its name says. -/
theorem SwitchCall.enters (switch : SwitchCall base taskStacks pool old next call) (different : old ≠ some next)
    (result : switchTo call = some final) :
    final.rip.toNat = (pool next).executionContext 17 % 2 ^ 64 ∧
      (final.registers .rsp).toNat = nameWord (pool next).taskName := by
  have inside := contextAddress_inside base next
  have fits := switch.fits
  have loaded := switchTo_loaded call switch.new (by omega) (by omega) (switch.scratch.beside next) result
  have word (displacement : Nat) (small : displacement + 8 ≤ 168) :
      ((savePart call).read (contextAddress base next + displacement)).toNat =
        load call.memory (contextAddress base next + displacement) 8 := by
    rw [switch.read_new different small]
    unfold State.read
    rw [BitVec.toNat_ofNat]
    exact Nat.mod_eq_of_lt (load_lt call.memory (contextAddress base next + displacement) 8)
  constructor
  · rw [loaded.rip, word 136 (by decide)]
    exact PoolAt.context switch.holds next 17
  · rw [loaded.rsp, word 160 (by decide)]
    exact PoolAt.name switch.holds next

/-- The record of a task with the context and the name that memory has for it. -/
def savedTask (base : Nat) (task : TaskPointer) (record : Task) (memory : Memory) : Task :=
  { record with
    executionContext := fun index => load memory (contextAddress base task + 8 * index) 8
    taskName := fun position => memory (contextAddress base task + 160 + position) }

theorem taskByte_savedTask (base : Nat) (task : TaskPointer) (record : Task) (memory : Memory) (offset : Nat) :
    taskByte taskStacks (savedTask base task record memory) offset =
      if contextOffset ≤ offset ∧ offset < nameOffset + 32 then memory (base + taskSize * task + offset)
      else taskByte taskStacks record offset := by
  split
  next inside =>
    unfold contextOffset nameOffset at inside
    unfold taskByte contextOffset nameOffset
    iterate 8 rw [if_neg (by omega)]
    by_cases context : offset < 208
    · rw [dif_pos context]
      have index : contextAddress base task + 8 * ((offset - 48) / 8) + (offset - 48) % 8 =
          base + taskSize * task + offset := by
        unfold contextAddress contextOffset
        omega
      rw [← index]
      exact byte_load memory _ (Nat.mod_lt _ (by decide))
    · rw [dif_neg context, dif_pos (by omega)]
      have position : contextAddress base task + 160 + (offset - 208) = base + taskSize * task + offset := by
        unfold contextAddress contextOffset
        omega
      rw [← position]
      rfl
  next outside =>
    unfold contextOffset nameOffset at outside
    unfold taskByte contextOffset nameOffset
    -- the fields before the context and those behind the name are the record's own
    by_cases low : offset < 48
    · simp only [low, if_pos]
      rfl
    · have high : ¬ offset < 208 ∧ ¬ offset < 208 + 32 := by omega
      simp only [low, high.1, high.2, if_false, dite_false]
      rfl

/-- The pool when the old task is saved. -/
def savedPool (base : Nat) (pool : TaskPointer → Task) (call : State) : Option TaskPointer → TaskPointer → Task
  | none => pool
  | some old => Function.update pool old (savedTask base old (pool old) (savePart call).memory)

/-- Saving changes the context and the first letters of the name in the record, and no other field of any task. -/
theorem SwitchCall.saved (switch : SwitchCall base taskStacks pool old next call) :
    PoolAt (savePart call).memory base taskStacks (savedPool base pool call old) := by
  cases old with
  | none =>
    unfold savePart
    rw [if_pos switch.saves_null]
    exact switch.holds
  | some old =>
    have inside := contextAddress_inside base old
    have fits := switch.fits
    have scratch := switch.scratch
    have address : (call.registers .rdi).toNat = contextAddress base old := switch.old
    have present : call.registers .rdi ≠ 0 := by
      intro null
      rw [null] at address
      exact absurd address (by simp; omega)
    have parts : savePart call = execAll (exec call (.cmp .rdi 0)) saveBlock := if_neg present
    have kept {position : Nat} (low : base ≤ position) (high : position < base + taskSize * maxTaskCount)
        (apart : position < contextAddress base old ∨ contextAddress base old + 168 ≤ position) :
        (savePart call).memory position = call.memory position := by
      rw [parts]
      obtain ⟨log, writes, _, within⟩ := saveBlock_writes (exec call (.cmp .rdi 0)) (by
        have same : ((exec call (.cmp .rdi 0)).registers .rdi).toNat = contextAddress base old := address
        omega)
      refine (execAll_logged (exec call (.cmp .rdi 0)) saveBlock).kept writes ?_
      intro range member
      have same : ((exec call (.cmp .rdi 0)).registers .rdi).toNat = contextAddress base old := address
      rcases within range member with context | rfl
      · omega
      · unfold OutsidePool at scratch
        simp only [exec]
        omega
    intro task offset low
    have small := task.isLt
    rw [savedPool]
    by_cases same : task = old
    · subst same
      rw [Function.update_self, taskByte_savedTask]
      split
      next => rfl
      next outside =>
        rw [← switch.holds task offset low]
        unfold contextAddress contextOffset nameOffset taskSize at *
        exact kept (by omega) (by omega) (by omega)
    · rw [Function.update_of_ne same, ← switch.holds task offset low]
      have apart : task.val ≠ old.val := fun equal => same (Fin.ext equal)
      apply kept
      · omega
      · unfold taskSize maxTaskCount at *
        omega
      · unfold contextAddress contextOffset taskSize at *
        omega

end

end Kernix.Proofs
