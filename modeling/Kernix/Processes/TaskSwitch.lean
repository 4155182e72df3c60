import Kernix.Lib.ByteMemory
import Kernix.Lib.X86
import Kernix.Processes.Scheduler

/-! The bytes of a `task_t`, as the compiler lays them out for the assembly code to find,
and `perform_task_switch` of `scheduler.asm`, line by line. -/

namespace Kernix

section Layout
open ByteMemory

/-- The size of a `task_t`. -/
abbrev taskSize : Nat := 256

/-- Where `execution_context` lies in a `task_t`: 20 words, and `task_name` right behind them. -/
abbrev contextOffset : Nat := 48

abbrev contextWords : Nat := 20

abbrev nameOffset : Nat := 208

/-- The byte of a little-endian number at an offset. -/
def numberByte (value offset : Nat) : UInt8 := UInt8.ofNat (value / 256 ^ offset)

def TaskStatus.number : TaskStatus → Nat
  | .ready => 0
  | .running => 1
  | .blocked => 2
  | .terminated => 3

/-- A pointer into `task_stacks`, which start at the address given. -/
def stackAddress (taskStacks : Nat) : Option Int → Nat
  | none => 0
  | some index => (taskStacks + 8 * index).toNat

/-- The byte of a `task_t` at an offset. The bytes that no field covers are padding. -/
def taskByte (taskStacks : Nat) (task : Task) (offset : Nat) : UInt8 :=
  if offset < 4 then numberByte task.identifier offset
  else if offset < 8 then numberByte task.status.number (offset - 4)
  else if offset < 12 then numberByte task.priorityLevel (offset - 8)
  else if offset < 16 then 0
  else if offset < 24 then numberByte (stackAddress taskStacks task.stackPointer) (offset - 16)
  else if offset < 32 then numberByte (stackAddress taskStacks task.stackStart) (offset - 24)
  else if offset < 40 then numberByte task.stackCapacity (offset - 32)
  else if offset < contextOffset then numberByte task.startFunction (offset - 40)
  else if inside : offset < nameOffset then
    numberByte (task.executionContext ⟨(offset - contextOffset) / 8, by unfold nameOffset contextOffset at *; omega⟩)
      ((offset - contextOffset) % 8)
  else if inside : offset < nameOffset + 32 then task.taskName ⟨offset - nameOffset, by omega⟩
  else if offset < 248 then numberByte task.remainingTicks (offset - 240)
  else if offset < 252 then numberByte task.assignedCpu (offset - 248)
  else 0

/-- The first eight bytes of a name, read as a number. -/
def nameWord (name : Fin 32 → UInt8) : Nat :=
  load (fun position => if inside : position < 32 then name ⟨position, inside⟩ else 0) 0 8

/-- `task_pool` lies in memory from an address on. -/
def PoolAt (memory : Memory) (base taskStacks : Nat) (pool : TaskPointer → Task) : Prop :=
  ∀ task : TaskPointer, ∀ offset < taskSize,
    memory (base + taskSize * task + offset) = taskByte taskStacks (pool task) offset

/-- `task->execution_context`. -/
def contextAddress (base : Nat) (task : TaskPointer) : Nat := base + taskSize * task + contextOffset

end Layout

section Switch
open X86

/-- The labels of `scheduler.asm`. -/
inductive SwitchLabel where
  | skipSave
  | exit
  deriving DecidableEq

/-- Preserve the current execution state, the return address, the stack pointer and the flags. -/
def saveBlock : List Instr :=
  [.store ⟨.rdi, 112⟩ .rax,
    .store ⟨.rdi, 104⟩ .rbx,
    .store ⟨.rdi, 96⟩ .rcx,
    .store ⟨.rdi, 88⟩ .rdx,
    .store ⟨.rdi, 80⟩ .rsi,
    .store ⟨.rdi, 72⟩ .rdi,
    .store ⟨.rdi, 64⟩ .rbp,
    .store ⟨.rdi, 56⟩ .r8,
    .store ⟨.rdi, 48⟩ .r9,
    .store ⟨.rdi, 40⟩ .r10,
    .store ⟨.rdi, 32⟩ .r11,
    .store ⟨.rdi, 24⟩ .r12,
    .store ⟨.rdi, 16⟩ .r13,
    .store ⟨.rdi, 8⟩ .r14,
    .store ⟨.rdi, 0⟩ .r15,
    .load .rax ⟨.rsp, 0⟩,
    .store ⟨.rdi, 136⟩ .rax,
    .lea .rax ⟨.rsp, 8⟩,
    .store ⟨.rdi, 160⟩ .rax,
    .pushfq,
    .pop .rax,
    .store ⟨.rdi, 152⟩ .rax]

/-- Load the new execution state, the flags, the stack pointer and the return address. -/
def restoreBlock : List Instr :=
  [.load .r15 ⟨.rsi, 0⟩,
    .load .r14 ⟨.rsi, 8⟩,
    .load .r13 ⟨.rsi, 16⟩,
    .load .r12 ⟨.rsi, 24⟩,
    .load .r11 ⟨.rsi, 32⟩,
    .load .r10 ⟨.rsi, 40⟩,
    .load .r9 ⟨.rsi, 48⟩,
    .load .r8 ⟨.rsi, 56⟩,
    .load .rbp ⟨.rsi, 64⟩,
    .load .rdx ⟨.rsi, 88⟩,
    .load .rcx ⟨.rsi, 96⟩,
    .load .rbx ⟨.rsi, 104⟩,
    .load .rax ⟨.rsi, 112⟩,
    .load .r10 ⟨.rsi, 152⟩,
    .push .r10,
    .popfq,
    .load .rsp ⟨.rsi, 160⟩,
    .load .rdi ⟨.rsi, 72⟩,
    .load .r10 ⟨.rsi, 80⟩,
    .pushWord ⟨.rsi, 136⟩,
    .move .rsi .r10]

def performTaskSwitch : List (Line SwitchLabel) :=
  .instr (.cmp .rdi 0) :: .je .skipSave :: saveBlock.map .instr ++
    .label .skipSave :: .instr (.cmp .rsi 0) :: .je .exit :: restoreBlock.map .instr ++
    [.ret, .label .exit, .ret]

/-- A call of `perform_task_switch`, with the return address on top of the stack. -/
def switchTo (state : State) : Option State := run performTaskSwitch.length performTaskSwitch state

end Switch

end Kernix
