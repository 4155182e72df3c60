import Kernix.Lib.ByteMemory

/-! A fragment of the x86-64 instruction set: moves, pushes and pops, the flags register,
one comparison and forward jumps. Every result is about which words of memory a piece of
code reads and writes. -/

namespace X86
open ByteMemory

abbrev Word := BitVec 64

inductive Reg where
  | rax | rbx | rcx | rdx | rsi | rdi | rbp | rsp | r8 | r9 | r10 | r11 | r12 | r13 | r14 | r15
  deriving DecidableEq, Repr

/-- The bits of RFLAGS that `popfq` can change at the highest privilege level. -/
abbrev writableFlags : Word := 0x247FD5

/-- RFLAGS as `pushfq` shows it. Outside of the writable bits only the constant bit 1 is set. -/
structure Flags where
  bits : Word
  fixed : bits &&& ~~~writableFlags = 2

theorem clear_fixed : (2 : Word) &&& ~~~writableFlags = 2 := by decide

/-- The flags under the mask are replaced. -/
def Flags.replace (flags : Flags) (mask value : Word) : Flags where
  bits := (flags.bits &&& ~~~(mask &&& writableFlags)) ||| (value &&& (mask &&& writableFlags))
  fixed := by
    apply Eq.trans _ flags.fixed
    apply BitVec.eq_of_getLsbD_eq
    intro bit small
    simp only [BitVec.getLsbD_and, BitVec.getLsbD_or, BitVec.getLsbD_not]
    cases writableFlags.getLsbD bit <;> simp [small]

/-- The status bits: CF, PF, AF, ZF, SF and OF. -/
abbrev statusFlags : Word := 0x8D5

def bitAt (bit : Nat) (value : Bool) : Word := if value then 1#64 <<< bit else 0

def evenParity (byte : Word) : Bool := ((List.range 8).countP fun bit => byte.getLsbD bit) % 2 = 0

/-- The status flags of `left - right`. -/
def statusOf (left right : Word) : Word :=
  let result := left - right
  bitAt 0 (left.ult right) ||| bitAt 2 (evenParity result) ||| bitAt 4 ((left ^^^ right ^^^ result).getLsbD 4) |||
    bitAt 6 (result = 0) ||| bitAt 7 result.msb ||| bitAt 11 (left.msb != right.msb && result.msb != left.msb)

def Flags.compare (flags : Flags) (left right : Word) : Flags := flags.replace statusFlags (statusOf left right)

def Flags.zero (flags : Flags) : Bool := flags.bits.getLsbD 6

structure State where
  registers : Reg → Word
  flags : Flags
  memory : Memory
  /-- The address and the length of every range that was written, the latest first. -/
  writes : List (Nat × Nat)
  /-- Where the last `ret` has gone. -/
  rip : Word

/-- `[base + displacement]`. -/
structure Operand where
  base : Reg
  displacement : Nat

inductive Instr where
  | load (target : Reg) (source : Operand)
  | store (target : Operand) (source : Reg)
  | move (target source : Reg)
  | lea (target : Reg) (source : Operand)
  | push (source : Reg)
  | pushWord (source : Operand)
  | pop (target : Reg)
  | pushfq
  | popfq
  | cmp (left : Reg) (right : Word)

namespace State

def set (state : State) (target : Reg) (value : Word) : State :=
  { state with registers := fun reg => if reg = target then value else state.registers reg }

def address (state : State) (operand : Operand) : Nat :=
  (state.registers operand.base + BitVec.ofNat 64 operand.displacement).toNat

def read (state : State) (address : Nat) : Word := BitVec.ofNat 64 (load state.memory address 8)

def write (state : State) (address : Nat) (value : Word) : State :=
  { state with
    memory := store state.memory address 8 value.toNat
    writes := (address, 8) :: state.writes }

def push (state : State) (value : Word) : State :=
  (state.set .rsp (state.registers .rsp - 8)).write (state.registers .rsp - 8).toNat value

/-- The word on top of the stack. -/
def top (state : State) : Word := state.read (state.registers .rsp).toNat

/-- The stack without its top word. -/
def drop (state : State) : State := state.set .rsp (state.registers .rsp + 8)

end State

def exec (state : State) : Instr → State
  | .load target source => state.set target (state.read (state.address source))
  | .store target source => state.write (state.address target) (state.registers source)
  | .move target source => state.set target (state.registers source)
  | .lea target source => state.set target (BitVec.ofNat 64 (state.address source))
  | .push source => state.push (state.registers source)
  | .pushWord source => state.push (state.read (state.address source))
  | .pop target => state.drop.set target state.top
  | .pushfq => state.push state.flags.bits
  | .popfq => { state.drop with flags := state.flags.replace writableFlags state.top }
  | .cmp left right => { state with flags := state.flags.compare (state.registers left) right }

def execAll (state : State) (block : List Instr) : State := block.foldl exec state

/-- A line of a program whose labels are of the type given. -/
inductive Line (label : Type) where
  | instr (instr : Instr)
  | label (name : label)
  | je (name : label)
  | ret

section
variable {label : Type} [DecidableEq label]

def Line.isLabel (name : label) : Line label → Bool
  | .label other => other = name
  | _ => false

/-- The code from a label on. -/
def codeFrom (name : label) (code : List (Line label)) : List (Line label) :=
    code.dropWhile fun line => !line.isLabel name

/-- Code that runs until its `ret`, for the number of lines given at most. All jumps go forward. -/
def run : Nat → List (Line label) → State → Option State
  | 0, _, _ | _, [], _ => none
  | fuel + 1, .instr instr :: rest, state => run fuel rest (exec state instr)
  | fuel + 1, .label _ :: rest, state => run fuel rest state
  | fuel + 1, .je name :: rest, state => run fuel (if state.flags.zero then codeFrom name rest else rest) state
  | _ + 1, .ret :: _, state => some { state.drop with rip := state.top }

/-- A block without jumps runs as a whole. -/
theorem run_block (block : List Instr) (rest : List (Line label)) (fuel : Nat) (state : State) :
    run (fuel + block.length) (block.map .instr ++ rest) state = run fuel rest (execAll state block) := by
  induction block generalizing state with
  | nil => rfl
  | cons instr block ih => exact ih (exec state instr)

end

theorem getLsbD_bitAt {bit : Nat} (small : bit < 64) (value : Bool) (place : Nat) :
    (bitAt bit value).getLsbD place = (value && decide (place = bit)) := by
  unfold bitAt
  cases value with
  | false => simp
  | true =>
    have one : (1#64).getLsbD (place - bit) = decide (place - bit = 0) := by
      simp
    simp only [if_true, BitVec.getLsbD_shiftLeft, one, Bool.true_and]
    by_cases same : place = bit
    · subst same
      simp [small]
    · simp [same]
      omega

theorem zero_statusOf (left right : Word) : (statusOf left right).getLsbD 6 = decide (left - right = 0) := by
  unfold statusOf
  simp only [BitVec.getLsbD_or, getLsbD_bitAt (by decide : (0 : Nat) < 64), getLsbD_bitAt (by decide : (2 : Nat) < 64),
    getLsbD_bitAt (by decide : (4 : Nat) < 64), getLsbD_bitAt (by decide : (6 : Nat) < 64),
    getLsbD_bitAt (by decide : (7 : Nat) < 64), getLsbD_bitAt (by decide : (11 : Nat) < 64)]
  simp

/-- The zero flag after a comparison. -/
@[simp] theorem Flags.zero_compare (flags : Flags) (left right : Word) :
    (flags.compare left right).zero = decide (left = right) := by
  have under : (statusFlags &&& writableFlags).getLsbD 6 = true := by decide
  unfold compare zero replace
  simp only [BitVec.getLsbD_or, BitVec.getLsbD_and, BitVec.getLsbD_not, under, zero_statusOf]
  simp [BitVec.sub_eq_iff_eq_add]

theorem Flags.constant (flags : Flags) {bit : Nat} (small : bit < 64) (clear : writableFlags.getLsbD bit = false) :
    flags.bits.getLsbD bit = (2 : Word).getLsbD bit := by
  have fixed := congrArg (fun word => word.getLsbD bit) flags.fixed
  simpa only [BitVec.getLsbD_and, BitVec.getLsbD_not, clear, small, decide_true, Bool.not_false, Bool.and_true]
    using fixed

/-- What `popfq` makes of a word that `pushfq` has saved. -/
theorem Flags.replace_bits (flags saved : Flags) : flags.replace writableFlags saved.bits = saved := by
  have same : (flags.replace writableFlags saved.bits).bits = saved.bits := by
    apply BitVec.eq_of_getLsbD_eq
    intro bit small
    simp only [replace, BitVec.getLsbD_and, BitVec.getLsbD_or, BitVec.getLsbD_not, Bool.and_self]
    cases clear : writableFlags.getLsbD bit with
    | false =>
      rw [flags.constant small clear, saved.constant small clear]
      simp [small]
    | true => simp
  cases saved
  unfold replace at same ⊢
  simp only at same
  simp only [same]

section
variable (state : State)

@[simp] theorem set_registers (target reg : Reg) (value : Word) :
    (state.set target value).registers reg = if reg = target then value else state.registers reg := rfl

@[simp] theorem set_memory (target : Reg) (value : Word) : (state.set target value).memory = state.memory := rfl

@[simp] theorem set_writes (target : Reg) (value : Word) : (state.set target value).writes = state.writes := rfl

@[simp] theorem set_flags (target : Reg) (value : Word) : (state.set target value).flags = state.flags := rfl

@[simp] theorem write_registers (address : Nat) (value : Word) :
    (state.write address value).registers = state.registers := rfl

@[simp] theorem write_memory (address : Nat) (value : Word) :
    (state.write address value).memory = store state.memory address 8 value.toNat := rfl

@[simp] theorem write_writes (address : Nat) (value : Word) :
    (state.write address value).writes = (address, 8) :: state.writes := rfl

@[simp] theorem write_flags (address : Nat) (value : Word) : (state.write address value).flags = state.flags := rfl

@[simp] theorem read_set (target : Reg) (value : Word) (address : Nat) :
    (state.set target value).read address = state.read address := rfl

end

theorem read_write_same (state : State) (address : Nat) (value : Word) :
    (state.write address value).read address = value := by
  unfold State.read State.write
  rw [load_store_fits _ value.isLt]
  exact BitVec.ofNat_toNat _ _

theorem read_write_apart (state : State) {address other : Nat} (value : Word)
    (apart : other + 8 ≤ address ∨ address + 8 ≤ other) : (state.write address value).read other = state.read other := by
  unfold State.read State.write
  rw [load_store_apart _ apart]

@[simp] theorem push_top (state : State) (value : Word) : (state.push value).top = value := read_write_same _ _ _

/-- A push and a pop leave the registers as they were. -/
@[simp] theorem push_drop_registers (state : State) (value : Word) :
    (state.push value).drop.registers = state.registers := by
  funext reg
  by_cases same : reg = .rsp
  · subst same
    simp [State.drop, State.push, BitVec.sub_add_cancel]
  · simp [State.drop, State.push, same]

theorem push_registers (state : State) (value : Word) {reg : Reg} (other : reg ≠ .rsp) :
    (state.push value).registers reg = state.registers reg := if_neg other

theorem set_top (state : State) (value : Word) {target : Reg} (other : target ≠ .rsp) :
    (state.set target value).top = state.top := by
  unfold State.top
  rw [set_registers, if_neg other.symm, read_set]

theorem set_drop_registers (state : State) (value : Word) {target : Reg} (other : target ≠ .rsp) (reg : Reg) :
    (state.set target value).drop.registers reg = if reg = target then value else state.drop.registers reg := by
  unfold State.drop
  simp only [set_registers, if_neg other.symm]
  by_cases same : reg = target
  · subst same
    simp [other]
  · simp [same]

/-- A word is pushed and popped into the flags: all that stays of it is the word below the stack. -/
theorem push_popfq (state : State) (source : Reg) :
    exec (exec state (.push source)) .popfq =
      { state.write (state.registers .rsp - 8).toNat (state.registers source) with
        flags := state.flags.replace writableFlags (state.registers source) } := by
  have registers := push_drop_registers state (state.registers source)
  simp only [exec, push_top]
  unfold State.drop State.set at registers ⊢
  simp only at registers
  simp only [registers]
  rfl

/-- Between two states only logged ranges of memory have changed. -/
def Logged (before after : State) : Prop :=
  ∃ log, after.writes = log ++ before.writes ∧
    ∀ position, (∀ range ∈ log, position < range.1 ∨ range.1 + range.2 ≤ position) →
      after.memory position = before.memory position

theorem Logged.refl (state : State) : Logged state state := ⟨[], rfl, fun _ _ => rfl⟩

theorem Logged.trans {first second third : State} (earlier : Logged first second) (later : Logged second third) :
    Logged first third := by
  obtain ⟨log, writes, kept⟩ := earlier
  obtain ⟨log', writes', kept'⟩ := later
  refine ⟨log' ++ log, by rw [writes', writes, List.append_assoc], fun position outside => ?_⟩
  rw [kept' position fun range member => outside range (List.mem_append_left _ member)]
  exact kept position fun range member => outside range (List.mem_append_right _ member)

/-- What the log does not name is kept. -/
theorem Logged.kept {before after : State} (logged : Logged before after) {log : List (Nat × Nat)}
    (writes : after.writes = log ++ before.writes) {position : Nat}
    (outside : ∀ range ∈ log, position < range.1 ∨ range.1 + range.2 ≤ position) :
    after.memory position = before.memory position := by
  obtain ⟨own, ownWrites, kept⟩ := logged
  rw [ownWrites] at writes
  exact kept position (List.append_cancel_right writes ▸ outside)

theorem Logged.write (state : State) (address : Nat) (value : Word) : Logged state (state.write address value) :=
  ⟨[(address, 8)], rfl, fun position outside =>
    store_confined state.memory address 8 value.toNat position (outside _ (List.mem_singleton_self _))⟩

theorem Logged.push (state : State) (value : Word) : Logged state (state.push value) :=
  Logged.write (state.set .rsp (state.registers .rsp - 8)) _ value

theorem exec_logged (state : State) (instr : Instr) : Logged state (exec state instr) := by
  cases instr with
  | store target source => exact .write state _ _
  | push source => exact .push state _
  | pushWord source => exact .push state _
  | pushfq => exact .push state _
  | load | move | lea | pop | popfq | cmp => exact ⟨[], rfl, fun _ _ => rfl⟩

theorem execAll_logged (state : State) (block : List Instr) : Logged state (execAll state block) := by
  induction block generalizing state with
  | nil => exact .refl state
  | cons instr block ih => exact (exec_logged state instr).trans (ih _)

theorem address_eq (state : State) (base : Reg) (displacement : Nat)
    (fits : (state.registers base).toNat + displacement < 2 ^ 64) :
    state.address ⟨base, displacement⟩ = (state.registers base).toNat + displacement := by
  unfold State.address
  rw [BitVec.toNat_add, BitVec.toNat_ofNat, Nat.mod_eq_of_lt (by omega : displacement < 2 ^ 64), Nat.mod_eq_of_lt fits]

theorem execAll_append (state : State) (first second : List Instr) :
    execAll state (first ++ second) = execAll (execAll state first) second :=
  List.foldl_append

/-- Registers that are kept at displacements from one base register. -/
abbrev Slots := List (Nat × Reg)

/-- No two slots overlap. -/
def Slots.Apart (slots : Slots) : Prop :=
    slots.Pairwise fun first second => first.1 + 8 ≤ second.1 ∨ second.1 + 8 ≤ first.1

instance (slots : Slots) : Decidable slots.Apart :=
  inferInstanceAs (Decidable (List.Pairwise _ _))

def stores (base : Reg) (slots : Slots) : List Instr := slots.map fun slot => .store ⟨base, slot.1⟩ slot.2

def loads (base : Reg) (slots : Slots) : List Instr := slots.map fun slot => .load slot.2 ⟨base, slot.1⟩

section
variable {base : Reg} {slots : Slots} {displacement : Nat} {reg : Reg}

theorem stores_registers (state : State) (base : Reg) (slots : Slots) :
    (execAll state (stores base slots)).registers = state.registers := by
  induction slots generalizing state with
  | nil => rfl
  | cons slot slots ih => exact ih _

theorem stores_flags (state : State) (base : Reg) (slots : Slots) :
    (execAll state (stores base slots)).flags = state.flags := by
  induction slots generalizing state with
  | nil => rfl
  | cons slot slots ih => exact ih _

theorem stores_read_apart (state : State) {limit other : Nat} (inside : ∀ slot ∈ slots, slot.1 + 8 ≤ limit)
    (fits : (state.registers base).toNat + limit ≤ 2 ^ 64)
    (apart : ∀ slot ∈ slots, other + 8 ≤ (state.registers base).toNat + slot.1 ∨
      (state.registers base).toNat + slot.1 + 8 ≤ other) :
    (execAll state (stores base slots)).read other = state.read other := by
  induction slots generalizing state with
  | nil => rfl
  | cons slot slots ih =>
    have bound := inside slot List.mem_cons_self
    have here := address_eq state base slot.1 (by omega)
    refine (ih (exec state (.store ⟨base, slot.1⟩ slot.2)) (fun other member => inside other (.tail _ member)) fits
      fun other member => apart other (.tail _ member)).trans ?_
    apply read_write_apart
    rw [here]
    exact apart slot List.mem_cons_self

/-- After the stores every slot holds its register. -/
theorem stores_read (state : State) {limit : Nat} (inside : ∀ slot ∈ slots, slot.1 + 8 ≤ limit)
    (fits : (state.registers base).toNat + limit ≤ 2 ^ 64) (distinct : slots.Apart)
    (member : (displacement, reg) ∈ slots) :
    (execAll state (stores base slots)).read ((state.registers base).toNat + displacement) = state.registers reg := by
  induction slots generalizing state with
  | nil => cases member
  | cons slot slots ih =>
    obtain ⟨apart, distinct⟩ := List.pairwise_cons.mp distinct
    have rest (other : Nat × Reg) (member : other ∈ slots) := inside other (.tail _ member)
    rcases List.mem_cons.mp member with rfl | later
    · have bound := inside (displacement, reg) List.mem_cons_self
      have here := address_eq state base displacement (by omega)
      refine (stores_read_apart (exec state (.store ⟨base, displacement⟩ reg)) rest fits ?_).trans ?_
      · intro other member
        have gap := apart other member
        simp only [exec, write_registers]
        omega
      · rw [← here]
        exact read_write_same state _ _
    · exact ih (exec state (.store ⟨base, slot.1⟩ slot.2)) rest fits distinct later

theorem stores_writes (state : State) {limit : Nat} (inside : ∀ slot ∈ slots, slot.1 + 8 ≤ limit)
    (fits : (state.registers base).toNat + limit ≤ 2 ^ 64) :
    ∃ log, (execAll state (stores base slots)).writes = log ++ state.writes ∧
      ∀ range ∈ log, (state.registers base).toNat ≤ range.1 ∧
        range.1 + range.2 ≤ (state.registers base).toNat + limit := by
  induction slots generalizing state with
  | nil => exact ⟨[], rfl, fun _ member => by cases member⟩
  | cons slot slots ih =>
    have bound := inside slot List.mem_cons_self
    obtain ⟨log, writes, within⟩ := ih (exec state (.store ⟨base, slot.1⟩ slot.2))
      (fun other member => inside other (.tail _ member)) fits
    have here := address_eq state base slot.1 (by omega)
    refine ⟨log ++ [(state.address ⟨base, slot.1⟩, 8)], writes.trans (by simp [exec]), ?_⟩
    intro range member
    rcases List.mem_append.mp member with later | first
    · exact within range later
    · cases List.mem_singleton.mp first
      omega

theorem loads_memory (state : State) (base : Reg) (slots : Slots) :
    (execAll state (loads base slots)).memory = state.memory ∧
    (execAll state (loads base slots)).flags = state.flags := by
  induction slots generalizing state with
  | nil => exact ⟨rfl, rfl⟩
  | cons slot slots ih => exact ih _

theorem loads_other (state : State) (absent : ∀ slot ∈ slots, slot.2 ≠ reg) :
    (execAll state (loads base slots)).registers reg = state.registers reg := by
  induction slots generalizing state with
  | nil => rfl
  | cons slot slots ih =>
    refine (ih _ fun other member => absent other (.tail _ member)).trans ?_
    exact if_neg (absent slot List.mem_cons_self).symm

/-- After the loads every register holds its slot. -/
theorem loads_register (state : State) {limit : Nat} (inside : ∀ slot ∈ slots, slot.1 + 8 ≤ limit)
    (fits : (state.registers base).toNat + limit ≤ 2 ^ 64) (kept : ∀ slot ∈ slots, slot.2 ≠ base)
    (distinct : (slots.map Prod.snd).Nodup) (member : (displacement, reg) ∈ slots) :
    (execAll state (loads base slots)).registers reg = state.read ((state.registers base).toNat + displacement) := by
  induction slots generalizing state with
  | nil => cases member
  | cons slot slots ih =>
    obtain ⟨fresh, distinct⟩ := List.nodup_cons.mp distinct
    have bound := inside slot List.mem_cons_self
    rcases List.mem_cons.mp member with rfl | later
    · have here := address_eq state base displacement (by omega)
      have loaded : (exec state (.load reg ⟨base, displacement⟩)).registers reg =
          state.read ((state.registers base).toNat + displacement) := by
        rw [← here]
        exact if_pos rfl
      rw [← loaded]
      exact loads_other (exec state (.load reg ⟨base, displacement⟩)) fun other later same =>
        fresh (List.mem_map.mpr ⟨other, later, same⟩)
    · have same : (exec state (.load slot.2 ⟨base, slot.1⟩)).registers base = state.registers base :=
        if_neg (kept slot List.mem_cons_self).symm
      have loaded := ih (exec state (.load slot.2 ⟨base, slot.1⟩)) (fun other member => inside other (.tail _ member))
        (by rw [same]; exact fits) (fun other member => kept other (.tail _ member)) distinct later
      rw [same] at loaded
      exact loaded

end

end X86
