import Kernix.Lib.DoublyLinked
import Kernix.Memory.UserSpace
import Kernix.Proofs.Strings
import Mathlib.Data.List.Nodup

/-! The processes of the user space over whole runs: the pool limits their number, and
with it how far the stacks and heaps reach. What `user_space_proc_create` sets in front of
the `memset` is lost with it, and so no process leads back to its user space. -/

namespace Kernix.Proofs
open DoublyLinked

/-- The addresses of the records, in the order they were made. -/
def poolAddress (index : Nat) : Nat := ulimeStart + userSpaceRecordSize + userSpaceProcSize * index

/-- Where the stack and the heap of a process lie, one process after the other. -/
def spaceBase (index : Nat) : Nat := 0x40000000 + 80 * 1024 * index

/-- What the record of a process says that was made at a place in the order. -/
structure ProcIs (proc : UserSpaceProc) (index : Nat) : Prop where
  pid : proc.pid = index + 1
  stackBase : proc.stackBase = spaceBase index
  stackSize : proc.stackSize = 16 * 1024
  heapBase : proc.heapBase = spaceBase index + 16 * 1024
  heapSize : proc.heapSize = 64 * 1024

/-- The state after a number of creations. The newest process is the first of the list. -/
structure SpaceHeld (space : UserSpace) (count : Nat) : Prop where
  poolBase : space.internalPoolBase = ulimeStart + userSpaceRecordSize
  poolSize : space.internalPoolSize = ulimeMetaSize - userSpaceRecordSize
  poolUsed : space.internalPoolUsed = userSpaceProcSize * count
  fits : userSpaceProcSize * count ≤ ulimeMetaSize - userSpaceRecordSize
  pidNext : space.pidNext = count + 1
  windowBase : space.userSpaceBase = 0x40000000
  windowSize : space.userSpaceSize = 0xFFFFFFFF
  windowUsed : space.userSpaceUsed = spaceBase count
  records : ∀ index < count, ProcIs (space.procs (poolAddress index)) index
  linked : Linked (fun proc => (space.procs proc).next) (fun proc => (space.procs proc).prev) 0 0 space.ptrProcList
    ((List.range count).map poolAddress).reverse
  current : space.ptrProcCurr = 0 ∨ ∃ index < count, space.ptrProcCurr = poolAddress index

/-- A range of addresses. -/
structure Stretch where
  base : Nat
  size : Nat

def Stretch.Apart (first second : Stretch) : Prop :=
  first.base + first.size ≤ second.base ∨ second.base + second.size ≤ first.base

def stack (proc : UserSpaceProc) : Stretch := ⟨proc.stackBase, proc.stackSize⟩

def heap (proc : UserSpaceProc) : Stretch := ⟨proc.heapBase, proc.heapSize⟩

/-- The list of the processes, the ranges that belong to them, and the counters. -/
structure SpaceRight (space : UserSpace) (procs : List Nat) : Prop where
  linked : Linked (fun proc => (space.procs proc).next) (fun proc => (space.procs proc).prev) 0 0 space.ptrProcList procs
  forth : ∀ proc ∈ procs, (space.procs proc).next ≠ 0 →
    (space.procs proc).next ∈ procs ∧ (space.procs (space.procs proc).next).prev = proc
  back : ∀ proc ∈ procs, (space.procs proc).prev ≠ 0 →
    (space.procs proc).prev ∈ procs ∧ (space.procs (space.procs proc).prev).next = proc
  distinct : procs.Nodup
  pids : (procs.map fun proc => (space.procs proc).pid).Nodup
  nonzero : ∀ proc ∈ procs, (space.procs proc).pid ≠ 0
  sizes : ∀ proc ∈ procs, (space.procs proc).stackSize = 16 * 1024 ∧ (space.procs proc).heapSize = 64 * 1024
  own : ∀ proc ∈ procs, (stack (space.procs proc)).Apart (heap (space.procs proc))
  apart : ∀ first ∈ procs, ∀ second ∈ procs, first ≠ second →
    ∀ left ∈ [stack (space.procs first), heap (space.procs first)],
      ∀ right ∈ [stack (space.procs second), heap (space.procs second)], left.Apart right
  inside : ∀ proc ∈ procs, ∀ stretch ∈ [stack (space.procs proc), heap (space.procs proc)],
    space.userSpaceBase ≤ stretch.base ∧ stretch.base + stretch.size ≤ space.userSpaceBase + space.userSpaceSize
  pool : space.internalPoolUsed ≤ space.internalPoolSize
  current : space.ptrProcCurr = 0 ∨ space.ptrProcCurr ∈ procs

variable {space : UserSpace} {count : Nat}

theorem poolAddress_injective : Function.Injective poolAddress := by
  intro first second same
  simp only [poolAddress, userSpaceProcSize] at same
  omega

theorem mem_poolAddresses {proc : Nat} : proc ∈ ((List.range count).map poolAddress).reverse ↔
    ∃ index < count, proc = poolAddress index := by
  simp only [List.mem_reverse, List.mem_map, List.mem_range]
  constructor
  · rintro ⟨index, inside, rfl⟩
    exact ⟨index, inside, rfl⟩
  · rintro ⟨index, inside, rfl⟩
    exact ⟨index, inside, rfl⟩

theorem SpaceHeld.few (held : SpaceHeld space count) : count ≤ 11903 := by
  have fits := held.fits
  simp only [userSpaceProcSize, userSpaceRecordSize, ulimeMetaSize] at fits
  omega

theorem SpaceHeld.right (held : SpaceHeld space count) :
    SpaceRight space ((List.range count).map poolAddress).reverse := by
  have few := held.few
  have linked := held.linked
  refine ⟨linked, fun proc member => linked.next_prev member, ?_, linked.nodup, ?_, ?_, ?_, ?_, ?_, ?_, ?_, ?_⟩
  · intro proc member inner
    exact (linked.prev_next member).resolve_left fun first => inner first.1
  · rw [List.map_reverse, List.nodup_reverse, List.map_map]
    have numbers : (List.range count).map ((fun proc => (space.procs proc).pid) ∘ poolAddress) =
        (List.range count).map Nat.succ := by
      apply List.map_congr_left
      intro index inside
      exact (held.records index (List.mem_range.mp inside)).pid
    rw [numbers]
    exact List.nodup_range.map Nat.succ_injective
  · intro proc member
    obtain ⟨index, inside, rfl⟩ := mem_poolAddresses.mp member
    rw [(held.records index inside).pid]
    exact Nat.succ_ne_zero index
  · intro proc member
    obtain ⟨index, inside, rfl⟩ := mem_poolAddresses.mp member
    exact ⟨(held.records index inside).stackSize, (held.records index inside).heapSize⟩
  · intro proc member
    obtain ⟨index, inside, rfl⟩ := mem_poolAddresses.mp member
    have record := held.records index inside
    simp only [Stretch.Apart, stack, heap, record.stackBase, record.stackSize, record.heapBase, record.heapSize]
    omega
  · intro first firstMember second secondMember different
    obtain ⟨left, leftInside, rfl⟩ := mem_poolAddresses.mp firstMember
    obtain ⟨right, rightInside, rfl⟩ := mem_poolAddresses.mp secondMember
    have leftRecord := held.records left leftInside
    have rightRecord := held.records right rightInside
    have ne : left ≠ right := fun same => different (by rw [same])
    simp only [List.mem_cons, List.not_mem_nil, or_false, forall_eq_or_imp, forall_eq, Stretch.Apart, stack, heap,
      spaceBase,
      leftRecord.stackBase, leftRecord.stackSize, leftRecord.heapBase, leftRecord.heapSize, rightRecord.stackBase,
      rightRecord.stackSize, rightRecord.heapBase, rightRecord.heapSize]
    omega
  · intro proc member
    obtain ⟨index, inside, rfl⟩ := mem_poolAddresses.mp member
    have record := held.records index inside
    simp only [List.mem_cons, List.not_mem_nil, or_false, forall_eq_or_imp, forall_eq, stack, heap, spaceBase,
      record.stackBase, record.stackSize, record.heapBase, record.heapSize, held.windowBase, held.windowSize]
    omega
  · rw [held.poolUsed, held.poolSize]
    exact held.fits
  · exact held.current.imp_right mem_poolAddresses.mpr

theorem SpaceHeld.address (held : SpaceHeld space count) :
    u64 (space.internalPoolBase + space.internalPoolUsed) = poolAddress count := by
  have few := held.few
  rw [held.poolBase, held.poolUsed, poolAddress]
  apply u64_eq
  simp only [ulimeStart, heapStart, heapSize, graphicsSize, userSpaceRecordSize, userSpaceProcSize]
  omega

theorem SpaceHeld.used (held : SpaceHeld space count) :
    u64 (space.internalPoolUsed + userSpaceProcSize) = userSpaceProcSize * (count + 1) := by
  have few := held.few
  rw [held.poolUsed, Nat.mul_succ]
  apply u64_eq
  simp only [userSpaceProcSize]
  omega

theorem poolAddress_ne_zero (index : Nat) : poolAddress index ≠ 0 := by
  simp only [poolAddress, ulimeStart, heapStart, heapSize, graphicsSize, userSpaceRecordSize]
  omega

/-- The first process of the list is the newest one. -/
theorem SpaceHeld.head (held : SpaceHeld space count) :
    space.ptrProcList = if count = 0 then 0 else poolAddress (count - 1) := by
  have linked := held.linked
  cases count with
  | zero => exact linked
  | succ count =>
    rw [List.range_succ, List.map_append, List.map_singleton, List.reverse_append, List.reverse_singleton,
      List.singleton_append] at linked
    exact linked.1

/-- The records after a creation: the new one, and a link back from the first to it. -/
def recordsAfter (space : UserSpace) (created : UserSpaceProc) (count : Nat) : Nat → UserSpaceProc := fun proc =>
  if proc = poolAddress count then created
  else if proc = space.ptrProcList ∧ proc ≠ 0 then { space.procs proc with prev := poolAddress count }
  else space.procs proc

/-- What a creation changes in the earlier records. -/
theorem recordsAfter_old (space : UserSpace) (created : UserSpaceProc) {proc : Nat} (old : proc ≠ poolAddress count) :
    recordsAfter space created count proc =
      { space.procs proc with
        prev := if proc = space.ptrProcList ∧ proc ≠ 0 then poolAddress count else (space.procs proc).prev } := by
  rw [recordsAfter, if_neg old]
  split <;> rfl

/-- The state after a creation that fits the pool. -/
def spaceAfter (space : UserSpace) (created : UserSpaceProc) (count : Nat) : UserSpace :=
  { space with
    ptrProcList := poolAddress count
    pidNext := count + 2
    internalPoolUsed := userSpaceProcSize * (count + 1)
    userSpaceUsed := spaceBase (count + 1)
    procs := recordsAfter space created count }

theorem userSpaceProcCreate_eq (held : SpaceHeld space count)
    (room : userSpaceProcSize * (count + 1) ≤ ulimeMetaSize - userSpaceRecordSize) {name : List UInt8}
    {copied : Fin 64 → UInt8} (copies : strCopy UserSpaceProc.zero.name name = .ok copied) (entryPoint : Nat) :
    userSpaceProcCreate space name entryPoint =
      .ok (poolAddress count, spaceAfter space (newProc space copied entryPoint) count) := by
  have few := held.few
  have pid : u64 (space.pidNext + 1) = count + 2 := by
    rw [held.pidNext]
    exact u64_eq (by omega)
  have heapBase : (newProc space copied entryPoint).heapBase = spaceBase count + 16 * 1024 := by
    simp only [newProc, held.windowUsed, spaceBase]
    exact u64_eq (by omega)
  have window : u64 ((newProc space copied entryPoint).heapBase + (newProc space copied entryPoint).heapSize) =
      spaceBase (count + 1) := by
    rw [heapBase]
    simp only [newProc, spaceBase]
    rw [u64_eq (by omega)]
    omega
  unfold userSpaceProcCreate
  rw [held.used, if_neg (by rw [held.poolSize]; omega), held.address]
  simp only [bind, Except.bind]
  rw [copies]
  simp only
  rw [pid, window]
  have result {procs : Nat → UserSpaceProc} (same : procs = recordsAfter space (newProc space copied entryPoint) count) :
      (Except.ok (poolAddress count, { space with
          ptrProcList := poolAddress count
          pidNext := count + 2
          internalPoolUsed := userSpaceProcSize * (count + 1)
          userSpaceUsed := spaceBase (count + 1)
          procs }) : Except Stop (Nat × UserSpace)) =
        .ok (poolAddress count, spaceAfter space (newProc space copied entryPoint) count) := by
    rw [same]
    rfl
  by_cases empty : space.ptrProcList = 0
  · rw [if_neg (not_not.mpr empty)]
    apply result
    funext proc
    have none : ¬(proc = space.ptrProcList ∧ proc ≠ 0) := fun both => both.2 (both.1.trans empty)
    simp only [recordsAfter, Function.update_apply, none, if_false]
  · rw [if_pos empty]
    apply result
    funext proc
    have apart : space.ptrProcList ≠ poolAddress count := by
      rw [held.head]
      split
      · exact Ne.symm (poolAddress_ne_zero count)
      · exact fun same => absurd (poolAddress_injective same) (by omega)
    simp only [UserSpace.change, recordsAfter, Function.update_apply]
    by_cases new : proc = poolAddress count
    · rw [if_neg (by rw [new]; exact Ne.symm apart), if_pos new, if_pos new]
    · by_cases first : proc = space.ptrProcList
      · rw [if_pos first, if_neg apart, if_neg new, if_pos ⟨first, first ▸ empty⟩, first]
      · rw [if_neg first, if_neg new, if_neg new, if_neg (fun both => first both.1)]

/-- A creation that fits the pool makes the next record. -/
theorem userSpaceProcCreate_makes (held : SpaceHeld space count)
    (room : userSpaceProcSize * (count + 1) ≤ ulimeMetaSize - userSpaceRecordSize) {name : List UInt8}
    (short : name.length ≤ 63) (entryPoint : Nat) :
    ∃ after, userSpaceProcCreate space name entryPoint = .ok (poolAddress count, after) ∧
      SpaceHeld after (count + 1) := by
  have few := held.few
  have head := held.head
  obtain ⟨copied, copies⟩ := strCopy_returns (UserSpaceProc.zero.name) (by omega : name.length < 64)
  refine ⟨_, userSpaceProcCreate_eq held room copies entryPoint, ?_⟩
  have old {index : Nat} (inside : index < count) : poolAddress index ≠ poolAddress count := by
    intro same
    have equal := poolAddress_injective same
    omega
  refine ⟨held.poolBase, held.poolSize, rfl, room, rfl, held.windowBase, held.windowSize, rfl, ?_, ?_, ?_⟩
  · intro index inside
    dsimp only [spaceAfter]
    by_cases last : index = count
    · subst last
      rw [recordsAfter, if_pos rfl]
      refine ⟨held.pidNext, held.windowUsed, rfl, ?_, rfl⟩
      simp only [newProc, held.windowUsed, spaceBase]
      exact u64_eq (by omega)
    · have early : index < count := by omega
      have record := held.records index early
      rw [recordsAfter_old space _ (old early)]
      exact ⟨record.pid, record.stackBase, record.stackSize, record.heapBase, record.heapSize⟩
  · rw [List.range_succ, List.map_append, List.map_singleton, List.reverse_append, List.reverse_singleton,
      List.singleton_append]
    dsimp only [spaceAfter]
    have member {proc : Nat} (inside : proc ∈
      ((List.range count).map poolAddress).reverse) : proc ≠ poolAddress count := by
      obtain ⟨index, early, rfl⟩ := mem_poolAddresses.mp inside
      exact old early
    apply held.linked.push (poolAddress_ne_zero count)
    · intro proc inside
      rw [recordsAfter_old space _ (member inside)]
    · rw [recordsAfter, if_pos rfl]
      rfl
    · intro proc behind
      have inside := List.mem_of_mem_tail behind
      have second := held.linked.tail_ne behind
      rw [recordsAfter_old space _ (member inside)]
      exact if_neg fun both => second both.1
    · intro proc first
      have inside := List.mem_of_mem_head? first
      have nonzero : proc ≠ 0 := fun zero => held.linked.not_null (zero ▸ inside)
      have same := held.linked.current_head first
      rw [recordsAfter_old space _ (member inside)]
      exact if_pos ⟨same, nonzero⟩
    · rw [recordsAfter, if_pos rfl]
      rfl
  · dsimp only [spaceAfter]
    rcases held.current with none | ⟨index, inside, same⟩
    · exact .inl none
    · exact .inr ⟨index, by omega, same⟩

/-- A creation that does not fit the pool changes nothing. -/
theorem userSpaceProcCreate_full (held : SpaceHeld space count)
    (full : ¬userSpaceProcSize * (count + 1) ≤ ulimeMetaSize - userSpaceRecordSize) (name : List UInt8)
    (entryPoint : Nat) :
    userSpaceProcCreate space name entryPoint = .ok (0, space) := by
  unfold userSpaceProcCreate
  rw [held.used, if_pos (by rw [held.poolSize]; omega)]
  rfl

/-- Only a full pool answers `NULL`. -/
theorem userSpaceProcCreate_null (held : SpaceHeld space count) {name : List UInt8} {entryPoint : Nat} {after : UserSpace}
    (creates : userSpaceProcCreate space name entryPoint = .ok (0, after)) : after = space := by
  by_cases room : userSpaceProcSize * (count + 1) ≤ ulimeMetaSize - userSpaceRecordSize
  · exfalso
    cases copies : strCopy UserSpaceProc.zero.name name with
    | error stop =>
      unfold userSpaceProcCreate at creates
      rw [held.used, if_neg (by rw [held.poolSize]; omega), copies] at creates
      cases creates
    | ok copied =>
      rw [userSpaceProcCreate_eq held room copies] at creates
      exact poolAddress_ne_zero count (congrArg Prod.fst (Except.ok.inj creates))
  · rw [userSpaceProcCreate_full held room] at creates
    exact (congrArg Prod.snd (Except.ok.inj creates)).symm

/-- The state of a process is a part of no other fact. -/
theorem SpaceHeld.setState (held : SpaceHeld space count) (proc state : Nat) :
    SpaceHeld (space.change proc ({ · with state })) count := by
  have same (other : Nat) : ∃ value,
      (space.change proc ({ · with state })).procs other = { space.procs other with state := value } := by
    simp only [UserSpace.change, Function.update_apply]
    split
    next equal =>
      rw [equal]
      exact ⟨state, rfl⟩
    next => exact ⟨(space.procs other).state, rfl⟩
  refine ⟨held.poolBase, held.poolSize, held.poolUsed, held.fits, held.pidNext, held.windowBase, held.windowSize,
    held.windowUsed, ?_, ?_, held.current⟩
  · intro index inside
    obtain ⟨other, equal⟩ := same (poolAddress index)
    have record := held.records index inside
    rw [equal]
    exact ⟨record.pid, record.stackBase, record.stackSize, record.heapBase, record.heapSize⟩
  · apply held.linked.relink
    · intro proc _
      obtain ⟨other, equal⟩ := same proc
      rw [equal]
    · intro proc _
      obtain ⟨other, equal⟩ := same proc
      rw [equal]
    · intro proc first
      obtain ⟨other, equal⟩ := same proc
      rw [equal]
      have items := held.linked
      cases list : ((List.range count).map poolAddress).reverse with
      | nil =>
        rw [list] at first
        cases first
      | cons head rest =>
        rw [list] at first items
        obtain rfl : head = proc := Option.some.inj first
        exact items.2.2.1

/-- The search ends within the list. -/
theorem killFrom_ends {before proc : Nat} {items : List Nat} (pid : Nat)
    (linked : Linked (fun proc => (space.procs proc).next) (fun proc => (space.procs proc).prev) 0 before proc items)
    {fuel : Nat} (enough : items.length < fuel) :
    ∃ ret after, killFrom space pid fuel proc = .ok (ret, after) ∧
      (after = space ∨ ∃ proc, after = space.change proc ({ · with state := procZombie })) := by
  induction items generalizing before proc fuel with
  | nil =>
    obtain ⟨fuel, rfl⟩ : ∃ less, fuel = less + 1 := ⟨fuel - 1, by omega⟩
    have ended : proc = 0 := linked
    rw [killFrom, if_pos ended]
    exact ⟨1, space, rfl, .inl rfl⟩
  | cons item items ih =>
    obtain ⟨fuel, rfl⟩ : ∃ less, fuel = less + 1 := ⟨fuel - 1, by omega⟩
    obtain ⟨rfl, real, _, rest⟩ := linked
    rw [killFrom, if_neg real]
    split
    · exact ⟨0, _, rfl, .inr ⟨proc, rfl⟩⟩
    · exact ih rest (by simpa using enough)

theorem userSpaceProcKill_held (held : SpaceHeld space count) (pid : Nat) :
    ∃ ret after, userSpaceProcKill space pid = .ok (ret, after) ∧ SpaceHeld after count := by
  have few := held.few
  have length : ((List.range count).map poolAddress).reverse.length < ulimeMetaSize / userSpaceProcSize := by
    simp only [List.length_reverse, List.length_map, List.length_range, ulimeMetaSize, userSpaceProcSize]
    omega
  obtain ⟨ret, after, kills, rfl | ⟨proc, rfl⟩⟩ := killFrom_ends pid held.linked length
  · exact ⟨ret, after, kills, held⟩
  · exact ⟨ret, _, kills, held.setState proc procZombie⟩

theorem userSpaceSchedule_held (held : SpaceHeld space count) : SpaceHeld (userSpaceSchedule space) count := by
  have linked := held.linked
  unfold userSpaceSchedule
  split
  · exact held
  next some =>
    have first := mem_poolAddresses.mp (linked.current_mem some)
    have chosen (proc : Nat) (member : ∃ index < count, proc = poolAddress index) :
        SpaceHeld (if (space.procs proc).state = procReady then
            UserSpace.change { space with ptrProcCurr := proc } proc ({ · with state := procRunning })
          else { space with ptrProcCurr := proc }) count := by
      have moved : SpaceHeld { space with ptrProcCurr := proc } count :=
        ⟨held.poolBase, held.poolSize, held.poolUsed, held.fits, held.pidNext, held.windowBase, held.windowSize,
          held.windowUsed, held.records, held.linked, .inr member⟩
      by_cases ready : (space.procs proc).state = procReady
      · rw [if_pos ready]
        exact moved.setState proc procRunning
      · rw [if_neg ready]
        exact moved
    apply chosen
    by_cases idle : space.ptrProcCurr = 0
    · rw [if_pos idle]
      exact first
    · rw [if_neg idle]
      by_cases last : (space.procs space.ptrProcCurr).next = 0
      · rw [if_pos last]
        exact first
      · rw [if_neg last]
        have current := mem_poolAddresses.mpr (held.current.resolve_left idle)
        exact mem_poolAddresses.mp (linked.next_prev current last).1

/-- The calls of a run. -/
inductive SpaceOp where
  | create (name : List UInt8) (entryPoint : Nat)
  | kill (pid : Nat)
  | schedule

/-- A call, with the processes created so far, the newest first. -/
def spaceStep (state : UserSpace × List Nat) : SpaceOp → Except Stop (UserSpace × List Nat)
  | .create name entryPoint => do
    let (proc, space) ← userSpaceProcCreate state.1 name entryPoint
    return (space, if proc = 0 then state.2 else proc :: state.2)
  | .kill pid => do
    let (_, space) ← userSpaceProcKill state.1 pid
    return (space, state.2)
  | .schedule => return (userSpaceSchedule state.1, state.2)

def runSpace (state : UserSpace × List Nat) : List SpaceOp → Except Stop (UserSpace × List Nat)
  | [] => .ok state
  | op :: ops => do
    let state ← spaceStep state op
    runSpace state ops

/-- The names that fit a record with their terminator. -/
def SpaceOp.Named : SpaceOp → Prop
  | .create name _ => name.length ≤ 63
  | _ => True

/-- What holds between the calls. -/
def RunHeld (state : UserSpace × List Nat) : Prop :=
  ∃ count, SpaceHeld state.1 count ∧ state.2 = ((List.range count).map poolAddress).reverse

theorem spaceStep_held {state : UserSpace × List Nat} (held : RunHeld state) (op : SpaceOp) (named : op.Named) :
    ∃ after, spaceStep state op = .ok after ∧ RunHeld after := by
  obtain ⟨space, created⟩ := state
  obtain ⟨count, held, rfl⟩ := held
  dsimp only at held ⊢
  cases op with
  | create name entryPoint =>
    simp only [spaceStep]
    by_cases room : userSpaceProcSize * (count + 1) ≤ ulimeMetaSize - userSpaceRecordSize
    · obtain ⟨after, creates, kept⟩ := userSpaceProcCreate_makes held room named entryPoint
      rw [creates]
      refine ⟨_, rfl, count + 1, kept, ?_⟩
      dsimp only
      rw [if_neg (poolAddress_ne_zero count), List.range_succ, List.map_append, List.map_singleton, List.reverse_append,
        List.reverse_singleton, List.singleton_append]
    · rw [userSpaceProcCreate_full held room]
      exact ⟨_, rfl, count, held, rfl⟩
  | kill pid =>
    obtain ⟨ret, after, kills, kept⟩ := userSpaceProcKill_held held pid
    simp only [spaceStep]
    rw [kills]
    exact ⟨_, rfl, count, kept, rfl⟩
  | schedule => exact ⟨_, rfl, count, userSpaceSchedule_held held, rfl⟩

theorem runSpace_held {state : UserSpace × List Nat} (held : RunHeld state) (ops : List SpaceOp)
    (named : ∀ op ∈ ops, op.Named) : ∃ after, runSpace state ops = .ok after ∧ RunHeld after := by
  induction ops generalizing state with
  | nil => exact ⟨state, rfl, held⟩
  | cons op ops ih =>
    obtain ⟨middle, steps, kept⟩ := spaceStep_held held op (named op List.mem_cons_self)
    obtain ⟨after, runs, final⟩ := ih kept fun other member => named other (List.mem_cons_of_mem _ member)
    refine ⟨after, ?_, final⟩
    rw [runSpace, steps]
    exact runs

theorem userSpaceInit_held {hpr kernelMemory graphicsManager : Nat} {start : UserSpace}
    (starts : userSpaceInit hpr kernelMemory graphicsManager = some start) : RunHeld (start, []) := by
  unfold userSpaceInit at starts
  split at starts
  · cases starts
  · cases starts
    refine ⟨0, ⟨rfl, rfl, rfl, Nat.zero_le _, rfl, rfl, rfl, rfl, ?_, rfl, .inl rfl⟩, rfl⟩
    intro index inside
    cases inside

/-- After any calls the processes are the ones that were created, in a list with links
both ways, with pids of their own and with stacks and heaps apart from each other in the
window; and a creation that answers `NULL` changes nothing. -/
theorem user_space_right (hpr kernelMemory graphicsManager : Nat) (start : UserSpace)
    (starts : userSpaceInit hpr kernelMemory graphicsManager = some start) (ops : List SpaceOp)
    (named : ∀ op ∈ ops, op.Named) :
    ∃ space created, runSpace (start, []) ops = .ok (space, created) ∧ SpaceRight space created ∧
      ∀ name entryPoint after, userSpaceProcCreate space name entryPoint = .ok (0, after) → after = space := by
  obtain ⟨⟨space, created⟩, runs, count, held, rfl⟩ := runSpace_held (userSpaceInit_held starts) ops named
  exact ⟨space, _, runs, held.right, fun name entryPoint after creates => userSpaceProcCreate_null held creates⟩

/-- Two processes, the second one killed, and the scheduler twice. -/
theorem user_space_right_two :
    ∃ space created, runSpace ((userSpaceInit 0 1 1).get rfl, [])
        [.create (literal "init") 0, .create (literal "shell") 0, .kill 2, .schedule, .schedule] = .ok (space, created) ∧
      SpaceRight space created ∧
      ∀ name entryPoint after, userSpaceProcCreate space name entryPoint = .ok (0, after) → after = space :=
  user_space_right 0 1 1 _ (Option.some_get rfl).symm _ (by simp [SpaceOp.Named, literal])

section Records

variable {space : UserSpace} {home : Nat} {name : List UInt8} {entryPoint : Nat}

/-- Where the next record is made. -/
def nextRecord (space : UserSpace) : Nat := u64 (space.internalPoolBase + space.internalPoolUsed)

def PoolFull (space : UserSpace) : Prop := space.internalPoolSize < u64 (space.internalPoolUsed + userSpaceProcSize)

/-- The record of a new process, up to its link to the user space, and all that has
changed around it: the head of the list, the link back to the new head, and the counters. -/
structure RecordMade (space : UserSpace) (name : List UInt8) (entryPoint proc : Nat) (after : UserSpace) : Prop where
  terminated : Terminated (after.procs proc).name
  named : text (after.procs proc).name = name.take 63
  pid : (after.procs proc).pid = space.pidNext
  state : (after.procs proc).state = procCreated
  entry : (after.procs proc).entryPoint = entryPoint
  stackBase : (after.procs proc).stackBase = space.userSpaceUsed
  stackSize : (after.procs proc).stackSize = 16 * 1024
  heapBase : (after.procs proc).heapBase = u64 (space.userSpaceUsed + 16 * 1024)
  heapSize : (after.procs proc).heapSize = 64 * 1024
  next : (after.procs proc).next = space.ptrProcList
  others : ∀ other, other ≠ proc → after.procs other =
    { space.procs other with
      prev := if other = space.ptrProcList ∧ other ≠ 0 then proc else (space.procs other).prev }
  rest : after = { space with
    ptrProcList := proc
    internalPoolUsed := u64 (space.internalPoolUsed + userSpaceProcSize)
    pidNext := u64 (space.pidNext + 1)
    userSpaceUsed := u64 (u64 (space.userSpaceUsed + 16 * 1024) + 64 * 1024)
    procs := after.procs }

/-- A new process, from which `sys_write` gets to the graphics manager. -/
structure ProcessMade (space : UserSpace) (home : Nat) (name : List UInt8) (entryPoint proc : Nat)
    (after : UserSpace) : Prop where
  record : RecordMade space name entryPoint proc after
  userSpace : (after.procs proc).userSpace = home
  writes : sysWriteManager after home proc = .ok space.graphicsManager

/-- All stores are inside of their arrays, and a process that is returned is made as it should be. -/
structure CreatesRight (space : UserSpace) (home : Nat) (name : List UInt8) (entryPoint : Nat) : Prop where
  defined : userSpaceProcCreate space name entryPoint ≠ .error .undefined
  made : ∀ proc after, userSpaceProcCreate space name entryPoint = .ok (proc, after) → proc ≠ 0 →
    ProcessMade space home name entryPoint proc after

theorem userSpaceProcCreate_refuses (full : PoolFull space) :
    userSpaceProcCreate space name entryPoint = .ok (0, space) := by
  unfold userSpaceProcCreate
  exact if_pos full

/-- A name that does not fit its array is written over the rest of the record. -/
theorem userSpaceProcCreate_overruns (room : ¬PoolFull space) (clean : 0 ∉ name) (long : 64 ≤ name.length) :
    userSpaceProcCreate space name entryPoint = .error .undefined := by
  unfold userSpaceProcCreate
  refine (if_neg room).trans ?_
  simp only [bind, Except.bind]
  rw [strCopy_long clean long]

/-- What is set behind the `memset` is there in the end. -/
theorem recordMade_of {copied : Fin 64 → UInt8} {proc back : Nat} {procs : Nat → UserSpaceProc}
    (terminated : Terminated copied) (named : text copied = name.take 63)
    (created : procs proc = { newProc space copied entryPoint with prev := back })
    (others : ∀ other, other ≠ proc → procs other =
      { space.procs other with prev := if other = space.ptrProcList ∧ other ≠ 0 then proc else (space.procs other).prev }) :
    RecordMade space name entryPoint proc { space with
      ptrProcList := proc
      internalPoolUsed := u64 (space.internalPoolUsed + userSpaceProcSize)
      pidNext := u64 (space.pidNext + 1)
      userSpaceUsed := u64 (u64 (space.userSpaceUsed + 16 * 1024) + 64 * 1024)
      procs } := by
  constructor
  case terminated => simpa only [created, newProc] using terminated
  case named => simpa only [created, newProc] using named
  case others => exact others
  case rest => rfl
  all_goals simp only [created, newProc]

/-- The records when the head of the list is linked back to a new one. -/
def linkedBack (space : UserSpace) (proc : Nat) (created : UserSpaceProc) : Nat → UserSpaceProc := fun other =>
  let record := Function.update space.procs proc created other
  { record with prev := if other = space.ptrProcList ∧ other ≠ 0 then proc else record.prev }

theorem linkedBack_new (proc : Nat) (created : UserSpaceProc) : linkedBack space proc created proc =
    { created with prev := if proc = space.ptrProcList ∧ proc ≠ 0 then proc else created.prev } := by
  simp only [linkedBack, Function.update_self]

theorem linkedBack_other {proc other : Nat} (apart : other ≠ proc) (created : UserSpaceProc) :
    linkedBack space proc created other = { space.procs other with
      prev := if other = space.ptrProcList ∧ other ≠ 0 then proc else (space.procs other).prev } := by
  simp only [linkedBack, Function.update_of_ne apart]

theorem userSpaceProcCreate_linked (room : ¬PoolFull space) {copied : Fin 64 → UInt8}
    (copies : strCopy UserSpaceProc.zero.name name = .ok copied) : userSpaceProcCreate space name entryPoint =
      .ok (nextRecord space, { space with
        ptrProcList := nextRecord space
        internalPoolUsed := u64 (space.internalPoolUsed + userSpaceProcSize)
        pidNext := u64 (space.pidNext + 1)
        userSpaceUsed := u64 (u64 (space.userSpaceUsed + 16 * 1024) + 64 * 1024)
        procs := linkedBack space (nextRecord space) (newProc space copied entryPoint) }) := by
  unfold userSpaceProcCreate
  rw [← nextRecord]
  refine (if_neg room).trans ?_
  generalize nextRecord space = proc
  simp only [bind, Except.bind]
  rw [copies]
  simp only
  by_cases empty : space.ptrProcList = 0
  · rw [if_neg (not_not.mpr empty)]
    have same : Function.update space.procs proc (newProc space copied entryPoint) =
        linkedBack space proc (newProc space copied entryPoint) := by
      funext other
      have never : ¬(other = space.ptrProcList ∧ other ≠ 0) := fun both => both.2 (both.1.trans empty)
      simp only [linkedBack, if_neg never]
    rw [← same]
    rfl
  · rw [if_pos empty]
    have same : Function.update (Function.update space.procs proc (newProc space copied entryPoint)) space.ptrProcList
          { Function.update space.procs proc (newProc space copied entryPoint) space.ptrProcList with prev := proc } =
        linkedBack space proc (newProc space copied entryPoint) := by
      funext other
      by_cases head : other = space.ptrProcList
      · subst head
        rw [Function.update_self]
        dsimp only [linkedBack]
        rw [if_pos ⟨rfl, empty⟩]
      · rw [Function.update_of_ne head]
        simp only [linkedBack, if_neg (fun both : other = space.ptrProcList ∧ other ≠ 0 => head both.1)]
    rw [← same]
    rfl

/-- With room in the pool and in the array of the name, all of the record is made but the
link to the user space. -/
theorem userSpaceProcCreate_record (room : ¬PoolFull space) (clean : 0 ∉ name) (short : name.length < 64) :
    ∃ after, userSpaceProcCreate space name entryPoint = .ok (nextRecord space, after) ∧
      RecordMade space name entryPoint (nextRecord space) after ∧ (after.procs (nextRecord space)).userSpace = 0 := by
  obtain ⟨copied, copies⟩ := strCopy_returns UserSpaceProc.zero.name short
  have named : text copied = name.take 63 := by
    rw [(strCopy_text clean copies).2, List.take_of_length_le (by omega)]
  have terminated : Terminated copied := strCopy_short copies
  refine ⟨_, userSpaceProcCreate_linked room copies, ?_, ?_⟩
  · exact recordMade_of terminated named (linkedBack_new _ _) fun other apart => linkedBack_other apart _
  · dsimp only
    rw [linkedBack_new]
    rfl

/-- The rest of a record is as it should be when the name fits. -/
theorem process_record_iff (room : ¬PoolFull space) (clean : 0 ∉ name) :
    (∃ after, userSpaceProcCreate space name entryPoint = .ok (nextRecord space, after) ∧
      RecordMade space name entryPoint (nextRecord space) after) ↔ name.length < 64 := by
  constructor
  · rintro ⟨after, creates, -⟩
    by_contra long
    rw [userSpaceProcCreate_overruns room clean (Nat.not_lt.mp long)] at creates
    cases creates
  · intro short
    obtain ⟨after, creates, made, -⟩ := userSpaceProcCreate_record room clean short
    exact ⟨after, creates, made⟩

/-- A process is never made right: the call does its part only where the pool is full, or
where the pool lies so that the next record has the address of `NULL`. -/
theorem user_space_proc_create_iff (given : home ≠ 0) (clean : 0 ∉ name) :
    CreatesRight space home name entryPoint ↔ PoolFull space ∨ nextRecord space = 0 ∧ name.length < 64 := by
  constructor
  · intro right
    by_contra neither
    obtain ⟨room, real⟩ := not_or.mp neither
    by_cases short : name.length < 64
    · obtain ⟨after, creates, -, lost⟩ := @userSpaceProcCreate_record _ _ entryPoint room clean short
      have linked := (right.made _ _ creates fun null => real ⟨null, short⟩).userSpace
      exact given (linked.symm.trans lost)
    · exact right.defined (userSpaceProcCreate_overruns room clean (Nat.not_lt.mp short))
  · have refused (full : PoolFull space) : CreatesRight space home name entryPoint := by
      have refuses : userSpaceProcCreate space name entryPoint = .ok (0, space) := userSpaceProcCreate_refuses full
      refine ⟨by rw [refuses]; nofun, ?_⟩
      intro proc after creates real
      rw [refuses] at creates
      cases creates
      exact absurd rfl real
    rintro (full | ⟨null, short⟩)
    · exact refused full
    · by_cases full : PoolFull space
      · exact refused full
      · obtain ⟨made, creates, -⟩ := @userSpaceProcCreate_record _ _ entryPoint full clean short
        refine ⟨by rw [creates]; nofun, ?_⟩
        intro proc after creates' real
        rw [creates] at creates'
        cases creates'
        exact absurd null real

/-- The user space in front of its first process. -/
def newSpace : UserSpace := (userSpaceInit 0 1 1).get rfl

theorem user_space_proc_create_iff_first : CreatesRight newSpace ulimeStart (literal "init") 0 ↔
    PoolFull newSpace ∨ nextRecord newSpace = 0 ∧ (literal "init").length < 64 :=
  user_space_proc_create_iff (by decide) (by decide)

/-- The first process does not lead back to its user space. -/
theorem user_space_proc_create_fails : ¬∀ space home name entryPoint, home ≠ 0 → 0 ∉ name →
    CreatesRight space home name entryPoint := by
  intro right
  have room : ¬PoolFull newSpace := by
    unfold PoolFull
    decide
  obtain ⟨after, creates, -, lost⟩ :=
    @userSpaceProcCreate_record newSpace (literal "init") 0 room (by decide) (by decide)
  have linked := ((right newSpace ulimeStart (literal "init") 0 (by decide) (by decide)).made _ _ creates (by decide)).userSpace
  exact absurd (lost.symm.trans linked) (by decide)

end Records

end Kernix.Proofs
