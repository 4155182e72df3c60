import Kernix.Proofs.FsReach

/-! The table of descriptors over whole runs: which record a descriptor leads to is
a matter of the opens and closes alone. -/

namespace Kernix.Proofs
open ByteMemory

variable {δ : Type}

/-- A call that was made, what it returned, and the record that `fs_get_file` gave
for the result right after it. -/
structure FileEvent where
  call : FileCall
  ret : Int
  file : Nat

/-- The record of the latest open that returned `fd`, until `fd` is closed. The
latest event is the first of the log. -/
def holder : List FileEvent → Int → Nat
  | [], _ => 0
  | ⟨.open _ _, ret, file⟩ :: log, fd => if ret = fd then file else holder log fd
  | ⟨.close closed, _, _⟩ :: log, fd => if closed = fd then 0 else holder log fd
  | _ :: log, fd => holder log fd

/-- The runs of calls from a state in which no descriptor is in use. -/
inductive FileRun (start : FsState δ) : List FileEvent → FsState δ → Prop where
  | start (empty : ∀ fd, start.fds fd = 0) : FileRun start [] start
  | call {log : List FileEvent} {before after : FsState δ} {call : FileCall} {ret : Int} {bytes : List UInt8}
      (run : FileRun start log before) (result : call.run before = .ok (ret, bytes, after)) :
      FileRun start (⟨call, ret, fsGetFile after ret⟩ :: log) after

/-- The descriptor that a call is about. -/
def FileCall.subject : FileCall → Option Int
  | .open _ _ => none
  | .read fd _ _ => some fd
  | .write fd _ => some fd
  | .seek fd _ _ => some fd
  | .close fd => some fd

theorem fdSlot_val {fd : Int} {slot : Fin fsMaxFds} (place : fdSlot fd = some slot) : fd = slot.val := by
  unfold fdSlot at place
  split at place
  next inside =>
    cases place
    simp only [Int.toNat_of_nonneg inside.1]
  next => cases place

theorem fdSlot_self (slot : Fin fsMaxFds) : fdSlot (slot.val : Int) = some slot := by simp [fdSlot]

/-- A descriptor of its own record, whatever the table was. -/
theorem fsGetFile_update {before after : FsState δ} {slot : Fin fsMaxFds} {file : Nat}
    (fds : after.fds = Function.update before.fds slot file) (fd : Int) :
    fsGetFile after fd = if fd = slot.val then file else fsGetFile before fd := by
  unfold fsGetFile
  rw [fds]
  cases place : fdSlot fd with
  | none =>
    rw [if_neg]
    rintro rfl
    rw [fdSlot_self] at place
    cases place
  | some other =>
    have value := fdSlot_val place
    simp only [Function.update_apply, value, Int.natCast_inj, Fin.val_inj]

namespace FsValid
variable {before after : FsState δ} {blocks : List Block} {roles : Roles} {fd ret : Int}

theorem getFile_inside (valid : FsValid before blocks roles) (used : fsGetFile before fd ≠ 0) : 3 ≤ fd ∧ fd ≤ 63 := by
  obtain ⟨slot, place, found⟩ := fsGetFile_used used
  have value := fdSlot_val place
  have low := valid.low slot (found ▸ used)
  have high : slot.val < 64 := slot.isLt
  omega

theorem getFile_injective (valid : FsValid before blocks roles) {other : Int} (used : fsGetFile before fd ≠ 0)
    (same : fsGetFile before fd = fsGetFile before other) : fd = other := by
  obtain ⟨slot, place, found⟩ := fsGetFile_used used
  obtain ⟨slot', place', found'⟩ := fsGetFile_used (same ▸ used)
  have equal := valid.injective (found ▸ used) (found ▸ found' ▸ same)
  rw [fdSlot_val place, fdSlot_val place', equal]

/-- A call leaves the descriptor and the record of `slot` as they are. -/
def Spares (before after : FsState δ) (slot : Fin fsMaxFds) : Prop :=
  after.fds slot = before.fds slot ∧ after.files (before.fds slot) = before.files (before.fds slot)

theorem moveTo_spares (valid : FsValid before blocks roles) {slot other : Fin fsMaxFds} (used : before.fds slot ≠ 0)
    (different : slot ≠ other) (pos : Nat) : Spares before (Proofs.moveTo before other pos) slot :=
  ⟨rfl, Function.update_of_ne (fun equal => different (valid.injective used equal)) _ _⟩

theorem read_spares (valid : FsValid before blocks roles) {cnt : Nat} {bytes : List UInt8} {slot : Fin fsMaxFds}
    (result : fsRead before fd cnt = .ok (ret, bytes, after)) (used : before.fds slot ≠ 0)
    (other : fdSlot fd ≠ some slot) :
    Spares before after slot := by
  unfold fsRead at result
  dsimp only at result
  split at result
  next =>
    cases result
    exact ⟨rfl, rfl⟩
  next open_ =>
    obtain ⟨own, place, found⟩ := fsGetFile_used open_
    have different : slot ≠ own := fun equal => other (equal ▸ place)
    rw [found] at result
    split at result
    next =>
      cases result
      exact ⟨rfl, rfl⟩
    next =>
      rcases tmpfsRead_moves result with rfl | ⟨pos, _, rfl⟩
      · exact ⟨rfl, rfl⟩
      · exact valid.moveTo_spares used different pos
    next =>
      unfold devfsRead at result
      dsimp only at result
      split at result
      next =>
        cases result
        exact ⟨rfl, rfl⟩
      next =>
        split at result
        next =>
          cases result
          exact ⟨rfl, rfl⟩
        next =>
          cases result
          exact ⟨rfl, rfl⟩

theorem write_spares (valid : FsValid before blocks roles) {buf : List UInt8} {slot : Fin fsMaxFds}
    (result : fsWrite before fd buf = .ok (ret, after)) (used : before.fds slot ≠ 0) (other : fdSlot fd ≠ some slot) :
    Spares before after slot := by
  refine ⟨congrFun (KeepsTree.fsWrite result).fds slot, ?_⟩
  unfold fsWrite at result
  dsimp only at result
  split at result
  next =>
    cases result
    rfl
  next open_ =>
    obtain ⟨own, place, found⟩ := fsGetFile_used open_
    have different : slot ≠ own := fun equal => other (equal ▸ place)
    rw [found] at result open_
    split at result
    next =>
      cases result
      rfl
    next ops =>
      by_cases type : (before.nodes (openedNode before own)).type = fsFile
      · obtain ⟨_, _, refused | written⟩ := valid.write open_ ⟨ops, type⟩ result
        · rw [refused.2.1.files]
        · rw [written.2.stored.files]
          exact Function.update_of_ne (fun equal => different (valid.injective used equal)) _ _
      · cases tmpfsWrite_wrote result with
        | noFile => rfl
        | noRecord file => exact (type file).elim
        | noRoom file => exact (type file).elim
        | stored file => exact (type file).elim
    next =>
      unfold devfsWrite at result
      dsimp only at result
      split at result
      next =>
        cases result
        rfl
      next =>
        split at result
        next =>
          cases result
          rfl
        next =>
          cases result
          rfl

theorem seek_spares (valid : FsValid before blocks roles) {slot : Fin fsMaxFds} (offset whence : Int)
    (used : before.fds slot ≠ 0) (other : fdSlot fd ≠ some slot) :
    Spares before (fsLseek before fd offset whence).2 slot := by
  by_cases unused : fsGetFile before fd = 0
  · unfold fsLseek
    dsimp only
    rw [if_pos unused]
    exact ⟨rfl, rfl⟩
  · obtain ⟨own, place, found⟩ := fsGetFile_used unused
    rw [fsLseek_used place (found ▸ unused)]
    split
    next => exact ⟨rfl, rfl⟩
    next => exact valid.moveTo_spares used (fun equal => other (equal ▸ place)) _

theorem open_spares (valid : FsValid before blocks roles) {path : List UInt8} {flags : Nat} {slot : Fin fsMaxFds}
    (result : fsOpen before path flags = .ok (ret, after)) (used : before.fds slot ≠ 0) : Spares before after slot := by
  obtain ⟨outcome, _, _, _, aside⟩ := valid.opened_valid (fsOpen_opened result)
  refine ⟨?_, aside.files _ _ (valid.table slot used)⟩
  rcases outcome with ⟨_, fds⟩ | ⟨own, _, _, _, new⟩
  · rw [fds]
  · rw [new.fds, Function.update_of_ne]
    rintro rfl
    exact used new.unused

theorem close_spares (valid : FsValid before blocks roles) {slot : Fin fsMaxFds}
    (result : fsClose before fd = .ok (ret, after)) (used : before.fds slot ≠ 0) (other : fdSlot fd ≠ some slot) :
    Spares before after slot := by
  by_cases unused : fsGetFile before fd = 0
  · cases (fsClose_unused unused).symm.trans result
    exact ⟨rfl, rfl⟩
  · obtain ⟨own, place, found⟩ := fsGetFile_used unused
    have different : slot ≠ own := fun equal => other (equal ▸ place)
    have apart : before.fds slot ≠ before.fds own := fun equal => different (valid.injective used equal)
    obtain ⟨after', closes, fds, _, _, aside⟩ := valid.close place (found ▸ unused)
    cases closes.symm.trans result
    refine ⟨?_, aside.files _ slot ?_⟩
    · rw [fds, Function.update_of_ne different]
    · rw [Roles.drop_other apart]
      exact valid.table slot used

/-- No call touches the descriptor or the record of another. -/
theorem spares (valid : FsValid before blocks roles) {call : FileCall} {bytes : List UInt8} {slot : Fin fsMaxFds}
    (result : call.run before = .ok (ret, bytes, after)) (used : before.fds slot ≠ 0)
    (other : call.subject ≠ some (slot.val : Int)) : Spares before after slot := by
  have apart {fd : Int} (subject : call.subject = some fd) : fdSlot fd ≠ some slot := fun place =>
    other (subject.trans (congrArg some (fdSlot_val place)))
  cases call with
  | «open» path flags =>
    obtain ⟨⟨_, _⟩, opens, same⟩ := map_ok result
    cases same
    exact valid.open_spares opens used
  | read fd buf cnt => exact valid.read_spares result used (apart rfl)
  | write fd buf =>
    obtain ⟨⟨_, _⟩, writes, same⟩ := map_ok result
    cases same
    exact valid.write_spares writes used (apart rfl)
  | seek fd offset whence =>
    cases result
    exact valid.seek_spares offset whence used (apart rfl)
  | close fd =>
    obtain ⟨⟨_, _⟩, closes, same⟩ := map_ok result
    cases same
    exact valid.close_spares closes used (apart rfl)

/-- Reads, writes and seeks leave the table of descriptors alone. -/
theorem fsRead_fds {cnt : Nat} {bytes : List UInt8} (result : fsRead before fd cnt = .ok (ret, bytes, after)) :
    after.fds = before.fds := by
  unfold fsRead at result
  dsimp only at result
  split at result
  next =>
    cases result
    rfl
  next used =>
    obtain ⟨slot, place, found⟩ := fsGetFile_used used
    rw [found] at result
    split at result
    next =>
      cases result
      rfl
    next =>
      rcases tmpfsRead_moves result with rfl | ⟨pos, _, rfl⟩
      · rfl
      · rfl
    next =>
      unfold devfsRead at result
      dsimp only at result
      split at result
      next =>
        cases result
        rfl
      next =>
        split at result
        next =>
          cases result
          rfl
        next =>
          cases result
          rfl

theorem fsLseek_fds (state : FsState δ) (fd offset whence : Int) :
    (fsLseek state fd offset whence).2.fds = state.fds := by
  unfold fsLseek
  dsimp only
  split
  next => rfl
  next =>
    split
    next => rfl
    next =>
      split
      next => rfl
      next =>
        split
        next => rfl
        next => rfl

end FsValid

/-- The table of descriptors as a partial injective map, and what each call does to it. -/
structure TableLaws (log : List FileEvent) (state : FsState δ) : Prop where
  getFile : ∀ fd, fsGetFile state fd = holder log fd
  inside : ∀ fd, holder log fd ≠ 0 → 3 ≤ fd ∧ fd ≤ 63
  injective : ∀ fd other, holder log fd ≠ 0 → holder log fd = holder log other → fd = other
  returns : ∀ path flags, (flags &&& oCreat ≠ 0 → ∃ parts, splitPath path = .ok parts) →
    ∃ ret after, fsOpen state path flags = .ok (ret, after)
  opens : ∀ path flags ret after, fsOpen state path flags = .ok (ret, after) →
    (ret = -1 ∧ ∀ fd, fsGetFile after fd = holder log fd) ∨
      (IsLeast {fd | 3 ≤ fd ∧ fd ≤ 63 ∧ holder log fd = 0} ret ∧ ∃ file node, file ≠ 0 ∧
        (∀ fd, holder log fd ≠ file) ∧ (∀ fd, fsGetFile after fd = if fd = ret then file else holder log fd) ∧
        fsResolve after path = .ok node ∧ after.files file = ⟨node, 0, flags⟩)
  full : (∀ fd, 3 ≤ fd → fd ≤ 63 → holder log fd ≠ 0) →
    ∀ path flags ret after, fsOpen state path flags = .ok (ret, after) → ret = -1
  unused : ∀ fd, holder log fd = 0 → fsClose state fd = .ok (-1, state)
  closes : ∀ fd, holder log fd ≠ 0 → ∃ after, fsClose state fd = .ok (0, after) ∧
    ∀ other, fsGetFile after other = if other = fd then 0 else holder log other
  others : ∀ (call : FileCall) ret bytes after fd, call.run state = .ok (ret, bytes, after) → holder log fd ≠ 0 →
    call.subject ≠ some fd → fsGetFile after fd = holder log fd ∧
      after.files (holder log fd) = state.files (holder log fd)

theorem opens_least {state after : FsState δ} {blocks : List Block} {roles : Roles} (valid : FsValid state blocks roles)
    {path : List UInt8} {flags : Nat} {ret : Int} (result : fsOpen state path flags = .ok (ret, after)) :
    (ret = -1 ∧ ∀ fd, fsGetFile after fd = fsGetFile state fd) ∨
      (IsLeast {fd | 3 ≤ fd ∧ fd ≤ 63 ∧ fsGetFile state fd = 0} ret ∧ ∃ file node, file ≠ 0 ∧
        (∀ fd, fsGetFile state fd ≠ file) ∧ (∀ fd, fsGetFile after fd = if fd = ret then file else fsGetFile state fd) ∧
        fsResolve after path = .ok node ∧ after.files file = ⟨node, 0, flags⟩) := by
  obtain ⟨outcome, _⟩ := valid.opened_valid (fsOpen_opened result)
  rcases outcome with ⟨rfl, fds⟩ | ⟨slot, file, node, rfl, new⟩
  · exact Or.inl ⟨rfl, fun fd => by rw [fsGetFile, fsGetFile, fds]⟩
  · refine Or.inr ⟨⟨⟨?_, ?_, ?_⟩, fun fd free => ?_⟩, file, node, new.given, fun fd same => ?_, fsGetFile_update new.fds,
      new.leads, new.files⟩
    · exact Int.ofNat_le.mpr new.low
    · have high : slot.val < 64 := slot.isLt
      omega
    · rw [fsGetFile, fdSlot_self]
      exact new.unused
    · obtain ⟨low, high, none⟩ := free
      by_contra early
      have place : fdSlot fd = some ⟨fd.toNat, by simp only [fsMaxFds]; omega⟩ := dif_pos (by simp only [fsMaxFds]; omega)
      rw [fsGetFile, place] at none
      exact new.first ⟨fd.toNat, by simp only [fsMaxFds]; omega⟩ (by simp only [Fin.lt_def]; omega) (by dsimp only; omega) none
    · obtain ⟨other, place, found⟩ := fsGetFile_used (same ▸ new.given)
      exact new.fresh other (found ▸ same)

/-- Every event leaves `fs_get_file` where the log says. -/
theorem FileRun.getFile {start state : FsState δ} {log : List FileEvent} (reached : FsReachable start)
    (run : FileRun start log state) : FsReachable state ∧ ∀ fd, fsGetFile state fd = holder log fd := by
  induction run with
  | start empty =>
    refine ⟨reached, fun fd => ?_⟩
    unfold fsGetFile
    split
    · exact empty _
    · rfl
  | @call log before after call ret bytes run result ih =>
    obtain ⟨early, agrees⟩ := ih
    obtain ⟨blocks, roles, valid⟩ := fs_reachable_wellFormed early
    have kept (fds : after.fds = before.fds) (fd : Int) : fsGetFile after fd = holder log fd := by
      rw [← agrees, fsGetFile, fsGetFile, fds]
    refine ⟨early.call result, fun fd => ?_⟩
    cases call with
    | «open» path flags =>
      obtain ⟨⟨_, _⟩, opens, same⟩ := map_ok result
      cases same
      unfold holder
      split
      next same => rw [same]
      next different =>
        rw [← agrees]
        rcases opens_least valid opens with ⟨_, all⟩ | ⟨_, file, _, _, _, all, _⟩
        · exact all fd
        · rw [all, if_neg (Ne.symm different)]
    | read subject buf cnt => exact kept (FsValid.fsRead_fds result) fd
    | write subject buf =>
      obtain ⟨⟨_, _⟩, writes, same⟩ := map_ok result
      cases same
      exact kept (KeepsTree.fsWrite writes).fds fd
    | seek subject offset whence =>
      cases result
      exact kept (FsValid.fsLseek_fds ..) fd
    | close closed =>
      obtain ⟨⟨_, _⟩, closes, same⟩ := map_ok result
      cases same
      unfold holder
      rw [← agrees]
      by_cases unused : fsGetFile before closed = 0
      · cases (fsClose_unused unused).symm.trans closes
        split
        next same => rw [← same, unused]
        next => rfl
      · obtain ⟨slot, place, found⟩ := fsGetFile_used unused
        obtain ⟨after', closes', fds, _⟩ := valid.close place (found ▸ unused)
        cases closes'.symm.trans closes
        rw [fsGetFile_update fds, fdSlot_val place]
        simp only [eq_comm]

/-- In every run of calls the descriptors are a partial injective map into the open
files, which opens extend at the smallest free place and closes shrink. -/
theorem descriptor_run_laws {start state : FsState δ} {log : List FileEvent} (reached : FsReachable start)
    (run : FileRun start log state) : TableLaws log state := by
  obtain ⟨reached', agrees⟩ := run.getFile reached
  obtain ⟨blocks, roles, valid⟩ := fs_reachable_wellFormed reached'
  constructor
  · exact agrees
  · intro fd used
    rw [← agrees] at used
    exact valid.getFile_inside used
  · intro fd other used same
    rw [← agrees] at used
    rw [← agrees, ← agrees] at same
    exact valid.getFile_injective used same
  · exact fun path flags fits => valid.fsOpen_returns fits
  · intro path flags ret after result
    simpa only [agrees] using opens_least valid result
  · intro full path flags ret after result
    rcases opens_least valid result with ⟨failed, _⟩ | ⟨⟨⟨low, high, free⟩, _⟩, _⟩
    · exact failed
    · rw [agrees] at free
      exact (full ret low high free).elim
  · intro fd unused
    rw [← agrees] at unused
    exact fsClose_unused unused
  · intro fd used
    rw [← agrees] at used
    obtain ⟨slot, place, found⟩ := fsGetFile_used used
    obtain ⟨after, closes, fds, _⟩ := valid.close place (found ▸ used)
    refine ⟨after, closes, fun other => ?_⟩
    rw [fsGetFile_update fds, fdSlot_val place, agrees]
  · intro call ret bytes after fd result used other
    rw [← agrees] at used
    obtain ⟨slot, place, found⟩ := fsGetFile_used used
    obtain ⟨fds, record⟩ := valid.spares result (found ▸ used) (fdSlot_val place ▸ other)
    rw [← agrees, found]
    refine ⟨?_, record⟩
    rw [fsGetFile, place]
    exact fds

/-- Make calls one after the other, as long as they return. -/
private def logCalls : List FileCall → FsState δ → List FileEvent → Option (FsState δ × List FileEvent)
  | [], state, log => some (state, log)
  | call :: calls, state, log =>
    match call.run state with
    | .ok (ret, _, after) => logCalls calls after (⟨call, ret, fsGetFile after ret⟩ :: log)
    | .error _ => none

private theorem logCalls_run {start before after : FsState δ} {calls : List FileCall} {log log' : List FileEvent}
    (run : FileRun start log before) (result : logCalls calls before log = some (after, log')) :
    FileRun start log' after := by
  induction calls generalizing before log with
  | nil =>
    cases result
    exact run
  | cons call calls ih =>
    unfold logCalls at result
    split at result
    next ret bytes middle returns => exact ih (.call run returns) result
    next => cases result

/-- Open a file twice, close the first descriptor, and open the file again. -/
private def reuseCalls : List FileCall :=
  [.open (literal "/a") oCreat, .open (literal "/a") 0, .close 3, .open (literal "/a") 0]

theorem descriptor_run_laws_reuse :
    ∃ (start state : FsState Unit) (log : List FileEvent), FsReachable start ∧ FileRun start log state ∧
      log.map FileEvent.ret = [3, 0, 4, 3] ∧ TableLaws log state := by
  obtain ⟨start, reached, fine⟩ := rootedFs_any (fun start => decide (∀ fd, start.fds fd = 0) &&
    (logCalls reuseCalls start []).any fun result => result.2.map FileEvent.ret = [3, 0, 4, 3]) (by decide +kernel)
  obtain ⟨empty, runs⟩ := (Bool.and_eq_true _ _).mp fine
  obtain ⟨⟨state, log⟩, result, rets⟩ := (Option.any_eq_true _ _).mp runs
  have run : FileRun start log state := logCalls_run (.start (of_decide_eq_true empty)) result
  exact ⟨start, state, log, reached, run, of_decide_eq_true rets, descriptor_run_laws reached run⟩

end Kernix.Proofs
