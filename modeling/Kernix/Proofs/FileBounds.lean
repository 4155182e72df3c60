import Kernix.Proofs.Descriptors
import Kernix.Proofs.FileModel

/-! The bytes that reads and writes touch. A seek may leave any 64-bit position
behind, and the capacity is compared with a sum that may wrap. -/

namespace Kernix.Proofs
open ByteMemory

variable {δ : Type}

/-- Every descriptor in use is on a file of tmpfs. -/
def OnTmpfs (state : FsState δ) : Prop := ∀ fd, state.fds fd ≠ 0 → IsFile state (openedNode state fd)

/-- A call that only opens files of tmpfs, on paths that fit. -/
def OnlyFiles (state : FsState δ) : FileCall → Prop
  | .open path flags => OpensFile state path flags
  | _ => True

instance (state : FsState δ) : (call : FileCall) → Decidable (OnlyFiles state call)
  | .open _ _ => by dsimp only [OnlyFiles]; infer_instance
  | .read _ _ _ => .isTrue trivial
  | .write _ _ => .isTrue trivial
  | .seek _ _ _ => .isTrue trivial
  | .close _ => .isTrue trivial

/-- The position that a seek asks for. -/
def seekTarget (state : FsState δ) (slot : Fin fsMaxFds) (offset whence : Int) : Option Int :=
  (seekBase state slot whence).map fun (base : Nat) => (base : Int) + offset

/-- What the result of a call has to be: a seek to a negative position is refused, and
what a read or a write copies lies in the file or in its buffer. -/
def Bounded (state : FsState δ) (call : FileCall) (ret : Int) (bytes : List UInt8) (after : FsState δ) : Prop :=
  match call with
  | .seek fd offset whence => ∀ slot, fdSlot fd = some slot → state.fds slot ≠ 0 →
    ∀ target ∈ seekTarget state slot offset whence, target < 0 → ret = -1 ∧ position after slot = position state slot
  | .read fd _ _ => ∀ slot, fdSlot fd = some slot → state.fds slot ≠ 0 → ∀ index < bytes.length,
    position state slot + index < (state.nodes (openedNode state slot)).size
  | .write fd buf => ∀ slot, fdSlot fd = some slot → state.fds slot ≠ 0 → ret ≠ -1 → ∀ index < buf.length,
    position state slot + index < (bufferOf after (openedNode state slot)).cap
  | _ => True

/-- A call returns and keeps to its bounds. -/
def InBounds (state : FsState δ) (call : FileCall) : Prop :=
  match call.run state with
  | .ok (ret, bytes, after) => Bounded state call ret bytes after
  | .error _ => False

instance (state : FsState δ) (ret : Int) (bytes : List UInt8) (after : FsState δ) :
    (call : FileCall) → Decidable (Bounded state call ret bytes after)
  | .open _ _ => .isTrue trivial
  | .read _ _ _ => by dsimp only [Bounded]; infer_instance
  | .write _ _ => by dsimp only [Bounded]; infer_instance
  | .seek _ _ _ => by dsimp only [Bounded]; infer_instance
  | .close _ => .isTrue trivial

instance (state : FsState δ) (call : FileCall) : Decidable (InBounds state call) := by
  unfold InBounds
  split <;> infer_instance

/-- The sums of positions and counts stay below 2^64, and no seek asks for a
negative position; only from the last position can it ask for -1. -/
def Unwrapped (state : FsState δ) : FileCall → Prop
  | .open path flags => OpensFile state path flags
  | .read fd _ cnt => ∀ slot, fdSlot fd = some slot → state.fds slot ≠ 0 →
    (state.nodes (openedNode state slot)).size ≤ position state slot ∨ position state slot + cnt < 2 ^ 64
  | .write fd buf => ∀ slot, fdSlot fd = some slot → state.fds slot ≠ 0 → position state slot + buf.length < 2 ^ 64
  | .seek fd offset whence => ∀ slot, fdSlot fd = some slot → state.fds slot ≠ 0 →
    ∀ target ∈ seekTarget state slot offset whence, 0 ≤ target ∨ target = -1 ∧ position state slot = 2 ^ 64 - 1
  | .close _ => True

instance (state : FsState δ) : (call : FileCall) → Decidable (Unwrapped state call)
  | .open _ _ => by dsimp only [Unwrapped]; infer_instance
  | .read _ _ _ => by dsimp only [Unwrapped]; infer_instance
  | .write _ _ => by dsimp only [Unwrapped]; infer_instance
  | .seek _ _ _ => by dsimp only [Unwrapped]; infer_instance
  | .close _ => .isTrue trivial

namespace FsValid
variable {before after : FsState δ} {blocks : List Block} {roles : Roles} {fd ret : Int}

/-- A move of a position leaves every descriptor on its node. -/
theorem moveTo_onTmpfs (tmpfs : OnTmpfs before) (slot : Fin fsMaxFds) (pos : Nat) :
    OnTmpfs (Proofs.moveTo before slot pos) := by
  intro fd used
  have same : openedNode (Proofs.moveTo before slot pos) fd = openedNode before fd := by
    simp only [openedNode, Proofs.moveTo, FsState.setFile, Function.update_apply]
    split
    next same => rw [same]
    next => rfl
  rw [same]
  exact ⟨(tmpfs fd used).ops, (tmpfs fd used).type⟩

/-- Descriptors stay on files of tmpfs. -/
theorem onTmpfs (valid : FsValid before blocks roles) (tmpfs : OnTmpfs before) {call : FileCall}
    (only : OnlyFiles before call) {bytes : List UInt8} (result : call.run before = .ok (ret, bytes, after)) :
    OnTmpfs after := by
  cases call with
  | «open» path flags =>
    obtain ⟨⟨ret, after⟩, opens, same⟩ := map_ok result
    cases same
    obtain ⟨outcome, _, _, _, aside⟩ := valid.opened_valid (fsOpen_opened opens)
    have old {fd : Fin fsMaxFds} (used : before.fds fd ≠ 0) : IsFile after (openedNode after fd) := by
      obtain ⟨fds, record⟩ := valid.open_spares opens used
      rw [openedNode, fds, record]
      exact (aside.kinds _ (valid.opened fd used)).mpr (tmpfs fd used)
    intro fd used
    rcases outcome with ⟨_, fds⟩ | ⟨slot, file, node, rfl, new⟩
    · exact old (fds ▸ used)
    · by_cases equal : fd = slot
      · rw [equal]
        exact only.file opens (fdSlot_self slot)
      · rw [new.fds, Function.update_of_ne equal] at used
        exact old used
  | read fd buf cnt =>
    by_cases unused : fsGetFile before fd = 0
    · simp only [FileCall.run, fsRead, unused, if_true] at result
      cases result
      exact tmpfs
    · obtain ⟨slot, place, found⟩ := fsGetFile_used unused
      have ops := (tmpfs slot (found ▸ unused)).ops
      simp only [FileCall.run, fsRead, if_neg unused] at result
      rw [found, ← openedNode, ops] at result
      rcases tmpfsRead_moves result with rfl | ⟨pos, _, rfl⟩
      · exact tmpfs
      · exact moveTo_onTmpfs tmpfs slot pos
  | write fd buf =>
    obtain ⟨⟨_, _⟩, writes, same⟩ := map_ok result
    cases same
    have tree := KeepsTree.fsWrite writes
    intro fd used
    rw [openedNode, tree.fileNode, tree.fds]
    exact tree.isFile.mpr (tmpfs fd (tree.fds ▸ used))
  | seek fd offset whence =>
    cases result
    by_cases unused : fsGetFile before fd = 0
    · simp only [fsLseek, unused, if_true]
      exact tmpfs
    · obtain ⟨slot, place, found⟩ := fsGetFile_used unused
      rw [fsLseek_used place (found ▸ unused)]
      split
      · exact tmpfs
      · exact moveTo_onTmpfs tmpfs slot _
  | close fd =>
    obtain ⟨⟨_, _⟩, closes, same⟩ := map_ok result
    cases same
    by_cases unused : fsGetFile before fd = 0
    · cases (fsClose_unused unused).symm.trans closes
      exact tmpfs
    · obtain ⟨slot, place, found⟩ := fsGetFile_used unused
      obtain ⟨after', closes', fds, _, valid', aside⟩ := valid.close place (found ▸ unused)
      cases closes'.symm.trans closes
      intro other used
      have different : other ≠ slot := by
        rintro rfl
        rw [fds, Function.update_self] at used
        exact used rfl
      rw [fds, Function.update_of_ne different] at used
      obtain ⟨_, record⟩ := valid.close_spares closes' used fun same => different
        (Option.some_inj.mp (same.symm.trans place))
      have live : roles.drop (before.fds slot) (openedNode before other) = some .node := by
        rw [Roles.drop_other]
        · exact valid.opened other used
        · intro same
          have clash := (valid.opened other used).symm.trans (same ▸ valid.table slot (found ▸ unused))
          cases clash
      rw [openedNode, fds, Function.update_of_ne different, record]
      exact (aside.kinds _ live).mpr ⟨(tmpfs other used).ops, (tmpfs other used).type⟩

/-- A call whose sums stay below 2^64 keeps to its bounds. -/
theorem inBounds (valid : FsValid before blocks roles) (tmpfs : OnTmpfs before) {call : FileCall}
    (unwrapped : Unwrapped before call) : InBounds before call := by
  cases call with
  | «open» path flags =>
    obtain ⟨fd, after, opens⟩ := valid.fsOpen_returns fun asked => unwrapped.splits asked
    simp only [InBounds, FileCall.run, opens, Except.map]
    trivial
  | read fd buf cnt =>
    by_cases unused : fsGetFile before fd = 0
    · simp [InBounds, FileCall.run, fsRead, unused, Bounded]
    · obtain ⟨slot, place, found⟩ := fsGetFile_used unused
      have used := found ▸ unused
      have file := tmpfs slot used
      have reads := valid.read used file (unwrapped slot place used)
      have result : (FileCall.read fd buf cnt).run before = tmpfsRead before (before.fds slot) cnt := by
        simp only [FileCall.run, fsRead, found, if_neg used]
        rw [← openedNode, file.ops]
      unfold InBounds
      rw [result, reads]
      intro other place' _ index inside
      cases place.symm.trans place'
      rw [List.length_take, List.length_drop, content_length] at inside
      omega
  | write fd buf =>
    by_cases unused : fsGetFile before fd = 0
    · simp [InBounds, FileCall.run, fsWrite, unused, Bounded, Except.map]
    · obtain ⟨slot, place, found⟩ := fsGetFile_used unused
      have used := found ▸ unused
      have file := tmpfs slot used
      have fits := unwrapped slot place used
      obtain ⟨ret, after, writes⟩ := valid.write_returns used file fits
      have result : (FileCall.write fd buf).run before = .ok (ret, [], after) := by
        simp only [FileCall.run, fsWrite, found, if_neg used]
        rw [← openedNode, file.ops]
        dsimp only
        rw [writes]
        rfl
      unfold InBounds
      rw [result]
      intro other place' _ returned index inside
      cases place.symm.trans place'
      obtain ⟨blocks', roles', ⟨failed, _⟩ | ⟨_, written⟩⟩ := valid.write used file writes
      · exact (returned failed).elim
      · have live := (written.kept.node _).mpr (valid.opened slot used)
        have own := written.valid.files _ live (written.tree.isFile.mpr file)
        have size := written.stored.size
        rw [← position, u64_eq fits] at size
        have large : position before slot + buf.length ≤ (after.nodes (openedNode before slot)).size :=
          size ▸ Nat.le_max_right ..
        -- The file is not empty now, so it has a record.
        have given : (after.nodes (openedNode before slot)).priv ≠ 0 := fun none => by
          have empty : (after.nodes (openedNode before slot)).size = 0 := own.bare none
          omega
        have room := own.room given
        exact lt_of_lt_of_le (Nat.add_lt_add_left inside _) (large.trans room)
  | seek fd offset whence =>
    intro slot place used target sought negative
    obtain ⟨base, found, rfl⟩ := Option.map_eq_some_iff.mp sought
    obtain ⟨last, start⟩ := (unwrapped slot place used _ sought).resolve_left (not_le.mpr negative)
    rw [fsLseek_used place used, found]
    dsimp only
    rw [last, start]
    refine ⟨by decide, ?_⟩
    simp [position, Proofs.moveTo, FsState.setFile, u64OfInt]
  | close fd =>
    by_cases unused : fsGetFile before fd = 0
    · simp [InBounds, FileCall.run, fsClose_unused unused, Except.map, Bounded]
    · obtain ⟨slot, place, found⟩ := fsGetFile_used unused
      obtain ⟨after, closes, _⟩ := valid.close place (found ▸ unused)
      simp only [InBounds, FileCall.run, closes, Except.map]
      trivial

end FsValid

/-- In every run whose sums stay below 2^64, every seek to a negative position is
refused and every byte that is copied lies in its file or in its buffer. -/
theorem file_run_bounds {start : FsState δ} {calls : List FileCall} (reached : FsReachable start) (tmpfs : OnTmpfs start)
    (unwrapped : Along Unwrapped start calls) : Along InBounds start calls := by
  induction calls generalizing start with
  | nil => trivial
  | cons call calls ih =>
    obtain ⟨blocks, roles, valid⟩ := fs_reachable_wellFormed reached
    refine ⟨valid.inBounds tmpfs unwrapped.1, ?_⟩
    have rest := unwrapped.2
    split
    next ret bytes after result =>
      rw [result] at rest
      have only : OnlyFiles start call := by
        cases call with
        | «open» => exact unwrapped.1
        | _ => trivial
      exact ih (reached.call result) (valid.onTmpfs tmpfs only result) rest
    next => trivial

/-- Skip over a part of a file and write behind it. -/
private def sparseCalls : List FileCall :=
  [.open (literal "/f") oCreat, .write 3 [1], .seek 3 5000 seekSet, .write 3 [2], .seek 3 0 seekSet, .read 3 0x1000 1]

theorem file_run_bounds_sparse : ∃ start : FsState Unit, FsReachable start ∧ Along InBounds start sparseCalls := by
  obtain ⟨start, reached, fine⟩ := rootedFs_any (fun state =>
    decide (∀ fd, state.fds fd = 0) && decide (Along Unwrapped state sparseCalls)) (by decide +kernel)
  simp only [Bool.and_eq_true, decide_eq_true_eq] at fine
  exact ⟨start, reached, file_run_bounds reached (fun fd used => (used (fine.1 fd)).elim) fine.2⟩

/-- Seek in front of the file. -/
private def negativeCalls : List FileCall := [.open (literal "/f") oCreat, .write 3 [1], .seek 3 (-1) seekSet]

/-- Seek to 2^64 - 2 in two steps and write two bytes there. -/
private def wrappingCalls : List FileCall :=
  [.open (literal "/f") oCreat, .write 3 [1], .seek 3 (2 ^ 63 - 1) seekSet, .seek 3 (2 ^ 63 - 1) seekCur, .write 3 [7, 8]]

/-- A seek to a negative position is not refused, and a write far behind the end of
a file is made although its buffer is one page. -/
theorem file_run_bounds_fail : ¬∃ calls ∈ [negativeCalls, wrappingCalls],
    ∀ start : FsState Unit, FsReachable start → OnTmpfs start → Along OnlyFiles start calls →
      Along InBounds start calls := by
  rintro ⟨calls, listed, bounds⟩
  obtain ⟨start, reached, fine⟩ := rootedFs_any (fun state => decide (∀ fd, state.fds fd = 0) &&
    [negativeCalls, wrappingCalls].all fun calls => decide (Along OnlyFiles state calls) &&
    !decide (Along InBounds state calls))
    (by decide +kernel)
  simp only [Bool.and_eq_true, List.all_eq_true, decide_eq_true_eq, Bool.not_eq_true', decide_eq_false_iff_not] at fine
  obtain ⟨only, escapes⟩ := fine.2 calls listed
  exact escapes (bounds start reached (fun fd used => (used (fine.1 fd)).elim) only)

end Kernix.Proofs
