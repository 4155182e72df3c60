import Kernix.Proofs.FsOpens

/-! Runs of the file system. Every call that returns leaves a valid state, so every
state that the kernel can reach is valid. -/

namespace Kernix.Proofs
open ByteMemory

variable {δ : Type}

/-- The calls on files. `buf` is the address of the caller's buffer. -/
inductive FileCall where
  | open (path : List UInt8) (flags : Nat)
  | read (fd : Int) (buf cnt : Nat)
  | write (fd : Int) (bytes : List UInt8)
  | seek (fd offset whence : Int)
  | close (fd : Int)

/-- The result of a call, the bytes that it read, and the state after it. -/
def FileCall.run (state : FsState δ) : FileCall → Except Stop (Int × List UInt8 × FsState δ)
  | .open path flags => (fsOpen state path flags).map fun result => (result.1, [], result.2)
  | .read fd _ cnt => fsRead state fd cnt
  | .write fd bytes => (fsWrite state fd bytes).map fun result => (result.1, [], result.2)
  | .seek fd offset whence => .ok ((fsLseek state fd offset whence).1, [], (fsLseek state fd offset whence).2)
  | .close fd => (fsClose state fd).map fun result => (result.1, [], result.2)

/-- A condition that holds of every call of a run, in the state it is made in. -/
def Along (condition : FsState δ → FileCall → Prop) (state : FsState δ) : List FileCall → Prop
  | [] => True
  | call :: calls => condition state call ∧
    match call.run state with
    | .ok (_, _, after) => Along condition after calls
    | .error _ => True

def decideAlong (condition : FsState δ → FileCall → Prop) [∀ state call, Decidable (condition state call)]
    (state : FsState δ) (calls : List FileCall) : Decidable (Along condition state calls) :=
  match calls with
  | [] => isTrue trivial
  | call :: calls =>
    match runs : call.run state with
    | .ok (_, _, after) =>
      have := decideAlong condition after calls
      decidable_of_iff (condition state call ∧ Along condition after calls) (by rw [Along, runs])
    | .error _ => decidable_of_iff (condition state call) (by rw [Along, runs, and_iff_left trivial])

instance (condition : FsState δ → FileCall → Prop) [∀ state call, Decidable (condition state call)] (state : FsState δ)
    (calls : List FileCall) : Decidable (Along condition state calls) := decideAlong condition state calls

instance (state : FsState δ) (node : Nat) : Decidable (IsFile state node) :=
  decidable_of_iff ((state.nodes node).ops = some .tmpfs ∧ (state.nodes node).type = fsFile)
    ⟨fun file => ⟨file.1, file.2⟩, fun file => ⟨file.ops, file.type⟩⟩

/-- The descriptors that a result hands out are on files of tmpfs. -/
def OnFiles (result : Except Stop (Int × FsState δ)) : Prop :=
  match result with
  | .ok (fd, after) => ∀ slot, fdSlot fd = some slot → IsFile after (openedNode after slot)
  | .error _ => True

instance (result : Except Stop (Int × FsState δ)) : Decidable (OnFiles result) :=
  match result with
  | .ok (fd, after) => inferInstanceAs (Decidable (∀ slot, fdSlot fd = some slot → IsFile after (openedNode after slot)))
  | .error _ => inferInstanceAs (Decidable True)

/-- A path that fits the arrays of `fs_open` and leads to a file of tmpfs. -/
def OpensFile (state : FsState δ) (path : List UInt8) (flags : Nat) : Prop :=
  (flags &&& oCreat ≠ 0 → (splitPath path).isOk) ∧ OnFiles (fsOpen state path flags)

instance (state : FsState δ) (path : List UInt8) (flags : Nat) : Decidable (OpensFile state path flags) := by
  unfold OpensFile
  infer_instance

theorem OpensFile.splits {state : FsState δ} {path : List UInt8} {flags : Nat} (opens : OpensFile state path flags)
    (asked : flags &&& oCreat ≠ 0) : ∃ parts, splitPath path = .ok parts := by
  have returns := opens.1 asked
  cases splits : splitPath path with
  | ok parts => exact ⟨parts, rfl⟩
  | error stop =>
    rw [splits] at returns
    cases returns

theorem OpensFile.file {state after : FsState δ} {path : List UInt8} {flags : Nat} {fd : Int} {slot : Fin fsMaxFds}
    (opens : OpensFile state path flags) (result : fsOpen state path flags = .ok (fd, after))
    (place : fdSlot fd = some slot) : IsFile after (openedNode after slot) := by
  have tmpfs := opens.2
  rw [result] at tmpfs
  exact tmpfs slot place

theorem fsGetFile_used {state : FsState δ} {fd : Int} (used : fsGetFile state fd ≠ 0) :
    ∃ slot, fdSlot fd = some slot ∧ fsGetFile state fd = state.fds slot := by
  unfold fsGetFile at *
  cases place : fdSlot fd with
  | none =>
    rw [place] at used
    exact (used rfl).elim
  | some slot => exact ⟨slot, rfl, rfl⟩

/-- A read from a file moves its position or changes nothing. -/
theorem tmpfsRead_moves {before after : FsState δ} {slot : Fin fsMaxFds} {cnt : Nat} {ret : Int} {bytes : List UInt8}
    (result : tmpfsRead before (before.fds slot) cnt = .ok (ret, bytes, after)) :
    after = before ∨ ∃ pos, pos < 2 ^ 64 ∧ after = moveTo before slot pos := by
  unfold tmpfsRead at result
  dsimp only at result
  split at result
  next =>
    cases result
    exact Or.inl rfl
  next =>
    split at result
    next =>
      cases result
      exact Or.inl rfl
    next =>
      split at result
      next =>
        cases result
        exact Or.inl rfl
      next =>
        rw [← openedNode, ← position] at result
        generalize (if (before.nodes (openedNode before slot)).size < u64 (position before slot + cnt) then
          u64Sub (before.nodes (openedNode before slot)).size (position before slot) else cnt) = toRead at result
        split at result
        next =>
          cases result
          exact Or.inr ⟨_, u64_lt _, rfl⟩
        next => cases result

namespace FsValid
variable {before after : FsState δ} {blocks : List Block} {roles : Roles} {fd : Int} {ret : Int}

/-- A read changes nothing but the position, or a device. -/
theorem fsRead_valid (valid : FsValid before blocks roles) {cnt : Nat} {bytes : List UInt8}
    (result : fsRead before fd cnt = .ok (ret, bytes, after)) : FsValid after blocks roles := by
  unfold fsRead at result
  dsimp only at result
  split at result
  next =>
    cases result
    exact valid
  next used =>
    obtain ⟨slot, place, found⟩ := fsGetFile_used used
    rw [found] at result
    split at result
    next =>
      cases result
      exact valid
    next =>
      rcases tmpfsRead_moves result with rfl | ⟨pos, bound, rfl⟩
      · exact valid
      · exact valid.moveTo bound
    next =>
      unfold devfsRead at result
      dsimp only at result
      split at result
      next =>
        cases result
        exact valid
      next =>
        split at result
        next =>
          cases result
          exact valid
        next =>
          cases result
          exact (valid.outside _ _ _ _ _).1

theorem fsWrite_valid (valid : FsValid before blocks roles) {buf : List UInt8}
    (result : fsWrite before fd buf = .ok (ret, after)) :
    ∃ blocks' roles', FsValid after blocks' roles' ∧ RolesKept roles roles' := by
  unfold fsWrite at result
  dsimp only at result
  split at result
  next =>
    cases result
    exact ⟨blocks, roles, valid, .refl roles⟩
  next used =>
    obtain ⟨slot, place, found⟩ := fsGetFile_used used
    rw [found] at result used
    split at result
    next =>
      cases result
      exact ⟨blocks, roles, valid, .refl roles⟩
    next ops =>
      by_cases type : (before.nodes (openedNode before slot)).type = fsFile
      · obtain ⟨blocks', roles', refused | written⟩ := valid.write used ⟨ops, type⟩ result
        · exact ⟨blocks', roles', refused.2.1.valid, refused.2.1.kept⟩
        · exact ⟨blocks', roles', written.2.valid, written.2.kept⟩
      · cases tmpfsWrite_wrote result with
        | noFile => exact ⟨blocks, roles, valid, .refl roles⟩
        | noRecord file => exact (type file).elim
        | noRoom file => exact (type file).elim
        | stored file => exact (type file).elim
    next =>
      unfold devfsWrite at result
      dsimp only at result
      split at result
      next =>
        cases result
        exact ⟨blocks, roles, valid, .refl roles⟩
      next =>
        split at result
        next =>
          cases result
          exact ⟨blocks, roles, valid, .refl roles⟩
        next =>
          cases result
          exact ⟨blocks, roles, (valid.outside _ _ _ _ _).1, .refl roles⟩

theorem fsLseek_valid (valid : FsValid before blocks roles) (fd offset whence : Int) :
    FsValid (fsLseek before fd offset whence).2 blocks roles := by
  by_cases used : fsGetFile before fd = 0
  · unfold fsLseek
    dsimp only
    rw [if_pos used]
    exact valid
  · obtain ⟨slot, place, found⟩ := fsGetFile_used used
    rw [fsLseek_used place (found ▸ used)]
    split
    next => exact valid
    next => exact valid.moveTo (u64OfInt_lt _)

theorem fsOpen_valid (valid : FsValid before blocks roles) {path : List UInt8} {flags : Nat}
    (result : fsOpen before path flags = .ok (ret, after)) : ∃ blocks' roles', FsValid after blocks' roles' := by
  obtain ⟨_, blocks', roles', valid', _⟩ := valid.opened_valid (fsOpen_opened result)
  exact ⟨blocks', roles', valid'⟩

theorem fsClose_valid (valid : FsValid before blocks roles) (result : fsClose before fd = .ok (ret, after)) :
    ∃ blocks' roles', FsValid after blocks' roles' := by
  by_cases used : fsGetFile before fd = 0
  · cases (fsClose_unused used).symm.trans result
    exact ⟨blocks, roles, valid⟩
  · obtain ⟨slot, place, found⟩ := fsGetFile_used used
    obtain ⟨after', closes, _, blocks', valid', _⟩ := valid.close place (found ▸ used)
    cases closes.symm.trans result
    exact ⟨blocks', _, valid'⟩

/-- A call on files that returns leaves a valid state. -/
theorem call (valid : FsValid before blocks roles) {call : FileCall} {bytes : List UInt8}
    (result : call.run before = .ok (ret, bytes, after)) : ∃ blocks' roles', FsValid after blocks' roles' := by
  cases call with
  | «open» path flags =>
    obtain ⟨⟨_, _⟩, opens, same⟩ := map_ok result
    cases same
    exact valid.fsOpen_valid opens
  | read fd buf cnt => exact ⟨blocks, roles, valid.fsRead_valid result⟩
  | write fd buf =>
    obtain ⟨⟨_, _⟩, writes, same⟩ := map_ok result
    cases same
    obtain ⟨blocks', roles', valid', _⟩ := valid.fsWrite_valid writes
    exact ⟨blocks', roles', valid'⟩
  | seek fd offset whence =>
    cases result
    exact ⟨blocks, roles, valid.fsLseek_valid fd offset whence⟩
  | close fd =>
    obtain ⟨⟨_, _⟩, closes, same⟩ := map_ok result
    cases same
    exact valid.fsClose_valid closes

end FsValid

end Kernix.Proofs
