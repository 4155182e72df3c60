import Kernix.Proofs.FsWrites

/-! The calls on an open file of tmpfs: what a read, a write and a seek return and
what they change. -/

namespace Kernix.Proofs
open ByteMemory

variable {δ : Type}

/-- The node that a descriptor in use is open on. -/
def openedNode (state : FsState δ) (fd : Fin fsMaxFds) : Nat := (state.files (state.fds fd)).node

def position (state : FsState δ) (fd : Fin fsMaxFds) : Nat := (state.files (state.fds fd)).pos

/-- Only the position of one open file changes. -/
def moveTo (state : FsState δ) (fd : Fin fsMaxFds) (pos : Nat) : FsState δ :=
  state.setFile (state.fds fd) { state.files (state.fds fd) with pos }

/-- The position that an offset of `fs_lseek` counts from; `none` for another `whence`. -/
def seekBase (state : FsState δ) (fd : Fin fsMaxFds) (whence : Int) : Option Nat :=
  if whence = seekSet then some 0
  else if whence = seekCur then some (position state fd)
  else if whence = seekEnd then some (state.nodes (openedNode state fd)).size
  else none

/-- The effect of a write that went through. -/
structure Written (before after : FsState δ) (fd : Fin fsMaxFds) (buf : List UInt8) (roles : Roles)
    (blocks' : List Block) (roles' : Roles) : Prop where
  valid : FsValid after blocks' roles'
  kept : RolesKept roles roles'
  tree : KeepsTree before after
  stored : Stored before after (before.fds fd) (openedNode before fd) buf roles

/-- Growing changes a record, not the node or the open file. -/
theorem Grown.kept {before after : FsState δ} {node data needed : Nat} {grown : Bool}
    (result : Grown before node data needed grown after) : after.nodes = before.nodes ∧ after.files = before.files := by
  cases result with
  | fits => exact ⟨rfl, rfl⟩
  | refused _ made =>
    obtain ⟨_, _, rfl⟩ := create_ok made
    exact ⟨rfl, rfl⟩
  | moved _ _ creates _ _ _ frees =>
    obtain ⟨_, _, rfl⟩ := create_ok creates
    obtain ⟨_, _, rfl⟩ := free_ok frees
    exact ⟨rfl, rfl⟩
  | fresh _ _ creates =>
    obtain ⟨_, _, rfl⟩ := create_ok creates
    exact ⟨rfl, rfl⟩

theorem RecordFound.missing {before after : FsState δ} {node data : Nat} (found : RecordFound before node data after)
    (none : data = 0) : (before.nodes node).priv = 0 := by
  cases found with
  | present given => exact none
  | refused missing => exact missing
  | fresh missing => exact missing

/-- A buffer that could not be had was needed: the file had no record, or too small a buffer. -/
theorem Grown.short {before middle after : FsState δ} {node data needed : Nat}
    (found : RecordFound before node data middle)
    (result : Grown middle node data needed false after) :
    (before.nodes node).priv = 0 ∨ (bufferOf before node).cap < needed := by
  have short : (middle.tmpfsDatas data).cap < needed := by
    cases result with
    | refused short => exact short
  cases found with
  | present given => exact Or.inr short
  | refused missing => exact Or.inl missing
  | fresh missing => exact Or.inl missing

/-- A store behind steps that no reader can tell. -/
theorem Stored.behind {before middle after : FsState δ} {address node : Nat} {buf : List UInt8} {blocks : List Block}
    {roles roles' : Roles} (unseen : Unseen before middle roles blocks roles') (live : roles node = some .node)
    (file : IsFile before node) (stored : Stored middle after address node buf roles') :
    Stored before after address node buf roles := by
  have same := unseen.files
  constructor
  · rw [stored.size, unseen.sizes, same]
  · rw [← unseen.sizes, ← unseen.contents node live file, ← same]
    exact stored.content
  · exact fun other different => (stored.others other different).trans (unseen.sizes other)
  · exact fun other different live' file' => (stored.contents other different ((unseen.kept.node other).mpr live')
      (unseen.tree.isFile.mpr file')).trans (unseen.contents other live' file')
  · rw [stored.files, same]

namespace FsValid
variable {before after : FsState δ} {blocks : List Block} {roles : Roles} {node data : Nat} {fd : Fin fsMaxFds}

/-- No file is larger than the heap. -/
theorem size_le (valid : FsValid before blocks roles) (live : roles node = some .node) (file : IsFile before node) :
    (before.nodes node).size ≤ kernelMemorySizeHeap := by
  have own := valid.files node live file
  by_cases none : (before.nodes node).priv = 0 ∨ (bufferOf before node).data = 0
  · rw [own.unbuffered none]
    exact Nat.zero_le _
  · obtain ⟨given, stored⟩ := not_or.mp none
    obtain ⟨_, width, held, wide⟩ := own.buffer given stored
    exact ((own.room given).trans wide).trans (valid.owned.small held)

theorem size_lt (valid : FsValid before blocks roles) (live : roles node = some .node) (file : IsFile before node) :
    (before.nodes node).size < 2 ^ 63 :=
  Nat.lt_of_le_of_lt (valid.size_le live file) (by decide)

theorem record_returns (valid : FsValid before blocks roles) (node : Nat) :
    ∃ data after, tmpfsRecord before node = .ok (data, after) := by
  obtain ⟨data, after, creates⟩ := valid.owned.creates tmpfsDataSize
  unfold tmpfsRecord
  split
  next =>
    rw [creates]
    dsimp only [bind, Except.bind]
    split
    · exact ⟨_, _, rfl⟩
    · exact ⟨_, _, rfl⟩
  next => exact ⟨_, _, rfl⟩

/-- The bytes of a file fit into its old buffer and into any larger one, so moving them is defined. -/
theorem grow_returns (valid : FsValid before blocks roles) {needed : Nat} (live : roles node = some .node)
    (file : IsFile before node) (record : (before.nodes node).priv = data) (given : data ≠ 0) (bound : needed < 2 ^ 64) :
    ∃ grown after, tmpfsGrow before node data needed = .ok (grown, after) := by
  have own := valid.files node live file
  have linked : (before.nodes node).priv ≠ 0 := record ▸ given
  have buffer : bufferOf before node = before.tmpfsDatas data := by rw [bufferOf, record]
  have room := own.room linked
  rw [buffer] at room
  unfold tmpfsGrow
  split
  next => exact ⟨_, _, rfl⟩
  next short =>
    obtain ⟨newData, made, creates⟩ := valid.owned.creates (pageRound needed)
    obtain ⟨memory, _, rfl⟩ := create_ok creates
    dsimp only [bind, Except.bind, pure, Except.pure]
    rw [creates]
    dsimp only
    split
    next => exact ⟨_, _, rfl⟩
    next nonzero =>
      rcases valid.create (pageRound_small needed) creates with ⟨none, _⟩ | ⟨blocks', width, allocation, unseen⟩
      · exact (nonzero none).elim
      · have wide := pageRound_given bound creates nonzero
        have fits := allocation.wide
        split
        next filled =>
          have inside : Within 0 (before.nodes node).size (before.tmpfsDatas data).cap ∧
              Within 0 (before.nodes node).size (pageRound needed) := ⟨Or.inr (by omega), Or.inr (by omega)⟩
          rw [if_neg (not_not.mpr inside)]
          obtain ⟨_, oldWidth, held, oldWide⟩ := own.buffer linked (buffer ▸ filled.1)
          rw [buffer] at held oldWide
          have different : (before.tmpfsDatas data).data ≠ newData := fun same => allocation.fresh _ (same ▸ held)
          have new : (before.nodes node).size ≤ width := by omega
          have old : (before.nodes node).size ≤ oldWidth := by omega
          obtain ⟨_, confined⟩ := unseen.valid.owned.transfer allocation.held (allocation.survives held) different new old
          obtain ⟨owned, _⟩ := unseen.valid.owned.write allocation.held confined
          obtain ⟨freed, frees⟩ := owned.frees (allocation.survives held)
          rw [frees]
          exact ⟨_, _, rfl⟩
        next => exact ⟨_, _, rfl⟩

/-- The state in front of the last part of a write: a record, and room for every byte. -/
theorem prepared (valid : FsValid before blocks roles) (used : before.fds fd ≠ 0)
    (file : IsFile before (openedNode before fd)) {middle : FsState δ} {needed : Nat} (bound : needed < 2 ^ 64)
    (found : RecordFound before (openedNode before fd) data middle) (given : data ≠ 0) {grown : Bool}
    (result : Grown middle (openedNode before fd) data needed grown after) :
    ∃ blocks' roles', Unseen before after roles blocks' roles' ∧ (after.nodes (openedNode before fd)).priv = data ∧
      (grown = true → needed ≤ (after.tmpfsDatas data).cap) := by
  have live := valid.opened fd used
  obtain ⟨blocks₁, roles₁, first, linked⟩ := valid.record live file found
  have live₁ := (first.kept.node _).mpr live
  obtain ⟨blocks₂, roles₂, second, room⟩ :=
    first.valid.grow live₁ (first.tree.isFile.mpr file) (linked given) given bound result
  refine ⟨blocks₂, roles₂, first.trans second, ?_, room⟩
  rw [result.kept.1]
  exact linked given

/-- A write to a file returns. -/
theorem write_returns (valid : FsValid before blocks roles) (used : before.fds fd ≠ 0)
    (file : IsFile before (openedNode before fd)) {buf : List UInt8} (fits : position before fd + buf.length < 2 ^ 64) :
    ∃ ret after, tmpfsWrite before (before.fds fd) buf = .ok (ret, after) := by
  have live := valid.opened fd used
  unfold position openedNode at *
  obtain ⟨data, middle, records⟩ := valid.record_returns (before.files (before.fds fd)).node
  obtain ⟨blocks₁, roles₁, first, linked⟩ := valid.record live file (tmpfsRecord_found records)
  have start := congrArg FsFile.pos (congrFun first.files (before.fds fd))
  unfold tmpfsWrite
  dsimp only
  rw [if_neg (not_not.mpr file.type), records]
  dsimp only [bind, Except.bind, pure, Except.pure]
  split
  next => exact ⟨_, _, rfl⟩
  next given =>
    have bound := u64_lt ((middle.files (before.fds fd)).pos + buf.length)
    have live₁ := (first.kept.node _).mpr live
    have file₁ := first.tree.isFile.mpr file
    obtain ⟨grown, last, grows⟩ := first.valid.grow_returns live₁ file₁ (linked given) given bound
    obtain ⟨_, _, second, room⟩ := first.valid.grow live₁ file₁ (linked given) given bound (tmpfsGrow_grown grows)
    rw [grows]
    dsimp only
    split
    next => exact ⟨_, _, rfl⟩
    next enough =>
      have large := room (by simpa using enough)
      have same := congrArg FsFile.pos (congrFun second.files (before.fds fd))
      rw [start, u64_eq fits] at large
      have inside : Within (last.files (before.fds fd)).pos buf.length (last.tmpfsDatas data).cap := Or.inr (by omega)
      rw [if_neg (not_not.mpr inside)]
      exact ⟨_, _, rfl⟩

/-- A write fails only where the heap has no room for what it needs. -/
theorem write (valid : FsValid before blocks roles) (used : before.fds fd ≠ 0)
    (file : IsFile before (openedNode before fd))
    {buf : List UInt8} {ret : Int}
    (result : tmpfsWrite before (before.fds fd) buf = .ok (ret, after)) :
    ∃ blocks' roles',
      (ret = -1 ∧ Unseen before after roles blocks' roles' ∧
        ((before.nodes (openedNode before fd)).priv = 0 ∨
          (bufferOf before (openedNode before fd)).cap < u64 (position before fd + buf.length))) ∨
      (ret = i64 buf.length ∧ Written before after fd buf roles blocks' roles') := by
  have live := valid.opened fd used
  cases tmpfsWrite_wrote result with
  | noFile other => exact (other file.type).elim
  | noRecord _ found =>
    obtain ⟨blocks', roles', unseen, _⟩ := valid.record live file found
    exact ⟨blocks', roles', Or.inl ⟨rfl, unseen, Or.inl (found.missing rfl)⟩⟩
  | @noRoom _ middle _ _ found given grown =>
    obtain ⟨blocks', roles', unseen, _⟩ := valid.prepared used file (u64_lt _) found given grown
    have short := Grown.short found grown
    rw [← grown.kept.2, unseen.files, ← position] at short
    exact ⟨blocks', roles', Or.inl ⟨rfl, unseen, short⟩⟩
  | @stored data middle last _ found given grown inside =>
    obtain ⟨blocks', roles', unseen, linked, room⟩ := valid.prepared used file (u64_lt _) found given grown
    have enough := room rfl
    have same : openedNode last fd = openedNode before fd := by
      rw [openedNode, openedNode, unseen.tree.fds, unseen.files]
    rw [← grown.kept.2, ← unseen.tree.fds] at enough
    rw [← unseen.tree.fds] at inside
    have used' : last.fds fd ≠ 0 := by rwa [unseen.tree.fds]
    have file' : IsFile last (openedNode last fd) := by
      rw [same]
      exact unseen.tree.isFile.mpr file
    have linked' : (last.nodes (openedNode last fd)).priv = data := by rwa [same]
    obtain ⟨final, stored⟩ := unseen.valid.store used' file' linked' given enough inside
    have tree := unseen.tree.trans (.store last (last.fds fd) data buf)
    rw [← openedNode, same] at stored
    rw [unseen.tree.fds] at final stored tree
    exact ⟨blocks', roles', Or.inr ⟨rfl, final, unseen.kept, tree, stored.behind unseen live file⟩⟩

theorem moveTo (valid : FsValid before blocks roles) {pos : Nat} (bound : pos < 2 ^ 64) :
    FsValid (moveTo before fd pos) blocks roles := by
  refine valid.keeps (.setFile rfl) (.refl roles) ⟨valid.owned.heap, valid.owned.live⟩ (fun node live file => ?_)
    fun other used => ?_
  · exact (valid.files node live file).transfer rfl rfl (fun _ => rfl) (fun _ used => used) (fun _ used => used)
      fun _ _ _ member => member
  · simp only [Proofs.moveTo, FsState.setFile, Function.update_apply]
    split
    · exact bound
    · exact valid.pos other used

/-- A read returns the bytes from the position on, as many as there are. -/
theorem read (valid : FsValid before blocks roles) (used : before.fds fd ≠ 0)
    (file : IsFile before (openedNode before fd))
    {cnt : Nat} (fits : (before.nodes (openedNode before fd)).size ≤ position before fd ∨
      position before fd + cnt < 2 ^ 64) :
    tmpfsRead before (before.fds fd) cnt =
      .ok (i64 (min cnt ((before.nodes (openedNode before fd)).size - position before fd)),
        ((content before (openedNode before fd)).drop (position before fd)).take cnt,
        Proofs.moveTo before fd
          (position before fd + min cnt ((before.nodes (openedNode before fd)).size - position before fd))) := by
  have live : roles (openedNode before fd) = some .node := valid.opened fd used
  have own := valid.files _ live file
  have small := valid.size_lt live file
  have length := content_length before (openedNode before fd)
  unfold tmpfsRead
  dsimp only
  rw [← openedNode, ← position, if_neg (not_not.mpr file.type)]
  have nothing (short : (before.nodes (openedNode before fd)).size ≤ position before fd) :
      (.ok (0, [], before) : Except Stop (Int × List UInt8 × FsState δ)) =
        .ok (i64 (min cnt ((before.nodes (openedNode before fd)).size - position before fd)),
          ((content before (openedNode before fd)).drop (position before fd)).take cnt,
          Proofs.moveTo before fd
            (position before fd + min cnt ((before.nodes (openedNode before fd)).size - position before fd))) := by
    have none : (content before (openedNode before fd)).drop (position before fd) = [] :=
      List.drop_eq_nil_of_le (by omega)
    rw [Nat.sub_eq_zero_of_le short, Nat.min_zero, none]
    simp [Proofs.moveTo, FsState.setFile, position, i64]
  split
  next none =>
    have empty := own.unbuffered none
    exact nothing (by omega)
  next given =>
    split
    next short => exact nothing short
    next inside =>
      have bound := fits.resolve_left inside
      have amount : (if (before.nodes (openedNode before fd)).size < u64 (position before fd + cnt) then
            u64Sub (before.nodes (openedNode before fd)).size (position before fd) else cnt) =
          min cnt ((before.nodes (openedNode before fd)).size - position before fd) := by
        rw [u64_eq bound, u64Sub_eq (by omega) (by omega)]
        split <;> omega
      obtain ⟨linked, stored⟩ := not_or.mp given
      have room := own.room linked
      have within : Within (position before fd)
          (min cnt ((before.nodes (openedNode before fd)).size - position before fd))
          (before.tmpfsDatas (before.nodes (openedNode before fd)).priv).cap := by
        rw [bufferOf] at room
        exact Or.inr (by omega)
      rw [amount, if_pos within, u64_eq (by omega)]
      have bytes : (List.range (min cnt ((before.nodes (openedNode before fd)).size - position before fd))).map
            (bytesFrom ((before.tmpfsDatas (before.nodes (openedNode before fd)).priv).data + position before fd)
              before.memory) =
          ((content before (openedNode before fd)).drop (position before fd)).take cnt := by
        apply List.ext_getElem
        · rw [List.length_map, List.length_range, List.length_take, List.length_drop, length]
        · intro index left right
          simp [content, bytesFrom, bufferOf, Nat.add_assoc]
      rw [bytes]
      rfl

end FsValid

theorem fsLseek_used {state : FsState δ} {fd : Int} {slot : Fin fsMaxFds} (place : fdSlot fd = some slot)
    (used : state.fds slot ≠ 0) (offset whence : Int) :
    fsLseek state fd offset whence =
      match seekBase state slot whence with
      | none => (-1, state)
      | some base => (i64 (u64OfInt (base + offset)), moveTo state slot (u64OfInt (base + offset))) := by
  have wrap (base : Nat) : u64 (base + u64OfInt offset) = u64OfInt (base + offset) := by
    unfold u64 u64OfInt
    omega
  have file : fsGetFile state fd = state.fds slot := by
    rw [fsGetFile, place]
  unfold fsLseek seekBase
  dsimp only
  rw [file, if_neg used]
  split
  next => simp [moveTo]
  next =>
    split
    next => simp [moveTo, position, wrap]
    next =>
      split
      next => simp [moveTo, openedNode, wrap]
      next => rfl

end Kernix.Proofs
