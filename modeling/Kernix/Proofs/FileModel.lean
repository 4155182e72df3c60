import Kernix.Proofs.FsReach

/-! The file calls against their purpose: every file is a list of bytes, and every
descriptor in use is a cursor into one. The calls on files of tmpfs simulate this
model, through every growth of a buffer and every allocation that fails. -/

namespace Kernix.Proofs
open ByteMemory

variable {δ : Type}

/-- What the files hold, and the file and the cursor of each descriptor in use. -/
structure Files where
  bytes : Nat → List UInt8
  cursors : Fin fsMaxFds → Option (Nat × Nat)

namespace Files

def setCursor (files : Files) (fd : Fin fsMaxFds) (cursor : Option (Nat × Nat)) : Files :=
  { files with cursors := Function.update files.cursors fd cursor }

def setBytes (files : Files) (node : Nat) (bytes : List UInt8) : Files :=
  { files with bytes := Function.update files.bytes node bytes }

/-- `fd` is a descriptor in use, open on `node` with its cursor at `pos`. -/
def Uses (files : Files) (fd : Int) (slot : Fin fsMaxFds) (node pos : Nat) : Prop :=
  fdSlot fd = some slot ∧ files.cursors slot = some (node, pos)

def Unused (files : Files) (fd : Int) : Prop := ∀ slot, fdSlot fd = some slot → files.cursors slot = none

/-- Where a seek counts from. -/
def base (files : Files) (node pos : Nat) (whence : Int) : Option Nat :=
  if whence = seekSet then some 0
  else if whence = seekCur then some pos
  else if whence = seekEnd then some (files.bytes node).length
  else none

/-- One call on the model, with its result and the bytes that it reads. `leads` is
where the paths lead. A write may find no room only when it needs some. -/
inductive Step (leads : List UInt8 → Nat) (files : Files) : FileCall → Int → List UInt8 → Files → Prop where
  | openFails {path : List UInt8} {flags : Nat} : Step leads files (.open path flags) (-1) [] files
  | opens {path : List UInt8} {flags : Nat} {slot : Fin fsMaxFds} (low : 3 ≤ slot.val)
      (unused : files.cursors slot = none) (first : ∀ earlier < slot, 3 ≤ earlier.val → files.cursors earlier ≠ none)
      (given : leads path ≠ 0) :
      Step leads files (.open path flags) slot.val [] (files.setCursor slot (some (leads path, 0)))
  | read {fd : Int} {buf cnt node pos : Nat} {slot : Fin fsMaxFds} (uses : files.Uses fd slot node pos) :
      Step leads files (.read fd buf cnt) (min cnt ((files.bytes node).length - pos) : Nat)
        (((files.bytes node).drop pos).take cnt)
        (files.setCursor slot (some (node, pos + min cnt ((files.bytes node).length - pos))))
  | readUnused {fd : Int} {buf cnt : Nat} (unused : files.Unused fd) : Step leads files (.read fd buf cnt) (-1) [] files
  | write {fd : Int} {buf : List UInt8} {node pos : Nat} {slot : Fin fsMaxFds} (uses : files.Uses fd slot node pos) :
      Step leads files (.write fd buf) buf.length []
        ((files.setBytes node (splice (files.bytes node) pos buf)).setCursor slot (some (node, pos + buf.length)))
  | noRoom {fd : Int} {buf : List UInt8} {node pos : Nat} {slot : Fin fsMaxFds} (uses : files.Uses fd slot node pos)
      (needs : files.bytes node = [] ∨ (files.bytes node).length < pos + buf.length) :
      Step leads files (.write fd buf) (-1) [] files
  | writeUnused {fd : Int} {buf : List UInt8} (unused : files.Unused fd) : Step leads files (.write fd buf) (-1) [] files
  | seek {fd offset whence : Int} {node pos start : Nat} {slot : Fin fsMaxFds} (uses : files.Uses fd slot node pos)
      (counts : files.base node pos whence = some start) :
      Step leads files (.seek fd offset whence) (i64 (u64OfInt (start + offset))) []
        (files.setCursor slot (some (node, u64OfInt (start + offset))))
  | seekNowhere {fd offset whence : Int} {node pos : Nat} {slot : Fin fsMaxFds} (uses : files.Uses fd slot node pos)
      (nowhere : files.base node pos whence = none) : Step leads files (.seek fd offset whence) (-1) [] files
  | seekUnused {fd offset whence : Int} (unused : files.Unused fd) :
      Step leads files (.seek fd offset whence) (-1) [] files
  | close {fd : Int} {node pos : Nat} {slot : Fin fsMaxFds} (uses : files.Uses fd slot node pos) :
      Step leads files (.close fd) 0 [] (files.setCursor slot none)
  | closeUnused {fd : Int} (unused : files.Unused fd) : Step leads files (.close fd) (-1) [] files

end Files

/-- A state against the model: every descriptor is open on a file of tmpfs, and the
bytes and the cursors agree. What is no file yet is empty. -/
structure Mirrors (state : FsState δ) (roles : Roles) (files : Files) : Prop where
  tmpfs : ∀ fd, state.fds fd ≠ 0 → IsFile state (openedNode state fd)
  bytes : ∀ node, roles node = some .node → IsFile state node → files.bytes node = content state node
  unborn : ∀ node, roles node ≠ some .node → files.bytes node = []
  cursors : ∀ fd, files.cursors fd =
    if state.fds fd = 0 then none else some (openedNode state fd, position state fd)

def Represents (state : FsState δ) (files : Files) : Prop :=
  ∃ blocks roles, FsValid state blocks roles ∧ Mirrors state roles files

/-- The node that a path leads to; 0 where it leads nowhere. -/
def leadsTo (state : FsState δ) (path : List UInt8) : Nat :=
  match fsResolve state path with
  | .ok node => node
  | .error _ => 0

/-- What a call is given. A path fits the arrays of `fs_open`, and it leads to a
file of tmpfs; the buffer of a read is an object apart from the one of the file; a
write starts inside the file or at its end, and it does not wrap. -/
def Permitted (state : FsState δ) : FileCall → Prop
  | .open path flags => OpensFile state path flags
  | .read fd buf cnt => ∀ slot, fdSlot fd = some slot → state.fds slot ≠ 0 →
    (state.nodes (openedNode state slot)).priv ≠ 0 →
      buf + cnt ≤ 2 ^ 64 ∧ (buf + cnt ≤ (bufferOf state (openedNode state slot)).data ∨
        (bufferOf state (openedNode state slot)).data + (bufferOf state (openedNode state slot)).cap ≤ buf)
  | .write fd buf => ∀ slot, fdSlot fd = some slot → state.fds slot ≠ 0 →
    position state slot ≤ (state.nodes (openedNode state slot)).size ∧ position state slot + buf.length < 2 ^ 64
  | .seek _ _ _ => True
  | .close _ => True

instance (state : FsState δ) : (call : FileCall) → Decidable (Permitted state call)
  | .open _ _ => by dsimp only [Permitted]; infer_instance
  | .read _ _ _ => by dsimp only [Permitted]; infer_instance
  | .write _ _ => by dsimp only [Permitted]; infer_instance
  | .seek _ _ _ => .isTrue trivial
  | .close _ => .isTrue trivial

/-- A run of the code next to a run of the model that returns the same. -/
inductive Simulated : FsState δ → Files → List FileCall → List (Int × List UInt8) → FsState δ → Files → Prop where
  | done {state : FsState δ} {files : Files} : Simulated state files [] [] state files
  | call {before middle after : FsState δ} {files files' files'' : Files} {call : FileCall} {calls : List FileCall}
      {ret : Int} {bytes : List UInt8} {results : List (Int × List UInt8)}
      (runs : call.run before = .ok (ret, bytes, middle)) (step : files.Step (leadsTo middle) call ret bytes files')
      (rest : Simulated middle files' calls results after files'') :
      Simulated before files (call :: calls) ((ret, bytes) :: results) after files''

namespace Mirrors
variable {before after : FsState δ} {blocks blocks' : List Block} {roles roles' : Roles} {files : Files} {fd : Int}
  {slot : Fin fsMaxFds}

theorem unused (mirrors : Mirrors before roles files) (none : fsGetFile before fd = 0) : files.Unused fd := by
  intro slot place
  rw [fsGetFile, place] at none
  rw [mirrors.cursors, if_pos none]

theorem uses (mirrors : Mirrors before roles files) (place : fdSlot fd = some slot) (used : before.fds slot ≠ 0) :
    files.Uses fd slot (openedNode before slot) (position before slot) := by
  refine ⟨place, ?_⟩
  rw [mirrors.cursors, if_neg used]

/-- What a descriptor in use is open on. -/
theorem opened (mirrors : Mirrors before roles files) (valid : FsValid before blocks roles) (used : before.fds slot ≠ 0) :
    IsFile before (openedNode before slot) ∧ files.bytes (openedNode before slot) =
      content before (openedNode before slot) :=
  ⟨mirrors.tmpfs slot used, mirrors.bytes _ (valid.opened slot used) (mirrors.tmpfs slot used)⟩

/-- A step beside the files changes no byte. -/
theorem beside (mirrors : Mirrors before roles files) (aside : Aside before after roles roles')
    {cursors : Fin fsMaxFds → Option (Nat × Nat)} (tmpfs : ∀ fd, after.fds fd ≠ 0 → IsFile after (openedNode after fd))
    (agree : ∀ fd, cursors fd = if after.fds fd = 0 then none else some (openedNode after fd, position after fd)) :
    Mirrors after roles' { files with cursors } := by
  refine ⟨tmpfs, fun node live file => ?_, fun node dead => ?_, agree⟩
  · by_cases old : roles node = some .node
    · have file' := (aside.kinds node old).mp file
      exact (mirrors.bytes node old file').trans (aside.contents node old file').symm
    · exact (mirrors.unborn node old).trans (aside.fresh node live old file).symm
  · exact mirrors.unborn node fun old => dead (aside.used node _ old)

/-- Descriptors that are left alone keep their file and their cursor. -/
theorem same (valid : FsValid before blocks roles) (aside : Aside before after roles roles') (used : before.fds slot ≠ 0)
    (fds : after.fds slot = before.fds slot) :
    openedNode after slot = openedNode before slot ∧ position after slot = position before slot := by
  have kept := aside.files _ _ (valid.table slot used)
  simp only [openedNode, position, fds, kept, and_self]

theorem aside (mirrors : Mirrors before roles files) (valid : FsValid before blocks roles)
    (aside : Aside before after roles roles')
    (fds : after.fds = before.fds) : Mirrors after roles' files := by
  refine mirrors.beside aside (fun fd used => ?_) fun fd => ?_
  · rw [fds] at used
    obtain ⟨node, _⟩ := same valid aside used (congrFun fds fd)
    rw [node]
    exact (aside.kinds _ (valid.opened fd used)).mpr (mirrors.tmpfs fd used)
  · rw [mirrors.cursors, fds]
    split
    next => rfl
    next used =>
      obtain ⟨node, pos⟩ := same valid aside used (congrFun fds fd)
      rw [node, pos]

/-- A new descriptor has its cursor at the start. -/
theorem descriptor (mirrors : Mirrors before roles files) (valid : FsValid before blocks roles)
    (aside : Aside before after roles roles') {path : List UInt8} {flags file node : Nat}
    (new : Descriptor before after path flags slot file node) (tmpfs : IsFile after node) :
    Mirrors after roles' (files.setCursor slot (some (node, 0))) := by
  have place : after.fds slot = file := by rw [new.fds, Function.update_self]
  have opened : openedNode after slot = node := by rw [openedNode, place, new.files]
  have start : position after slot = 0 := by rw [position, place, new.files]
  have others {other : Fin fsMaxFds} (different : other ≠ slot) : after.fds other = before.fds other := by
    rw [new.fds, Function.update_of_ne different]
  refine mirrors.beside aside (fun other used => ?_) fun other => ?_
  · by_cases equal : other = slot
    · rwa [equal, opened]
    · rw [others equal] at used
      obtain ⟨node, _⟩ := same valid aside used (others equal)
      rw [node]
      exact (aside.kinds _ (valid.opened other used)).mpr (mirrors.tmpfs other used)
  · by_cases equal : other = slot
    · rw [equal, Function.update_self, place, if_neg new.given, opened, start]
    · rw [Function.update_of_ne equal, mirrors.cursors, others equal]
      split
      next => rfl
      next used =>
        obtain ⟨node, pos⟩ := same valid aside used (others equal)
        rw [node, pos]

/-- Only the cursor of one descriptor moves. -/
theorem move (mirrors : Mirrors before roles files) (valid : FsValid before blocks roles) (used : before.fds slot ≠ 0)
    (pos : Nat) :
    Mirrors (moveTo before slot pos) roles (files.setCursor slot (some (openedNode before slot, pos))) := by
  have own : openedNode (moveTo before slot pos) slot = openedNode before slot ∧
    position (moveTo before slot pos) slot = pos := by
    simp [openedNode, position, moveTo, FsState.setFile]
  have others {other : Fin fsMaxFds} (different : other ≠ slot) (given : before.fds other ≠ 0) :
      openedNode (moveTo before slot pos) other = openedNode before other ∧
        position (moveTo before slot pos) other = position before other := by
    have apart : before.fds other ≠ before.fds slot := fun equal => different (valid.injective given equal)
    simp [openedNode, position, moveTo, FsState.setFile, Function.update_of_ne apart]
  refine ⟨fun other given => ?_, fun node live file => mirrors.bytes node live ⟨file.ops, file.type⟩, mirrors.unborn,
    fun other => ?_⟩
  · by_cases equal : other = slot
    · rw [equal, own.1]
      exact ⟨(mirrors.tmpfs slot used).ops, (mirrors.tmpfs slot used).type⟩
    · rw [(others equal given).1]
      exact ⟨(mirrors.tmpfs other given).ops, (mirrors.tmpfs other given).type⟩
  · by_cases equal : other = slot
    · rw [equal, own.1, own.2]
      show Function.update files.cursors slot _ slot = if before.fds slot = 0 then _ else _
      rw [Function.update_self, if_neg used]
    · show Function.update files.cursors slot _ other = if before.fds other = 0 then _ else _
      rw [Function.update_of_ne equal, mirrors.cursors]
      split
      next => rfl
      next given => rw [(others equal given).1, (others equal given).2]

/-- Steps that no reader can tell leave the model as it is. -/
theorem unseen (mirrors : Mirrors before roles files) (unseen : Unseen before after roles blocks' roles') :
    Mirrors after roles' files := by
  have same (fd : Fin fsMaxFds) : openedNode after fd = openedNode before fd ∧
    position after fd = position before fd := by
    simp only [openedNode, position, unseen.tree.fds, unseen.files, and_self]
  refine ⟨fun fd used => ?_, fun node live file => ?_, fun node dead => ?_, fun fd => ?_⟩
  · rw [unseen.tree.fds] at used
    rw [(same fd).1]
    exact unseen.tree.isFile.mpr (mirrors.tmpfs fd used)
  · have live' := (unseen.kept.node node).mp live
    have file' := unseen.tree.isFile.mp file
    exact (mirrors.bytes node live' file').trans (unseen.contents node live' file').symm
  · exact mirrors.unborn node fun live => dead ((unseen.kept.node node).mpr live)
  · rw [mirrors.cursors, (same fd).1, (same fd).2, unseen.tree.fds]

/-- A write that went through splices its bytes into one file. -/
theorem written (mirrors : Mirrors before roles files) (valid : FsValid before blocks roles) (used : before.fds slot ≠ 0)
    {buf : List UInt8} (written : Written before after slot buf roles blocks' roles')
    (start : position before slot ≤ (before.nodes (openedNode before slot)).size)
    (fits : position before slot + buf.length < 2 ^ 64) :
    Mirrors after roles' ((files.setBytes (openedNode before slot)
      (splice (files.bytes (openedNode before slot)) (position before slot) buf)).setCursor slot
        (some (openedNode before slot, position before slot + buf.length))) := by
  have stored := written.stored
  have tree := written.tree
  have opened (fd : Fin fsMaxFds) : openedNode after fd = openedNode before fd := by
    rw [openedNode, openedNode, tree.fds, tree.fileNode]
  have own : position after slot = position before slot + buf.length := by
    rw [position, tree.fds, stored.files, Function.update_self]
    exact u64_eq fits
  have others {fd : Fin fsMaxFds} (different : fd ≠ slot) (given : before.fds fd ≠ 0) :
      position after fd = position before fd := by
    have apart : before.fds fd ≠ before.fds slot := fun equal => different (valid.injective given equal)
    rw [position, tree.fds, stored.files, Function.update_of_ne apart, position]
  refine ⟨fun fd given => ?_, fun node live file => ?_, fun node dead => ?_, fun fd => ?_⟩
  · rw [tree.fds] at given
    rw [opened]
    exact tree.isFile.mpr (mirrors.tmpfs fd given)
  · have live' := (written.kept.node node).mp live
    have file' := tree.isFile.mp file
    by_cases equal : node = openedNode before slot
    · subst equal
      show Function.update files.bytes _ _ _ = _
      rw [Function.update_self, mirrors.bytes _ live' file']
      exact (stored.content start).symm
    · show Function.update files.bytes _ _ _ = _
      rw [Function.update_of_ne equal, mirrors.bytes node live' file']
      exact (stored.contents node equal live' file').symm
  · have dead' : roles node ≠ some .node := fun live => dead ((written.kept.node node).mpr live)
    have apart : node ≠ openedNode before slot := by
      rintro rfl
      exact dead' (valid.opened slot used)
    show Function.update files.bytes _ _ _ = _
    rw [Function.update_of_ne apart]
    exact mirrors.unborn node dead'
  · rw [tree.fds, opened]
    by_cases equal : fd = slot
    · rw [equal, own, if_neg used]
      exact Function.update_self ..
    · show Function.update files.cursors _ _ _ = _
      rw [Function.update_of_ne equal, mirrors.cursors]
      split
      next => rfl
      next given => rw [others equal given]

/-- A closed descriptor has no cursor. -/
theorem leave (mirrors : Mirrors before roles files) (valid : FsValid before blocks roles) (used : before.fds slot ≠ 0) :
    Mirrors (before.setFd slot 0) (roles.drop (before.fds slot)) (files.setCursor slot none) := by
  have own := valid.table slot used
  have node {place : Nat} : roles.drop (before.fds slot) place = some .node ↔ roles place = some .node := by
    simp only [Roles.drop, Function.update_apply]
    split
    next same =>
      rw [same, own]
      simp
    next => exact Iff.rfl
  have others {fd : Fin fsMaxFds} (different : fd ≠ slot) : (before.setFd slot 0).fds fd = before.fds fd :=
    Function.update_of_ne different _ _
  have gone : (before.setFd slot 0).fds slot = 0 := Function.update_self ..
  refine ⟨fun fd given => ?_, fun place live file => ?_, fun place dead => ?_, fun fd => ?_⟩
  · have different : fd ≠ slot := by
      rintro rfl
      exact given gone
    rw [others different] at given
    have same : openedNode (before.setFd slot 0) fd = openedNode before fd := by
      rw [openedNode, others different]
      rfl
    rw [same]
    exact ⟨(mirrors.tmpfs fd given).ops, (mirrors.tmpfs fd given).type⟩
  · exact mirrors.bytes place (node.mp live) ⟨file.ops, file.type⟩
  · exact mirrors.unborn place fun live => dead (node.mpr live)
  · by_cases equal : fd = slot
    · rw [equal, gone, if_pos rfl]
      exact Function.update_self ..
    · show Function.update files.cursors slot none fd = _
      rw [Function.update_of_ne equal, mirrors.cursors, openedNode, position, openedNode, position, others equal]
      rfl

end Mirrors

/-- One call on a represented state returns what the model says. -/
def Simulates (state : FsState δ) (files : Files) (call : FileCall) : Prop :=
  ∃ ret bytes after files', call.run state = .ok (ret, bytes, after) ∧ files.Step (leadsTo after) call ret bytes files' ∧
    Represents after files'

section Steps
variable {before : FsState δ} {blocks : List Block} {roles : Roles} {files : Files}

private theorem simulates_open (valid : FsValid before blocks roles) (mirrors : Mirrors before roles files)
    {path : List UInt8}
    {flags : Nat} (permitted : Permitted before (.open path flags)) : Simulates before files (.open path flags) := by
  obtain ⟨ret, after, opens⟩ := valid.fsOpen_returns permitted.splits
  obtain ⟨outcome, blocks', roles', valid', aside⟩ := valid.opened_valid (fsOpen_opened opens)
  have runs : FileCall.run before (.open path flags) = .ok (ret, [], after) := by
    simp only [FileCall.run, opens]
    rfl
  rcases outcome with ⟨rfl, fds⟩ | ⟨slot, file, node, rfl, new⟩
  · exact ⟨-1, [], after, files, runs, .openFails, blocks', roles', valid', mirrors.aside valid aside fds⟩
  · have leads : leadsTo after path = node := by rw [leadsTo, new.leads]
    have place : fdSlot (slot.val : Int) = some slot := by simp [fdSlot]
    have file' : IsFile after node := by
      have opened := permitted.file opens place
      rwa [openedNode, new.fds, Function.update_self, new.files] at opened
    refine ⟨slot.val, [], after, files.setCursor slot (some (node, 0)), runs, ?_, blocks', roles', valid',
      mirrors.descriptor valid aside new file'⟩
    rw [← leads]
    refine .opens new.low ?_ (fun earlier early low => ?_) (leads.symm ▸ new.nonzero)
    · rw [mirrors.cursors, if_pos new.unused]
    · rw [mirrors.cursors, if_neg (new.first earlier early low)]
      exact Option.some_ne_none _

/-- A buffer of the caller that is apart from the one of the file cannot make the end of a read wrap. -/
private theorem read_fits (valid : FsValid before blocks roles) {fd : Int} {slot : Fin fsMaxFds} {buf cnt : Nat}
    (place : fdSlot fd = some slot) (used : before.fds slot ≠ 0) (file : IsFile before (openedNode before slot))
    (permitted : Permitted before (.read fd buf cnt)) :
    (before.nodes (openedNode before slot)).size ≤ position before slot ∨ position before slot + cnt < 2 ^ 64 := by
  by_contra outside
  obtain ⟨inside, wraps⟩ := not_or.mp outside
  have own := valid.files _ (valid.opened slot used) file
  have none : ¬((before.nodes (openedNode before slot)).priv = 0 ∨ (bufferOf before (openedNode before slot)).data = 0) :=
    fun none => by
      have empty : (before.nodes (openedNode before slot)).size = 0 := own.unbuffered none
      omega
  obtain ⟨linked, stored⟩ := not_or.mp none
  have room : (before.nodes (openedNode before slot)).size ≤ (bufferOf before (openedNode before slot)).cap :=
    own.room linked
  obtain ⟨_, width, held, wide⟩ := own.buffer linked stored
  have bound := valid.owned.inside held
  rw [← openedNode] at bound wide
  obtain ⟨top, apart⟩ := permitted slot place used linked
  omega

private theorem simulates_read (valid : FsValid before blocks roles) (mirrors : Mirrors before roles files) {fd : Int}
    {buf cnt : Nat} (permitted : Permitted before (.read fd buf cnt)) : Simulates before files (.read fd buf cnt) := by
  by_cases unused : fsGetFile before fd = 0
  · refine ⟨-1, [], before, files, ?_, .readUnused (mirrors.unused unused), blocks, roles, valid, mirrors⟩
    simp only [FileCall.run, fsRead, unused, if_true]
  · obtain ⟨slot, place, found⟩ := fsGetFile_used unused
    have used : before.fds slot ≠ 0 := found ▸ unused
    obtain ⟨file, bytes⟩ := mirrors.opened valid used
    have reads := valid.read used file (read_fits valid place used file permitted)
    have small : (before.nodes (openedNode before slot)).size < 2 ^ 63 := valid.size_lt (valid.opened slot used) file
    have bound : position before slot < 2 ^ 64 := valid.pos slot used
    have length : (files.bytes (openedNode before slot)).length = (before.nodes (openedNode before slot)).size := by
      rw [bytes, content_length]
    rw [← bytes, ← length, i64_eq (by omega)] at reads
    refine ⟨_, _, _, _, ?_, .read (mirrors.uses place used), blocks, roles, valid.moveTo (by omega),
      mirrors.move valid used _⟩
    simp only [FileCall.run, fsRead, found, if_neg used]
    rw [← openedNode, file.ops]
    exact reads

private theorem simulates_write (valid : FsValid before blocks roles) (mirrors : Mirrors before roles files) {fd : Int}
    {buf : List UInt8} (permitted : Permitted before (.write fd buf)) : Simulates before files (.write fd buf) := by
  by_cases unused : fsGetFile before fd = 0
  · refine ⟨-1, [], before, files, ?_, .writeUnused (mirrors.unused unused), blocks, roles, valid, mirrors⟩
    simp only [FileCall.run, fsWrite, unused, if_true]
    rfl
  · obtain ⟨slot, place, found⟩ := fsGetFile_used unused
    have used : before.fds slot ≠ 0 := found ▸ unused
    obtain ⟨file, bytes⟩ := mirrors.opened valid used
    obtain ⟨start, fits⟩ := permitted slot place used
    obtain ⟨ret, after, writes⟩ := valid.write_returns used file fits
    have runs : FileCall.run before (.write fd buf) = .ok (ret, [], after) := by
      simp only [FileCall.run, fsWrite, found, if_neg used]
      rw [← openedNode, file.ops]
      dsimp only
      rw [writes]
      rfl
    have own := valid.files _ (valid.opened slot used) file
    have length : (files.bytes (openedNode before slot)).length = (before.nodes (openedNode before slot)).size := by
      rw [bytes, content_length]
    obtain ⟨blocks', roles', ⟨rfl, unseen, short⟩ | ⟨rfl, written⟩⟩ := valid.write used file writes
    · refine ⟨-1, [], after, files, runs, .noRoom (mirrors.uses place used) ?_, blocks', roles', unseen.valid,
        mirrors.unseen unseen⟩
      rw [u64_eq fits] at short
      rcases short with missing | small
      · exact Or.inl (List.eq_nil_of_length_eq_zero (length.trans (own.bare missing)))
      · by_cases linked : (before.nodes (openedNode before slot)).priv = 0
        · exact Or.inl (List.eq_nil_of_length_eq_zero (length.trans (own.bare linked)))
        · have room : (before.nodes (openedNode before slot)).size ≤ (bufferOf before (openedNode before slot)).cap :=
            own.room linked
          exact Or.inr (by omega)
    · have live' : roles' (openedNode before slot) = some .node := (written.kept.node _).mpr (valid.opened slot used)
      have small := written.valid.size_lt live' (written.tree.isFile.mpr file)
      have size := written.stored.size
      rw [← position, u64_eq fits] at size
      rw [i64_eq (by omega)] at runs
      exact ⟨_, _, _, _, runs, .write (mirrors.uses place used), blocks', roles', written.valid,
        mirrors.written valid used written start fits⟩

private theorem simulates_seek (valid : FsValid before blocks roles) (mirrors : Mirrors before roles files)
    (fd offset whence : Int) : Simulates before files (.seek fd offset whence) := by
  by_cases unused : fsGetFile before fd = 0
  · refine ⟨-1, [], before, files, ?_, .seekUnused (mirrors.unused unused), blocks, roles, valid, mirrors⟩
    simp only [FileCall.run, fsLseek, unused, if_true]
  · obtain ⟨slot, place, found⟩ := fsGetFile_used unused
    have used : before.fds slot ≠ 0 := found ▸ unused
    obtain ⟨file, bytes⟩ := mirrors.opened valid used
    have bases : files.base (openedNode before slot) (position before slot) whence = seekBase before slot whence := by
      rw [Files.base, seekBase, bytes, content_length]
    have seeks := fsLseek_used place used offset whence
    have bound (start : Nat) : u64OfInt (start + offset) < 2 ^ 64 := u64OfInt_lt _
    cases counts : seekBase before slot whence with
    | none =>
      rw [counts] at seeks
      refine ⟨-1, [], before, files, ?_, .seekNowhere (mirrors.uses place used) (bases.trans counts), blocks, roles,
        valid, mirrors⟩
      simp only [FileCall.run, seeks]
    | some start =>
      rw [counts] at seeks
      refine ⟨_, _, _, _, ?_, .seek (mirrors.uses place used) (bases.trans counts), blocks, roles,
        valid.moveTo (bound start),
        mirrors.move valid used _⟩
      simp only [FileCall.run, seeks]

private theorem simulates_close (valid : FsValid before blocks roles) (mirrors : Mirrors before roles files) (fd : Int) :
    Simulates before files (.close fd) := by
  by_cases unused : fsGetFile before fd = 0
  · refine ⟨-1, [], before, files, ?_, .closeUnused (mirrors.unused unused), blocks, roles, valid, mirrors⟩
    simp only [FileCall.run, fsClose_unused unused]
    rfl
  · obtain ⟨slot, place, found⟩ := fsGetFile_used unused
    have used : before.fds slot ≠ 0 := found ▸ unused
    obtain ⟨after, closes, fds, blocks', valid', aside⟩ := valid.close place used
    refine ⟨0, [], after, _, ?_, .close (mirrors.uses place used), blocks', _, valid',
      (mirrors.leave valid used).aside (valid.leave used) aside fds⟩
    simp only [FileCall.run, closes]
    rfl

end Steps

/-- One permitted call. -/
theorem simulates {before : FsState δ} {files : Files} {call : FileCall} (represents : Represents before files)
    (permitted : Permitted before call) : Simulates before files call := by
  obtain ⟨blocks, roles, valid, mirrors⟩ := represents
  cases call with
  | «open» path flags => exact simulates_open valid mirrors permitted
  | read fd buf cnt => exact simulates_read valid mirrors permitted
  | write fd buf => exact simulates_write valid mirrors permitted
  | seek fd offset whence => exact simulates_seek valid mirrors fd offset whence
  | close fd => exact simulates_close valid mirrors fd

theorem simulated {start : FsState δ} {files : Files} {calls : List FileCall} (represents : Represents start files)
    (permitted : Along Permitted start calls) :
    ∃ results final files', Simulated start files calls results final files' ∧ Represents final files' := by
  induction calls generalizing start files with
  | nil => exact ⟨[], start, files, .done, represents⟩
  | cons call calls ih =>
    obtain ⟨here, later⟩ := permitted
    obtain ⟨ret, bytes, middle, files', runs, step, represents'⟩ := simulates represents here
    rw [runs] at later
    obtain ⟨results, final, files'', rest, last⟩ := ih represents' later
    exact ⟨(ret, bytes) :: results, final, files'', .call runs step rest, last⟩

/-- A well-formed state stands for what its files hold. -/
theorem represented {state : FsState δ} (wellFormed : WellFormed state)
    (tmpfs : ∀ fd, state.fds fd ≠ 0 → IsFile state (openedNode state fd)) : ∃ files, Represents state files := by
  obtain ⟨blocks, roles, valid⟩ := wellFormed
  refine ⟨⟨fun node => if roles node = some .node then content state node else [],
    fun fd => if state.fds fd = 0 then none else some (openedNode state fd, position state fd)⟩, blocks, roles, valid,
      tmpfs,
    fun node live _ => if_pos live, fun node dead => if_neg dead, fun _ => rfl⟩

/-- Create a file, write into it, write over a part of it, and read it back. -/
private def noteCalls : List FileCall :=
  [.open (literal "/notes") oCreat, .write 3 (literal "hello"), .seek 3 1 seekSet, .write 3 (literal "EY"),
    .seek 3 0 seekSet, .read 3 0x1000 10, .close 3]

end Kernix.Proofs
