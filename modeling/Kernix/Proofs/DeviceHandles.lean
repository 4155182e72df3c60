import Kernix.Fs.Commands

/-! The handles of devices. A handle is kept with the node, not with the open file,
so the opens and closes of one descriptor change what another one passes on. -/

namespace Kernix.Proofs
open ByteMemory

variable {δ : Type}

/-- A call that changes the handle of a node: an open, with the handle that the hook
of the driver returned, or a close. -/
inductive HandleEvent where
  | opened (file handle : Nat)
  | closed (file : Nat)

/-- The handle that the latest event has left, if it was an open. -/
def latestHandle : List HandleEvent → Option Nat
  | .opened _ handle :: _ => some handle
  | _ => none

/-- The handle that a descriptor's own open obtained, as long as it is open. -/
def ownHandle (file : Nat) : List HandleEvent → Option Nat
  | [] => none
  | .opened other handle :: log =>
    if other = file then if handle = 0 then none else some handle else ownHandle file log
  | .closed other :: log => if other = file then none else ownHandle file log

/-- What the hook of a node returns when the node is opened. -/
def obtained (state : FsState δ) (node : Nat) : Nat :=
  match (state.devfsDatas (state.nodes node).priv).handler.bind ComponentHandler.access with
  | none => 0
  | some access => (access (text (state.nodes node).name) state.devices).1

/-- The handle that `devfs_read` and `devfs_write` pass on. -/
def passed (state : FsState δ) (file : Nat) : Nat :=
  (state.devfsDatas (state.nodes (state.files file).node).priv).handle

/-- A device node whose driver has an access hook. -/
structure Hooked (state : FsState δ) (node : Nat) : Prop where
  record : (state.nodes node).priv ≠ 0
  hook : (state.devfsDatas (state.nodes node).priv).handler.bind ComponentHandler.access ≠ none

/-- Descriptors open, read, write and close one node in any order, each with its own
record. The latest event comes first. -/
inductive HandleRun (start : FsState δ) (node : Nat) : List HandleEvent → FsState δ → Prop where
  | start : HandleRun start node [] start
  | open {log : List HandleEvent} {before : FsState δ} {file : Nat} (run : HandleRun start node log before)
      (idle : ownHandle file log = none) (place : (before.files file).node = node) :
      HandleRun start node (.opened file (obtained before node) :: log) (devfsOpen before node).2
  | close {log : List HandleEvent} {before : FsState δ} {file handle : Nat} (run : HandleRun start node log before)
      (own : ownHandle file log = some handle) : HandleRun start node (.closed file :: log) (devfsClose before file).2
  | read {log : List HandleEvent} {before : FsState δ} {file handle : Nat} (run : HandleRun start node log before)
      (own : ownHandle file log = some handle) (cnt : Nat) : HandleRun start node log (devfsRead before file cnt).2.2
  | write {log : List HandleEvent} {before : FsState δ} {file handle : Nat} (run : HandleRun start node log before)
      (own : ownHandle file log = some handle) (buf : List UInt8) : HandleRun start node log
        (devfsWrite before file buf).2

section Calls
variable {state : FsState δ} {node file : Nat}

theorem devfsRead_passed (record : (state.nodes (state.files file).node).priv ≠ 0)
    {retrieve : Nat → Nat → δ → Int × List UInt8 × δ}
    (hook : (state.devfsDatas (state.nodes (state.files file).node).priv).handler.bind
      ComponentHandler.retrieve = some retrieve) (cnt : Nat) :
    devfsRead state file cnt =
      ((retrieve (passed state file) cnt state.devices).1, (retrieve (passed state file) cnt state.devices).2.1,
        { state with devices := (retrieve (passed state file) cnt state.devices).2.2 }) := by
  unfold devfsRead passed
  rw [if_neg record, hook]

theorem devfsWrite_passed (record : (state.nodes (state.files file).node).priv ≠ 0)
    {store : Nat → List UInt8 → δ → Int × δ} (hook : (state.devfsDatas (state.nodes (state.files file).node).priv).handler.bind
      ComponentHandler.store = some store) (buf : List UInt8) :
    devfsWrite state file buf =
      ((store (passed state file) buf state.devices).1,
        { state with devices := (store (passed state file) buf state.devices).2 }) := by
  unfold devfsWrite passed
  rw [if_neg record, hook]

/-- An open leaves the handle that the hook returned, `NULL` included. -/
theorem devfsOpen_handle (hooked : Hooked state node) :
    ∃ ret devices, devfsOpen state node = (ret, { state with
      devices
      devfsDatas := Function.update state.devfsDatas (state.nodes node).priv
        { state.devfsDatas (state.nodes node).priv with handle := obtained state node } }) := by
  obtain ⟨record, hook⟩ := hooked
  unfold devfsOpen obtained
  dsimp only
  rw [if_neg record]
  cases enrolled : (state.devfsDatas (state.nodes node).priv).handler with
  | none => exact (hook (by rw [enrolled]; rfl)).elim
  | some handler =>
    rw [enrolled] at hook
    cases entry : handler.access with
    | none => exact (hook (by rw [Option.bind_some, entry])).elim
    | some access => exact ⟨_, _, by simp [FsState.setDevfsData, entry]; exact ⟨rfl, rfl⟩⟩

end Calls

/-- A state of a run: nothing but the handle and the device has changed, and the
handle is the one that the latest event has left. -/
structure Handles (start : FsState δ) (node : Nat) (log : List HandleEvent) (state : FsState δ) : Prop where
  nodes : state.nodes = start.nodes
  files : state.files = start.files
  hooked : Hooked state node
  handle : log ≠ [] → (state.devfsDatas (state.nodes node).priv).handle = (latestHandle log).getD 0
  places : ∀ file handle, ownHandle file log = some handle → (state.files file).node = node ∧ handle ≠ 0

namespace Handles
variable {start state : FsState δ} {node : Nat} {log : List HandleEvent}

/-- A device does what it likes, but the handle stays. -/
theorem devices (handles : Handles start node log state) (devices : δ) : Handles start node log { state with devices } :=
  ⟨handles.nodes, handles.files, ⟨handles.hooked.record, handles.hooked.hook⟩, handles.handle, handles.places⟩

theorem read (handles : Handles start node log state) (file cnt : Nat) :
    Handles start node log (devfsRead state file cnt).2.2 := by
  unfold devfsRead
  dsimp only
  split
  next => exact handles
  next =>
    split
    next => exact handles
    next => exact handles.devices _

theorem write (handles : Handles start node log state) (file : Nat) (buf : List UInt8) :
    Handles start node log (devfsWrite state file buf).2 := by
  unfold devfsWrite
  dsimp only
  split
  next => exact handles
  next =>
    split
    next => exact handles
    next => exact handles.devices _

/-- A new handle in the record of the node. -/
theorem setHandle (handles : Handles start node log state) (devices : δ) (handle : Nat) {event : HandleEvent}
    (left : (latestHandle (event :: log)).getD 0 = handle)
    (places : ∀ file handle, ownHandle file (event :: log) = some handle → (state.files file).node = node ∧ handle ≠ 0) :
    Handles start node (event :: log) { state with
      devices
      devfsDatas := Function.update state.devfsDatas (state.nodes node).priv
        { state.devfsDatas (state.nodes node).priv with handle } } := by
  refine ⟨handles.nodes, handles.files, ⟨handles.hooked.record, ?_⟩, fun _ => ?_, places⟩
  · simpa using handles.hooked.hook
  · simpa using left.symm

theorem «open» (handles : Handles start node log state) {file : Nat} (place : (state.files file).node = node) :
    Handles start node (.opened file (obtained state node) :: log) (devfsOpen state node).2 := by
  obtain ⟨ret, devices, opens⟩ := devfsOpen_handle handles.hooked
  rw [opens]
  refine handles.setHandle devices _ rfl fun other handle own => ?_
  unfold ownHandle at own
  split at own
  next same =>
    split at own
    next => cases own
    next given =>
      cases own
      exact ⟨same ▸ place, given⟩
  next => exact handles.places other handle own

theorem close (handles : Handles start node log state) {file handle : Nat} (own : ownHandle file log = some handle) :
    Handles start node (.closed file :: log) (devfsClose state file).2 := by
  have place := (handles.places file handle own).1
  unfold devfsClose
  dsimp only
  rw [place, if_neg handles.hooked.record]
  refine handles.setHandle state.devices 0 rfl fun other handle own => ?_
  unfold ownHandle at own
  split at own
  next => cases own
  next => exact handles.places other handle own

end Handles

theorem HandleRun.handles {start state : FsState δ} {node : Nat} {log : List HandleEvent} (hooked : Hooked start node)
    (run : HandleRun start node log state) : Handles start node log state := by
  induction run with
  | start => exact ⟨rfl, rfl, hooked, fun given => (given rfl).elim, fun _ _ own => by cases own⟩
  | «open» _ _ place ih => exact ih.open place
  | close _ own ih => exact ih.close own
  | read _ _ cnt ih => exact ih.read _ cnt
  | write _ _ buf ih => exact ih.write _ buf

theorem ownHandle_nonempty {file handle : Nat} {log : List HandleEvent} (own : ownHandle file log = some handle) :
    log ≠ [] := by
  rintro rfl
  cases own

/-- In every run a descriptor passes on the handle of its own open exactly when the
latest open or close of the node is an open that obtained that handle. -/
theorem passed_own_iff {start state : FsState δ} {node file handle : Nat} {log : List HandleEvent}
    (hooked : Hooked start node)
    (run : HandleRun start node log state) (own : ownHandle file log = some handle) :
    passed state file = handle ↔ latestHandle log = some handle := by
  have handles := run.handles hooked
  obtain ⟨place, given⟩ := handles.places file handle own
  have left := handles.handle (ownHandle_nonempty own)
  rw [passed, place, left]
  cases latestHandle log with
  | none => simp [given.symm]
  | some latest => simp

/-- A driver that counts its opens and returns the count as the handle. -/
private def countingHandler : ComponentHandler Nat :=
  ⟨literal "/dev/count", some fun _ count => (count + 1, count + 1), some fun handle _ count => (handle, [], count), none⟩

/-- A node of the counting driver at 16, and records of open files at 64 and 96. -/
private def countingFs : FsState Nat :=
  { fsStatic (fun _ => 0) 0 0 with
    nodes := fun _ => ⟨fun _ => 0, fsDev, 0, some .devfs, 32, 0, 0, 0⟩
    files := fun _ => ⟨16, 0, 0⟩
    devfsDatas := fun _ => ⟨some countingHandler, 0⟩ }

private theorem countingFs_hooked : Hooked countingFs 16 := ⟨by decide, by simp [countingFs, countingHandler]⟩

/-- The second open comes before the first descriptor reads. -/
private theorem overlapping : HandleRun countingFs 16 [.opened 96 2, .opened 64 1]
    (devfsOpen (devfsOpen countingFs 16).2 16).2 := by
  have first : HandleRun countingFs 16 [.opened 64 1] (devfsOpen countingFs 16).2 := HandleRun.start.open rfl rfl
  exact first.open rfl rfl

theorem passed_own_iff_overlapping :
    ∃ state, HandleRun countingFs 16 [.opened 96 2, .opened 64 1] state ∧
      (passed state 64 = 1 ↔ latestHandle [.opened 96 2, .opened 64 1] = some 1) :=
  ⟨_, overlapping, passed_own_iff countingFs_hooked overlapping rfl⟩

/-- The first descriptor passes on the handle that the second one obtained. -/
theorem passed_own_fails : ¬∀ (start state : FsState Nat) (node file handle : Nat)
    (log : List HandleEvent), Hooked start node →
    HandleRun start node log state → ownHandle file log = some handle → passed state file = handle := by
  intro always
  have passes := always countingFs _ 16 64 1 _ countingFs_hooked overlapping rfl
  exact absurd passes (by decide)

end Kernix.Proofs
