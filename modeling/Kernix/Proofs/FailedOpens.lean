import Kernix.Proofs.FsReach

/-! An open that fails. Up to the search for the node nothing is lost, but a file that
was created for the path stays, and so does the handle of a device when the descriptors
are used up. -/

namespace Kernix.Proofs
open ByteMemory

variable {δ : Type} {before after : FsState δ} {blocks : List Block} {roles : Roles} {path : List UInt8} {flags : Nat}

/-- Nothing is left of an open: the trees, the descriptors and the live blocks are as before,
and no device has a handle that it did not have. -/
structure OpenUndone (before : FsState δ) (blocks : List Block) (after : FsState δ) : Prop where
  nodes : after.nodes = before.nodes
  mnts : after.mnts = before.mnts
  fds : after.fds = before.fds
  live : ∃ blocks' roles, FsValid after blocks' roles ∧ (liveEntries after blocks').Perm (liveEntries before blocks)
  handles : ∀ dev, (after.devfsDatas dev).handle = 0 ∨ (after.devfsDatas dev).handle = (before.devfsDatas dev).handle

/-- The path leads nowhere, the file may be created, its directory is one of tmpfs without
the name, and the heap has a node for it. -/
def CreatesFile (before : FsState δ) (path : List UInt8) (flags : Nat) : Prop :=
  fsResolve before path = .ok 0 ∧ flags &&& oCreat ≠ 0 ∧ ∃ ppath fname dir node made,
    splitPath path = .ok (ppath, fname) ∧ fsResolve before ppath = .ok dir ∧ dir ≠ 0 ∧
    (before.nodes dir).ops = some .tmpfs ∧ (before.nodes dir).type = fsDir ∧ tmpfsLookup before dir fname = .ok 0 ∧
    before.create fsNodeSize = .ok (node, made) ∧ node ≠ 0

/-- The handle that the hook of a device returns for a node, if it has one. -/
def hookHandle (state : FsState δ) (node : Nat) : Option Nat :=
  if (state.nodes node).ops = some .devfs ∧ (state.nodes node).priv ≠ 0 then
    match (state.devfsDatas (state.nodes node).priv).handler.bind ComponentHandler.access with
    | none => none
    | some access => some (access (text (state.nodes node).name) state.devices).1
  else none

/-- The path leads to a device that gives out a handle it has not given out yet, and every
descriptor is taken. -/
def LeavesHandle (before : FsState δ) (path : List UInt8) : Prop :=
  ∃ node handle file made, fsResolve before path = .ok node ∧ node ≠ 0 ∧ hookHandle before node = some handle ∧
    handle ≠ 0 ∧ handle ≠ (before.devfsDatas (before.nodes node).priv).handle ∧
    before.create fsFileSize = .ok (file, made) ∧ file ≠ 0 ∧ ∀ slot : Fin fsMaxFds, 3 ≤ slot.val → before.fds slot ≠ 0

/-- What the hook of a driver does to the handles. -/
theorem openNode_handles (state : FsState δ) (node : Nat) :
    (hookHandle state node = none ∧ (openNode state node).2 = state) ∨
      ∃ handle, hookHandle state node = some handle ∧ (openNode state node).1 = (if handle = 0 then -1 else 0) ∧
        ∀ dev, ((openNode state node).2.devfsDatas dev).handle =
          if dev = (state.nodes node).priv then handle else (state.devfsDatas dev).handle := by
  unfold hookHandle openNode
  rcases ops : (state.nodes node).ops with _ | table
  · simp
  cases table with
  | tmpfs => simp
  | devfs =>
    unfold devfsOpen
    by_cases priv : (state.nodes node).priv = 0
    · simp [priv]
    rcases handler : (state.devfsDatas (state.nodes node).priv).handler with _ | driver
    · simp [priv, handler]
    rcases access : driver.access with _ | access
    · simp [priv, handler, access]
    · refine .inr ⟨_, by simp [priv, access]; rfl, ?_, ?_⟩
      · simp [priv, handler, access]
      · intro dev
        simp only [priv, handler, access, if_false]
        by_cases same : dev = (state.nodes node).priv
        · subst same
          simp [FsState.setDevfsData]
        · simp [FsState.setDevfsData, same]

/-- An open that is taken back behind the hook of the driver. -/
theorem withdrawn_undone (valid : FsValid before blocks roles) {node file : Nat} {made : FsState δ}
    (creates : before.create fsFileSize = .ok (file, made)) (room : file ≠ 0)
    (frees : (offered made file node flags).2.free file = .ok after) :
    OpenUndone before blocks after ↔ ∀ handle, hookHandle before node = some handle →
      handle = 0 ∨ handle = (before.devfsDatas (before.nodes node).priv).handle := by
  obtain ⟨nodes, mnts⟩ := offered_tree node flags creates
  obtain ⟨fds, blocks', final, -, live⟩ := valid.withdrawn node flags creates room frees
  obtain ⟨memory, -, rfl⟩ := free_ok frees
  obtain ⟨middle, -, rfl⟩ := create_ok creates
  have hook := openNode_handles (FsState.setFile { before with memory := middle } file ⟨node, 0, flags⟩) node
  have asked : hookHandle (FsState.setFile { before with memory := middle } file ⟨node, 0, flags⟩) node =
    hookHandle before node :=
    rfl
  rw [asked] at hook
  constructor
  · intro undone handle given
    rcases hook with ⟨none, -⟩ | ⟨other, given', -, handles⟩
    · rw [none] at given
      cases given
    · obtain rfl : handle = other := Option.some.inj (given.symm.trans given')
      have left := undone.handles (before.nodes node).priv
      have there := (handles (before.nodes node).priv).trans (if_pos rfl)
      exact left.imp (fun zero => there.symm.trans zero) fun same => there.symm.trans same
  · intro fine
    refine ⟨nodes, mnts, fds, ⟨blocks', roles, final, live⟩, fun dev => ?_⟩
    rcases hook with ⟨-, same⟩ | ⟨handle, given, -, handles⟩
    · exact .inr (congrArg (fun state => (state.devfsDatas dev).handle) same)
    · have there := handles dev
      split at there
      next device =>
        subst device
        exact (fine handle given).imp there.trans there.trans
      next => exact .inr there

/-- What creating a file asks of the directory that the path names. -/
theorem CreatesFile.directory {ppath fname : List UInt8} {dir : Nat} (creates : CreatesFile before path flags)
    (splits : splitPath path = .ok (ppath, fname)) (resolves : fsResolve before ppath = .ok dir) :
    dir ≠ 0 ∧ (before.nodes dir).ops = some .tmpfs ∧ (before.nodes dir).type = fsDir ∧
      tmpfsLookup before dir fname = .ok 0 ∧ ∃ node made, before.create fsNodeSize = .ok (node, made) ∧ node ≠ 0 := by
  obtain ⟨-, -, _, _, _, node, made, splits', resolves', nonzero, ops, type, absent, makes, given⟩ := creates
  cases splits.symm.trans splits'
  cases resolves.symm.trans resolves'
  exact ⟨nonzero, ops, type, absent, node, made, makes, given⟩

/-- A node that is grafted was no child of its directory. -/
theorem graft_differs (valid : FsValid before blocks roles) {dir node : Nat} {made : FsState δ} {name : Fin 64 → UInt8}
    {type : UInt8} (live : roles dir = some .node) (makes : before.create fsNodeSize = .ok (node, made))
    (given : node ≠ 0) :
    (graft made dir node name type).nodes ≠ before.nodes := by
  intro same
  have child : node = (before.nodes dir).children := by
    have there := congrArg (fun nodes => (nodes dir).children) same
    simpa [graft] using there
  rcases valid.create (by decide) makes with ⟨none, -⟩ | ⟨_, _, allocation, -⟩
  · exact given none
  have free := allocation.free valid.owned
  obtain ⟨kids, chain, -, inside⟩ := valid.kids dir live
  cases kids with
  | nil => exact given (child.trans chain)
  | cons kid rest =>
    have used := inside kid List.mem_cons_self
    rw [← show node = kid from child.trans chain.1, free] at used
    cases used

/-- The search for the node leaves everything as it was, or it creates the file. -/
theorem located_kept (valid : FsValid before blocks roles) {node : Nat} {middle : FsState δ}
    (located : Located before path flags node middle) :
    (middle = before ∧ fsResolve before path = .ok node ∧ ¬CreatesFile before path flags) ∨
      CreatesFile before path flags ∧ middle.nodes ≠ before.nodes := by
  cases located with
  | found resolves final =>
    refine .inl ⟨rfl, resolves, fun creates => ?_⟩
    obtain ⟨missing, asked, -⟩ := creates
    cases resolves.symm.trans missing
    rcases final with nonzero | unasked
    · exact nonzero rfl
    · exact asked unasked
  | orphan missing asked splits resolves =>
    exact .inl ⟨rfl, missing, fun creates => (creates.directory splits resolves).1 rfl⟩
  | fixed missing asked splits resolves given other =>
    exact .inl ⟨rfl, missing, fun creates => other (creates.directory splits resolves).2.1⟩
  | @created ppath fname dir _ ret _ missing asked splits resolves given ops makes again =>
    obtain ⟨_, resolves', live⟩ := valid.resolve ppath
    cases resolves.symm.trans resolves'
    obtain ⟨added, -⟩ := valid.tmpfsNew_valid (live given) makes
    cases added with
    | noDirectory other =>
      exact .inl ⟨rfl, again, fun creates => other (creates.directory splits resolves).2.2.1⟩
    | present directory found nonzero =>
      refine .inl ⟨rfl, again, fun creates => nonzero ?_⟩
      cases found.symm.trans (creates.directory splits resolves).2.2.2.1
      rfl
    | refused directory absent refuses =>
      rcases valid.create (by decide) refuses with ⟨-, rfl⟩ | ⟨_, _, allocation, -⟩
      · refine .inl ⟨rfl, again, fun creates => ?_⟩
        obtain ⟨_, _, makes', nonzero⟩ := (creates.directory splits resolves).2.2.2.2
        cases refuses.symm.trans makes'
        exact nonzero rfl
      · exact absurd rfl allocation.given
    | added directory absent nonzero makes' copied =>
      refine .inr ⟨⟨missing, asked, _, _, dir, _, _, splits, resolves, given, ops, directory, absent, makes',
        nonzero⟩, ?_⟩
      exact graft_differs valid (live given) makes' nonzero

theorem OpenUndone.refl (valid : FsValid before blocks roles) : OpenUndone before blocks before :=
  ⟨rfl, rfl, rfl, ⟨blocks, roles, valid, .refl _⟩, fun _ => .inr rfl⟩

/-- Behind the search for the node no open that fails changes a node. -/
theorem created_lost {middle : FsState δ} (creates : CreatesFile before path flags)
    (differs : middle.nodes ≠ before.nodes) (nodes : after.nodes = middle.nodes) :
    OpenUndone before blocks after ↔ ¬CreatesFile before path flags ∧ ¬LeavesHandle before path := by
  refine iff_of_false (fun undone => ?_) fun fine => fine.1 creates
  exact differs (nodes.symm.trans undone.nodes)

theorem withdrawn_nodes {node file : Nat} {middle made : FsState δ}
    (creates : middle.create fsFileSize = .ok (file, made))
    (frees : (offered made file node flags).2.free file = .ok after) : after.nodes = middle.nodes := by
  obtain ⟨memory, -, rfl⟩ := free_ok frees
  exact (offered_tree node flags creates).1

theorem offered_denied {node file handle : Nat} {made : FsState δ} (creates : before.create fsFileSize = .ok (file, made))
    (asked : hookHandle before node = some handle) : (offered made file node flags).1 ≠ 0 ↔ handle = 0 := by
  obtain ⟨memory, -, rfl⟩ := create_ok creates
  rcases openNode_handles (FsState.setFile { before with memory } file ⟨node, 0, flags⟩) node with
    ⟨none, -⟩ | ⟨other, given, ret, -⟩
  · cases none.symm.trans asked
  · cases given.symm.trans asked
    rw [offered, ret]
    by_cases zero : handle = 0
    · simp [zero]
    · simp [zero]

/-- A failed open leaves everything as it was, unless it created its file or left the
handle of a device behind. -/
theorem failed_open_undone_iff (valid : FsValid before blocks roles)
    (failed : fsOpen before path flags = .ok (-1, after)) :
    OpenUndone before blocks after ↔ ¬CreatesFile before path flags ∧ ¬LeavesHandle before path := by
  cases fsOpen_opened failed with
  | missing located =>
    rcases located_kept valid located with ⟨rfl, resolves, uncreated⟩ | ⟨creates, differs⟩
    · refine iff_of_true (.refl valid) ⟨uncreated, fun leaves => ?_⟩
      obtain ⟨_, _, _, _, resolves', nonzero, -⟩ := leaves
      cases resolves.symm.trans resolves'
      exact nonzero rfl
    · exact created_lost creates differs rfl
  | noRecord located given made =>
    rcases located_kept valid located with ⟨rfl, -, uncreated⟩ | ⟨creates, differs⟩
    · rcases valid.create (by decide) made with ⟨-, rfl⟩ | ⟨_, _, allocation, -⟩
      · refine iff_of_true (.refl valid) ⟨uncreated, fun leaves => ?_⟩
        obtain ⟨_, _, _, _, -, -, -, -, -, makes, nonzero, -⟩ := leaves
        cases made.symm.trans makes
        exact nonzero rfl
      · exact absurd rfl allocation.given
    · obtain ⟨memory, -, rfl⟩ := create_ok made
      exact created_lost creates differs rfl
  | refused located given makes room denied frees =>
    rcases located_kept valid located with ⟨rfl, resolves, uncreated⟩ | ⟨creates, differs⟩
    · refine iff_of_true ?_ ⟨uncreated, fun leaves => ?_⟩
      · refine (withdrawn_undone valid makes room frees).mpr fun handle asked => .inl ?_
        exact (offered_denied makes asked).mp denied
      · obtain ⟨_, handle, _, _, resolves', -, asked, nonzero, -⟩ := leaves
        cases resolves.symm.trans resolves'
        exact nonzero ((offered_denied makes asked).mp denied)
    · exact created_lost creates differs (withdrawn_nodes makes frees)
  | full located given makes room allowed taken frees =>
    rcases located_kept valid located with ⟨rfl, resolves, uncreated⟩ | ⟨creates, differs⟩
    · rw [withdrawn_undone valid makes room frees]
      constructor
      · intro fine
        refine ⟨uncreated, fun leaves => ?_⟩
        obtain ⟨_, handle, _, _, resolves', -, asked, nonzero, other, -⟩ := leaves
        cases resolves.symm.trans resolves'
        rcases fine handle asked with zero | same
        · exact nonzero zero
        · exact other same
      · rintro ⟨-, fine⟩ handle asked
        by_contra left
        obtain ⟨nonzero, other⟩ := not_or.mp left
        obtain ⟨_, _, _, _, _, _, fds, _⟩ := valid.offers _ flags makes room
        exact fine ⟨_, handle, _, _, resolves, given, asked, nonzero, other, makes, room,
          fun slot low => fds ▸ taken slot low⟩
    · exact created_lost creates differs (withdrawn_nodes makes frees)

/-- An open of a path that leads nowhere. -/
private def opensNothing (state : FsState Unit) : Bool :=
  match fsResolve state (literal "/a"), fsOpen state (literal "/a") 0 with
  | .ok 0, .ok (-1, _) => true
  | _, _ => false

theorem failed_open_undone_iff_missing : ∃ (before after : FsState Unit) (blocks : List Block),
    fsOpen before (literal "/a") 0 = .ok (-1, after) ∧ OpenUndone before blocks after := by
  obtain ⟨before, reached, opens⟩ := rootedFs_any opensNothing (by decide +kernel)
  obtain ⟨blocks, roles, valid⟩ := fs_reachable_wellFormed reached
  unfold opensNothing at opens
  split at opens
  next after resolves failed =>
    refine ⟨before, after, blocks, failed, (failed_open_undone_iff valid failed).mpr ⟨fun creates => creates.2.1 rfl, ?_⟩⟩
    rintro ⟨node, _, _, _, resolves', given, -⟩
    cases resolves.symm.trans resolves'
    exact given rfl
  next => cases opens

/-- Mount the devices, and create a file whose path only begins like their mount point. -/
private def createsLost (state : FsState Unit) : Bool :=
  match fsMount noDisk state none (literal "/dev") (literal "devfs") with
  | .ok (0, before) =>
    match fsOpen before (literal "/devil") oCreat with
    | .ok (-1, after) =>
      let root := (before.mnts ⟨0, by decide⟩).root
      (after.nodes root).children ≠ (before.nodes root).children &&
        text (after.nodes (after.nodes root).children).name = literal "devil"
    | _ => false
  | _ => false

/-- The parent of the path is the root, in which the file is made, but the path itself goes
to the devices, where it is not. -/
theorem failed_open_creates : ∃ (before after : FsState Unit) (dir : Nat), FsReachable before ∧
    fsOpen before (literal "/devil") oCreat = .ok (-1, after) ∧ (after.nodes dir).children ≠ (before.nodes dir).children ∧
    ∀ blocks, ¬OpenUndone before blocks after := by
  obtain ⟨start, reached, creates⟩ := rootedFs_any createsLost (by decide +kernel)
  unfold createsLost at creates
  split at creates
  next before mounts =>
    split at creates
    next after failed =>
      obtain ⟨differs, -⟩ := (Bool.and_eq_true _ _).mp creates
      refine ⟨before, after, _, .mount noDisk_tame reached mounts, failed, of_decide_eq_true differs,
        fun blocks undone => ?_⟩
      exact of_decide_eq_true differs (by rw [undone.nodes])
    next => cases creates
  next => cases creates

end Kernix.Proofs
