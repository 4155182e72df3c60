import Kernix.Proofs.FsTrees

/-! `fs_open` and `fs_close` on a valid state. An open can fail at four points;
whatever it has done by then, the state stays valid. -/

namespace Kernix.Proofs
open ByteMemory

variable {δ : Type}

/-- How the search for the node of an open can end. -/
inductive Located (before : FsState δ) (path : List UInt8) (flags : Nat) : Nat → FsState δ → Prop where
  | found {node : Nat} (resolves : fsResolve before path = .ok node) (final : node ≠ 0 ∨ flags &&& oCreat = 0) :
      Located before path flags node before
  | orphan {ppath fname : List UInt8} (missing : fsResolve before path = .ok 0) (asked : flags &&& oCreat ≠ 0)
      (splits : splitPath path = .ok (ppath, fname)) (resolves : fsResolve before ppath = .ok 0) :
      Located before path flags 0 before
  | fixed {ppath fname : List UInt8} {parent : Nat} (missing : fsResolve before path = .ok 0)
      (asked : flags &&& oCreat ≠ 0) (splits : splitPath path = .ok (ppath, fname))
      (resolves : fsResolve before ppath = .ok parent) (given : parent ≠ 0)
      (other : (before.nodes parent).ops ≠ some .tmpfs) : Located before path flags 0 before
  | created {ppath fname : List UInt8} {parent node : Nat} {ret : Int} {after : FsState δ}
      (missing : fsResolve before path = .ok 0) (asked : flags &&& oCreat ≠ 0)
      (splits : splitPath path = .ok (ppath, fname)) (resolves : fsResolve before ppath = .ok parent)
      (given : parent ≠ 0) (ops : (before.nodes parent).ops = some .tmpfs)
      (creates : tmpfsCreate before parent fname = .ok (ret, after)) (again : fsResolve after path = .ok node) :
      Located before path flags node after

private theorem openCreating_located {before after : FsState δ} {path : List UInt8} {flags node : Nat}
    (missing : fsResolve before path = .ok 0) (asked : flags &&& oCreat ≠ 0)
    (result : openCreating before path = .ok (node, after)) : Located before path flags node after := by
  unfold openCreating at result
  obtain ⟨⟨ppath, fname⟩, splits, rest⟩ := bind_ok result
  obtain ⟨parent, resolves, rest⟩ := bind_ok rest
  dsimp only at rest
  split at rest
  next none =>
    cases rest
    subst none
    exact .orphan missing asked splits resolves
  next given =>
    unfold createIn at rest
    cases ops : (before.nodes parent).ops with
    | none =>
      rw [ops] at rest
      cases rest
      exact .fixed missing asked splits resolves given (by simp [ops])
    | some table =>
      rw [ops] at rest
      cases table with
      | devfs =>
        cases rest
        exact .fixed missing asked splits resolves given (by simp [ops])
      | tmpfs =>
        obtain ⟨⟨ret, middle⟩, creates, rest⟩ := bind_ok rest
        obtain ⟨found, again, rest⟩ := bind_ok rest
        cases rest
        exact .created missing asked splits resolves given ops creates again

/-- `plen` of `fs_open` and `fs_mkdir`. -/
def parentLength (path : List UInt8) : Int := if i32 (lastSlash path 0 0) = 0 then 1 else i32 (lastSlash path 0 0)

theorem splitPath_ok {path ppath fname : List UInt8} (splits : splitPath path = .ok (ppath, fname)) :
    0 ≤ parentLength path ∧ parentLength path < fsMaxPath ∧ path ≠ [] ∧ ppath = path.take (parentLength path).toNat ∧
      ∃ name : Fin 64 → UInt8, strCopy (fun _ => 0) (path.drop (lastSlash path 0 0 + 1)) = .ok name ∧
        fname = text name := by
  unfold splitPath at splits
  dsimp only at splits
  rw [← parentLength] at splits
  generalize parentLength path = plen at *
  split at splits
  next => cases splits
  next fits =>
    obtain ⟨name, copied, rest⟩ := bind_ok splits
    cases rest
    obtain ⟨positive, fits⟩ := not_or.mp fits
    obtain ⟨small, nonempty⟩ := not_or.mp fits
    exact ⟨by omega, by omega, nonempty, rfl, name, copied, rfl⟩

theorem splitPath_short {path ppath fname : List UInt8} (splits : splitPath path = .ok (ppath, fname)) :
    fname.length < 64 := by
  obtain ⟨_, _, _, _, name, copied, rfl⟩ := splitPath_ok splits
  exact strCopy_short copied

/-- The state with a record for an open file, after the hook of the driver. -/
def offered (state : FsState δ) (file node flags : Nat) : Int × FsState δ :=
  openNode (state.setFile file ⟨node, 0, flags⟩) node

/-- How `fs_open` can end. -/
inductive Opened (before : FsState δ) (path : List UInt8) (flags : Nat) : Int → FsState δ → Prop where
  | missing {after : FsState δ} (located : Located before path flags 0 after) : Opened before path flags (-1) after
  | noRecord {node : Nat} {middle after : FsState δ} (located : Located before path flags node middle)
      (given : node ≠ 0) (made : middle.create fsFileSize = .ok (0, after)) : Opened before path flags (-1) after
  | refused {node file : Nat} {middle made after : FsState δ} (located : Located before path flags node middle)
      (given : node ≠ 0) (creates : middle.create fsFileSize = .ok (file, made)) (room : file ≠ 0)
      (denied : (offered made file node flags).1 ≠ 0)
      (frees : (offered made file node flags).2.free file = .ok after) : Opened before path flags (-1) after
  | full {node file : Nat} {middle made after : FsState δ} (located : Located before path flags node middle)
      (given : node ≠ 0) (creates : middle.create fsFileSize = .ok (file, made)) (room : file ≠ 0)
      (allowed : (offered made file node flags).1 = 0)
      (taken : ∀ slot : Fin fsMaxFds, 3 ≤ slot.val → (offered made file node flags).2.fds slot ≠ 0)
      (frees : (offered made file node flags).2.free file = .ok after) : Opened before path flags (-1) after
  | opened {node file : Nat} {middle made : FsState δ} {slot : Fin fsMaxFds}
      (located : Located before path flags node middle)
      (given : node ≠ 0) (creates : middle.create fsFileSize = .ok (file, made)) (room : file ≠ 0)
      (allowed : (offered made file node flags).1 = 0) (low : 3 ≤ slot.val)
      (unused : (offered made file node flags).2.fds slot = 0)
      (first : ∀ earlier < slot, 3 ≤ earlier.val → (offered made file node flags).2.fds earlier ≠ 0) :
      Opened before path flags slot.val ((offered made file node flags).2.setFd slot file)

/-- `fs_open` behind the search for the node. -/
def openFound (flags node : Nat) (state : FsState δ) : Except Stop (Int × FsState δ) := do
  if node = 0 then return (-1, state)
  let (file, state) ← state.create fsFileSize
  if file = 0 then return (-1, state)
  let (opened, state) := offered state file node flags
  if opened ≠ 0 then
    let state ← state.free file
    return (-1, state)
  let (fd, state) := fsAllocFd state file
  if fd < 0 then
    let state ← state.free file
    return (-1, state)
  return (fd, state)

theorem fsOpen_eq (state : FsState δ) (path : List UInt8) (flags : Nat) :
    fsOpen state path flags =
      (fsResolve state path >>= fun node =>
        (if node = 0 ∧ flags &&& oCreat ≠ 0 then openCreating state path else Except.ok (node, state)) >>= fun located =>
          openFound flags located.1 located.2) := by
  unfold fsOpen
  congr 1
  funext node
  split <;> rfl

private theorem openFound_opened {before middle after : FsState δ} {path : List UInt8} {flags node : Nat} {ret : Int}
    (located : Located before path flags node middle) (result : openFound flags node middle = .ok (ret, after)) :
    Opened before path flags ret after := by
  unfold openFound at result
  split at result
  next none =>
    cases result
    subst none
    exact .missing located
  next given =>
    obtain ⟨⟨file, made⟩, creates, rest⟩ := bind_ok result
    dsimp only at rest
    split at rest
    next none =>
      cases rest
      subst none
      exact .noRecord located given creates
    next room =>
      split at rest
      next denied =>
        obtain ⟨last, frees, rest⟩ := bind_ok rest
        cases rest
        exact .refused located given creates room denied frees
      next allowed =>
        have allowed := not_not.mp allowed
        unfold fsAllocFd at rest
        split at rest
        next slot found =>
          obtain ⟨free, first⟩ := FirstIndex.found_iff.mp found
          simp only [Bool.and_eq_true, decide_eq_true_eq, Bool.and_eq_false_imp, decide_eq_false_iff_not] at free first
          rw [if_neg (by simp)] at rest
          cases rest
          exact .opened located given creates room allowed free.1 free.2 first
        next missing =>
          rw [if_pos (show ((-1 : Int), (offered made file node flags).2).1 < 0 from Int.negSucc_lt_zero 0)] at rest
          obtain ⟨last, frees, rest⟩ := bind_ok rest
          cases rest
          refine .full located given creates room allowed (fun slot low => ?_) frees
          simpa [low] using FirstIndex.none_iff.mp missing slot

theorem fsOpen_opened {before after : FsState δ} {path : List UInt8} {flags : Nat} {ret : Int}
    (result : fsOpen before path flags = .ok (ret, after)) : Opened before path flags ret after := by
  rw [fsOpen_eq] at result
  obtain ⟨first, resolves, rest⟩ := bind_ok result
  obtain ⟨⟨node, middle⟩, locates, rest⟩ := bind_ok rest
  refine openFound_opened ?_ rest
  split at locates
  next creating =>
    obtain ⟨rfl, asked⟩ := creating
    exact openCreating_located resolves asked locates
  next settled =>
    cases locates
    refine .found resolves ?_
    by_cases none : first = 0
    · exact Or.inr (not_not.mp fun asked => settled ⟨none, asked⟩)
    · exact Or.inl none

/-- What a step outside the files leaves alone: every open file and the bytes of
every file. New files are empty. -/
structure Aside (before after : FsState δ) (roles roles' : Roles) : Prop where
  used : ∀ ptr role, roles ptr = some role → roles' ptr = some role
  kinds : ∀ node, roles node = some .node → (IsFile after node ↔ IsFile before node)
  contents : ∀ node, roles node = some .node → IsFile before node → content after node = content before node
  fresh : ∀ node, roles' node = some .node → roles node ≠ some .node → IsFile after node → content after node = []
  files : ∀ ptr fd, roles ptr = some (.file fd) → after.files ptr = before.files ptr

/-- The hook of a driver changes the device and its record only. -/
theorem openNode_devices (state : FsState δ) (node : Nat) :
    ∃ devices datas, (openNode state node).2 = { state with devices, devfsDatas := datas } := by
  unfold openNode
  split
  next => exact ⟨state.devices, state.devfsDatas, rfl⟩
  next => exact ⟨state.devices, state.devfsDatas, rfl⟩
  next =>
    unfold devfsOpen
    dsimp only
    split
    next => exact ⟨state.devices, state.devfsDatas, rfl⟩
    next =>
      split
      next => exact ⟨state.devices, state.devfsDatas, rfl⟩
      next =>
        split
        next => exact ⟨state.devices, state.devfsDatas, rfl⟩
        next => exact ⟨_, _, rfl⟩

/-- The hook of `fs_close`. -/
def closeNode (state : FsState δ) (file : Nat) : FsState δ :=
  match (state.nodes (state.files file).node).ops with
  | none => state
  | some .tmpfs => state
  | some .devfs => (devfsClose state file).2

theorem closeNode_datas (state : FsState δ) (file : Nat) :
    ∃ datas, closeNode state file = { state with devfsDatas := datas } := by
  unfold closeNode
  split
  next => exact ⟨state.devfsDatas, rfl⟩
  next => exact ⟨state.devfsDatas, rfl⟩
  next =>
    unfold devfsClose
    dsimp only
    split
    next => exact ⟨state.devfsDatas, rfl⟩
    next => exact ⟨_, rfl⟩

theorem fsClose_unused {state : FsState δ} {fd : Int} (unused : fsGetFile state fd = 0) :
    fsClose state fd = .ok (-1, state) := by
  unfold fsClose
  dsimp only
  rw [if_pos unused]
  rfl

theorem fsClose_used {state : FsState δ} {fd : Int} {file : Nat} (found : fsGetFile state fd = file)
    (used : file ≠ 0) :
    fsClose state fd = (closeNode state file).free file >>= fun state => .ok (0, fsFreeFd state fd) := by
  unfold fsClose
  dsimp only
  rw [found, if_neg used]
  rfl

namespace Aside
variable {first second third : FsState δ} {roles roles' roles'' : Roles}

theorem refl (state : FsState δ) (roles : Roles) : Aside state state roles roles :=
  ⟨fun _ _ used => used, fun _ _ => Iff.rfl, fun _ _ _ => rfl, fun _ live dead => (dead live).elim, fun _ _ _ => rfl⟩

theorem trans (left : Aside first second roles roles') (right : Aside second third roles' roles'') :
    Aside first third roles roles'' where
  used ptr role used := right.used ptr role (left.used ptr role used)
  kinds node live := (right.kinds node (left.used node _ live)).trans (left.kinds node live)
  contents node live file :=
    (right.contents node (left.used node _ live) ((left.kinds node live).mpr file)).trans (left.contents node live file)
  fresh node live dead file := by
    by_cases early : roles' node = some .node
    · have file' := (right.kinds node early).mp file
      exact (right.contents node early file').trans (left.fresh node early dead file')
    · exact right.fresh node live early file
  files ptr fd used := (right.files ptr fd (left.used ptr _ used)).trans (left.files ptr fd used)

theorem graft (before : FsState δ) {roles : Roles} {dir node : Nat} (free : roles node = none)
    (live : roles dir = some .node)
    (array : Fin 64 → UInt8) (type : UInt8) :
    Aside before (Proofs.graft before dir node array type) roles (roles.assign node .node) := by
  have stays {place : Nat} (given : roles place = some .node) : place ≠ node := by
    rintro rfl
    rw [free] at given
    cases given
  have old {place : Nat} (given : roles place = some .node) := graft_old before dir array type (stays given)
  constructor
  · exact fun _ _ => Roles.assign_used free
  · intro place given
    constructor
    · exact fun file => ⟨by simpa [old given] using file.ops, by simpa [old given] using file.type⟩
    · exact fun file => ⟨by simpa [old given] using file.ops, by simpa [old given] using file.type⟩
  · intro place given _
    rw [content, bufferOf, old given]
    rfl
  · intro place given dead _
    have same : place = node := by
      by_contra different
      rw [Roles.assign, Function.update_of_ne different] at given
      exact dead given
    rw [same, content, graft_node before array type (stays live).symm]
    rfl
  · exact fun _ _ _ => rfl

end Aside

theorem Unseen.aside {before after : FsState δ} {blocks' : List Block} {roles : Roles}
    (unseen : Unseen before after roles blocks' roles) : Aside before after roles roles :=
  ⟨fun _ _ used => used, fun _ _ => unseen.tree.isFile, unseen.contents, fun _ live dead => (dead live).elim,
    fun _ _ _ => by rw [unseen.files]⟩

/-- A descriptor that an open has taken: the first unused one, with a record of its own. -/
structure Descriptor (before after : FsState δ) (path : List UInt8) (flags : Nat) (slot : Fin fsMaxFds)
    (file node : Nat) : Prop where
  low : 3 ≤ slot.val
  unused : before.fds slot = 0
  first : ∀ earlier < slot, 3 ≤ earlier.val → before.fds earlier ≠ 0
  given : file ≠ 0
  fresh : ∀ fd, before.fds fd ≠ file
  fds : after.fds = Function.update before.fds slot file
  files : after.files file = ⟨node, 0, flags⟩
  nonzero : node ≠ 0
  leads : fsResolve after path = .ok node

theorem Located.leads {before after : FsState δ} {path : List UInt8} {flags node : Nat}
    (located : Located before path flags node after) (given : node ≠ 0) : fsResolve after path = .ok node := by
  cases located with
  | found resolves => exact resolves
  | orphan => exact (given rfl).elim
  | fixed => exact (given rfl).elim
  | created _ _ _ _ _ _ _ again => exact again

/-- The tree that a path is looked up in does not change once the node is found. -/
theorem offered_tree {middle made : FsState δ} {file : Nat} (node flags : Nat)
    (creates : middle.create fsFileSize = .ok (file, made)) :
    (offered made file node flags).2.nodes = middle.nodes ∧ (offered made file node flags).2.mnts = middle.mnts := by
  obtain ⟨memory, _, rfl⟩ := create_ok creates
  obtain ⟨devices, datas, hook⟩ := openNode_devices (FsState.setFile { middle with memory } file ⟨node, 0, flags⟩) node
  rw [offered, hook]
  exact ⟨rfl, rfl⟩

namespace FsValid
variable {before after : FsState δ} {blocks blocks' : List Block} {roles : Roles} {node dir file ptr width : Nat}

/-- A record that no descriptor has yet. -/
theorem setFile (valid : FsValid before blocks roles) (free : roles file = none) (new : FsFile) :
    FsValid (before.setFile file new) blocks roles ∧ Aside before (before.setFile file new) roles roles := by
  have old {fd : Fin fsMaxFds} {place : Nat} (used : roles place = some (.file fd)) :
      (before.setFile file new).files place = before.files place := by
    apply Function.update_of_ne
    rintro rfl
    rw [free] at used
    cases used
  refine ⟨⟨⟨valid.owned.heap, valid.owned.live⟩, ?_, valid.low, valid.table, ?_, ?_, valid.roots, valid.kids⟩, ?_⟩
  · exact fun node live file' => (valid.files node live ⟨file'.ops, file'.type⟩).transfer rfl rfl (fun _ => rfl)
      (fun _ used => used) (fun _ used => used) fun _ _ _ member => member
  · intro fd used
    have same := old (valid.table fd used)
    exact (congrArg (fun file => roles file.node) same).trans (valid.opened fd used)
  · intro fd used
    have same := old (valid.table fd used)
    exact lt_of_eq_of_lt (congrArg FsFile.pos same) (valid.pos fd used)
  · exact ⟨fun _ _ used => used, fun _ _ => ⟨fun given => ⟨given.ops, given.type⟩, fun given => ⟨given.ops, given.type⟩⟩,
      fun _ _ _ => rfl, fun _ live dead => (dead live).elim, fun _ _ used => old used⟩

/-- Nothing that is valid depends on the types, the devices and the boot log. -/
theorem outside (valid : FsValid before blocks roles) (types : List FsType) (datas : Nat → DevfsData δ) (root : Nat)
    (log : Int)
    (devices : δ) :
    FsValid { before with types, devfsDatas := datas, devfsRoot := root, initBootLog := log, devices } blocks roles ∧
      Aside before { before with types, devfsDatas := datas, devfsRoot := root, initBootLog := log, devices } roles roles := by
  refine ⟨⟨⟨valid.owned.heap, valid.owned.live⟩, fun node live file => ?_, valid.low, valid.table, valid.opened,
    valid.pos,
    valid.roots, valid.kids⟩, fun _ _ used => used, fun _ _ => ?_, fun _ _ _ => rfl, fun _ live dead => (dead live).elim,
    fun _ _ _ => rfl⟩
  · exact (valid.files node live ⟨file.ops, file.type⟩).transfer rfl rfl (fun _ => rfl) (fun _ used => used)
      (fun _ used => used) fun _ _ _ member => member
  · exact ⟨fun file => ⟨file.ops, file.type⟩, fun file => ⟨file.ops, file.type⟩⟩

/-- Giving back a block that has no role. -/
theorem release (valid : FsValid before blocks roles) (held : (ptr, width) ∈ liveEntries before blocks)
    (free : roles ptr = none) (result : before.free ptr = .ok after) :
    ∃ blocks', FsValid after blocks' roles ∧ Aside before after roles roles ∧
      (liveEntries before blocks).Perm ((ptr, width) :: liveEntries after blocks') := by
  obtain ⟨blocks', owned, removed, kept, typed⟩ := valid.owned.free held result
  have same : roles.drop ptr = roles := by
    rw [Roles.drop, ← free, Function.update_eq_self]
  rw [same] at owned
  have remains {place width' : Nat} {role : Role} (used : roles place = some role)
      (member : (place, width') ∈ liveEntries before blocks) : (place, width') ∈ liveEntries after blocks' := by
    rcases List.mem_cons.mp (removed.mem_iff.mp member) with equal | rest
    · cases equal
      rw [free] at used
      cases used
    · exact rest
  have buffers (node : Nat) : bufferOf after node = bufferOf before node := by
    rw [typed]
    rfl
  have nodes : after.nodes = before.nodes := by rw [typed]
  have tree := KeepsTree.free result
  have unseen : Unseen before after roles blocks' roles := by
    refine ⟨valid.keeps tree (.refl roles) owned (fun node live file => ?_) (fun fd used => ?_), .refl roles, tree,
      fun node => by rw [nodes], fun node live file => ?_, by rw [typed]⟩
    · exact (valid.files node live file).transfer (by rw [nodes]) (by rw [nodes]) (fun _ => buffers node)
        (fun _ used => used) (fun _ used => used) fun _ _ used member => remains used member
    · rw [show after.files = before.files by rw [typed]]
      exact valid.pos fd used
    · exact (valid.files node live file).content_kept (by rw [nodes]) (fun _ => buffers node)
        fun width' used member => kept (_, width') (remains used member)
  exact ⟨blocks', unseen.valid, unseen.aside, removed⟩

/-- A descriptor takes over the record that was made for it. -/
theorem take (valid : FsValid before blocks roles) (held : (file, width) ∈ liveEntries before blocks)
    (free : roles file = none) (live : roles (before.files file).node = some .node)
    (bound : (before.files file).pos < 2 ^ 64)
    {fd : Fin fsMaxFds} (low : 3 ≤ fd.val) :
    FsValid (before.setFd fd file) blocks (roles.assign file (.file fd)) ∧
      Aside before (before.setFd fd file) roles (roles.assign file (.file fd)) := by
  have used {place : Nat} {role : Role} (given : roles place = some role) : roles.assign file
    (.file fd) place = some role :=
    Roles.assign_used free given
  have known {place : Nat} : roles.assign file (.file fd) place = some .node ↔ roles place = some .node :=
    (RolesKept.assign free (by simp)).node place
  have owned := valid.owned.assign held (.file fd)
  -- A descriptor in use is the new one, or it was in use before.
  have either {other : Fin fsMaxFds} (given : (before.setFd fd file).fds other ≠ 0) :
      other = fd ∧ (before.setFd fd file).fds other = file ∨
        before.fds other ≠ 0 ∧ (before.setFd fd file).fds other = before.fds other := by
    simp only [FsState.setFd, Function.update_apply] at given ⊢
    split at given
    next same => exact Or.inl ⟨same, if_pos same⟩
    next different => exact Or.inr ⟨given, if_neg different⟩
  constructor
  · refine ⟨⟨owned.heap, owned.live⟩, fun node live' file' => ?_, fun other given => ?_, fun other given => ?_,
      fun other given => ?_, fun other given => ?_, fun slot active given => used (valid.roots slot active given),
      fun node live' => ?_⟩
    · exact (valid.files node (known.mp live') ⟨file'.ops, file'.type⟩).transfer rfl rfl (fun _ => rfl) (fun _ => used)
        (fun _ => used) fun _ _ _ member => member
    · rcases either given with ⟨same, _⟩ | ⟨early, _⟩
      · rwa [same]
      · exact valid.low other early
    · rcases either given with ⟨same, place⟩ | ⟨early, place⟩
      · rw [place, same]
        exact Roles.assign_self ..
      · rw [place]
        exact used (valid.table other early)
    · rcases either given with ⟨_, place⟩ | ⟨early, place⟩
      · rw [place]
        exact used live
      · rw [place]
        exact used (valid.opened other early)
    · rcases either given with ⟨_, place⟩ | ⟨early, place⟩
      · rw [place]
        exact bound
      · rw [place]
        exact valid.pos other early
    · obtain ⟨kids, chain, distinct, inside⟩ := valid.kids node (known.mp live')
      exact ⟨kids, chain, distinct, fun kid member => used (inside kid member)⟩
  · exact ⟨fun _ _ => used, fun _ _ => ⟨fun given => ⟨given.ops, given.type⟩, fun given => ⟨given.ops, given.type⟩⟩,
      fun _ _ _ => rfl, fun _ live' dead => (dead (known.mp live')).elim, fun _ _ _ => rfl⟩

/-- A block that was just made is not the address of a node. -/
theorem made_other (valid : FsValid before blocks roles) {dir size : Nat} (live : roles dir = some .node)
    (small : size + 15 < 2 ^ 64) (made : before.create size = .ok (node, after)) (given : node ≠ 0) : node ≠ dir := by
  rcases valid.create small made with ⟨none, _⟩ | ⟨_, _, allocation, _⟩
  · exact (given none).elim
  · rintro rfl
    rw [allocation.free valid.owned] at live
    cases live

theorem live_ne_zero (valid : FsValid before blocks roles) {role : Role} (used : roles ptr = some role) : ptr ≠ 0 := by
  obtain ⟨width, held⟩ := valid.owned.live ptr role used
  exact Nat.ne_of_gt (Owned.positive held)

theorem tmpfsNew_valid (valid : FsValid before blocks roles) (live : roles dir = some .node) {name : List UInt8}
    {type : UInt8} {ret : Int} (result : tmpfsNew before dir name type = .ok (ret, after)) :
    Added before dir name type ret after ∧ ∃ blocks' roles', FsValid after blocks' roles' ∧
      Aside before after roles roles' := by
  have added := tmpfsNew_added (valid.live_ne_zero live) (fun node made creates given =>
    valid.made_other live (by decide) creates given) result
  refine ⟨added, ?_⟩
  cases added with
  | noDirectory => exact ⟨blocks, roles, valid, .refl before roles⟩
  | present => exact ⟨blocks, roles, valid, .refl before roles⟩
  | refused _ _ made =>
    rcases valid.create (by decide) made with ⟨_, rfl⟩ | ⟨_, _, allocation, _⟩
    · exact ⟨blocks, roles, valid, .refl after roles⟩
    · exact (allocation.given rfl).elim
  | @added node made array _ _ given creates =>
    rcases valid.create (by decide) creates with ⟨none, _⟩ | ⟨blocks', width, allocation, unseen⟩
    · exact (given none).elim
    · have free := allocation.free valid.owned
      exact ⟨blocks', _, unseen.valid.graft allocation.held free live array type,
        unseen.aside.trans (.graft made free live array type)⟩

theorem fsMknode_returns (valid : FsValid before blocks roles) {name : List UInt8} (short : name.length < 64)
    (type : UInt8) : ∃ node after, fsMknode before name type = .ok (node, after) := by
  obtain ⟨node, made, creates⟩ := valid.owned.creates fsNodeSize
  obtain ⟨array, copied⟩ := strCopy_returns (fun _ => 0) short
  unfold fsMknode
  rw [creates]
  dsimp only [bind, Except.bind, pure, Except.pure]
  split
  · exact ⟨_, _, rfl⟩
  · rw [copied]
    exact ⟨_, _, rfl⟩

theorem tmpfsNew_returns (valid : FsValid before blocks roles) (live : roles dir = some .node) {name : List UInt8}
    (short : name.length < 64) (type : UInt8) : ∃ ret after, tmpfsNew before dir name type = .ok (ret, after) := by
  unfold tmpfsNew tmpfsLookup
  split
  next => exact ⟨_, _, rfl⟩
  next directory =>
    obtain ⟨kids, _, _, _, found⟩ := valid.look live name
    obtain ⟨node, made, makes⟩ := valid.fsMknode_returns short type
    rw [found]
    dsimp only [bind, Except.bind, pure, Except.pure]
    split
    next => exact ⟨_, _, rfl⟩
    next =>
      rw [makes]
      dsimp only
      split
      · exact ⟨_, _, rfl⟩
      · exact ⟨_, _, rfl⟩

/-- Locating the node of an open keeps the state valid. -/
theorem located (valid : FsValid before blocks roles) {path : List UInt8} {flags : Nat}
    (located : Located before path flags node after) :
    after.fds = before.fds ∧ ∃ blocks' roles', FsValid after blocks' roles' ∧ Aside before after roles roles' ∧
      (node ≠ 0 → roles' node = some .node) := by
  cases located with
  | found resolves =>
    obtain ⟨_, resolves', live⟩ := valid.resolve path
    cases resolves.symm.trans resolves'
    exact ⟨rfl, blocks, roles, valid, .refl before roles, live⟩
  | orphan => exact ⟨rfl, blocks, roles, valid, .refl before roles, fun given => (given rfl).elim⟩
  | fixed => exact ⟨rfl, blocks, roles, valid, .refl before roles, fun given => (given rfl).elim⟩
  | @created ppath _ _ _ _ _ _ _ _ resolves given _ creates again =>
    obtain ⟨_, resolves', live⟩ := valid.resolve ppath
    cases resolves.symm.trans resolves'
    obtain ⟨added, blocks', roles', valid', aside⟩ := valid.tmpfsNew_valid (live given) creates
    obtain ⟨_, again', live'⟩ := valid'.resolve path
    cases again.symm.trans again'
    refine ⟨?_, blocks', roles', valid', aside, live'⟩
    cases added with
    | noDirectory => rfl
    | present => rfl
    | refused _ _ made => exact (KeepsTree.create made).fds
    | added _ _ _ made => exact (KeepsTree.create made).fds

/-- The record that an open offers to the driver. -/
theorem offers {middle made : FsState δ} (valid : FsValid middle blocks roles) (node flags : Nat)
    (creates : middle.create fsFileSize = .ok (file, made)) (room : file ≠ 0) :
    ∃ blocks' width, roles file = none ∧
      (liveEntries (offered made file node flags).2 blocks').Perm ((file, width) :: liveEntries middle blocks) ∧
      FsValid (offered made file node flags).2 blocks' roles ∧ Aside middle (offered made file node flags).2 roles roles ∧
      (offered made file node flags).2.fds = middle.fds ∧
      (offered made file node flags).2.files file = ⟨node, 0, flags⟩ := by
  rcases valid.create (by decide) creates with ⟨none, _⟩ | ⟨blocks', width, allocation, unseen⟩
  · exact (room none).elim
  · have free := allocation.free valid.owned
    obtain ⟨valid', aside⟩ := unseen.valid.setFile free ⟨node, 0, flags⟩
    obtain ⟨devices, datas, hook⟩ := openNode_devices (made.setFile file ⟨node, 0, flags⟩) node
    obtain ⟨valid'', aside'⟩ := valid'.outside made.types datas made.devfsRoot made.initBootLog devices
    unfold offered
    rw [hook]
    refine ⟨blocks', width, free, allocation.liveEntries, valid'', (unseen.aside.trans aside).trans aside', ?_, ?_⟩
    · exact unseen.tree.fds
    · exact Function.update_self ..

/-- A record that is freed again leaves no trace. -/
theorem withdrawn {middle made after : FsState δ} (valid : FsValid middle blocks roles) (node flags : Nat)
    (creates : middle.create fsFileSize = .ok (file, made)) (room : file ≠ 0)
    (frees : (offered made file node flags).2.free file = .ok after) :
    after.fds = middle.fds ∧ ∃ blocks', FsValid after blocks' roles ∧ Aside middle after roles roles ∧
      (liveEntries after blocks').Perm (liveEntries middle blocks) := by
  obtain ⟨_, width, free, added, valid', aside, fds, _⟩ := offers valid node flags creates room
  obtain ⟨blocks', final, last, removed⟩ := valid'.release (added.mem_iff.mpr List.mem_cons_self) free frees
  exact ⟨(KeepsTree.free frees).fds.trans fds, blocks', final, aside.trans last, ((removed.symm.trans added).cons_inv)⟩

/-- An open keeps the state valid, and it takes at most one descriptor. -/
theorem opened_valid (valid : FsValid before blocks roles) {path : List UInt8} {flags : Nat} {ret : Int}
    (opened : Opened before path flags ret after) :
    (ret = -1 ∧ after.fds = before.fds ∨ ∃ slot file node,
      ret = slot.val ∧ Descriptor before after path flags slot file node) ∧
      ∃ blocks' roles', FsValid after blocks' roles' ∧ Aside before after roles roles' := by
  cases opened with
  | missing located =>
    obtain ⟨fds, blocks', roles', valid', aside, _⟩ := valid.located located
    exact ⟨Or.inl ⟨rfl, fds⟩, blocks', roles', valid', aside⟩
  | noRecord located given made =>
    obtain ⟨fds, blocks', roles', valid', aside, _⟩ := valid.located located
    rcases valid'.create (by decide) made with ⟨_, rfl⟩ | ⟨_, _, allocation, _⟩
    · exact ⟨Or.inl ⟨rfl, fds⟩, blocks', roles', valid', aside⟩
    · exact (allocation.given rfl).elim
  | @refused node _ _ _ _ located given creates room _ frees =>
    obtain ⟨fds, _, roles', valid', aside, _⟩ := valid.located located
    obtain ⟨fds', blocks', final, last, _⟩ := withdrawn valid' node flags creates room frees
    exact ⟨Or.inl ⟨rfl, fds'.trans fds⟩, blocks', roles', final, aside.trans last⟩
  | @full node _ _ _ _ located given creates room _ _ frees =>
    obtain ⟨fds, _, roles', valid', aside, _⟩ := valid.located located
    obtain ⟨fds', blocks', final, last, _⟩ := withdrawn valid' node flags creates room frees
    exact ⟨Or.inl ⟨rfl, fds'.trans fds⟩, blocks', roles', final, aside.trans last⟩
  | @opened node file _ made slot located given creates room _ low unused first =>
    obtain ⟨fds, _, roles', valid', aside, live⟩ := valid.located located
    obtain ⟨blocks', width, free, added, valid'', aside', fds', record⟩ := offers valid' node flags creates room
    obtain ⟨final, last⟩ := valid''.take (added.mem_iff.mpr List.mem_cons_self) free (by rw [record]; exact live given)
      (by rw [record]; exact Nat.two_pow_pos 64) low
    rw [fds', fds] at unused first
    obtain ⟨nodes, mnts⟩ := offered_tree node flags creates
    refine ⟨Or.inr ⟨slot, file, node, rfl, low, unused, first, room, fun fd same => ?_, ?_, record, given, ?_⟩,
      blocks', _,
      final, (aside.trans aside').trans last⟩
    · have used := aside.used _ _ (valid.table fd (same ▸ room))
      rw [same, free] at used
      cases used
    · rw [← fds, ← fds']
      rfl
    · refine (fsResolve_congr ?_ ?_ path).trans (located.leads given)
      · exact nodes
      · exact mnts

private theorem openCreating_returns (valid : FsValid before blocks roles) {path : List UInt8}
    (fits : ∃ parts, splitPath path = .ok parts) : ∃ node after, openCreating before path = .ok (node, after) := by
  obtain ⟨⟨ppath, fname⟩, splits⟩ := fits
  obtain ⟨parent, resolves, live⟩ := valid.resolve ppath
  unfold openCreating createIn
  rw [splits]
  dsimp only [bind, Except.bind, pure, Except.pure]
  rw [resolves]
  dsimp only
  split
  next => exact ⟨_, _, rfl⟩
  next given =>
    split
    next => exact ⟨_, _, rfl⟩
    next create offered =>
      split at offered
      next =>
        cases offered
        obtain ⟨ret, middle, creates⟩ := valid.tmpfsNew_returns (live given) (splitPath_short splits) fsFile
        obtain ⟨_, _, _, valid', _⟩ := valid.tmpfsNew_valid (live given) creates
        obtain ⟨node, again, _⟩ := valid'.resolve path
        unfold tmpfsCreate
        rw [creates]
        dsimp only
        rw [again]
        exact ⟨_, _, rfl⟩
      next => cases offered

private theorem openFound_returns (valid : FsValid before blocks roles) (flags node : Nat) :
    ∃ ret after, openFound flags node before = .ok (ret, after) := by
  unfold openFound
  split
  next => exact ⟨_, _, rfl⟩
  next =>
    obtain ⟨file, made, creates⟩ := valid.owned.creates fsFileSize
    rw [creates]
    dsimp only [bind, Except.bind, pure, Except.pure]
    split
    next => exact ⟨_, _, rfl⟩
    next room =>
      obtain ⟨_, width, _, added, valid', _⟩ := offers valid node flags creates room
      obtain ⟨last, frees⟩ := valid'.owned.frees (added.mem_iff.mpr List.mem_cons_self)
      split
      next =>
        rw [frees]
        exact ⟨_, _, rfl⟩
      next =>
        unfold fsAllocFd
        cases (List.finRange fsMaxFds).find? fun fd => 3 ≤ fd.val && (offered made file node flags).2.fds fd = 0 with
        | some fd =>
          dsimp only
          rw [if_neg (by simp)]
          exact ⟨_, _, rfl⟩
        | none =>
          dsimp only
          rw [if_pos (by decide), frees]
          exact ⟨_, _, rfl⟩

/-- An open returns, where the path fits the arrays that a creating open copies it into. -/
theorem fsOpen_returns (valid : FsValid before blocks roles) {path : List UInt8} {flags : Nat}
    (fits : flags &&& oCreat ≠ 0 → ∃ parts, splitPath path = .ok parts) :
    ∃ ret after, fsOpen before path flags = .ok (ret, after) := by
  obtain ⟨node, resolves, _⟩ := valid.resolve path
  rw [fsOpen_eq, resolves]
  dsimp only [bind, Except.bind]
  by_cases creating : node = 0 ∧ flags &&& oCreat ≠ 0
  · rw [if_pos creating]
    obtain ⟨rfl, asked⟩ := creating
    obtain ⟨node, middle, creates⟩ := openCreating_returns valid (fits asked)
    obtain ⟨_, _, _, valid', _⟩ := valid.located (openCreating_located resolves asked creates)
    rw [creates]
    exact openFound_returns valid' flags node
  · rw [if_neg creating]
    exact openFound_returns valid flags node

/-- A descriptor lets go of its record. -/
theorem leave (valid : FsValid before blocks roles) {fd : Fin fsMaxFds} (used : before.fds fd ≠ 0) :
    FsValid (before.setFd fd 0) blocks (roles.drop (before.fds fd)) := by
  have own := valid.table fd used
  have kept {place : Nat} {role : Role} (given : roles place = some role) (other : role ≠ .file fd) :
      roles.drop (before.fds fd) place = some role := by
    rw [Roles.drop_other, given]
    rintro rfl
    rw [own] at given
    cases given
    exact other rfl
  have early {place : Nat} {role : Role} (given : roles.drop
    (before.fds fd) place = some role) : roles place = some role := by
    simp only [Roles.drop, Function.update_apply] at given
    split at given
    next => cases given
    next => exact given
  have others {other : Fin fsMaxFds} (given : (before.setFd fd 0).fds other ≠ 0) :
      other ≠ fd ∧ before.fds other ≠ 0 ∧ (before.setFd fd 0).fds other = before.fds other := by
    simp only [FsState.setFd, Function.update_apply] at given ⊢
    split at given
    next => exact (given rfl).elim
    next different => exact ⟨different, given, if_neg different⟩
  refine ⟨⟨valid.owned.heap, fun ptr role given => valid.owned.live ptr role (early given)⟩, fun node live file => ?_,
    fun other given => valid.low other (others given).2.1, fun other given => ?_, fun other given => ?_,
    fun other given => ?_, fun slot active given => kept (valid.roots slot active given) (by simp), fun node live => ?_⟩
  · exact (valid.files node (early live) ⟨file.ops, file.type⟩).transfer rfl rfl (fun _ => rfl)
      (fun _ given => kept given (by simp)) (fun _ given => kept given (by simp)) fun _ _ _ member => member
  · obtain ⟨different, given, place⟩ := others given
    rw [place]
    exact kept (valid.table other given) (by simpa using different)
  · obtain ⟨_, given, place⟩ := others given
    rw [place]
    exact kept (valid.opened other given) (by simp)
  · obtain ⟨_, given, place⟩ := others given
    rw [place]
    exact valid.pos other given
  · obtain ⟨kids, chain, distinct, inside⟩ := valid.kids node (early live)
    exact ⟨kids, chain, distinct, fun kid member => kept (inside kid member) (by simp)⟩

/-- Closing a descriptor in use gives its record back, and no other block. -/
theorem close_live (valid : FsValid before blocks roles) {fd : Int} {slot : Fin fsMaxFds} (place : fdSlot fd = some slot)
    (used : before.fds slot ≠ 0) :
    ∃ after, fsClose before fd = .ok (0, after) ∧ after.fds = Function.update before.fds slot 0 ∧
      ∃ blocks' width, FsValid after blocks' (roles.drop (before.fds slot)) ∧
        Aside (before.setFd slot 0) after (roles.drop (before.fds slot)) (roles.drop (before.fds slot)) ∧
        (liveEntries before blocks).Perm ((before.fds slot, width) :: liveEntries after blocks') := by
  have given : fsGetFile before fd = before.fds slot := by rw [fsGetFile, place]
  obtain ⟨datas, closed⟩ := closeNode_datas before (before.fds slot)
  rw [fsClose_used given used, closed]
  obtain ⟨valid', aside⟩ := (valid.leave used).outside before.types datas before.devfsRoot before.initBootLog before.devices
  obtain ⟨width, held⟩ := valid.owned.live _ _ (valid.table slot used)
  obtain ⟨after, frees⟩ := valid'.owned.frees held
  obtain ⟨blocks', final, last, removed⟩ := valid'.release held (Function.update_self ..) frees
  obtain ⟨memory, freed, rfl⟩ := free_ok frees
  have frees' : FsState.free { before with devfsDatas := datas } (before.fds slot) =
      .ok { before with memory, devfsDatas := datas } := by
    unfold FsState.free
    rw [show kernelMemoryFree before.memory before.kernelMemory (before.fds slot) = some memory from freed]
  rw [frees']
  refine ⟨_, rfl, ?_, blocks', width, ?_, ?_, ?_⟩
  · rw [fsFreeFd, place]
    rfl
  · rw [fsFreeFd, place]
    exact final
  · rw [fsFreeFd, place]
    exact aside.trans last
  · rw [fsFreeFd, place]
    exact removed

theorem close (valid : FsValid before blocks roles) {fd : Int} {slot : Fin fsMaxFds} (place : fdSlot fd = some slot)
    (used : before.fds slot ≠ 0) :
    ∃ after, fsClose before fd = .ok (0, after) ∧ after.fds = Function.update before.fds slot 0 ∧
      ∃ blocks', FsValid after blocks' (roles.drop (before.fds slot)) ∧
        Aside (before.setFd slot 0) after (roles.drop (before.fds slot)) (roles.drop (before.fds slot)) := by
  obtain ⟨after, closes, fds, blocks', _, valid', aside, _⟩ := valid.close_live place used
  exact ⟨after, closes, fds, blocks', valid', aside⟩

end FsValid

section Trees

variable {state after : FsState δ} {path : List UInt8} {node flags : Nat} {fd ret : Int}

/-- An open of a node that is there leaves the tree alone, whether it succeeds or fails. -/
theorem Opened.tree (opened : Opened state path flags ret after) (leads : fsResolve state path = .ok node)
    (given : node ≠ 0) : after.nodes = state.nodes ∧ after.mnts = state.mnts := by
  have only {found : Nat} {middle : FsState δ} (located : Located state path flags found middle) : middle = state := by
    cases located with
    | found => rfl
    | orphan => rfl
    | fixed => rfl
    | created missing =>
      cases missing.symm.trans leads
      exact (given rfl).elim
  cases opened with
  | missing located =>
    cases only located
    exact ⟨rfl, rfl⟩
  | noRecord located _ made =>
    cases only located
    obtain ⟨memory, _, rfl⟩ := create_ok made
    exact ⟨rfl, rfl⟩
  | @refused found _ _ _ _ located _ creates _ _ frees =>
    cases only located
    obtain ⟨memory, _, rfl⟩ := free_ok frees
    exact offered_tree found flags creates
  | @full found _ _ _ _ located _ creates _ _ _ frees =>
    cases only located
    obtain ⟨memory, _, rfl⟩ := free_ok frees
    exact offered_tree found flags creates
  | @opened found _ _ _ _ located _ creates =>
    cases only located
    exact offered_tree found flags creates

/-- The path leads to the node still. -/
theorem Opened.leads (opened : Opened state path flags ret after) (leads : fsResolve state path = .ok node)
    (given : node ≠ 0) : fsResolve after path = .ok node := by
  obtain ⟨nodes, mnts⟩ := opened.tree leads given
  exact (fsResolve_congr nodes mnts path).trans leads

theorem fsClose_tree (closes : fsClose state fd = .ok (ret, after)) :
    after.nodes = state.nodes ∧ after.mnts = state.mnts := by
  by_cases unused : fsGetFile state fd = 0
  · cases (fsClose_unused unused).symm.trans closes
    exact ⟨rfl, rfl⟩
  · rw [fsClose_used rfl unused] at closes
    obtain ⟨freed, frees, closes⟩ := bind_ok closes
    obtain ⟨memory, _, rfl⟩ := free_ok frees
    obtain ⟨datas, closed⟩ := closeNode_datas state (fsGetFile state fd)
    cases closes
    rw [closed, fsFreeFd]
    split <;> exact ⟨rfl, rfl⟩

end Trees

end Kernix.Proofs
