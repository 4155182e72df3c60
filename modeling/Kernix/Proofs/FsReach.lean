import Kernix.Proofs.FsRuns

/-! Every state that the kernel can bring the file systems into is valid: the one
behind `fs_init`, and with it every state behind any sequence of calls. -/

namespace Kernix.Proofs
open ByteMemory

variable {δ : Type}

/-- A state whose objects are all in place. -/
def WellFormed (state : FsState δ) : Prop := ∃ blocks roles, FsValid state blocks roles

/-- What the mounts rely on where a disk is concerned: `ext4_mount` makes its nodes
of blocks that were free and leaves everything else alone. -/
def Tame (ext4Mount : Ext4Mount δ) : Prop :=
  ∀ state src tgt mounted blocks roles, FsValid state blocks roles → ext4Mount state src tgt = .ok mounted →
    ∃ blocks' roles', FsValid { state with memory := mounted.memory, nodes := mounted.nodes } blocks' roles' ∧
      (mounted.root ≠ 0 → roles' mounted.root = some .node)

/-- The states that calls lead to from the start of the kernel on. -/
inductive FsReachable : FsState δ → Prop where
  | boot {memory memory' : Memory} {ptr size kernelMemory : Nat} {devices : δ} {state : FsState δ}
      (fits : ptr + heapSize < 2 ^ 64) (init : kernelMemoryInit memory ptr size = .ok (kernelMemory, memory'))
      (starts : fsInit (fsStatic memory' kernelMemory devices) = .ok state) : FsReachable state
  | register {before after : FsState δ} {type : FsType} {ret : Int} (reached : FsReachable before)
      (result : fsRegister before type = .ok (ret, after)) : FsReachable after
  | mount {ext4Mount : Ext4Mount δ} {before after : FsState δ} {src : Option (List UInt8)} {tgt typeName : List UInt8}
      {ret : Int} (tame : Tame ext4Mount) (reached : FsReachable before)
      (result : fsMount ext4Mount before src tgt typeName = .ok (ret, after)) : FsReachable after
  | device {before after : FsState δ} {handler : ComponentHandler δ} {ret : Int} (reached : FsReachable before)
      (result : devfsRegisterDevice before handler = .ok (ret, after)) : FsReachable after
  | mkdir {before after : FsState δ} {path : List UInt8} {ret : Int} (reached : FsReachable before)
      (result : fsMkdir before path = .ok (ret, after)) : FsReachable after
  | call {before after : FsState δ} {call : FileCall} {ret : Int} {bytes : List UInt8} (reached : FsReachable before)
      (result : call.run before = .ok (ret, bytes, after)) : FsReachable after
  | log {state : FsState δ} (reached : FsReachable state) (fd : Int) : FsReachable { state with initBootLog := fd }

namespace FsValid
variable {before after : FsState δ} {blocks : List Block} {roles : Roles} {ret : Int}

theorem systemPrint (valid : FsValid before blocks roles) {msg : List UInt8}
    (result : systemPrint before msg = .ok after) :
    ∃ blocks' roles', FsValid after blocks' roles' ∧ RolesKept roles roles' := by
  unfold Kernix.systemPrint at result
  split at result
  next =>
    obtain ⟨⟨ret, written⟩, writes, rfl⟩ := map_ok result
    exact valid.fsWrite_valid writes
  next =>
    cases result
    exact ⟨blocks, roles, valid, .refl roles⟩

theorem systemPrintAll (valid : FsValid before blocks roles) {msgs : List (List UInt8)}
    (result : systemPrintAll before msgs = .ok after) :
    ∃ blocks' roles', FsValid after blocks' roles' ∧ RolesKept roles roles' := by
  unfold Kernix.systemPrintAll at result
  induction msgs generalizing before blocks roles with
  | nil =>
    cases result
    exact ⟨blocks, roles, valid, .refl roles⟩
  | cons msg msgs ih =>
    obtain ⟨middle, prints, rest⟩ := bind_ok result
    obtain ⟨_, _, valid', kept⟩ := valid.systemPrint prints
    obtain ⟨blocks', roles', valid'', kept'⟩ := ih valid' rest
    exact ⟨blocks', roles', valid'', kept.trans kept'⟩

theorem setMnt (valid : FsValid before blocks roles) {slot : Fin fsMaxMnts} {mnt : FsMnt}
    (root : mnt.active = true → mnt.root ≠ 0 → roles mnt.root = some .node) :
    FsValid (before.setMnt slot mnt) blocks roles := by
  refine ⟨⟨valid.owned.heap, valid.owned.live⟩, fun node live file => ?_, valid.low, valid.table, valid.opened,
    valid.pos, ?_,
    valid.kids⟩
  · exact (valid.files node live ⟨file.ops, file.type⟩).transfer rfl rfl (fun _ => rfl) (fun _ used => used)
      (fun _ used => used) fun _ _ _ member => member
  · intro other active given
    simp only [FsState.setMnt, Function.update_apply] at active given ⊢
    split at active
    next same =>
      rw [if_pos same] at given ⊢
      exact root active given
    next different =>
      rw [if_neg different] at given ⊢
      exact valid.roots other active given

/-- A new node that is not a file, outside every directory. -/
theorem mknode (valid : FsValid before blocks roles) {name : List UInt8} {type : UInt8} {node : Nat}
    (result : fsMknode before name type = .ok (node, after)) (other : type ≠ fsFile) (ops : Option FsOps) :
    node = 0 ∧ after = before ∨
      node ≠ 0 ∧ ∃ blocks' roles', FsValid (after.setNode node { after.nodes node with ops }) blocks' roles' ∧
        roles' node = some .node := by
  cases fsMknode_made result with
  | refused creates =>
    rcases valid.create (by decide) creates with ⟨_, rfl⟩ | ⟨_, _, allocation, _⟩
    · exact Or.inl ⟨rfl, rfl⟩
    · exact (allocation.given rfl).elim
  | @fresh _ made array given creates =>
    rcases valid.create (by decide) creates with ⟨none, _⟩ | ⟨blocks', width, allocation, unseen⟩
    · exact (given none).elim
    · have planted : FsValid (made.setNode node ⟨array, type, 0, ops, 0, 0, 0, 0⟩) blocks' (roles.assign node .node) :=
        unseen.valid.plant allocation.held (allocation.free valid.owned) rfl other
      refine Or.inr ⟨given, blocks', roles.assign node .node, ?_, Roles.assign_self ..⟩
      simpa [FsState.setNode] using planted

/-- A mounted root is a node. -/
theorem mountAs_valid (valid : FsValid before blocks roles) {ext4Mount : Ext4Mount δ} (tame : Tame ext4Mount)
    {slot : Fin fsMaxMnts} {src : Option (List UInt8)} {tgt : List UInt8} {type : FsType}
    (idle : (before.mnts slot).active = false) (result : mountAs ext4Mount before slot src tgt type = .ok (ret, after)) :
    ∃ blocks' roles', FsValid after blocks' roles' ∧
      (ret = 0 → (after.mnts slot).root ≠ 0 → roles' (after.mnts slot).root = some .node) := by
  have rooted {state : FsState δ} {root : Nat} {blocks' : List Block} {roles' : Roles}
    (valid' : FsValid state blocks' roles')
      (mnts : state.mnts = before.mnts) (live : root ≠ 0 → roles' root = some .node) (priv : Nat) :
      FsValid (state.setMnt slot { state.mnts slot with root, priv }) blocks' roles' ∧
        ((state.setMnt slot { state.mnts slot with root, priv }).mnts slot).root = root := by
    refine ⟨valid'.setMnt fun active => ?_, ?_⟩
    · rw [mnts, idle] at active
      cases active
    · simp [FsState.setMnt]
  cases type with
  | tmpfs =>
    obtain ⟨⟨root, made⟩, makes, rest⟩ := bind_ok result
    have mnts := (fsMknode_made makes).mnts
    dsimp only at rest
    rcases valid.mknode makes (by decide) (some .tmpfs) with ⟨none, rfl⟩ | ⟨given, blocks', roles', valid', live⟩
    · rw [if_pos none] at rest
      cases rest
      exact ⟨blocks, roles, valid, fun failed => by cases failed⟩
    · rw [if_neg given] at rest
      cases rest
      obtain ⟨final, same⟩ := rooted valid' mnts (fun _ => live) (made.mnts slot).priv
      exact ⟨blocks', roles', final, fun _ _ => same.symm ▸ live⟩
  | devfs =>
    obtain ⟨⟨root, made⟩, makes, rest⟩ := bind_ok result
    have mnts := (fsMknode_made makes).mnts
    dsimp only at rest
    rcases valid.mknode makes (by decide) (some .devfs) with ⟨none, rfl⟩ | ⟨given, blocks', roles', valid', live⟩
    · rw [if_pos none] at rest
      cases rest
      exact ⟨blocks, roles, valid, fun failed => by cases failed⟩
    · rw [if_neg given] at rest
      cases rest
      obtain ⟨final, same⟩ := rooted valid' mnts (fun _ => live) (made.mnts slot).priv
      exact ⟨blocks', roles', (final.outside _ _ root _ _).1, fun _ _ => same.symm ▸ live⟩
  | ext4 =>
    obtain ⟨mounted, mounts, rest⟩ := bind_ok result
    cases rest
    obtain ⟨blocks', roles', valid', live⟩ := tame _ _ _ _ _ _ valid mounts
    obtain ⟨final, same⟩ := rooted valid' rfl live mounted.priv
    exact ⟨blocks', roles', final, fun _ => same.symm ▸ live⟩

theorem fsMount_valid (valid : FsValid before blocks roles) {ext4Mount : Ext4Mount δ} (tame : Tame ext4Mount)
    {src : Option (List UInt8)} {tgt typeName : List UInt8}
    (result : fsMount ext4Mount before src tgt typeName = .ok (ret, after)) : WellFormed after := by
  unfold fsMount at result
  split at result
  next =>
    cases result
    exact ⟨blocks, roles, valid⟩
  next slot found =>
    have idle : (before.mnts slot).active = false := by simpa using (FirstIndex.found_iff.mp found).1
    split at result
    next =>
      cases result
      exact ⟨blocks, roles, valid⟩
    next type _ =>
      obtain ⟨path, copied, rest⟩ := bind_ok result
      obtain ⟨⟨ret', mounted⟩, mounts, rest⟩ := bind_ok rest
      have valid₁ : FsValid (before.setMnt slot { before.mnts slot with path, type := some type, root := 0, priv := 0 })
          blocks roles := valid.setMnt fun _ given => (given rfl).elim
      obtain ⟨blocks₂, roles₂, valid₂, live⟩ := valid₁.mountAs_valid tame (by simpa [FsState.setMnt] using idle) mounts
      dsimp only at rest
      split at rest
      next =>
        cases rest
        exact ⟨blocks₂, roles₂, valid₂⟩
      next done =>
        obtain ⟨printed, prints, rest⟩ := bind_ok rest
        cases rest
        have valid₃ : FsValid (mounted.setMnt slot { mounted.mnts slot with active := true }) blocks₂ roles₂ :=
          valid₂.setMnt fun _ given => live (not_not.mp done) given
        obtain ⟨blocks', roles', valid', _⟩ := valid₃.systemPrintAll prints
        exact ⟨blocks', roles', valid'⟩

theorem fsMkdir_valid (valid : FsValid before blocks roles) {path : List UInt8}
    (result : fsMkdir before path = .ok (ret, after)) : WellFormed after := by
  unfold fsMkdir at result
  obtain ⟨⟨ppath, dname⟩, splits, rest⟩ := bind_ok result
  obtain ⟨parent, resolves, rest⟩ := bind_ok rest
  obtain ⟨_, resolves', live⟩ := valid.resolve ppath
  cases resolves.symm.trans resolves'
  dsimp only at rest
  split at rest
  next =>
    cases rest
    exact ⟨blocks, roles, valid⟩
  next given =>
    unfold mkdirIn at rest
    split at rest
    next =>
      cases rest
      exact ⟨blocks, roles, valid⟩
    next mkdir offered =>
      split at offered
      next =>
        cases offered
        obtain ⟨⟨ret', made⟩, makes, rest⟩ := bind_ok rest
        obtain ⟨_, blocks₁, roles₁, valid₁, _⟩ := valid.tmpfsNew_valid (live given) makes
        dsimp only at rest
        split at rest
        next =>
          cases rest
          exact ⟨blocks₁, roles₁, valid₁⟩
        next =>
          obtain ⟨printed, prints, rest⟩ := bind_ok rest
          cases rest
          obtain ⟨blocks', roles', valid', _⟩ := valid₁.systemPrintAll prints
          exact ⟨blocks', roles', valid'⟩
      next => cases offered

theorem devfsRegisterDevice_valid (valid : FsValid before blocks roles) {handler : ComponentHandler δ}
    (result : devfsRegisterDevice before handler = .ok (ret, after)) : WellFormed after := by
  unfold devfsRegisterDevice at result
  split at result
  next =>
    cases result
    exact ⟨blocks, roles, valid⟩
  next =>
    dsimp only at result
    obtain ⟨found, looks, rest⟩ := bind_ok result
    split at rest
    next =>
      cases rest
      exact ⟨blocks, roles, valid⟩
    next =>
      obtain ⟨⟨node, middle⟩, makes, rest⟩ := bind_ok rest
      dsimp only at rest
      cases fsMknode_made makes with
      | refused creates =>
        cases rest
        rcases valid.create (by decide) creates with ⟨_, rfl⟩ | ⟨_, _, allocation, _⟩
        · exact ⟨blocks, roles, valid⟩
        · exact (allocation.given rfl).elim
      | @fresh _ made array given creates copied =>
        rw [if_neg given] at rest
        rcases valid.create (by decide) creates with ⟨none, _⟩ | ⟨blocks₁, width, allocation, unseen⟩
        · exact (given none).elim
        · have free := allocation.free valid.owned
          have valid₁ := unseen.valid.stray free ⟨array, fsDev, 0, none, 0, 0, 0, 0⟩
          have held : (node, width) ∈ liveEntries (made.setNode node ⟨array, fsDev, 0, none, 0, 0, 0, 0⟩) blocks₁ :=
            allocation.held
          obtain ⟨⟨data, last⟩, makes', rest⟩ := bind_ok rest
          dsimp only at rest
          rcases valid₁.create (by decide) makes' with ⟨none, rfl⟩ | ⟨blocks₂, width', allocation', unseen'⟩
          · rw [if_pos none] at rest
            obtain ⟨freed, frees, rest⟩ := bind_ok rest
            cases rest
            obtain ⟨blocks', valid', _⟩ := valid₁.release held free frees
            exact ⟨blocks', roles, valid'⟩
          · rw [if_neg allocation'.given] at rest
            obtain ⟨printed, prints, rest⟩ := bind_ok rest
            cases rest
            have type : (last.nodes node).type = fsDev := by
              rw [allocation'.typed]
              simp [FsState.setNode]
            have childless : (last.nodes node).children = 0 := by
              rw [allocation'.typed]
              simp [FsState.setNode]
            have valid₂ := (unseen'.valid.outside last.types (Function.update last.devfsDatas data ⟨some handler, 0⟩)
              last.devfsRoot last.initBootLog last.devices).1
            have other : (last.nodes node).type ≠ fsFile := by
              rw [type]
              decide
            have planted : FsValid ((last.setDevfsData data ⟨some handler, 0⟩).setNode node
                { last.nodes node with priv := data, ops := some .devfs }) blocks₂ (roles.assign node .node) :=
              valid₂.plant (allocation'.survives held) free childless other
            obtain ⟨blocks', roles', valid', _⟩ := planted.systemPrintAll prints
            exact ⟨blocks', roles', valid'⟩

end FsValid

/-- The file systems behind `fs_init`, on a fresh heap. -/
theorem fsStatic_valid {memory memory' : Memory} {ptr size kernelMemory : Nat} (fits : ptr + heapSize < 2 ^ 64)
    (init : kernelMemoryInit memory ptr size = .ok (kernelMemory, memory')) (devices : δ) :
    FsValid (fsStatic memory' kernelMemory devices) [⟨heapTotal, false⟩] (fun _ => none) := by
  have starts : AccountInitial ptr ⟨memory', kernelMemory, []⟩ := ⟨memory, size, init, rfl⟩
  obtain ⟨heap, _⟩ := accountInitial_valid fits starts
  refine ⟨⟨heap, by simp⟩, by simp, ?_, ?_, ?_, ?_, ?_, by simp⟩ <;> simp [fsStatic]

theorem fs_reachable_wellFormed {state : FsState δ} (reached : FsReachable state) : WellFormed state := by
  induction reached with
  | boot fits init starts =>
    obtain ⟨printed, prints, rest⟩ := bind_ok starts
    cases rest
    obtain ⟨blocks, roles, valid, _⟩ := (fsStatic_valid fits init _).systemPrintAll prints
    refine ⟨blocks, roles, ⟨valid.owned.heap, valid.owned.live⟩, ?_, ?_, ?_, ?_, ?_, ?_, valid.kids⟩
    · exact fun node live file => (valid.files node live ⟨file.ops, file.type⟩).transfer rfl rfl (fun _ => rfl)
        (fun _ used => used) (fun _ used => used) fun _ _ _ member => member
    all_goals simp
  | register _ result ih =>
    obtain ⟨blocks, roles, valid⟩ := ih
    unfold fsRegister at result
    split at result
    next =>
      cases result
      exact ⟨blocks, roles, valid⟩
    next =>
      obtain ⟨printed, prints, rest⟩ := bind_ok result
      cases rest
      obtain ⟨blocks', roles', valid', _⟩ := (valid.outside _ _ _ _ _).1.systemPrintAll prints
      exact ⟨blocks', roles', valid'⟩
  | mount tame _ result ih =>
    obtain ⟨blocks, roles, valid⟩ := ih
    exact valid.fsMount_valid tame result
  | device _ result ih =>
    obtain ⟨blocks, roles, valid⟩ := ih
    exact valid.devfsRegisterDevice_valid result
  | mkdir _ result ih =>
    obtain ⟨blocks, roles, valid⟩ := ih
    exact valid.fsMkdir_valid result
  | call _ result ih =>
    obtain ⟨blocks, roles, valid⟩ := ih
    exact valid.call result
  | log _ fd ih =>
    obtain ⟨blocks, roles, valid⟩ := ih
    exact ⟨blocks, roles, (valid.outside _ _ _ fd _).1⟩

theorem noDisk_tame : Tame noDisk := by
  intro state src tgt mounted blocks roles valid result
  cases result
  exact ⟨blocks, roles, valid, fun given => (given rfl).elim⟩

theorem registeredFs_reachable : FsReachable registeredFs := by
  have positive : 0 < heapStart := by decide
  have room : headerSize ≤ heapSize := by decide
  have fits : heapStart + heapSize < 2 ^ 64 := by decide
  obtain ⟨after, init, _⟩ := kernelMemoryInit_spec (fun _ => 0) positive room fits
  have heap : zeroedHeap = after := by rw [zeroedHeap, init]
  have booted : FsReachable (fsStatic after heapStart ()) := .boot fits init rfl
  rw [registeredFs, heap]
  have tmpfs : FsReachable { fsStatic after heapStart () with types := [.tmpfs] } := booted.register rfl
  have devfs : FsReachable { fsStatic after heapStart () with types := [.tmpfs, .devfs] } := tmpfs.register rfl
  exact devfs.register rfl

/-- Mounting keeps a state reachable. -/
theorem mountAll_reachable {ext4Mount : Ext4Mount δ} (tame : Tame ext4Mount) {first last : FsState δ}
    {requests : List (List UInt8 × FsType)} (reached : FsReachable first)
    (run : mountAll ext4Mount first requests = some last) :
    FsReachable last := by
  induction requests generalizing first with
  | nil =>
    cases run
    exact reached
  | cons request requests ih =>
    unfold mountAll at run
    split at run
    next after result => exact ih (.mount tame reached result) run
    next => cases run

/-- The file systems behind the mount of the root. -/
def rootedFs : Option (FsState Unit) := mountAll noDisk registeredFs [(literal "/", .tmpfs)]

theorem rootedFs_reachable {state : FsState Unit} (run : rootedFs = some state) : FsReachable state :=
  mountAll_reachable noDisk_tame registeredFs_reachable run

/-- A reachable state with a property that can be computed. -/
theorem rootedFs_any (check : FsState Unit → Bool) (passes : rootedFs.any check = true) :
    ∃ state, FsReachable state ∧ check state = true := by
  obtain ⟨state, run, fine⟩ := (Option.any_eq_true _ _).mp passes
  exact ⟨state, rootedFs_reachable run, fine⟩

end Kernix.Proofs
