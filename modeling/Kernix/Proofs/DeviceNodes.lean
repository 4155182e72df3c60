import Kernix.Proofs.FsReach

/-! Device nodes. A registration makes a node and its record, but no directory ever
lists the node, so no path leads to a device. -/

namespace Kernix.Proofs
open ByteMemory

variable {δ : Type}

def devTarget : List UInt8 := literal "/dev"

/-- The path of a device. -/
def devicePath (name : List UInt8) : List UInt8 := literal "/dev/" ++ name

/-- No mount lies at `/dev` or below it. -/
def Uncovered (state : FsState δ) : Prop :=
  ∀ slot, (state.mnts slot).active = true → ¬devTarget <+: text (state.mnts slot).path

instance (state : FsState δ) : Decidable (Uncovered state) := by
  unfold Uncovered
  infer_instance

/-- A run of registrations, with the handlers and the results, the latest first. -/
inductive DeviceRun (start : FsState δ) : List (ComponentHandler δ × Int) → FsState δ → Prop where
  | start : DeviceRun start [] start
  | register {log : List (ComponentHandler δ × Int)} {before after : FsState δ} {handler : ComponentHandler δ} {ret : Int}
      (run : DeviceRun start log before) (result : devfsRegisterDevice before handler = .ok (ret, after)) :
      DeviceRun start ((handler, ret) :: log) after

/-- A path leads to a device node of a handler. -/
def Bound (state : FsState δ) (path : List UInt8) (handler : ComponentHandler δ) : Prop :=
  ∃ node, fsResolve state path = .ok node ∧ node ≠ 0 ∧ (state.nodes node).type = fsDev ∧
    (state.devfsDatas (state.nodes node).priv).handler = some handler

/-- What a registration that returned 0 is for: the path leads to the device, and
later registrations of its name are refused. -/
def Registered (state : FsState δ) (later : List (ComponentHandler δ × Int)) (handler : ComponentHandler δ)
    (name : List UInt8) : Prop :=
  Bound state (devicePath name) handler ∧ ∀ entry ∈ later, entry.1.attachmentPoint = devicePath name → entry.2 = -1

/-- The mount of the devices: its root is the directory of `devfs`, and it has no children. -/
structure DevMount (state : FsState δ) (slot : Fin fsMaxMnts) : Prop where
  active : (state.mnts slot).active = true
  path : text (state.mnts slot).path = devTarget
  others : ∀ other, other ≠ slot → (state.mnts other).active = true → ¬devTarget <+: text (state.mnts other).path
  root : (state.mnts slot).root = state.devfsRoot
  given : state.devfsRoot ≠ 0
  type : (state.nodes state.devfsRoot).type = fsDir
  empty : (state.nodes state.devfsRoot).children = 0

namespace DevMount
variable {before after state : FsState δ} {slot : Fin fsMaxMnts}

/-- Only the root and the mounts matter. -/
theorem congr (mounted : DevMount before slot) (mnts : after.mnts = before.mnts)
    (root : after.devfsRoot = before.devfsRoot)
    (same : bareNode (after.nodes before.devfsRoot) = bareNode (before.nodes before.devfsRoot)) :
    DevMount after slot := by
  obtain ⟨active, path, others, rooted, given, type, empty⟩ := mounted
  refine ⟨mnts ▸ active, mnts ▸ path, mnts ▸ others, root ▸ mnts ▸ rooted, root ▸ given, ?_, ?_⟩
  · rw [root]
    exact (congrArg FsNode.type same :).trans type
  · rw [root]
    exact (congrArg FsNode.children same :).trans empty

theorem devfsLookup (mounted : DevMount state slot) (name : List UInt8) :
    devfsLookup state state.devfsRoot name = .ok 0 := by
  unfold Kernix.devfsLookup
  rw [if_neg (not_not.mpr mounted.type), mounted.empty]
  rfl

/-- The directory of the devices lists nothing, whatever its operations are. -/
theorem lookupIn (mounted : DevMount state slot) (name : List UInt8) : lookupIn state state.devfsRoot name = .ok 0 := by
  have nothing : (if (state.nodes state.devfsRoot).type ≠ fsDir then (.ok 0 : Except Stop Nat)
      else findChild state.nodes name addressSpace (state.nodes state.devfsRoot).children) =
        .ok 0 := mounted.devfsLookup name
  unfold Kernix.lookupIn tmpfsLookup Kernix.devfsLookup
  split
  next => rfl
  next => exact nothing
  next => exact nothing

theorem walk (mounted : DevMount state slot) (rel comp : List UInt8) :
    resolveFrom state rel state.devfsRoot comp = .ok 0 ∨
      resolveFrom state rel state.devfsRoot comp = .ok state.devfsRoot := by
  induction rel generalizing comp with
  | nil =>
    unfold resolveFrom
    split
    next => exact Or.inl (mounted.lookupIn comp)
    next => exact Or.inr rfl
  | cons byte rel ih =>
    unfold resolveFrom
    split
    next =>
      split
      next =>
        rw [mounted.lookupIn]
        exact Or.inl rfl
      next => exact ih comp
    next => exact ih _

/-- A path below `/dev` leads nowhere, or to the directory itself. -/
theorem resolve (mounted : DevMount state slot) (name : List UInt8) :
    fsResolve state (devicePath name) = .ok 0 ∨ fsResolve state (devicePath name) = .ok state.devfsRoot := by
  have start : devTarget <+: devicePath name := ⟨slash :: name, rfl⟩
  have offers : Offers state.mnts (devicePath name) slot :=
    ⟨mounted.active, by rw [mounted.path]; decide, by rw [mounted.path]; exact start⟩
  unfold fsResolve
  split
  next => exact Or.inl rfl
  next =>
    split
    next => exact Or.inl rfl
    next best found =>
      have longest := findMnt_longest found
      have same : best = slot := by
        by_contra different
        have longer : (text (state.mnts slot).path).length ≤ (text (state.mnts best).path).length := by
          have least := longest.least slot (List.mem_finRange slot) offers
          omega
        rw [mounted.path] at longer
        exact mounted.others best different longest.offers.active
          (List.prefix_of_prefix_length_le start longest.offers.start longer)
      rw [same, mounted.root, if_neg mounted.given]
      exact mounted.walk _ []

theorem unbound (mounted : DevMount state slot) (name : List UInt8) (handler : ComponentHandler δ) :
    ¬Bound state (devicePath name) handler := by
  rintro ⟨node, resolves, given, type, _⟩
  rcases mounted.resolve name with leads | leads
  · cases resolves.symm.trans leads
    exact given rfl
  · cases resolves.symm.trans leads
    rw [mounted.type] at type
    exact absurd type (by decide)

end DevMount

/-- Making a node leaves the mounts and every node that is in use alone. -/
theorem FsValid.mknode_old {before after : FsState δ} {blocks : List Block} {roles : Roles} {name : List UInt8}
    {type : UInt8}
    {node : Nat} (valid : FsValid before blocks roles) (result : fsMknode before name type = .ok (node, after)) :
    after.mnts = before.mnts ∧ after.devfsRoot = before.devfsRoot ∧ after.types = before.types ∧
      (node ≠ 0 → roles node = none) ∧ ∀ place, roles place ≠ none → after.nodes place = before.nodes place := by
  cases fsMknode_made result with
  | refused creates =>
    obtain ⟨memory, _, rfl⟩ := create_ok creates
    exact ⟨rfl, rfl, rfl, fun given => (given rfl).elim, fun _ _ => rfl⟩
  | fresh given creates =>
    rcases valid.create (by decide) creates with ⟨none, _⟩ | ⟨_, _, allocation, _⟩
    · exact (given none).elim
    · have free := allocation.free valid.owned
      obtain ⟨memory, _, rfl⟩ := create_ok creates
      refine ⟨rfl, rfl, rfl, fun _ => free, fun place used => Function.update_of_ne ?_ ..⟩
      rintro rfl
      exact used free

/-- A registration leaves the mounts and every node that is in use alone. -/
theorem FsValid.registers {before after : FsState δ} {blocks : List Block} {roles : Roles} {handler : ComponentHandler δ}
    {ret : Int} (valid : FsValid before blocks roles) (result : devfsRegisterDevice before handler = .ok (ret, after)) :
    after.mnts = before.mnts ∧ after.devfsRoot = before.devfsRoot ∧
      ∀ place, roles place ≠ none → bareNode (after.nodes place) = bareNode (before.nodes place) := by
  unfold devfsRegisterDevice at result
  split at result
  next =>
    cases result
    exact ⟨rfl, rfl, fun _ _ => rfl⟩
  next =>
    dsimp only at result
    obtain ⟨found, looks, rest⟩ := bind_ok result
    split at rest
    next =>
      cases rest
      exact ⟨rfl, rfl, fun _ _ => rfl⟩
    next =>
      obtain ⟨⟨node, made⟩, makes, rest⟩ := bind_ok rest
      obtain ⟨mnts, root, _, free, old⟩ := valid.mknode_old makes
      dsimp only at rest
      split at rest
      next =>
        cases rest
        exact ⟨mnts, root, fun place used => by rw [old place used]⟩
      next given =>
        obtain ⟨⟨data, stored⟩, creates, rest⟩ := bind_ok rest
        obtain ⟨memory, _, rfl⟩ := create_ok creates
        dsimp only at rest
        split at rest
        next =>
          obtain ⟨freed, frees, rest⟩ := bind_ok rest
          obtain ⟨memory', _, rfl⟩ := free_ok frees
          cases rest
          exact ⟨mnts, root, fun place used => by rw [old place used]⟩
        next =>
          obtain ⟨printed, prints, rest⟩ := bind_ok rest
          cases rest
          have tree := KeepsTree.systemPrintAll prints
          refine ⟨tree.mnts.trans mnts, tree.devfsRoot.trans root, fun place used => ?_⟩
          have different : place ≠ node := by
            rintro rfl
            exact used (free given)
          rw [tree.nodes, ← old place used]
          exact congrArg bareNode (Function.update_of_ne different ..)

/-- A successful mount of `devfs` at `/dev` is a mount of the devices. -/
theorem fsMount_devMount {ext4Mount : Ext4Mount δ} {before after : FsState δ} {src : Option (List UInt8)}
    (uncovered : Uncovered before) (result : fsMount ext4Mount before src devTarget (literal "devfs") = .ok (0, after)) :
    ∃ slot, DevMount after slot := by
  unfold fsMount at result
  split at result
  next => cases result
  next slot found =>
    split at result
    next => cases result
    next type named =>
      have spelled := List.find?_some named
      obtain rfl : type = .devfs := by
        revert spelled
        cases type <;> decide
      obtain ⟨copy, copied, rest⟩ := bind_ok result
      obtain ⟨⟨ret, mounted⟩, mounts, rest⟩ := bind_ok rest
      obtain ⟨⟨root, made⟩, makes, mounts⟩ := bind_ok mounts
      dsimp only at rest mounts
      split at rest
      next failed =>
        cases rest
        exact (failed rfl).elim
      next =>
        obtain ⟨printed, prints, rest⟩ := bind_ok rest
        cases rest
        have tree := KeepsTree.systemPrintAll prints
        cases fsMknode_made makes with
        | refused =>
          cases mounts
          contradiction
        | fresh given creates =>
          rw [if_neg given] at mounts
          obtain ⟨memory, _, rfl⟩ := create_ok creates
          cases mounts
          have spelled : text copy = devTarget := (strCopy_text (by decide) copied).2
          refine ⟨slot, DevMount.congr ?_ tree.mnts tree.devfsRoot (tree.nodes _)⟩
          refine ⟨?_, ?_, fun other different active => ?_, ?_, given, ?_, ?_⟩
          · simp [FsState.setMnt]
          · simpa [FsState.setMnt, FsState.setNode] using spelled
          · simp only [FsState.setMnt, FsState.setNode, Function.update_of_ne different] at active ⊢
            exact uncovered other active
          · simp [FsState.setMnt]
          · simp [FsState.setMnt, FsState.setNode]
          · simp [FsState.setMnt, FsState.setNode]

/-- A run of registrations stays reachable and keeps the mount of the devices. -/
theorem DeviceRun.keeps {start state : FsState δ} {log : List (ComponentHandler δ × Int)} {slot : Fin fsMaxMnts}
    (run : DeviceRun start log state) (reached : FsReachable start) (mounted : DevMount start slot) :
    FsReachable state ∧ DevMount state slot := by
  induction run with
  | start => exact ⟨reached, mounted⟩
  | register _ result ih =>
    obtain ⟨reached, mounted⟩ := ih
    obtain ⟨blocks, roles, valid⟩ := fs_reachable_wellFormed reached
    obtain ⟨mnts, root, old⟩ := valid.registers result
    have live := valid.roots slot mounted.active (mounted.root ▸ mounted.given)
    refine ⟨reached.device result, mounted.congr mnts root (old _ ?_)⟩
    rw [← mounted.root, live]
    exact Option.some_ne_none _

/-- No registration ever works: in every run behind a mount of `devfs` at `/dev`, a
handler whose registration returned 0 is bound to no path below `/dev`, its own
included, and the search for a name that is taken finds nothing. -/
theorem devices_never_registered {ext4Mount : Ext4Mount δ} {before start state : FsState δ} {src : Option (List UInt8)}
    {later earlier : List (ComponentHandler δ × Int)} {handler : ComponentHandler δ}
    (tame : Tame ext4Mount) (reached : FsReachable before) (uncovered : Uncovered before)
    (mounts : fsMount ext4Mount before src devTarget (literal "devfs") = .ok (0, start))
    (run : DeviceRun start (later ++ (handler, 0) :: earlier) state) (name : List UInt8) :
    ¬Registered state later handler name ∧ devfsLookup state state.devfsRoot name = .ok 0 := by
  obtain ⟨slot, mounted⟩ := fsMount_devMount uncovered mounts
  obtain ⟨_, mounted⟩ := run.keeps (reached.mount tame mounts) mounted
  exact ⟨fun registered => mounted.unbound name handler registered.1, mounted.devfsLookup name⟩

/-- A driver without hooks. -/
private def nullHandler : ComponentHandler Unit := ⟨devicePath (literal "null"), none, none, none⟩

/-- Mount the devices and register one of them twice. -/
private def registersTwice (state : FsState Unit) : Bool :=
  match fsMount noDisk state none devTarget (literal "devfs") with
  | .ok (0, start) =>
    match devfsRegisterDevice start nullHandler with
    | .ok (0, middle) =>
      match devfsRegisterDevice middle nullHandler with
      | .ok (0, _) => true
      | _ => false
    | _ => false
  | _ => false

private theorem null_twice : ∃ before start state : FsState Unit, FsReachable before ∧ Uncovered before ∧
    fsMount noDisk before none devTarget (literal "devfs") = .ok (0, start) ∧
    DeviceRun start [(nullHandler, 0), (nullHandler, 0)] state := by
  obtain ⟨before, reached, fine⟩ := rootedFs_any (fun state => decide (Uncovered state) && registersTwice state)
    (by decide +kernel)
  obtain ⟨uncovered, twice⟩ := (Bool.and_eq_true _ _).mp fine
  unfold registersTwice at twice
  split at twice
  next start mounts =>
    split at twice
    next middle first =>
      split at twice
      next last second => exact ⟨before, start, last, reached, of_decide_eq_true uncovered, mounts, (DeviceRun.start.register first).register second⟩
      next => cases twice
    next => cases twice
  next => cases twice

theorem devices_never_registered_null : ∃ before start state : FsState Unit, FsReachable before ∧ Uncovered before ∧
    fsMount noDisk before none devTarget (literal "devfs") = .ok (0, start) ∧
    DeviceRun start [(nullHandler, 0), (nullHandler, 0)] state ∧
    ¬Registered state [(nullHandler, 0)] nullHandler (literal "null") := by
  obtain ⟨before, start, state, reached, uncovered, mounts, run⟩ := null_twice
  have run' : DeviceRun start ([(nullHandler, 0)] ++ (nullHandler, 0) :: []) state := run
  exact ⟨before, start, state, reached, uncovered, mounts, run,
    (devices_never_registered noDisk_tame reached uncovered mounts run' (literal "null")).1⟩

/-- Two registrations of one name both return 0, and its path leads nowhere. -/
theorem devices_registered_fails : ¬∀ (before start state : FsState Unit)
    (later earlier : List (ComponentHandler Unit × Int))
    (handler : ComponentHandler Unit) (name : List UInt8), FsReachable before → Uncovered before →
    fsMount noDisk before none devTarget (literal "devfs") = .ok (0, start) →
    DeviceRun start (later ++ (handler, 0) :: earlier) state → handler.attachmentPoint = devicePath name →
    Registered state later handler name := by
  intro registered
  obtain ⟨before, start, state, reached, uncovered, mounts, run⟩ := null_twice
  have refused := (registered before start state [(nullHandler, 0)] [] nullHandler (literal "null") reached uncovered mounts run rfl).2
  exact absurd (refused (nullHandler, 0) List.mem_cons_self rfl) (by decide)

end Kernix.Proofs
