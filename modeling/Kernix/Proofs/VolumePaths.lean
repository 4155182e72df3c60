import Kernix.Proofs.VolumeMounts

/-! Paths into a mounted volume. A node of ext4 has no table of operations, so no path leads
past the root of the volume, and nothing is read or written through a descriptor. -/

namespace Kernix.Proofs
open ByteMemory

variable {δ : Type}

/-- The components of a path, in front of which `comp` has been read already. -/
def componentsFrom : List UInt8 → List UInt8 → List (List UInt8)
  | [], comp => if comp = [] then [] else [comp]
  | byte :: rest, comp =>
    if byte = slash then if comp = [] then componentsFrom rest [] else comp :: componentsFrom rest []
    else componentsFrom rest (comp ++ [byte])

def components (path : List UInt8) : List (List UInt8) := componentsFrom path []

/-- `ext4_lookup` for one name after the other. -/
def lookupAll (state : Ext4State δ) : Nat → List (List UInt8) → Except Stop (Nat × Ext4State δ)
  | node, [] => .ok (node, state)
  | node, name :: rest => do
    let (next, state) ← ext4Lookup state node name
    if next = 0 then return (0, state)
    lookupAll state next rest

/-- The driver whose functions `fs_read` and `fs_write` call. -/
def driverOf (node : FsNode) : Option FsType :=
  match node.ops with
  | none => none
  | some .tmpfs => some .tmpfs
  | some .devfs => some .devfs

/-- A volume that `ext4_mount` has put at a target: its root is the node of inode 2, and
nobody has given it a table since. -/
structure MountedVolume (state : Ext4State δ) (slot : Fin fsMaxMnts) (tgt : List UInt8) : Prop where
  path : text (state.fs.mnts slot).path = tgt
  active : (state.fs.mnts slot).active = true
  given : (state.fs.mnts slot).root ≠ 0
  made : ∃ before after : Ext4State δ, Formatted (before.datas (state.fs.mnts slot).priv) ∧
    ext4CreateNode before (state.fs.mnts slot).priv 2 tgt = .ok ((state.fs.mnts slot).root, after) ∧
    (state.fs.nodes (state.fs.mnts slot).root).ops = (after.fs.nodes (state.fs.mnts slot).root).ops

/-- The path to a file of the volume leads to the node that the volume has for it, and
descriptors on this node are served by ext4. -/
structure Served (state : Ext4State δ) (slot : Fin fsMaxMnts) (tgt path : List UInt8) : Prop where
  resolves : ∀ node after, lookupAll state (state.fs.mnts slot).root (components path) = .ok (node, after) →
    fsResolve state.fs (tgt ++ slash :: path) = .ok node
  dispatched : ∀ node, fsResolve state.fs (tgt ++ slash :: path) = .ok node → node ≠ 0 →
    driverOf (state.fs.nodes node) = some .ext4

/-- Without a driver `fs_read` and `fs_write` fail and do nothing. -/
theorem undriven_calls {state : FsState δ} {fd : Int}
    (undriven : driverOf (state.nodes (state.files (fsGetFile state fd)).node) = none) (cnt : Nat) (buf : List UInt8) :
    fsRead state fd cnt = .ok (-1, [], state) ∧ fsWrite state fd buf = .ok (-1, state) := by
  have untabled : (state.nodes (state.files (fsGetFile state fd)).node).ops = none := by
    unfold driverOf at undriven
    split at undriven
    next none => exact none
    next => cases undriven
    next => cases undriven
  unfold fsRead fsWrite
  dsimp only
  rw [untabled]
  exact ⟨ite_self _, ite_self _⟩

theorem MountedVolume.untabled {state : Ext4State δ} {slot : Fin fsMaxMnts} {tgt : List UInt8}
    (volume : MountedVolume state slot tgt) : (state.fs.nodes (state.fs.mnts slot).root).ops = none := by
  obtain ⟨before, after, formatted, creates, kept⟩ := volume.made
  obtain ⟨_, _, _, _, _, nodes, _⟩ := (ext4CreateNode_spec formatted creates).made volume.given
  rw [kept, nodes, Function.update_self]

/-- The target of a mount, as `fs_mount` fills the table after `ext4_mount`. -/
theorem ext4Mount_volume {before after state : Ext4State δ} {src root priv : Nat} {tgt : List UInt8}
    {slot : Fin fsMaxMnts}
    (mounted : ext4Mount before src tgt = .ok (0, root, priv, after)) (given : root ≠ 0)
    (nodes : state.fs.nodes = after.fs.nodes) (path : text (state.fs.mnts slot).path = tgt)
    (active : (state.fs.mnts slot).active = true) (stored : (state.fs.mnts slot).root = root)
    (stored' : (state.fs.mnts slot).priv = priv) : MountedVolume state slot tgt := by
  unfold ext4Mount at mounted
  obtain ⟨header, headed, rest⟩ := bind_ok mounted
  cases header with
  | failed => cases rest
  | described dataPtr data held =>
    obtain ⟨⟨gdBytes, disk⟩, _, rest⟩ := bind_ok rest
    obtain ⟨⟨node, made⟩, creates, rest⟩ := bind_ok rest
    cases rest
    have described : Described before src priv data held := headed
    have formatted := described.header.formatted
    refine ⟨path, active, stored ▸ given, _, after, ?_, by rw [stored, stored']; exact creates, by rw [nodes]⟩
    rw [stored']
    dsimp only
    rw [Function.update_self]
    exact ⟨formatted.sectors, formatted.small⟩

private theorem componentsFrom_nil {path comp : List UInt8} :
    componentsFrom path comp = [] ↔ comp = [] ∧ ∀ byte ∈ path, byte = slash := by
  induction path generalizing comp with
  | nil =>
    unfold componentsFrom
    split <;> simp_all
  | cons byte rest ih =>
    unfold componentsFrom
    split
    next same =>
      split
      next empty => simp [ih, empty, same]
      next named => simp [named]
    next other => simp [ih, other]

/-- From a node without a table there is no way on. -/
private theorem resolveFrom_untabled {state : FsState δ} {cur : Nat} (untabled : (state.nodes cur).ops = none)
    (rel comp : List UInt8) :
    resolveFrom state rel cur comp = .ok (if componentsFrom rel comp = [] then cur else 0) := by
  have missing (name : List UInt8) : lookupIn state cur name = .ok 0 := by
    unfold lookupIn
    rw [untabled]
  induction rel generalizing comp with
  | nil =>
    unfold resolveFrom componentsFrom
    rw [missing]
    cases comp <;> simp
  | cons byte rel ih =>
    unfold resolveFrom componentsFrom
    rw [missing]
    by_cases ends : byte = slash
    · rw [if_pos ends, if_pos ends]
      cases comp with
      | nil => simpa using ih []
      | cons first comp => simp [bind, Except.bind, pure, Except.pure]
    · rw [if_neg ends, if_neg ends, ih]
      congr 2
      simp only [componentsFrom_nil]
      split <;> cases comp <;> simp_all

/-- Where a path into a volume leads. -/
private theorem MountedVolume.resolve {state : Ext4State δ} {slot : Fin fsMaxMnts} {tgt path : List UInt8}
    (volume : MountedVolume state slot tgt) (chosen : findMnt state.fs.mnts (tgt ++ slash :: path) = some slot) :
    (components path ≠ [] → fsResolve state.fs (tgt ++ slash :: path) = .ok 0) ∧
      ∀ node, fsResolve state.fs (tgt ++ slash :: path) = .ok node → node = 0 ∨ node = (state.fs.mnts slot).root := by
  have rest : relativePath (text (state.fs.mnts slot).path) (tgt ++ slash :: path) = path := by
    rw [volume.path, relativePath, List.drop_left]
    exact if_pos rfl
  unfold fsResolve
  split
  next => exact ⟨fun _ => rfl, fun node result => Or.inl (Except.ok.inj result).symm⟩
  next =>
    rw [chosen]
    dsimp only
    rw [if_neg volume.given, rest, resolveFrom_untabled volume.untabled]
    change (components path ≠ [] → Except.ok (if components path = [] then _ else 0) = Except.ok 0) ∧
      ∀ node, Except.ok (if components path = [] then _ else 0) = .ok node → _
    refine ⟨fun named => by rw [if_neg named], fun node result => ?_⟩
    split at result
    next => exact Or.inr (Except.ok.inj result).symm
    next => exact Or.inl (Except.ok.inj result).symm

/-- A path into a volume is served exactly when it names no file: it has a component, and
looking its components up in the volume ends with `NULL`. -/
theorem volume_path_served_iff {state : Ext4State δ} {slot : Fin fsMaxMnts} {tgt path : List UInt8}
    (volume : MountedVolume state slot tgt) (chosen : findMnt state.fs.mnts (tgt ++ slash :: path) = some slot) :
    Served state slot tgt path ↔ components path ≠ [] ∧
      ∀ node after, lookupAll state (state.fs.mnts slot).root (components path) = .ok (node, after) → node = 0 := by
  obtain ⟨unnamed, either⟩ := volume.resolve chosen
  constructor
  · intro served
    have named : components path ≠ [] := by
      intro none
      have looked : lookupAll state (state.fs.mnts slot).root (components path) =
        .ok ((state.fs.mnts slot).root, state) := by
        rw [none, lookupAll]
      have driven := served.dispatched _ (served.resolves _ _ looked) volume.given
      unfold driverOf at driven
      rw [volume.untabled] at driven
      cases driven
    refine ⟨named, fun node after looked => ?_⟩
    exact Except.ok.inj ((served.resolves node after looked).symm.trans (unnamed named))
  · rintro ⟨named, missing⟩
    refine ⟨fun node after looked => ?_, fun node resolved given => ?_⟩
    · rw [missing node after looked]
      exact unnamed named
    · exact (given (Except.ok.inj (resolved.symm.trans (unnamed named)))).elim

local instance volumeSlots : NeZero fsMaxMnts := ⟨by decide⟩

/-- A volume at "/mnt" with blocks of 512 bytes, whose directory is block 9. -/
private def mountedImage (bytes : Nat → UInt8) : Option (Ext4State Unit) :=
  let start := imageState zeroedHeap (cut (store (store (fun _ => 0) 1 1 0x41) 40 4 9)) bytes
  match ext4CreateNode { start with datas := fun _ => { imageData with blockSize := 512 } } 1 2 (literal "/mnt"),
    strCopy (fun _ => 0) (literal "/mnt") with
  | .ok (root, state), .ok path => some { state with fs := state.fs.setMnt 0 ⟨path, some .ext4, root, 1, true⟩ }
  | _, _ => none

/-- The look-up of the file "a" ends with a node, or with `NULL`. -/
private def looksUp (found : Bool) (state : Ext4State Unit) : Bool :=
  (state.fs.mnts 0).root ≠ 0 && findMnt state.fs.mnts (literal "/mnt/a") = some 0 &&
  match lookupAll state (state.fs.mnts 0).root (components (literal "a")) with
  | .ok (node, _) => found == (node ≠ 0)
  | .error _ => false

private theorem mountedImage_volume {bytes : Nat → UInt8} {state : Ext4State Unit}
    (mounted : mountedImage bytes = some state)
    (given : (state.fs.mnts 0).root ≠ 0) : MountedVolume state 0 (literal "/mnt") := by
  unfold mountedImage at mounted
  dsimp only at mounted
  split at mounted
  next root made path creates copies =>
    cases mounted
    have formatted : Formatted { imageData with blockSize := 512 } :=
      ⟨show sectorSize ∣ 512 by decide, show 512 < 2 ^ 32 by decide⟩
    exact ⟨(strCopy_text (by decide) copies).2, rfl, given, _, made, formatted, creates, rfl⟩
  next => cases mounted

/-- A path to a file that does not exist leads nowhere on both ways. -/
theorem volume_path_served_iff_missing : ∃ state : Ext4State Unit, MountedVolume state 0 (literal "/mnt") ∧
    findMnt state.fs.mnts (literal "/mnt/a") = some 0 ∧ Served state 0 (literal "/mnt") (literal "a") := by
  obtain ⟨state, mounted, checked⟩ := (Option.any_eq_true _ _).mp
    (show (mountedImage fun _ => 0).any (looksUp false) = true by decide +kernel)
  unfold looksUp at checked
  simp only [Bool.and_eq_true, decide_eq_true_eq] at checked
  obtain ⟨⟨given, chosen⟩, looks⟩ := checked
  have volume := mountedImage_volume mounted given
  refine ⟨state, volume, chosen, (volume_path_served_iff volume chosen).mpr ⟨by decide, fun node after looked => ?_⟩⟩
  split at looks
  next node' after' looked' =>
    cases looked.symm.trans looked'
    simpa using looks
  next => cases looks

/-- The file "a" of a volume is not found by its path. -/
theorem volume_path_served_fails :
    ¬∀ (state : Ext4State Unit) (slot : Fin fsMaxMnts) (tgt path : List UInt8), MountedVolume state slot tgt →
      findMnt state.fs.mnts (tgt ++ slash :: path) = some slot → Served state slot tgt path := by
  intro always
  obtain ⟨state, mounted, checked⟩ := (Option.any_eq_true _ _).mp
    (show (mountedImage fun place => if place = 9 * 512 then 97 else if place = 9 * 512 + 2 then 12 else 0).any
      (looksUp true) = true by decide +kernel)
  unfold looksUp at checked
  simp only [Bool.and_eq_true, decide_eq_true_eq] at checked
  obtain ⟨⟨given, chosen⟩, looks⟩ := checked
  have volume := mountedImage_volume mounted given
  have served := always state 0 (literal "/mnt") (literal "a") volume chosen
  split at looks
  next node after looked =>
    have resolved := served.resolves node after looked
    have missing := (volume.resolve chosen).1 (show components (literal "a") ≠ [] by decide)
    cases resolved.symm.trans missing
    cases looks
  next => cases looks

end Kernix.Proofs
