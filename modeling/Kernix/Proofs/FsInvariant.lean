import Kernix.Proofs.FsHeap

/-! The invariant of the file systems: every pointer leads to a live block of its
own kind, a file's size stays within its buffer, and the children of a directory
form a list. -/

namespace Kernix.Proofs
open ByteMemory

variable {δ : Type}

/-- A file of tmpfs. -/
structure IsFile (state : FsState δ) (node : Nat) : Prop where
  ops : (state.nodes node).ops = some .tmpfs
  type : (state.nodes node).type = fsFile

theorem IsFile.kept {before after : FsState δ} {node : Nat} (file : IsFile before node)
    (nodes : after.nodes = before.nodes) : IsFile after node := by
  refine ⟨?_, ?_⟩
  · rw [nodes]
    exact file.ops
  · rw [nodes]
    exact file.type

/-- The buffer of a file, as its private record gives it. -/
def bufferOf (state : FsState δ) (node : Nat) : TmpfsData := state.tmpfsDatas (state.nodes node).priv

/-- The record and the buffer of a file, where it has them. -/
structure FileValid (state : FsState δ) (blocks : List Block) (roles : Roles) (node : Nat) : Prop where
  bare : (state.nodes node).priv = 0 → (state.nodes node).size = 0
  record : (state.nodes node).priv ≠ 0 → roles (state.nodes node).priv = some (.record node)
  room : (state.nodes node).priv ≠ 0 → (state.nodes node).size ≤ (bufferOf state node).cap
  empty : (state.nodes node).priv ≠ 0 → (bufferOf state node).data = 0 → (bufferOf state node).cap = 0
  buffer : (state.nodes node).priv ≠ 0 → (bufferOf state node).data ≠ 0 →
    roles (bufferOf state node).data = some (.buffer node) ∧
      ∃ width, ((bufferOf state node).data, width) ∈ liveEntries state blocks ∧ (bufferOf state node).cap ≤ width

/-- The list that a first node and the `next` fields link up. -/
def Chain (nodes : Nat → FsNode) : Nat → List Nat → Prop
  | first, [] => first = 0
  | first, kid :: rest => first = kid ∧ kid ≠ 0 ∧ Chain nodes (nodes kid).next rest

structure FsValid (state : FsState δ) (blocks : List Block) (roles : Roles) : Prop where
  owned : Owned state blocks roles
  files : ∀ node, roles node = some .node → IsFile state node → FileValid state blocks roles node
  low : ∀ fd, state.fds fd ≠ 0 → 3 ≤ fd.val
  table : ∀ fd, state.fds fd ≠ 0 → roles (state.fds fd) = some (.file fd)
  opened : ∀ fd, state.fds fd ≠ 0 → roles (state.files (state.fds fd)).node = some .node
  pos : ∀ fd, state.fds fd ≠ 0 → (state.files (state.fds fd)).pos < 2 ^ 64
  roots : ∀ slot, (state.mnts slot).active = true → (state.mnts slot).root ≠ 0 →
    roles (state.mnts slot).root = some .node
  kids : ∀ node, roles node = some .node → ∃ kids, Chain state.nodes (state.nodes node).children kids ∧ kids.Nodup ∧
    ∀ kid ∈ kids, roles kid = some .node

/-- The bytes of a file. -/
def content (state : FsState δ) (node : Nat) : List UInt8 :=
  (List.range (state.nodes node).size).map (bytesFrom (bufferOf state node).data state.memory)

theorem content_length (state : FsState δ) (node : Nat) : (content state node).length = (state.nodes node).size := by
  simp [content]

theorem content_eq {before after : FsState δ} {node : Nat} (size : (after.nodes node).size = (before.nodes node).size)
    (bytes : ∀ offset < (before.nodes node).size, after.memory ((bufferOf after node).data + offset) =
      before.memory ((bufferOf before node).data + offset)) : content after node = content before node := by
  unfold content
  rw [size]
  exact List.map_congr_left fun offset inside => bytes offset (List.mem_range.mp inside)

namespace FileValid
variable {before after : FsState δ} {blocks blocks' : List Block} {roles roles' : Roles} {node : Nat}

/-- A file without a buffer is empty. -/
theorem unbuffered (valid : FileValid before blocks roles node)
    (none : (before.nodes node).priv = 0 ∨ (bufferOf before node).data = 0) : (before.nodes node).size = 0 := by
  by_cases given : (before.nodes node).priv = 0
  · exact valid.bare given
  · have cap := valid.empty given (none.resolve_left given)
    have room := valid.room given
    omega

/-- A file whose own record and blocks are left alone stays valid. -/
theorem transfer (valid : FileValid before blocks roles node)
    (size : (after.nodes node).size = (before.nodes node).size)
    (priv : (after.nodes node).priv = (before.nodes node).priv)
    (data : (before.nodes node).priv ≠ 0 → bufferOf after node = bufferOf before node)
    (record : ∀ ptr, roles ptr = some (.record node) → roles' ptr = some (.record node))
    (buffer : ∀ ptr, roles ptr = some (.buffer node) → roles' ptr = some (.buffer node))
    (live : ∀ ptr width, roles ptr = some (.buffer node) → (ptr, width) ∈ liveEntries before blocks →
      (ptr, width) ∈ liveEntries after blocks') : FileValid after blocks' roles' node := by
  refine ⟨?_, ?_, ?_, ?_, ?_⟩
  · rw [priv, size]
    exact valid.bare
  · rw [priv]
    exact fun given => record _ (valid.record given)
  · intro given
    rw [priv] at given
    rw [size, data given]
    exact valid.room given
  · intro given
    rw [priv] at given
    rw [data given]
    exact valid.empty given
  · intro given
    rw [priv] at given
    rw [data given]
    intro stored
    obtain ⟨used, width, held, wide⟩ := valid.buffer given stored
    exact ⟨buffer _ used, width, live _ _ used held, wide⟩

/-- A file whose buffer is left alone keeps its bytes. -/
theorem content_kept (valid : FileValid before blocks roles node)
    (size : (after.nodes node).size = (before.nodes node).size)
    (data : (before.nodes node).priv ≠ 0 → bufferOf after node = bufferOf before node)
    (same : ∀ width, roles (bufferOf before node).data = some (.buffer node) →
      ((bufferOf before node).data, width) ∈ liveEntries before blocks →
      Agree after.memory before.memory (bufferOf before node).data width) : content after node = content before node := by
  apply content_eq size
  intro offset inside
  have given : (before.nodes node).priv ≠ 0 := fun none => by
    rw [valid.bare none] at inside
    exact Nat.not_lt_zero _ inside
  have stored : (bufferOf before node).data ≠ 0 := fun none => by
    rw [valid.unbuffered (Or.inr none)] at inside
    exact Nat.not_lt_zero _ inside
  obtain ⟨used, width, held, wide⟩ := valid.buffer given stored
  have room := valid.room given
  rw [data given]
  exact same width used held _ (by omega) (by omega)

end FileValid

theorem Chain.congr {first second : Nat → FsNode} {start : Nat} {kids : List Nat} (chain : Chain first start kids)
    (same : ∀ kid ∈ kids, (second kid).next = (first kid).next) : Chain second start kids := by
  induction kids generalizing start with
  | nil => exact chain
  | cons kid rest ih =>
    refine ⟨chain.1, chain.2.1, ?_⟩
    rw [same kid List.mem_cons_self]
    exact ih chain.2.2 fun other member => same other (List.mem_cons_of_mem _ member)

/-- The roles of nodes and open files stay. -/
structure RolesKept (roles roles' : Roles) : Prop where
  node : ∀ ptr, roles' ptr = some .node ↔ roles ptr = some .node
  file : ∀ ptr fd, roles ptr = some (.file fd) → roles' ptr = some (.file fd)

namespace RolesKept

theorem refl (roles : Roles) : RolesKept roles roles := ⟨fun _ => Iff.rfl, fun _ _ used => used⟩

theorem trans {first second third : Roles} (left : RolesKept first second) (right : RolesKept second third) :
    RolesKept first third :=
  ⟨fun ptr => (right.node ptr).trans (left.node ptr), fun ptr fd used => right.file ptr fd (left.file ptr fd used)⟩

/-- Giving out a role that is none of the two. -/
theorem assign {roles : Roles} {ptr : Nat} {role : Role} (free : roles ptr = none) (other : role ≠ .node) :
    RolesKept roles (roles.assign ptr role) := by
  constructor
  · intro place
    simp only [Roles.assign, Function.update_apply]
    split
    next same =>
      rw [same, free]
      simp [other]
    next => exact Iff.rfl
  · intro place fd used
    simp only [Roles.assign, Function.update_apply]
    split
    next same =>
      rw [same, free] at used
      cases used
    next => exact used

/-- Taking the role of a buffer away. -/
theorem drop {roles : Roles} {ptr node : Nat} (used : roles ptr = some (.buffer node)) :
    RolesKept roles (roles.drop ptr) := by
  constructor
  · intro place
    simp only [Roles.drop, Function.update_apply]
    split
    next same =>
      rw [same, used]
      simp
    next => exact Iff.rfl
  · intro place fd held
    simp only [Roles.drop, Function.update_apply]
    split
    next same =>
      rw [same, used] at held
      cases held
    next => exact held

end RolesKept

namespace KeepsTree
variable {before after : FsState δ}

theorem ops (keeps : KeepsTree before after) (node : Nat) : (after.nodes node).ops = (before.nodes node).ops :=
  (congrArg FsNode.ops (keeps.nodes node) :)

theorem type (keeps : KeepsTree before after) (node : Nat) : (after.nodes node).type = (before.nodes node).type :=
  (congrArg FsNode.type (keeps.nodes node) :)

theorem name (keeps : KeepsTree before after) (node : Nat) : (after.nodes node).name = (before.nodes node).name :=
  (congrArg FsNode.name (keeps.nodes node) :)

theorem children (keeps : KeepsTree before after) (node : Nat) :
    (after.nodes node).children = (before.nodes node).children :=
  (congrArg FsNode.children (keeps.nodes node) :)

theorem next (keeps : KeepsTree before after) (node : Nat) : (after.nodes node).next = (before.nodes node).next :=
  (congrArg FsNode.next (keeps.nodes node) :)

theorem fileNode (keeps : KeepsTree before after) (file : Nat) : (after.files file).node = (before.files file).node :=
  (congrArg FsFile.node (keeps.files file) :)

theorem isFile (keeps : KeepsTree before after) {node : Nat} : IsFile after node ↔ IsFile before node := by
  constructor
  · exact fun file => ⟨(keeps.ops node).symm.trans file.ops, (keeps.type node).symm.trans file.type⟩
  · exact fun file => ⟨(keeps.ops node).trans file.ops, (keeps.type node).trans file.type⟩

end KeepsTree

namespace FsValid
variable {before after : FsState δ} {blocks blocks' : List Block} {roles roles' : Roles}

/-- A step inside the files needs to restore only the heap, the files and the positions. -/
theorem keeps (valid : FsValid before blocks roles) (tree : KeepsTree before after) (kept : RolesKept roles roles')
    (owned : Owned after blocks' roles')
    (files : ∀ node, roles node = some .node → IsFile before node → FileValid after blocks' roles' node)
    (pos : ∀ fd, before.fds fd ≠ 0 → (after.files (before.fds fd)).pos < 2 ^ 64) : FsValid after blocks' roles' where
  owned := owned
  files node live file := files node ((kept.node node).mp live) (tree.isFile.mp file)
  low := by
    rw [tree.fds]
    exact valid.low
  table := by
    rw [tree.fds]
    exact fun fd used => kept.file _ _ (valid.table fd used)
  opened := by
    rw [tree.fds]
    intro fd used
    rw [tree.fileNode, kept.node]
    exact valid.opened fd used
  pos := by
    rw [tree.fds]
    exact pos
  roots := by
    rw [tree.mnts]
    exact fun slot active given => (kept.node _).mpr (valid.roots slot active given)
  kids node live := by
    obtain ⟨kids, chain, distinct, inside⟩ := valid.kids node ((kept.node node).mp live)
    rw [tree.children]
    exact ⟨kids, chain.congr fun kid _ => tree.next kid, distinct,
      fun kid member => (kept.node kid).mpr (inside kid member)⟩

/-- Different descriptors have different records. -/
theorem injective (valid : FsValid before blocks roles) {first second : Fin fsMaxFds} (used : before.fds first ≠ 0)
    (same : before.fds first = before.fds second) : first = second := by
  have left := valid.table first used
  have right := valid.table second (same ▸ used)
  rw [same, right] at left
  cases left
  rfl

end FsValid

end Kernix.Proofs
