import Kernix.Proofs.FsAccesses
import Kernix.Proofs.MountTable
import Mathlib.Data.List.Perm.Subperm

/-! The directory trees: what a lookup finds, where a path leads, and what a new
node changes. -/

namespace Kernix.Proofs
open ByteMemory

variable {δ : Type}

/-- The node of a name among the children of a directory; `NULL` when there is none. -/
def childNamed (nodes : Nat → FsNode) (kids : List Nat) (name : List UInt8) : Nat :=
  (kids.find? fun kid => text (nodes kid).name = name).getD 0

theorem findChild_chain {nodes : Nat → FsNode} {first fuel : Nat} {kids : List Nat} (chain : Chain nodes first kids)
    (short : kids.length < fuel) (name : List UInt8) :
    findChild nodes name fuel first = .ok (childNamed nodes kids name) := by
  induction kids generalizing first fuel with
  | nil =>
    obtain ⟨fuel, rfl⟩ := Nat.exists_eq_add_one_of_ne_zero (Nat.ne_of_gt short)
    exact if_pos chain
  | cons kid rest ih =>
    obtain ⟨rfl, given, rest'⟩ := chain
    obtain ⟨fuel, rfl⟩ := Nat.exists_eq_add_one_of_ne_zero (Nat.ne_zero_of_lt short)
    rw [findChild, if_neg given]
    simp only [strEquals_iff]
    split
    next same => simp [childNamed, same]
    next different =>
      rw [ih rest' (by simpa using short)]
      simp [childNamed, different]

theorem childNamed_mem {nodes : Nat → FsNode} {kids : List Nat} {name : List UInt8}
    (found : childNamed nodes kids name ≠ 0) :
    childNamed nodes kids name ∈ kids ∧ text (nodes (childNamed nodes kids name)).name = name := by
  unfold childNamed at *
  cases search : kids.find? fun kid => text (nodes kid).name = name with
  | none => simp [search] at found
  | some kid =>
    have named := List.find?_some search
    exact ⟨List.mem_of_find?_eq_some search, by simpa using named⟩

theorem allocated_length (address : Nat) (blocks : List Block) : (allocated address blocks).length ≤ blocks.length := by
  induction blocks generalizing address with
  | nil => exact Nat.le_refl 0
  | cons block rest ih =>
    have deeper := ih (address + 40 + block.size)
    unfold allocated
    split
    · simpa using deeper
    · rw [List.length_cons]
      omega

/-- The tree with a new first child of a directory. -/
def graft (state : FsState δ) (dir node : Nat) (name : Fin 64 → UInt8) (type : UInt8) : FsState δ :=
  { state with
    nodes := Function.update
      (Function.update state.nodes node
        ⟨name, type, 0, (state.nodes dir).ops, 0, 0, (state.nodes dir).children, dir⟩)
      dir { state.nodes dir with children := node } }

theorem graft_node (state : FsState δ) {dir node : Nat} (array : Fin 64 → UInt8) (type : UInt8) (apart : node ≠ dir) :
    (graft state dir node array type).nodes node =
      ⟨array, type, 0, (state.nodes dir).ops, 0, 0, (state.nodes dir).children, dir⟩ := by
  simp only [graft, Function.update_of_ne apart, Function.update_self]

/-- The other nodes keep all but the start of a directory's children. -/
theorem graft_old (state : FsState δ) (dir : Nat) {node place : Nat} (array : Fin 64 → UInt8) (type : UInt8)
    (old : place ≠ node) :
    (graft state dir node array type).nodes place =
      { state.nodes place with children := if place = dir then node else (state.nodes place).children } := by
  simp only [graft, Function.update_apply, if_neg old]
  split
  next same => rw [same]
  next => rfl

/-- How `tmpfs_create` and `tmpfs_mkdir` can end. -/
inductive Added (before : FsState δ) (dir : Nat) (name : List UInt8) (type : UInt8) : Int → FsState δ → Prop where
  | noDirectory (other : (before.nodes dir).type ≠ fsDir) : Added before dir name type (-1) before
  | present {child : Nat} (directory : (before.nodes dir).type = fsDir)
      (found : tmpfsLookup before dir name = .ok child) (given : child ≠ 0) : Added before dir name type (-1) before
  | refused {after : FsState δ} (directory : (before.nodes dir).type = fsDir)
      (missing : tmpfsLookup before dir name = .ok 0) (made : before.create fsNodeSize = .ok (0, after)) :
      Added before dir name type (-1) after
  | added {node : Nat} {made : FsState δ} {array : Fin 64 → UInt8} (directory : (before.nodes dir).type = fsDir)
      (missing : tmpfsLookup before dir name = .ok 0) (given : node ≠ 0)
      (creates : before.create fsNodeSize = .ok (node, made)) (copied : strCopy (fun _ => 0) name = .ok array) :
      Added before dir name type 0 (graft made dir node array type)

/-- What the three steps of linking a new node come to. -/
private theorem addchild_graft (state : FsState δ) {dir node : Nat} (array : Fin 64 → UInt8) (type : UInt8)
    (given : node ≠ 0) (nonzero : dir ≠ 0) (apart : node ≠ dir) :
    (fsAddchild ((state.setNode node ⟨array, type, 0, none, 0, 0, 0, 0⟩).setNode node
      ⟨array, type, 0, (state.nodes dir).ops, 0, 0, 0, 0⟩) dir node).2 = graft state dir node array type := by
  have nodes : (fsAddchild ((state.setNode node ⟨array, type, 0, none, 0, 0, 0, 0⟩).setNode node
      ⟨array, type, 0, (state.nodes dir).ops, 0, 0, 0, 0⟩) dir node).2.nodes =
      (graft state dir node array type).nodes := by
    funext place
    simp only [fsAddchild, graft, nonzero, given, or_self, if_false, FsState.setNode, Function.update_apply]
    by_cases same : place = dir
    · simp [same, apart.symm]
    · by_cases other : place = node <;> simp [same, other, apart.symm]
  unfold fsAddchild at *
  rw [if_neg (by simp [given, nonzero])] at *
  exact congrArg (fun nodes => { state with nodes }) nodes

theorem tmpfsNew_added {before after : FsState δ} {dir : Nat} {name : List UInt8} {type : UInt8} {ret : Int}
    (nonzero : dir ≠ 0)
    (fresh : ∀ node made, before.create fsNodeSize = .ok (node, made) → node ≠ 0 → node ≠ dir)
    (result : tmpfsNew before dir name type = .ok (ret, after)) : Added before dir name type ret after := by
  unfold tmpfsNew at result
  split at result
  next other =>
    cases result
    exact .noDirectory other
  next directory =>
    have directory := not_not.mp directory
    obtain ⟨found, looks, rest⟩ := bind_ok result
    split at rest
    next given =>
      cases rest
      exact .present directory looks given
    next missing =>
      obtain rfl := not_not.mp missing
      obtain ⟨⟨node, made⟩, makes, rest⟩ := bind_ok rest
      dsimp only at rest
      cases fsMknode_made makes with
      | refused creates =>
        cases rest
        exact .refused directory looks creates
      | @fresh _ made array given creates copied =>
        rw [if_neg given] at rest
        have apart := fresh node made creates given
        have linked := addchild_graft made array type given nonzero apart
        have new : (made.setNode node ⟨array, type, 0, none, 0, 0, 0, 0⟩).setNode node
            { (made.setNode node ⟨array, type, 0, none, 0, 0, 0, 0⟩).nodes node with
              ops := ((made.setNode node ⟨array, type, 0, none, 0, 0, 0, 0⟩).nodes dir).ops } =
            (made.setNode node ⟨array, type, 0, none, 0, 0, 0, 0⟩).setNode node
              ⟨array, type, 0, (made.nodes dir).ops, 0, 0, 0, 0⟩ := by
          simp [FsState.setNode, Function.update_of_ne apart.symm]
        rw [new] at rest
        cases rest
        rw [linked]
        exact .added directory looks given creates copied

theorem lookupIn_congr {first second : FsState δ} (nodes : second.nodes = first.nodes) (dir : Nat) (name : List UInt8) :
    lookupIn second dir name = lookupIn first dir name := by
  unfold lookupIn tmpfsLookup devfsLookup
  rw [nodes]

theorem resolveFrom_congr {first second : FsState δ} (nodes : second.nodes = first.nodes) (rel : List UInt8) (cur : Nat)
    (comp : List UInt8) : resolveFrom second rel cur comp = resolveFrom first rel cur comp := by
  induction rel generalizing cur comp with
  | nil =>
    unfold resolveFrom
    rw [lookupIn_congr nodes]
  | cons byte rel ih =>
    unfold resolveFrom
    simp only [lookupIn_congr nodes, ih]

/-- Where a path leads depends on the nodes and the mounts only. -/
theorem fsResolve_congr {first second : FsState δ} (nodes : second.nodes = first.nodes) (mnts : second.mnts = first.mnts)
    (path : List UInt8) : fsResolve second path = fsResolve first path := by
  unfold fsResolve
  simp only [mnts, resolveFrom_congr nodes]

namespace FsValid
variable {before after : FsState δ} {blocks blocks' : List Block} {roles : Roles} {node dir width : Nat}

/-- There are fewer nodes than addresses, so a search through a directory ends. -/
theorem few (valid : FsValid before blocks roles) {kids : List Nat} (distinct : kids.Nodup)
    (live : ∀ kid ∈ kids, roles kid = some .node) : kids.length < addressSpace := by
  have inside : kids ⊆ (liveEntries before blocks).map Prod.fst := fun kid member => by
    obtain ⟨width, held⟩ := valid.owned.live kid _ (live kid member)
    exact List.mem_map_of_mem held
  have bounded := (distinct.subperm inside).length_le
  have region := region_heap valid.owned.heap.room
  have small : blocks.length < addressSpace :=
    length_lt_addressSpace region.positive (valid.owned.heap.heap.extent.symm ▸ region.top)
  have used := allocated_length (fsHeap before) blocks
  rw [List.length_map] at bounded
  unfold liveEntries at bounded
  omega

theorem look (valid : FsValid before blocks roles) (live : roles dir = some .node) (name : List UInt8) :
    ∃ kids, Chain before.nodes (before.nodes dir).children kids ∧ kids.Nodup ∧ (∀ kid ∈ kids, roles kid = some .node) ∧
      findChild before.nodes name addressSpace (before.nodes dir).children = .ok (childNamed before.nodes kids name) := by
  obtain ⟨kids, chain, distinct, inside⟩ := valid.kids dir live
  exact ⟨kids, chain, distinct, inside, findChild_chain chain (valid.few distinct inside) name⟩

/-- A lookup returns, and what it finds is a node. -/
theorem lookup (valid : FsValid before blocks roles) (live : roles dir = some .node) (name : List UInt8) :
    ∃ child, lookupIn before dir name = .ok child ∧ (child ≠ 0 → roles child = some .node) := by
  obtain ⟨kids, _, _, inside, found⟩ := valid.look live name
  have member (given : childNamed before.nodes kids name ≠ 0) : roles (childNamed before.nodes kids name) = some .node :=
    inside _ (childNamed_mem given).1
  unfold lookupIn
  split
  next => exact ⟨0, rfl, by simp⟩
  next =>
    unfold tmpfsLookup
    split
    next => exact ⟨0, rfl, by simp⟩
    next => exact ⟨_, found, member⟩
  next =>
    unfold devfsLookup
    split
    next => exact ⟨0, rfl, by simp⟩
    next => exact ⟨_, found, member⟩

theorem walk (valid : FsValid before blocks roles) (rel : List UInt8) {cur : Nat} (live : roles cur = some .node)
    (comp : List UInt8) :
    ∃ node, resolveFrom before rel cur comp = .ok node ∧ (node ≠ 0 → roles node = some .node) := by
  induction rel generalizing cur comp with
  | nil =>
    unfold resolveFrom
    split
    next => exact valid.lookup live comp
    next => exact ⟨cur, rfl, fun _ => live⟩
  | cons byte rel ih =>
    unfold resolveFrom
    split
    next =>
      split
      next =>
        obtain ⟨child, found, inside⟩ := valid.lookup live comp
        rw [found]
        dsimp only [bind, Except.bind, pure, Except.pure]
        split
        next => exact ⟨0, rfl, by simp⟩
        next given => exact ih (inside given) []
      next => exact ih live comp
    next => exact ih live _

/-- Resolving a path returns, and where it leads is a node. -/
theorem resolve (valid : FsValid before blocks roles) (path : List UInt8) :
    ∃ node, fsResolve before path = .ok node ∧ (node ≠ 0 → roles node = some .node) := by
  unfold fsResolve
  split
  next => exact ⟨0, rfl, by simp⟩
  next =>
    split
    next => exact ⟨0, rfl, by simp⟩
    next slot found =>
      split
      next => exact ⟨0, rfl, by simp⟩
      next given =>
        exact valid.walk _ (valid.roots slot (findMnt_longest found).offers.active given) []

/-- A fresh block becomes a node, and the lists of children are valid again. -/
theorem grows (valid : FsValid before blocks roles) (held : (node, width) ∈ liveEntries before blocks)
    (free : roles node = none) {nodes : Nat → FsNode}
    (empty : (nodes node).type = fsFile → (nodes node).priv = 0 ∧ (nodes node).size = 0)
    (kept : ∀ place, place ≠ node → { nodes place with children := 0 } = { before.nodes place with children := 0 })
    (kids : ∀ place, place = node ∨ roles place = some .node → ∃ kids,
      Chain nodes (nodes place).children kids ∧ kids.Nodup ∧
      ∀ kid ∈ kids, kid = node ∨ roles kid = some .node) :
    FsValid { before with nodes } blocks (roles.assign node .node) := by
  have used {place : Nat} {role : Role} (given : roles place = some role) : roles.assign node .node place = some role :=
    Roles.assign_used free given
  have known {place : Nat} : roles.assign node .node place = some .node ↔ place = node ∨ roles place = some .node := by
    simp only [Roles.assign, Function.update_apply]
    split
    next same => simp [same]
    next other => simp [other]
  have owned := valid.owned.assign held .node
  refine ⟨⟨owned.heap, owned.live⟩, ?_, valid.low, fun fd given => used (valid.table fd given),
    fun fd given => used (valid.opened fd given), valid.pos,
      fun slot active given => used (valid.roots slot active given), ?_⟩
  · intro place live file
    by_cases same : place = node
    · subst same
      obtain ⟨none, size⟩ := empty file.type
      refine ⟨fun _ => size, ?_, ?_, ?_, ?_⟩ <;> exact fun given => (given none).elim
    · have ops : (nodes place).ops = (before.nodes place).ops := (congrArg FsNode.ops (kept place same) :)
      have type : (nodes place).type = (before.nodes place).type := (congrArg FsNode.type (kept place same) :)
      have size : (nodes place).size = (before.nodes place).size := (congrArg FsNode.size (kept place same) :)
      have priv : (nodes place).priv = (before.nodes place).priv := (congrArg FsNode.priv (kept place same) :)
      have buffer : bufferOf { before with nodes } place = bufferOf before place := by rw [bufferOf, priv, bufferOf]
      have file' : IsFile before place := ⟨ops.symm.trans file.ops, type.symm.trans file.type⟩
      exact (valid.files place ((known.mp live).resolve_left same) file').transfer size priv (fun _ => buffer)
        (fun _ => used) (fun _ => used) fun _ _ _ member => member
  · intro place live
    obtain ⟨kids, chain, distinct, inside⟩ := kids place (known.mp live)
    exact ⟨kids, chain, distinct, fun kid member => known.mpr (inside kid member)⟩

/-- A fresh block becomes the first child of a directory. -/
theorem graft (valid : FsValid before blocks roles) (held : (node, width) ∈ liveEntries before blocks)
    (free : roles node = none) (live : roles dir = some .node) (array : Fin 64 → UInt8) (type : UInt8) :
    FsValid (graft before dir node array type) blocks (roles.assign node .node) := by
  have stays {place : Nat} (given : roles place = some .node) : place ≠ node := by
    rintro rfl
    rw [free] at given
    cases given
  have new := graft_node before array type (stays live).symm
  have old {place : Nat} (different : place ≠ node) := graft_old before dir array type different
  have sublist {kids : List Nat} {first : Nat} (chain : Chain before.nodes first kids)
      (inside : ∀ kid ∈ kids, roles kid = some .node) : Chain
        (Proofs.graft before dir node array type).nodes first kids :=
    chain.congr fun kid member => by rw [old (stays (inside kid member))]
  show FsValid { before with nodes := (Proofs.graft before dir node array type).nodes } blocks _
  refine valid.grows held free (fun _ => ?_) (fun place different => by rw [old different]) fun place known => ?_
  · rw [new]
    exact ⟨rfl, rfl⟩
  · rcases known with rfl | live'
    · exact ⟨[], by rw [new]; rfl, List.nodup_nil, by simp⟩
    · obtain ⟨kids, chain, distinct, inside⟩ := valid.kids place live'
      rw [old (stays live')]
      dsimp only
      split
      next equal =>
        subst equal
        have missing : node ∉ kids := fun member => stays (inside node member) rfl
        refine ⟨node :: kids, ⟨rfl, Nat.ne_of_gt (Owned.positive held), ?_⟩, List.nodup_cons.mpr ⟨missing, distinct⟩, ?_⟩
        · rw [new]
          exact sublist chain inside
        · intro kid member
          rcases List.mem_cons.mp member with same | member
          · exact Or.inl same
          · exact Or.inr (inside kid member)
      next => exact ⟨kids, sublist chain inside, distinct, fun kid member => Or.inr (inside kid member)⟩

/-- A fresh block becomes a node that no directory lists. -/
theorem plant (valid : FsValid before blocks roles) (held : (node, width) ∈ liveEntries before blocks)
    (free : roles node = none) {new : FsNode} (childless : new.children = 0) (other : new.type ≠ fsFile) :
    FsValid (before.setNode node new) blocks (roles.assign node .node) := by
  refine valid.grows held free (fun type => ?_) (fun place different => by rw [Function.update_of_ne different])
    fun place known => ?_
  · rw [Function.update_self] at type
    exact (other type).elim
  · by_cases same : place = node
    · subst same
      exact ⟨[], by rw [Function.update_self]; exact childless, List.nodup_nil, by simp⟩
    · obtain ⟨kids, chain, distinct, inside⟩ := valid.kids place (known.resolve_left same)
      rw [Function.update_of_ne same]
      refine ⟨kids, chain.congr fun kid member => ?_, distinct, fun kid member => Or.inr (inside kid member)⟩
      have listed := inside kid member
      rw [Function.update_of_ne]
      rintro rfl
      rw [free] at listed
      cases listed

/-- What lies at an address without a role does not matter. -/
theorem stray (valid : FsValid before blocks roles) (free : roles node = none) (new : FsNode) :
    FsValid (before.setNode node new) blocks roles := by
  have old {place : Nat} (live : roles place = some .node) :
    (before.setNode node new).nodes place = before.nodes place := by
    apply Function.update_of_ne
    rintro rfl
    rw [free] at live
    cases live
  refine ⟨⟨valid.owned.heap, valid.owned.live⟩, ?_, valid.low, valid.table, valid.opened, valid.pos, valid.roots, ?_⟩
  · intro place live file
    have file' : IsFile before place := ⟨by rw [← old live]; exact file.ops, by rw [← old live]; exact file.type⟩
    have buffer : bufferOf (before.setNode node new) place = bufferOf before place := by
      rw [bufferOf, old live]
      rfl
    exact (valid.files place live file').transfer (by rw [old live]) (by rw [old live]) (fun _ => buffer)
      (fun _ used => used) (fun _ used => used) fun _ _ _ member => member
  · intro place live
    obtain ⟨kids, chain, distinct, inside⟩ := valid.kids place live
    rw [old live]
    exact ⟨kids, chain.congr fun kid member => by rw [old (inside kid member)], distinct, inside⟩

end FsValid

end Kernix.Proofs
