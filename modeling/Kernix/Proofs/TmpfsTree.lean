import Kernix.Proofs.FsReach

/-! The trees that `tmpfs_create` and `tmpfs_mkdir` build below the roots of mounts:
they stay forests, and a new node changes the one lookup that finds it. -/

namespace Kernix.Proofs
open ByteMemory

variable {δ : Type}

inductive TreeCall where
  | create
  | mkdir

def TreeCall.run (state : FsState δ) (dir : Nat) (name : List UInt8) : TreeCall → Except Stop (Int × FsState δ)
  | .create => tmpfsCreate state dir name
  | .mkdir => tmpfsMkdir state dir name

/-- The type of the node that a call makes. -/
def TreeCall.type : TreeCall → UInt8
  | .create => fsFile
  | .mkdir => fsDir

/-- A C string of 1 to 63 characters. -/
structure NodeName (name : List UInt8) : Prop where
  clean : 0 ∉ name
  nonempty : 1 ≤ name.length
  short : name.length ≤ 63

/-- The roots of mounts that have no children yet. -/
def BareRoots (state : FsState δ) (roots : List Nat) : Prop :=
  ∀ root ∈ roots, root ≠ 0 ∧ (state.nodes root).children = 0 ∧
    ∃ slot, (state.mnts slot).active = true ∧ (state.mnts slot).root = root

/-- A run of calls on the nodes below some roots, with all the nodes there are. -/
inductive TreeRun (start : FsState δ) (roots : List Nat) : List Nat → FsState δ → Prop where
  | start : TreeRun start roots roots start
  | call {nodes : List Nat} {before after : FsState δ} {dir : Nat} {name : List UInt8} {ret : Int} (call : TreeCall)
      (run : TreeRun start roots nodes before) (known : dir ∈ nodes) (named : NodeName name)
      (result : call.run before dir name = .ok (ret, after)) :
      TreeRun start roots (if ret = 0 then (after.nodes dir).children :: nodes else nodes) after

/-- The nodes form a forest: `kids` are the lists of children, and `rank` grows
from a directory to its children. -/
structure Forest (state : FsState δ) (roots nodes : List Nat) (kids : Nat → List Nat) (rank : Nat → Nat) : Prop where
  chains : ∀ dir ∈ nodes, Chain state.nodes (state.nodes dir).children (kids dir)
  inside : ∀ dir ∈ nodes, ∀ kid ∈ kids dir, kid ∈ nodes ∧ kid ∉ roots
  names : ∀ dir ∈ nodes, ((kids dir).map fun kid => text (state.nodes kid).name).Nodup
  parents : ∀ dir ∈ nodes, ∀ kid ∈ kids dir, (state.nodes kid).parent = dir
  covered : ∀ node ∈ nodes, node ∈ roots ∨ ∃ dir ∈ nodes, node ∈ kids dir
  acyclic : ∀ dir ∈ nodes, ∀ kid ∈ kids dir, rank dir < rank kid

/-- What a call that returned has done to the lookups. -/
structure LookupLaws (before after : FsState δ) (nodes : List Nat) (dir : Nat) (name : List UInt8) (type : UInt8)
    (ret : Int) : Prop where
  /-- A success makes one new node, which the lookup of its name finds. -/
  found : ret = 0 → ∃ node, node ≠ 0 ∧ node ∉ nodes ∧ tmpfsLookup after dir name = .ok node ∧
    (after.nodes node).type = type
  others : ret = 0 → ∀ other ∈ nodes, ∀ label, (other, label) ≠ (dir, name) →
    tmpfsLookup after other label = tmpfsLookup before other label
  failed : ret ≠ 0 → ret = -1 ∧ ∀ other ∈ nodes, ∀ label, tmpfsLookup after other label = tmpfsLookup before other label

/-- The laws of a state of a run. -/
structure TreeLaws (state : FsState δ) (roots nodes : List Nat) : Prop where
  forest : ∃ kids rank, Forest state roots nodes kids rank
  returns : ∀ (call : TreeCall) (name : List UInt8), ∀ dir ∈ nodes, NodeName name →
    ∃ ret after, call.run state dir name = .ok (ret, after)
  lookups : ∀ (call : TreeCall) (name : List UInt8), ∀ dir ∈ nodes, NodeName name → ∀ ret after,
    call.run state dir name = .ok (ret, after) → LookupLaws state after nodes dir name call.type ret

theorem TreeCall.run_eq (call : TreeCall) (state : FsState δ) (dir : Nat) (name : List UInt8) :
    call.run state dir name = tmpfsNew state dir name call.type := by
  cases call <;> rfl

/-- How a call ends: with an unchanged tree, or with a new first child. -/
theorem FsValid.planted {before after : FsState δ} {blocks : List Block} {roles : Roles} {dir : Nat} {name : List UInt8}
    {type : UInt8} {ret : Int} (valid : FsValid before blocks roles) (live : roles dir = some .node)
    (result : tmpfsNew before dir name type = .ok (ret, after)) :
    ret = -1 ∧ after.nodes = before.nodes ∨
      ret = 0 ∧ (before.nodes dir).type = fsDir ∧ tmpfsLookup before dir name = .ok 0 ∧
        ∃ node array, node ≠ 0 ∧ roles node = none ∧ strCopy (fun _ => 0) name = .ok array ∧
          after.nodes = (Proofs.graft before dir node array type).nodes := by
  obtain ⟨added, _⟩ := valid.tmpfsNew_valid live result
  cases added with
  | noDirectory => exact Or.inl ⟨rfl, rfl⟩
  | present => exact Or.inl ⟨rfl, rfl⟩
  | refused _ _ made =>
    obtain ⟨memory, _, rfl⟩ := create_ok made
    exact Or.inl ⟨rfl, rfl⟩
  | @added node made array directory missing given creates copied =>
    rcases valid.create (by decide) creates with ⟨none, _⟩ | ⟨_, _, allocation, _⟩
    · exact (given none).elim
    · obtain ⟨memory, _, rfl⟩ := create_ok creates
      exact Or.inr ⟨rfl, directory, missing, node, array, given, allocation.free valid.owned, copied, rfl⟩

theorem childNamed_cons (nodes : Nat → FsNode) (kid : Nat) (kids : List Nat) (name : List UInt8) :
    childNamed nodes (kid :: kids) name = if text (nodes kid).name = name then kid else childNamed nodes kids name := by
  unfold childNamed
  split
  next same => simp [same]
  next different => simp [different]

theorem childNamed_congr {first second : Nat → FsNode} {kids : List Nat}
    (same : ∀ kid ∈ kids, (second kid).name = (first kid).name)
    (name : List UInt8) : childNamed second kids name = childNamed first kids name := by
  induction kids with
  | nil => rfl
  | cons kid rest ih =>
    rw [childNamed_cons, childNamed_cons, same kid List.mem_cons_self,
      ih fun other member => same other (List.mem_cons_of_mem _ member)]

theorem childNamed_zero {nodes : Nat → FsNode} {kids : List Nat} {name : List UInt8} (given : ∀ kid ∈ kids, kid ≠ 0)
    (missing : childNamed nodes kids name = 0) : ∀ kid ∈ kids, text (nodes kid).name ≠ name := by
  intro kid member same
  unfold childNamed at missing
  cases search : kids.find? fun kid => text (nodes kid).name = name with
  | none => simpa [same] using List.find?_eq_none.mp search kid member
  | some other =>
    rw [search] at missing
    exact given other (List.mem_of_find?_eq_some search) missing

theorem Chain.nonzero {nodes : Nat → FsNode} {first : Nat} {kids : List Nat} (chain : Chain nodes first kids) :
    ∀ kid ∈ kids, kid ≠ 0 := by
  induction kids generalizing first with
  | nil => simp
  | cons kid rest ih =>
    intro other member
    rcases List.mem_cons.mp member with rfl | member
    · exact chain.2.1
    · exact ih chain.2.2 other member

theorem Chain.unique {nodes : Nat → FsNode} {first : Nat} {kids others : List Nat} (chain : Chain nodes first kids)
    (chain' : Chain nodes first others) : kids = others := by
  induction kids generalizing first others with
  | nil =>
    cases others with
    | nil => rfl
    | cons other rest => exact (chain'.2.1 (chain'.1 ▸ chain)).elim
  | cons kid rest ih =>
    cases others with
    | nil => exact (chain.2.1 (chain.1 ▸ chain')).elim
    | cons other rest' =>
      obtain ⟨rfl, _, tail⟩ := chain
      obtain ⟨rfl, _, tail'⟩ := chain'
      rw [ih tail tail']

namespace FsValid
variable {before after : FsState δ} {blocks : List Block} {roles : Roles} {dir : Nat}

/-- A lookup searches the children of its directory. -/
theorem tmpfsLookup_kids (valid : FsValid before blocks roles) (live : roles dir = some .node) {kids : List Nat}
    (chain : Chain before.nodes (before.nodes dir).children kids) (name : List UInt8) :
    tmpfsLookup before dir name = .ok (if (before.nodes dir).type =
      fsDir then childNamed before.nodes kids name else 0) := by
  obtain ⟨kids', chain', distinct, inside⟩ := valid.kids dir live
  obtain rfl := chain.unique chain'
  unfold tmpfsLookup
  rw [findChild_chain chain (valid.few distinct inside) name]
  by_cases directory : (before.nodes dir).type = fsDir
  · rw [if_neg (not_not.mpr directory), if_pos directory]
  · rw [if_pos directory, if_neg directory]

end FsValid

/-- A tree that is valid as a part of the file systems. -/
structure Planted (state : FsState δ) (roots nodes : List Nat) (blocks : List Block) (roles : Roles)
    (kids : Nat → List Nat) (rank : Nat → Nat) : Prop where
  valid : FsValid state blocks roles
  live : ∀ node ∈ nodes, roles node = some .node
  rooted : ∀ root ∈ roots, root ∈ nodes
  forest : Forest state roots nodes kids rank

namespace Forest
variable {before after : FsState δ} {roots nodes : List Nat} {kids : Nat → List Nat} {rank : Nat → Nat} {dir node : Nat}

theorem congr (forest : Forest before roots nodes kids rank) (same : after.nodes = before.nodes) :
    Forest after roots nodes kids rank := by
  obtain ⟨chains, inside, names, parents, covered, acyclic⟩ := forest
  rw [← same] at chains names parents
  exact ⟨chains, inside, names, parents, covered, acyclic⟩

/-- A new first child, with a name that no other child has. -/
theorem graft (forest : Forest before roots nodes kids rank) (known : dir ∈ nodes) (rooted : ∀ root ∈ roots, root ∈ nodes)
    (given : node ≠ 0) (fresh : node ∉ nodes) {array : Fin 64 → UInt8} {type : UInt8}
    (unused : ∀ kid ∈ kids dir, text (before.nodes kid).name ≠ text array)
    (nodes_eq : after.nodes = (Proofs.graft before dir node array type).nodes) :
    Forest after roots (node :: nodes) (Function.update (Function.update kids dir (node :: kids dir)) node [])
      (Function.update rank node (rank dir + 1)) := by
  have apart {place : Nat} (member : place ∈ nodes) : place ≠ node := fun same => fresh (same ▸ member)
  have new := nodes_eq ▸ graft_node before array type (apart known).symm
  have old {place : Nat} (member : place ∈ nodes) := nodes_eq ▸ graft_old before dir array type (apart member)
  have none : Function.update (Function.update kids dir (node :: kids dir)) node [] node = [] := Function.update_self ..
  have listed {place : Nat} (member : place ∈ nodes) :
      Function.update (Function.update kids dir (node :: kids dir)) node [] place =
        if place = dir then node :: kids dir else kids place := by
    rw [Function.update_of_ne (apart member), Function.update_apply]
  have raised {place : Nat} (member : place ∈ nodes) : Function.update rank node (rank dir + 1) place = rank place :=
    Function.update_of_ne (apart member) ..
  have name {place kid : Nat} (member : place ∈ nodes) (kid_mem : kid ∈ kids place) :
      (after.nodes kid).name = (before.nodes kid).name := by rw [old (forest.inside place member kid kid_mem).1]
  have sublist {place first : Nat} (member : place ∈ nodes) (chain : Chain before.nodes first (kids place)) :
      Chain after.nodes first (kids place) :=
    chain.congr fun kid kid_mem => by rw [old (forest.inside place member kid kid_mem).1]
  -- The children of a node of the larger tree.
  have either {place kid : Nat} (member : place ∈ node :: nodes)
      (kid_mem : kid ∈ Function.update (Function.update kids dir (node :: kids dir)) node [] place) :
      place ∈ nodes ∧ (kid = node ∧ place = dir ∨ kid ∈ kids place) := by
    rcases List.mem_cons.mp member with rfl | member
    · simp at kid_mem
    · rw [listed member] at kid_mem
      split at kid_mem
      next same =>
        subst same
        exact ⟨member, (List.mem_cons.mp kid_mem).imp_left fun same => ⟨same, rfl⟩⟩
      next => exact ⟨member, Or.inr kid_mem⟩
  refine ⟨?_, ?_, ?_, ?_, ?_, ?_⟩
  · intro place member
    rcases List.mem_cons.mp member with rfl | member
    · rw [none, new]
      rfl
    · rw [listed member, old member]
      dsimp only
      split
      next same =>
        subst same
        refine ⟨rfl, given, ?_⟩
        rw [new]
        exact sublist member (forest.chains place member)
      next => exact sublist member (forest.chains place member)
  · intro place member kid kid_mem
    obtain ⟨member, ⟨rfl, _⟩ | kid_mem⟩ := either member kid_mem
    · exact ⟨List.mem_cons_self, fun root => fresh (rooted kid root)⟩
    · obtain ⟨inside, other⟩ := forest.inside place member kid kid_mem
      exact ⟨List.mem_cons_of_mem _ inside, other⟩
  · intro place member
    rcases List.mem_cons.mp member with rfl | member
    · rw [none]
      exact List.nodup_nil
    · have kept := List.map_congr_left fun kid (kid_mem : kid ∈ kids place) => congrArg text (name member kid_mem)
      rw [listed member]
      split
      next same =>
        subst same
        rw [List.map_cons, kept, new]
        refine List.nodup_cons.mpr ⟨fun clash => ?_, forest.names place member⟩
        obtain ⟨kid, kid_mem, same⟩ := List.mem_map.mp clash
        exact unused kid kid_mem same
      next =>
        rw [kept]
        exact forest.names place member
  · intro place member kid kid_mem
    obtain ⟨member, ⟨rfl, rfl⟩ | kid_mem⟩ := either member kid_mem
    · rw [new]
    · rw [old (forest.inside place member kid kid_mem).1]
      exact forest.parents place member kid kid_mem
  · intro place member
    rcases List.mem_cons.mp member with rfl | member
    · refine Or.inr ⟨dir, List.mem_cons_of_mem _ known, ?_⟩
      rw [listed known, if_pos rfl]
      exact List.mem_cons_self
    · refine (forest.covered place member).imp_right fun ⟨parent, parent_mem, kid_mem⟩ => ?_
      refine ⟨parent, List.mem_cons_of_mem _ parent_mem, ?_⟩
      rw [listed parent_mem]
      split
      next same => exact List.mem_cons_of_mem _ (same ▸ kid_mem)
      next => exact kid_mem
  · intro place member kid kid_mem
    obtain ⟨member, ⟨rfl, rfl⟩ | kid_mem⟩ := either member kid_mem
    · rw [raised known, Function.update_self]
      exact Nat.lt_succ_self _
    · rw [raised member, raised (forest.inside place member kid kid_mem).1]
      exact forest.acyclic place member kid kid_mem

end Forest

namespace Planted
variable {before after : FsState δ} {roots nodes : List Nat} {blocks : List Block} {roles : Roles}
  {kids : Nat → List Nat} {rank : Nat → Nat} {dir : Nat} {name : List UInt8} {type : UInt8} {ret : Int}

theorem lookup (planted : Planted before roots nodes blocks roles kids rank) (known : dir ∈ nodes) (name : List UInt8) :
    tmpfsLookup before dir name = .ok (if (before.nodes dir).type = fsDir then childNamed before.nodes
      (kids dir) name else 0) :=
  planted.valid.tmpfsLookup_kids (planted.live dir known) (planted.forest.chains dir known) name

/-- What a call makes of a tree, and of the lookups in it. -/
theorem step (planted : Planted before roots nodes blocks roles kids rank) (known : dir ∈ nodes) (named : NodeName name)
    (result : tmpfsNew before dir name type = .ok (ret, after)) :
    LookupLaws before after nodes dir name type ret ∧ ∃ blocks' roles' kids' rank',
      Planted after roots (if ret = 0 then (after.nodes dir).children :: nodes else nodes) blocks' roles' kids' rank' := by
  have live := planted.live dir known
  obtain ⟨_, blocks', roles', valid', aside⟩ := planted.valid.tmpfsNew_valid live result
  have live' (node : Nat) (member : node ∈ nodes) : roles' node = some .node := aside.used _ _ (planted.live node member)
  rcases planted.valid.planted live result with
    ⟨rfl, same⟩ | ⟨rfl, directory, missing, node, array, given, free, copied, nodes_eq⟩
  · have planted' : Planted after roots nodes blocks' roles' kids rank :=
      ⟨valid', live', planted.rooted, planted.forest.congr same⟩
    refine ⟨⟨fun success => (by cases success), fun success => (by cases success),
      fun _ => ⟨rfl, fun other member label => ?_⟩⟩, blocks', roles', kids, rank, planted'⟩
    rw [planted.lookup member, planted'.lookup member, same]
  · have fresh : node ∉ nodes := fun member => by
      have live := planted.live node member
      rw [free] at live
      cases live
    obtain ⟨_, spelled⟩ := strCopy_text named.clean copied
    rw [planted.lookup known, if_pos directory] at missing
    have unused := childNamed_zero (planted.forest.chains dir known).nonzero (Except.ok.inj missing)
    have forest := planted.forest.graft known planted.rooted given fresh (spelled.symm ▸ unused) nodes_eq
    have apart {place : Nat} (member : place ∈ nodes) : place ≠ node := fun same => fresh (same ▸ member)
    have new := nodes_eq ▸ graft_node before array type (apart known).symm
    have old {place : Nat} (member : place ∈ nodes) := nodes_eq ▸ graft_old before dir array type (apart member)
    have first : (after.nodes dir).children = node := by
      rw [old known]
      exact if_pos rfl
    have grown : roles' node = some .node := by
      obtain ⟨list, chain, _, inside⟩ := valid'.kids dir (live' dir known)
      cases list with
      | nil => exact (given (first ▸ chain)).elim
      | cons kid rest => exact inside node ((first ▸ chain.1 : node = kid) ▸ List.mem_cons_self)
    have planted' : Planted after roots (node :: nodes) blocks' roles' _ _ :=
      ⟨valid', List.forall_mem_cons.mpr ⟨grown, live'⟩,
        fun root member => List.mem_cons_of_mem _ (planted.rooted root member),
        forest⟩
    have children {place : Nat} (member : place ∈ nodes) :
        Function.update (Function.update kids dir (node :: kids dir)) node [] place =
          if place = dir then node :: kids dir else kids place := by
      rw [Function.update_of_ne (apart member), Function.update_apply]
    have names (place : Nat) (member : place ∈ nodes) (label : List UInt8) :
        childNamed after.nodes (kids place) label = childNamed before.nodes (kids place) label :=
      childNamed_congr (fun kid kid_mem => by rw [old (planted.forest.inside place member kid kid_mem).1]) label
    have kept {place : Nat} (member : place ∈ nodes) : (after.nodes place).type = (before.nodes place).type := by
      rw [old member]
    have named' : text (after.nodes node).name = name := by rw [new, spelled]
    have grown' : (if (0 : Int) = 0 then (after.nodes dir).children :: nodes else nodes) = node :: nodes := by
      rw [if_pos rfl, first]
    refine ⟨⟨fun _ => ⟨node, given, fresh, ?_, by rw [new]⟩, fun _ other member label different => ?_,
      fun failed => (failed rfl).elim⟩, blocks', roles', _, _, grown'.symm ▸ planted'⟩
    · rw [planted'.lookup (List.mem_cons_of_mem _ known), kept known, if_pos directory, children known, if_pos rfl,
        childNamed_cons, if_pos named']
    · have found : childNamed after.nodes (if other = dir then node :: kids dir else kids other) label =
          childNamed before.nodes (kids other) label := by
        split
        next same =>
          subst same
          have unlike : name ≠ label := fun same => different (by rw [same])
          rw [childNamed_cons, named', if_neg unlike, names _ member]
        next => rw [names _ member]
      rw [planted'.lookup (List.mem_cons_of_mem _ member), planted.lookup member, kept member, children member, found]

end Planted

/-- Every state of a run is a planted tree. -/
theorem TreeRun.planted {start state : FsState δ} {roots nodes : List Nat} (reached : FsReachable start)
    (bare : BareRoots start roots) (run : TreeRun start roots nodes state) :
    ∃ blocks roles kids rank, Planted state roots nodes blocks roles kids rank := by
  induction run with
  | start =>
    obtain ⟨blocks, roles, valid⟩ := fs_reachable_wellFormed reached
    refine ⟨blocks, roles, fun _ => [], fun _ => 0, valid, fun root member => ?_, fun _ member => member, ?_⟩
    · obtain ⟨given, _, slot, active, same⟩ := bare root member
      exact same ▸ valid.roots slot active (same.symm ▸ given)
    · refine ⟨fun root member => (bare root member).2.1, ?_, ?_, ?_, fun _ member => Or.inl member, ?_⟩ <;> simp
  | call call _ known named result ih =>
    obtain ⟨blocks, roles, kids, rank, planted⟩ := ih
    rw [call.run_eq] at result
    exact (planted.step known named result).2

/-- Every state that creations below bare roots reach is a forest, and every further
creation returns and changes the one lookup that finds the new node. -/
theorem tree_run_laws {start state : FsState δ} {roots nodes : List Nat} (reached : FsReachable start)
    (bare : BareRoots start roots) (run : TreeRun start roots nodes state) : TreeLaws state roots nodes := by
  obtain ⟨blocks, roles, kids, rank, planted⟩ := run.planted reached bare
  refine ⟨⟨kids, rank, planted.forest⟩, fun call name dir known named => ?_,
    fun call name dir known named ret after result => ?_⟩
  · have short := named.short
    rw [call.run_eq]
    exact planted.valid.tmpfsNew_returns (planted.live dir known) (by omega) call.type
  · rw [call.run_eq] at result
    exact (planted.step known named result).1

local instance mountSlots : NeZero fsMaxMnts := ⟨by decide⟩

/-- Make a directory below the first root and a file in it. -/
private def plants (state : FsState Unit) : Bool :=
  let root := (state.mnts 0).root
  match tmpfsMkdir state root (literal "etc") with
  | .ok (made, middle) =>
    match tmpfsCreate middle (middle.nodes root).children (literal "rc") with
    | .ok (created, _) =>
      made = 0 && created = 0 && (state.mnts 0).active && root ≠ 0 && (state.nodes root).children = 0
    | .error _ => false
  | .error _ => false

theorem tree_run_laws_etc : ∃ (start state : FsState Unit) (root : Nat) (nodes : List Nat), FsReachable start ∧
    BareRoots start [root] ∧ TreeRun start [root] nodes state ∧ nodes.length = 3 ∧ TreeLaws state [root] nodes := by
  obtain ⟨start, reached, fine⟩ := rootedFs_any plants (by decide +kernel)
  unfold plants at fine
  dsimp only at fine
  split at fine
  next made middle makes =>
    split at fine
    next created last creates =>
      simp only [Bool.and_eq_true, decide_eq_true_eq] at fine
      obtain ⟨⟨⟨⟨rfl, rfl⟩, active⟩, given⟩, bare⟩ := fine
      have bare' : BareRoots start [(start.mnts 0).root] := by
        intro root member
        obtain rfl := List.mem_singleton.mp member
        exact ⟨by simpa using given, bare, 0, active, rfl⟩
      have first : TreeRun start [(start.mnts 0).root] [(middle.nodes (start.mnts 0).root).children,
        (start.mnts 0).root] middle :=
        .call .mkdir .start List.mem_cons_self ⟨by decide, by decide, by decide⟩ makes
      have second := first.call .create List.mem_cons_self ⟨by decide, by decide, by decide⟩ creates
      exact ⟨start, last, _, _, reached, bare', second, rfl, tree_run_laws reached bare' second⟩
    next => cases fine
  next => cases fine

end Kernix.Proofs
