import Kernix.Proofs.Descriptors
import Kernix.Proofs.WorkingDirectory
import Kernix.Proofs.TmpfsTree

/-! Where a path leads after `fs_mkdir` or `fs_open` has created what it names. The parent is
found by the text in front of the last slash; the path itself goes to the mount that all of
it selects, and its last name may be another one. -/

namespace Kernix.Proofs
open ByteMemory

variable {δ : Type} {before middle after : FsState δ} {blocks : List Block} {roles : Roles} {path : List UInt8}

/-- The path led nowhere, and it leads to a directory now. -/
def MkdirRight (before : FsState δ) (path : List UInt8) (after : FsState δ) : Prop :=
  fsResolve before path = .ok 0 ∧
    ∃ node, fsResolve after path = .ok node ∧ node ≠ 0 ∧ (after.nodes node).type = fsDir

/-- The whole path ends with a name, in front of which it leads to a directory. -/
def LeadsThrough (state : FsState δ) (path : List UInt8) (dir : Nat) (name : List UInt8) : Prop :=
  path.head? = some slash ∧ ∃ slot front, findMnt state.mnts path = some slot ∧
    pathNames (behindMount state slot path) = front ++ [name] ∧ lookupPath state (state.mnts slot).root front = .ok dir

/-- The whole path goes through the parent that is found for the text in front of the last
slash, and its last name is the text behind it. -/
def SplitsAlike (state : FsState δ) (path : List UInt8) : Prop :=
  ∃ ppath name dir, splitPath path = .ok (ppath, name) ∧ fsResolve state ppath = .ok dir ∧
    LeadsThrough state path dir name

section Lookups
variable {dir node cur found : Nat} {array : Fin 64 → UInt8} {type : UInt8} {name label : List UInt8} {names : List (List UInt8)}

theorem lookupPath_append (front back : List (List UInt8)) :
    lookupPath before cur (front ++ back) = lookupPath before cur front >>= fun node => lookupPath before node back :=
  List.foldlM_append

theorem lookupPath_single (given : cur ≠ 0) : lookupPath before cur [name] = lookupIn before cur name := by
  rw [lookupPath_cons given]
  exact bind_pure _

theorem lookupPath_nil : lookupPath before cur [] = .ok cur := rfl

theorem lookupPath_step {next : Nat} (given : cur ≠ 0) (looks : lookupIn before cur name = .ok next)
    (names : List (List UInt8)) :
    lookupPath before cur (name :: names) = lookupPath before next names := by
  rw [lookupPath_cons given, looks]
  rfl

theorem lookupPath_zero (leads : lookupPath before 0 names = .ok found) : found = 0 := by
  rw [lookupPath_none] at leads
  exact (Except.ok.inj leads).symm

/-- A lookup sees the names, the types and the links of the nodes. -/
theorem KeepsTree.lookupIn (keeps : KeepsTree before after) (dir : Nat) (name : List UInt8) :
    lookupIn after dir name = Kernix.lookupIn before dir name := by
  have search (fuel child : Nat) : findChild after.nodes name fuel child = findChild before.nodes name fuel child := by
    induction fuel generalizing child with
    | zero => rfl
    | succ fuel ih => rw [findChild, findChild, keeps.name, keeps.next, ih]
  unfold Kernix.lookupIn tmpfsLookup devfsLookup
  rw [keeps.ops, keeps.type, keeps.children, search]

theorem KeepsTree.lookupPath (keeps : KeepsTree before after) (names : List (List UInt8)) (cur : Nat) :
    lookupPath after cur names = Proofs.lookupPath before cur names := by
  unfold Proofs.lookupPath
  simp only [keeps.lookupIn]

theorem KeepsTree.fsResolve (keeps : KeepsTree before after) (path : List UInt8) :
    fsResolve after path = Kernix.fsResolve before path := by
  by_cases absolute : path.head? = some slash
  · rcases found : findMnt before.mnts path with _ | slot
    · simp [Kernix.fsResolve, absolute, keeps.mnts, found]
    · have found' : findMnt after.mnts path = some slot := keeps.mnts ▸ found
      rw [fsResolve_folds absolute found', fsResolve_folds absolute found, behindMount, behindMount, keeps.mnts,
        keeps.lookupPath]
  · simp [Kernix.fsResolve, absolute]

/-- A lookup searches the children of its directory, in a tree that has lookups. -/
theorem FsValid.lookupIn_kids (valid : FsValid before blocks roles) (live : roles cur = some .node) {kids : List Nat}
    (chain : Chain before.nodes (before.nodes cur).children kids) :
    Kernix.lookupIn before cur label = .ok
      (if (before.nodes cur).ops ≠ none ∧ (before.nodes cur).type =
        fsDir then childNamed before.nodes kids label else 0) := by
  have found := valid.tmpfsLookup_kids live chain label
  unfold Kernix.lookupIn
  split
  next none => rw [if_neg fun given => given.1 none]
  next ops =>
    rw [found]
    simp [ops]
  next ops =>
    rw [show devfsLookup before cur label = tmpfsLookup before cur label from rfl, found]
    simp [ops]

/-- The lookups of a tree with a new node under a name that its directory did not have. -/
structure Sprouted (before after : FsState δ) (roles : Roles) (dir node : Nat) (name : List UInt8) : Prop where
  given : node ≠ 0
  fresh : roles node = none
  live : roles dir = some .node
  absent : lookupIn before dir name = .ok 0
  found : lookupIn after dir name = .ok node
  others : ∀ cur, roles cur = some .node → ∀ label, (cur, label) ≠ (dir, name) →
    lookupIn after cur label = lookupIn before cur label
  bare : ∀ label, lookupIn after node label = .ok 0

theorem graft_sprouted (valid : FsValid before blocks roles) (live : roles dir = some .node) (free : roles node = none)
    (given : node ≠ 0) (directory : (before.nodes dir).type = fsDir) (ops : (before.nodes dir).ops = some .tmpfs)
    (missing : tmpfsLookup before dir (text array) = .ok 0) {blocks' : List Block} {roles' : Roles}
    (valid' : FsValid after blocks' roles') (used : ∀ ptr role, roles ptr = some role → roles' ptr = some role)
    (grafted : after.nodes = (graft before dir node array type).nodes) :
    Sprouted before after roles dir node (text array) := by
  have stays {place : Nat} (known : roles place = some .node) : place ≠ node := by
    rintro rfl
    rw [free] at known
    cases known
  have new := grafted ▸ graft_node before array type (stays live).symm
  have old {place : Nat} (different : place ≠ node) := grafted ▸ graft_old before dir array type different
  have kept {kids : List Nat} (inside : ∀ kid ∈ kids, roles kid = some .node) {first : Nat}
      (chain : Chain before.nodes first kids) : Chain after.nodes first kids :=
    chain.congr fun kid member => by rw [old (stays (inside kid member))]
  have same {kids : List Nat} (inside : ∀ kid ∈ kids, roles kid = some .node) (label : List UInt8) :
      childNamed after.nodes kids label = childNamed before.nodes kids label :=
    childNamed_congr (fun kid member => by rw [old (stays (inside kid member))]) label
  -- The children of the directory, with the new node in front.
  obtain ⟨kids, chain, -, inside⟩ := valid.kids dir live
  have longer : Chain after.nodes (after.nodes dir).children (node :: kids) := by
    rw [old (stays live)]
    refine ⟨if_pos rfl, given, ?_⟩
    rw [new]
    exact kept inside chain
  have lists (label : List UInt8) :
      Kernix.lookupIn after dir label = .ok (childNamed after.nodes (node :: kids) label) := by
    rw [valid'.lookupIn_kids (used _ _ live) longer, old (stays live)]
    simp [ops, directory]
  refine ⟨given, free, live, ?_, ?_, ?_, ?_⟩
  · unfold Kernix.lookupIn
    rw [ops]
    exact missing
  · rw [lists, childNamed_cons, new, if_pos rfl]
  · intro cur there label different
    by_cases here : cur = dir
    · subst here
      have unlike : text array ≠ label := fun same => different (by rw [same])
      rw [lists, childNamed_cons, new, if_neg unlike, same inside, valid.lookupIn_kids live chain]
      simp [ops, directory]
    · obtain ⟨kids, chain, -, inside⟩ := valid.kids cur there
      have chain' : Chain after.nodes (after.nodes cur).children kids := by
        rw [old (stays there)]
        dsimp only
        rw [if_neg here]
        exact kept inside chain
      rw [valid'.lookupIn_kids (used _ _ there) chain', valid.lookupIn_kids there chain, old (stays there), same inside]
  · intro label
    have listed : roles' node = some .node := by
      obtain ⟨kids, chain, -, inside⟩ := valid'.kids dir (used _ _ live)
      exact inside node (chain.unique longer ▸ List.mem_cons_self)
    have none : Chain after.nodes (after.nodes node).children [] := by
      rw [new]
      rfl
    rw [valid'.lookupIn_kids listed none]
    simp [childNamed]

namespace Sprouted

theorem apart (sprouted : Sprouted before after roles dir node name) : node ≠ dir := by
  rintro rfl
  have live := sprouted.live
  rw [sprouted.fresh] at live
  cases live

/-- A path that led somewhere leads there still. -/
theorem keeps (sprouted : Sprouted before after roles dir node name) (valid : FsValid before blocks roles)
    (there : roles cur = some .node) (leads : lookupPath before cur names = .ok found) (nonzero : found ≠ 0) :
    lookupPath after cur names = .ok found := by
  induction names generalizing cur with
  | nil =>
    rw [lookupPath_nil] at leads ⊢
    exact leads
  | cons label names ih =>
    obtain ⟨child, looks, inside⟩ := valid.lookup there label
    have given := valid.live_ne_zero there
    rw [lookupPath_step given looks] at leads
    by_cases none : child = 0
    · rw [none] at leads
      exact (nonzero (lookupPath_zero leads)).elim
    · have other : (cur, label) ≠ (dir, name) := by
        intro same
        obtain ⟨rfl, rfl⟩ := Prod.mk.inj same
        exact none (Except.ok.inj (looks.symm.trans sprouted.absent))
      rw [lookupPath_step given ((sprouted.others cur there label other).trans looks)]
      exact ih (inside none) leads

/-- A path that leads somewhere led there before, or it ends with the new name. -/
theorem only (sprouted : Sprouted before after roles dir node name) (valid : FsValid before blocks roles)
    (there : roles cur = some .node) (leads : lookupPath after cur names = .ok found) (nonzero : found ≠ 0) :
    lookupPath before cur names = .ok found ∨
      ∃ front, names = front ++ [name] ∧ lookupPath before cur front = .ok dir := by
  induction names generalizing cur with
  | nil =>
    rw [lookupPath_nil] at leads
    exact .inl (lookupPath_nil.trans leads)
  | cons label names ih =>
    have given := valid.live_ne_zero there
    by_cases here : (cur, label) = (dir, name)
    · obtain ⟨rfl, rfl⟩ := Prod.mk.inj here
      cases names with
      | nil => exact .inr ⟨[], rfl, lookupPath_nil⟩
      | cons deeper names =>
        rw [lookupPath_step given sprouted.found, lookupPath_step sprouted.given (sprouted.bare deeper)] at leads
        exact (nonzero (lookupPath_zero leads)).elim
    · obtain ⟨child, looks, inside⟩ := valid.lookup there label
      rw [lookupPath_step given ((sprouted.others cur there label here).trans looks)] at leads
      by_cases none : child = 0
      · rw [none] at leads
        exact (nonzero (lookupPath_zero leads)).elim
      · rw [lookupPath_step given looks]
        refine (ih (inside none) leads).imp_right fun ⟨front, ends, leads⟩ => ⟨label :: front, ?_, ?_⟩
        · rw [ends]
          rfl
        · rw [lookupPath_step given looks]
          exact leads

end Sprouted

end Lookups

/-- A directory that `fs_mkdir` has made, and nothing else in the trees. -/
structure Made (before after : FsState δ) (roles : Roles) (path : List UInt8) (ppath name : List UInt8) (dir node : Nat) :
    Prop where
  splits : splitPath path = .ok (ppath, name)
  resolves : fsResolve before ppath = .ok dir
  sprouted : Sprouted before after roles dir node name
  mnts : after.mnts = before.mnts
  directory : (after.nodes node).type = fsDir

theorem Sprouted.congr {dir node : Nat} {name : List UInt8} (sprouted : Sprouted before middle roles dir node name)
    (keeps : KeepsTree middle after) : Sprouted before after roles dir node name where
  given := sprouted.given
  fresh := sprouted.fresh
  live := sprouted.live
  absent := sprouted.absent
  found := (keeps.lookupIn dir name).trans sprouted.found
  others := fun cur there label other => (keeps.lookupIn cur label).trans (sprouted.others cur there label other)
  bare := fun label => (keeps.lookupIn node label).trans (sprouted.bare label)

theorem Added.mnts {dir : Nat} {name : List UInt8} {type : UInt8} {ret : Int}
    (added : Added before dir name type ret after) :
    after.mnts = before.mnts := by
  cases added with
  | noDirectory => rfl
  | present => rfl
  | refused _ _ creates => exact (KeepsTree.create creates).mnts
  | added _ _ _ creates => exact (KeepsTree.create creates).mnts

theorem fsMkdir_made (valid : FsValid before blocks roles) (makes : fsMkdir before path = .ok (0, after)) :
    ∃ ppath name dir node, Made before after roles path ppath name dir node := by
  unfold fsMkdir at makes
  obtain ⟨⟨ppath, name⟩, splits, rest⟩ := bind_ok makes
  obtain ⟨dir, resolves, rest⟩ := bind_ok rest
  obtain ⟨_, resolves', live⟩ := valid.resolve ppath
  cases resolves.symm.trans resolves'
  dsimp only at rest
  split at rest
  next => cases rest
  next given =>
    unfold mkdirIn at rest
    split at rest
    next => cases rest
    next mkdir offered =>
      split at offered
      next ops =>
        cases offered
        obtain ⟨⟨ret, middle⟩, adds, rest⟩ := bind_ok rest
        dsimp only at rest
        split at rest
        next failed =>
          cases rest
          exact (failed rfl).elim
        next success =>
          obtain rfl := not_not.mp success
          obtain ⟨printed, prints, rest⟩ := bind_ok rest
          cases rest
          have keeps := KeepsTree.systemPrintAll prints
          obtain ⟨added, blocks', roles', valid', aside⟩ := valid.tmpfsNew_valid (live given) adds
          rcases valid.planted (live given) adds with
            ⟨impossible, -⟩ | ⟨-, directory, missing, node, array, nonzero, free, copied, nodes⟩
          · cases impossible
          · obtain ⟨-, -, -, -, array', -, rfl⟩ := splitPath_ok splits
            obtain ⟨-, spelled⟩ := strCopy_text (text_clean array') copied
            have sprouted := graft_sprouted valid (live given) free nonzero directory ops (spelled.symm ▸ missing) valid'
              aside.used nodes
            rw [spelled] at sprouted
            refine ⟨ppath, _, dir, node, splits, resolves, sprouted.congr keeps, ?_, ?_⟩
            · rw [keeps.mnts, added.mnts]
            · rw [keeps.type, nodes, graft_node before array fsDir sprouted.apart]
      next => cases offered

/-- A path that leads to a node is looked up in the tree of a mount. -/
theorem fsResolve_mounted {node : Nat} (leads : fsResolve before path = .ok node) (given : node ≠ 0) :
    path.head? = some slash ∧ ∃ slot, findMnt before.mnts path = some slot := by
  unfold fsResolve at leads
  split at leads
  next =>
    cases leads
    exact (given rfl).elim
  next absolute =>
    split at leads
    next =>
      cases leads
      exact (given rfl).elim
    next slot found => exact ⟨not_not.mp absolute, slot, found⟩

namespace Made
variable {ppath name : List UInt8} {dir node : Nat}

/-- A path that goes through the parent led nowhere, and it leads to the new directory. -/
theorem right (made : Made before after roles path ppath name dir node) (valid : FsValid before blocks roles)
    (through : LeadsThrough before path dir name) : MkdirRight before path after := by
  obtain ⟨absolute, slot, front, found, names, leads⟩ := through
  have sprouted := made.sprouted
  have given := valid.live_ne_zero sprouted.live
  have active := (findMnt_longest found).offers.active
  have found' : findMnt after.mnts path = some slot := made.mnts ▸ found
  have names' : pathNames (behindMount after slot path) = front ++ [name] := by
    rw [behindMount, made.mnts]
    exact names
  have rooted : (before.mnts slot).root ≠ 0 := by
    intro none
    rw [none] at leads
    exact given (lookupPath_zero leads)
  have leads' := sprouted.keeps valid (valid.roots slot active rooted) leads given
  refine ⟨?_, node, ?_, sprouted.given, made.directory⟩
  · rw [fsResolve_folds absolute found, names, lookupPath_append, leads]
    exact (lookupPath_single given).trans sprouted.absent
  · rw [fsResolve_folds absolute found', names', made.mnts, lookupPath_append, leads']
    exact (lookupPath_single given).trans sprouted.found

/-- A path that led nowhere and leads somewhere now goes through the parent. -/
theorem through (made : Made before after roles path ppath name dir node) (valid : FsValid before blocks roles)
    (right : MkdirRight before path after) : LeadsThrough before path dir name := by
  obtain ⟨missing, found, leads, nonzero, -⟩ := right
  obtain ⟨absolute, slot, chosen⟩ := fsResolve_mounted leads nonzero
  have chosen' : findMnt before.mnts path = some slot := made.mnts ▸ chosen
  have active := (findMnt_longest chosen').offers.active
  rw [fsResolve_folds absolute chosen, behindMount, made.mnts] at leads
  have rooted : (before.mnts slot).root ≠ 0 := by
    intro none
    rw [none] at leads
    exact nonzero (lookupPath_zero leads)
  rcases made.sprouted.only valid (valid.roots slot active rooted) leads nonzero with known | ⟨front, names, leads⟩
  · rw [fsResolve_folds absolute chosen'] at missing
    exact (nonzero (Except.ok.inj (known.symm.trans missing))).elim
  · exact ⟨absolute, slot, front, chosen', names, leads⟩

end Made

/-- A directory that is made can be found under its path if and only if the whole path goes
through the parent, and an open that creates a file returns the file of its path. -/
theorem created_resolves_iff (valid : FsValid before blocks roles) :
    (fsMkdir before path = .ok (0, after) → (MkdirRight before path after ↔ SplitsAlike before path)) ∧
      ∀ flags fd, fsOpen before path flags = .ok (fd, after) → 0 ≤ fd → fsResolve before path = .ok 0 →
        fsResolve after path = .ok (after.files (fsGetFile after fd)).node ∧
          (after.files (fsGetFile after fd)).node ≠ 0 := by
  refine ⟨fun makes => ?_, fun flags fd opens success _ => ?_⟩
  · obtain ⟨ppath, name, dir, node, made⟩ := fsMkdir_made valid makes
    constructor
    · intro right
      exact ⟨ppath, name, dir, made.splits, made.resolves, made.through valid right⟩
    · rintro ⟨_, _, _, splits, resolves, through⟩
      cases splits.symm.trans made.splits
      cases resolves.symm.trans made.resolves
      exact made.right valid through
  · rcases (valid.opened_valid (fsOpen_opened opens)).1 with ⟨rfl, -⟩ | ⟨slot, file, node, rfl, new⟩
    · exact absurd success (by decide)
    · have opened : fsGetFile after slot.val = file := (fsGetFile_update new.fds slot.val).trans (if_pos rfl)
      rw [opened, new.files]
      exact ⟨new.leads, new.nonzero⟩

/-- Make a directory in the root. -/
private def makesFirst (state : FsState Unit) : Bool :=
  match fsMkdir state (literal "/a") with
  | .ok (0, after) =>
    match fsResolve state (literal "/a"), fsResolve after (literal "/a") with
    | .ok 0, .ok node => node ≠ 0 && (after.nodes node).type = fsDir
    | _, _ => false
  | _ => false

theorem created_resolves_iff_first : ∃ (before after : FsState Unit),
    FsReachable before ∧ fsMkdir before (literal "/a") = .ok (0, after) ∧ SplitsAlike before (literal "/a") := by
  obtain ⟨before, reached, fine⟩ := rootedFs_any makesFirst (by decide +kernel)
  obtain ⟨blocks, roles, valid⟩ := fs_reachable_wellFormed reached
  unfold makesFirst at fine
  split at fine
  next after makes =>
    split at fine
    next node missing leads =>
      obtain ⟨given, directory⟩ := (Bool.and_eq_true _ _).mp fine
      refine ⟨before, after, reached, makes, ((created_resolves_iff valid).1 makes).mp ?_⟩
      exact ⟨missing, node, leads, of_decide_eq_true given, of_decide_eq_true directory⟩
    next => cases fine
  next => cases fine

/-- Mount the devices, and make a directory whose path only begins like their mount point. -/
private def makesLost (state : FsState Unit) : Bool :=
  match fsMount noDisk state none (literal "/dev") (literal "devfs") with
  | .ok (0, before) =>
    match fsMkdir before (literal "/devil") with
    | .ok (0, after) => match fsResolve after (literal "/devil") with
      | .ok 0 => true
      | _ => false
    | _ => false
  | _ => false

/-- The directory is made in the root, and its path leads to the devices, where it is not. -/
theorem mkdir_lost : ∃ (before after : FsState Unit), FsReachable before ∧
    fsMkdir before (literal "/devil") = .ok (0, after) ∧ fsResolve after (literal "/devil") = .ok 0 ∧
    ¬MkdirRight before (literal "/devil") after := by
  obtain ⟨start, reached, makes⟩ := rootedFs_any makesLost (by decide +kernel)
  unfold makesLost at makes
  split at makes
  next before mounts =>
    split at makes
    next after made =>
      split at makes
      next lost =>
        refine ⟨before, after, .mount noDisk_tame reached mounts, made, lost, ?_⟩
        rintro ⟨-, node, leads, given, -⟩
        exact given (Except.ok.inj (leads.symm.trans lost))
      next => cases makes
    next => cases makes
  next => cases makes

end Kernix.Proofs
