import Kernix.Fs.Commands
import Kernix.Lib.SlotList

/-! What the calls of the file system leave alone. The results of the larger
functions are listed case by case first; the frames follow from the cases. -/

namespace Kernix.Proofs
open ByteMemory

variable {δ : Type}

theorem create_ok {before after : FsState δ} {size ptr : Nat} (result : before.create size = .ok (ptr, after)) :
    ∃ memory, kernelMemoryCreate before.memory before.kernelMemory size = some (ptr, memory) ∧
      after = { before with memory } := by
  unfold FsState.create at result
  split at result
  next ptr memory made =>
    cases result
    exact ⟨memory, made, rfl⟩
  next => cases result

theorem free_ok {before after : FsState δ} {ptr : Nat} (result : before.free ptr = .ok after) :
    ∃ memory, kernelMemoryFree before.memory before.kernelMemory ptr = some memory ∧ after = { before with memory } := by
  unfold FsState.free at result
  split at result
  next memory freed =>
    cases result
    exact ⟨memory, freed, rfl⟩
  next => cases result

/-- How `fs_mknode` can end. -/
inductive NodeMade (before : FsState δ) (name : List UInt8) (type : UInt8) : Nat → FsState δ → Prop where
  | refused {after : FsState δ} (made : before.create fsNodeSize = .ok (0, after)) : NodeMade before name type 0 after
  | fresh {node : Nat} {made : FsState δ} {array : Fin 64 → UInt8} (given : node ≠ 0)
      (creates : before.create fsNodeSize = .ok (node, made)) (copied : strCopy (fun _ => 0) name = .ok array) :
      NodeMade before name type node (made.setNode node ⟨array, type, 0, none, 0, 0, 0, 0⟩)

theorem fsMknode_made {before after : FsState δ} {name : List UInt8} {type : UInt8} {node : Nat}
    (result : fsMknode before name type = .ok (node, after)) : NodeMade before name type node after := by
  unfold fsMknode at result
  obtain ⟨⟨ptr, made⟩, creates, rest⟩ := bind_ok result
  dsimp only at rest
  split at rest
  next none =>
    cases rest
    subst none
    exact .refused creates
  next given =>
    obtain ⟨array, copied, rest⟩ := bind_ok rest
    cases rest
    exact .fresh given creates copied

/-- How `tmpfsRecord` can end: the record it finds, and the state after it. -/
inductive RecordFound (before : FsState δ) (node : Nat) : Nat → FsState δ → Prop where
  | present (given : (before.nodes node).priv ≠ 0) : RecordFound before node (before.nodes node).priv before
  | refused {after : FsState δ} (missing : (before.nodes node).priv = 0)
      (made : before.create tmpfsDataSize = .ok (0, after)) : RecordFound before node 0 after
  | fresh {data : Nat} {after : FsState δ} (missing : (before.nodes node).priv = 0) (given : data ≠ 0)
      (made : before.create tmpfsDataSize = .ok (data, after)) :
      RecordFound before node data
        ((after.setTmpfsData data ⟨0, 0⟩).setNode node { after.nodes node with priv := data })

theorem tmpfsRecord_found {before after : FsState δ} {node data : Nat}
    (result : tmpfsRecord before node = .ok (data, after)) : RecordFound before node data after := by
  unfold tmpfsRecord at result
  split at result
  next missing =>
    obtain ⟨⟨ptr, made⟩, creates, rest⟩ := bind_ok result
    dsimp only at rest
    split at rest
    next none =>
      cases rest
      subst none
      exact .refused missing creates
    next given =>
      cases rest
      exact .fresh missing given creates
  next given =>
    cases result
    exact .present given

/-- How `tmpfsGrow` can end. -/
inductive Grown (before : FsState δ) (node data needed : Nat) : Bool → FsState δ → Prop where
  | fits (enough : needed ≤ (before.tmpfsDatas data).cap) : Grown before node data needed true before
  | refused {after : FsState δ} (short : (before.tmpfsDatas data).cap < needed)
      (made : before.create (pageRound needed) = .ok (0, after)) : Grown before node data needed false after
  | moved {newData : Nat} {made freed : FsState δ} (short : (before.tmpfsDatas data).cap < needed)
      (given : newData ≠ 0) (creates : before.create (pageRound needed) = .ok (newData, made))
      (filled : (before.tmpfsDatas data).data ≠ 0 ∧ 0 < (before.nodes node).size)
      (source : Within 0 (before.nodes node).size (before.tmpfsDatas data).cap)
      (target : Within 0 (before.nodes node).size (pageRound needed))
      (frees : FsState.free
        { made with
          memory := memcpy made.memory newData (bytesFrom (before.tmpfsDatas data).data) (before.nodes node).size }
        (before.tmpfsDatas data).data = .ok freed) :
      Grown before node data needed true (freed.setTmpfsData data ⟨newData, pageRound needed⟩)
  | fresh {newData : Nat} {made : FsState δ} (short : (before.tmpfsDatas data).cap < needed)
      (given : newData ≠ 0) (creates : before.create (pageRound needed) = .ok (newData, made))
      (empty : ¬((before.tmpfsDatas data).data ≠ 0 ∧ 0 < (before.nodes node).size)) :
      Grown before node data needed true (made.setTmpfsData data ⟨newData, pageRound needed⟩)

theorem tmpfsGrow_grown {before after : FsState δ} {node data needed : Nat} {grown : Bool}
    (result : tmpfsGrow before node data needed = .ok (grown, after)) : Grown before node data needed grown after := by
  unfold tmpfsGrow at result
  split at result
  next enough =>
    cases result
    exact .fits enough
  next short =>
    have short := Nat.lt_of_not_le short
    obtain ⟨⟨newData, made⟩, creates, rest⟩ := bind_ok result
    obtain ⟨memory, _, rfl⟩ := create_ok creates
    dsimp only at rest
    split at rest
    next none =>
      cases rest
      subst none
      exact .refused short creates
    next given =>
      split at rest
      next filled =>
        split at rest
        next => cases rest
        next inside =>
          obtain ⟨source, target⟩ := not_not.mp inside
          obtain ⟨freed, frees, rest⟩ := bind_ok rest
          cases rest
          exact .moved short given creates filled source target frees
      next empty =>
        cases rest
        exact .fresh short given creates empty

/-- How `tmpfs_write` can end. -/
inductive Wrote (before : FsState δ) (address : Nat) (buf : List UInt8) : Int → FsState δ → Prop where
  | noFile (other : (before.nodes (before.files address).node).type ≠ fsFile) : Wrote before address buf (-1) before
  | noRecord {after : FsState δ} (file : (before.nodes (before.files address).node).type = fsFile)
      (found : RecordFound before (before.files address).node 0 after) : Wrote before address buf (-1) after
  | noRoom {data : Nat} {middle after : FsState δ} (file : (before.nodes (before.files address).node).type = fsFile)
      (found : RecordFound before (before.files address).node data middle) (given : data ≠ 0)
      (grown : Grown middle (before.files address).node data
        (u64 ((middle.files address).pos + buf.length)) false after) :
      Wrote before address buf (-1) after
  | stored {data : Nat} {middle after : FsState δ} (file : (before.nodes (before.files address).node).type = fsFile)
      (found : RecordFound before (before.files address).node data middle) (given : data ≠ 0)
      (grown : Grown middle (before.files address).node data (u64 ((middle.files address).pos + buf.length)) true after)
      (inside : Within (after.files address).pos buf.length (after.tmpfsDatas data).cap) :
      Wrote before address buf (i64 buf.length) (tmpfsStore after address data buf)

theorem tmpfsWrite_wrote {before after : FsState δ} {address : Nat} {buf : List UInt8} {ret : Int}
    (result : tmpfsWrite before address buf = .ok (ret, after)) : Wrote before address buf ret after := by
  unfold tmpfsWrite at result
  dsimp only at result
  split at result
  next other =>
    cases result
    exact .noFile other
  next file =>
    have file := not_not.mp file
    obtain ⟨⟨data, middle⟩, records, rest⟩ := bind_ok result
    have found := tmpfsRecord_found records
    dsimp only at rest
    split at rest
    next none =>
      cases rest
      subst none
      exact .noRecord file found
    next given =>
      obtain ⟨⟨enough, last⟩, grows, rest⟩ := bind_ok rest
      have grown := tmpfsGrow_grown grows
      cases enough with
      | false =>
        cases rest
        exact .noRoom file found given grown
      | true =>
        dsimp only at rest
        rw [if_neg (show ¬(!true) = true by decide)] at rest
        split at rest
        next => cases rest
        next inside =>
          cases rest
          exact .stored file found given grown (not_not.mp inside)

/-- A node without what reading and writing change in it. -/
def bareNode (node : FsNode) : FsNode := { node with size := 0, priv := 0 }

def bareFile (file : FsFile) : FsFile := { file with pos := 0 }

/-- A step inside the files: the tables, the trees and the device nodes stay. -/
structure KeepsTree (before after : FsState δ) : Prop where
  kernelMemory : after.kernelMemory = before.kernelMemory
  mnts : after.mnts = before.mnts
  fds : after.fds = before.fds
  types : after.types = before.types
  nodes : ∀ node, bareNode (after.nodes node) = bareNode (before.nodes node)
  files : ∀ file, bareFile (after.files file) = bareFile (before.files file)
  devfsDatas : after.devfsDatas = before.devfsDatas
  devfsRoot : after.devfsRoot = before.devfsRoot
  initBootLog : after.initBootLog = before.initBootLog

namespace KeepsTree
variable {first second third : FsState δ}

theorem refl (state : FsState δ) : KeepsTree state state :=
    ⟨rfl, rfl, rfl, rfl, fun _ => rfl, fun _ => rfl, rfl, rfl, rfl⟩

theorem trans (left : KeepsTree first second) (right : KeepsTree second third) : KeepsTree first third where
  kernelMemory := right.kernelMemory.trans left.kernelMemory
  mnts := right.mnts.trans left.mnts
  fds := right.fds.trans left.fds
  types := right.types.trans left.types
  nodes node := (right.nodes node).trans (left.nodes node)
  files file := (right.files file).trans (left.files file)
  devfsDatas := right.devfsDatas.trans left.devfsDatas
  devfsRoot := right.devfsRoot.trans left.devfsRoot
  initBootLog := right.initBootLog.trans left.initBootLog

theorem memory (state : FsState δ) (memory : Memory) : KeepsTree state { state with memory } :=
  ⟨rfl, rfl, rfl, rfl, fun _ => rfl, fun _ => rfl, rfl, rfl, rfl⟩

theorem create {ptr size : Nat} (result : first.create size = .ok (ptr, second)) : KeepsTree first second := by
  obtain ⟨memory, _, rfl⟩ := create_ok result
  exact .memory first memory

theorem free {ptr : Nat} (result : first.free ptr = .ok second) : KeepsTree first second := by
  obtain ⟨memory, _, rfl⟩ := free_ok result
  exact .memory first memory

theorem setTmpfsData (state : FsState δ) (address : Nat) (data : TmpfsData) :
    KeepsTree state (state.setTmpfsData address data) :=
  ⟨rfl, rfl, rfl, rfl, fun _ => rfl, fun _ => rfl, rfl, rfl, rfl⟩

theorem setNode {address : Nat} {node : FsNode} (same : bareNode node = bareNode (first.nodes address)) :
    KeepsTree first (first.setNode address node) := by
  refine ⟨rfl, rfl, rfl, rfl, fun other => ?_, fun _ => rfl, rfl, rfl, rfl⟩
  simp only [FsState.setNode, Function.update_apply]
  split
  next place =>
    subst place
    exact same
  next => rfl

theorem setFile {address : Nat} {file : FsFile} (same : bareFile file = bareFile (first.files address)) :
    KeepsTree first (first.setFile address file) := by
  refine ⟨rfl, rfl, rfl, rfl, fun _ => rfl, fun other => ?_, rfl, rfl, rfl⟩
  simp only [FsState.setFile, Function.update_apply]
  split
  next place =>
    subst place
    exact same
  next => rfl

theorem record {node data : Nat} (found : RecordFound first node data second) : KeepsTree first second := by
  cases found with
  | present => exact .refl first
  | refused _ made => exact .create made
  | fresh _ _ made => exact (KeepsTree.create made).trans ((KeepsTree.setTmpfsData _ _ _).trans (.setNode rfl))

theorem grow {node data needed : Nat} {grown : Bool} (result : Grown first node data needed grown second) :
    KeepsTree first second := by
  cases result with
  | fits => exact .refl first
  | refused _ made => exact .create made
  | moved _ _ creates _ _ _ frees =>
    exact (KeepsTree.create creates).trans ((KeepsTree.memory _ _).trans
      ((KeepsTree.free frees).trans (.setTmpfsData _ _ _)))
  | fresh _ _ creates => exact (KeepsTree.create creates).trans (.setTmpfsData _ _ _)

theorem store (state : FsState δ) (address data : Nat) (buf : List UInt8) :
    KeepsTree state (tmpfsStore state address data buf) := by
  unfold tmpfsStore
  have filled := KeepsTree.memory state (memcpy state.memory
    ((state.tmpfsDatas data).data + (state.files address).pos) (bytesOf buf) buf.length)
  have same : bareFile { state.files address with pos := u64 ((state.files address).pos + buf.length) } =
      bareFile (state.files address) := rfl
  have moved := filled.trans (.setFile same)
  dsimp only
  split
  · exact moved.trans (.setNode rfl)
  · exact moved

theorem tmpfsWrite {address : Nat} {buf : List UInt8} {ret : Int}
    (result : tmpfsWrite first address buf = .ok (ret, second)) : KeepsTree first second := by
  cases tmpfsWrite_wrote result with
  | noFile => exact .refl first
  | noRecord _ found => exact .record found
  | noRoom _ found _ grown => exact (KeepsTree.record found).trans (.grow grown)
  | stored _ found _ grown => exact (KeepsTree.record found).trans ((KeepsTree.grow grown).trans (.store _ _ _ _))

theorem devices (state : FsState δ) (devices : δ) : KeepsTree state { state with devices } :=
  ⟨rfl, rfl, rfl, rfl, fun _ => rfl, fun _ => rfl, rfl, rfl, rfl⟩

theorem devfsWrite {file : Nat} {buf : List UInt8} : KeepsTree first (devfsWrite first file buf).2 := by
  unfold Kernix.devfsWrite
  dsimp only
  split
  · exact .refl first
  · split
    · exact .refl first
    · exact .devices first _

theorem fsWrite {fd ret : Int} {buf : List UInt8} (result : fsWrite first fd buf = .ok (ret, second)) :
    KeepsTree first second := by
  unfold Kernix.fsWrite at result
  dsimp only at result
  split at result
  next =>
    cases result
    exact .refl first
  next =>
    split at result
    next =>
      cases result
      exact .refl first
    next => exact .tmpfsWrite result
    next =>
      have same : (Kernix.devfsWrite first (fsGetFile first fd) buf).2 = second :=
        congrArg Prod.snd (Except.ok.inj result)
      exact same ▸ .devfsWrite

theorem systemPrint {msg : List UInt8} (result : systemPrint first msg = .ok second) : KeepsTree first second := by
  unfold Kernix.systemPrint at result
  split at result
  next =>
    obtain ⟨⟨ret, after⟩, writes, rfl⟩ := map_ok result
    exact .fsWrite writes
  next =>
    cases result
    exact .refl first

theorem systemPrintAll {msgs : List (List UInt8)} (result : systemPrintAll first msgs = .ok second) :
    KeepsTree first second := by
  unfold Kernix.systemPrintAll at result
  induction msgs generalizing first with
  | nil =>
    cases result
    exact .refl _
  | cons msg msgs ih =>
    obtain ⟨middle, prints, rest⟩ := bind_ok result
    exact (KeepsTree.systemPrint prints).trans (ih rest)

end KeepsTree

end Kernix.Proofs
