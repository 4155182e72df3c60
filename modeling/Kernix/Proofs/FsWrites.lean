import Kernix.Proofs.FsInvariant
import Mathlib.Data.List.GetD

/-! A write step by step: the record, the buffer, the bytes. Up to the last of them
nothing happens that a reader could see. -/

namespace Kernix.Proofs
open ByteMemory

variable {δ : Type}

/-- A step after which everything is valid again and that no reader can tell. -/
structure Unseen (before after : FsState δ) (roles : Roles) (blocks' : List Block) (roles' : Roles) : Prop where
  valid : FsValid after blocks' roles'
  kept : RolesKept roles roles'
  tree : KeepsTree before after
  sizes : ∀ node, (after.nodes node).size = (before.nodes node).size
  contents : ∀ node, roles node = some .node → IsFile before node → content after node = content before node
  files : after.files = before.files

theorem FsValid.unseen {state : FsState δ} {blocks : List Block} {roles : Roles} (valid : FsValid state blocks roles) :
    Unseen state state roles blocks roles :=
  ⟨valid, .refl _, .refl _, fun _ => rfl, fun _ _ _ => rfl, rfl⟩

theorem Unseen.trans {first second third : FsState δ} {roles roles' roles'' : Roles} {blocks' blocks'' : List Block}
    (left : Unseen first second roles blocks' roles') (right : Unseen second third roles' blocks'' roles'') :
    Unseen first third roles blocks'' roles'' where
  valid := right.valid
  kept := left.kept.trans right.kept
  tree := left.tree.trans right.tree
  sizes node := (right.sizes node).trans (left.sizes node)
  contents node live file := (right.contents node ((left.kept.node node).mpr live) (left.tree.isFile.mpr file)).trans
    (left.contents node live file)
  files := right.files.trans left.files

namespace FsValid
variable {before after : FsState δ} {blocks blocks' : List Block} {roles : Roles} {ptr width size node data : Nat}

theorem create_zero (before : FsState δ) : before.create 0 = .ok (0, before) := by
  unfold FsState.create kernelMemoryCreate
  simp

/-- The heap after a successful allocation, before the block is given a role. -/
theorem allocation (valid : FsValid before blocks roles) (made : Allocation before after blocks blocks' ptr width size)
    (owned : Owned after blocks' roles) : Unseen before after roles blocks' roles := by
  have typed := made.typed
  generalize after.memory = memory at typed
  subst typed
  have same (node : Nat) : bufferOf { before with memory } node = bufferOf before node := rfl
  refine ⟨valid.keeps (.memory before memory) (.refl roles) owned ?_ valid.pos, .refl _, .memory before memory,
    fun _ => rfl, ?_, rfl⟩
  · intro node live file
    exact (valid.files node live file).transfer rfl rfl (fun _ => same node) (fun _ used => used) (fun _ used => used)
      fun _ _ _ member => made.survives member
  · intro node live file
    exact (valid.files node live file).content_kept rfl (fun _ => same node) fun _ _ member => made.kept _ member

theorem create (valid : FsValid before blocks roles) (small : size + 15 < 2 ^ 64)
    (result : before.create size = .ok (ptr, after)) :
    (ptr = 0 ∧ after = before) ∨
      ∃ blocks' width, Allocation before after blocks blocks' ptr width size ∧
        Unseen before after roles blocks' roles := by
  by_cases asked : size = 0
  · subst asked
    rw [create_zero] at result
    cases result
    exact Or.inl ⟨rfl, rfl⟩
  · rcases valid.owned.create asked small result with ⟨none, same, _⟩ | ⟨blocks', width, made, owned⟩
    · exact Or.inl ⟨none, same⟩
    · exact Or.inr ⟨blocks', width, made, valid.allocation made owned⟩

/-- The record of another file is another record. -/
theorem other_record (valid : FsValid before blocks roles) {other : Nat} (live : roles other = some .node)
    (file : IsFile before other) (record : roles data = some (.record node)) (different : other ≠ node)
    (given : (before.nodes other).priv ≠ 0) : (before.nodes other).priv ≠ data := by
  intro same
  have used := (valid.files other live file).record given
  rw [same, record] at used
  cases used
  exact different rfl

/-- A fresh record for a file that has none. -/
theorem attach (valid : FsValid before blocks roles) (live : roles node = some .node)
    (file : IsFile before node) (missing : (before.nodes node).priv = 0)
    (held : (data, width) ∈ liveEntries before blocks)
    (free : roles data = none) :
    Unseen before ((before.setTmpfsData data ⟨0, 0⟩).setNode node { before.nodes node with priv := data }) roles blocks
      (roles.assign data (.record node)) := by
  have positive := Owned.positive held
  have kept : RolesKept roles (roles.assign data (.record node)) := .assign free (by simp)
  have tree : KeepsTree before ((before.setTmpfsData data ⟨0, 0⟩).setNode node { before.nodes node with priv := data }) :=
    (KeepsTree.setTmpfsData before data ⟨0, 0⟩).trans (.setNode rfl)
  have empty := (valid.files node live file).bare missing
  have elsewhere (other : Nat) (different : other ≠ node) (live : roles other = some .node) (file : IsFile before other)
      (given : (before.nodes other).priv ≠ 0) : (before.nodes other).priv ≠ data := by
    intro same
    have used := (valid.files other live file).record given
    rw [same, free] at used
    cases used
  have buffers (other : Nat) (different : other ≠ node) (live : roles other = some .node) (file : IsFile before other)
      (given : (before.nodes other).priv ≠ 0) :
      bufferOf ((before.setTmpfsData data ⟨0, 0⟩).setNode node { before.nodes node with priv := data }) other =
        bufferOf before other := by
    simp only [bufferOf, FsState.setNode, FsState.setTmpfsData, Function.update_apply, if_neg different,
      if_neg (elsewhere other different live file given)]
  have sizes (other : Nat) :
      (((before.setTmpfsData data ⟨0, 0⟩).setNode node { before.nodes node with priv := data }).nodes other).size =
        (before.nodes other).size := by
    simp only [FsState.setNode, FsState.setTmpfsData, Function.update_apply]
    split
    next same => rw [same]
    next => rfl
  refine ⟨valid.keeps tree kept ?_ ?_ valid.pos, kept, tree, sizes, ?_, rfl⟩
  · have owned := valid.owned.assign held (.record node)
    exact ⟨owned.heap, owned.live⟩
  · intro other live' file'
    by_cases same : other = node
    · subst same
      have own : bufferOf ((before.setTmpfsData data ⟨0,
        0⟩).setNode other { before.nodes other with priv := data }) other =
          ⟨0, 0⟩ := by
        simp [bufferOf, FsState.setNode, FsState.setTmpfsData]
      have pointer : (((before.setTmpfsData data ⟨0, 0⟩).setNode other { before.nodes other with priv := data }).nodes
          other).priv = data := by
        simp [FsState.setNode]
      refine ⟨fun none => ?_, fun _ => ?_, fun _ => ?_, fun _ _ => ?_, fun _ stored => ?_⟩
      · omega
      · rw [pointer]
        exact Roles.assign_self ..
      · rw [sizes, empty]
        exact Nat.zero_le _
      · rw [own]
      · rw [own] at stored
        exact (stored rfl).elim
    · refine (valid.files other live' file').transfer (sizes other) ?_ (buffers other same live' file')
        (fun _ => Roles.assign_used free) (fun _ => Roles.assign_used free) fun _ _ _ member => member
      simp only [FsState.setNode, FsState.setTmpfsData, Function.update_apply, if_neg same]
  · intro other live' file'
    by_cases same : other = node
    · subst same
      apply content_eq (sizes other)
      rw [empty]
      exact fun offset inside => (Nat.not_lt_zero offset inside).elim
    · exact (valid.files other live' file').content_kept (sizes other) (buffers other same live' file')
        fun _ _ _ _ _ _ => rfl

theorem record (valid : FsValid before blocks roles) (live : roles node = some .node) (file : IsFile before node)
    (found : RecordFound before node data after) :
    ∃ blocks' roles', Unseen before after roles blocks' roles' ∧ (data ≠ 0 → (after.nodes node).priv = data) := by
  cases found with
  | present given => exact ⟨blocks, roles, valid.unseen, fun _ => rfl⟩
  | refused missing made =>
    rcases valid.create (by decide) made with ⟨_, rfl⟩ | ⟨_, _, allocation, _⟩
    · exact ⟨blocks, roles, valid.unseen, fun given => (given rfl).elim⟩
    · exact (allocation.given rfl).elim
  | @fresh data middle missing given made =>
    rcases valid.create (by decide) made with ⟨none, _⟩ | ⟨blocks', width, allocation, unseen⟩
    · exact (given none).elim
    · have file' := unseen.tree.isFile.mpr file
      have missing' : (middle.nodes node).priv = 0 := by
        rw [allocation.typed]
        exact missing
      exact ⟨blocks', _, unseen.trans (unseen.valid.attach live file' missing' allocation.held
        (allocation.free valid.owned)),
        fun _ => by simp [FsState.setNode]⟩

theorem pageRound_eq (needed : Nat) : pageRound needed = u64 (needed + 4095) / 4096 * 4096 := by
  have mask : (0xFFFFFFFFFFFFF000 : Nat) = (2 ^ 52 - 1) <<< 12 := by decide
  have bound := u64_lt (needed + 4095)
  unfold pageRound
  rw [mask, and_block]
  omega

/-- An allocation of the rounded size succeeds only where rounding up did not wrap to zero. -/
theorem pageRound_given {needed : Nat} (bound : needed < 2 ^ 64)
    (creates : before.create (pageRound needed) = .ok (ptr, after)) (given : ptr ≠ 0) : needed ≤ pageRound needed := by
  have nonzero : pageRound needed ≠ 0 := fun zero => by
    rw [zero, create_zero] at creates
    exact given (congrArg Prod.fst (Except.ok.inj creates)).symm
  rw [pageRound_eq] at *
  unfold u64 at *
  omega

theorem pageRound_small (needed : Nat) : pageRound needed + 15 < 2 ^ 64 := by
  have bound := u64_lt (needed + 4095)
  rw [pageRound_eq]
  omega

/-- Pointing the record of a file to a fresh buffer that already holds its bytes. -/
theorem exchange (valid : FsValid before blocks roles) {middle : FsState δ} {roles' : Roles} {newData cap : Nat}
    (live : roles node = some .node) (file : IsFile before node) (record : (before.nodes node).priv = data)
    (given : data ≠ 0) (tree : KeepsTree before middle) (nodes : middle.nodes = before.nodes)
    (files : middle.files = before.files) (datas : middle.tmpfsDatas = before.tmpfsDatas)
    (owned : Owned middle blocks' roles') (kept : RolesKept roles roles')
    (records : ∀ place other, roles place = some (.record other) → roles' place = some (.record other))
    (buffers : ∀ place other, other ≠ node → roles place = some (.buffer other) → roles' place = some (.buffer other))
    (assigned : roles' newData = some (.buffer node)) (nonzero : newData ≠ 0)
    (held : (newData, width) ∈ liveEntries middle blocks') (wide : cap ≤ width) (room : (before.nodes node).size ≤ cap)
    (others : ∀ place other width', other ≠ node → roles place = some (.buffer other) →
      (place, width') ∈ liveEntries before blocks →
        (place, width') ∈ liveEntries middle blocks' ∧ Agree middle.memory before.memory place width')
    (copied : ∀ offset < (before.nodes node).size,
      middle.memory (newData + offset) = before.memory ((bufferOf before node).data + offset)) :
    Unseen before (middle.setTmpfsData data ⟨newData, cap⟩) roles blocks' roles' := by
  have whole := tree.trans (.setTmpfsData middle data ⟨newData, cap⟩)
  have own : bufferOf (middle.setTmpfsData data ⟨newData, cap⟩) node = ⟨newData, cap⟩ := by
    simp [bufferOf, FsState.setTmpfsData, nodes, record]
  have ownRecord : roles data = some (.record node) := by
    have used := (valid.files node live file).record (record ▸ given)
    rwa [record] at used
  have same (other : Nat) (different : other ≠ node) (live : roles other = some .node) (file : IsFile before other)
      (given : (before.nodes other).priv ≠ 0) :
      bufferOf (middle.setTmpfsData data ⟨newData, cap⟩) other = bufferOf before other := by
    have elsewhere := valid.other_record live file ownRecord different given
    simp [bufferOf, FsState.setTmpfsData, nodes, datas, elsewhere]
  have sizes (other : Nat) : ((middle.setTmpfsData data ⟨newData, cap⟩).nodes other).size =
    (before.nodes other).size := by
    simp only [FsState.setTmpfsData, nodes]
  have privs (other : Nat) : ((middle.setTmpfsData data ⟨newData, cap⟩).nodes other).priv =
    (before.nodes other).priv := by
    simp only [FsState.setTmpfsData, nodes]
  refine ⟨valid.keeps whole kept ⟨owned.heap, owned.live⟩ ?_ ?_, kept, whole, sizes, ?_, files⟩
  · intro other live' file'
    by_cases equal : other = node
    · subst equal
      refine ⟨fun none => ?_, fun _ => ?_, fun _ => ?_, fun _ none => ?_, fun _ _ => ?_⟩
      · rw [privs, record] at none
        exact (given none).elim
      · rw [privs, record]
        exact records _ _ ownRecord
      · rw [sizes, own]
        exact room
      · rw [own] at none
        exact (nonzero none).elim
      · rw [own]
        exact ⟨assigned, width, held, wide⟩
    · exact (valid.files other live' file').transfer (sizes other) (privs other) (same other equal live' file')
        (fun place => records place other) (fun place => buffers place other equal)
        fun place width' used member => (others place other width' equal used member).1
  · intro fd used
    simp only [FsState.setTmpfsData, files]
    exact valid.pos fd used
  · intro other live' file'
    by_cases equal : other = node
    · subst equal
      apply content_eq (sizes other)
      rw [own]
      exact copied
    · exact (valid.files other live' file').content_kept (sizes other) (same other equal live' file')
        fun width' used member => (others _ other width' equal used member).2

/-- A larger buffer for a file that has no bytes yet. -/
theorem replace (valid : FsValid before blocks roles) {made : FsState δ} {newData cap : Nat}
    (live : roles node = some .node) (file : IsFile before node) (record : (before.nodes node).priv = data)
    (given : data ≠ 0) (allocation : Allocation before made blocks blocks' newData width cap)
    (unseen : Unseen before made roles blocks' roles) (empty : (before.nodes node).size = 0) :
    Unseen before (made.setTmpfsData data ⟨newData, cap⟩) roles blocks' (roles.assign newData (.buffer node)) := by
  have free := allocation.free valid.owned
  have typed := allocation.typed
  refine valid.exchange live file record given unseen.tree ?_ unseen.files ?_
    (unseen.valid.owned.assign allocation.held _) (.assign free (by simp)) (fun _ _ => Roles.assign_used free)
    (fun _ _ _ => Roles.assign_used free) (Roles.assign_self ..) allocation.given allocation.held allocation.wide
    (by rw [empty]; exact Nat.zero_le _) ?_ ?_
  · rw [typed]
  · rw [typed]
  · exact fun place other width' _ _ member => ⟨allocation.survives member, allocation.kept _ member⟩
  · intro offset inside
    rw [empty] at inside
    exact (Nat.not_lt_zero offset inside).elim

end FsValid

/-- Two blocks are apart, so `memcpy` copies what the old one held. -/
theorem Owned.transfer {state : FsState δ} {blocks : List Block} {roles : Roles} {ptr width old oldWidth count : Nat}
    (owned : Owned state blocks roles) (held : (ptr, width) ∈ liveEntries state blocks)
    (oldHeld : (old, oldWidth) ∈ liveEntries state blocks) (different : old ≠ ptr) (fits : count ≤ width)
    (inside : count ≤ oldWidth) :
    memcpy state.memory ptr (bytesFrom old) count = copy state.memory ptr count (bytesFrom old state.memory) ∧
      Confined (memcpy state.memory ptr (bytesFrom old) count) state.memory ptr width := by
  have bound := owned.inside held
  have distance := Owned.apart oldHeld held different.symm
  have moved : memcpy state.memory ptr (bytesFrom old) count =
      copy state.memory ptr count (bytesFrom old state.memory) :=
    memcpy_eq_copy _ _ _ _ (bytesFrom_stable _ (by omega)) (by omega)
  refine ⟨moved, ?_⟩
  rw [moved]
  exact (copy_confined _ _ _ _).mono (Nat.le_refl _) (by omega)

namespace FsValid
variable {before after : FsState δ} {blocks blocks' : List Block} {roles : Roles} {ptr width size node data : Nat}

/-- A larger buffer for a file whose bytes move into it. -/
theorem move (valid : FsValid before blocks roles) {made freed : FsState δ} {newData cap : Nat}
    (live : roles node = some .node) (file : IsFile before node) (record : (before.nodes node).priv = data)
    (given : data ≠ 0) (allocation : Allocation before made blocks blocks' newData width cap)
    (unseen : Unseen before made roles blocks' roles) (stored : (bufferOf before node).data ≠ 0)
    (fits : (before.nodes node).size ≤ cap)
    (frees : FsState.free
      { made with memory := memcpy made.memory newData (bytesFrom (bufferOf before node).data) (before.nodes node).size }
      (bufferOf before node).data = .ok freed) :
    ∃ blocks'' roles'', Unseen before (freed.setTmpfsData data ⟨newData, cap⟩) roles blocks'' roles'' := by
  have free := allocation.free valid.owned
  have typed := allocation.typed
  have own := valid.files node live file
  have linked : (before.nodes node).priv ≠ 0 := record ▸ given
  obtain ⟨used, oldWidth, oldHeld, oldWide⟩ := own.buffer linked stored
  have room := own.room linked
  have wide := allocation.wide
  generalize source : (bufferOf before node).data = old at *
  have different : old ≠ newData := by
    rintro rfl
    rw [free] at used
    cases used
  have oldHeld' := allocation.survives oldHeld
  obtain ⟨moved, confined⟩ := unseen.valid.owned.transfer allocation.held oldHeld' different (le_trans fits wide)
    (le_trans room oldWide)
  obtain ⟨owned, others⟩ := (unseen.valid.owned.assign allocation.held (.buffer node)).write allocation.held confined
  obtain ⟨blocks'', final, removed, kept, typed'⟩ := owned.free oldHeld' frees
  have dropped : roles.assign newData (.buffer node) old = some (.buffer node) := Roles.assign_used free used
  have remains {place width' : Nat} (apart : place ≠ old) (member : (place, width') ∈ liveEntries made blocks') :
      (place, width') ∈ liveEntries freed blocks'' := by
    rcases List.mem_cons.mp (removed.mem_iff.mp member) with same | rest
    · exact (apart (congrArg Prod.fst same)).elim
    · exact rest
  refine ⟨blocks'', _, valid.exchange live file record given ?_ ?_ ?_ ?_ final
    (RolesKept.trans (.assign free (by simp)) (.drop dropped)) ?_ ?_ ?_ allocation.given
    (remains different.symm allocation.held) wide fits ?_ ?_⟩
  · exact unseen.tree.trans ((KeepsTree.memory made _).trans (KeepsTree.free frees))
  · rw [typed', typed]
  · rw [typed', typed]
  · rw [typed', typed]
  · intro place other record'
    have apart : place ≠ old := by
      rintro rfl
      rw [used] at record'
      cases record'
    rw [Roles.drop_other apart]
    exact Roles.assign_used free record'
  · intro place other stranger buffer
    have apart : place ≠ old := by
      rintro rfl
      rw [used] at buffer
      cases buffer
      exact stranger rfl
    rw [Roles.drop_other apart]
    exact Roles.assign_used free buffer
  · rw [Roles.drop_other different.symm]
    exact Roles.assign_self ..
  · intro place other width' stranger buffer member
    have apart : place ≠ old := by
      rintro rfl
      rw [used] at buffer
      cases buffer
      exact stranger rfl
    have elsewhere : place ≠ newData := by
      rintro rfl
      rw [free] at buffer
      cases buffer
    have member' := allocation.survives member
    exact ⟨remains apart member', (kept (place, width') (remains apart member')).trans
      ((others place width' member' elsewhere).trans (allocation.kept (place, width') member))⟩
  · intro offset within
    have first := kept (newData, width) (remains different.symm allocation.held) (newData + offset) (by omega)
      (by simp only; omega)
    have second := copy_inside made.memory newData (bytesFrom old made.memory) within
    have third := allocation.kept (old, oldWidth) oldHeld (old + offset) (by omega) (by simp only; omega)
    rw [first]
    dsimp only
    rw [moved, second, source]
    exact third

/-- Growing shows in nothing but the capacity. -/
theorem grow (valid : FsValid before blocks roles) {needed : Nat} {grown : Bool} (live : roles node = some .node)
    (file : IsFile before node) (record : (before.nodes node).priv = data) (given : data ≠ 0)
    (bound : needed < 2 ^ 64) (result : Grown before node data needed grown after) :
    ∃ blocks' roles', Unseen before after roles blocks' roles' ∧
      (grown = true → needed ≤ (after.tmpfsDatas data).cap) := by
  have buffer : bufferOf before node = before.tmpfsDatas data := by rw [bufferOf, record]
  cases result with
  | fits enough => exact ⟨blocks, roles, valid.unseen, fun _ => enough⟩
  | refused short made =>
    rcases valid.create (pageRound_small needed) made with ⟨_, rfl⟩ | ⟨_, _, allocation, _⟩
    · exact ⟨blocks, roles, valid.unseen, by simp⟩
    · exact (allocation.given rfl).elim
  | moved short nonzero creates filled source target frees =>
    rcases valid.create (pageRound_small needed) creates with ⟨none, _⟩ | ⟨blocks', width, allocation, unseen⟩
    · exact (nonzero none).elim
    · have wide := pageRound_given bound creates nonzero
      have fits : (before.nodes node).size ≤ pageRound needed := by
        rcases target with none | fits
        · omega
        · omega
      rw [← buffer] at frees filled
      obtain ⟨blocks'', roles'', final⟩ := valid.move live file record given allocation unseen filled.1 fits frees
      exact ⟨blocks'', roles'', final, fun _ => by simpa [FsState.setTmpfsData] using wide⟩
  | fresh short nonzero creates empty =>
    rcases valid.create (pageRound_small needed) creates with ⟨none, _⟩ | ⟨blocks', width, allocation, unseen⟩
    · exact (nonzero none).elim
    · have wide := pageRound_given bound creates nonzero
      have none : (before.nodes node).size = 0 := by
        by_cases stored : (before.tmpfsDatas data).data = 0
        · exact (valid.files node live file).unbuffered (Or.inr (buffer ▸ stored))
        · exact Nat.eq_zero_of_not_pos fun positive => empty ⟨stored, positive⟩
      exact ⟨blocks', _, valid.replace live file record given allocation unseen none,
        fun _ => by simpa [FsState.setTmpfsData] using wide⟩

end FsValid

/-- `buf` in place of the bytes from `pos` on, or behind the last one. -/
def splice (bytes : List UInt8) (pos : Nat) (buf : List UInt8) : List UInt8 :=
  bytes.take pos ++ buf ++ bytes.drop (pos + buf.length)

theorem splice_length {bytes : List UInt8} {pos : Nat} (buf : List UInt8) (inside : pos ≤ bytes.length) :
    (splice bytes pos buf).length = max bytes.length (pos + buf.length) := by
  simp only [splice, List.length_append, List.length_take, List.length_drop]
  omega

theorem splice_getElem {bytes buf : List UInt8} {pos index : Nat} (inside : pos ≤ bytes.length)
    (within : index < (splice bytes pos buf).length) :
    (splice bytes pos buf)[index] =
      if pos ≤ index ∧ index < pos + buf.length then bytesOf buf (fun _ => 0) (index - pos) else bytes.getD index 0 := by
  rw [splice_length buf inside] at within
  have front : (bytes.take pos).length = pos := by
    rw [List.length_take]
    omega
  simp only [splice]
  by_cases early : index < pos
  · rw [if_neg (by omega), List.getElem_append_left (by rw [List.length_append, front]; omega),
      List.getElem_append_left (by omega), List.getElem_take, List.getD_eq_getElem _ _ (by omega)]
  · by_cases middle : index < pos + buf.length
    · rw [if_pos (by omega), List.getElem_append_left (by rw [List.length_append, front]; omega),
        List.getElem_append_right (by omega)]
      simp only [front, bytesOf]
      rw [List.getD_eq_getElem _ _ (by omega)]
    · rw [if_neg (by omega), List.getElem_append_right (by rw [List.length_append, front]; omega)]
      simp only [List.length_append, front, List.getElem_drop]
      rw [List.getD_eq_getElem _ _ (by omega)]
      congr 1
      omega

/-- The effect of the last part of a write on a valid state. -/
structure Stored (before after : FsState δ) (address node : Nat) (buf : List UInt8) (roles : Roles) : Prop where
  size : (after.nodes node).size =
    max (before.nodes node).size (u64 ((before.files address).pos + buf.length))
  content : (before.files address).pos ≤ (before.nodes node).size →
    Proofs.content after node = splice (Proofs.content before node) (before.files address).pos buf
  others : ∀ other, other ≠ node → (after.nodes other).size = (before.nodes other).size
  contents : ∀ other, other ≠ node → roles other = some .node → IsFile before other →
    Proofs.content after other = Proofs.content before other
  files : after.files = Function.update before.files address
    { before.files address with pos := u64 ((before.files address).pos + buf.length) }

/-- What `tmpfsStore` leaves where. -/
private structure StoreFields (before after : FsState δ) (address data : Nat) (buf : List UInt8) : Prop where
  memory : after.memory =
    memcpy before.memory ((before.tmpfsDatas data).data + (before.files address).pos) (bytesOf buf) buf.length
  kernelMemory : after.kernelMemory = before.kernelMemory
  datas : after.tmpfsDatas = before.tmpfsDatas
  files : after.files = Function.update before.files address
    { before.files address with pos := u64 ((before.files address).pos + buf.length) }
  privs : ∀ node, (after.nodes node).priv = (before.nodes node).priv
  others : ∀ node, node ≠ (before.files address).node → (after.nodes node).size = (before.nodes node).size
  size : (after.nodes (before.files address).node).size = max (before.nodes (before.files address).node).size
    (u64 ((before.files address).pos + buf.length))

private theorem tmpfsStore_fields (state : FsState δ) (address data : Nat) (buf : List UInt8) :
    StoreFields state (tmpfsStore state address data buf) address data buf := by
  unfold tmpfsStore
  dsimp only
  split
  next longer =>
    refine ⟨rfl, rfl, rfl, rfl, fun node => ?_, fun node other => ?_, ?_⟩
    · simp only [FsState.setNode, FsState.setFile, Function.update_apply]
      split
      next same => rw [same]
      next => rfl
    · simp only [FsState.setNode, FsState.setFile, Function.update_of_ne other]
    · simp only [FsState.setNode, FsState.setFile, Function.update_self] at longer ⊢
      omega
  next shorter =>
    simp only [FsState.setFile] at shorter ⊢
    exact ⟨rfl, rfl, rfl, rfl, fun _ => rfl, fun _ _ => rfl, by simp only; omega⟩

/-- The bytes that a write puts into the buffer of a file. -/
theorem memcpy_buffer (memory : Memory) {data pos width : Nat} (buf : List UInt8) (bound : data + width < 2 ^ 64)
    (inside : Within pos buf.length width) :
    memcpy memory (data + pos) (bytesOf buf) buf.length = copy memory (data + pos) buf.length (bytesOf buf memory) := by
  rcases inside with none | fits
  · rw [none, copy_nothing]
    rfl
  · exact memcpy_eq_copy _ _ _ _ (bytesOf_stable buf memory _ _) (by omega)

theorem copy_within (memory : Memory) (data : Nat) {pos width : Nat} (buf : List UInt8)
    (inside : Within pos buf.length width) :
    Confined (copy memory (data + pos) buf.length (bytesOf buf memory)) memory data width := by
  rcases inside with none | fits
  · rw [none, copy_nothing]
    exact .refl _ _ _
  · exact (copy_confined _ _ _ _).mono (by omega) (by omega)

namespace FsValid
variable {before after : FsState δ} {blocks blocks' : List Block} {roles : Roles}

/-- The part of a write that changes memory: only the bytes of the file's own buffer. -/
private theorem fill (valid : FsValid before blocks roles) {node pos : Nat} {buf : List UInt8} {memory : Memory}
    (live : roles node = some .node) (file : IsFile before node) (linked : (before.nodes node).priv ≠ 0)
    (inside : Within pos buf.length (bufferOf before node).cap)
    (filled : memory = memcpy before.memory ((bufferOf before node).data + pos) (bytesOf buf) buf.length) :
    Owned { before with memory } blocks roles ∧
      (∀ place other width, other ≠ node → roles place = some (.buffer other) →
        (place, width) ∈ liveEntries before blocks →
        Agree memory before.memory place width) ∧
      memory = copy before.memory ((bufferOf before node).data + pos) buf.length (bytesOf buf before.memory) ∧
      (bufferOf before node).cap < 2 ^ 64 := by
  have own := valid.files node live file
  by_cases stored : (bufferOf before node).data = 0
  · have cap := own.empty linked stored
    have none : buf.length = 0 := by
      rcases inside with none | fits
      · exact none
      · omega
    have same : memory = before.memory := by
      rw [filled, none]
      rfl
    subst same
    refine ⟨⟨valid.owned.heap, valid.owned.live⟩, fun _ _ _ _ _ _ _ _ _ => rfl, ?_, by omega⟩
    rw [none, copy_nothing]
  · obtain ⟨role, width, held, wide⟩ := own.buffer linked stored
    have bound := valid.owned.inside held
    have inside' : Within pos buf.length width := by
      rcases inside with none | fits
      · exact Or.inl none
      · exact Or.inr (by omega)
    have written := filled.trans (memcpy_buffer before.memory buf bound inside')
    have confined := copy_within before.memory (bufferOf before node).data buf inside'
    rw [← written] at confined
    obtain ⟨owned, others⟩ := valid.owned.write held confined
    refine ⟨owned, fun place other width' different used member => ?_, written, by omega⟩
    apply others place width' member
    rintro rfl
    rw [role] at used
    cases used
    exact different rfl

theorem store (valid : FsValid before blocks roles) {fd : Fin fsMaxFds} {data : Nat} {buf : List UInt8}
    (used : before.fds fd ≠ 0) (file : IsFile before (before.files (before.fds fd)).node)
    (record : (before.nodes (before.files (before.fds fd)).node).priv = data) (given : data ≠ 0)
    (enough : u64 ((before.files (before.fds fd)).pos + buf.length) ≤ (before.tmpfsDatas data).cap)
    (inside : Within (before.files (before.fds fd)).pos buf.length (before.tmpfsDatas data).cap) :
    FsValid (tmpfsStore before (before.fds fd) data buf) blocks roles ∧
      Stored before (tmpfsStore before (before.fds fd) data buf) (before.fds fd) (before.files (before.fds fd)).node buf
        roles := by
  have live := valid.opened fd used
  have fields := tmpfsStore_fields before (before.fds fd) data buf
  have tree := KeepsTree.store before (before.fds fd) data buf
  generalize tmpfsStore before (before.fds fd) data buf = after at fields tree ⊢
  obtain ⟨memory, kernelMemory, datas, files, privs, others, size⟩ := fields
  generalize (before.files (before.fds fd)).node = node at *
  generalize before.fds fd = address at *
  have own := valid.files node live file
  have linked : (before.nodes node).priv ≠ 0 := record ▸ given
  have buffer : bufferOf before node = before.tmpfsDatas data := by rw [bufferOf, record]
  have room := own.room linked
  have same (other : Nat) : bufferOf after other = bufferOf before other := by
    rw [bufferOf, bufferOf, datas, privs]
  rw [← buffer] at enough inside memory
  obtain ⟨owned, untouched, written, small⟩ := valid.fill live file linked inside memory
  have owned' : Owned after blocks roles := by
    have heap : liveEntries after blocks = liveEntries { before with memory := after.memory } blocks := by
      rw [liveEntries, liveEntries, fsHeap, fsHeap, kernelMemory]
    refine ⟨?_, ?_⟩
    · rw [kernelMemory, heap]
      exact owned.heap
    · rw [heap]
      exact owned.live
  have sizes (other : Nat) (different : other ≠ node) : (after.nodes other).size = (before.nodes other).size :=
    others other different
  refine ⟨valid.keeps tree (.refl roles) owned' ?_ ?_, size, ?_, sizes, ?_, files⟩
  · intro other live' file'
    have own' := valid.files other live' file'
    have liveEntries' (entry : Nat × Nat) (member : entry ∈ liveEntries before blocks) : entry ∈ liveEntries after blocks := by
      rwa [liveEntries, fsHeap, kernelMemory]
    by_cases equal : other = node
    · subst equal
      refine ⟨fun none => ?_, fun _ => ?_, fun _ => ?_, fun _ => ?_, fun _ => ?_⟩
      · exact (linked ((privs other).symm.trans none)).elim
      · rw [privs]
        exact own'.record linked
      · rw [same, size]
        omega
      · rw [same]
        exact own'.empty linked
      · rw [same]
        intro stored
        obtain ⟨role, width, held, wide⟩ := own'.buffer linked stored
        exact ⟨role, width, liveEntries' _ held, wide⟩
    · exact own'.transfer (sizes other equal) (privs other) (fun _ => same other) (fun _ used => used)
        (fun _ used => used)
        fun _ _ _ member => liveEntries' _ member
  · intro other used'
    rw [files, Function.update_apply]
    split
    · exact u64_lt _
    · exact valid.pos other used'
  · intro start
    have total : u64 ((before.files address).pos + buf.length) = (before.files address).pos + buf.length := by
      apply u64_eq
      rcases inside with none | fits <;> omega
    have start' : (before.files address).pos ≤ (content before node).length := by rwa [content_length]
    apply List.ext_getElem
    · rw [content_length, splice_length buf start', content_length, size, total]
    · intro index left right
      rw [splice_getElem start' right]
      have within : index < (content before node).length ∨ index < (before.files address).pos + buf.length := by
        rw [splice_length buf start'] at right
        omega
      simp only [content, List.getElem_map, List.getElem_range, bytesFrom, same, written, copy]
      by_cases fresh : (before.files address).pos ≤ index ∧ index < (before.files address).pos + buf.length
      · rw [if_pos fresh, if_pos (by omega), Nat.add_sub_add_left]
        rfl
      · have old : index < (before.nodes node).size := by
          rw [content_length] at within
          omega
        rw [if_neg fresh, if_neg (by omega), List.getD_eq_getElem _ _ (by simpa using old)]
        simp [bytesFrom]
  · intro other different live' file'
    exact (valid.files other live' file').content_kept (sizes other different) (fun _ => same other)
      fun width role member => untouched _ other width different role member

end FsValid

end Kernix.Proofs
