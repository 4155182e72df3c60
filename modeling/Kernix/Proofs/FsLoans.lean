import Kernix.Gui.Bitmaps
import Kernix.Proofs.FsRuns
import Kernix.Proofs.HeapRequests

/-! What a call takes from the heap of the file systems and from the table of descriptors,
and gives back on its way: blocks that are no object of the file systems, and a descriptor
with its record. -/

namespace Kernix.Proofs
open ByteMemory

variable {δ : Type} {state after : FsState δ} {live taken : List (Nat × Nat)} {fds : Fin fsMaxFds → Nat}
  {blocks : List Block} {roles : Roles} {fd : Int} {slot : Fin fsMaxFds}

/-- Beside the blocks `live` there are those that were taken, which belong to no object of
the file systems. -/
def Lent (live taken : List (Nat × Nat)) (fds : Fin fsMaxFds → Nat) (state : FsState δ) : Prop :=
  ∃ blocks roles, FsValid state blocks roles ∧ state.fds = fds ∧ (liveEntries state blocks).Perm (taken ++ live) ∧
    ∀ entry ∈ taken, roles entry.1 = none

/-- The same blocks of the heap are live, and the same descriptors are open. -/
def SameHoldings (before after : FsState δ) : Prop :=
  after.fds = before.fds ∧ ∃ blocks roles blocks' roles', FsValid before blocks roles ∧ FsValid after blocks' roles' ∧
    (liveEntries after blocks').Perm (liveEntries before blocks)

/-- A state has one list of blocks. -/
theorem FsValid.blocks_unique {blocks' : List Block} {roles' : Roles} (valid : FsValid state blocks roles)
    (valid' : FsValid state blocks' roles') : blocks = blocks' :=
  Segment.unique valid.owned.heap.heap.segment valid'.owned.heap.heap.segment
    (valid.owned.heap.heap.extent.trans valid'.owned.heap.heap.extent.symm)

theorem FsValid.lent (valid : FsValid state blocks roles) : Lent (liveEntries state blocks) [] state.fds state :=
  ⟨blocks, roles, valid, rfl, .refl _, fun _ member => absurd member List.not_mem_nil⟩

/-- A call that has given everything back leaves what there was; one that has not does not. -/
theorem Lent.sameHoldings_iff {before : FsState δ} (valid : FsValid before blocks roles)
    (lent : Lent (liveEntries before blocks) taken before.fds after) : SameHoldings before after ↔ taken = [] := by
  obtain ⟨blocks', roles', valid', table, entries, -⟩ := lent
  constructor
  · rintro ⟨-, found, _, found', _, first, last, same⟩
    cases valid.blocks_unique first
    cases valid'.blocks_unique last
    have lengths := (entries.symm.trans same).length_eq
    rw [List.length_append] at lengths
    exact List.length_eq_zero_iff.mp (by omega)
  · rintro rfl
    exact ⟨table, blocks, roles, blocks', roles', valid, valid', entries⟩

/-- A read changes the position of a file, or the devices. -/
theorem fsRead_frame {ret : Int} {bytes : List UInt8} {cnt : Nat}
    (reads : fsRead state fd cnt = .ok (ret, bytes, after)) :
    ∃ files devices, after = { state with files, devices } := by
  unfold fsRead at reads
  dsimp only at reads
  split at reads
  next =>
    cases reads
    exact ⟨state.files, state.devices, rfl⟩
  next used =>
    obtain ⟨slot, place, found⟩ := fsGetFile_used used
    rw [found] at reads
    split at reads
    next =>
      cases reads
      exact ⟨state.files, state.devices, rfl⟩
    next =>
      rcases tmpfsRead_moves reads with rfl | ⟨pos, bound, rfl⟩
      · exact ⟨after.files, after.devices, rfl⟩
      · exact ⟨_, state.devices, rfl⟩
    next =>
      unfold devfsRead at reads
      dsimp only at reads
      split at reads
      next =>
        cases reads
        exact ⟨state.files, state.devices, rfl⟩
      next =>
        split at reads
        next =>
          cases reads
          exact ⟨state.files, state.devices, rfl⟩
        next =>
          cases reads
          exact ⟨state.files, _, rfl⟩

/-- The effect of an allocation: no block, or a fresh one that no reader of a file can tell. -/
theorem FsValid.allocArray {size count ptr : Nat} (valid : FsValid state blocks roles)
    (asks : state.allocArray size count = .ok (ptr, after)) :
    ptr = 0 ∧ after = state ∨ ∃ blocks' width, Allocation state after blocks blocks' ptr width (u64 (count * size)) ∧
      Unseen state after roles blocks' roles := by
  unfold FsState.allocArray at asks
  by_cases wraps : 2 ^ 64 ≤ u64 (count * size) + 15
  · -- Here a block would be overrun, so that there is none.
    rcases valid.owned.heap.malloc (u64 (count * size)) with ⟨result, -⟩ | ⟨pre, _, _, memory, asked, _, _, result, -⟩
    · rw [show kernelMemoryAlloc state.memory state.kernelMemory size count = some (0, state.memory) from
        kernelMemoryAlloc_none result] at asks
      cases asks
      exact .inl ⟨rfl, rfl⟩
    · have sized : size ≠ 0 := by
        rintro rfl
        exact asked rfl
      rw [show kernelMemoryAlloc state.memory state.kernelMemory size count = some (_, _) from
        kernelMemoryAlloc_some valid.owned.heap.positive sized (Nat.succ_ne_zero _) result] at asks
      dsimp only at asks
      rw [if_pos ⟨Nat.succ_ne_zero _, wraps⟩] at asks
      cases asks
  · have rounded := le_roundUp (Nat.lt_of_not_le wraps)
    rcases valid.owned.heap.alloc size count fun _ _ fits => rounded.trans fits.2 with
      ⟨expected, -⟩ | ⟨pre, block, post, ptr', memory, _, given, rfl, fits, expected, heap, _, place, kept⟩
    · dsimp only at expected
      rw [expected] at asks
      cases asks
      exact .inl ⟨rfl, rfl⟩
    · dsimp only at expected
      rw [expected] at asks
      dsimp only at asks
      rw [if_neg fun beyond => wraps beyond.2] at asks
      cases asks
      have added := allocated_taken (fsHeap state) (roundUp (u64 (count * size))) pre post fits.1
      rw [← show ptr = fsHeap state + span pre + 40 from place] at added
      have wide : u64 (count * size) ≤ taken (roundUp (u64 (count * size))) block := rounded.trans (taken_ge fits)
      have allocation : Allocation state { state with memory } (pre ++ block :: post)
          (pre ++ carve (roundUp (u64 (count * size))) block ++ post) ptr
          (taken (roundUp (u64 (count * size))) block) (u64 (count * size)) := ⟨given, wide, added, kept, rfl⟩
      have owned : Owned { state with memory } (pre ++ carve (roundUp (u64 (count * size))) block ++ post) roles := by
        refine ⟨heap.liveEntries, fun other role held => ?_⟩
        obtain ⟨width, member⟩ := valid.owned.live other role held
        exact ⟨width, added.mem_iff.mpr (List.mem_cons_of_mem _ member)⟩
      exact .inr ⟨_, _, allocation, valid.allocation allocation owned⟩

/-- A block is as wide as its request was rounded up to be. -/
theorem Owned.create_wide {size ptr width : Nat} {blocks' : List Block} {roles' : Roles}
    (owned : Owned state blocks roles) (creates : state.create size = .ok (ptr, after)) (given : ptr ≠ 0)
    (owned' : Owned after blocks' roles') (held : (ptr, width) ∈ liveEntries after blocks') : roundUp size ≤ width := by
  obtain ⟨memory, made, rfl⟩ := create_ok creates
  rcases owned.heap.create size with
    ⟨expected, -⟩ | ⟨pre, block, post, ptr', memory', _, _, rfl, fits, expected, valid, _, place, -⟩
  · cases made.symm.trans expected
    exact absurd rfl given
  · cases made.symm.trans expected
    have same := Segment.unique owned'.heap.heap.segment valid.heap.segment
      (owned'.heap.heap.extent.trans valid.heap.extent.symm)
    subst same
    have added := allocated_taken (fsHeap state) (roundUp size) pre post fits.1
    rw [← show ptr = fsHeap state + span pre + 40 from place] at added
    have wide : (ptr, taken (roundUp size) block) ∈ liveEntries { state with memory }
        (pre ++ carve (roundUp size) block ++ post) := added.mem_iff.mpr List.mem_cons_self
    rw [Owned.unique held wide]
    exact taken_ge fits

/-- Freeing a block leaves room for another one of its width. -/
theorem Owned.free_room {ptr width : Nat} {blocks' : List Block} {roles' : Roles} (owned : Owned state blocks roles)
    (held : (ptr, width) ∈ liveEntries state blocks) (frees : state.free ptr = .ok after)
    (owned' : Owned after blocks' roles') : ∃ block ∈ blocks', block.used = false ∧ width ≤ block.size := by
  obtain ⟨memory, freed, rfl⟩ := free_ok frees
  obtain ⟨init, left, size, right, rest, memory', rfl, leftFree, rightFree, expected, valid, _, place, _⟩ :=
    owned.heap.free (List.mem_map_of_mem held)
  cases freed.symm.trans expected
  have removed := allocated_release (fsHeap state) size _ init left right rest leftFree rightFree rfl
  rw [← show ptr = fsHeap state + span (init ++ left) + 40 from place] at removed
  have same : size = width := Owned.unique (removed.mem_iff.mpr List.mem_cons_self) held
  have list := Segment.unique owned'.heap.heap.segment valid.heap.segment
    (owned'.heap.heap.extent.trans valid.heap.extent.symm)
  subst list
  refine ⟨_, List.mem_append_right _ List.mem_cons_self, rfl, ?_⟩
  dsimp only
  omega

namespace Lent

theorem read {ret : Int} {bytes : List UInt8} {cnt : Nat} (lent : Lent live taken fds state)
    (reads : fsRead state fd cnt = .ok (ret, bytes, after)) : Lent live taken fds after := by
  obtain ⟨blocks, roles, valid, table, entries, spare⟩ := lent
  have valid' := valid.fsRead_valid reads
  obtain ⟨files, devices, rfl⟩ := fsRead_frame reads
  exact ⟨blocks, roles, valid', table, entries, spare⟩

/-- Giving back the block that was taken last. -/
theorem free {ptr width : Nat} (lent : Lent live ((ptr, width) :: taken) fds state) (frees : state.free ptr = .ok after) :
    Lent live taken fds after := by
  obtain ⟨blocks, roles, valid, table, entries, spare⟩ := lent
  have held : (ptr, width) ∈ liveEntries state blocks := entries.mem_iff.mpr List.mem_cons_self
  obtain ⟨blocks', valid', _, removed⟩ := valid.release held (spare _ List.mem_cons_self) frees
  refine ⟨blocks', roles, valid', (KeepsTree.free frees).fds.trans table, ?_,
    fun entry member => spare entry (List.mem_cons_of_mem _ member)⟩
  exact (removed.symm.trans entries).cons_inv

theorem frees {ptr width : Nat} (lent : Lent live ((ptr, width) :: taken) fds state) :
    ∃ after, state.free ptr = .ok after := by
  obtain ⟨blocks, roles, valid, -, entries, -⟩ := lent
  exact valid.owned.frees (entries.mem_iff.mpr List.mem_cons_self)

/-- An open that creates nothing takes a descriptor and a record, or nothing at all. -/
theorem opens {path : List UInt8} (lent : Lent live taken fds state)
    (opens : fsOpen state path oRdonly = .ok (fd, after)) :
    fd < 0 ∧ Lent live taken fds after ∨ ∃ slot : Fin fsMaxFds, ∃ file width, fd = slot.val ∧ fds slot = 0 ∧ file ≠ 0 ∧
      roundUp fsFileSize ≤ width ∧
      Lent ((file, width) :: live) taken (Function.update fds slot file) after := by
  obtain ⟨blocks, roles, valid, table, entries, spare⟩ := lent
  have only {node : Nat} {middle : FsState δ} (located : Located state path oRdonly node middle) : middle = state := by
    cases located with
    | found | orphan | fixed => rfl
    | created _ asked => exact absurd rfl asked
  cases fsOpen_opened opens with
  | missing located =>
    cases only located
    exact .inl ⟨by decide, blocks, roles, valid, table, entries, spare⟩
  | noRecord located given made =>
    cases only located
    rcases valid.create (by decide) made with ⟨-, rfl⟩ | ⟨_, _, allocation, -⟩
    · exact .inl ⟨by decide, blocks, roles, valid, table, entries, spare⟩
    · exact absurd rfl allocation.given
  | @refused node _ _ _ _ located given creates room denied frees =>
    cases only located
    obtain ⟨same, blocks', valid', -, left⟩ := valid.withdrawn node oRdonly creates room frees
    exact .inl ⟨by decide, blocks', roles, valid', same.trans table, left.trans entries, spare⟩
  | @full node _ _ _ _ located given creates room allowed full frees =>
    cases only located
    obtain ⟨same, blocks', valid', -, left⟩ := valid.withdrawn node oRdonly creates room frees
    exact .inl ⟨by decide, blocks', roles, valid', same.trans table, left.trans entries, spare⟩
  | @opened node file _ made slot located given creates room allowed low unused first =>
    cases only located
    obtain ⟨_, resolves, live'⟩ := valid.resolve path
    have leads := located.leads given
    cases resolves.symm.trans leads
    obtain ⟨blocks', width, free, added, valid', aside, same, record⟩ := valid.offers node oRdonly creates room
    obtain ⟨final, -⟩ := valid'.take (added.mem_iff.mpr List.mem_cons_self) free
      (by rw [record]; exact live' given) (by rw [record]; exact Nat.two_pow_pos 64) low
    rw [same, table] at unused
    have wide : roundUp fsFileSize ≤ width := by
      obtain ⟨devices, datas, hook⟩ := openNode_devices (made.setFile file ⟨node, 0, oRdonly⟩) node
      have held : (file, width) ∈ liveEntries (offered made file node oRdonly).2 blocks' :=
        added.mem_iff.mpr List.mem_cons_self
      have owned' := valid'.owned
      rw [offered, hook] at held owned'
      exact valid.owned.create_wide creates room ⟨owned'.heap, owned'.live⟩ held
    refine .inr ⟨slot, file, width, rfl, unused, room, wide, blocks', _, final, ?_, ?_, fun entry member => ?_⟩
    · rw [← table, ← same]
      rfl
    · exact (added.trans (entries.cons _)).trans List.perm_middle.symm
    · -- A block that was taken before is not the new record.
      have apart : entry.1 ≠ file := by
        intro same'
        have distinct := (added.map Prod.fst).nodup_iff.mp allocated_nodup
        have inside : entry ∈ liveEntries state blocks := entries.mem_iff.mpr (List.mem_append_left _ member)
        exact (List.nodup_cons.mp distinct).1 (List.mem_map.mpr ⟨entry, inside, same'⟩)
      rw [Roles.assign, Function.update_of_ne apart]
      exact spare entry member

/-- A close gives back the descriptor and its record. -/
theorem close {file width : Nat} (lent : Lent ((file, width) :: live) taken (Function.update fds slot file) state)
    (place : fdSlot fd = some slot) (given : file ≠ 0) (was : fds slot = 0) :
    ∃ after, fsClose state fd = .ok (0, after) ∧ Lent live taken fds after := by
  obtain ⟨blocks, roles, valid, table, entries, spare⟩ := lent
  have here : state.fds slot = file := by rw [table, Function.update_self]
  obtain ⟨after, closes, table', blocks', width', valid', -, removed⟩ := valid.close_live place (by rwa [here])
  rw [here] at removed valid'
  refine ⟨after, closes, blocks', _, valid', ?_, ?_, fun entry member => ?_⟩
  · rw [table', table, Function.update_idem, ← was, Function.update_eq_self]
  · have held : (file, width) ∈ liveEntries state blocks :=
      entries.mem_iff.mpr (List.mem_append_right _ List.mem_cons_self)
    cases Owned.unique (removed.mem_iff.mpr List.mem_cons_self) held
    exact (removed.symm.trans (entries.trans List.perm_middle)).cons_inv
  · rw [Roles.drop, Function.update_apply]
    split
    · rfl
    · exact spare entry member

/-- A close leaves room for another record. -/
theorem close_room {file width : Nat} {blocks' : List Block} {roles' : Roles} {ret : Int}
    (lent : Lent ((file, width) :: live) taken fds state) (found : fsGetFile state fd = file) (given : file ≠ 0)
    (closes : fsClose state fd = .ok (ret, after)) (valid' : FsValid after blocks' roles') :
    ∃ block ∈ blocks', block.used = false ∧ width ≤ block.size := by
  obtain ⟨blocks, roles, valid, -, entries, -⟩ := lent
  have held : (file, width) ∈ liveEntries state blocks :=
    entries.mem_iff.mpr (List.mem_append_right _ List.mem_cons_self)
  obtain ⟨datas, closed⟩ := closeNode_datas state file
  rw [fsClose_used found given, closed] at closes
  obtain ⟨freed, frees, closes⟩ := bind_ok closes
  cases closes
  have owned : Owned { state with devfsDatas := datas } blocks roles := ⟨valid.owned.heap, valid.owned.live⟩
  have owned' := valid'.owned
  unfold fsFreeFd at owned'
  split at owned'
  · exact owned.free_room held frees ⟨owned'.heap, owned'.live⟩
  · exact owned.free_room held frees owned'

/-- An allocation takes a block, or nothing at all. -/
theorem allocArray {size count ptr : Nat} (lent : Lent live taken fds state)
    (asks : state.allocArray size count = .ok (ptr, after)) :
    ptr = 0 ∧ after = state ∨ ptr ≠ 0 ∧ ∃ width, Lent live ((ptr, width) :: taken) fds after := by
  obtain ⟨blocks, roles, valid, table, entries, spare⟩ := lent
  rcases valid.allocArray asks with same | ⟨blocks', width, allocation, unseen⟩
  · exact .inl same
  · refine .inr ⟨allocation.given, width, blocks', roles, unseen.valid, unseen.tree.fds.trans table,
      allocation.liveEntries.trans (entries.cons _), ?_⟩
    rintro entry (_ | ⟨_, member⟩)
    · exact allocation.free valid.owned
    · exact spare entry member

end Lent

end Kernix.Proofs
