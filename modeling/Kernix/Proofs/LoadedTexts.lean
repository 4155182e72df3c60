import Kernix.Lib.Pieces
import Kernix.Proofs.SavedTexts

/-! The lines that `kedit_load` takes from a file, however the reads cut it into chunks.
In the last row of the editor every byte ends the line, so that a file of a hundred lines
loses the hundredth. -/

namespace Kernix.Proofs
open Pieces

variable {δ : Type} {state after : FsState δ} {editor : Editor} {loading : Loading} {texts : List (List UInt8)}
  {current : List UInt8}

/-- A text has at least one line. -/
def orEmpty (texts : List (List UInt8)) : List (List UInt8) := if texts = [] then [[]] else texts

/-- The lines of a file. -/
def fileLines (bytes : List UInt8) : List (List UInt8) := orEmpty (lines newline bytes)

/-- The loader has ended some lines, and has the front of the next one. -/
structure Gathered (loading : Loading) (texts : List (List UInt8)) (current : List UInt8) : Prop where
  rows : RowsAre loading.lines 0 texts
  index : loading.lineIdx = texts.length
  room : texts.length < maxLines
  column : loading.bufPos = current.length
  short : current.length ≤ maxLineLen - 1
  clean : 0 ∉ current
  bytes : ∀ index (inside : index < current.length),
    loading.lines ⟨texts.length, room⟩ ⟨index, by
      have wide : maxLineLen - 1 < maxLineLen := by decide
      omega⟩ = current[index]

/-- In the last row there is no front of a line. -/
structure Collecting (loading : Loading) (texts : List (List UInt8)) (current : List UInt8) : Prop
    extends Gathered loading texts current where
  last : texts.length = maxLines - 1 → current = []

section Bytes

/-- A byte comes to its place in the current row. -/
theorem Gathered.put (gathered : Gathered loading texts current) (value : UInt8) :
    ∃ inside : current.length < maxLineLen, loading.put value =
      .ok (Function.update loading.lines ⟨texts.length, gathered.room⟩
      (Function.update (loading.lines ⟨texts.length, gathered.room⟩) ⟨current.length, inside⟩ value)) := by
  have inside : current.length < maxLineLen := Nat.lt_of_le_of_lt gathered.short (by decide)
  refine ⟨inside, ?_⟩
  unfold Loading.put
  rw [gathered.index, gathered.column]
  simp only [bind, Except.bind, elementAt_eq _ gathered.room, setElement_eq _ inside, setElement_eq _ gathered.room]

/-- The end of a line makes it a row. -/
theorem Gathered.endLine (gathered : Gathered loading texts current) :
    ∃ ended, loading.endLine = .ok ended ∧ RowsAre ended.lines 0 (texts ++ [current]) ∧
      ended.lineIdx = (texts.length + 1 : Nat) ∧ ended.bufPos = 0 := by
  obtain ⟨inside, puts⟩ := gathered.put 0
  refine ⟨⟨Function.update loading.lines ⟨texts.length, gathered.room⟩
    (Function.update (loading.lines ⟨texts.length, gathered.room⟩) ⟨current.length, inside⟩ 0), loading.lineIdx + 1, 0⟩,
    ?_, ?_, ?_, rfl⟩
  · unfold Loading.endLine
    rw [puts]
    rfl
  · rw [rows_append]
    refine ⟨gathered.rows.update _ (Or.inr (Nat.le_of_eq (Nat.zero_add _))), ?_, trivial⟩
    have place : 0 + texts.length < maxLines := by
      rw [Nat.zero_add]
      exact gathered.room
    have here : (⟨0 + texts.length, place⟩ : Fin maxLines) = ⟨texts.length, gathered.room⟩ := Fin.ext (Nat.zero_add _)
    refine ⟨place, ?_⟩
    dsimp only
    rw [here, Function.update_self]
    refine ⟨by rwa [Nat.zero_add], ?_, ?_, gathered.clean⟩
    · intro index within
      simp only [Nat.zero_add]
      rw [Function.update_of_ne (by simp only [ne_eq, Fin.ext_iff]; omega)]
      exact gathered.bytes index within
    · simp only [Nat.zero_add]
      exact Function.update_self _ _ _
  · rw [gathered.index]
    exact (Int.natCast_succ _).symm

theorem Gathered.newLine (gathered : Gathered loading texts current) (more : texts.length < maxLines - 1) :
    ∃ ended, loading.endLine = .ok ended ∧ Collecting ended (texts ++ [current]) [] := by
  obtain ⟨ended, ends, rows, index, column⟩ := gathered.endLine
  refine ⟨ended, ends, ⟨rows, ?_, ?_, column, Nat.zero_le _, List.not_mem_nil, ?_⟩, fun _ => rfl⟩
  · rw [index, List.length_append, List.length_singleton]
  · rw [List.length_append, List.length_singleton]
    omega
  · exact fun index inside => absurd inside (Nat.not_lt_zero index)

theorem Gathered.grow (gathered : Gathered loading texts current) (more : texts.length < maxLines - 1)
    (narrow : current.length < maxLineLen - 1) {byte : UInt8} (nonzero : byte ≠ 0) :
    ∃ lines, loading.put byte = .ok lines ∧
      Collecting { loading with lines, bufPos := loading.bufPos + 1 } texts (current ++ [byte]) := by
  obtain ⟨inside, puts⟩ := gathered.put byte
  refine ⟨_, puts, ⟨?_, gathered.index, gathered.room, ?_, ?_, ?_, ?_⟩, fun last => by omega⟩
  · exact gathered.rows.update _ (Or.inr (Nat.le_of_eq (Nat.zero_add _)))
  · rw [gathered.column, List.length_append, List.length_singleton]
    exact (Int.natCast_succ _).symm
  · rw [List.length_append, List.length_singleton]
    omega
  · simp only [List.mem_append, List.mem_singleton, not_or]
    exact ⟨gathered.clean, nonzero.symm⟩
  · intro index within
    rw [List.length_append, List.length_singleton] at within
    dsimp only
    rw [Function.update_self]
    by_cases last : index = current.length
    · subst last
      rw [Function.update_self, List.getElem_append_right (Nat.le_refl _)]
      simp
    · rw [Function.update_of_ne (by simpa [Fin.ext_iff] using last), List.getElem_append_left (by omega)]
      exact gathered.bytes index (by omega)

/-- The lines that the rows of the editor get: the first 99, and an empty one for whatever
comes behind them. -/
def keptLines (texts : List (List UInt8)) : List (List UInt8) :=
  if texts.length < maxLines then texts else texts.take (maxLines - 1) ++ [[]]

/-- The bytes are all read, or the last row has ended. -/
def TextLoaded (loading : Loading) (kept : List (List UInt8)) : Prop :=
  (∃ texts current, Collecting loading texts current ∧ kept = texts ++ gather newline current []) ∨
    loading.lineIdx = maxLines ∧ loading.bufPos = 0 ∧ RowsAre loading.lines 0 kept ∧ kept.length = maxLines

/-- The bytes of a file end its lines one after the other. -/
theorem loadBytes_scans (bytes : List UInt8) (waiting : Collecting loading texts current) (plain : 0 ∉ bytes)
    (narrow : ∀ line ∈ gather newline current bytes, line.length ≤ maxLineLen - 1) :
    ∃ scanned, loadBytes loading bytes = .ok scanned ∧
      TextLoaded scanned (keptLines (texts ++ gather newline current bytes)) := by
  induction bytes generalizing loading texts current with
  | nil =>
    refine ⟨loading, rfl, Or.inl ⟨texts, current, waiting, ?_⟩⟩
    have room := waiting.room
    have last := waiting.last
    rw [keptLines, if_pos]
    rw [List.length_append, gather]
    by_cases empty : current = []
    · rw [if_pos empty, List.length_nil]
      omega
    · rw [if_neg empty, List.length_singleton]
      have before : texts.length ≠ maxLines - 1 := fun full => empty (last full)
      omega
  | cons byte bytes ih =>
    obtain ⟨nonzero, plain'⟩ := not_or.mp (mt List.mem_cons.mpr plain)
    have room := waiting.room
    rw [loadBytes]
    by_cases full : texts.length = maxLines - 1
    · obtain rfl := waiting.last full
      obtain ⟨ended, ends, rows, index, column⟩ := waiting.endLine
      rw [if_pos (Or.inr (by rw [waiting.index, full]; decide)), ends]
      have some : 0 < (gather newline [] (byte :: bytes)).length := by
        rw [gather]
        split
        · exact Nat.succ_pos _
        · obtain ⟨more, others, gathers⟩ := gather_front newline bytes (List.concat_ne_nil byte [])
          rw [gathers]
          exact Nat.succ_pos _
      refine ⟨ended, ?_, Or.inr ⟨?_, column, ?_, ?_⟩⟩
      · have stops : (maxLines : Int) ≤ ended.lineIdx := by
          rw [index, full]
          decide
        simp only [bind, Except.bind]
        rw [if_pos stops]
        rfl
      · rw [index, full]
        rfl
      · rw [keptLines, if_neg (by rw [List.length_append]; omega), ← full, List.take_left]
        exact rows
      · rw [keptLines, if_neg (by rw [List.length_append]; omega), ← full, List.take_left, List.length_append,
          List.length_singleton, full]
        rfl
    · have more : texts.length < maxLines - 1 := by omega
      have early : ¬((maxLines : Int) - 1 ≤ loading.lineIdx) := by
        rw [waiting.index]
        omega
      by_cases ends : byte = newline
      · subst ends
        rw [gather, if_pos rfl] at narrow ⊢
        obtain ⟨ended, ends, waiting'⟩ := waiting.newLine more
        obtain ⟨scanned, scans, done⟩ := ih waiting' plain' fun line member => narrow line (List.mem_cons_of_mem _ member)
        rw [List.append_assoc, List.singleton_append] at done
        refine ⟨scanned, ?_, done⟩
        have goes : ¬((maxLines : Int) ≤ ended.lineIdx) := by
          have room' := waiting'.room
          rw [waiting'.index]
          omega
        rw [if_pos (Or.inl rfl), ends]
        simp only [bind, Except.bind]
        rw [if_neg goes]
        exact scans
      · rw [gather, if_neg ends] at narrow ⊢
        obtain ⟨tail, others, gathers⟩ := gather_front newline bytes (List.concat_ne_nil byte current)
        have first := narrow (current ++ [byte] ++ tail) (by rw [gathers]; exact List.mem_cons_self)
        rw [List.length_append, List.length_append, List.length_singleton] at first
        have fits : current.length < maxLineLen - 1 := by omega
        obtain ⟨lines, puts, waiting'⟩ := waiting.grow more fits (Ne.symm nonzero)
        obtain ⟨scanned, scans, done⟩ := ih waiting' plain' narrow
        refine ⟨scanned, ?_, done⟩
        rw [if_neg (not_or.mpr ⟨ends, early⟩), if_pos (by rw [waiting.column]; omega), puts]
        exact scans

end Bytes

section Chunks

variable {fd : Int} {slot : Fin fsMaxFds} {node : Nat} {old : List UInt8}

/-- The loop over some bytes goes on with the bytes behind them. -/
theorem loadBytes_append (front back : List UInt8) (early : loading.lineIdx < maxLines) :
    loadBytes loading (front ++ back) = loadBytes loading front >>= fun middle =>
      if maxLines ≤ middle.lineIdx then .ok middle else loadBytes middle back := by
  induction front generalizing loading with
  | nil =>
    have goes : ¬((maxLines : Int) ≤ loading.lineIdx) := by omega
    show loadBytes loading back = if maxLines ≤ loading.lineIdx then .ok loading else loadBytes loading back
    rw [if_neg goes]
  | cons byte front ih =>
    rw [List.cons_append, loadBytes, loadBytes]
    split
    · cases loading.endLine with
      | error stop => rfl
      | ok ended =>
        simp only [bind, Except.bind]
        by_cases stops : (maxLines : Int) ≤ ended.lineIdx
        · simp only [if_pos stops, pure, Except.pure]
        · simp only [if_neg stops]
          exact ih (by omega)
    · split
      · cases loading.put byte with
        | error stop => rfl
        | ok lines => exact ih early
      · exact ih early

/-- However the reads cut the file into chunks, its bytes are loaded one after the other. -/
theorem loadChunks_loads {passes pos : Nat} {result : Loading} (saving : Saving state slot node (old.take pos) old)
    (place : fdSlot fd = some slot) (inside : pos ≤ old.length) (early : loading.lineIdx < maxLines)
    (enough : old.length - pos ≤ loadSize * passes) (loads : loadBytes loading (old.drop pos) = .ok result) :
    ∃ after pos', loadChunks fd (passes + 1) state loading = .ok (result, after) ∧ pos' ≤ old.length ∧
      after.nodes = state.nodes ∧ after.mnts = state.mnts ∧ Saving after slot node (old.take pos') old := by
  induction passes generalizing state loading pos with
  | zero =>
    obtain ⟨after, reads, nodes, mnts, saving'⟩ := saving.read place inside (show loadSize < 2 ^ 63 by decide)
    have done : old.length - pos = 0 := by omega
    rw [done] at reads saving'
    rw [List.drop_eq_nil_of_le (by omega)] at loads
    cases loads
    refine ⟨after, _, ?_, by omega, nodes, mnts, saving'⟩
    rw [loadChunks, reads]
    rfl
  | succ passes ih =>
    obtain ⟨middle, reads, nodes, mnts, saving'⟩ := saving.read place inside (show loadSize < 2 ^ 63 by decide)
    have far : pos + min loadSize (old.length - pos) ≤ old.length := by omega
    rw [loadChunks, reads]
    simp only [bind, Except.bind, Int.toNat_natCast]
    by_cases more : pos < old.length
    · have count : 0 < min loadSize (old.length - pos) := by
        have wide : loadSize = 1024 := rfl
        omega
      have chunk : ((old.drop pos).take loadSize).take (min loadSize (old.length - pos)) =
        (old.drop pos).take loadSize := by
        apply List.take_of_length_le
        rw [List.length_take, List.length_drop]
      rw [← List.take_append_drop loadSize (old.drop pos), loadBytes_append _ _ early] at loads
      obtain ⟨filled, fills, rest⟩ := bind_ok loads
      rw [if_pos (by exact_mod_cast count), chunk, fills]
      dsimp only
      by_cases stops : (maxLines : Int) ≤ filled.lineIdx
      · rw [if_pos stops] at rest ⊢
        cases rest
        exact ⟨middle, _, rfl, far, nodes, mnts, saving'⟩
      · rw [if_neg stops] at rest ⊢
        have next : (old.drop pos).drop loadSize = old.drop (pos + min loadSize (old.length - pos)) := by
          rw [List.drop_drop, List.drop_eq_drop_iff]
          omega
        rw [next] at rest
        have passed : loadSize * (passes + 1) = loadSize * passes + loadSize := Nat.mul_succ _ _
        obtain ⟨after, pos', continues, bound, nodes', mnts', saving''⟩ := ih saving' far (by omega) (by omega) rest
        exact ⟨after, pos', continues, bound, nodes'.trans nodes, mnts'.trans mnts, saving''⟩
    · have done : old.length - pos = 0 := by omega
      rw [List.drop_eq_nil_of_le (by omega)] at loads
      cases loads
      rw [done, Nat.min_zero, if_neg (by decide)]
      rw [done] at saving'
      exact ⟨middle, _, rfl, by omega, nodes, mnts, saving'⟩

/-- The reads are calls like any others. -/
theorem loadChunks_reachable {passes : Nat} {result : Loading} (reached : FsReachable state)
    (loads : loadChunks fd passes state loading = .ok (result, after)) : FsReachable after := by
  induction passes generalizing state loading with
  | zero => cases loads
  | succ passes ih =>
    rw [loadChunks] at loads
    obtain ⟨⟨ret, buf, middle⟩, reads, rest⟩ := bind_ok loads
    have call : (FileCall.read fd 0 loadSize).run state = .ok (ret, buf, middle) := reads
    have reached' := FsReachable.call reached call
    dsimp only at rest
    split at rest
    · obtain ⟨filled, _, rest⟩ := bind_ok rest
      split at rest
      · cases rest
        exact reached'
      · exact ih reached' rest
    · cases rest
      exact reached'

end Chunks

section Finished

theorem noText_rows (rows : Fin maxLines → EditLine) :
    ∃ emptied, noText rows = .ok emptied ∧ RowsAre emptied 0 [[]] := by
  have first : 0 < maxLines := by decide
  obtain ⟨row, copies⟩ := strCopyFrom_returns (rows ⟨0, first⟩) (show 0 + ([] : List UInt8).length < maxLineLen by decide)
  have lies := (strCopyFrom_copied List.not_mem_nil copies).lies List.not_mem_nil
  refine ⟨Function.update rows ⟨0, first⟩ row, ?_, ⟨first, ?_⟩, trivial⟩
  · have element : elementAt rows 0 = .ok (rows ⟨0, first⟩) := elementAt_eq rows first
    have put : setElement rows 0 row = .ok (Function.update rows ⟨0, first⟩ row) := setElement_eq rows first row
    unfold noText
    rw [element]
    simp only [bind, Except.bind, strCopy, copies, put]
  · rw [Function.update_self]
    exact lies

/-- Behind the loops the rows hold what was kept. -/
theorem TextLoaded.finish {kept : List (List UInt8)} (loaded : TextLoaded loading kept) :
    ∃ finished, loading.finish = .ok finished ∧ RowsAre finished.lines 0 (orEmpty kept) ∧
      finished.lineIdx = (orEmpty kept).length ∧ finished.lineIdx ≤ maxLines := by
  unfold Loading.finish
  obtain ⟨texts, current, collecting, rfl⟩ | ⟨index, column, rows, length⟩ := loaded
  · have room := collecting.room
    have index := collecting.index
    by_cases empty : current = []
    · subst empty
      rw [gather, if_pos rfl, List.append_nil, if_neg (by rw [collecting.column, List.length_nil]; omega)]
      simp only [bind, Except.bind]
      by_cases none : texts = []
      · obtain ⟨emptied, empties, first⟩ := noText_rows loading.lines
        rw [if_pos (by rw [index, none]; rfl), empties, orEmpty, if_pos none]
        exact ⟨_, rfl, first, rfl, show (1 : Int) ≤ maxLines by decide⟩
      · have some := List.length_pos_iff.mpr none
        rw [if_neg (by omega), orEmpty, if_neg none]
        exact ⟨loading, rfl, collecting.rows, index, by omega⟩
    · have some := List.length_pos_iff.mpr empty
      obtain ⟨ended, ends, rows, index', column⟩ := collecting.endLine
      rw [gather, if_neg empty, if_pos ⟨by rw [collecting.column]; omega, by omega⟩, ends, orEmpty,
        if_neg (List.concat_ne_nil _ _)]
      simp only [bind, Except.bind]
      rw [if_neg (by omega)]
      refine ⟨ended, rfl, rows, ?_, by omega⟩
      rw [index', List.length_append, List.length_singleton]
  · have some : kept ≠ [] := List.ne_nil_of_length_pos (by rw [length]; decide)
    rw [if_neg (by omega), orEmpty, if_neg some]
    simp only [bind, Except.bind]
    rw [if_neg (by rw [index]; decide)]
    exact ⟨loading, rfl, rows, by rw [index, length], by omega⟩

/-- The lines are the kept ones when there are fewer than a hundred, or the last is empty. -/
theorem keptLines_iff {texts : List (List UInt8)} (few : texts.length ≤ maxLines) :
    keptLines texts = texts ↔ texts.length < maxLines ∨ texts.getLast? = some [] := by
  unfold keptLines
  by_cases less : texts.length < maxLines
  · simp [less]
  · have full : texts.length = maxLines := by omega
    obtain rfl | ⟨front, last, rfl⟩ := texts.eq_nil_or_concat'
    · exact absurd full (by decide)
    · rw [List.length_append, List.length_singleton] at full
      have length : front.length = maxLines - 1 := by omega
      rw [if_neg less, or_iff_right less, ← length, List.take_left, List.getLast?_concat, List.append_cancel_left_eq]
      simp [eq_comm]

/-- What the editor has, joined again, is the front of the file. -/
theorem kept_front (bytes : List UInt8) :
    [newline].intercalate (orEmpty (keptLines (lines newline bytes))) <+: bytes := by
  have gathers : gather newline [] bytes = lines newline ([] ++ bytes) := gather_eq bytes List.not_mem_nil
  rw [List.nil_append] at gathers
  unfold orEmpty
  by_cases none : keptLines (lines newline bytes) = []
  · rw [if_pos none]
    exact List.nil_prefix
  rw [if_neg none]
  unfold keptLines at none ⊢
  by_cases less : (lines newline bytes).length < maxLines
  · rw [if_pos less] at none ⊢
    obtain ⟨front, last, split⟩ := (List.eq_nil_or_concat' (lines newline bytes)).resolve_left none
    have whole : gather newline [] bytes = front ++ (last ++ []) :: [] := by rw [gathers, split, List.append_nil]
    rw [split]
    exact intercalate_prefix whole
  · rw [if_neg less]
    have inside : maxLines - 1 < (lines newline bytes).length := by
      have wide : maxLines - 1 < maxLines := by decide
      omega
    have cut := (List.take_append_drop (maxLines - 1) (lines newline bytes)).symm
    rw [List.drop_eq_getElem_cons inside] at cut
    have whole : gather newline [] bytes = (lines newline bytes).take (maxLines - 1) ++
        ([] ++ (lines newline bytes)[maxLines - 1]) :: (lines newline bytes).drop (maxLines - 1 + 1) := gathers.trans cut
    exact intercalate_prefix whole

end Finished

section Files

variable {path : List UInt8} {node flags : Nat} {fd ret : Int}

/-- The editor after a load, and the file, which is as it was. -/
structure LoadedFrom (state after : FsState δ) (edited : Editor) (path : List UInt8) (node : Nat)
    (kept : List (List UInt8)) : Prop where
  reached : FsReachable after
  leads : fsResolve after path = .ok node
  file : IsFile after node
  same : content after node = content state node
  lines : editorLines edited = kept
  name : text edited.filename = path

/-- `fs_open` has room for the file. -/
def OpensToRead (state : FsState δ) (path : List UInt8) : Prop :=
  ∃ fd opened, fsOpen state path oRdonly = .ok (fd, opened) ∧ 0 ≤ fd

theorem open_reachable (reached : FsReachable state) (opens : fsOpen state path flags = .ok (fd, after)) :
    FsReachable after := by
  have call : (FileCall.open path flags).run state = .ok (fd, [], after) := by
    simp only [FileCall.run, opens]
    rfl
  exact FsReachable.call reached call

/-- A file that can be opened is loaded. -/
theorem keditLoad_opened {opened : FsState δ} (editor : Editor) (reached : FsReachable state)
    (leads : fsResolve state path = .ok node) (given : node ≠ 0) (file : IsFile state node) (clean : 0 ∉ path)
    (short : path.length < 256) (opens : fsOpen state path oRdonly = .ok (fd, opened)) (success : 0 ≤ fd)
    (plain : 0 ∉ content state node)
    (narrow : ∀ line ∈ lines newline (content state node), line.length ≤ maxLineLen - 1) :
    ∃ after edited, keditLoad state editor path = .ok (after, edited) ∧
      LoadedFrom state after edited path node (orEmpty (keptLines (lines newline (content state node)))) := by
  obtain ⟨filename, copies⟩ := strCopy_returns editor.filename short
  obtain ⟨blocks, roles, valid⟩ := fs_reachable_wellFormed reached
  obtain ⟨slot, place, saving⟩ := fsOpen_saving valid leads given file opens success
  obtain ⟨nodes, mnts⟩ := (fsOpen_opened opens).tree leads given
  have gathers : gather newline [] (content state node) = lines newline ([] ++ content state node) :=
    gather_eq (content state node) List.not_mem_nil
  rw [List.nil_append] at gathers
  have starts : Collecting ⟨editor.lines, 0, 0⟩ [] [] := by
    refine ⟨⟨trivial, rfl, by decide, rfl, by decide, List.not_mem_nil, ?_⟩, fun _ => rfl⟩
    exact fun index inside => absurd inside (Nat.not_lt_zero index)
  obtain ⟨scanned, scans, loaded⟩ := loadBytes_scans (content state node) starts plain (by rwa [gathers])
  rw [List.nil_append, gathers] at loaded
  obtain ⟨passes, space, enough⟩ : ∃ passes, addressSpace = passes + 1 ∧
      (content state node).length ≤ loadSize * passes := by
    obtain ⟨_, resolves, live⟩ := valid.resolve path
    cases resolves.symm.trans leads
    have small := valid.size_lt (live given) file
    rw [← content_length] at small
    refine ⟨addressSpace - 1, rfl, ?_⟩
    have wide : loadSize * (addressSpace - 1) = 1024 * (2 ^ 64 - 1) := rfl
    omega
  obtain ⟨read, pos, chunks, far, nodes', mnts', saving'⟩ := loadChunks_loads (by rwa [List.take_zero]) place
    (Nat.zero_le _) (show (0 : Int) < maxLines by decide) (by simpa using enough) (by rwa [List.drop_zero])
  obtain ⟨finished, finishes, rows, count, most⟩ := loaded.finish
  obtain ⟨_, _, valid'⟩ := saving'.valid
  obtain ⟨last, closes, _⟩ := valid'.close place saving'.used
  have bytes := saving'.close place closes
  rw [List.length_take_of_le far, List.take_append_drop] at bytes
  obtain ⟨nodes'', mnts''⟩ := fsClose_tree closes
  have kept : last.nodes = state.nodes := nodes''.trans (nodes'.trans nodes)
  have tree : last.mnts = state.mnts := mnts''.trans (mnts'.trans mnts)
  have reached' : FsReachable last := by
    have call : (FileCall.close fd).run read = .ok (0, [], last) := by
      simp only [FileCall.run, closes]
      rfl
    exact FsReachable.call (loadChunks_reachable (open_reachable reached opens) chunks) call
  refine ⟨last, { editor with filename, lines := finished.lines, lineCount := finished.lineIdx, modified := false }, ?_,
    reached', (fsResolve_congr kept tree path).trans leads, file.kept kept, bytes, rows_lines rows count most,
    (strCopy_text clean copies).2⟩
  unfold keditLoad
  simp only [bind, Except.bind, copies, opens]
  rw [if_neg (by omega), space, chunks]
  simp only [finishes, closes]
  rfl

/-- A file that cannot be opened is taken for an empty one. -/
theorem keditLoad_refused {opened : FsState δ} (editor : Editor) (reached : FsReachable state)
    (leads : fsResolve state path = .ok node) (given : node ≠ 0) (file : IsFile state node) (clean : 0 ∉ path)
    (short : path.length < 256) (opens : fsOpen state path oRdonly = .ok (fd, opened)) (failure : fd < 0) :
    ∃ edited, keditLoad state editor path = .ok (opened, edited) ∧ LoadedFrom state opened edited path node [[]] := by
  obtain ⟨filename, copies⟩ := strCopy_returns editor.filename short
  obtain ⟨emptied, empties, rows⟩ := noText_rows editor.lines
  obtain ⟨nodes, mnts⟩ := (fsOpen_opened opens).tree leads given
  obtain ⟨blocks, roles, valid⟩ := fs_reachable_wellFormed reached
  obtain ⟨_, resolves, live⟩ := valid.resolve path
  cases resolves.symm.trans leads
  obtain ⟨_, blocks', roles', valid', aside⟩ := valid.opened_valid (fsOpen_opened opens)
  refine ⟨{ editor with filename, lines := emptied, lineCount := 1 }, ?_, open_reachable reached opens,
    (fsResolve_congr nodes mnts path).trans leads, file.kept nodes, aside.contents _ (live given) file,
    rows_lines rows rfl (by show (1 : Int) ≤ maxLines; decide), (strCopy_text clean copies).2⟩
  unfold keditLoad
  simp only [bind, Except.bind, copies, opens, if_pos failure, empties]
  rfl

/-- A save behind a load writes what the file holds already. -/
theorem LoadedFrom.saved {last : FsState δ} {edited saved : Editor} {results : List Int} {kept : List (List UInt8)}
    (loaded : LoadedFrom state after edited path node kept) (given : node ≠ 0)
    (front : [newline].intercalate kept <+: content state node)
    (saves : keditSave after edited = .ok (some results, last, saved)) (success : ∀ ret ∈ results, 0 ≤ ret) :
    content last node = content state node := by
  have leads := loaded.leads
  rw [← loaded.name] at leads
  have writes := keditSave_writes loaded.reached leads given loaded.file saves success
  have written : editorText edited = [newline].intercalate kept := by rw [editorText, loaded.lines]
  rw [writes, loaded.same, written]
  obtain ⟨rest, whole⟩ := front
  rw [← whole, List.drop_left]

end Files

/-- The kept lines are those of the file when there are fewer than a hundred of them, or
the last of a hundred is empty. -/
theorem kept_iff {bytes : List UInt8} (few : (fileLines bytes).length ≤ maxLines) :
    orEmpty (keptLines (lines newline bytes)) = fileLines bytes ↔
      (fileLines bytes).length < maxLines ∨ (fileLines bytes).getLast? = some [] := by
  by_cases none : lines newline bytes = []
  · have same : fileLines bytes = [[]] := by rw [fileLines, orEmpty, if_pos none]
    have kept : keptLines ([] : List (List UInt8)) = [] := rfl
    rw [same, none, kept]
    exact iff_of_true rfl (Or.inl (by decide))
  · have same : fileLines bytes = lines newline bytes := by rw [fileLines, orEmpty, if_neg none]
    rw [same] at few ⊢
    have kept : keptLines (lines newline bytes) ≠ [] := by
      unfold keptLines
      split
      · exact none
      · exact List.concat_ne_nil _ _
    rw [orEmpty, if_neg kept]
    exact keptLines_iff few

/-- A load gives the lines of the file exactly when the file can be opened, and has fewer
than a hundred lines or an empty hundredth; or when its only line is empty. A save behind it
leaves the file as it was. -/
theorem loaded_lines_iff {path : List UInt8} {node : Nat} (editor : Editor) (reached : FsReachable state)
    (leads : fsResolve state path = .ok node) (given : node ≠ 0) (file : IsFile state node) (clean : 0 ∉ path)
    (short : path.length < 256) (plain : 0 ∉ content state node)
    (few : (fileLines (content state node)).length ≤ maxLines)
    (narrow : ∀ line ∈ fileLines (content state node), line.length ≤ maxLineLen - 1) :
    ∃ after edited, keditLoad state editor path = .ok (after, edited) ∧
      (editorLines edited = fileLines (content state node) ↔ fileLines (content state node) = [[]] ∨
        OpensToRead state path ∧
        ((fileLines (content state node)).length < maxLines ∨ (fileLines (content state node)).getLast? = some [])) ∧
      ∀ results last saved, keditSave after edited = .ok (some results, last, saved) → (∀ ret ∈ results, 0 ≤ ret) →
        content last node = content state node := by
  obtain ⟨blocks, roles, valid⟩ := fs_reachable_wellFormed reached
  obtain ⟨fd, opened, opens⟩ := valid.fsOpen_returns fun asked => absurd rfl (show oRdonly &&& oCreat ≠ 0 from asked)
  by_cases success : 0 ≤ fd
  · have narrow' : ∀ line ∈ lines newline (content state node), line.length ≤ maxLineLen - 1 := by
      intro line member
      apply narrow
      rwa [fileLines, orEmpty, if_neg (List.ne_nil_of_mem member)]
    obtain ⟨after, edited, loads, loaded⟩ :=
      keditLoad_opened editor reached leads given file clean short opens success plain narrow'
    refine ⟨after, edited, loads, ?_, fun results last saved saves success =>
      loaded.saved given (kept_front _) saves success⟩
    rw [loaded.lines, kept_iff few]
    constructor
    · exact fun right => Or.inr ⟨⟨fd, opened, opens, success⟩, right⟩
    · rintro (one | ⟨_, right⟩)
      · rw [one]
        exact Or.inl (by decide)
      · exact right
  · obtain ⟨edited, loads, loaded⟩ := keditLoad_refused editor reached leads given file clean short opens (by omega)
    refine ⟨opened, edited, loads, ?_, fun results last saved saves success =>
      loaded.saved given List.nil_prefix saves success⟩
    rw [loaded.lines]
    constructor
    · exact fun right => Or.inl right.symm
    · rintro (one | ⟨⟨other, opened', opens', success'⟩, _⟩)
      · exact one.symm
      · cases opens.symm.trans opens'
        exact absurd success' success

private def opensNotes (state : FsState Unit) : Bool :=
  match fsOpen state (literal "/notes") oRdonly with
  | .ok (fd, _) => 0 ≤ fd
  | .error _ => false

private theorem notes_opened {state : FsState Unit} (opens : opensNotes state = true) :
    ∃ fd opened, fsOpen state (literal "/notes") oRdonly = .ok (fd, opened) ∧ 0 ≤ fd := by
  unfold opensNotes at opens
  split at opens
  next fd opened result => exact ⟨fd, opened, result, of_decide_eq_true opens⟩
  next => cases opens

private def noEditor : Editor where
  lines _ _ := 0
  lineCount := 0
  editCursorX := 0
  editCursorY := 0
  filename _ := 0
  modified := false

theorem loaded_lines_iff_hello : ∃ (state after : FsState Unit) (edited : Editor), FsReachable state ∧
    keditLoad state noEditor (literal "/notes") = .ok (after, edited) ∧ editorLines edited = [literal "hello"] := by
  obtain ⟨state, node, reached, leads, given, file, same, opens⟩ :=
    file_held (show rootedFs.any (fun start => (runCalls start (fileCalls (literal "/notes") (literal "hello"))).any
      fun state => fileHolds (literal "/notes") (literal "hello") state && opensNotes state) = true by decide +kernel)
  have split : fileLines (content state node) = [literal "hello"] := by
    rw [same]
    decide
  obtain ⟨after, edited, loads, right, _⟩ := loaded_lines_iff noEditor reached leads given file (by decide) (by decide)
    (by rw [same]; decide) (by rw [split]; decide) (by rw [split]; decide)
  rw [split] at right
  exact ⟨state, after, edited, reached, loads, right.mpr (Or.inr ⟨notes_opened opens, Or.inl (by decide)⟩)⟩

/-- A hundred lines, where only the last one holds anything. -/
private def hundredLines : List UInt8 := List.replicate 99 newline ++ literal "x"

/-- A hundredth line is lost. -/
theorem loaded_lines_fails : ¬∀ (state : FsState Unit) (editor : Editor) (path : List UInt8) (node : Nat),
    FsReachable state → fsResolve state path = .ok node → node ≠ 0 → IsFile state node → 0 ∉ path →
      path.length < 256 → 0 ∉ content state node → (fileLines (content state node)).length ≤ maxLines →
        (∀ line ∈ fileLines (content state node), line.length ≤ maxLineLen - 1) →
          ∃ after edited, keditLoad state editor path = .ok (after, edited) ∧
            editorLines edited = fileLines (content state node) := by
  intro loads
  obtain ⟨state, node, reached, leads, given, file, same, opens⟩ :=
    file_held (show rootedFs.any (fun start => (runCalls start (fileCalls (literal "/notes") hundredLines)).any
      fun state => fileHolds (literal "/notes") hundredLines state && opensNotes state) = true by decide +kernel)
  obtain ⟨fd, opened, opens, success⟩ := notes_opened opens
  have plain : 0 ∉ content state node := by
    rw [same]
    decide +kernel
  obtain ⟨after, edited, loaded, right⟩ := loads state noEditor (literal "/notes") node reached leads given file (by decide)
    (by decide) plain (by rw [same]; decide +kernel) (by rw [same]; decide +kernel)
  obtain ⟨after', edited', loaded', from'⟩ := keditLoad_opened noEditor reached leads given file (by decide) (by decide)
    opens success plain (by rw [same]; decide +kernel)
  cases loaded.symm.trans loaded'
  rw [from'.lines, same] at right
  exact absurd right (by decide +kernel)

end Kernix.Proofs
