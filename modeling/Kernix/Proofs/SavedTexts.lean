import Kernix.Proofs.EditorKeys
import Kernix.Proofs.FsReach
import Kernix.Shell.Kedit

/-! What `kedit_save` leaves in a file that was there before. The writes start at its
first byte and nothing cuts it off behind the last one, so a text that has become
shorter keeps the end of the old one. -/

namespace Kernix.Proofs

variable {δ : Type} {state after : FsState δ} {editor : Editor}

/-- Writes of one chunk after the other. -/
def writeChunks (fd : Int) : List (List UInt8) → FsState δ → Except Stop (List Int × FsState δ)
  | [], state => .ok ([], state)
  | chunk :: chunks, state => do
    let (written, state) ← fsWrite state fd chunk
    let (others, state) ← writeChunks fd chunks state
    return (written :: others, state)

/-- The loop writes the lines with a newline between two of them. -/
theorem saveLines_chunks {fd : Int} {left i : Nat} {results : List Int} (count : editor.lineCount = (i + left : Nat))
    (saves : saveLines editor fd left i state = .ok (results, after)) :
    ∃ texts, texts.length = left ∧ RowsAre editor.lines i texts ∧
      writeChunks fd (texts.intersperse [newline]) state = .ok (results, after) := by
  induction left generalizing i state results with
  | zero => exact ⟨[], rfl, trivial, saves⟩
  | succ left ih =>
    rw [saveLines] at saves
    obtain ⟨row, reads, rest⟩ := bind_ok saves
    have inside : i < maxLines := by
      by_contra outside
      rw [elementAt, dif_neg (by omega)] at reads
      cases reads
    rw [elementAt_eq _ inside] at reads
    cases reads
    obtain ⟨found, finds, rest⟩ := bind_ok rest
    obtain ⟨⟨written, middle⟩, writes, rest⟩ := bind_ok rest
    have lies := textAt_ok finds
    have next : ((i : Int) + 1) = ((i + 1 : Nat) : Int) := by omega
    rw [next] at rest
    dsimp only at rest
    split at rest
    next more =>
      obtain ⟨⟨ended, middle'⟩, ends, rest⟩ := bind_ok rest
      obtain ⟨⟨others, last⟩, loop, rest⟩ := bind_ok rest
      cases rest
      obtain ⟨texts, length, rows, chunks⟩ := ih (by omega) loop
      obtain _ | ⟨text, texts⟩ := texts
      · rw [List.length_nil] at length
        omega
      · refine ⟨found :: text :: texts, by simpa using length, ⟨⟨inside, lies⟩, rows⟩, ?_⟩
        rw [List.intersperse_cons_cons, writeChunks, writes]
        simp only [bind, Except.bind]
        rw [writeChunks, ends]
        simp only [bind, Except.bind, chunks]
        rfl
    next final =>
      obtain ⟨⟨others, last⟩, loop, rest⟩ := bind_ok rest
      cases rest
      obtain ⟨texts, length, rows, chunks⟩ := ih (by omega) loop
      obtain rfl : texts = [] := List.eq_nil_of_length_eq_zero (by omega)
      rw [← length]
      refine ⟨[found], rfl, ⟨⟨inside, lies⟩, trivial⟩, ?_⟩
      rw [List.intersperse_nil] at chunks
      rw [List.intersperse_singleton, writeChunks, writes]
      simp only [bind, Except.bind, chunks]
      rfl

/-- The rows that hold texts are rows of the editor. -/
theorem RowsAre.most {lines : Fin maxLines → EditLine} {position : Nat} {texts : List (List UInt8)}
    (rows : RowsAre lines position texts) (some : texts ≠ []) : position + texts.length ≤ maxLines := by
  have length := List.length_pos_iff.mpr some
  have inside : texts.length - 1 < texts.length := by omega
  obtain ⟨fits, -⟩ := rows.row inside
  omega

/-- The joined texts are no longer than their rows. -/
theorem RowsAre.small {lines : Fin maxLines → EditLine} {position : Nat} {texts : List (List UInt8)}
    (rows : RowsAre lines position texts) : ([newline].intercalate texts).length ≤ maxLineLen * texts.length := by
  induction texts generalizing position with
  | nil => exact Nat.zero_le _
  | cons text texts ih =>
    obtain ⟨⟨_, lies⟩, rest⟩ := rows
    have fits := lies.fits
    have length := ih rest
    cases texts with
    | nil => simpa [List.intercalate] using Nat.le_of_lt fits
    | cons next texts =>
      simp only [List.intercalate, List.intersperse_cons_cons, List.flatten_cons, List.length_append,
        List.length_nil, List.length_cons] at length ⊢
      have wide : maxLineLen * (texts.length + 1 + 1) = maxLineLen * (texts.length + 1) + maxLineLen := Nat.mul_succ _ _
      omega

/-- The whole loop writes the text. -/
theorem saveLines_text {fd : Int} {results : List Int}
    (saves : saveLines editor fd editor.lineCount.toNat 0 state = .ok (results, after)) :
    writeChunks fd ((editorLines editor).intersperse [newline]) state = .ok (results, after) ∧
      (editorText editor).length < 2 ^ 64 := by
  by_cases negative : editor.lineCount < 0
  · have none : editor.lineCount.toNat = 0 := by omega
    rw [none] at saves
    have empty : editorLines editor = [] := by rw [editorLines, none, List.take_zero, List.map_nil]
    rw [editorText, empty]
    exact ⟨saves, by decide⟩
  · obtain ⟨texts, length, rows, chunks⟩ := saveLines_chunks (i := 0) (by omega) saves
    have few : texts.length ≤ maxLines := by
      by_cases some : texts = []
      · rw [some]
        exact Nat.zero_le _
      · have most := rows.most some
        omega
    have lines := rows_lines rows (by omega) (by omega)
    have small := rows.small
    rw [editorText, lines]
    refine ⟨chunks, Nat.lt_of_le_of_lt small ?_⟩
    exact Nat.lt_of_le_of_lt (Nat.mul_le_mul_left _ few) (by decide)

/-- In the middle of a save: the first bytes of the file are those written so far. -/
structure Saving (state : FsState δ) (slot : Fin fsMaxFds) (node : Nat) (written old : List UInt8) : Prop where
  valid : ∃ blocks roles, FsValid state blocks roles
  used : state.fds slot ≠ 0
  opened : openedNode state slot = node
  file : IsFile state node
  position : position state slot = written.length
  content : content state node = written ++ old.drop written.length

/-- A write that succeeds adds its bytes. -/
theorem Saving.write {fd ret : Int} {slot : Fin fsMaxFds} {node : Nat} {written old chunk : List UInt8}
    (saving : Saving state slot node written old) (place : fdSlot fd = some slot)
    (fits : written.length + chunk.length < 2 ^ 64) (writes : fsWrite state fd chunk = .ok (ret, after))
    (success : 0 ≤ ret) : Saving after slot node (written ++ chunk) old := by
  obtain ⟨⟨blocks, roles, valid⟩, used, rfl, file, start, bytes⟩ := saving
  have size := content_length state (openedNode state slot)
  rw [bytes, List.length_append] at size
  have found : fsGetFile state fd = state.fds slot := by rw [fsGetFile, place]
  have stores : tmpfsWrite state (state.fds slot) chunk = .ok (ret, after) := by
    simp only [fsWrite, found, if_neg used] at writes
    rw [← openedNode, file.ops] at writes
    exact writes
  obtain ⟨blocks', roles', ⟨rfl, -⟩ | ⟨-, done⟩⟩ := valid.write used file stores
  · exact absurd success (by decide)
  · have tree := done.tree
    have stored := done.stored
    have opened : openedNode after slot = openedNode state slot := by
      rw [openedNode, openedNode, tree.fds, tree.fileNode]
    refine ⟨⟨blocks', roles', done.valid⟩, by rwa [tree.fds], opened, tree.isFile.mpr file, ?_, ?_⟩
    · rw [Proofs.position] at start ⊢
      rw [tree.fds, stored.files, Function.update_self, start, List.length_append]
      exact u64_eq fits
    · rw [stored.content (by rw [← Proofs.position, start]; omega), ← Proofs.position, start, bytes, splice,
        List.take_left, List.length_append, List.drop_append, List.drop_drop]
      simp

theorem Saving.writeAll {fd : Int} {slot : Fin fsMaxFds} {node : Nat} {written old : List UInt8}
    {chunks : List (List UInt8)}
    {results : List Int} (saving : Saving state slot node written old) (place : fdSlot fd = some slot)
    (fits : written.length + chunks.flatten.length < 2 ^ 64) (runs : writeChunks fd chunks state = .ok (results, after))
    (success : ∀ ret ∈ results, 0 ≤ ret) : Saving after slot node (written ++ chunks.flatten) old := by
  induction chunks generalizing state written results with
  | nil =>
    cases runs
    simpa using saving
  | cons chunk chunks ih =>
    rw [writeChunks] at runs
    obtain ⟨⟨ret, middle⟩, writes, rest⟩ := bind_ok runs
    obtain ⟨⟨others, last⟩, continues, rest⟩ := bind_ok rest
    cases rest
    rw [List.flatten_cons, List.length_append] at fits
    have stepped := saving.write place (by omega) writes (success ret List.mem_cons_self)
    have final := ih stepped (by rw [List.length_append]; omega) continues
      fun ret member => success ret (List.mem_cons_of_mem _ member)
    simpa using final

/-- What an open of a file leaves, that was there before. -/
theorem fsOpen_saving {ret : Int} {flags node : Nat} {path : List UInt8} {blocks : List Block} {roles : Roles}
    (valid : FsValid state blocks roles) (leads : fsResolve state path = .ok node) (given : node ≠ 0)
    (file : IsFile state node)
    (opens : fsOpen state path flags = .ok (ret, after)) (success : 0 ≤ ret) :
    ∃ slot, fdSlot ret = some slot ∧ Saving after slot node [] (content state node) := by
  obtain ⟨outcome, blocks', roles', valid', aside⟩ := valid.opened_valid (fsOpen_opened opens)
  rcases outcome with ⟨rfl, -⟩ | ⟨slot, record, found, rfl, new⟩
  · exact absurd success (by decide)
  · have again := (fsOpen_opened opens).leads leads given
    obtain rfl : found = node := Except.ok.inj (new.leads.symm.trans again)
    obtain ⟨_, resolves, live⟩ := valid.resolve path
    cases resolves.symm.trans leads
    have place : after.fds slot = record := by rw [new.fds, Function.update_self]
    have opened : openedNode after slot = found := by rw [openedNode, place, new.files]
    refine ⟨slot, by simp [fdSlot], ⟨blocks', roles', valid'⟩, by rw [place]; exact new.given, opened,
      (aside.kinds _ (live given)).mpr file, ?_, ?_⟩
    · rw [position, place, new.files]
      rfl
    · rw [aside.contents _ (live given) file]
      rfl

/-- The close leaves the bytes alone. -/
theorem Saving.close {fd ret : Int} {last : FsState δ} {slot : Fin fsMaxFds} {node : Nat} {written old : List UInt8}
    (saving : Saving state slot node written old) (place : fdSlot fd = some slot)
    (closes : fsClose state fd = .ok (ret, last)) :
    Proofs.content last node = written ++ old.drop written.length := by
  obtain ⟨⟨blocks, roles, valid⟩, used, rfl, file, -, bytes⟩ := saving
  obtain ⟨after', closed, -, blocks', -, aside⟩ := valid.close place used
  cases closed.symm.trans closes
  have apart : openedNode state slot ≠ state.fds slot := by
    intro same
    have live : roles (openedNode state slot) = some .node := valid.opened slot used
    rw [same, valid.table slot used] at live
    cases live
  rw [← bytes]
  refine aside.contents _ ?_ ⟨file.ops, file.type⟩
  rw [Roles.drop, Function.update_of_ne apart]
  exact valid.opened slot used

/-- One read takes the next bytes of the file. -/
theorem Saving.read {fd : Int} {slot : Fin fsMaxFds} {node pos cnt : Nat} {old : List UInt8}
    (saving : Saving state slot node (old.take pos) old) (place : fdSlot fd = some slot) (inside : pos ≤ old.length)
    (short : cnt < 2 ^ 63) :
    ∃ after, fsRead state fd cnt = .ok ((min cnt (old.length - pos) : Nat), (old.drop pos).take cnt, after) ∧
      after.nodes = state.nodes ∧ after.mnts = state.mnts ∧
      Saving after slot node (old.take (pos + min cnt (old.length - pos))) old := by
  obtain ⟨⟨blocks, roles, valid⟩, used, rfl, file, start, bytes⟩ := saving
  rw [List.length_take_of_le inside] at start
  rw [List.length_take_of_le inside, List.take_append_drop] at bytes
  have live := valid.opened slot used
  have small : (state.nodes (openedNode state slot)).size < 2 ^ 63 := valid.size_lt live file
  have size := content_length state (openedNode state slot)
  rw [bytes] at size
  have far : pos + min cnt (old.length - pos) ≤ old.length := by omega
  have fits : Proofs.position state slot + cnt < 2 ^ 64 := by omega
  have reads := valid.read used file (Or.inr fits)
  rw [start, bytes, ← size, i64_eq (by omega)] at reads
  have found : fsGetFile state fd = state.fds slot := by rw [fsGetFile, place]
  refine ⟨Proofs.moveTo state slot (pos + min cnt (old.length - pos)), ?_, rfl, rfl,
    ⟨blocks, roles, valid.moveTo (by omega)⟩, used, ?_, ⟨file.ops, file.type⟩, ?_, ?_⟩
  · simp only [fsRead, found, if_neg used]
    rw [← openedNode, file.ops]
    exact reads
  · simp [openedNode, moveTo, FsState.setFile]
  · rw [List.length_take_of_le far]
    simp [Proofs.position, moveTo, FsState.setFile]
  · rw [List.length_take_of_le far, List.take_append_drop]
    exact bytes

/-- When every write succeeds, the text is in the file from its start on, in front of what the
old content has behind that. -/
theorem keditSave_writes {edited : Editor} {results : List Int} {node : Nat} (reached : FsReachable state)
    (leads : fsResolve state (text editor.filename) = .ok node) (given : node ≠ 0) (file : IsFile state node)
    (saves : keditSave state editor = .ok (some results, after, edited)) (success : ∀ ret ∈ results, 0 ≤ ret) :
    content after node = editorText editor ++ (content state node).drop (editorText editor).length := by
  unfold keditSave at saves
  obtain ⟨first, _, saves⟩ := bind_ok saves
  split at saves
  next => cases saves
  next =>
    obtain ⟨path, finds, rest⟩ := bind_ok saves
    obtain ⟨⟨fd, opened⟩, opens, rest⟩ := bind_ok rest
    dsimp only at rest
    split at rest
    next => cases rest
    next success' =>
      obtain ⟨⟨written, middle⟩, writes, rest⟩ := bind_ok rest
      obtain ⟨⟨closed, last⟩, closes, rest⟩ := bind_ok rest
      cases rest
      have named := (textAt_ok finds).text_found
      rw [named] at leads
      obtain ⟨blocks, roles, valid⟩ := fs_reachable_wellFormed reached
      obtain ⟨slot, place, saving⟩ := fsOpen_saving valid leads given file opens (by omega)
      obtain ⟨chunks, small⟩ := saveLines_text writes
      have wrote := saving.writeAll place (by rw [List.length_nil, Nat.zero_add]; exact small) chunks success
      exact wrote.close place closes

/-- When every write succeeds, the file is the text exactly where the text is no shorter than
what the file held before. -/
theorem saved_text_iff {edited : Editor} {results : List Int} {node : Nat} (reached : FsReachable state)
    (leads : fsResolve state (text editor.filename) = .ok node) (given : node ≠ 0) (file : IsFile state node)
    (saves : keditSave state editor = .ok (some results, after, edited)) (success : ∀ ret ∈ results, 0 ≤ ret) :
    content after node = editorText editor ↔ (content state node).length ≤ (editorText editor).length := by
  rw [keditSave_writes reached leads given file saves success, List.append_right_eq_self, List.drop_eq_nil_iff]

/-- Calls one after the other, where all of them return. -/
def runCalls : FsState δ → List FileCall → Option (FsState δ)
  | state, [] => some state
  | state, call :: calls =>
    match call.run state with
    | .ok (_, _, after) => runCalls after calls
    | .error _ => none

theorem runCalls_reachable {calls : List FileCall} (reached : FsReachable state)
    (run : runCalls state calls = some after) :
    FsReachable after := by
  induction calls generalizing state with
  | nil =>
    cases run
    exact reached
  | cons call calls ih =>
    rw [runCalls] at run
    split at run
    next ret bytes middle returns => exact ih (reached.call returns) run
    next => cases run

/-- The calls that leave the bytes in a new file. -/
def fileCalls (path bytes : List UInt8) : List FileCall := [.open path oCreat, .write 3 bytes, .close 3]

/-- The path leads to a file with the bytes. -/
def fileHolds (path bytes : List UInt8) (state : FsState Unit) : Bool :=
  match fsResolve state path with
  | .ok node =>
    node ≠ 0 && (state.nodes node).ops = some .tmpfs && (state.nodes node).type = fsFile && content state node = bytes
  | .error _ => false

/-- A state with a file, from a run of the calls. -/
theorem file_held {path bytes : List UInt8} {check : FsState Unit → Bool}
    (fine : rootedFs.any (fun start => (runCalls start (fileCalls path bytes)).any fun state =>
      fileHolds path bytes state && check state) = true) :
    ∃ (state : FsState Unit) (node : Nat), FsReachable state ∧ fsResolve state path = .ok node ∧ node ≠ 0 ∧
      IsFile state node ∧ content state node = bytes ∧ check state = true := by
  obtain ⟨start, reached, runs⟩ := rootedFs_any _ fine
  obtain ⟨state, run, holds⟩ := (Option.any_eq_true _ _).mp runs
  obtain ⟨holds, checked⟩ := (Bool.and_eq_true _ _).mp holds
  unfold fileHolds at holds
  split at holds
  next node leads =>
    simp only [Bool.and_eq_true, decide_eq_true_eq] at holds
    obtain ⟨⟨⟨given, ops⟩, type⟩, same⟩ := holds
    exact ⟨state, node, runCalls_reachable reached run, leads, given, ⟨ops, type⟩, same, checked⟩
  next => cases holds

/-- The editor on a file that holds "hello", with the text cut down to its first letter. -/
private def shortEditor : Editor where
  lines _ index := if index.val = 0 then 0x68 else 0
  lineCount := 1
  editCursorX := 1
  editCursorY := 0
  filename index := (literal "/notes").getD index.val 0
  modified := true

private def savesShort (state : FsState Unit) : Bool :=
  match keditSave state shortEditor with
  | .ok (some results, after, _) =>
    results.all (fun ret => 0 ≤ ret) && (match fsResolve state (text shortEditor.filename) with
      | .ok node => content after node ≠ editorText shortEditor
      | .error _ => false)
  | _ => false

private theorem short_saved : ∃ (state after : FsState Unit) (edited : Editor) (results : List Int) (node : Nat),
    FsReachable state ∧ fsResolve state (text shortEditor.filename) = .ok node ∧ node ≠ 0 ∧ IsFile state node ∧
      keditSave state shortEditor = .ok (some results, after, edited) ∧ (∀ ret ∈ results, 0 ≤ ret) ∧
      content after node ≠ editorText shortEditor := by
  obtain ⟨state, node, reached, leads, given, file, -, saves⟩ := file_held (show rootedFs.any (fun start =>
    (runCalls start (fileCalls (text shortEditor.filename) (literal "hello"))).any fun state =>
      fileHolds (text shortEditor.filename) (literal "hello") state && savesShort state) = true by decide +kernel)
  unfold savesShort at saves
  split at saves
  next results after edited saved =>
    rw [leads] at saves
    simp only [Bool.and_eq_true, decide_eq_true_eq, List.all_eq_true] at saves
    exact ⟨state, after, edited, results, node, reached, leads, given, file, saved, saves.1, saves.2⟩
  next => cases saves

theorem saved_text_iff_hello : ∃ (state after : FsState Unit) (node : Nat), FsReachable state ∧
    (content after node = editorText shortEditor ↔ (content state node).length ≤ (editorText shortEditor).length) := by
  obtain ⟨state, after, edited, results, node, reached, leads, given, file, saves, success, _⟩ := short_saved
  exact ⟨state, after, node, reached, saved_text_iff reached leads given file saves success⟩

/-- A text that is shorter than the old one keeps the end of that. -/
theorem saved_text_fails : ¬∀ (state after : FsState Unit) (editor edited : Editor) (results : List Int) (node : Nat),
    FsReachable state → fsResolve state (text editor.filename) = .ok node → node ≠ 0 → IsFile state node →
      keditSave state editor = .ok (some results, after, edited) → (∀ ret ∈ results, 0 ≤ ret) →
        content after node = editorText editor := by
  intro saved
  obtain ⟨state, after, edited, results, node, reached, leads, given, file, saves, success, differs⟩ := short_saved
  exact differs (saved state after shortEditor edited results node reached leads given file saves success)

end Kernix.Proofs
