import Kernix.Proofs.LineEditing
import Mathlib.Data.List.Infix

/-! Enter takes the cursor for the end of the line: what is behind the cursor is cut
off before the line is recorded and executed. -/

namespace Kernix.Proofs

/-- The history has at most its capacity of entries, and every entry is a string. -/
structure HistoryHeld (console : Console) : Prop where
  count : ∃ count ≤ maxHistory, console.historyCount = (count : Nat)
  strings : ∀ entry, ∃ found, TextIs (console.commandHistory entry) 0 found

/-- The last entry of the history. -/
def LastCommand (console : Console) (line : List UInt8) : Prop :=
  ∃ entry : Fin maxHistory, console.historyCount = entry.val + 1 ∧ TextIs (console.commandHistory entry) 0 line

/-- The same input line, whatever happened to the history. -/
def SameInput (before after : Console) : Prop :=
  after.inputBuffer = before.inputBuffer ∧ after.inputPos = before.inputPos

private theorem strings_update {commandHistory : Fin maxHistory → InputBuffer} {entry : Fin maxHistory}
    {copied : InputBuffer} {line : List UInt8} (strings : ∀ entry, ∃ found, TextIs (commandHistory entry) 0 found)
    (lies : TextIs copied 0 line) (other : Fin maxHistory) :
    ∃ found, TextIs (Function.update commandHistory entry copied other) 0 found := by
  by_cases same : other = entry
  · rw [same, Function.update_self]
    exact ⟨line, lies⟩
  · rw [Function.update_of_ne same]
    exact strings other

/-- A line that fits an entry is recorded in it. -/
theorem recordCommand_records (commandHistory : Fin maxHistory → InputBuffer) {line : List UInt8} (entry : Fin maxHistory)
    (clean : 0 ∉ line) (fits : line.length < maxInputLen) :
    ∃ copied, recordCommand commandHistory entry.val line = .ok (Function.update commandHistory entry copied) ∧
      TextIs copied 0 line := by
  obtain ⟨copied, copies⟩ := strCopy_returns (commandHistory entry) fits
  refine ⟨copied, ?_, (strCopyFrom_copied clean copies).lies clean⟩
  unfold recordCommand
  rw [elementAt_eq _ entry.isLt]
  simp only [bind, Except.bind]
  rw [copies]
  simp only
  rw [setElement_eq _ entry.isLt]

/-- Moving the entries down leaves strings in all of them. -/
theorem shiftHistory_strings {commandHistory : Fin maxHistory → InputBuffer} {left entry : Nat}
    (strings : ∀ entry, ∃ found, TextIs (commandHistory entry) 0 found) (first : 1 ≤ entry)
    (inside : entry + left ≤ maxHistory) :
    ∃ moved, shiftHistory commandHistory left entry = .ok moved ∧ ∀ entry, ∃ found, TextIs (moved entry) 0 found := by
  induction left generalizing commandHistory entry with
  | zero => exact ⟨commandHistory, rfl, strings⟩
  | succ left ih =>
    obtain ⟨place, rfl⟩ : ∃ place, entry = place + 1 := ⟨entry - 1, by omega⟩
    obtain ⟨found, lies⟩ := strings ⟨place + 1, by omega⟩
    obtain ⟨copied, copies, copy⟩ := lies.copies (commandHistory ⟨place, by omega⟩) (by simpa using lies.fits)
    obtain ⟨moved, shifts, kept⟩ :=
      @ih (Function.update commandHistory ⟨place, by omega⟩ copied) (place + 1 + 1)
        (strings_update strings (copy.lies lies.clean)) (by omega) (by omega)
    refine ⟨moved, ?_, kept⟩
    have before : ((place + 1 : Nat) : Int) - 1 = (place : Nat) := by omega
    rw [shiftHistory, before, elementAt_eq _ (by omega), elementAt_eq _ (by omega)]
    simp only [bind, Except.bind]
    rw [copies]
    simp only
    rw [setElement_eq _ (by omega)]
    exact shifts

/-- A line that is not empty becomes the last entry, unless it is the last already. -/
theorem addToHistory_records {console : Console} {line : List UInt8} (held : HistoryHeld console) (clean : 0 ∉ line)
    (fits : line.length < maxInputLen) (nonempty : line ≠ []) :
    ∃ after, addToHistory console line = .ok after ∧ HistoryHeld after ∧ LastCommand after line ∧
      SameInput console after := by
  obtain ⟨count, bound, counted⟩ := held.count
  have long : line.length ≠ 0 := fun zero => nonempty (List.length_eq_zero_iff.mp zero)
  have added (repeats : repeatsLast console line = .ok false) :
      ∃ after, addToHistory console line = .ok after ∧ HistoryHeld after ∧ LastCommand after line ∧
        SameInput console after := by
    unfold addToHistory
    rw [if_neg long, repeats]
    simp only [bind, Except.bind, pure, Except.pure, Bool.false_eq_true, if_false]
    by_cases room : count < maxHistory
    · obtain ⟨copied, records, lies⟩ := recordCommand_records console.commandHistory ⟨count, room⟩ clean fits
      rw [if_pos (by omega), counted, records]
      refine ⟨_, rfl, ⟨⟨count + 1, room, rfl⟩, strings_update held.strings lies⟩, ⟨⟨count, room⟩, rfl, ?_⟩, rfl, rfl⟩
      simpa using lies
    · obtain ⟨moved, shifts, strings⟩ := @shiftHistory_strings _ (maxHistory - 1) 1 held.strings
        (Nat.le_refl 1) (by decide)
      obtain ⟨copied, records, lies⟩ :=
        recordCommand_records moved ⟨maxHistory - 1, by decide⟩ clean fits
      have full : count = maxHistory := by omega
      subst full
      rw [if_neg (by omega), shifts]
      simp only
      rw [show ((maxHistory : Int) - 1) = ((maxHistory - 1 : Nat) : Int) by decide, records]
      refine ⟨_, rfl, ⟨⟨maxHistory, bound, counted⟩, strings_update strings lies⟩,
        ⟨⟨maxHistory - 1, by decide⟩, counted, ?_⟩, rfl, rfl⟩
      simpa using lies
  by_cases some : 0 < count
  · obtain ⟨last, rfl⟩ : ∃ last, count = last + 1 := ⟨count - 1, by omega⟩
    obtain ⟨found, lies⟩ := held.strings ⟨last, by omega⟩
    have compares : repeatsLast console line = .ok (strEquals found line) := by
      have place : console.historyCount - 1 = (last : Nat) := by omega
      unfold repeatsLast
      rw [if_pos (by omega), place, elementAt_eq _ (by omega)]
      simp only [bind, Except.bind]
      rw [lies.ok]
      rfl
    cases same : strEquals found line
    · exact added (compares.trans (congrArg _ same))
    · have equal := (strEquals_iff found line).mp same
      subst equal
      refine ⟨console, ?_, held, ⟨⟨last, by omega⟩, by simpa using counted, lies⟩, rfl, rfl⟩
      unfold addToHistory
      rw [if_neg long, compares, same]
      rfl
  · apply added
    unfold repeatsLast
    rw [if_neg (by omega)]
    rfl

private theorem chain_cons {first second : UInt8} {rest : List UInt8} :
    [0x26, 0x26] <:+: first :: second :: rest ↔ first = 0x26 ∧ second = 0x26 ∨ [0x26, 0x26] <:+: second :: rest := by
  rw [List.infix_cons_iff, List.cons_prefix_cons, List.cons_prefix_cons]
  simp [eq_comm]

/-- The scan finds `&&` exactly where the line contains it. -/
theorem hasChain_eq {buf : InputBuffer} {line : List UInt8} {left position : Nat} (lies : TextIs buf 0 line)
    (rest : position + left + 1 = line.length) :
    hasChain buf left position = .ok (decide ([0x26, 0x26] <:+: line.drop position)) := by
  have fits := lies.fits
  induction left generalizing position with
  | zero =>
    have single : [0x26, 0x26] <:+: line.drop position → False := by
      intro inside
      have short := inside.length_le
      simp only [List.length_cons, List.length_nil, List.length_drop] at short
      omega
    rw [hasChain]
    exact congrArg _ (decide_eq_false single).symm
  | succ left ih =>
    have first := lies.bytes position (by omega)
    have second := lies.bytes (position + 1) (by omega)
    simp only [Nat.zero_add] at first second
    have next : ((position : Int) + 1) = ((position + 1 : Nat) : Int) := by omega
    have here : line.drop position = (line)[position] :: (line)[position + 1] :: line.drop (position + 2) := by
      rw [List.drop_eq_getElem_cons (by omega), List.drop_eq_getElem_cons (by omega)]
    have later : line.drop (position + 1) = (line)[position + 1] :: line.drop (position + 2) :=
      List.drop_eq_getElem_cons (by omega)
    rw [hasChain, elementAt_eq _ (by omega), next]
    simp only [bind, Except.bind]
    rw [first, elementAt_eq _ (by omega), second, ih (by omega), here, later]
    simp only [chain_cons]
    by_cases ampersand : (line)[position] = 0x26
    · by_cases both : (line)[position + 1] = 0x26 <;> simp [ampersand, both, pure, Except.pure]
    · simp [ampersand]

/-- The call for a line: chained, when it contains `&&`. -/
def lineCall (line : List UInt8) : ConsoleCall :=
  if [0x26, 0x26] <:+: line then .parseAndExecuteChained line else .consoleExecute line

/-- What Enter is to do with a line. An empty line has nothing to execute or record. -/
structure Submitted (call : Option ConsoleCall) (after : Console) (line : List UInt8) : Prop where
  executed : call = if line = [] then none else some (lineCall line)
  recorded : line ≠ [] → LastCommand after line
  emptied : LineIs after TextZipper.empty

/-- With the cursor at the start Enter does nothing. -/
theorem handleEnter_start {console : Console} (start : console.inputPos = 0) :
    handleEnter console = .ok (none, console) := by
  unfold handleEnter
  rw [if_pos (by omega)]
  rfl

/-- Elsewhere Enter submits what is before the cursor. -/
theorem handleEnter_submits {console : Console} {front back : List UInt8} (position : console.inputPos = front.length)
    (lies : TextIs console.inputBuffer 0 (front ++ back)) (held : HistoryHeld console) (typed : front ≠ []) :
    ∃ after, handleEnter console = .ok (some (lineCall front), after) ∧ HistoryHeld after ∧
      LastCommand after front ∧ LineIs after TextZipper.empty := by
  have fits := lies.fits
  have clean := lies.clean
  simp only [List.length_append, List.mem_append, not_or] at fits clean
  have long : 0 < front.length := List.length_pos_iff.mpr typed
  have cut := TextIs.truncate lies (by omega)
  obtain ⟨recorded, records, keeps, last, sameBuffer, samePos⟩ :=
    @addToHistory_records
      { console with inputBuffer := Function.update console.inputBuffer ⟨front.length, by omega⟩ 0 } _
      ⟨held.count, held.strings⟩ clean.1 (by omega) typed
  have scan := @hasChain_eq _ _ (front.length - 1) 0 cut (by omega)
  have count : ((front.length : Int) - 1).toNat = front.length - 1 := by omega
  have first : (0 : Nat) < maxInputLen := by decide
  simp only [List.drop_zero, Nat.cast_zero] at scan
  unfold handleEnter
  rw [if_neg (by omega)]
  simp only [bind, Except.bind]
  have marks : setElement console.inputBuffer console.inputPos 0 =
      .ok (Function.update console.inputBuffer ⟨front.length, by omega⟩ 0) := by
    rw [position, setElement_eq _ (by omega)]
  rw [marks]
  simp only
  rw [cut.ok]
  simp only
  rw [records]
  simp only
  rw [samePos, position, count, scan]
  simp only [pure, Except.pure, lineCall, decide_eq_true_eq]
  rw [show (0 : Int) = ((0 : Nat) : Int) from rfl, setElement_eq _ first]
  refine ⟨_, rfl, ⟨keeps.count, keeps.strings⟩, last, empty_lies first ?_, rfl⟩
  simp

/-- What holds of the console between two keys. -/
structure ConsoleHeld (console : Console) : Prop where
  line : ∃ zipper : TextZipper UInt8 (maxInputLen - 1), LineIs console zipper
  history : HistoryHeld console

/-- An entry of the history becomes the line, with the cursor at its end. -/
theorem showHistory_held {console : Console} (held : ConsoleHeld console) :
    ∃ after, showHistory console = .ok after ∧ ConsoleHeld after := by
  obtain ⟨count, bound, counted⟩ := held.history.count
  unfold showHistory
  by_cases shown : 0 ≤ console.historyPos ∧ console.historyPos < console.historyCount
  · obtain ⟨entry, place⟩ : ∃ entry : Nat, console.historyPos = entry := ⟨console.historyPos.toNat, by omega⟩
    obtain ⟨found, lies⟩ := held.history.strings ⟨entry, by omega⟩
    have fits := lies.fits
    obtain ⟨after, copies, copied⟩ := lies.copies console.inputBuffer (by omega)
    rw [if_pos shown, place, elementAt_eq _ (by omega)]
    simp only [bind, Except.bind]
    rw [copies]
    simp only
    rw [strLen_eq lies (by decide)]
    have room : found.reverse.length + ([] : List UInt8).length ≤ maxInputLen - 1 := by
      simp only [List.length_reverse, List.length_nil]
      omega
    refine ⟨_, rfl, ⟨⟨found.reverse, [], room⟩, ?_, ?_⟩, held.history.count, held.history.strings⟩
    · simpa [TextZipper.text] using copied.lies lies.clean
    · simp [TextZipper.position]
  · rw [if_neg shown]
    exact ⟨console, rfl, held⟩

/-- Cutting the line off at the cursor leaves a line. -/
theorem ConsoleHeld.cut {console : Console} (held : ConsoleHeld console) :
    ∃ inputBuffer, setElement console.inputBuffer console.inputPos 0 = .ok inputBuffer ∧
      ConsoleHeld { console with inputBuffer } := by
  obtain ⟨zipper, line⟩ := held.line
  have fits := zipper.fits
  have size : maxInputLen = 256 := rfl
  have inside : zipper.before.length < maxInputLen := by omega
  have cut := TextIs.truncate line.split (by simpa using inside)
  simp only [List.length_reverse] at cut
  have room : zipper.before.length + ([] : List UInt8).length ≤ maxInputLen - 1 := by
    rw [List.length_nil]
    omega
  refine ⟨Function.update console.inputBuffer ⟨zipper.before.length, inside⟩ 0, ?_, ⟨⟨zipper.before, [], room⟩, ?_, ?_⟩,
    held.history.count, held.history.strings⟩
  · rw [line.position]
    exact setElement_eq _ inside _
  · simpa [TextZipper.text] using cut
  · exact line.position

theorem handleUp_held {console : Console} (held : ConsoleHeld console) :
    ∃ after, handleUp console = .ok after ∧ ConsoleHeld after := by
  obtain ⟨cut, cuts, kept⟩ := held.cut
  have shows (inputBuffer : InputBuffer) (kept : ConsoleHeld { console with inputBuffer }) :
      ∃ after, (if console.historyPos < console.historyCount - 1 then
          showHistory { console with inputBuffer, historyPos := console.historyPos + 1 }
        else .ok { console with inputBuffer }) = .ok after ∧ ConsoleHeld after := by
    split
    · obtain ⟨zipper, line⟩ := kept.line
      exact showHistory_held ⟨⟨zipper, line.text, line.position⟩, kept.history.count, kept.history.strings⟩
    · exact ⟨_, rfl, kept⟩
  unfold handleUp
  split
  next =>
    rw [cuts]
    exact shows cut kept
  next => exact shows console.inputBuffer held

theorem handleDown_held {console : Console} (held : ConsoleHeld console) :
    ∃ after, handleDown console = .ok after ∧ ConsoleHeld after := by
  obtain ⟨zipper, line⟩ := held.line
  unfold handleDown
  split
  next =>
    exact showHistory_held ⟨⟨zipper, line.text, line.position⟩, held.history.count, held.history.strings⟩
  next =>
    split
    next =>
      have emptied := (clear_edits console).line
      exact ⟨_, rfl, ⟨TextZipper.empty, emptied.text, emptied.position⟩, held.history.count, held.history.strings⟩
    next => exact ⟨console, rfl, held⟩

theorem handleEnter_held {console : Console} (held : ConsoleHeld console) :
    ∃ call after, handleEnter console = .ok (call, after) ∧ ConsoleHeld after := by
  obtain ⟨zipper, line⟩ := held.line
  by_cases start : zipper.before = []
  · have front : console.inputPos = 0 := by rw [line.position, TextZipper.position, start]; rfl
    exact ⟨none, console, handleEnter_start front, held⟩
  · obtain ⟨after, enters, keeps, last, emptied⟩ :=
      handleEnter_submits (by simpa [TextZipper.position] using line.position) line.split held.history
        (by simpa using start)
    exact ⟨_, after, enters, ⟨_, emptied⟩, keeps⟩

/-- A key, and who has the keyboard when it comes. -/
structure KeyPress where
  guiRunning : Bool
  inKedit : Bool
  key : Int

/-- The keys that reach the line: those that edit it, Enter, and those of the history. -/
def KeyPress.Reaches (press : KeyPress) : Prop :=
  press.guiRunning = false → press.inKedit = false →
    EditingKey press.key ∨ press.key ∈ [keyEnter, keyUp, keyDown]

def runPresses (console : Console) : List KeyPress → Except Stop Console
  | [] => .ok console
  | press :: presses => do
    let (_, console) ← consoleHandleKey press.guiRunning press.inKedit press.key console
    runPresses console presses

theorem consoleHandleKey_held {console : Console} (held : ConsoleHeld console) {press : KeyPress}
    (reaches : press.Reaches) :
    ∃ call after, consoleHandleKey press.guiRunning press.inKedit press.key console = .ok (call, after) ∧
      ConsoleHeld after := by
  obtain ⟨guiRunning, inKedit, key⟩ := press
  cases guiRunning
  case true => exact ⟨none, console, rfl, held⟩
  case false =>
    cases inKedit
    case true => exact ⟨_, console, rfl, held⟩
    case false =>
      rcases reaches rfl rfl with editing | other
      · obtain ⟨zipper, line⟩ := held.line
        obtain ⟨after, handles, edited⟩ := consoleHandleKey_edits line editing
        refine ⟨none, after, handles, ⟨_, edited.line⟩, ?_, ?_⟩
        · rw [edited.count]
          exact held.history.count
        · rw [edited.history]
          exact held.history.strings
      · simp only [List.mem_cons, List.not_mem_nil, or_false] at other
        rcases other with rfl | rfl | rfl
        · exact handleEnter_held held
        · obtain ⟨after, handles, kept⟩ := handleUp_held held
          refine ⟨none, after, ?_, kept⟩
          change (handleUp console >>= fun console => pure (none, console)) = _
          rw [handles]
          rfl
        · obtain ⟨after, handles, kept⟩ := handleDown_held held
          refine ⟨none, after, ?_, kept⟩
          change (handleDown console >>= fun console => pure (none, console)) = _
          rw [handles]
          rfl

/-- Every sequence of keys returns, and leaves a line and a history. -/
theorem runPresses_held {console : Console} (held : ConsoleHeld console) (presses : List KeyPress)
    (reach : ∀ press ∈ presses, press.Reaches) :
    ∃ after, runPresses console presses = .ok after ∧ ConsoleHeld after := by
  induction presses generalizing console with
  | nil => exact ⟨console, rfl, held⟩
  | cons press presses ih =>
    obtain ⟨call, middle, handles, kept⟩ := consoleHandleKey_held held (reach press List.mem_cons_self)
    obtain ⟨after, runs, final⟩ := ih kept fun press member => reach press (List.mem_cons_of_mem _ member)
    refine ⟨after, ?_, final⟩
    rw [runPresses, handles]
    exact runs

theorem freshConsole_held : ConsoleHeld freshConsole := by
  refine ⟨⟨TextZipper.empty, empty_lies (by decide) rfl, rfl⟩, ⟨0, Nat.zero_le _, rfl⟩, fun entry => ⟨[], ?_⟩⟩
  exact empty_lies (by decide) rfl

/-- Enter submits the whole line exactly with the cursor at its end. -/
theorem handleEnter_iff {console : Console} {zipper : TextZipper UInt8 (maxInputLen - 1)} (line : LineIs console zipper)
    (held : HistoryHeld console) :
    ∃ call after, handleEnter console = .ok (call, after) ∧
      (Submitted call after zipper.text ↔ console.inputPos = zipper.text.length) := by
  have position := line.position
  have whole : console.inputPos = zipper.text.length ↔ zipper.after = [] := by
    rw [← zipper.position_eq_length, position]
    exact Int.ofNat_inj
  rw [whole]
  by_cases start : zipper.before = []
  · have front : console.inputPos = 0 := by rw [position, TextZipper.position, start]; rfl
    have shown : zipper.text = zipper.after := by rw [TextZipper.text, start]; rfl
    refine ⟨none, console, handleEnter_start front, ?_, ?_⟩
    · intro submitted
      by_contra more
      have executed := submitted.executed
      rw [shown, if_neg more] at executed
      cases executed
    · intro nothing
      rw [shown, nothing]
      refine ⟨rfl, fun typed => absurd rfl typed, ?_, front⟩
      have lies := line.text
      rw [shown, nothing] at lies
      exact lies
  · obtain ⟨after, enters, keeps, last, emptied⟩ :=
      handleEnter_submits (by simpa [TextZipper.position] using position) line.split held (by simpa using start)
    have typed : zipper.text ≠ [] := by simp [TextZipper.text, start]
    refine ⟨_, after, enters, ?_, ?_⟩
    · intro submitted
      have executed := submitted.executed
      rw [if_neg typed] at executed
      have same : zipper.before.reverse = zipper.text := by
        have calls := Option.some.inj executed
        unfold lineCall at calls
        split at calls <;> split at calls <;> simp_all
      simpa [TextZipper.text] using same
    · intro nothing
      have shown : zipper.text = zipper.before.reverse := by rw [TextZipper.text, nothing, List.append_nil]
      rw [shown] at typed ⊢
      exact ⟨(if_neg typed).symm, fun _ => last, emptied⟩

/-- Whatever keys come before it, Enter executes the line that the buffer holds,
records it and empties it exactly when the cursor stands at its end. -/
theorem entered_line_iff (presses : List KeyPress) (reach : ∀ press ∈ presses, press.Reaches) :
    ∃ console line, runPresses freshConsole presses = .ok console ∧ TextIs console.inputBuffer 0 line ∧
      ∃ call after, consoleHandleKey false false keyEnter console = .ok (call, after) ∧
        (Submitted call after line ↔ console.inputPos = line.length) := by
  obtain ⟨console, runs, held⟩ := runPresses_held freshConsole_held presses reach
  obtain ⟨zipper, line⟩ := held.line
  obtain ⟨call, after, enters, submits⟩ := handleEnter_iff line held.history
  exact ⟨console, zipper.text, runs, line.text, call, after, enters, submits⟩

/-- Keys for the line, while neither the GUI nor the editor runs. -/
def typed (keys : List Int) : List KeyPress := keys.map fun key => ⟨false, false, key⟩

theorem runPresses_typed (console : Console) (keys : List Int) :
    runPresses console (typed keys) = pressKeys console keys := by
  induction keys generalizing console with
  | nil => rfl
  | cons key keys ih =>
    change (consoleHandleKey false false key console >>= fun result => runPresses result.2 (typed keys)) =
      (consoleHandleKey false false key console >>= fun result => pressKeys result.2 keys)
    congr 1
    funext result
    exact ih result.2

/-- After "a&&b" the cursor stands at the end. -/
theorem entered_line_iff_chained :
    ∃ console line, runPresses freshConsole (typed [0x61, 0x26, 0x26, 0x62]) = .ok console ∧
      TextIs console.inputBuffer 0 line ∧ ∃ call after,
        consoleHandleKey false false keyEnter console = .ok (call, after) ∧
        (Submitted call after line ↔ console.inputPos = line.length) :=
  entered_line_iff (typed [0x61, 0x26, 0x26, 0x62]) (by simp [typed, KeyPress.Reaches, EditingKey])

/-- After "ab" and one step to the left Enter executes "a". -/
theorem entered_line_cut :
    ∃ console call after, runPresses freshConsole (typed [0x61, 0x62, keyLeft]) = .ok console ∧
      TextIs console.inputBuffer 0 [0x61, 0x62] ∧ consoleHandleKey false false keyEnter console = .ok (call, after) ∧
      call = some (.consoleExecute [0x61]) ∧ ¬Submitted call after [0x61, 0x62] := by
  have empty : LineIs freshConsole TextZipper.empty := ⟨empty_lies (by decide) rfl, rfl⟩
  obtain ⟨console, presses, edited⟩ := pressKeys_edits empty [0x61, 0x62, keyLeft] (by simp [EditingKey, keyLeft])
  have held : HistoryHeld console := by
    refine ⟨?_, ?_⟩
    · rw [edited.count]
      exact freshConsole_held.history.count
    · rw [edited.history]
      exact freshConsole_held.history.strings
  have line := edited.line
  obtain ⟨after, enters, _⟩ := @handleEnter_submits _ [0x61] _ line.position line.split held (by decide)
  refine ⟨console, _, after, ?_, line.text, enters, rfl, ?_⟩
  · rw [runPresses_typed]
    exact presses
  · intro submitted
    have executed := submitted.executed
    revert executed
    decide

end Kernix.Proofs
