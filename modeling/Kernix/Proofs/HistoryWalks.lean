import Kernix.Lib.Pieces
import Kernix.Proofs.EnteredLines
import Mathlib.Data.List.GetD

/-! The history keeps the last fifty commands, the oldest in front. Up walks from the front
to the back, as if the newest were in front. -/

namespace Kernix.Proofs
open History

variable {console after : Console} {history : List (List UInt8)} {line : List UInt8}

/-- The first entries of the history hold the commands. -/
structure HistoryIs (console : Console) (history : List (List UInt8)) : Prop where
  fits : history.length ≤ maxHistory
  count : console.historyCount = history.length
  entries : ∀ index (inside : index < history.length),
    TextIs (console.commandHistory ⟨index, inside.trans_le fits⟩) 0 history[index]

/-- The line in the buffer, with the cursor at its end. -/
structure ShowsLine (console : Console) (line : List UInt8) : Prop where
  text : TextIs console.inputBuffer 0 line
  position : console.inputPos = line.length

section Records

theorem HistoryIs.same (holds : HistoryIs console history) (entries : after.commandHistory = console.commandHistory)
    (count : after.historyCount = console.historyCount) : HistoryIs after history := by
  refine ⟨holds.fits, count.trans holds.count, ?_⟩
  rw [entries]
  exact holds.entries

/-- The last entry is the one that a command is compared with. -/
theorem repeatsLast_eq (holds : HistoryIs console history) (line : List UInt8) :
    repeatsLast console line = .ok (decide (history.getLast? = some line)) := by
  have count := holds.count
  unfold repeatsLast
  obtain rfl | ⟨front, last, rfl⟩ := history.eq_nil_or_concat'
  · rw [if_neg (by rw [count, List.length_nil]; omega)]
    rfl
  · rw [List.length_append, List.length_singleton] at count
    have inside : front.length < (front ++ [last]).length := by simp
    have room := inside.trans_le holds.fits
    have place : console.historyCount - 1 = (front.length : Nat) := by omega
    have lies := holds.entries front.length inside
    rw [List.getElem_append_right (Nat.le_refl _)] at lies
    simp only [Nat.sub_self, List.getElem_singleton] at lies
    rw [if_pos (by omega), place, elementAt_eq _ room]
    simp only [bind, Except.bind, lies.ok, pure, Except.pure, List.getLast?_concat, Option.some.injEq]
    by_cases same : last = line
    · rw [decide_eq_true same, (strEquals_iff last line).mpr same]
    · rw [decide_eq_false same, Bool.eq_false_iff.mpr (mt (strEquals_iff last line).mp same)]

/-- Each entry moves to the place in front of it. -/
theorem shiftHistory_moves (shown : Nat → List UInt8) (commandHistory : Fin maxHistory → InputBuffer) (left place : Nat)
    (inside : place + left < maxHistory)
    (entries : ∀ index (bound : index < maxHistory), place < index → index ≤ place + left →
      TextIs (commandHistory ⟨index, bound⟩) 0 (shown index)) :
    ∃ moved, shiftHistory commandHistory left (place + 1) = .ok moved ∧
      (∀ index (bound : index < maxHistory), place ≤ index → index < place + left →
        TextIs (moved ⟨index, bound⟩) 0 (shown (index + 1))) ∧
      ∀ index : Fin maxHistory, index.val < place → moved index = commandHistory index := by
  induction left generalizing commandHistory place with
  | zero => exact ⟨commandHistory, rfl, fun index bound low high => absurd high (by omega), fun _ _ => rfl⟩
  | succ left ih =>
    have lies := entries (place + 1) (by omega) (by omega) (by omega)
    have here : place < maxHistory := by omega
    obtain ⟨copied, copies, copy⟩ := lies.copies (commandHistory ⟨place, here⟩) (by simpa using lies.fits)
    obtain ⟨moved, shifts, behind, front⟩ := ih (Function.update commandHistory ⟨place, here⟩ copied)
      (place + 1) (by omega)
      (by
        intro index bound low high
        rw [Function.update_of_ne (by simp only [ne_eq, Fin.ext_iff]; omega)]
        exact entries index bound (by omega) (by omega))
    refine ⟨moved, ?_, ?_, ?_⟩
    · have before : ((place + 1 : Nat) : Int) - 1 = (place : Nat) := by omega
      rw [shiftHistory, before, elementAt_eq _ (by omega), elementAt_eq _ here]
      simp only [bind, Except.bind, copies, setElement_eq _ here]
      exact shifts
    · intro index bound low high
      obtain rfl | later := Nat.eq_or_lt_of_le low
      · rw [front _ (Nat.lt_succ_self _), Function.update_self]
        exact copy.lies lies.clean
      · exact behind index bound later (by omega)
    · intro index early
      rw [front index (by omega)]
      exact Function.update_of_ne (by simp only [ne_eq, Fin.ext_iff]; omega) _ _

/-- A command is recorded behind the others, unless it is the last one again. -/
theorem addToHistory_is (holds : HistoryIs console history) (clean : 0 ∉ line) (short : line.length < maxInputLen)
    (nonempty : line ≠ []) :
    ∃ after, addToHistory console line = .ok after ∧ HistoryIs after (History.record maxHistory history line) := by
  have fits := holds.fits
  have count := holds.count
  unfold addToHistory History.record
  rw [if_neg (by simpa using nonempty), repeatsLast_eq holds]
  simp only [bind, Except.bind]
  by_cases again : history.getLast? = some line
  · rw [if_pos (decide_eq_true again), if_pos again]
    exact ⟨console, rfl, holds⟩
  rw [if_neg (by simpa using again), if_neg again]
  have put {commandHistory : Fin maxHistory → InputBuffer} {kept : List (List UInt8)} (room : kept.length < maxHistory)
      (entries : ∀ index (inside : index < kept.length),
        TextIs (commandHistory ⟨index, inside.trans room⟩) 0 kept[index]) :
      ∃ recorded, recordCommand commandHistory kept.length line = .ok recorded ∧
        HistoryIs { console with commandHistory := recorded, historyCount := (kept.length : Int) + 1 }
          (kept ++ [line]) := by
    obtain ⟨copied, records, lies⟩ := recordCommand_records commandHistory ⟨kept.length, room⟩ clean short
    refine ⟨_, records, by simpa using Nat.succ_le_of_lt room, by simp, ?_⟩
    intro index inside
    dsimp only
    rw [List.length_append, List.length_singleton] at inside
    by_cases last : index = kept.length
    · subst last
      rw [List.getElem_append_right (Nat.le_refl _), Function.update_self]
      simpa using lies
    · rw [List.getElem_append_left (by omega), Function.update_of_ne (by simpa [Fin.ext_iff] using last)]
      exact entries index (by omega)
  by_cases room : history.length < maxHistory
  · obtain ⟨recorded, records, holds'⟩ := put room holds.entries
    rw [if_pos (by omega), count, records, Pieces.rtake_of_length_le (by simpa using Nat.succ_le_of_lt room)]
    exact ⟨_, rfl, holds'⟩
  · have full : history.length = maxHistory := by omega
    obtain ⟨moved, shifts, behind, _⟩ := shiftHistory_moves (fun index => history.getD index []) console.commandHistory
      (maxHistory - 1) 0 (by decide) (by
        intro index bound _ _
        rw [List.getD_eq_getElem _ _ (by omega)]
        exact holds.entries index (by omega))
    have tail : history.tail.length = maxHistory - 1 := by rw [List.length_tail, full]
    obtain ⟨recorded, records, holds'⟩ := @put moved history.tail (by rw [tail]; decide) (by
      intro index inside
      have lies := behind index (by omega) (Nat.zero_le _) (by omega)
      rw [List.getD_eq_getElem _ _ (by omega)] at lies
      rwa [List.getElem_tail])
    rw [tail] at records holds'
    rw [if_neg (by omega), shifts, show ((maxHistory : Int) - 1) = ((maxHistory - 1 : Nat) : Int) by decide]
    simp only [records]
    rw [Pieces.rtake_concat_full full (by decide)]
    exact ⟨_, rfl, holds'.same rfl (by rw [count, full]; rfl)⟩

end Records

section Runs

/-- The lines that Enter has executed. -/
def commandLines : Option ConsoleCall → List (List UInt8)
  | some (.consoleExecute line) => [line]
  | some (.parseAndExecuteChained line) => [line]
  | _ => []

/-- The keys of `runPresses`, with the lines that they execute. -/
def runCommands (console : Console) : List KeyPress → Except Stop (List (List UInt8) × Console)
  | [] => .ok ([], console)
  | press :: presses => do
    let (call, console) ← consoleHandleKey press.guiRunning press.inKedit press.key console
    let (lines, console) ← runCommands console presses
    return (commandLines call ++ lines, console)

/-- What the history holds of some lines. -/
def historyOf (lines : List (List UInt8)) : List (List UInt8) := remembered maxHistory (lines.filter (· ≠ []))

/-- The place in the history is in front of it, or inside. -/
def PlaceHeld (console : Console) (history : List (List UInt8)) : Prop :=
  console.historyPos = -1 ∨ 0 ≤ console.historyPos ∧ console.historyPos < history.length

/-- The history between two keys, after the lines that were executed. -/
structure Recorded (console : Console) (lines : List (List UInt8)) : Prop where
  held : ConsoleHeld console
  history : HistoryIs console (historyOf lines) ∧ PlaceHeld console (historyOf lines)

theorem Recorded.holds {lines : List (List UInt8)} (recorded : Recorded console lines) :
    HistoryIs console (historyOf lines) :=
  recorded.history.1

theorem Recorded.place {lines : List (List UInt8)} (recorded : Recorded console lines) :
    PlaceHeld console (historyOf lines) :=
  recorded.history.2

theorem historyOf_concat {lines : List (List UInt8)} (nonempty : line ≠ []) :
    historyOf (lines ++ [line]) = History.record maxHistory (historyOf lines) line := by
  unfold historyOf
  rw [List.filter_append, List.filter_cons_of_pos (by simpa using nonempty), List.filter_nil]
  exact remembered_concat (by decide) _ _

theorem insertChar_keeps {char : UInt8} (inserts : insertChar console char = .ok after) :
    after.historyPos = console.historyPos := by
  unfold insertChar at inserts
  obtain ⟨length, _, inserts⟩ := bind_ok inserts
  split at inserts
  · obtain ⟨shifted, _, inserts⟩ := bind_ok inserts
    obtain ⟨put, _, inserts⟩ := bind_ok inserts
    cases inserts
    rfl
  · cases inserts
    rfl

theorem insertChars_keeps {char : UInt8} {count : Nat} (inserts : insertChars char count console = .ok after) :
    after.historyPos = console.historyPos := by
  induction count generalizing console with
  | zero =>
    cases inserts
    rfl
  | succ count ih =>
    obtain ⟨middle, first, rest⟩ := bind_ok inserts
    exact (ih rest).trans (insertChar_keeps first)

theorem handleBackspace_keeps (erases : handleBackspace console = .ok after) : after.historyPos = console.historyPos := by
  unfold handleBackspace at erases
  split at erases
  · obtain ⟨shifted, _, erases⟩ := bind_ok erases
    cases erases
    rfl
  · cases erases
    rfl

/-- A key that edits the line leaves the place in the history, or leaves the history. -/
theorem handleLineKey_place {key : Int} (editing : EditingKey key) (handles : handleLineKey key console = .ok after) :
    after.historyPos = console.historyPos ∨ after.historyPos = -1 := by
  rcases editing with ⟨low, high⟩ | control
  · rw [handleLineKey_char console low high] at handles
    exact Or.inr (insertChar_keeps handles)
  · left
    simp only [List.mem_cons, List.not_mem_nil, or_false] at control
    rcases control with rfl | rfl | rfl | rfl | rfl | rfl | rfl
    · exact handleBackspace_keeps handles
    · rw [handleLineKey_tab] at handles
      exact insertChars_keeps handles
    · cases handles
      rfl
    · cases handles
      split <;> rfl
    · rw [handleLineKey_right] at handles
      obtain ⟨length, _, moves⟩ := bind_ok handles
      cases moves
      split <;> rfl
    · cases handles
      rfl
    · rw [handleLineKey_end] at handles
      obtain ⟨length, _, moves⟩ := bind_ok handles
      cases moves
      rfl

/-- What Enter leaves of the history is what recording leaves. -/
theorem handleEnter_history {call : ConsoleCall} (enters : handleEnter console = .ok (some call, after)) :
    ∃ inputBuffer recorded line, addToHistory { console with inputBuffer } line = .ok recorded ∧
      TextIs inputBuffer 0 line ∧ commandLines (some call) = [line] ∧ after.commandHistory = recorded.commandHistory ∧
      after.historyCount = recorded.historyCount ∧ after.historyPos = -1 := by
  unfold handleEnter at enters
  split at enters
  · cases enters
  · obtain ⟨inputBuffer, _, enters⟩ := bind_ok enters
    obtain ⟨line, finds, enters⟩ := bind_ok enters
    obtain ⟨recorded, records, enters⟩ := bind_ok enters
    obtain ⟨chained, _, enters⟩ := bind_ok enters
    obtain ⟨emptied, _, enters⟩ := bind_ok enters
    cases enters
    refine ⟨inputBuffer, recorded, line, records, textAt_ok finds, ?_, rfl, rfl, rfl⟩
    cases chained <;> rfl

theorem commandLines_lineCall (line : List UInt8) : commandLines (some (lineCall line)) = [line] := by
  unfold lineCall
  split <;> rfl

variable {lines : List (List UInt8)}

theorem Recorded.enter (recorded : Recorded console lines) :
    ∃ call after, handleEnter console = .ok (call, after) ∧ Recorded after (lines ++ commandLines call) := by
  obtain ⟨zipper, shown⟩ := recorded.held.line
  by_cases start : zipper.before = []
  · have front : console.inputPos = 0 := by
      rw [shown.position, TextZipper.position, start]
      rfl
    refine ⟨none, console, handleEnter_start front, ?_⟩
    show Recorded console (lines ++ [])
    rwa [List.append_nil]
  · have typed : zipper.before.reverse ≠ [] := by simpa using start
    obtain ⟨after, enters, keeps, _, emptied⟩ := handleEnter_submits
      (by simpa [TextZipper.position] using shown.position) shown.split recorded.held.history typed
    obtain ⟨inputBuffer, added, line, adds, lies, same, entries, count, place⟩ := handleEnter_history enters
    rw [commandLines_lineCall] at same
    obtain rfl := List.cons.inj same |>.1
    have held : HistoryIs { console with inputBuffer } (historyOf lines) := recorded.holds.same rfl rfl
    obtain ⟨after', adds', holds⟩ := addToHistory_is held lies.clean (by simpa using lies.fits) typed
    cases adds.symm.trans adds'
    refine ⟨_, after, enters, ⟨⟨_, emptied⟩, keeps⟩, ?_, Or.inl place⟩
    rw [commandLines_lineCall, historyOf_concat typed]
    exact holds.same entries count

theorem showHistory_keeps (shows : showHistory console = .ok after) :
    after.commandHistory = console.commandHistory ∧ after.historyCount = console.historyCount ∧
      after.historyPos = console.historyPos := by
  unfold showHistory at shows
  split at shows
  · obtain ⟨cmd, _, shows⟩ := bind_ok shows
    obtain ⟨copied, _, shows⟩ := bind_ok shows
    obtain ⟨length, _, shows⟩ := bind_ok shows
    cases shows
    exact ⟨rfl, rfl, rfl⟩
  · cases shows
    exact ⟨rfl, rfl, rfl⟩

theorem handleUp_eq (console : Console) : handleUp console =
    (if console.historyPos = -1 then setElement console.inputBuffer console.inputPos 0 else .ok console.inputBuffer) >>=
      fun inputBuffer =>
        if console.historyPos < console.historyCount - 1 then
          showHistory { console with inputBuffer, historyPos := console.historyPos + 1 }
        else .ok { console with inputBuffer } := by
  unfold handleUp
  split <;> rfl

theorem consoleHandleKey_up (ups : handleUp console = .ok after) :
    consoleHandleKey false false keyUp console = .ok (none, after) := by
  change (handleUp console >>= fun console => pure (none, console)) = _
  rw [ups]
  rfl

theorem consoleHandleKey_down (downs : handleDown console = .ok after) :
    consoleHandleKey false false keyDown console = .ok (none, after) := by
  change (handleDown console >>= fun console => pure (none, console)) = _
  rw [downs]
  rfl

theorem Recorded.up (recorded : Recorded console lines) :
    ∃ after, handleUp console = .ok after ∧ Recorded after lines := by
  obtain ⟨after, ups, held⟩ := handleUp_held recorded.held
  have count := recorded.holds.count
  have place := recorded.place
  refine ⟨after, ups, held, ?_⟩
  rw [handleUp_eq] at ups
  obtain ⟨inputBuffer, _, ups⟩ := bind_ok ups
  split at ups
  · obtain ⟨entries, counted, placed⟩ := showHistory_keeps ups
    refine ⟨recorded.holds.same entries counted, ?_⟩
    unfold PlaceHeld at place ⊢
    dsimp only at placed
    omega
  · cases ups
    exact ⟨recorded.holds.same rfl rfl, place⟩

theorem Recorded.down (recorded : Recorded console lines) :
    ∃ after, handleDown console = .ok after ∧ Recorded after lines := by
  obtain ⟨after, downs, held⟩ := handleDown_held recorded.held
  have place := recorded.place
  refine ⟨after, downs, held, ?_⟩
  unfold handleDown at downs
  split at downs
  · obtain ⟨entries, counted, placed⟩ := showHistory_keeps downs
    refine ⟨recorded.holds.same entries counted, ?_⟩
    unfold PlaceHeld at place ⊢
    dsimp only at placed
    omega
  · split at downs
    · obtain ⟨inputBuffer, _, downs⟩ := bind_ok downs
      cases downs
      exact ⟨recorded.holds.same rfl rfl, Or.inl rfl⟩
    · cases downs
      exact ⟨recorded.holds, place⟩

/-- One key records the line that it executes. -/
theorem Recorded.key (recorded : Recorded console lines) {press : KeyPress} (reaches : press.Reaches) :
    ∃ call after, consoleHandleKey press.guiRunning press.inKedit press.key console = .ok (call, after) ∧
      Recorded after (lines ++ commandLines call) := by
  have kept : Recorded console (lines ++ []) := by rwa [List.append_nil]
  obtain ⟨guiRunning, inKedit, key⟩ := press
  cases guiRunning
  case true => exact ⟨none, console, rfl, kept⟩
  cases inKedit
  case true => exact ⟨_, console, rfl, kept⟩
  rcases reaches rfl rfl with editing | other
  · obtain ⟨zipper, shown⟩ := recorded.held.line
    obtain ⟨after, handles, edited⟩ := handleLineKey_edits shown editing
    have place := handleLineKey_place editing handles
    refine ⟨none, after, ?_, ⟨⟨_, edited.line⟩, ?_, ?_⟩, ?_, ?_⟩
    · simp only [consoleHandleKey, Bool.false_eq_true, if_false]
      rw [if_neg (editing_not_enter editing), handles]
      rfl
    · rw [edited.count]
      exact recorded.held.history.count
    · rw [edited.history]
      exact recorded.held.history.strings
    · exact kept.holds.same edited.history edited.count
    · have before := kept.place
      unfold PlaceHeld at before ⊢
      obtain same | front := place
      · rwa [same]
      · exact Or.inl front
  · simp only [List.mem_cons, List.not_mem_nil, or_false] at other
    rcases other with rfl | rfl | rfl
    · exact recorded.enter
    · obtain ⟨after, handles, kept'⟩ := kept.up
      exact ⟨none, after, consoleHandleKey_up handles, kept'⟩
    · obtain ⟨after, handles, kept'⟩ := kept.down
      exact ⟨none, after, consoleHandleKey_down handles, kept'⟩

/-- Whatever keys come, the history is that of the lines that were executed. -/
theorem Recorded.run (recorded : Recorded console lines) (presses : List KeyPress)
    (reach : ∀ press ∈ presses, press.Reaches) :
    ∃ more after, runCommands console presses = .ok (more, after) ∧ Recorded after (lines ++ more) := by
  induction presses generalizing console lines with
  | nil => exact ⟨[], console, rfl, by rwa [List.append_nil]⟩
  | cons press presses ih =>
    obtain ⟨call, middle, handles, kept⟩ := recorded.key (reach press List.mem_cons_self)
    obtain ⟨more, after, runs, final⟩ := ih kept fun press member => reach press (List.mem_cons_of_mem _ member)
    rw [List.append_assoc] at final
    refine ⟨commandLines call ++ more, after, ?_, final⟩
    rw [runCommands, handles]
    simp only [bind, Except.bind, runs]
    rfl

theorem freshConsole_recorded : Recorded freshConsole [] :=
  ⟨freshConsole_held, ⟨Nat.zero_le _, rfl, fun index inside => absurd inside (Nat.not_lt_zero index)⟩, Or.inl rfl⟩

end Runs

section Walks

/-- The line is an entry of the history, and the place is that of the entry. -/
structure At (console : Console) (history : List (List UInt8)) (place : Nat) : Prop where
  holds : HistoryIs console history
  inside : place < history.length
  placed : console.historyPos = place
  shows : ShowsLine console history[place]

theorem showHistory_shows (holds : HistoryIs console history) {place : Nat} (inside : place < history.length)
    (inputBuffer : InputBuffer) (inputPos : Int) :
    ∃ after, showHistory { console with inputBuffer, inputPos, historyPos := place } = .ok after ∧
      At after history place := by
  have lies := holds.entries place inside
  have fits := lies.fits
  have room := inside.trans_le holds.fits
  obtain ⟨copied, copies, copy⟩ := lies.copies inputBuffer (by omega)
  unfold showHistory
  rw [if_pos ⟨by simp, by simp only [holds.count]; omega⟩, elementAt_eq _ room]
  simp only [bind, Except.bind, copies, strLen_eq lies (by decide)]
  exact ⟨_, rfl, holds.same rfl rfl, inside, rfl, copy.lies lies.clean, rfl⟩

/-- Up goes to the entry behind the place. -/
theorem handleUp_shows (holds : HistoryIs console history) {place : Nat} (inside : place < history.length)
    (placed : console.historyPos = (place : Int) - 1) (cursor : console.historyPos = -1 → console.inputPos = 0) :
    ∃ after, handleUp console = .ok after ∧ At after history place := by
  have next : console.historyPos < console.historyCount - 1 := by
    rw [placed, holds.count]
    omega
  have here : console.historyPos + 1 = place := by omega
  rw [handleUp_eq]
  simp only [if_pos next]
  by_cases front : console.historyPos = -1
  · have cuts : setElement console.inputBuffer 0 0 = .ok (Function.update console.inputBuffer ⟨0, by decide⟩ 0) :=
      setElement_eq _ (by decide) _
    rw [if_pos front, cursor front, cuts, here]
    exact showHistory_shows holds inside _ _
  · rw [if_neg front, here]
    exact showHistory_shows holds inside _ _

/-- At the last entry Up does nothing. -/
theorem handleUp_last (holds : HistoryIs console history) (last : console.historyPos = history.length - 1)
    (nonempty : history ≠ []) : handleUp console = .ok console := by
  have some := List.length_pos_iff.mpr nonempty
  rw [handleUp_eq, if_neg (by omega)]
  exact if_neg (by rw [last, holds.count]; omega)

/-- Down goes to the entry in front of the place. -/
theorem handleDown_shows {place : Nat} (stands : At console history (place + 1)) :
    ∃ after, handleDown console = .ok after ∧ At after history place := by
  have placed := stands.placed
  have inside := stands.inside
  have here : console.historyPos - 1 = place := by omega
  unfold handleDown
  rw [if_pos (by omega), here]
  exact showHistory_shows stands.holds (by omega) _ _

theorem pressKeys_up (ups : handleUp console = .ok after) (keys : List Int) :
    pressKeys console (keyUp :: keys) = pressKeys after keys := by
  rw [pressKeys, consoleHandleKey_up ups]
  rfl

theorem pressKeys_down (downs : handleDown console = .ok after) (keys : List Int) :
    pressKeys console (keyDown :: keys) = pressKeys after keys := by
  rw [pressKeys, consoleHandleKey_down downs]
  rfl

/-- Up goes on to the last entry, and stays there. -/
theorem At.ups {place : Nat} (stands : At console history place) (count : Nat) :
    ∃ after, pressKeys console (List.replicate count keyUp) = .ok after ∧
      At after history (min (place + count) (history.length - 1)) := by
  have inside := stands.inside
  have placed := stands.placed
  induction count generalizing console place with
  | zero =>
    rw [show min (place + 0) (history.length - 1) = place by omega]
    exact ⟨console, rfl, stands⟩
  | succ count ih =>
    rw [List.replicate_succ]
    by_cases more : place + 1 < history.length
    · obtain ⟨next, ups, stands'⟩ := handleUp_shows stands.holds more (by omega) fun front => by omega
      obtain ⟨after, presses, stands''⟩ := ih stands' stands'.inside stands'.placed
      rw [show min (place + 1 + count) (history.length - 1) = min (place + (count + 1)) (history.length - 1) by omega]
        at stands''
      exact ⟨after, (pressKeys_up ups _).trans presses, stands''⟩
    · obtain ⟨after, presses, stands'⟩ := ih stands inside placed
      rw [show min (place + count) (history.length - 1) = min (place + (count + 1))
        (history.length - 1) by omega] at stands'
      have stays := handleUp_last stands.holds (by omega) (List.ne_nil_of_length_pos (by omega))
      exact ⟨after, (pressKeys_up stays _).trans presses, stands'⟩

theorem At.downs {place : Nat} (count : Nat) (stands : At console history (place + count)) :
    ∃ after, pressKeys console (List.replicate count keyDown) = .ok after ∧ At after history place := by
  induction count generalizing console with
  | zero => exact ⟨console, rfl, stands⟩
  | succ count ih =>
    obtain ⟨next, downs, stands'⟩ := handleDown_shows stands
    obtain ⟨after, presses, stands''⟩ := ih stands'
    exact ⟨after, (pressKeys_down downs _).trans presses, stands''⟩

/-- The command that was executed `back` commands ago, the last one for 1. -/
def recent (history : List (List UInt8)) (back : Nat) : List UInt8 := history.reverse.getD (back - 1) []

/-- Up walks to older commands, and Down back to newer ones. -/
def WalksRight (console : Console) (history : List (List UInt8)) : Prop :=
  ∀ back, 1 ≤ back → back ≤ history.length →
    ∃ up, pressKeys console (List.replicate back keyUp) = .ok up ∧ ShowsLine up (recent history back) ∧
      ∀ forth < back, ∃ down, pressKeys up (List.replicate forth keyDown) = .ok down ∧
        ShowsLine down (recent history (back - forth))

theorem ShowsLine.unique {other : List UInt8} (first : ShowsLine console line) (second : ShowsLine console other) :
    line = other :=
  first.text.unique second.text

/-- The walk from the front, `back` places behind it. -/
theorem walk_from_front (holds : HistoryIs console history) (place : console.historyPos = -1)
    (start : console.inputPos = 0) {back : Nat} (inside : back < history.length) :
    ∃ up, pressKeys console (List.replicate (back + 1) keyUp) = .ok up ∧ At up history back := by
  obtain ⟨first, ups, stands⟩ := handleUp_shows holds (show 0 < history.length by omega) (by omega) fun _ => start
  obtain ⟨up, presses, stands'⟩ := stands.ups back
  rw [show min (0 + back) (history.length - 1) = back by omega] at stands'
  rw [List.replicate_succ]
  exact ⟨up, (pressKeys_up ups _).trans presses, stands'⟩

theorem recent_eq_getElem {back : Nat} (inside : back < history.length) :
    recent history (back + 1) = history[history.length - 1 - back] := by
  have within : back < history.reverse.length := by rwa [List.length_reverse]
  unfold recent
  rw [Nat.add_sub_cancel, List.getD_eq_getElem _ _ within, List.getElem_reverse]

/-- From the front the walk is right when the history reads the same from both ends. -/
theorem walksRight_front (holds : HistoryIs console history) (place : console.historyPos = -1)
    (start : console.inputPos = 0) : WalksRight console history ↔ history.reverse = history := by
  constructor
  · intro right
    apply List.ext_getElem (List.length_reverse ..)
    intro index _ inside
    obtain ⟨up, presses, shows, _⟩ := right (index + 1) (by omega) inside
    obtain ⟨up', presses', stands⟩ := walk_from_front holds place start inside
    cases presses.symm.trans presses'
    rw [List.getElem_reverse, ← recent_eq_getElem inside]
    exact shows.unique stands.shows
  · intro palindrome back first last
    have same {back : Nat} (inside : back < history.length) : recent history (back + 1) = history[back] := by
      rw [recent_eq_getElem inside, ← List.getElem_reverse (by rwa [List.length_reverse])]
      simp only [palindrome]
    obtain ⟨back, rfl⟩ := Nat.exists_eq_add_of_le' first
    obtain ⟨up, presses, stands⟩ := walk_from_front holds place start last
    refine ⟨up, presses, ?_, ?_⟩
    · rw [same last]
      exact stands.shows
    · intro forth before
      obtain ⟨rest, rfl⟩ := Nat.exists_eq_add_of_le (Nat.le_of_lt_succ before)
      rw [Nat.add_comm] at stands
      obtain ⟨down, presses', stands'⟩ := stands.downs
      refine ⟨down, presses', ?_⟩
      rw [show forth + rest + 1 - forth = rest + 1 by omega, same (by omega)]
      exact stands'.shows

/-- With a place in the history that an empty line was left with, Up never comes to the
first commands again. -/
theorem walksRight_inside (holds : HistoryIs console history) (different : history.IsChain (· ≠ ·))
    (nonempty : ∀ line ∈ history, line ≠ []) {place : Nat} (placed : console.historyPos = place)
    (inside : place < history.length) (empty : TextIs console.inputBuffer 0 []) : ¬WalksRight console history := by
  intro right
  by_cases more : place + 1 < history.length
  · obtain ⟨first, ups, stands⟩ := handleUp_shows holds more (by omega) fun front => by omega
    -- both the last and the last but one walk end at the last entry
    have ends (back : Nat) (far : history.length ≤ back + 2) :
        ∃ up, pressKeys console (List.replicate (back + 1) keyUp) = .ok up ∧ At up history (history.length - 1) := by
      obtain ⟨up, presses, stands'⟩ := stands.ups back
      rw [show min (place + 1 + back) (history.length - 1) = history.length - 1 by omega] at stands'
      rw [List.replicate_succ]
      exact ⟨up, (pressKeys_up ups _).trans presses, stands'⟩
    have shown (back : Nat) (far : history.length ≤ back + 2) (within : back < history.length) :
        recent history (back + 1) = history[history.length - 1] := by
      obtain ⟨up, presses, stands'⟩ := ends back far
      obtain ⟨up', presses', shows, _⟩ := right (back + 1) (by omega) within
      cases presses.symm.trans presses'
      exact shows.unique stands'.shows
    have oldest := shown (history.length - 1) (by omega) (by omega)
    have second := shown (history.length - 2) (by omega) (by omega)
    rw [recent_eq_getElem (by omega)] at oldest second
    have apart := List.isChain_iff_getElem.mp different 0 (by omega)
    apply apart
    calc history[0] = history[history.length - 1] := by
          rw [← oldest]
          congr 1
          omega
      _ = history[0 + 1] := by
          rw [← second]
          congr 1
          omega
  · obtain ⟨up, presses, shows, _⟩ := right 1 (by omega) (by omega)
    rw [List.replicate_one, pressKeys_up (handleUp_last holds (by omega)
      (List.ne_nil_of_length_pos (by omega)))] at presses
    cases presses
    have blank := shows.text.unique empty
    rw [recent_eq_getElem (by omega)] at blank
    exact nonempty _ (List.getElem_mem _) blank

end Walks

/-- Whatever keys come, the history holds the last commands, without empty ones and without
repetitions. On an empty line Up and Down walk through it as they should exactly when it
reads the same from both ends and no place in it is left from an earlier walk. -/
theorem history_walks_iff (presses : List KeyPress) (reach : ∀ press ∈ presses, press.Reaches) :
    ∃ lines console, runCommands freshConsole presses = .ok (lines, console) ∧ HistoryIs console (historyOf lines) ∧
      (TextIs console.inputBuffer 0 [] → (WalksRight console (historyOf lines) ↔
        historyOf lines = [] ∨ console.historyPos = -1 ∧ (historyOf lines).reverse = historyOf lines)) := by
  obtain ⟨lines, console, runs, recorded⟩ := freshConsole_recorded.run presses reach
  rw [List.nil_append] at recorded
  refine ⟨lines, console, runs, recorded.holds, fun empty => ?_⟩
  have start : console.inputPos = 0 := by
    obtain ⟨zipper, shown⟩ := recorded.held.line
    have short := zipper.position_le
    rw [shown.text.unique empty, List.length_nil] at short
    have position := shown.position
    omega
  obtain front | ⟨low, high⟩ := recorded.place
  · have walks := walksRight_front recorded.holds front start
    constructor
    · exact fun right => Or.inr ⟨front, walks.mp right⟩
    · rintro (none | ⟨_, palindrome⟩)
      · exact walks.mpr (by rw [none, List.reverse_nil])
      · exact walks.mpr palindrome
  · obtain ⟨place, placed⟩ := Int.eq_ofNat_of_zero_le low
    have nonempty : ∀ line ∈ historyOf lines, line ≠ [] := by
      intro line member
      simpa using (List.mem_filter.mp (mem_of_mem_remembered member)).2
    have wrong := walksRight_inside recorded.holds (isChain_remembered _) nonempty placed (by omega) empty
    constructor
    · exact fun right => absurd right wrong
    · rintro (none | ⟨front, _⟩)
      · rw [none, List.length_nil] at high
        omega
      · omega

/-- The keys of two commands of one letter. -/
def twoCommands : List KeyPress := typed [0x61, keyEnter, 0x62, keyEnter]

theorem twoCommands_reach : ∀ press ∈ twoCommands, press.Reaches := by
  simp [twoCommands, typed, KeyPress.Reaches, EditingKey, keyEnter]

theorem history_walks_iff_two :
    ∃ lines console, runCommands freshConsole twoCommands = .ok (lines, console) ∧ HistoryIs console (historyOf lines) ∧
      (TextIs console.inputBuffer 0 [] → (WalksRight console (historyOf lines) ↔
        historyOf lines = [] ∨ console.historyPos = -1 ∧ (historyOf lines).reverse = historyOf lines)) :=
  history_walks_iff twoCommands twoCommands_reach

/-- After "a" and "b" Up does not show "b". -/
theorem history_walks_backwards :
    ∃ console, runCommands freshConsole twoCommands = .ok ([[0x61], [0x62]], console) ∧
      TextIs console.inputBuffer 0 [] ∧ HistoryIs console [[0x61], [0x62]] ∧ ¬WalksRight console [[0x61], [0x62]] := by
  obtain ⟨lines, console, runs, recorded⟩ := freshConsole_recorded.run twoCommands twoCommands_reach
  have executed : (runCommands freshConsole twoCommands).map Prod.fst = .ok [[0x61], [0x62]] := rfl
  have seen : (runCommands freshConsole twoCommands).map
      (fun result => (result.2.inputBuffer 0, result.2.inputPos, result.2.historyPos)) = .ok (0, 0, -1) := rfl
  rw [runs] at executed seen
  obtain rfl := Except.ok.inj executed
  simp only [Except.map, Except.ok.injEq, Prod.mk.injEq] at seen
  obtain ⟨blank, start, front⟩ := seen
  have held : historyOf ([] ++ [[0x61], [0x62]]) = [[0x61], [0x62]] := by decide
  have holds := recorded.holds
  rw [held] at holds
  refine ⟨console, runs, empty_lies (by decide) blank, holds, ?_⟩
  rw [walksRight_front holds front start]
  decide

end Kernix.Proofs
