import Kernix.Lib.Runs
import Kernix.Proofs.LineEditing
import Kernix.Proofs.TerminalOutput

/-! What is typed into a terminal stands behind the prompt in its last row. The prompt is
made anew at each key, so that the two belong together only while the directory and the
last row stay what they were. -/

namespace Kernix.Proofs
open Pieces

variable {state after : TerminalState} {world : TerminalWorld} {lines : List TerminalLine} {line cwd : List UInt8}

/-- `cwd` without the slash at its end. -/
def shownDirectory (cwd : List UInt8) : List UInt8 :=
  if cwd.length = 0 then literal "/" else if 1 < cwd.length ∧ cwd.getLast? = some 0x2F then cwd.dropLast else cwd

/-- The text of a prompt. -/
def promptText (cwd : List UInt8) : List UInt8 :=
  user ++ literal "@" ++ host ++ literal ":" ++ shownDirectory cwd ++ literal "$ "

/-- The prompt and its terminator fit the buffers that it is made in. -/
def PromptFits (cwd : List UInt8) : Prop := (promptText cwd).length < 64

instance (cwd : List UInt8) : Decidable (PromptFits cwd) := inferInstanceAs (Decidable (_ < 64))

/-- A string that `cwd` can hold. -/
def IsDirectory (cwd : List UInt8) : Prop := 0 ∉ cwd ∧ cwd.length ≤ 255

instance (cwd : List UInt8) : Decidable (IsDirectory cwd) := inferInstanceAs (Decidable (_ ∧ _))

section Prompts

theorem mem_shownDirectory {char : UInt8} (member : char ∈ shownDirectory cwd) : char ∈ cwd ∨ char = 0x2F := by
  unfold shownDirectory at member
  split at member
  · exact Or.inr (List.mem_singleton.mp member)
  · split at member
    · exact Or.inl (List.dropLast_subset cwd member)
    · exact Or.inl member

theorem shownDirectory_clean (clean : 0 ∉ cwd) : 0 ∉ shownDirectory cwd := by
  intro zero
  obtain held | slash := mem_shownDirectory zero
  · exact clean held
  · exact absurd slash (by decide)

theorem promptText_clean (clean : 0 ∉ cwd) : 0 ∉ promptText cwd := by
  have names : 0 ∉ user ++ literal "@" ++ host ++ literal ":" := by decide
  have ends : 0 ∉ literal "$ " := by decide
  unfold promptText
  rw [List.mem_append, List.mem_append, not_or, not_or]
  exact ⟨⟨names, shownDirectory_clean clean⟩, ends⟩

theorem promptDirectory_eq (directory : IsDirectory cwd) : promptDirectory cwd = .ok (shownDirectory cwd) := by
  obtain ⟨clean, short⟩ := directory
  unfold promptDirectory shownDirectory
  by_cases empty : cwd.length = 0
  · rw [if_pos empty, if_pos empty]
    rfl
  rw [if_neg empty, if_neg empty]
  by_cases slash : 1 < cwd.length ∧ cwd.getLast? = some 0x2F
  · rw [if_pos slash, if_pos slash]
    obtain ⟨copied, copies⟩ := strCopyFrom_returns (fun _ => 0 : Fin 256 → UInt8) (show 0 + cwd.length < 256 by omega)
    have lies := (strCopyFrom_copied clean copies).lies clean
    have split := List.dropLast_append_getLast (List.ne_nil_of_length_pos (Nat.pos_of_ne_zero empty))
    rw [← split] at lies
    have length : cwd.dropLast.length = cwd.length - 1 := List.length_dropLast
    have place : (cwd.length : Int) - 1 = (cwd.dropLast.length : Nat) := by omega
    have inside : cwd.dropLast.length < 256 := by omega
    rw [strCopy, copies, place]
    simp only [bind, Except.bind, setElement_eq _ inside]
    exact (lies.truncate inside).ok
  · rw [if_neg slash, if_neg slash]
    rfl

/-- The part of a prompt that is the same in every directory. -/
def promptFront : Except Stop PromptBuffer := do
  let buffer ← strCopy (fun _ => 0) user
  let buffer ← strAppend buffer (literal "@")
  let buffer ← strAppend buffer host
  strAppend buffer (literal ":")

theorem guiGeneratePrompt_eq (cwd : List UInt8) : guiGeneratePrompt cwd = (do
    let buffer ← promptFront
    let directory ← promptDirectory cwd
    let buffer ← strAppend buffer directory
    strAppend buffer (literal "$ ")) := by
  unfold guiGeneratePrompt promptFront
  simp only [bind_assoc]

theorem promptFront_makes :
    ∃ buffer, promptFront = .ok buffer ∧ TextIs buffer 0 (user ++ literal "@" ++ host ++ literal ":") := by
  obtain ⟨named, copies⟩ := strCopyFrom_returns (fun _ => 0 : PromptBuffer) (show 0 + user.length < 64 by decide)
  have named' := (strCopyFrom_copied (by decide) copies).lies (by decide)
  obtain ⟨marked, marks, marked'⟩ := strAppend_joins named' (show 0 ∉ literal "@" by decide) (by decide)
  obtain ⟨hosted, hosts, hosted'⟩ := strAppend_joins marked' (show 0 ∉ host by decide) (by decide)
  obtain ⟨parted, parts, parted'⟩ := strAppend_joins hosted' (show 0 ∉ literal ":" by decide) (by decide)
  refine ⟨parted, ?_, parted'⟩
  unfold promptFront
  rw [strCopy, copies]
  simp only [bind, Except.bind, marks, hosts]
  exact parts

theorem length_promptText (cwd : List UInt8) : (promptText cwd).length = 12 + (shownDirectory cwd).length + 2 := by
  unfold promptText
  simp only [List.length_append]
  rfl

/-- The prompt that is made in a buffer of 64 bytes. -/
theorem guiGeneratePrompt_makes (directory : IsDirectory cwd) (fits : PromptFits cwd) :
    ∃ prompt, guiGeneratePrompt cwd = .ok prompt ∧ TextIs prompt 0 (promptText cwd) := by
  unfold PromptFits at fits
  rw [length_promptText] at fits
  obtain ⟨parted, parts, lies⟩ := promptFront_makes
  have room : 12 + (shownDirectory cwd).length < 64 := by omega
  obtain ⟨placed, places, lies'⟩ := strAppend_joins lies (shownDirectory_clean directory.1) room
  obtain ⟨prompt, ends, lies''⟩ := strAppend_joins lies' (show 0 ∉ literal "$ " by decide) (by
    rw [List.length_append]
    exact fits)
  refine ⟨prompt, ?_, lies''⟩
  rw [guiGeneratePrompt_eq, parts, promptDirectory_eq directory]
  simp only [bind, Except.bind, places]
  exact ends

/-- What does not fit behind a string is written past the end of the array. -/
theorem strAppend_long {size : Nat} {buf : Fin size → UInt8} {found source : List UInt8} (lies : TextIs buf 0 found)
    (clean : 0 ∉ source) (long : size ≤ found.length + source.length) : strAppend buf source = .error .undefined := by
  unfold strAppend
  rw [lies.ok]
  exact strCopyFrom_long buf clean long

/-- A longer prompt is written past the end of its buffer. -/
theorem guiGeneratePrompt_overflows (directory : IsDirectory cwd) (long : ¬PromptFits cwd) :
    guiGeneratePrompt cwd = .error .undefined := by
  have clean := shownDirectory_clean directory.1
  unfold PromptFits at long
  rw [length_promptText] at long
  obtain ⟨parted, parts, lies⟩ := promptFront_makes
  rw [guiGeneratePrompt_eq, parts, promptDirectory_eq directory]
  simp only [bind, Except.bind]
  by_cases room : 12 + (shownDirectory cwd).length < 64
  · obtain ⟨placed, places, lies'⟩ := strAppend_joins lies clean room
    rw [places]
    apply strAppend_long lies' (by decide)
    rw [List.length_append]
    show 64 ≤ 12 + (shownDirectory cwd).length + 2
    omega
  · rw [strAppend_long lies clean (Nat.le_of_not_lt room)]

/-- A prompt becomes the last line, and the input begins behind it. -/
theorem addPrompt_adds (shown : OutputIs state lines) (directory : IsDirectory cwd) (fits : PromptFits cwd) :
    ∃ after front, addPrompt state cwd = .ok after ∧ after.windowWidthChars = state.windowWidthChars ∧
      OutputIs after (front ++ [(promptText cwd, termColorPrompt)]) ∧ after.inputPos = (promptText cwd).length := by
  obtain ⟨prompt, makes, lies⟩ := guiGeneratePrompt_makes directory fits
  obtain ⟨added, adds, only, _, shown'⟩ := guiTerminalAddLine_adds shown (promptText_clean directory.1) termColorPrompt
  have whole : (promptText cwd).take (guiOutputCols - 1) = promptText cwd := by
    apply List.take_of_length_le
    unfold PromptFits at fits
    show _ ≤ 255
    omega
  rw [whole, show guiOutputLines = 99 + 1 from rfl, List.rtake_concat_succ] at shown'
  refine ⟨{ added with inputPos := (promptText cwd).length }, lines.rtake 99, ?_, only.width,
    ⟨shown'.fits, shown'.count, shown'.rows⟩, rfl⟩
  unfold addPrompt
  rw [makes]
  simp only [bind, Except.bind, lies.ok, adds, strLen_eq lies (by decide)]
  rfl

end Prompts

section Rows

variable {size : Nat} {buf : Fin size → UInt8} {front back : List UInt8} {rows : List TerminalLine} {color : UInt32}

/-- The end of a string is a string. -/
theorem TextIs.behind (lies : TextIs buf 0 (front ++ back)) : TextIs buf front.length back := by
  have fits := lies.fits
  have ends := lies.terminated
  have clean := lies.clean
  simp only [List.length_append, Nat.zero_add, List.mem_append, not_or] at fits ends clean
  refine ⟨fits, ?_, ends, clean.2⟩
  intro index inside
  have byte := lies.bytes (front.length + index) (by rw [List.length_append]; omega)
  rw [List.getElem_append_right (Nat.le_add_right _ _)] at byte
  simpa only [Nat.zero_add, Nat.add_sub_cancel_left] using byte

/-- A character at the end of a string, with a terminator behind it. -/
theorem TextIs.push (lies : TextIs buf 0 front) {char : UInt8} (nonzero : char ≠ 0) (here : front.length < size)
    (next : front.length + 1 < size) :
    TextIs (Function.update (Function.update buf ⟨front.length, here⟩ char) ⟨front.length + 1, next⟩ 0) 0
      (front ++ [char]) := by
  refine ⟨by simpa using next, ?_, by simp, ?_⟩
  · intro index inside
    rw [List.length_append, List.length_singleton] at inside
    rw [Function.update_of_ne (by simp only [ne_eq, Fin.ext_iff]; omega)]
    by_cases last : index = front.length
    · subst last
      simp
    · have byte := lies.bytes index (by omega)
      rw [Function.update_of_ne (by simp only [ne_eq, Fin.ext_iff]; omega), byte, List.getElem_append_left (by omega)]
  · simp only [List.mem_append, List.mem_singleton, not_or]
    exact ⟨lies.clean, nonzero.symm⟩

/-- The last row, which the keys work on. -/
theorem OutputIs.last (shown : OutputIs state (rows ++ [(line, color)])) :
    ∃ inside : rows.length < guiOutputLines, state.outputLineCount - 1 = (rows.length : Nat) ∧
      TextIs (state.outputBuffer ⟨rows.length, inside⟩) 0 line := by
  obtain ⟨inside, lies, _⟩ := shown.rows rows.length (line, color) (by simp)
  refine ⟨inside, ?_, lies⟩
  rw [shown.count, List.length_append, List.length_singleton]
  omega

/-- Another text in the last row. -/
theorem OutputIs.retype (shown : OutputIs state (rows ++ [(line, color)])) (inside : rows.length < guiOutputLines)
    {row : OutputRow} {other : List UInt8} (lies : TextIs row 0 other) (inputPos : Int) :
    OutputIs { state with inputPos, outputBuffer := Function.update state.outputBuffer ⟨rows.length, inside⟩ row }
      (rows ++ [(other, color)]) := by
  have fits := shown.fits
  have count := shown.count
  rw [List.length_append, List.length_singleton] at fits count
  refine ⟨by simpa using fits, by simpa using count, ?_⟩
  intro index found at'
  by_cases early : index < rows.length
  · rw [List.getElem?_append_left early] at at'
    obtain ⟨fits', lies', shade⟩ := shown.rows index found (by rwa [List.getElem?_append_left early])
    have apart : (⟨index, fits'⟩ : Fin guiOutputLines) ≠ ⟨rows.length, inside⟩ := by simpa [Fin.ext_iff] using early.ne
    have kept : TextIs (Function.update state.outputBuffer ⟨rows.length, inside⟩ row ⟨index, fits'⟩) 0 found.1 := by
      rwa [Function.update_of_ne apart]
    exact ⟨fits', kept, shade⟩
  · obtain ⟨bound, value⟩ := List.getElem?_eq_some_iff.mp at'
    rw [List.length_append, List.length_singleton] at bound
    obtain rfl : index = rows.length := by omega
    obtain ⟨_, _, shade⟩ := shown.rows rows.length (line, color) (by simp)
    simp only [List.getElem_append_right (Nat.le_refl _), Nat.sub_self, List.getElem_singleton] at value
    subst value
    have put : TextIs (Function.update state.outputBuffer ⟨rows.length, inside⟩ row ⟨rows.length, inside⟩) 0 other := by
      rwa [Function.update_self]
    exact ⟨inside, put, shade⟩

end Rows

section Printed

/-- What a terminal prints without leaving its buffer. -/
def PrintFits (text : List UInt8) : Prop := 0 ∉ text ∧ ∀ segment ∈ text.splitOn 0x0A, segment.length < maxLineLength

/-- A terminal as wide as `gui_terminal_init` makes it, with some lines. -/
structure TerminalShows (world : TerminalWorld) (lines : List TerminalLine) : Prop where
  width : world.state.windowWidthChars = 80
  output : OutputIs world.state lines

theorem worldPrint_shows (shows : TerminalShows world lines) {text : List UInt8} (fits : PrintFits text)
    (color : UInt32) :
    ∃ after, worldPrint world text color = .ok after ∧ OnlyOutput world.state after.state ∧ after.cwd = world.cwd ∧
      TerminalShows after ((lines ++ (text.splitOn 0x0A).flatMap (colored color 80)).rtake guiOutputLines) := by
  obtain ⟨ended, state, prints, only, shown, _⟩ := guiTerminalPrint_prints world.currentLine world.state lines text
    color 80 shows.output shows.width (by decide) (by decide) fits.1 fits.2
  refine ⟨{ world with currentLine := ended, state }, ?_, only, rfl, only.width.trans shows.width, shown⟩
  unfold worldPrint
  rw [prints]
  rfl

/-- Newlines alone print nothing. -/
theorem newlines_colored (color : UInt32) (width : Nat) {text : List UInt8} (newlines : ∀ char ∈ text, char = 0x0A) :
    (text.splitOn 0x0A).flatMap (colored color width) = [] := by
  have nothing : colored color width [] = [] := by rw [colored, pieces_nil, List.map_nil]
  induction text with
  | nil => simp [nothing]
  | cons char text ih =>
    obtain rfl := newlines char List.mem_cons_self
    have rest := ih fun other member => newlines other (List.mem_cons_of_mem _ member)
    rw [List.splitOn_cons_eq_if_modifyHead, if_pos (by rfl), List.flatMap_cons, nothing, rest]
    rfl

/-- What a command does can be told without leaving a buffer. -/
def EffectFits : TerminalEffect → Prop
  | .print text _ => PrintFits text
  | .chdir cwd => IsDirectory cwd

/-- `cwd` after the effects of a command. -/
def directoryAfter (cwd : List UInt8) (effects : List TerminalEffect) : List UInt8 :=
  effects.foldl (fun cwd effect => match effect with | .print _ _ => cwd | .chdir cwd => cwd) cwd

theorem runEffects_shows (shows : TerminalShows world lines) (directory : IsDirectory world.cwd)
    {effects : List TerminalEffect}
    (fits : ∀ effect ∈ effects, EffectFits effect) :
    ∃ after lines', runEffects world effects = .ok after ∧ TerminalShows after lines' ∧ IsDirectory after.cwd ∧
      after.cwd = directoryAfter world.cwd effects := by
  induction effects generalizing world lines with
  | nil => exact ⟨world, lines, rfl, shows, directory, rfl⟩
  | cons effect effects ih =>
    have first := fits effect List.mem_cons_self
    have rest (other) (member : other ∈ effects) := fits other (List.mem_cons_of_mem _ member)
    cases effect with
    | print text color =>
      obtain ⟨next, prints, _, same, shows'⟩ := worldPrint_shows shows first color
      obtain ⟨after, lines', runs, shows'', directory', last⟩ := ih shows' (by rwa [same]) rest
      refine ⟨after, lines', ?_, shows'', directory', ?_⟩
      · rw [runEffects, prints]
        exact runs
      · rw [last, same]
        rfl
    | chdir cwd =>
      exact @ih { world with cwd } lines ⟨shows.width, shows.output⟩ first rest

end Printed

/-- A terminal in use. Beside its state stand the directory of the last prompt, whether
something was printed since, what was typed since, the commands that were executed, and the
texts that were entered. -/
structure TerminalSession where
  world : TerminalWorld
  promptCwd : List UInt8
  printed : Bool
  typed : List UInt8
  executed : List (List UInt8)
  entered : List (List UInt8)

/-- What happens to a terminal. Its directory is also that of the others. -/
inductive TerminalEvent where
  | print (text : List UInt8) (color : UInt32)
  | chdir (cwd : List UInt8)
  | key (key : Int) (effects : List TerminalEffect)

/-- A key, as the one who types sees it. -/
def noteKey (session : TerminalSession) (key : Int) : TerminalSession :=
  if key = 0x08 then { session with typed := session.typed.dropLast }
  else if key = 0x0A then
    { session with promptCwd := session.world.cwd, printed := false, typed := []
                   entered := session.entered ++ if session.typed = [] then [] else [session.typed] }
  else if 32 ≤ key ∧ key ≤ 126 then { session with typed := session.typed ++ [UInt8.ofNat key.toNat] }
  else session

def terminalStep (session : TerminalSession) : TerminalEvent → Except Stop TerminalSession
  | .print text color => do
    let world ← worldPrint session.world text color
    return { session with world, printed := session.printed || text.any (· ≠ 0x0A) }
  | .chdir cwd => .ok { session with world := { session.world with cwd } }
  | .key key effects => do
    let (command, world) ← guiTerminalHandleKey session.world key effects
    return noteKey { session with world, executed := session.executed ++ command.toList } key

def startTerminal (state : TerminalState) (currentLine : CurrentLine) (cwd : List UInt8) :
    Except Stop TerminalSession := do
  let state ← guiTerminalInit state cwd
  return { world := { state, currentLine, cwd }, promptCwd := cwd, printed := false, typed := [], executed := []
           entered := [] }

/-- What stands in the last row while nothing is printed. -/
def TerminalSession.row (session : TerminalSession) : List UInt8 := promptText session.promptCwd ++ session.typed

/-- The last row is the one of the prompt, and the prompt is as long as it was. -/
def TerminalSession.InPlace (session : TerminalSession) : Prop :=
  session.printed = false ∧ (promptText session.world.cwd).length = (promptText session.promptCwd).length

/-- A command that can be executed: what it prints fits, and so does the prompt behind it. -/
def CommandFits (cwd typed : List UInt8) (effects : List TerminalEffect) : Prop :=
  cmdName typed ∈ systemCommands →
    ¬(cmdName typed = literal "cls" ∧ cmdArgs typed = []) ∧ (∀ effect ∈ effects, EffectFits effect) ∧
      PromptFits (directoryAfter cwd effects)

/-- A key that a terminal takes without leaving its buffers. -/
structure KeyFits (session : TerminalSession) (key : Int) (effects : List TerminalEffect) : Prop where
  prompt : PromptFits session.world.cwd
  place : key = 0x08 ∨ key = 0x0A ∨ 32 ≤ key ∧ key ≤ 126 → session.InPlace
  room : 32 ≤ key ∧ key ≤ 126 → session.row.length ≤ 254
  command : key = 0x0A → session.typed ≠ [] → CommandFits session.world.cwd session.typed effects

def EventFits (session : TerminalSession) : TerminalEvent → Prop
  | .print text _ => PrintFits text
  | .chdir cwd => IsDirectory cwd
  | .key key effects => KeyFits session key effects

/-- The commands that were executed are the texts that were entered. -/
def Faithful (session : TerminalSession) : Prop := session.executed = session.entered

/-- The input stands behind the prompt, in the last row while nothing is printed. -/
structure SessionHeld (session : TerminalSession) : Prop where
  shows : ∃ lines, TerminalShows session.world lines ∧
    (session.printed = false → ∃ rows, lines = rows ++ [(session.row, termColorPrompt)])
  position : session.world.state.inputPos = session.row.length
  directory : IsDirectory session.world.cwd
  short : session.row.length ≤ 255
  clean : 0 ∉ session.typed
  breakless : 0x0A ∉ session.typed
  faithful : Faithful session

section Keys

variable {prompt typed : List UInt8} {rows : List TerminalLine} {color : UInt32}

/-- A key has changed the text behind the prompt. -/
structure Retyped (state after : TerminalState) (rows : List TerminalLine) (line : List UInt8) (color : UInt32) :
    Prop where
  width : after.windowWidthChars = state.windowWidthChars
  output : OutputIs after (rows ++ [(line, color)])
  position : after.inputPos = line.length

theorem terminalBackspace_erases (shown : OutputIs state (rows ++ [(prompt ++ typed, color)]))
    (position : state.inputPos = (prompt ++ typed).length) :
    ∃ after, terminalBackspace state prompt.length = .ok after ∧
      Retyped state after rows (prompt ++ typed.dropLast) color := by
  obtain ⟨inside, index, lies⟩ := shown.last
  unfold terminalBackspace
  obtain rfl | ⟨front, char, rfl⟩ := typed.eq_nil_or_concat'
  · rw [List.append_nil] at position shown
    rw [if_neg (by omega), List.dropLast_nil, List.append_nil]
    exact ⟨state, rfl, rfl, shown, position⟩
  · rw [← List.append_assoc] at position lies shown
    rw [List.length_append, List.length_singleton] at position
    rw [if_pos (by rw [position, List.length_append]; omega), List.dropLast_concat]
    have fits := lies.fits
    rw [List.length_append, List.length_singleton] at fits
    have here : (prompt ++ front).length < guiOutputCols := by omega
    have place : state.inputPos - 1 = ((prompt ++ front).length : Nat) := by omega
    refine ⟨_, ?_, ⟨?_, shown.retype inside (lies.truncate here) (prompt ++ front).length, rfl⟩⟩
    · simp only [bind, Except.bind, place, index, elementAt_eq _ inside, setElement_eq _ here, setElement_eq _ inside]
      rfl
    · rfl

theorem terminalType_types (shown : OutputIs state (rows ++ [(line, color)])) (position : state.inputPos = line.length)
    (room : line.length ≤ 254) {key : Int} (low : 32 ≤ key) (high : key ≤ 126) :
    ∃ after, terminalType state key = .ok after ∧ Retyped state after rows (line ++ [UInt8.ofNat key.toNat]) color := by
  obtain ⟨inside, index, lies⟩ := shown.last
  have here : line.length < guiOutputCols := room.trans_lt (by decide)
  have next : line.length + 1 < guiOutputCols := Nat.lt_of_le_of_lt (Nat.succ_le_succ room) (by decide)
  have behind : (line.length : Int) + 1 = ((line.length + 1 : Nat) : Int) := by omega
  have pushed := lies.push (char_nonzero low high) here next
  refine ⟨_, ?_, ⟨?_, shown.retype inside pushed (line.length + 1 : Nat), by simp⟩⟩
  · unfold terminalType
    simp only [bind, Except.bind, position, behind, index, elementAt_eq _ inside, setElement_eq _ here,
      setElement_eq _ next, setElement_eq _ inside]
    rfl
  · rfl

theorem cmdName_short (input : List UInt8) : (cmdName input).length ≤ 63 := List.length_take_le 63 _

theorem mem_cmdName {input : List UInt8} {char : UInt8} (member : char ∈ cmdName input) : char ∈ input :=
  List.dropWhile_subset _ (List.takeWhile_subset _ (List.mem_of_mem_take member))

/-- A word that is no command is printed. -/
theorem cmdName_prints {input : List UInt8} (clean : 0 ∉ input) (breakless : 0x0A ∉ input) :
    PrintFits (cmdName input) := by
  refine ⟨fun zero => clean (mem_cmdName zero), ?_⟩
  rw [List.splitOn_eq_singleton fun newline => breakless (mem_cmdName newline)]
  intro segment member
  rw [List.mem_singleton.mp member]
  exact (cmdName_short input).trans_lt (by decide)

/-- What the terminal executes, it does without leaving its buffers. -/
theorem guiExecute_shows (shows : TerminalShows world lines) (directory : IsDirectory world.cwd)
    (prompt : PromptFits world.cwd)
    (clean : 0 ∉ typed) (breakless : 0x0A ∉ typed) {effects : List TerminalEffect}
    (fits : CommandFits world.cwd typed effects) :
    ∃ after lines', guiExecute world effects typed = .ok after ∧ TerminalShows after lines' ∧ IsDirectory after.cwd ∧
      PromptFits after.cwd := by
  unfold guiExecute
  by_cases blank : (typed.dropWhile (· = 0x20)).length = 0
  · rw [if_pos blank]
    exact ⟨world, lines, rfl, shows, directory, prompt⟩
  rw [if_neg blank]
  by_cases known : cmdName typed ∈ systemCommands
  · obtain ⟨taken, told, behind⟩ := fits known
    obtain ⟨after, lines', runs, shows', directory', last⟩ := runEffects_shows shows directory told
    rw [if_pos known, if_neg (by simpa only [List.length_eq_zero_iff] using taken)]
    exact ⟨after, lines', runs, shows', directory', by rwa [last]⟩
  · obtain ⟨named, prints, _, same, shows'⟩ := worldPrint_shows shows (cmdName_prints clean breakless) termColorError
    have told : PrintFits (literal ": command not found\n") := by
      refine ⟨by decide, ?_⟩
      decide
    obtain ⟨after, prints', _, same', shows''⟩ := worldPrint_shows shows' told termColorError
    have cwd := same'.trans same
    refine ⟨after, _, ?_, shows'', by rwa [cwd], by rwa [cwd]⟩
    rw [if_neg known]
    simp only [bind, Except.bind, prints]
    exact prints'

/-- Enter hands over what stands behind the prompt, and makes a new one. -/
theorem terminalEnter_enters (shows : TerminalShows world (rows ++ [(prompt ++ typed, color)]))
    (directory : IsDirectory world.cwd)
    (fits : PromptFits world.cwd) (clean : 0 ∉ typed) (breakless : 0x0A ∉ typed) {effects : List TerminalEffect}
    (command : typed ≠ [] → CommandFits world.cwd typed effects) :
    ∃ after rows', terminalEnter world prompt.length effects = .ok (if typed = [] then none else some typed, after) ∧
      TerminalShows after (rows' ++ [(promptText after.cwd, termColorPrompt)]) ∧ IsDirectory after.cwd ∧
      PromptFits after.cwd ∧ after.state.inputPos = (promptText after.cwd).length := by
  obtain ⟨inside, index, lies⟩ := shows.output.last
  unfold terminalEnter
  simp only [bind, Except.bind, index, elementAt_eq _ inside, Int.toNat_natCast, lies.behind.ok]
  by_cases empty : typed = []
  · subst empty
    obtain ⟨state, rows', adds, width, shown, position⟩ := addPrompt_adds shows.output directory fits
    rw [if_neg (by simp), adds, if_pos rfl]
    exact ⟨{ world with state := { state with scrollOffset := 0 } }, rows', rfl,
      ⟨width.trans shows.width, shown.fits, shown.count, shown.rows⟩, directory, fits, position⟩
  · obtain ⟨executed, lines', executes, shows', directory', fits'⟩ :=
      guiExecute_shows shows directory fits clean breakless (command empty)
    obtain ⟨state, rows', adds, width, shown, position⟩ := addPrompt_adds shows'.output directory' fits'
    rw [if_pos (List.length_pos_iff.mpr empty), executes, if_neg empty]
    simp only [adds]
    exact ⟨{ executed with state := { state with scrollOffset := 0 } }, rows', rfl,
      ⟨width.trans shows'.width, shown.fits, shown.count, shown.rows⟩, directory', fits', position⟩

end Keys

section Sessions

variable {session : TerminalSession}

theorem OnlyOutput.inputPos (only : OnlyOutput state after) : after.inputPos = state.inputPos := by
  unfold OnlyOutput at only
  have same := congrArg TerminalState.inputPos only
  exact same

theorem SessionHeld.print (held : SessionHeld session) {text : List UInt8} (fits : PrintFits text) (color : UInt32) :
    ∃ after, terminalStep session (.print text color) = .ok after ∧ SessionHeld after := by
  obtain ⟨lines, shows, last⟩ := held.shows
  obtain ⟨world, prints, only, same, shows'⟩ := worldPrint_shows shows fits color
  refine ⟨{ session with world, printed := session.printed || text.any (· ≠ 0x0A) }, ?_, ⟨_, shows', ?_⟩, ?_, ?_,
    held.short, held.clean, held.breakless, held.faithful⟩
  · simp only [terminalStep, bind, Except.bind, prints]
    rfl
  · intro quiet
    obtain ⟨before, newlines⟩ := Bool.or_eq_false_iff.mp quiet
    rw [newlines_colored color 80 (by simpa using newlines), List.append_nil, rtake_of_length_le shows.output.fits]
    exact last before
  · exact only.inputPos.trans held.position
  · rw [same]
    exact held.directory

theorem SessionHeld.chdir (held : SessionHeld session) {cwd : List UInt8} (directory : IsDirectory cwd) :
    SessionHeld { session with world := { session.world with cwd } } := by
  obtain ⟨lines, shows, last⟩ := held.shows
  exact ⟨⟨lines, ⟨shows.width, shows.output⟩, last⟩, held.position, directory, held.short, held.clean, held.breakless,
    held.faithful⟩

/-- A key whose prompt fits gets to its branch. -/
theorem guiTerminalHandleKey_eq (directory : IsDirectory world.cwd) (fits : PromptFits world.cwd) (key : Int)
    (effects : List TerminalEffect) :
    guiTerminalHandleKey world key effects =
      (let state := { world.state with scrollOffset := 0 }
      if key = 0x08 then
        (terminalBackspace state (promptText world.cwd).length).map fun state => (none, { world with state })
      else if key = 0x0A then terminalEnter { world with state } (promptText world.cwd).length effects
      else if 32 ≤ key ∧ key ≤ 126 then (terminalType state key).map fun state => (none, { world with state })
      else .ok (none, { world with state })) := by
  obtain ⟨prompt, makes, lies⟩ := guiGeneratePrompt_makes directory fits
  unfold guiTerminalHandleKey
  rw [makes]
  simp only [bind, Except.bind, strLen_eq lies (by decide)]
  rfl

/-- A key that changes the text in the last row. -/
theorem SessionHeld.retyped (held : SessionHeld session) {rows : List TerminalLine} {typed : List UInt8}
    (width : session.world.state.windowWidthChars = 80)
    (retyped : Retyped { session.world.state with scrollOffset := 0 } after rows
      (promptText session.promptCwd ++ typed) termColorPrompt)
    (short : (promptText session.promptCwd ++ typed).length ≤ 255) (clean : 0 ∉ typed) (breakless : 0x0A ∉ typed) :
    SessionHeld { session with world := { session.world with state := after }, executed := session.executed ++ [], typed } := by
  refine ⟨⟨_, ⟨retyped.width.trans width, retyped.output⟩, fun _ => ⟨rows, rfl⟩⟩, retyped.position, held.directory, short,
    clean, breakless, ?_⟩
  have faithful := held.faithful
  unfold Faithful at faithful ⊢
  rw [List.append_nil, faithful]

/-- The row that a key in its place works on. -/
theorem SessionHeld.lastRow (held : SessionHeld session) (quiet : session.printed = false) :
    ∃ rows, TerminalShows { session.world with state := { session.world.state with scrollOffset := 0 } }
      (rows ++ [(promptText session.promptCwd ++ session.typed, termColorPrompt)]) := by
  obtain ⟨lines, shows, last⟩ := held.shows
  obtain ⟨rows, rfl⟩ := last quiet
  exact ⟨rows, shows.width, shows.output.fits, shows.output.count, shows.output.rows⟩

theorem SessionHeld.backspace (held : SessionHeld session) {effects : List TerminalEffect}
    (fits : KeyFits session 0x08 effects) :
    ∃ after, terminalStep session (.key 0x08 effects) = .ok after ∧ SessionHeld after := by
  obtain ⟨quiet, same⟩ := fits.place (Or.inl rfl)
  obtain ⟨rows, shows⟩ := held.lastRow quiet
  obtain ⟨after, erases, retyped⟩ := terminalBackspace_erases shows.output held.position
  have shorter : (promptText session.promptCwd ++ session.typed.dropLast).length ≤ 255 := by
    have short := held.short
    rw [TerminalSession.row, List.length_append] at short
    rw [List.length_append, List.length_dropLast]
    omega
  refine ⟨_, ?_, held.retyped shows.width retyped shorter (fun zero => held.clean (List.dropLast_subset _ zero))
    fun newline => held.breakless (List.dropLast_subset _ newline)⟩
  simp only [terminalStep, guiTerminalHandleKey_eq held.directory fits.prompt]
  rw [if_pos trivial, same, erases]
  rfl

theorem SessionHeld.character (held : SessionHeld session) {key : Int} {effects : List TerminalEffect}
    (fits : KeyFits session key effects) (printable : 32 ≤ key ∧ key ≤ 126) :
    ∃ after, terminalStep session (.key key effects) = .ok after ∧ SessionHeld after := by
  obtain ⟨quiet, _⟩ := fits.place (Or.inr (Or.inr printable))
  obtain ⟨rows, shows⟩ := held.lastRow quiet
  have room := fits.room printable
  obtain ⟨after, types, retyped⟩ := terminalType_types shows.output held.position room printable.1 printable.2
  rw [TerminalSession.row] at room
  rw [List.append_assoc] at retyped
  have other {code : UInt8} (low : code.toNat < 32) : code ∉ session.typed →
    code ∉ session.typed ++ [UInt8.ofNat key.toNat] := by
    intro absent member
    obtain held' | last := List.mem_append.mp member
    · exact absent held'
    · have value := congrArg UInt8.toNat (List.mem_singleton.mp last)
      rw [UInt8.toNat_ofNat'] at value
      omega
  refine ⟨_, ?_, held.retyped shows.width retyped ?_ (other (by decide) held.clean) (other (by decide) held.breakless)⟩
  · simp only [terminalStep, guiTerminalHandleKey_eq held.directory fits.prompt]
    rw [if_neg (by omega), if_neg (by omega), if_pos printable, types]
    simp only [Except.map, bind, Except.bind, noteKey]
    rw [if_neg (by omega), if_neg (by omega), if_pos printable]
    rfl
  · rw [← List.append_assoc, List.length_append, List.length_singleton]
    omega

theorem SessionHeld.enter (held : SessionHeld session) {effects : List TerminalEffect}
    (fits : KeyFits session 0x0A effects) :
    ∃ after, terminalStep session (.key 0x0A effects) = .ok after ∧ SessionHeld after := by
  obtain ⟨quiet, same⟩ := fits.place (Or.inr (Or.inl rfl))
  obtain ⟨rows, shows⟩ := held.lastRow quiet
  obtain ⟨world, rows', enters, shows', directory, fits', position⟩ :=
    terminalEnter_enters shows held.directory fits.prompt
    held.clean held.breakless (fits.command rfl)
  refine ⟨{ world, promptCwd := world.cwd, printed := false, typed := []
            executed := session.executed ++ (if session.typed = [] then none else some session.typed).toList
            entered := session.entered ++ if session.typed = [] then [] else [session.typed] }, ?_, ?_⟩
  · simp only [terminalStep, guiTerminalHandleKey_eq held.directory fits.prompt]
    rw [if_neg (by decide), if_pos trivial, same, enters]
    rfl
  · have whole : promptText world.cwd ++ [] = promptText world.cwd := List.append_nil _
    refine ⟨⟨_, shows', fun _ => ⟨rows', ?_⟩⟩, ?_, directory, ?_, List.not_mem_nil, List.not_mem_nil, ?_⟩
    · rw [TerminalSession.row, whole]
    · rw [TerminalSession.row, whole]
      exact position
    · rw [TerminalSession.row, whole]
      unfold PromptFits at fits'
      omega
    · have faithful := held.faithful
      unfold Faithful at faithful ⊢
      dsimp only
      rw [faithful]
      split <;> rfl

theorem SessionHeld.key (held : SessionHeld session) {key : Int} {effects : List TerminalEffect}
    (fits : KeyFits session key effects) :
    ∃ after, terminalStep session (.key key effects) = .ok after ∧ SessionHeld after := by
  by_cases backspace : key = 0x08
  · subst backspace
    exact held.backspace fits
  by_cases enter : key = 0x0A
  · subst enter
    exact held.enter fits
  by_cases printable : 32 ≤ key ∧ key ≤ 126
  · exact held.character fits printable
  · obtain ⟨lines, shows, last⟩ := held.shows
    have faithful := held.faithful
    refine ⟨{ session with world := { session.world with state := { session.world.state with scrollOffset := 0 } }
                           executed := session.executed ++ [] }, ?_, ?_⟩
    · simp only [terminalStep, guiTerminalHandleKey_eq held.directory fits.prompt]
      rw [if_neg backspace, if_neg enter, if_neg printable]
      simp only [bind, Except.bind, noteKey]
      rw [if_neg backspace, if_neg enter, if_neg printable]
      rfl
    · refine ⟨⟨lines, ⟨shows.width, shows.output.fits, shows.output.count, shows.output.rows⟩, last⟩, held.position,
        held.directory, held.short, held.clean, held.breakless, ?_⟩
      unfold Faithful at faithful ⊢
      rw [List.append_nil, faithful]

theorem SessionHeld.step (session : TerminalSession) (event : TerminalEvent) (held : SessionHeld session)
    (fits : EventFits session event) : ∃ after, terminalStep session event = .ok after ∧ SessionHeld after := by
  cases event with
  | print text color => exact held.print fits color
  | chdir cwd => exact ⟨_, rfl, held.chdir fits⟩
  | key key effects => exact held.key fits

end Sessions

/-- With a prompt that fits a new terminal holds its input behind it. -/
theorem startTerminal_holds (state : TerminalState) (currentLine : CurrentLine) (directory : IsDirectory cwd)
    (fits : PromptFits cwd) :
    ∃ session, startTerminal state currentLine cwd = .ok session ∧ SessionHeld session := by
  have shown : OutputIs { state with outputLineCount := 0, windowWidthChars := 80, windowHeightLines := 25, scrollOffset := 0 }
      [] :=
    ⟨Nat.zero_le _, rfl, fun index line found => by cases found⟩
  obtain ⟨after, rows, adds, width, shown', position⟩ := addPrompt_adds shown directory fits
  have whole : promptText cwd ++ [] = promptText cwd := List.append_nil _
  refine ⟨{ world := { state := after, currentLine, cwd }, promptCwd := cwd, printed := false, typed := [], executed := []
            entered := [] }, ?_, ⟨_, ⟨width, shown'⟩, fun _ => ⟨rows, ?_⟩⟩, ?_, directory, ?_, List.not_mem_nil,
    List.not_mem_nil, rfl⟩
  · unfold startTerminal guiTerminalInit
    rw [adds]
    rfl
  · rw [TerminalSession.row, whole]
  · rw [TerminalSession.row, whole]
    exact position
  · rw [TerminalSession.row, whole]
    unfold PromptFits at fits
    omega

/-- A terminal starts when its prompt fits the buffer of 64 bytes. From there on, while the
events fit, nothing is written outside a buffer, and what is executed is what was typed. -/
theorem terminal_executes_typed (state : TerminalState) (currentLine : CurrentLine) (cwd : List UInt8)
    (events : List TerminalEvent) (directory : IsDirectory cwd) :
    (¬PromptFits cwd → startTerminal state currentLine cwd = .error .undefined) ∧
      (PromptFits cwd → ∃ session, startTerminal state currentLine cwd = .ok session ∧
        (Runs.Meets terminalStep EventFits session events → Runs.Always terminalStep Faithful session events)) := by
  constructor
  · intro long
    unfold startTerminal guiTerminalInit addPrompt
    rw [guiGeneratePrompt_overflows directory long]
    rfl
  · intro fits
    obtain ⟨session, starts, held⟩ := startTerminal_holds state currentLine directory fits
    exact ⟨session, starts, Runs.always_of_meets (fun _ held => held.faithful) SessionHeld.step held⟩

/-- What a condition on a key asks of a session. -/
def TerminalSession.ghost (session : TerminalSession) : List UInt8 × List UInt8 × Bool × List UInt8 :=
  (session.world.cwd, session.promptCwd, session.printed, session.typed)

/-- "ls" is typed, and prints a line. -/
theorem terminal_executes_typed_ls :
    ∃ session, startTerminal emptyTerminal (fun _ => 0) (literal "/") = .ok session ∧
      Runs.Always terminalStep Faithful session
        [.key 0x6C [], .key 0x73 [], .key 0x0A [.print (literal "bin\n") termColorPrompt]] := by
  obtain ⟨session, starts, runs⟩ := (terminal_executes_typed emptyTerminal (fun _ => 0) (literal "/")
    [.key 0x6C [], .key 0x73 [], .key 0x0A [.print (literal "bin\n") termColorPrompt]] (by decide)).2 (by decide)
  have seen : (startTerminal emptyTerminal (fun _ => 0) (literal "/")).map TerminalSession.ghost =
      .ok (literal "/", literal "/", false, []) := rfl
  have seen' : (startTerminal emptyTerminal (fun _ => 0) (literal "/") >>= fun session =>
      terminalStep session (.key 0x6C [])).map TerminalSession.ghost =
      .ok (literal "/", literal "/", false, literal "l") := rfl
  have seen'' : (startTerminal emptyTerminal (fun _ => 0) (literal "/") >>= fun session =>
      terminalStep session (.key 0x6C []) >>= fun session => terminalStep session
        (.key 0x73 [])).map TerminalSession.ghost =
      .ok (literal "/", literal "/", false, literal "ls") := rfl
  have fits {session : TerminalSession} {typed : List UInt8} {key : Int} {effects : List TerminalEffect}
      (ghost : session.ghost = (literal "/", literal "/", false, typed)) (short : typed.length ≤ 200)
      (command : key = 0x0A → typed ≠ [] → CommandFits (literal "/") typed effects) : KeyFits session key effects := by
    simp only [TerminalSession.ghost, Prod.mk.injEq] at ghost
    obtain ⟨directory, prompt, quiet, same⟩ := ghost
    refine ⟨?_, fun _ => ⟨quiet, by rw [directory, prompt]⟩, fun _ => ?_, by rwa [directory, same]⟩
    · rw [directory]
      decide
    · rw [TerminalSession.row, prompt, same, List.length_append, length_promptText]
      show 12 + 1 + 2 + typed.length ≤ 254
      omega
  rw [starts] at seen seen' seen''
  refine ⟨session, starts, runs ⟨fits (Except.ok.inj seen) (by decide) fun enter => absurd enter (by decide),
    fun first moves => ?_⟩⟩
  change (terminalStep session (.key 0x6C [])).map TerminalSession.ghost = _ at seen'
  change (terminalStep session (.key 0x6C []) >>= fun session => terminalStep session (.key 0x73 [])).map _ = _ at seen''
  rw [moves] at seen' seen''
  refine ⟨fits (Except.ok.inj seen') (by decide) fun enter => absurd enter (by decide),
    fun second moves => ⟨?_, fun _ _ => trivial⟩⟩
  change (terminalStep first (.key 0x73 [])).map TerminalSession.ghost = _ at seen''
  rw [moves] at seen''
  refine fits (Except.ok.inj seen'') (by decide) fun _ _ _ => ⟨by decide, ?_, by decide⟩
  intro effect member
  rw [List.mem_singleton.mp member]
  exact ⟨by decide, by decide⟩

/-- A directory of sixty letters leaves no room for the prompt. -/
theorem terminal_prompt_overflows :
    IsDirectory (List.replicate 60 0x61) ∧
      startTerminal emptyTerminal (fun _ => 0) (List.replicate 60 0x61) = .error .undefined := by
  refine ⟨⟨by decide, by decide⟩, ?_⟩
  rfl

end Kernix.Proofs
