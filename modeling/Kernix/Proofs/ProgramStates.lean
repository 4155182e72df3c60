import Kernix.Proofs.GuiCalls
import Mathlib.Data.List.Nodup
import Mathlib.Data.List.Perm.Basic

/-! Who holds the states of the programs. A window that is created takes over what a
closed one has left in its record, so that the states stay with one window each while
the records that are taken are clean. -/

namespace Kernix.Proofs
open SlotList Transition

/-- The states of a program that windows refer to. -/
def stateRefs (items : List GuiWindow) (program : GuiProgram) : List (Fin maxWindows) :=
  items.filterMap (·.programState program)

/-- Every state is referred to by at most one window, and used when there is one. -/
structure StatesOwned (items : List GuiWindow) (used : GuiProgram → Fin maxWindows → Bool) : Prop where
  once : ∀ program, (stateRefs items program).Nodup
  used : ∀ program index, used program index = true ↔ index ∈ stateRefs items program

/-- A window without anything of an earlier one: a state of its program was unused. -/
structure FreshWindow (used : GuiProgram → Fin maxWindows → Bool) (program : Option GuiProgram) (window : GuiWindow) :
    Prop where
  state : window.state = .normal
  flags : ∀ own, window.isProgram own = true ↔ program = some own
  states : ∀ own index, window.programState own = some index → program = some own ∧ used own index = false

/-- A window that a call creates is fresh. -/
def StartsFresh (before : GuiState) (call : GuiCall) (after : GuiState) : Prop :=
  after.windowCount = before.windowCount + 1 →
    ∃ window, openWindows after = (openWindows before).map unfocused ++ [window] ∧
    FreshWindow before.stateUsed (call.frame?.bind (·.program)) window

/-- A record with nothing in it that the launch of a program leaves there. -/
structure CleanRecord (program : Option GuiProgram) (record : GuiWindow) : Prop where
  state : record.state = .normal
  states : ∀ own, program ≠ some own → record.programState own = none
  flags : ∀ own, program ≠ some own → own ≠ .terminal → record.isProgram own = false

/-- A call that opens a window takes a clean record for it. -/
def TakesClean (gui : GuiState) (call : GuiCall) : Prop :=
  ∀ frame, call.frame? = some frame → (call = .startButton → NoMenu (openWindows gui)) →
    ∀ room : gui.windowCount < maxWindows, CleanRecord frame.program (gui.windows ⟨gui.windowCount, room⟩)

variable {screen : Screen} {gui after : GuiState} {items others : List GuiWindow} {buttons : List TaskbarButton}
  {used : GuiProgram → Fin maxWindows → Bool} {frame : LaunchFrame} {record : GuiWindow} {id : Int}

theorem stateRefs_eq (items : List GuiWindow) (program : GuiProgram) :
    stateRefs items program = (items.map (·.programState program)).filterMap (fun state => state) := by
  rw [stateRefs, List.filterMap_map]
  rfl

@[simp] theorem stateRefs_unfocused (items : List GuiWindow) (program : GuiProgram) :
    stateRefs (items.map unfocused) program = stateRefs items program := by
  rw [stateRefs, List.filterMap_map]
  rfl

theorem stateRefs_append (items others : List GuiWindow) (program : GuiProgram) :
    stateRefs (items ++ others) program = stateRefs items program ++ stateRefs others program :=
  List.filterMap_append

theorem stateRefs_single (window : GuiWindow) (program : GuiProgram) :
    stateRefs [window] program = (window.programState program).toList := by
  cases state : window.programState program <;> simp [stateRefs, state]

/-- The references of one window, and of the others. -/
theorem stateRefs_perm {index : Nat} (inside : index < items.length) (program : GuiProgram) :
    (stateRefs items program).Perm ((items[index].programState program).toList ++
      stateRefs (items.eraseIdx index) program) := by
  have split := (List.getElem_cons_eraseIdx_perm inside).filterMap (·.programState program)
  rw [← List.singleton_append, List.filterMap_append] at split
  exact stateRefs_single items[index] program ▸ split.symm

theorem StatesOwned.perm (owned : StatesOwned items used)
    (same : ∀ program, (stateRefs items program).Perm (stateRefs others program)) : StatesOwned others used :=
  ⟨fun program => (same program).nodup_iff.mp (owned.once program),
    fun program index => (owned.used program index).trans (same program).mem_iff⟩

theorem statesOwned_init : StatesOwned (openWindows guiInit) guiInit.stateUsed := by
  rw [guiInit_is.openWindows_eq]
  exact ⟨fun _ => List.nodup_nil, fun _ _ => by simp [guiInit, stateRefs]⟩

theorem StatesOwned.raise (owned : StatesOwned items used) {index : Nat} (inside : index < items.length)
    (raise : others.map unfocused = (raised items index items[index]).map unfocused) : StatesOwned others used := by
  apply owned.perm
  intro program
  have same := congrArg (stateRefs · program) raise
  simp only [stateRefs_unfocused] at same
  rw [same]
  exact (raised_perm inside).symm.filterMap _

theorem StatesOwned.edit (owned : StatesOwned items used) {index : Nat} (inside : index < items.length)
    {window : GuiWindow}
    (same : window.programState = items[index].programState) : StatesOwned (items.set index window) used := by
  apply owned.perm
  intro program
  rw [stateRefs_eq (items.set index window), List.map_set, same, ← List.map_set, List.set_getElem_self, ← stateRefs_eq]

/-- The states of a window that is closed are released, and no other ones. -/
theorem StatesOwned.close (owned : StatesOwned items used) {index : Nat} (inside : index < items.length) :
    StatesOwned (items.eraseIdx index) (releaseStates used items[index]) := by
  refine ⟨fun program => (owned.once program).sublist ((List.eraseIdx_sublist _ _).filterMap _), ?_⟩
  intro program state
  have split := stateRefs_perm inside program
  have once := split.nodup_iff.mp (owned.once program)
  have mem := (owned.used program state).trans split.mem_iff
  rw [releaseStates]
  cases own : items[index].programState program with
  | none =>
    rw [own] at mem
    exact mem
  | some released =>
    rw [own] at mem once
    rw [Option.toList_some, List.singleton_append] at mem once
    by_cases same : state = released
    · subst same
      simp [(List.nodup_cons.mp once).1]
    · dsimp only
      rw [Function.update_of_ne same, mem, List.mem_cons]
      simp [same]

theorem StatesOwned.create (owned : StatesOwned items used) {window : GuiWindow}
    (none : ∀ program, window.programState program = none) : StatesOwned (items.map unfocused ++ [window]) used := by
  apply owned.perm
  intro program
  rw [stateRefs_append, stateRefs_unfocused, stateRefs_single, none]
  simp

/-- An unused state of a program goes to a window of it. -/
theorem StatesOwned.start (owned : StatesOwned items used) {window : GuiWindow} {program : GuiProgram}
    {index : Fin maxWindows}
    (free : used program index = false) (own : window.programState program = some index)
    (none : ∀ other, other ≠ program → window.programState other = none) :
    StatesOwned (items.map unfocused ++ [window])
      (Function.update used program (Function.update (used program) index true)) := by
  have unused : index ∉ stateRefs items program := by
    rw [← owned.used, free]
    simp
  constructor
  · intro other
    rw [stateRefs_append, stateRefs_unfocused, stateRefs_single]
    by_cases same : other = program
    · subst same
      rw [own, Option.toList_some]
      apply List.nodup_append.mpr ⟨owned.once _, List.nodup_singleton _, ?_⟩
      intro state member last lastMember
      cases List.mem_singleton.mp lastMember
      exact ne_of_mem_of_not_mem member unused
    · rw [none other same]
      simpa using owned.once other
  · intro other state
    rw [stateRefs_append, stateRefs_unfocused, stateRefs_single]
    by_cases same : other = program
    · subst same
      rw [own, Function.update_self]
      by_cases here : state = index
      · simp [here]
      · simp [here, owned.used]
    · rw [none other same, Function.update_of_ne same, owned.used]
      simp

/-- With all states in use there are ten windows already. -/
theorem StatesOwned.exhausted (owned : StatesOwned items used) {program : GuiProgram}
    (taken : ∀ index, used program index = true) : ¬items.length < maxWindows := by
  have all : List.finRange maxWindows ⊆ stateRefs items program :=
    fun index _ => (owned.used program index).mp (taken index)
  have many := (List.subperm_of_subset (List.nodup_finRange maxWindows) all).length_le
  have few : (stateRefs items program).length ≤ items.length := List.length_filterMap_le _ _
  rw [List.length_finRange] at many
  omega

theorem freshWindow_plain : FreshWindow used none (frame.window screen record id) ↔ CleanRecord none record := by
  constructor
  · intro fresh
    refine ⟨fresh.state, ?_, ?_⟩
    · intro own _
      cases held : record.programState own with
      | none => rfl
      | some index => cases (fresh.states own index held).1
    · intro own _ apart
      have flag := fresh.flags own
      rw [show (frame.window screen record id).isProgram own =
        record.isProgram own from Function.update_of_ne apart _ _] at flag
      simpa using flag
  · intro clean
    refine ⟨clean.state, ?_, ?_⟩
    · intro own
      by_cases terminal : own = .terminal
      · subst terminal
        simp [LaunchFrame.window, createdWindow]
      · have flag := clean.flags own (by simp) terminal
        simp [LaunchFrame.window, createdWindow, terminal, flag]
    · intro own index held
      cases (clean.states own (by simp)).symm.trans held

theorem freshWindow_program {program : GuiProgram} {index : Fin maxWindows} (free : used program index = false) :
    FreshWindow used (some program) (programWindow (frame.window screen record id) program index) ↔
      CleanRecord (some program) record := by
  have state {own : GuiProgram} (apart : own ≠ program) :
      (programWindow (frame.window screen record id) program index).programState own = record.programState own :=
    Function.update_of_ne apart _ _
  have flag {own : GuiProgram} (apart : own ≠ program) (plain : own ≠ .terminal) :
      (programWindow (frame.window screen record id) program index).isProgram own = record.isProgram own :=
    (Function.update_of_ne apart _ _).trans (Function.update_of_ne plain _ _)
  constructor
  · intro fresh
    refine ⟨fresh.state, ?_, ?_⟩
    · intro own apart
      cases held : record.programState own with
      | none => rfl
      | some other =>
        have ours := (fresh.states own other ((state (by rintro rfl; exact apart rfl)).trans held)).1
        exact absurd ours apart
    · intro own apart plain
      have ours := fresh.flags own
      rw [flag (by rintro rfl; exact apart rfl) plain] at ours
      exact Bool.eq_false_iff.mpr fun set => apart (ours.mp set)
  · intro clean
    refine ⟨clean.state, ?_, ?_⟩
    · intro own
      by_cases same : own = program
      · subst same
        simp [programWindow, markedWindow]
      · have other : some program ≠ some own := fun equal => same (Option.some.inj equal).symm
        by_cases terminal : own = .terminal
        · subst terminal
          simp [programWindow, markedWindow, LaunchFrame.window, createdWindow, same, other]
        · rw [flag same terminal, clean.flags own other terminal]
          simp [other]
    · intro own other held
      by_cases same : own = program
      · subst same
        rw [programWindow] at held
        simp only [Function.update_self, Option.some.injEq] at held
        exact ⟨rfl, held ▸ free⟩
      · rw [state same, clean.states own fun equal => same (Option.some.inj equal).symm] at held
        cases held

variable {call : GuiCall}

theorem takesClean_iff (shown : GuiIs gui items buttons) (asks : call.frame? = some frame)
    (menu : call = .startButton → NoMenu items) (room : items.length < maxWindows) :
    TakesClean gui call ↔ CleanRecord frame.program (gui.windows ⟨items.length, room⟩) := by
  have count := shown.count
  constructor
  · intro takes
    have clean := takes frame asks (by rwa [shown.openWindows_eq]) (by omega)
    simpa only [count] using clean
  · intro clean other asked _ _
    cases asks.symm.trans asked
    simpa only [count] using clean

theorem startsFresh_iff (shown : GuiIs gui items buttons) (asks : call.frame? = some frame) {window : GuiWindow}
    {others : List TaskbarButton} (created : GuiIs after (items.map unfocused ++ [window]) others) :
    StartsFresh gui call after ↔ FreshWindow gui.stateUsed frame.program window := by
  have count := created.count
  rw [List.length_append, List.length_map, List.length_singleton, ← shown.count] at count
  simp [StartsFresh, count, created.openWindows_eq, shown.openWindows_eq, asks]

theorem startsFresh_small (small : after.windowCount ≤ gui.windowCount) : StartsFresh gui call after := by
  intro grown
  omega

/-- A launch keeps the states owned, and its window is fresh, exactly when it takes a clean record. -/
theorem Launched.owned_iff (shown : GuiIs gui items buttons) (owned : StatesOwned items gui.stateUsed)
    (asks : call.frame? = some frame) (menu : call = .startButton → NoMenu items)
    (launched : Launched screen gui items buttons frame after) :
    StatesOwned (openWindows after) after.stateUsed ∧ StartsFresh gui call after ↔ TakesClean gui call := by
  cases launched with
  | full full =>
    rw [shown.openWindows_eq]
    refine iff_of_true ⟨owned, startsFresh_small (Nat.le_refl _)⟩ ?_
    intro _ _ _ room
    rw [shown.count] at room
    exact absurd room full
  | plain room program created _ same =>
    rw [takesClean_iff shown asks menu room, startsFresh_iff shown asks created, program, freshWindow_plain,
      created.openWindows_eq, same]
    exact and_iff_right_of_imp fun clean => owned.create fun own => clean.states own (by simp)
  | exhausted room _ taken => exact absurd room (owned.exhausted taken)
  | started room program free created _ same =>
    rw [takesClean_iff shown asks menu room, startsFresh_iff shown asks created, program, freshWindow_program free,
      created.openWindows_eq, same]
    refine and_iff_right_of_imp fun clean => owned.start free ?_ ?_
    · simp [programWindow]
    · intro other apart
      simp only [programWindow, Function.update_of_ne apart]
      exact clean.states other fun equal => apart (Option.some.inj equal).symm

/-- Other calls always keep the states owned. -/
theorem Outcome.owned_iff (shown : GuiIs gui items buttons) (owned : StatesOwned items gui.stateUsed)
    (outcome : Outcome screen gui items buttons call after) :
    StatesOwned (openWindows after) after.stateUsed ∧ StartsFresh gui call after ↔ TakesClean gui call := by
  cases outcome with
  | launched asks menu launched => exact launched.owned_iff shown owned asks menu
  | closed index inside asks left _ same =>
    rw [left.openWindows_eq, same]
    refine iff_of_true ⟨owned.close inside, startsFresh_small ?_⟩ ?_
    · rw [left.count, shown.count, List.length_eraseIdx_of_lt inside]
      omega
    · intro frame asked menu room
      rcases asks with ⟨slot, rfl, -⟩ | ⟨rfl, some⟩
      · cases asked
      · exact absurd (shown.openWindows_eq ▸ menu rfl) some
  | focused =>
    rw [shown.openWindows_eq]
    exact iff_of_true ⟨owned, startsFresh_small (Nat.le_refl _)⟩ (by intro _ asked; cases asked)
  | raised inside _ moved raise _ same =>
    rw [moved.openWindows_eq, same]
    refine iff_of_true ⟨owned.raise inside raise, startsFresh_small ?_⟩ (by intro _ asked; cases asked)
    have length := congrArg List.length raise
    simp only [List.length_map, length_raised inside] at length
    rw [moved.count, shown.count, length]
  | edited slot asks inside set _ same =>
    rw [set.openWindows_eq, same]
    refine iff_of_true ⟨owned.edit inside (edited_same screen _ call).programState, startsFresh_small ?_⟩ ?_
    · rw [set.count, shown.count, List.length_set]
    · intro frame asked
      cases call <;> cases asks <;> cases asked

/-- A call that takes a clean record for a window it opens. -/
def CleanMoves (screen : Screen) (before : GuiState) (call : GuiCall) (after : GuiState) : Prop :=
  GuiMoves screen before call after ∧ TakesClean before call

/-- While every window that is opened takes a clean record, the states are owned; and a
further call keeps to that, with a fresh window, exactly when it takes a clean record. -/
theorem states_owned_iff (screen : Screen) {gui : GuiState} (reached : Reachable (· = guiInit) (CleanMoves screen) gui) :
    StatesOwned (openWindows gui) gui.stateUsed ∧ ∀ call after, GuiMoves screen gui call after →
      (StatesOwned (openWindows after) after.stateUsed ∧ StartsFresh gui call after ↔ TakesClean gui call) := by
  obtain ⟨⟨items, buttons, shown⟩, owned⟩ : (∃ items buttons, GuiIs gui items buttons) ∧
      StatesOwned (openWindows gui) gui.stateUsed := by
    refine guiReachable_invariant (fun gui => StatesOwned (openWindows gui) gui.stateUsed)
      (fun _ _ _ clean => clean.1) statesOwned_init ?_ reached
    rintro before call after items buttons shown owned ⟨moves, takes⟩
    rw [shown.openWindows_eq] at owned
    exact (((moves.outcome shown).owned_iff shown owned).mpr takes).1
  refine ⟨owned, ?_⟩
  intro call after moves
  rw [shown.openWindows_eq] at owned
  exact (moves.outcome shown).owned_iff shown owned

theorem states_owned_iff_terminal : ∃ after, GuiMoves ⟨1024, 768⟩ guiInit (.launch .terminal) after ∧
    StatesOwned (openWindows after) after.stateUsed ∧ StartsFresh guiInit (.launch .terminal) after := by
  have takes : TakesClean guiInit (.launch .terminal) := by
    intro _ _ _ _
    exact ⟨rfl, fun _ _ => rfl, fun _ _ _ => rfl⟩
  obtain ⟨after, runs⟩ : ∃ after, (GuiCall.launch .terminal).run ⟨1024, 768⟩ guiInit = .ok after := ⟨_, rfl⟩
  have moves : GuiMoves ⟨1024, 768⟩ guiInit (.launch .terminal) after := ⟨nofun, runs⟩
  exact ⟨after, moves, ((states_owned_iff ⟨1024, 768⟩ (.initial rfl)).2 _ after moves).mpr takes⟩

/-- The first of two terminals is closed, which leaves a copy of the second one behind it.
The window that is opened there shares its state. -/
theorem state_shared : ∃ gui, Reachable (· = guiInit) (GuiMoves ⟨1024, 768⟩) gui ∧
    ¬(stateRefs (openWindows gui) .terminal).Nodup := by
  have runs : (runGuiCalls ⟨1024, 768⟩ guiInit [.launch .terminal, .launch .terminal, .destroy 0, .launch .shutdown]).map
      (fun gui => (stateRefs (openWindows gui) .terminal).map Fin.val) = some [1, 1] := by decide +kernel
  obtain ⟨gui, ran, shared⟩ := Option.map_eq_some_iff.mp runs
  refine ⟨gui, reachable_runGuiCalls (fun _ _ _ _ moves => moves) (.initial rfl) ran, ?_⟩
  intro once
  have twice := once.map Fin.val_injective
  rw [shared] at twice
  exact absurd twice (by decide)

end Kernix.Proofs
