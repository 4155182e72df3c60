import Kernix.Lib.Runs
import Kernix.Proofs.ElfBalance
import Kernix.Proofs.GuiLists
import Kernix.Proofs.Strings

/-! The table of modules against the list of what was loaded and registered and is not yet
unloaded. A loaded module has no exit function, but its record keeps the one that an
earlier module left in the slot. -/

namespace Kernix.Proofs
open SlotList Transition Holdings

/-- A module as it was loaded or registered. -/
structure LkmEntry where
  name : List UInt8
  exit : Nat
  image : Nat

/-- The modules that are in the table, in order, and whether each that was registered came
without an image or with one of its own. -/
structure LkmHistory where
  modules : List LkmEntry
  own : Bool

def LkmHistory.push (history : LkmHistory) (module : LkmEntry) (own : Bool) : LkmHistory :=
  ⟨history.modules ++ [module], history.own && own⟩

def LkmHistory.drop (history : LkmHistory) (name : List UInt8) : LkmHistory :=
  { history with modules := history.modules.eraseP fun module => module.name = name }

/-- The image is a block in use, of no module in the table. -/
def ownImage (ledger : Ledger) (modules : List LkmEntry) (image : Nat) : Bool :=
  image = 0 ∨ image ∈ ledger.blocks.held ∧ ∀ module ∈ modules, module.image ≠ image

inductive LkmCall where
  | load (beyond : BeyondTables) (file : Option (List UInt8)) (answers : ElfAnswers) (memory : ByteMemory.Memory)
      (initFunc : Nat → Int)
  | register (mod : Option LkmModule)
  | unload (name : List UInt8)

def LkmCall.run (state : LkmState) : LkmCall → Except Stop (Int × LkmState)
  | .load beyond file answers memory initFunc => lkmLoad beyond file answers memory initFunc state
  | .register mod => lkmRegisterBuiltin state mod
  | .unload name => lkmUnload state name

/-- A call with what it does to the history. A module that is loaded has no exit function. -/
inductive LkmMoves : LkmState × LkmHistory → LkmCall → LkmState × LkmHistory → Prop where
  | fails {state after history call ret} (result : LkmCall.run state call = .ok (ret, after)) (nonzero : ret ≠ 0) :
      LkmMoves (state, history) call (after, history)
  | loads {state after history beyond file answers memory initFunc loaded ledger}
      (result : lkmLoad beyond file answers memory initFunc state = .ok (0, after))
      (image : elfLoadModuleIn beyond file answers state.ledger memory = .ok (some loaded, ledger)) :
      LkmMoves (state, history) (.load beyond file answers memory initFunc)
        (after, history.push ⟨literal "unknown", 0, loaded.moduleBase⟩ true)
  | registers {state after history mod} (result : lkmRegisterBuiltin state (some mod) = .ok (0, after)) :
      LkmMoves (state, history) (.register (some mod))
        (after, history.push ⟨mod.name, mod.exit, mod.moduleCore⟩ (ownImage state.ledger history.modules mod.moduleCore))
  | unloads {state after history name} (result : lkmUnload state name = .ok (0, after)) :
      LkmMoves (state, history) (.unload name) (after, history.drop name)

/-- The records of the table that are in use. -/
def lkmRecords (state : LkmState) : List LkmModule := (List.ofFn state.loadedLkms).take state.lkmCount

/-- The module at a position is taken out: its own exit function is called if it has one,
its own image is given back once, and the other records stay. -/
structure TakenOut (state : LkmState) (own : Bool) (position : Nat) (module : LkmEntry) (after : LkmState) : Prop where
  exits : after.exits = if module.exit ≠ 0 then module.exit :: state.exits else state.exits
  image : after.ledger = if module.image ≠ 0 then state.ledger.kfree module.image else state.ledger
  once : own = true → after.ledger.blocks.faults = state.ledger.blocks.faults
  others : lkmRecords after = (lkmRecords state).eraseIdx position

def UnloadsRight (state : LkmState) (history : LkmHistory) : Prop :=
  ∀ name,
    (∀ module ∈ history.modules, module.name ≠ name) ∧ lkmUnload state name = .ok (-1, state) ∨
      ∃ position module after, history.modules[position]? = some module ∧ module.name = name ∧
        lkmUnload state name = .ok (0, after) ∧ TakenOut state history.own position module after ∧
        after.lkmCount + 1 = state.lkmCount

/-- A module is loaded only into a slot where no exit function was left. -/
def LkmCall.Clean (state : LkmState) : LkmCall → Prop
  | .load beyond file answers memory initFunc => ∀ loaded ledger,
      elfLoadModuleIn beyond file answers state.ledger memory = .ok (some loaded, ledger) →
        initFunc loaded.entryPoint = 0 → ∀ free : state.lkmCount < maxLkms,
          (state.loadedLkms ⟨state.lkmCount, free⟩).exit = 0
  | _ => True

/-- What the record of a module says of it. -/
def entryOf (mod : LkmModule) : LkmEntry := ⟨mod.name, mod.exit, mod.moduleCore⟩

/-- Images are in use and of one module each, if each module came with its own. -/
structure OwnImages (modules : List LkmEntry) (ledger : Ledger) : Prop where
  used : ∀ module ∈ modules, module.image ≠ 0 → module.image ∈ ledger.blocks.held
  apart : modules.Pairwise fun first second => first.image = second.image → first.image = 0

structure ModulesHeld (records : List LkmModule) (state : LkmState) (history : LkmHistory) : Prop where
  table : SlotList.Holds state.loadedLkms records
  count : state.lkmCount = records.length
  modules : history.modules = records.map entryOf
  own : history.own = true → OwnImages history.modules state.ledger

variable {records : List LkmModule} {state after : LkmState} {history : LkmHistory} {name : List UInt8}

section Images
variable {modules : List LkmEntry} {ledger : Ledger} {module : LkmEntry} {position : Nat}

theorem OwnImages.push (own : OwnImages modules ledger) (used : module.image ≠ 0 → module.image ∈ ledger.blocks.held)
    (apart : ∀ other ∈ modules, other.image = module.image → other.image = 0) :
    OwnImages (modules ++ [module]) ledger := by
  constructor
  · intro other inside
    rcases List.mem_append.mp inside with early | last
    · exact own.used other early
    · rw [List.mem_singleton.mp last]
      exact used
  · rw [List.pairwise_append]
    refine ⟨own.apart, List.pairwise_singleton _ _, ?_⟩
    intro other early last there
    rw [List.mem_singleton.mp there]
    exact apart other early

/-- A block that is taken changes nothing for the images. -/
theorem OwnImages.addBlock (own : OwnImages modules ledger) (block : Nat) : OwnImages modules (addBlock ledger block) :=
  ⟨fun module inside nonzero => List.mem_cons_of_mem _ (own.used module inside nonzero), own.apart⟩

/-- The image that is given back is no other module's. -/
theorem OwnImages.drop (own : OwnImages modules ledger) (found : modules[position]? = some module) :
    OwnImages (modules.eraseIdx position) (if module.image ≠ 0 then ledger.kfree module.image else ledger) := by
  obtain ⟨inside, there⟩ := List.getElem?_eq_some_iff.mp found
  have perm : (module :: modules.eraseIdx position).Perm modules := by
    rw [← there]
    exact List.getElem_cons_eraseIdx_perm inside
  obtain ⟨others, rest⟩ := List.pairwise_cons.mp
    ((perm.pairwise_iff fun related same => same.trans (related same.symm)).mpr own.apart)
  by_cases image : module.image ≠ 0
  · rw [if_pos image]
    have given : ledger.kfree module.image = { ledger with blocks := ledger.blocks.give module.image } := if_neg image
    refine ⟨fun other stays nonzero => ?_, rest⟩
    have differ : other.image ≠ module.image := fun same => image (others other stays same.symm)
    rw [given, give_held (own.used module (List.mem_of_getElem? found) image)]
    exact (List.mem_erase_of_ne differ).mpr (own.used other (List.mem_of_mem_eraseIdx stays) nonzero)
  · rw [if_neg image]
    exact ⟨fun other stays => own.used other (List.mem_of_mem_eraseIdx stays), rest⟩

/-- The image that is given back was in use. -/
theorem OwnImages.given (own : OwnImages modules ledger) (inside : module ∈ modules) :
    (if module.image ≠ 0 then ledger.kfree module.image else ledger).blocks.faults = ledger.blocks.faults := by
  by_cases image : module.image ≠ 0
  · have given : ledger.kfree module.image = { ledger with blocks := ledger.blocks.give module.image } := if_neg image
    rw [if_pos image, given, give_held (own.used module inside image)]
  · rw [if_neg image]

end Images

section Unloads
variable {position : Nat}

/-- The search for the name goes through the records in use. -/
theorem ModulesHeld.finds (held : ModulesHeld records state history) (name : List UInt8) :
    lkmFind state name = .ok (records.findIdx? fun mod => strEquals mod.name name) := by
  rw [lkmFind, held.count]
  exact findElement_all held.table _

theorem ModulesHeld.missed (held : ModulesHeld records state history)
    (none : records.findIdx? (fun mod => strEquals mod.name name) = none) : lkmUnload state name = .ok (-1, state) := by
  have searched := held.finds name
  rw [none, lkmFind] at searched
  rw [lkmUnload, searched]
  rfl

/-- What is left when the record at a position is taken out. -/
def unloaded (state : LkmState) (position : Nat) (mod : LkmModule) : LkmState where
  loadedLkms := shifted state.loadedLkms position (state.lkmCount - 1 - position)
  lkmCount := state.lkmCount - 1
  ledger := if mod.moduleCore ≠ 0 then state.ledger.kfree mod.moduleCore else state.ledger
  exits := if mod.exit ≠ 0 then mod.exit :: state.exits else state.exits

theorem ModulesHeld.unloads (held : ModulesHeld records state history) (inside : position < records.length)
    (found : records.findIdx? (fun mod => strEquals mod.name name) = some position) :
    lkmUnload state name = .ok (0, unloaded state position records[position]) := by
  have fits := held.table.fits
  have within : position + (state.lkmCount - 1 - position) < maxLkms := by
    rw [held.count]
    omega
  have searched := held.finds name
  rw [found, lkmFind] at searched
  rw [lkmUnload, searched]
  simp only [bind, Except.bind]
  rw [elementAt_eq _ (by omega), held.table.slot position inside]
  simp only
  rw [shiftElements_eq _ within]
  rfl

/-- The records and the history lose the same module. -/
theorem ModulesHeld.drop (held : ModulesHeld records state history) (inside : position < records.length)
    (found : records.findIdx? (fun mod => strEquals mod.name name) = some position) :
    ModulesHeld (records.eraseIdx position) (unloaded state position records[position]) (history.drop name) := by
  have same (mod : LkmModule) : strEquals mod.name name = decide ((entryOf mod).name = name) := by
    rw [Bool.eq_iff_iff, strEquals_iff, decide_eq_true_iff]
    rfl
  have dropped : (history.drop name).modules = (records.eraseIdx position).map entryOf := by
    rw [LkmHistory.drop, held.modules, List.eraseP_map, List.eraseP_eq_eraseIdx]
    simp only [Function.comp_def, ← same]
    rw [found]
  have there : history.modules[position]? = some (entryOf records[position]) := by
    rw [held.modules, List.getElem?_map, List.getElem?_eq_getElem inside]
    rfl
  refine ⟨?_, ?_, dropped, fun own => ?_⟩
  · have table := held.table.erase inside
    rwa [← held.count] at table
  · rw [List.length_eraseIdx_of_lt inside, ← held.count]
    rfl
  · rw [dropped, ← List.eraseIdx_map, ← held.modules]
    exact (held.own own).drop there

theorem ModulesHeld.listed (held : ModulesHeld records state history) : lkmRecords state = records := by
  rw [lkmRecords, held.count]
  exact held.table.take_ofFn

theorem ModulesHeld.right (held : ModulesHeld records state history) : UnloadsRight state history := by
  intro name
  rcases found : records.findIdx? (fun mod => strEquals mod.name name) with _ | position
  · refine .inl ⟨?_, held.missed found⟩
    intro module inside
    rw [held.modules] at inside
    obtain ⟨mod, there, rfl⟩ := List.mem_map.mp inside
    have differs := List.findIdx?_eq_none_iff.mp found mod there
    intro same
    rw [(strEquals_iff mod.name name).mpr same] at differs
    cases differs
  · obtain ⟨inside, passes, -⟩ := List.findIdx?_eq_some_iff_getElem.mp found
    have there : history.modules[position]? = some (entryOf records[position]) := by
      rw [held.modules, List.getElem?_map, List.getElem?_eq_getElem inside]
      rfl
    have left := held.drop inside found
    refine .inr ⟨position, entryOf records[position], unloaded state position records[position], there,
      (strEquals_iff _ _).mp passes, held.unloads inside found, ⟨rfl, rfl, ?_, ?_⟩, ?_⟩
    · exact fun own => (held.own own).given (List.mem_of_getElem? there)
    · rw [left.listed, held.listed]
    · rw [left.count, held.count, List.length_eraseIdx_of_lt inside]
      omega

end Unloads

/-- A module comes into the first slot behind the records in use. -/
theorem ModulesHeld.push (held : ModulesHeld records state history) (free : state.lkmCount < maxLkms) (mod : LkmModule)
    (ledger : Ledger) (own : Bool)
    (owned : (history.own && own) = true → OwnImages (history.modules ++ [entryOf mod]) ledger) :
    ModulesHeld (records ++ [mod])
      { state with
        loadedLkms := Function.update state.loadedLkms ⟨state.lkmCount, free⟩ mod
        lkmCount := state.lkmCount + 1
        ledger }
      (history.push (entryOf mod) own) := by
  obtain ⟨table, count, modules, -⟩ := held
  refine ⟨?_, ?_, ?_, owned⟩
  · have room : records.length < maxLkms := count ▸ free
    have slot : (⟨state.lkmCount, free⟩ : Fin maxLkms) = ⟨records.length, room⟩ := Fin.ext count
    rw [slot]
    exact table.push room mod
  · rw [List.length_append, List.length_singleton, ← count]
  · rw [LkmHistory.push, modules, List.map_append]
    rfl

section Steps
variable {beyond : BeyondTables} {file : Option (List UInt8)} {answers : ElfAnswers} {memory : ByteMemory.Memory}
  {initFunc : Nat → Int} {loaded : ElfModule} {ledger : Ledger} {mod : LkmModule} {ret : Int} {call : LkmCall}

/-- The slot has no exit function, so that the record says of the module what it was loaded as. -/
theorem ModulesHeld.load (held : ModulesHeld records state history)
    (clean : (LkmCall.load beyond file answers memory initFunc).Clean state)
    (result : lkmLoad beyond file answers memory initFunc state = .ok (0, after))
    (image : elfLoadModuleIn beyond file answers state.ledger memory = .ok (some loaded, ledger)) :
    ∃ records, ModulesHeld records after (history.push ⟨literal "unknown", 0, loaded.moduleBase⟩ true) := by
  rcases lkmLoad_cases result with ⟨failed, -⟩ | ⟨free, other, loads, given, fresh, starts, -, rfl⟩
  · cases failed
  obtain ⟨rfl, rfl⟩ : loaded = other ∧ ledger = addBlock state.ledger other.moduleBase := by
    rw [image] at loads
    cases loads
    exact ⟨rfl, rfl⟩
  have unset := clean _ _ image starts free
  have owned (own : (history.own && true) = true) :
      OwnImages (history.modules ++ [⟨literal "unknown", 0, loaded.moduleBase⟩])
        (addBlock state.ledger loaded.moduleBase) := by
    have before := held.own (by simpa using own)
    refine (before.addBlock loaded.moduleBase).push (fun _ => List.mem_cons_self) ?_
    intro other inside same
    by_contra nonzero
    apply fresh
    rw [show loaded.moduleBase = other.image from same.symm]
    exact before.used other inside nonzero
  have entry : entryOf { state.loadedLkms ⟨state.lkmCount, free⟩ with
      name := literal "unknown"
      moduleCore := loaded.moduleBase
      size := loaded.moduleSize
      init := loaded.entryPoint } = ⟨literal "unknown", 0, loaded.moduleBase⟩ := by
    simp only [entryOf, unset]
  rw [← entry] at owned ⊢
  exact ⟨_, held.push free _ _ true owned⟩

theorem ModulesHeld.register (held : ModulesHeld records state history)
    (result : lkmRegisterBuiltin state (some mod) = .ok (0, after)) :
    ∃ records, ModulesHeld records after
      (history.push (entryOf mod) (ownImage state.ledger history.modules mod.moduleCore)) := by
  unfold lkmRegisterBuiltin at result
  by_cases full : maxLkms ≤ state.lkmCount
  · rw [if_pos full] at result
    cases result
  rw [if_neg full] at result
  have free : state.lkmCount < maxLkms := Nat.lt_of_not_le full
  obtain ⟨table, writes, result⟩ := bind_ok result
  obtain rfl := Except.ok.inj ((setElement_eq _ free _).symm.trans writes)
  cases result
  refine ⟨_, held.push free mod state.ledger _ fun own => ?_⟩
  obtain ⟨before, image⟩ := Bool.and_eq_true_iff.mp own
  have image : mod.moduleCore = 0 ∨
      mod.moduleCore ∈ state.ledger.blocks.held ∧ ∀ module ∈ history.modules, module.image ≠ mod.moduleCore :=
    of_decide_eq_true image
  refine (held.own before).push (fun nonzero => (image.resolve_left nonzero).1) ?_
  intro other inside same
  rcases image with none | ⟨-, apart⟩
  · exact same.trans none
  · exact absurd same (apart other inside)

/-- A call that fails leaves everything as it was. -/
theorem ModulesHeld.fails (held : ModulesHeld records state history) (result : call.run state = .ok (ret, after))
    (nonzero : ret ≠ 0) : after = state := by
  cases call with
  | load beyond file answers memory initFunc =>
    rcases lkmLoad_cases result with ⟨-, same⟩ | ⟨_, _, _, _, _, _, zero, _⟩
    · exact same
    · exact absurd zero nonzero
  | register mod =>
    change lkmRegisterBuiltin state mod = .ok (ret, after) at result
    unfold lkmRegisterBuiltin at result
    by_cases full : maxLkms ≤ state.lkmCount
    · rw [if_pos full] at result
      cases result
      rfl
    rw [if_neg full] at result
    cases mod with
    | none =>
      cases result
      rfl
    | some mod =>
      obtain ⟨table, -, result⟩ := bind_ok result
      cases result
      exact absurd rfl nonzero
  | unload name =>
    rcases held.right name with ⟨-, misses⟩ | ⟨_, _, _, _, _, unloads, _⟩
    · have same := misses.symm.trans result
      cases same
      rfl
    · have same := unloads.symm.trans result
      cases same
      exact absurd rfl nonzero

theorem ModulesHeld.moves {history' : LkmHistory} (held : ModulesHeld records state history) (clean : call.Clean state)
    (moves : LkmMoves (state, history) call (after, history')) : ∃ records, ModulesHeld records after history' := by
  cases moves with
  | fails result nonzero =>
    obtain rfl := held.fails result nonzero
    exact ⟨records, held⟩
  | loads result image => exact held.load clean result image
  | registers result => exact held.register result
  | unloads result =>
    rcases found : records.findIdx? (fun mod => strEquals mod.name _) with _ | position
    · have same := (held.missed found).symm.trans result
      cases same
    · obtain ⟨inside, -⟩ := List.findIdx?_eq_some_iff_getElem.mp found
      have same := (held.unloads inside found).symm.trans result
      cases same
      exact ⟨_, held.drop inside found⟩

end Steps

/-- Nothing was loaded or registered since `lkm_init`. -/
def StartsEmpty (run : LkmState × LkmHistory) : Prop := ∃ state, run = (lkmInit state, ⟨[], true⟩)

theorem startsEmpty_held {run : LkmState × LkmHistory} (starts : StartsEmpty run) : ModulesHeld [] run.1 run.2 := by
  obtain ⟨state, rfl⟩ := starts
  exact ⟨holds_nil _, rfl, rfl, fun _ => ⟨by simp, List.Pairwise.nil⟩⟩

/-- In a run that loads modules into slots without an exit function only, every module is
taken out as it was put in. -/
theorem lkm_unload_right {run : LkmState × LkmHistory}
    (reached : Reachable StartsEmpty (fun before call after => call.Clean before.1 ∧ LkmMoves before call after) run) :
    UnloadsRight run.1 run.2 := by
  have held : ∃ records, ModulesHeld records run.1 run.2 := by
    refine reached.invariant (fun run => ∃ records, ModulesHeld records run.1 run.2) ?_ ?_
    · exact fun run starts => ⟨[], startsEmpty_held starts⟩
    · rintro before call after ⟨records, held⟩ ⟨clean, moves⟩
      exact held.moves clean moves
  obtain ⟨records, held⟩ := held
  exact held.right

/-- Every call that returns is a step of the history. -/
theorem LkmCall.moves {call : LkmCall} {ret : Int} (result : call.run state = .ok (ret, after)) (history : LkmHistory) :
    ∃ history', LkmMoves (state, history) call (after, history') := by
  by_cases nonzero : ret ≠ 0
  · exact ⟨history, .fails result nonzero⟩
  obtain rfl : ret = 0 := not_not.mp nonzero
  cases call with
  | load beyond file answers memory initFunc =>
    rcases lkmLoad_cases result with ⟨failed, -⟩ | ⟨_, loaded, image, -⟩
    · cases failed
    · exact ⟨_, .loads result image⟩
  | register mod =>
    cases mod with
    | none =>
      change lkmRegisterBuiltin state none = .ok (0, after) at result
      unfold lkmRegisterBuiltin at result
      split at result
      · cases result
      · cases result
    | some mod => exact ⟨_, .registers result⟩
  | unload name => exact ⟨_, .unloads result⟩

def consoleModule : LkmModule := ⟨literal "console", 0x1000, 0, 0x2000, 0x3000, 0, 0⟩

/-- An image is loaded that its `init` accepts. -/
def loadPlain : LkmCall := .load nothingBeyond (some plainObject) firstAnswers (fun _ => 0) fun _ => 0

private theorem runs_of_toOption {α : Type} {result : Except Stop α} {value : α} (there : result.toOption = some value) :
    result = .ok value := by
  cases result with
  | error stop => cases there
  | ok other => exact congrArg Except.ok (Option.some.inj there)

theorem loadPlain_moves (result : loadPlain.run state = .ok (0, after)) : ∃ image, ∀ history,
    LkmMoves (state, history) loadPlain (after, history.push ⟨literal "unknown", 0, image⟩ true) := by
  change lkmLoad nothingBeyond (some plainObject) firstAnswers (fun _ => 0) (fun _ => 0) state = .ok (0, after) at result
  rcases lkmLoad_cases result with ⟨failed, -⟩ | ⟨_, loaded, image, -⟩
  · cases failed
  · exact ⟨loaded.moduleBase, fun history => .loads result image⟩

private theorem startsEmpty_reached {step : LkmState × LkmHistory → LkmCall → LkmState × LkmHistory → Prop} :
    Reachable StartsEmpty step (noModules, ⟨[], true⟩) := .initial ⟨_, rfl⟩

/-- A module is loaded behind one with an exit function, into a slot that had none. -/
theorem lkm_unload_right_fresh : ∃ state history,
    history.modules.map (·.exit) = [0x3000, 0] ∧ UnloadsRight state history := by
  have run : ((do
      let (first, state) ← LkmCall.run noModules (.register (some consoleModule))
      let (second, after) ← LkmCall.run state loadPlain
      return ([first, second], state.lkmCount, (state.loadedLkms 1).exit)) :
        Except Stop (List Int × Nat × Nat)).toOption = some ([0, 0], 1, 0) := by decide +kernel
  obtain ⟨⟨first, state⟩, registers, run⟩ := bind_ok (runs_of_toOption run)
  obtain ⟨⟨second, after⟩, loads, run⟩ := bind_ok run
  obtain ⟨⟨rfl, rfl⟩, count, unset⟩ :
      (first = 0 ∧ second = 0) ∧ state.lkmCount = 1 ∧ (state.loadedLkms 1).exit = 0 := by
    injection run with run
    simpa using run
  obtain ⟨image, moves⟩ := loadPlain_moves loads
  have clean : (LkmCall.register (some consoleModule)).Clean noModules := trivial
  refine ⟨after, _, ?_, lkm_unload_right ((startsEmpty_reached.step ⟨clean, .registers registers⟩).step ⟨?_, moves _⟩)⟩
  · simp [LkmHistory.push, consoleModule]
  · intro _ _ _ _ free
    rw [← unset]
    exact congrArg (fun slot => (state.loadedLkms slot).exit) (Fin.ext count)

/-- The module with an exit function is unloaded, and the module that is loaded into its slot
is unloaded with that function. -/
theorem stale_exit_called : ∃ state history after,
    Reachable StartsEmpty LkmMoves (state, history) ∧ history.modules.map (·.exit) = [0] ∧
      lkmUnload state (literal "unknown") = .ok (0, after) ∧ state.exits = [0x3000] ∧ after.exits = [0x3000, 0x3000] ∧
      ¬UnloadsRight state history := by
  have run : ((do
      let (first, state) ← LkmCall.run noModules (.register (some consoleModule))
      let (second, state) ← LkmCall.run state (.unload (literal "console"))
      let (third, state) ← LkmCall.run state loadPlain
      let (fourth, after) ← lkmUnload state (literal "unknown")
      return ([first, second, third, fourth], state.exits, after.exits)) :
        Except Stop (List Int × List Nat × List Nat)).toOption =
          some ([0, 0, 0, 0], [0x3000], [0x3000, 0x3000]) := by decide +kernel
  obtain ⟨⟨first, registered⟩, registers, run⟩ := bind_ok (runs_of_toOption run)
  obtain ⟨⟨second, removed⟩, removes, run⟩ := bind_ok run
  obtain ⟨⟨third, state⟩, loads, run⟩ := bind_ok run
  obtain ⟨⟨fourth, after⟩, unloads, run⟩ := bind_ok run
  obtain ⟨⟨rfl, rfl, rfl, rfl⟩, exits, exits'⟩ :
      (first = 0 ∧ second = 0 ∧ third = 0 ∧ fourth = 0) ∧ state.exits = [0x3000] ∧ after.exits = [0x3000, 0x3000] := by
    injection run with run
    simpa using run
  obtain ⟨image, moves⟩ := loadPlain_moves loads
  have reached := ((startsEmpty_reached.step (.registers registers)).step (.unloads removes)).step (moves _)
  generalize history : LkmHistory.push _ _ _ = last at reached
  have modules : last.modules = [⟨literal "unknown", 0, image⟩] := by
    rw [← history]
    simp [LkmHistory.push, LkmHistory.drop, consoleModule]
  refine ⟨state, last, after, reached, by rw [modules]; rfl, unloads, exits, exits', fun right => ?_⟩
  rcases right (literal "unknown") with ⟨-, misses⟩ | ⟨position, module, other, found, -, runs, taken, -⟩
  · have same := unloads.symm.trans misses
    cases same
  · have same := unloads.symm.trans runs
    cases same
    have there := List.mem_of_getElem? found
    rw [modules, List.mem_singleton] at there
    have called := taken.exits
    rw [there, exits, exits'] at called
    cases called

end Kernix.Proofs
