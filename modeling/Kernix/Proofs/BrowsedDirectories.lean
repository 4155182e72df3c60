import Kernix.Gui.FileManager
import Kernix.Proofs.PathBuffers
import Kernix.Proofs.TmpfsTree
import Kernix.Proofs.WorkingDirectory

/-! The directories that the file manager shows. Its window keeps the path and the names of
the directory that it loaded last, whatever has become of the files since then. A click
follows the names that are shown through the files that there are at that time. -/

namespace Kernix.Proofs
open ByteMemory Transition

variable {δ : Type} {state : FsState δ} {before middle after : GuiFileManagerState} {path name : List UInt8}
variable {names : List (List UInt8)}

/-- The way up is listed in every directory but the root. -/
def upEntry (path : List UInt8) : List (List UInt8) := if 1 < path.length then [literal ".."] else []

/-- The children that are shown of what a path leads to. Where there is no directory nothing
is shown, the way up neither. -/
inductive Listing (state : FsState δ) (path : List UInt8) : List Nat → List (List UInt8) → Prop where
  | directory {dir : Nat} {kids : List Nat} (resolves : fsResolve state path = .ok dir) (given : dir ≠ 0)
      (type : (state.nodes dir).type = fsDir) (chain : Chain state.nodes (state.nodes dir).children kids) :
      Listing state path (kids.take (guiFileManagerMaxEntries - (upEntry path).length))
        (upEntry path ++
          (kids.take (guiFileManagerMaxEntries - (upEntry path).length)).map fun kid => text (state.nodes kid).name)
  | missing (none : ¬NamesDirectory state path) : Listing state path [] []

/-- The entries of the window are the names. -/
structure Rows (manager : GuiFileManagerState) (names : List (List UInt8)) : Prop where
  count : manager.entryCount = names.length
  room : names.length ≤ guiFileManagerMaxEntries
  rows : ∀ index (inside : index < names.length), TextIs (manager.entries ⟨index, by omega⟩) 0 names[index]

/-- The window shows the names under a path, with the selection among them. -/
structure Browses (manager : GuiFileManagerState) (path : List UInt8) (names : List (List UInt8)) : Prop where
  lies : TextIs manager.currentPath 0 path
  absolute : path.head? = some slash
  rows : Rows manager names
  selected : -1 ≤ manager.selectedIndex ∧ manager.selectedIndex < names.length
  top : manager.scrollOffset = 0

/-- The name in a row of the window. -/
def InRow (names : List (List UInt8)) (row : Int) (name : List UInt8) : Prop :=
  0 ≤ row ∧ names[row.toNat]? = some name

/-- The path of an entry. -/
def joined (path name : List UInt8) : List UInt8 := if path = [slash] then slash :: name else path ++ slash :: name

/-- The row at a height of the screen. -/
def clickedRow (y windowY : Int) : Int :=
  if y - (windowY + 50) < 0 then -1 else (y - (windowY + 50)).tdiv entryHeight

/-- The path that a click on a row loads, if it loads one. -/
inductive Destination (state : FsState δ) (path : List UInt8) (names : List (List UInt8)) (row : Int) :
    Option (List UInt8) → Prop where
  | outside (missing : ∀ name, ¬InRow names row name) : Destination state path names row none
  | root (held : InRow names row (literal "..")) (short : path.length ≤ 1) : Destination state path names row none
  | up {parent : List UInt8} (held : InRow names row (literal "..")) (long : 1 < path.length)
      (above : IsParent path parent) : Destination state path names row (some parent)
  | down {name : List UInt8} (held : InRow names row name) (other : name ≠ literal "..")
      (leads : NamesDirectory state (joined path name)) : Destination state path names row (some (joined path name))
  | blocked {name : List UInt8} (held : InRow names row name) (other : name ≠ literal "..")
      (missing : ¬NamesDirectory state (joined path name)) : Destination state path names row none

/-- A window is opened on the files that there are. -/
def OpensWindow (δ : Type) (manager : GuiFileManagerState) : Prop :=
  ∃ (state : FsState δ) (blank : GuiFileManagerState), FsReachable state ∧ guiFileManagerInit state blank = .ok manager

/-- A click at a height, in a window at another, with the files that there are then. -/
def ClicksEntry (δ : Type) (before : GuiFileManagerState) (click : FsState δ × Int × Int) (after : GuiFileManagerState) : Prop :=
  FsReachable click.1 ∧ guiFileManagerHandleClick click.1 before click.2.1 click.2.2 = .ok after

/-- What a load of a path does. -/
structure LoadsRight (state : FsState δ) (loaded : List UInt8) (shown : List Nat) (names : List (List UInt8))
    (result : Except Stop GuiFileManagerState) : Prop where
  lists : Listing state loaded shown names
  returns : (∃ after, result = .ok after) ↔
    loaded.length < guiFileManagerMaxPath ∧ ∀ kid ∈ shown, Terminated (state.nodes kid).name
  shows : ∀ after, result = .ok after → Browses after loaded names ∧ after.selectedIndex = -1

/-- A click only selects the row, or it loads a path. -/
inductive ClickRight (state : FsState δ) (before : GuiFileManagerState) (path : List UInt8) (names : List (List UInt8))
    (row : Int) (result : Except Stop GuiFileManagerState) : Prop where
  | stays {selectedIndex : Int} (goes : Destination state path names row none)
      (selects : selectedIndex = before.selectedIndex ∧ (∀ name, ¬InRow names row name) ∨
        selectedIndex = row ∧ ∃ name, InRow names row name)
      (same : result = .ok { before with selectedIndex }) : ClickRight state before path names row result
  | loads {loaded : List UInt8} {shown : List Nat} {others : List (List UInt8)}
      (goes : Destination state path names row (some loaded)) (loads : LoadsRight state loaded shown others result) :
      ClickRight state before path names row result

/-- The window shows what was in a directory, and clicks follow it. -/
structure BrowsingRight (δ : Type) (manager : GuiFileManagerState) (path : List UInt8) (names : List (List UInt8)) : Prop where
  browses : Browses manager path names
  listed : ∃ (early : FsState δ) (shown : List Nat), FsReachable early ∧ Listing early path shown names
  clicks : ∀ state : FsState δ, FsReachable state → ∀ y windowY,
    ClickRight state manager path names (clickedRow y windowY) (guiFileManagerHandleClick state manager y windowY)
  /-- From a directory that there is a click leads to one. -/
  leads : ∀ state : FsState δ, MountPoints state → NamesDirectory state path → ∀ row loaded,
    Destination state path names row (some loaded) → NamesDirectory state loaded

section Names

theorem Terminated.lies {size : Nat} {array : Fin size → UInt8} (ended : Terminated array) :
    TextIs array 0 (text array) := by
  have zero : 0 ∈ List.ofFn array := by
    by_contra clean
    have whole : text array = List.ofFn array := by
      apply List.takeWhile_eq_self_iff.mpr
      intro byte member
      simp only [ne_eq, decide_not, Bool.not_eq_eq_eq_not, Bool.not_true, decide_eq_false_iff_not]
      rintro rfl
      exact clean member
    rw [Terminated, whole, List.length_ofFn] at ended
    exact Nat.lt_irrefl _ ended
  apply textAt_ok
  unfold textAt
  rw [List.drop_zero]
  exact if_pos zero

theorem textAt_iff {size : Nat} {array : Fin size → UInt8} {found : List UInt8} :
    textAt array 0 = .ok found ↔ Terminated array ∧ found = text array := by
  constructor
  · intro finds
    have lies := textAt_ok finds
    rw [Terminated, lies.text_found]
    refine ⟨?_, rfl⟩
    have fits := lies.fits
    rwa [Nat.zero_add] at fits
  · rintro ⟨ended, rfl⟩
    exact ended.lies.ok

theorem InRow.unique {row : Int} {first second : List UInt8} (left : InRow names row first) (right : InRow names row second) :
    first = second :=
  Option.some.inj (left.2.symm.trans right.2)

end Names

section Entries

theorem addEntry_adds (rows : Rows before names) (clean : 0 ∉ name) (short : name.length < 256)
    (room : names.length < guiFileManagerMaxEntries) :
    ∃ entries, addEntry before name = .ok { before with entries, entryCount := before.entryCount + 1 } ∧
      Rows { before with entries, entryCount := before.entryCount + 1 } (names ++ [name]) := by
  have inside : before.entryCount < guiFileManagerMaxEntries := by rw [rows.count]; exact room
  obtain ⟨row, copies⟩ := strCopy_returns (before.entries ⟨before.entryCount, inside⟩) short
  have lies : TextIs row 0 name := (strCopyFrom_copied clean copies).lies clean
  refine ⟨Function.update before.entries ⟨before.entryCount, inside⟩ row, ?_, ?_, ?_, ?_⟩
  · unfold addEntry
    rw [elementAt_eq _ inside]
    simp only [bind, Except.bind, copies]
    rw [setElement_eq _ inside]
    rfl
  · rw [List.length_append, List.length_singleton]
    exact congrArg (· + 1) rows.count
  · rw [List.length_append, List.length_singleton]
    exact room
  · intro index within
    rw [List.length_append, List.length_singleton] at within
    by_cases last : index = names.length
    · subst last
      have same : (⟨names.length, room⟩ : Fin guiFileManagerMaxEntries) = ⟨before.entryCount, inside⟩ := by
        rw [Fin.mk.injEq, rows.count]
      rw [List.getElem_concat_length rfl]
      dsimp only
      rw [same, Function.update_self]
      exact lies
    · rw [List.getElem_append_left (by omega)]
      dsimp only
      rw [Function.update_of_ne (by rw [ne_eq, Fin.mk.injEq, rows.count]; exact last)]
      exact rows.rows index (by omega)

/-- The children are added for as long as there is room, and as long as their names end. -/
theorem addChildren_adds {child room : Nat} {kids : List Nat} (chain : Chain state.nodes child kids) (rows : Rows before names)
    (fits : names.length + room ≤ guiFileManagerMaxEntries) :
    ((∃ after, addChildren state room child before = .ok after) ↔ ∀ kid ∈ kids.take room, Terminated (state.nodes kid).name) ∧
      ∀ after, addChildren state room child before = .ok after → ∃ entries entryCount,
        after = { before with entries, entryCount } ∧
          Rows after (names ++ (kids.take room).map fun kid => text (state.nodes kid).name) := by
  induction room generalizing before child kids names with
  | zero =>
    refine ⟨iff_of_true ⟨before, rfl⟩ (by simp), ?_⟩
    intro after adds
    cases adds
    exact ⟨before.entries, before.entryCount, rfl, by simpa using rows⟩
  | succ room ih =>
    cases kids with
    | nil =>
      have adds : addChildren state (room + 1) child before = .ok before := by
        obtain rfl : child = 0 := chain
        rw [addChildren, if_pos rfl]
        rfl
      rw [adds]
      refine ⟨iff_of_true ⟨before, rfl⟩ (by simp), ?_⟩
      intro after stays
      cases stays
      exact ⟨before.entries, before.entryCount, rfl, by simpa using rows⟩
    | cons kid rest =>
      obtain ⟨rfl, given, chain⟩ := chain
      rw [List.take_succ_cons, List.forall_mem_cons, addChildren, if_neg given]
      by_cases ended : Terminated (state.nodes child).name
      · have short : (text (state.nodes child).name).length < 256 := Nat.lt_trans ended (by decide)
        obtain ⟨entries, adds, more⟩ := addEntry_adds rows (text_clean _) short (by omega)
        have longer : (names ++ [text (state.nodes child).name]).length + room ≤ guiFileManagerMaxEntries := by
          rw [List.length_append, List.length_singleton]
          omega
        obtain ⟨returns, shows⟩ := ih chain more longer
        simp only [bind, Except.bind, ended.lies.ok, adds]
        refine ⟨returns.trans (and_iff_right ended).symm, ?_⟩
        intro after runs
        obtain ⟨entries', entryCount, same, whole⟩ := shows after runs
        refine ⟨entries', entryCount, same, ?_⟩
        rw [List.map_cons]
        simpa using whole
      · have never (found : List UInt8) : textAt (state.nodes child).name 0 ≠ .ok found :=
          fun finds => ended (textAt_iff.mp finds).1
        rcases finds : textAt (state.nodes child).name 0 with stop | found
        · refine ⟨iff_of_false ?_ fun all => ended all.1, ?_⟩
          · rintro ⟨after, runs⟩
            cases runs
          · intro after runs
            cases runs
        · exact absurd finds (never found)

end Entries

section Loads

theorem upEntry_length (path : List UInt8) : (upEntry path).length ≤ 1 := by
  unfold upEntry
  split <;> simp

/-- What a path lists. -/
theorem FsValid.listing {blocks : List Block} {roles : Roles} (valid : FsValid state blocks roles) (path : List UInt8) :
    ∃ shown names, Listing state path shown names := by
  obtain ⟨dir, resolves, live⟩ := valid.resolve path
  by_cases directory : dir ≠ 0 ∧ (state.nodes dir).type = fsDir
  · obtain ⟨kids, chain, -⟩ := valid.kids dir (live directory.1)
    exact ⟨_, _, .directory resolves directory.1 directory.2 chain⟩
  · refine ⟨[], [], .missing ?_⟩
    rintro ⟨other, leads, given, type⟩
    cases resolves.symm.trans leads
    exact directory ⟨given, type⟩

theorem Listing.unique {shown shown' : List Nat} {names' : List (List UInt8)} (lists : Listing state path shown names)
    (lists' : Listing state path shown' names') : shown = shown' ∧ names = names' := by
  cases lists with
  | directory resolves given type chain =>
    cases lists' with
    | directory resolves' given' type' chain' =>
      cases resolves.symm.trans resolves'
      obtain rfl := chain.unique chain'
      exact ⟨rfl, rfl⟩
    | missing none => exact absurd ⟨_, resolves, given, type⟩ none
  | missing none =>
    cases lists' with
    | directory resolves' given' type' _ => exact absurd ⟨_, resolves', given', type'⟩ none
    | missing _ => exact ⟨rfl, rfl⟩

/-- A directory is loaded where its path fits, and the names of its children end. -/
theorem load_shows {shown : List Nat} (manager : GuiFileManagerState) (clean : 0 ∉ path) (absolute : path.head? = some slash)
    (total : ∃ node, fsResolve state path = .ok node) (lists : Listing state path shown names) :
    ((∃ after, guiFileManagerLoadDirectory state manager path = .ok after) ↔
      path.length < guiFileManagerMaxPath ∧ ∀ kid ∈ shown, Terminated (state.nodes kid).name) ∧
      ∀ after, guiFileManagerLoadDirectory state manager path = .ok after →
        Browses after path names ∧ after.selectedIndex = -1 := by
  unfold guiFileManagerLoadDirectory
  by_cases fits : path.length < guiFileManagerMaxPath
  · obtain ⟨currentPath, copies⟩ := strCopy_returns manager.currentPath fits
    have lies : TextIs currentPath 0 path := (strCopyFrom_copied clean copies).lies clean
    simp only [bind, Except.bind, copies]
    have blank : Rows { manager with currentPath, entryCount := 0, selectedIndex := -1, scrollOffset := 0 } [] :=
      ⟨rfl, Nat.zero_le _, fun index inside => absurd inside (Nat.not_lt_zero _)⟩
    have empty : ((-1 : Int) ≤ -1 ∧ (-1 : Int) < ([] : List (List UInt8)).length) := by simp
    cases lists with
    | missing none =>
      obtain ⟨node, resolves⟩ := total
      have nothing : node = 0 ∨ (state.nodes node).type ≠ fsDir := by
        by_contra both
        rw [not_or, not_not] at both
        exact none ⟨node, resolves, both⟩
      rw [resolves]
      dsimp only
      rw [if_pos nothing]
      refine ⟨iff_of_true ⟨_, rfl⟩ ⟨fits, by simp⟩, ?_⟩
      intro after loads
      cases loads
      exact ⟨⟨lies, absolute, blank, empty, rfl⟩, rfl⟩
    | @directory dir kids resolves given type chain =>
      rw [resolves]
      dsimp only
      rw [if_neg (by simp [given, type])]
      have room : (upEntry path).length ≤ guiFileManagerMaxEntries := Nat.le_trans (upEntry_length path) (by decide)
      have rest {middle : GuiFileManagerState} (rows : Rows middle (upEntry path)) (lies : TextIs middle.currentPath 0 path)
          (unselected : middle.selectedIndex = -1) (top : middle.scrollOffset = 0) :
          ((∃ after, addChildren state (guiFileManagerMaxEntries - middle.entryCount) (state.nodes dir).children middle =
              .ok after) ↔ path.length < guiFileManagerMaxPath ∧
                ∀ kid ∈ kids.take (guiFileManagerMaxEntries - (upEntry path).length), Terminated (state.nodes kid).name) ∧
            ∀ after, addChildren state (guiFileManagerMaxEntries - middle.entryCount) (state.nodes dir).children middle =
              .ok after → Browses after path (upEntry path ++
                (kids.take (guiFileManagerMaxEntries - (upEntry path).length)).map fun kid => text (state.nodes kid).name) ∧
                after.selectedIndex = -1 := by
        rw [rows.count]
        obtain ⟨returns, shows⟩ := addChildren_adds chain rows (Nat.le_of_eq (Nat.add_sub_of_le room))
        refine ⟨returns.trans (and_iff_right fits).symm, ?_⟩
        intro after runs
        obtain ⟨entries, entryCount, rfl, whole⟩ := shows after runs
        refine ⟨⟨lies, absolute, whole, ?_, top⟩, unselected⟩
        dsimp only
        rw [unselected]
        exact ⟨Int.le_refl _, by omega⟩
      by_cases long : 1 < path.length
      · have first : upEntry path = [] ++ [literal ".."] := if_pos long
        have clean' : 0 ∉ literal ".." := by decide
        obtain ⟨entries, adds, rows⟩ := addEntry_adds blank clean' (by decide) (by decide)
        rw [if_pos long, adds]
        exact rest (first ▸ rows) lies rfl rfl
      · rw [if_neg long]
        exact rest ((if_neg long : upEntry path = []) ▸ blank) lies rfl rfl
  · have long : strCopy manager.currentPath path = .error .undefined := strCopy_long clean (by omega)
    rw [long]
    refine ⟨iff_of_false ?_ fun short => fits short.1, ?_⟩
    · rintro ⟨after, runs⟩
      cases runs
    · intro after runs
      cases runs

end Loads

section Paths
variable {current : Fin guiFileManagerMaxPath → UInt8} {front rest : List UInt8}

theorem parentLen_finds (lies : TextIs current 0 (front ++ slash :: rest)) (plain : slash ∉ rest) {back : Nat}
    (inside : back ≤ rest.length) : parentLen current (front.length + 1 + back) = .ok (front.length + 1) := by
  have fits := lies.fits
  rw [List.length_append, List.length_cons] at fits
  induction back with
  | zero =>
    have byte := lies.bytes front.length (by simp)
    rw [List.getElem_append_right (Nat.le_refl _)] at byte
    simp only [Nat.zero_add, Nat.sub_self, List.getElem_cons_zero] at byte
    rw [Nat.add_zero, parentLen, elementAt_eq _ (by omega)]
    simp only [bind, Except.bind]
    rw [byte, if_neg fun other => other.2 rfl]
    rfl
  | succ back ih =>
    have byte := lies.bytes (front.length + 1 + back) (by rw [List.length_append, List.length_cons]; omega)
    rw [List.getElem_append_right (by omega), List.getElem_cons] at byte
    simp only [Nat.zero_add] at byte
    rw [dif_neg (by omega)] at byte
    rw [← Nat.add_assoc, parentLen, elementAt_eq _ (by omega)]
    simp only [bind, Except.bind]
    rw [byte, if_pos]
    · exact ih (by omega)
    · refine ⟨by omega, fun same => plain ?_⟩
      rw [← same]
      exact List.getElem_mem _

theorem guiParentPath_root (lies : TextIs current 0 path) (short : path.length ≤ 1) : guiParentPath current = .ok none := by
  obtain ⟨copy, copies, copied⟩ := lies.copies (fun _ => 0 : Fin guiFileManagerMaxPath → UInt8) (by have := lies.fits; omega)
  unfold guiParentPath
  rw [copies]
  simp only [bind, Except.bind]
  rw [(copied.lies lies.clean).ok]
  exact if_pos short

theorem guiParentPath_up {parent : List UInt8} (lies : TextIs current 0 path) (long : 1 < path.length)
    (above : IsParent path parent) : guiParentPath current = .ok (some parent) := by
  obtain ⟨front, rest, rfl, plain, rfl⟩ := above
  have fits := lies.fits
  obtain ⟨copy, copies, copied⟩ := lies.copies (fun _ => 0 : Fin guiFileManagerMaxPath → UInt8) (by omega)
  have shown := copied.lies lies.clean
  have finds := parentLen_finds shown plain (Nat.le_refl _)
  have length : (front ++ slash :: rest).length = front.length + 1 + rest.length := by
    rw [List.length_append, List.length_cons]
    omega
  rw [length] at fits long
  unfold guiParentPath
  rw [copies]
  simp only [bind, Except.bind]
  rw [shown.ok]
  dsimp only
  rw [length, if_neg (by omega), finds]
  dsimp only
  by_cases root : front = []
  · subst root
    have cut : TextIs copy 0 ([slash] ++ rest) := shown
    rw [if_neg (by simp), setElement_eq copy (by decide)]
    dsimp only
    rw [if_neg (by simp)]
    have ended : TextIs (Function.update copy ⟨1, by decide⟩ 0) 0 [slash] := cut.truncate (by decide)
    simp only [List.length_nil, Nat.zero_add]
    rw [ended.ok]
    rfl
  · have positive : 0 < front.length := List.length_pos_iff.mpr root
    have ended := shown.truncate (by omega)
    rw [if_pos (by omega), if_neg root, Nat.add_sub_cancel, setElement_eq copy (by omega)]
    dsimp only
    rw [if_neg (by omega)]
    rw [ended.ok]
    rfl

theorem guiFullPath_joins (lies : TextIs current 0 path) (clean : 0 ∉ name) (short : name.length < 256) :
    guiFullPath current name = .ok (joined path name) := by
  have fits : 0 + path.length < 256 := lies.fits
  have wide : guiFileManagerMaxPath * 2 = 512 := rfl
  obtain ⟨copy, copies, copied⟩ := lies.copies (fun _ => 0 : Fin (guiFileManagerMaxPath * 2) → UInt8) (by omega)
  have shown := copied.lies lies.clean
  unfold guiFullPath joined
  rw [lies.ok]
  simp only [bind, Except.bind, copies, strEquals_iff]
  by_cases root : path = [slash]
  · rw [if_pos root, if_pos root]
    obtain ⟨whole, appends, ends⟩ := strAppend_joins shown clean (by omega)
    rw [appends]
    dsimp only
    rw [ends.ok, root]
    rfl
  · rw [if_neg root, if_neg root]
    have pure_ : 0 ∉ [slash] := by decide
    obtain ⟨opened, appends, ends⟩ := strAppend_joins shown pure_ (by simp; omega)
    obtain ⟨whole, appends', ends'⟩ := strAppend_joins ends clean (by simp; omega)
    rw [appends]
    dsimp only
    rw [appends']
    dsimp only
    rw [ends'.ok, List.append_assoc, List.singleton_append]

end Paths

section Clicks

theorem joined_absolute (absolute : path.head? = some slash) (name : List UInt8) : (joined path name).head? = some slash := by
  unfold joined
  split
  · rfl
  · rw [List.head?_append, absolute]
    rfl

theorem IsParent.absolute {parent : List UInt8} (above : IsParent path parent) (absolute : path.head? = some slash) :
    parent.head? = some slash := by
  obtain ⟨front, rest, rfl, -, rfl⟩ := above
  split
  · rfl
  next some => exact head_front some absolute

theorem IsParent.clean {parent : List UInt8} (above : IsParent path parent) (clean : 0 ∉ path) : 0 ∉ parent := by
  obtain ⟨front, rest, rfl, -, rfl⟩ := above
  split
  · decide
  · exact fun zero => clean (List.mem_append_left _ zero)

theorem joined_clean (clean : 0 ∉ path) (clean' : 0 ∉ name) : 0 ∉ joined path name := by
  have other : (0 : UInt8) ≠ slash := by decide
  unfold joined
  split
  · simpa [other] using clean'
  · simpa [other, clean] using clean'

theorem clickedRow_eq {y windowY : Int} (inside : ¬y - (windowY + 50) < 0) :
    clickedRow y windowY = (y - (windowY + 50)).tdiv entryHeight ∧ 0 ≤ clickedRow y windowY := by
  unfold clickedRow
  rw [if_neg inside]
  exact ⟨rfl, Int.tdiv_nonneg (by omega) (by decide)⟩

/-- A click loads its destination or selects its row. -/
theorem Browses.click {blocks : List Block} {roles : Roles} (browses : Browses before path names)
    (valid : FsValid state blocks roles) (y windowY : Int) :
    ClickRight state before path names (clickedRow y windowY) (guiFileManagerHandleClick state before y windowY) := by
  have total (path : List UInt8) : ∃ node, fsResolve state path = .ok node := by
    obtain ⟨node, resolves, -⟩ := valid.resolve path
    exact ⟨node, resolves⟩
  have count := browses.rows.count
  unfold guiFileManagerHandleClick
  dsimp only
  by_cases above : y - (windowY + 50) < 0
  · -- Above the entries.
    have outside (name : List UInt8) : ¬InRow names (clickedRow y windowY) name := by
      unfold clickedRow
      rw [if_pos above]
      exact fun held => absurd held.1 (by decide)
    rw [if_pos above]
    exact .stays (.outside outside) (.inl ⟨rfl, outside⟩) rfl
  · obtain ⟨row_eq, positive⟩ := clickedRow_eq above
    have same : (y - (windowY + 50)).tdiv entryHeight + before.scrollOffset = clickedRow y windowY := by
      rw [browses.top, Int.add_zero, row_eq]
    rw [if_neg above, same]
    generalize clickedRow y windowY = row at positive ⊢
    obtain ⟨index, rfl⟩ := Int.eq_ofNat_of_zero_le positive
    by_cases below : (before.entryCount : Int) ≤ index
    · -- Behind the last one.
      have outside (name : List UInt8) : ¬InRow names index name := by
        rintro ⟨-, held⟩
        rw [Int.toNat_natCast, List.getElem?_eq_none (by omega)] at held
        cases held
      rw [if_pos below]
      exact .stays (.outside outside) (.inl ⟨rfl, outside⟩) rfl
    · have inside : index < names.length := by omega
      have room := browses.rows.room
      have lies := browses.rows.rows index inside
      have held : InRow names index names[index] := ⟨positive, by rw [Int.toNat_natCast, List.getElem?_eq_getElem inside]⟩
      have short : names[index].length < 256 := by simpa using lies.fits
      rw [if_neg below, elementAt_eq _ (by omega)]
      simp only [bind, Except.bind, lies.ok, strEquals_iff]
      by_cases up : names[index] = literal ".."
      · rw [if_pos up]
        rw [up] at held
        by_cases long : 1 < path.length
        · obtain ⟨front, rest, split, plain⟩ := exists_last_slash browses.absolute
          have parent : IsParent path (if front = [] then [slash] else front) := ⟨front, rest, split, plain, rfl⟩
          rw [guiParentPath_up browses.lies long parent]
          obtain ⟨shown, others, lists⟩ := valid.listing (if front = [] then [slash] else front)
          obtain ⟨returns, shows⟩ := load_shows { before with selectedIndex := index } (parent.clean browses.lies.clean)
            (parent.absolute browses.absolute) (total _) lists
          exact .loads (.up held long parent) ⟨lists, returns, shows⟩
        · rw [guiParentPath_root browses.lies (by omega)]
          exact .stays (.root held (by omega)) (.inr ⟨rfl, _, held⟩) rfl
      · rw [if_neg up, guiFullPath_joins browses.lies lies.clean short]
        obtain ⟨node, resolves⟩ := total (joined path names[index])
        dsimp only
        rw [resolves]
        dsimp only
        by_cases directory : node ≠ 0 ∧ (state.nodes node).type = fsDir
        · rw [if_pos directory]
          obtain ⟨shown, others, lists⟩ := valid.listing (joined path names[index])
          obtain ⟨returns, shows⟩ := load_shows { before with selectedIndex := index }
            (joined_clean browses.lies.clean lies.clean) (joined_absolute browses.absolute _) (total _) lists
          exact .loads (.down held up ⟨node, resolves, directory⟩) ⟨lists, returns, shows⟩
        · rw [if_neg directory]
          refine .stays (.blocked held up ?_) (.inr ⟨rfl, _, held⟩) rfl
          rintro ⟨other, leads, given, type⟩
          cases resolves.symm.trans leads
          exact directory ⟨given, type⟩

/-- From a directory a click leads to a directory. -/
theorem Destination.leads {row : Int} {loaded : List UInt8} (points : MountPoints state) (there : NamesDirectory state path)
    (goes : Destination state path names row (some loaded)) : NamesDirectory state loaded := by
  cases goes with
  | up _ _ above =>
    obtain ⟨front, rest, rfl, -, rfl⟩ := above
    split
    · exact points.root
    next some => exact (there.leads points).fronts front rest rfl some
  | down _ _ leads => exact leads

end Clicks

/-- A window after it has been opened, or after a click. -/
theorem Browses.right {early : FsState δ} {shown : List Nat} (browses : Browses middle path names) (reached : FsReachable early)
    (lists : Listing early path shown names) : BrowsingRight δ middle path names := by
  refine ⟨browses, ⟨early, shown, reached, lists⟩, ?_, ?_⟩
  · intro state reached' y windowY
    obtain ⟨blocks, roles, valid⟩ := fs_reachable_wellFormed reached'
    exact browses.click valid y windowY
  · intro state points there row loaded goes
    exact goes.leads points there

private def blankManager : GuiFileManagerState := ⟨fun _ => 0, fun _ _ => 0, 0, 0, 0⟩

/-- In a state with a directory `d` the first row of a new window leads there. -/
private def browsesInto (start : FsState Unit) : Bool :=
  match fsMkdir start (literal "/d") with
  | .ok (_, state) =>
    match guiFileManagerInit state blankManager with
    | .ok opened =>
      match guiFileManagerHandleClick state opened 50 0 with
      | .ok manager => text manager.currentPath = literal "/d"
      | .error _ => false
    | .error _ => false
  | .error _ => false

end Kernix.Proofs
