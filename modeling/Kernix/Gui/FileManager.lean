import Kernix.Common.Array
import Kernix.Fs.Commands

/-! The file manager of `gui/programs/file_manager.c`: the directory that a window shows,
and what a click on one of its entries does. What is drawn is left out. -/

namespace Kernix

variable {δ : Type}

abbrev guiFileManagerMaxEntries : Nat := 100
abbrev guiFileManagerMaxPath : Nat := 256
abbrev entryHeight : Int := 20

/-- `gui_file_manager_state_t`. -/
structure GuiFileManagerState where
  currentPath : Fin guiFileManagerMaxPath → UInt8
  entries : Fin guiFileManagerMaxEntries → Fin 256 → UInt8
  entryCount : Nat
  selectedIndex : Int
  scrollOffset : Int

/-- `str_copy(state->entries[state->entry_count++], name)`. -/
def addEntry (manager : GuiFileManagerState) (name : List UInt8) : Except Stop GuiFileManagerState := do
  let row ← elementAt manager.entries manager.entryCount
  let row ← strCopy row name
  let entries ← setElement manager.entries manager.entryCount row
  return { manager with entries, entryCount := manager.entryCount + 1 }

/-- `while (child && state->entry_count < GUI_FILE_MANAGER_MAX_ENTRIES)`, which goes on for
as long as there is room. -/
def addChildren (state : FsState δ) : Nat → Nat → GuiFileManagerState → Except Stop GuiFileManagerState
  | 0, _, manager => return manager
  | room + 1, child, manager => do
    if child = 0 then return manager
    let manager ← addEntry manager (← textAt (state.nodes child).name 0)
    addChildren state room (state.nodes child).next manager

def guiFileManagerLoadDirectory (state : FsState δ) (manager : GuiFileManagerState) (path : List UInt8) :
    Except Stop GuiFileManagerState := do
  let currentPath ← strCopy manager.currentPath path
  let manager := { manager with currentPath, entryCount := 0, selectedIndex := -1, scrollOffset := 0 }
  let dirNode ← fsResolve state path
  if dirNode = 0 ∨ (state.nodes dirNode).type ≠ fsDir then return manager
  let manager ← if 1 < path.length then addEntry manager (literal "..") else .ok manager
  addChildren state (guiFileManagerMaxEntries - manager.entryCount) (state.nodes dirNode).children manager

def guiFileManagerInit (state : FsState δ) (manager : GuiFileManagerState) : Except Stop GuiFileManagerState := do
  let currentPath ← strCopy manager.currentPath [slash]
  let manager := { manager with currentPath, entryCount := 0, selectedIndex := -1, scrollOffset := 0 }
  guiFileManagerLoadDirectory state manager [slash]

/-- `while (len > 1 && parent_path[len - 1] != '/') len--;` -/
def parentLen (parentPath : Fin guiFileManagerMaxPath → UInt8) : Nat → Except Stop Nat
  | 0 => return 0
  | len + 1 => do
    if 1 < len + 1 ∧ (← elementAt parentPath len) ≠ slash then parentLen parentPath len else return len + 1

/-- The parent of the path that is shown, unless it is the root. -/
def guiParentPath (currentPath : Fin guiFileManagerMaxPath → UInt8) : Except Stop (Option (List UInt8)) := do
  let parentPath ← strCopyAt (fun _ => 0 : Fin guiFileManagerMaxPath → UInt8) currentPath 0
  let shown ← textAt parentPath 0
  if shown.length ≤ 1 then return none
  let len ← parentLen parentPath shown.length
  let len := if 1 < len then len - 1 else len
  let parentPath ← setElement parentPath len 0
  let parentPath ← if len = 0 then strCopy parentPath [slash] else .ok parentPath
  return some (← textAt parentPath 0)

/-- `full_path` of an entry. -/
def guiFullPath (currentPath : Fin guiFileManagerMaxPath → UInt8) (selectedName : List UInt8) :
    Except Stop (List UInt8) := do
  let shown ← textAt currentPath 0
  let fullPath ← strCopyAt (fun _ => 0 : Fin (guiFileManagerMaxPath * 2) → UInt8) currentPath 0
  let fullPath ← if strEquals shown [slash] then .ok fullPath else strAppend fullPath [slash]
  let fullPath ← strAppend fullPath selectedName
  textAt fullPath 0

/-- `gui_file_manager_handle_click`, at a height of the screen and in a window at another. -/
def guiFileManagerHandleClick (state : FsState δ) (manager : GuiFileManagerState) (y windowY : Int) :
    Except Stop GuiFileManagerState := do
  let contentY := windowY + 50
  let clickedY := y - contentY
  if clickedY < 0 then return manager
  let clickedIndex := clickedY.tdiv entryHeight + manager.scrollOffset
  if manager.entryCount ≤ clickedIndex then return manager
  let manager := { manager with selectedIndex := clickedIndex }
  let selectedName ← textAt (← elementAt manager.entries clickedIndex) 0
  if strEquals selectedName (literal "..") then
    match ← guiParentPath manager.currentPath with
    | none => return manager
    | some parentPath => guiFileManagerLoadDirectory state manager parentPath
  else
    let fullPath ← guiFullPath manager.currentPath selectedName
    let node ← fsResolve state fullPath
    if node ≠ 0 ∧ (state.nodes node).type = fsDir then guiFileManagerLoadDirectory state manager fullPath
    else return manager

end Kernix
