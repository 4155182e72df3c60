import Kernix.Common.Array
import Kernix.Fs.Commands

/-! The command `cd` of the shell. What it prints is left out. -/

namespace Kernix

variable {δ : Type}

/-- `MAX_PATH_LEN`. -/
abbrev maxPathLen : Nat := 256

abbrev PathBuffer := Fin maxPathLen → UInt8

/-- The path that `cwd` starts with. -/
def cwdStart : PathBuffer := fun index => if index.val = 0 then slash else 0

/-- `path[str_len(path) - 1]`. An empty string is read in front of its start. -/
def lastByte (path : PathBuffer) : Except Stop UInt8 := do
  match (← textAt path 0).getLast? with
  | some byte => return byte
  | none => throw .undefined

/-- `str_append(path, "/")`, where the path does not end in one. -/
def appendSlash (path : PathBuffer) : Except Stop PathBuffer := do
  if (← lastByte path) ≠ slash then strAppend path [slash] else return path

/-- `cd ..` cuts `cwd` off at its last slash, and keeps the first one. -/
def cdParent (cwd : PathBuffer) : Except Stop PathBuffer := do
  let last := lastSlash (← textAt cwd 0) 0 0
  if last ≠ 0 then setElement cwd last 0 else strCopy cwd [slash]

/-- `full_path`. -/
def fullPath (cwd : PathBuffer) (path : List UInt8) : Except Stop PathBuffer := do
  let full : PathBuffer := fun _ => 0
  if path.head? = some slash then strCopy full path
  else
    let full ← strCopy full (← textAt cwd 0)
    let full ← appendSlash full
    strAppend full path

/-- A missing or empty argument stands for the root. -/
def cmdCd (state : FsState δ) (cwd : PathBuffer) (s : List UInt8) : Except Stop PathBuffer := do
  let path := if s = [] then [slash] else s
  if path = literal ".." then return ← cdParent cwd
  let full ← fullPath cwd path
  let found ← textAt full 0
  let dir ← fsResolve state found
  if dir = 0 then return cwd
  if (state.nodes dir).type ≠ fsDir then return cwd
  let cwd ← strCopy cwd found
  if 1 < found.length then appendSlash cwd else return cwd

end Kernix
