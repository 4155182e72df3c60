import Kernix.Common.Array

/-! The workspaces and sessions of the graphics manager, and its ring of key events. A
pointer to a workspace or a session is the number of those that were made before it; a
number at which there is none yet stands for `NULL`. The buffer of the ring has as many
places as `graphics_manager_alloc` was asked for, and it starts out zeroed. What is drawn
is left out. -/

namespace Kernix

section Keyboard

/-- `key_event_t`. -/
structure KeyEvent where
  scancode : UInt8
  modifiers : UInt8
  pressed : UInt8
  deriving DecidableEq, Repr

/-- `keyboardrb_t`. The counters are of type `u32`. -/
structure KeyboardRing (places : Nat) where
  buf : Fin places → KeyEvent
  len : Nat
  head : Nat
  tail : Nat
  count : Nat

/-- `graphics_manager_keyboard_init`, when there is memory for the ring. -/
def graphicsManagerKeyboardInit (count : Nat) : Option (KeyboardRing count) :=
  if count = 0 then none
  else some ⟨fun _ => ⟨0, 0, 0⟩, u32 count, 0, 0, 0⟩

variable {places : Nat}

def keyboardPut (kbrb : KeyboardRing places) (event : KeyEvent) : Except Stop (Int × KeyboardRing places) := do
  if kbrb.len ≤ kbrb.count then return (1, kbrb)
  let buf ← setElement kbrb.buf kbrb.head event
  return (0, { kbrb with buf, head := u32 (kbrb.head + 1) % kbrb.len, count := u32 (kbrb.count + 1) })

/-- The condition of `keyboard_next` is an assignment, whose value is the one assigned. -/
def keyboardNext (kbrb : KeyboardRing places) : Except Stop (Int × Option KeyEvent × KeyboardRing places) := do
  let kbrb := { kbrb with count := 0 }
  if kbrb.count ≠ 0 then return (1, none, kbrb)
  let out ← elementAt kbrb.buf kbrb.tail
  if kbrb.len = 0 then throw .undefined
  return (0, some out, { kbrb with tail := u32 (kbrb.tail + 1) % kbrb.len, count := u32 (kbrb.count + (2 ^ 32 - 1)) })

end Keyboard

/-- `GSESSION_LEN_MAX`. -/
abbrev gsessionLenMax : Nat := 16
/-- `SESSION_NAME_MAX` and `GWORKSPACE_NAME_MAX`. -/
abbrev gnameMax : Nat := 64
/-- What `graphics_manager_init` sets `workspaces_total` to. -/
abbrev workspacesTotal : Nat := 1

/-- `gsession_t`, of its box the width. -/
structure GSession where
  name : List UInt8
  width : Nat
  gworkspace : Option Nat

/-- `gworkspace_t`, without its place and the session that is active. -/
structure GWorkspace where
  name : List UInt8
  gapX : Nat
  sessions : Fin gsessionLenMax → Option Nat
  sessionsLen : Nat
  sessionsTotal : Nat

/-- The workspaces that are registered, `workspaces_len` of them, and the sessions that
were made. The array of the workspaces is allocated with the size of a workspace, and has
room for more pointers than are ever put into it. -/
structure GraphicsManager where
  workspaces : List GWorkspace
  sessions : List GSession

variable (manager : GraphicsManager)

/-- The session behind a pointer of the array. -/
def gsessionAt : Option Nat → Except Stop GSession
  | none => .error .undefined
  | some pointer =>
    match manager.sessions[pointer]? with
    | none => .error .undefined
    | some session => .ok session

/-- `graphics_manager_create` gives a block that is not cleared, or nothing. What counts of
it is its `sessions_len`, which is set nowhere. -/
def gworkspaceInit (name : List UInt8) (block : Option Nat) (array : Bool) : Int × GraphicsManager :=
  if workspacesTotal < manager.workspaces.length then (1, manager)
  else
    match block with
    | none => (1, manager)
    | some sessionsLen =>
      if array then
        let workspace : GWorkspace := ⟨name.take (gnameMax - 1), 10, fun _ => none, sessionsLen, gsessionLenMax⟩
        (0, { manager with workspaces := manager.workspaces ++ [workspace] })
      else (1, manager)

/-- The block of a session, which has some `gworkspace` in it, and its keyboard ring. -/
def gsessionInit (name : List UInt8) (width : Nat) (block : Option (Option Nat)) (ring : Bool) :
    Option Nat × GraphicsManager :=
  match block with
  | none => (none, manager)
  | some gworkspace =>
    if ring then
      let session : GSession := ⟨name.take (gnameMax - 1), width, gworkspace⟩
      (some manager.sessions.length, { manager with sessions := manager.sessions ++ [session] })
    else (none, manager)

/-- The loop over the workspaces, with the comparison of the names that stops at the end of
the wanted one. -/
def attachLoop (pointer : Nat) (session : GSession) (workspaceName : List UInt8) :
    Nat → Nat → Except Stop (Int × GraphicsManager)
  | 0, _ => .ok (1, manager)
  | left + 1, i =>
    match manager.workspaces[i]? with
    | none => .error .undefined
    | some ws =>
      if strStartsWith ws.name workspaceName then
        if ws.sessionsTotal < ws.sessionsLen then .ok (1, manager)
        else do
          let sessions ← setElement ws.sessions ws.sessionsLen (some pointer)
          let ws := { ws with sessions, sessionsLen := u64 (ws.sessionsLen + 1) }
          let session := { session with gworkspace := some i }
          return (0, ⟨manager.workspaces.set i ws, manager.sessions.set pointer session⟩)
      else attachLoop pointer session workspaceName left (i + 1)

def gsessionAttach (gsession : Nat) (workspaceName : List UInt8) : Except Stop (Int × GraphicsManager) :=
  match manager.sessions[gsession]? with
  | none => .ok (1, manager)
  | some session => attachLoop manager gsession session workspaceName workspacesTotal 0

/-- The loop over the entries of the array. -/
def detachLoop (gworkspace : Nat) (ws : GWorkspace) (name : List UInt8) : Nat → Nat → Except Stop (Int × GraphicsManager)
  | 0, _ => .ok (1, manager)
  | left + 1, i => do
    let entry ← elementAt ws.sessions i
    let session ← gsessionAt manager entry
    if strStartsWith session.name name then
      let sessions ← setElement ws.sessions i none
      let ws := { ws with sessions, sessionsLen := u64Sub ws.sessionsLen 1 }
      return (0, { manager with workspaces := manager.workspaces.set gworkspace ws })
    else detachLoop gworkspace ws name left (i + 1)

def gsessionDetach (gworkspace gsession : Nat) : Except Stop (Int × GraphicsManager) :=
  match manager.workspaces[gworkspace]?, manager.sessions[gsession]? with
  | some ws, some session => detachLoop manager gworkspace ws session.name ws.sessionsTotal 0
  | _, _ => .ok (1, manager)

/-- The sum over the entries of the array. -/
def posxLoop (ws : GWorkspace) : Nat → Nat → Nat → Except Stop Nat
  | 0, _, ret => .ok ret
  | left + 1, i, ret => do
    let entry ← elementAt ws.sessions i
    let session ← gsessionAt manager entry
    posxLoop ws left (i + 1) (u64 (ret + session.width + ws.gapX))

def gworkspacePosxGet (ws : GWorkspace) : Except Stop Nat :=
  if ws.sessionsLen = 0 then .ok 0 else posxLoop manager ws ws.sessionsLen 0 0

end Kernix
