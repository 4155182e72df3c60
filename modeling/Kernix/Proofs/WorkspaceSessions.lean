import Kernix.Memory.GraphicsManager
import Kernix.Lib.Runs
import Kernix.Lib.SlotList
import Kernix.Proofs.Strings
import Mathlib.Data.Finset.Basic

/-! The sessions of the workspaces over a run of calls. Their arrays are right for as long
as each call is one that its code is right for. -/

namespace Kernix.Proofs
open SlotList Runs

/-- The manager together with the sessions that are attached to each workspace. -/
structure SessionState where
  manager : GraphicsManager
  attached : Nat → Finset Nat

/-- The calls, with what the heap gives to those that ask for memory. -/
inductive SessionCall where
  | workspaceInit (name : List UInt8) (block : Option Nat) (array : Bool)
  | sessionInit (name : List UInt8) (width : Nat) (block : Option (Option Nat)) (ring : Bool)
  | attach (gsession : Nat) (workspaceName : List UInt8)
  | detach (gworkspace gsession : Nat)

/-- A session that was attached is with the workspace that it points to. -/
def nowAttached (attached : Nat → Finset Nat) (manager : GraphicsManager) (gsession : Nat) : Nat → Finset Nat :=
  match manager.sessions[gsession]? with
  | some ⟨_, _, some gworkspace⟩ => Function.update attached gworkspace (insert gsession (attached gworkspace))
  | _ => attached

def sessionStep (state : SessionState) : SessionCall → Except Stop SessionState
  | .workspaceInit name block array => .ok { state with manager := (gworkspaceInit state.manager name block array).2 }
  | .sessionInit name width block ring => .ok { state with manager := (gsessionInit state.manager name width block ring).2 }
  | .attach gsession workspaceName => do
    let (result, manager) ← gsessionAttach state.manager gsession workspaceName
    return ⟨manager, if result = 0 then nowAttached state.attached manager gsession else state.attached⟩
  | .detach gworkspace gsession => do
    let (result, manager) ← gsessionDetach state.manager gworkspace gsession
    return ⟨manager, if result = 0 then
      Function.update state.attached gworkspace ((state.attached gworkspace).erase gsession) else state.attached⟩

/-- After `graphics_manager_init` there are no workspaces. -/
def sessionStart : SessionState := ⟨⟨[], []⟩, fun _ => ∅⟩

/-- The first entries of the array are the attached sessions, each of them once, and
`gworkspace_posx_get` returns. -/
structure WorkspaceRight (manager : GraphicsManager) (ws : GWorkspace) (attached : Finset Nat) : Prop where
  fits : ws.sessionsLen ≤ gsessionLenMax
  filled : ∀ i : Fin gsessionLenMax, i.val < ws.sessionsLen → ws.sessions i ≠ none
  apart : ∀ i j : Fin gsessionLenMax, i.val < ws.sessionsLen → j.val < ws.sessionsLen →
    ws.sessions i = ws.sessions j → i = j
  those : ∀ gsession, gsession ∈ attached ↔
    ∃ i : Fin gsessionLenMax, i.val < ws.sessionsLen ∧ ws.sessions i = some gsession
  returns : ∃ out, gworkspacePosxGet manager ws = .ok out

def SessionsRight (state : SessionState) : Prop :=
  ∀ gworkspace ws, state.manager.workspaces[gworkspace]? = some ws →
    WorkspaceRight state.manager ws (state.attached gworkspace)

/-- The entry is for a session whose name starts with the one of another. -/
def EntryNamed (manager : GraphicsManager) (ws : GWorkspace) (name : List UInt8) (i : Fin gsessionLenMax) : Prop :=
  ∃ pointer session, ws.sessions i = some pointer ∧ manager.sessions[pointer]? = some session ∧
    strStartsWith session.name name = true

/-- The calls that the code is right for. -/
def CallSafe (state : SessionState) : SessionCall → Prop
  | .workspaceInit _ block array =>
    -- the block that is not cleared has a zero where the number of the sessions is
    state.manager.workspaces.length ≤ workspacesTotal → array = true → ∀ sessionsLen, block = some sessionsLen →
      sessionsLen = 0
  | .sessionInit _ _ _ _ => True
  | .attach gsession workspaceName =>
    gsession < state.manager.sessions.length →
      ∃ ws, state.manager.workspaces[0]? = some ws ∧ (strStartsWith ws.name workspaceName = true →
        ws.sessionsLen < gsessionLenMax ∧ gsession ∉ state.attached 0)
  | .detach gworkspace gsession =>
    ∀ ws session, state.manager.workspaces[gworkspace]? = some ws → state.manager.sessions[gsession]? = some session →
      (∃ i : Fin gsessionLenMax, i.val + 1 = ws.sessionsLen ∧ ws.sessions i = some gsession ∧
        ∀ j < i, ¬EntryNamed state.manager ws session.name j) ∨
      ws.sessionsLen = gsessionLenMax ∧ ∀ j, ¬EntryNamed state.manager ws session.name j

/-- The array of a workspace holds a list of sessions. -/
structure WorkspaceHeld (manager : GraphicsManager) (ws : GWorkspace) (attached : Finset Nat) (items : List Nat) :
    Prop where
  total : ws.sessionsTotal = gsessionLenMax
  length : ws.sessionsLen = items.length
  holds : SlotList.Holds ws.sessions (items.map some)
  behind : ∀ i : Fin gsessionLenMax, items.length ≤ i.val → ws.sessions i = none
  once : items.Nodup
  those : ∀ gsession, gsession ∈ attached ↔ gsession ∈ items
  made : ∀ pointer ∈ items, pointer < manager.sessions.length

structure SessionsHeld (state : SessionState) : Prop where
  held : ∀ gworkspace ws, state.manager.workspaces[gworkspace]? = some ws →
    ∃ items, WorkspaceHeld state.manager ws (state.attached gworkspace) items
  none_yet : ∀ gworkspace, state.manager.workspaces.length ≤ gworkspace → state.attached gworkspace = ∅

variable {manager : GraphicsManager} {ws : GWorkspace} {attached : Finset Nat} {items : List Nat} {name : List UInt8}

namespace WorkspaceHeld

theorem few (held : WorkspaceHeld manager ws attached items) : items.length ≤ gsessionLenMax := by
  have fits := held.holds.fits
  rwa [List.length_map] at fits

theorem slot (held : WorkspaceHeld manager ws attached items) {index : Nat} (inside : index < items.length) :
    ws.sessions ⟨index, Nat.lt_of_lt_of_le inside held.few⟩ = some items[index] := by
  have inside' : index < (items.map some).length := by rwa [List.length_map]
  rw [held.holds.slot index inside', List.getElem_map]

theorem fetched (held : WorkspaceHeld manager ws attached items) {index : Nat} (inside : index < items.length) :
    ∃ session, manager.sessions[items[index]]? = some session ∧
      elementAt ws.sessions index = .ok (some items[index]) ∧ gsessionAt manager (some items[index]) = .ok session := by
  have made := held.made _ (List.getElem_mem inside)
  refine ⟨_, List.getElem?_eq_getElem made, ?_, ?_⟩
  · rw [elementAt_eq ws.sessions (Nat.lt_of_lt_of_le inside held.few), held.slot inside]
  · rw [gsessionAt, List.getElem?_eq_getElem made]

theorem posx (held : WorkspaceHeld manager ws attached items) {left i ret : Nat} (inside : i + left ≤ items.length) :
    ∃ out, posxLoop manager ws left i ret = .ok out := by
  induction left generalizing i ret with
  | zero => exact ⟨ret, rfl⟩
  | succ left ih =>
    obtain ⟨session, -, entry, fetched⟩ := held.fetched (by omega : i < items.length)
    rw [posxLoop, entry]
    change ∃ out, (gsessionAt manager (some items[i]) >>= _) = _
    rw [fetched]
    exact ih (by omega)

theorem right (held : WorkspaceHeld manager ws attached items) : WorkspaceRight manager ws attached := by
  have few := held.few
  have entry (i : Fin gsessionLenMax) (inside : i.val < ws.sessionsLen) :
      ∃ inside : i.val < items.length, ws.sessions i = some items[i.val] := by
    have inside' : i.val < items.length := held.length ▸ inside
    exact ⟨inside', held.slot inside'⟩
  refine ⟨held.length ▸ few, ?_, ?_, ?_, ?_⟩
  · intro i inside
    obtain ⟨_, there⟩ := entry i inside
    rw [there]
    exact Option.some_ne_none _
  · intro i j first second same
    obtain ⟨inside, here⟩ := entry i first
    obtain ⟨inside', there⟩ := entry j second
    rw [here, there, Option.some.injEq] at same
    exact Fin.ext ((List.Nodup.getElem_inj_iff held.once).mp same)
  · intro gsession
    rw [held.those]
    constructor
    · intro member
      obtain ⟨index, inside, rfl⟩ := List.getElem_of_mem member
      refine ⟨⟨index, Nat.lt_of_lt_of_le inside few⟩, ?_, held.slot inside⟩
      rw [held.length]
      exact inside
    · rintro ⟨i, inside, there⟩
      obtain ⟨inside', here⟩ := entry i inside
      cases there.symm.trans here
      exact List.getElem_mem _
  · unfold gworkspacePosxGet
    split
    · exact ⟨0, rfl⟩
    · exact held.posx (by rw [Nat.zero_add, held.length])

/-- What is made besides does not matter to a workspace. -/
theorem frame {others : GraphicsManager} (held : WorkspaceHeld manager ws attached items)
    (more : manager.sessions.length ≤ others.sessions.length) : WorkspaceHeld others ws attached items :=
  { held with made := fun pointer member => Nat.lt_of_lt_of_le (held.made pointer member) more }

theorem push (held : WorkspaceHeld manager ws attached items) {gsession : Nat} (made : gsession < manager.sessions.length)
    (room : ws.sessionsLen < gsessionLenMax) (fresh : gsession ∉ attached) :
    WorkspaceHeld manager
      { ws with sessions := Function.update ws.sessions ⟨ws.sessionsLen, room⟩ (some gsession), sessionsLen := ws.sessionsLen + 1 }
      (insert gsession attached) (items ++ [gsession]) := by
  have fresh' : gsession ∉ items := fun member => fresh ((held.those gsession).mpr member)
  have room' : (items.map some).length < gsessionLenMax := by rw [List.length_map, ← held.length]; exact room
  have place : (⟨(items.map some).length, room'⟩ : Fin gsessionLenMax) = ⟨ws.sessionsLen, room⟩ :=
    Fin.ext ((List.length_map _).trans held.length.symm)
  refine ⟨held.total, ?_, ?_, ?_, ?_, ?_, ?_⟩
  · dsimp only
    rw [List.length_append, List.length_singleton]
    exact congrArg (· + 1) held.length
  · have pushed := held.holds.push room' (some gsession)
    rw [place] at pushed
    rw [List.map_append, List.map_singleton]
    exact pushed
  · intro i behind
    rw [List.length_append, List.length_singleton] at behind
    have other : i ≠ ⟨ws.sessionsLen, room⟩ := by
      intro same
      rw [same] at behind
      have length := held.length
      dsimp only at behind
      omega
    dsimp only
    rw [Function.update_of_ne other, held.behind i (by omega)]
  · exact held.once.append (List.nodup_singleton _) (by simpa using fresh')
  · intro other
    rw [Finset.mem_insert, List.mem_append, List.mem_singleton, held.those, or_comm]
  · intro pointer member
    rcases List.mem_append.mp member with old | new
    · exact held.made pointer old
    · rw [List.mem_singleton.mp new]
      exact made

/-- The last session is taken out. -/
theorem pop {gsession : Nat} (held : WorkspaceHeld manager ws attached (items ++ [gsession])) {i : Fin gsessionLenMax}
    (last : i.val = items.length) :
    WorkspaceHeld manager { ws with sessions := Function.update ws.sessions i none, sessionsLen := ws.sessionsLen - 1 }
      (attached.erase gsession) items := by
  have once := List.nodup_append.mp held.once
  have few := held.few
  rw [List.length_append, List.length_singleton] at few
  refine ⟨held.total, ?_, ⟨?_, ?_⟩, ?_, once.1, ?_, ?_⟩
  · dsimp only
    rw [held.length, List.length_append, List.length_singleton, Nat.add_sub_cancel]
  · rw [List.length_map]
    omega
  · intro index inside
    rw [List.length_map] at inside
    have there := held.slot (by rw [List.length_append]; omega : index < (items ++ [gsession]).length)
    rw [List.getElem_append_left inside] at there
    dsimp only
    rw [Function.update_of_ne, there, List.getElem_map]
    intro same
    rw [← same] at last
    dsimp only at last
    omega
  · intro j behind
    dsimp only
    by_cases same : j = i
    · rw [same, Function.update_self]
    · have apart : j.val ≠ i.val := fun equal => same (Fin.ext equal)
      rw [Function.update_of_ne same, held.behind j (by rw [List.length_append, List.length_singleton]; omega)]
  · intro other
    rw [Finset.mem_erase, held.those, List.mem_append, List.mem_singleton]
    constructor
    · rintro ⟨apart, member | same⟩
      · exact member
      · exact absurd same apart
    · intro member
      exact ⟨once.2.2 other member gsession List.mem_cons_self, .inl member⟩
  · intro pointer member
    exact held.made pointer (List.mem_append_left _ member)

/-- The loop over the entries passes those that are not named. -/
theorem detach_passes (held : WorkspaceHeld manager ws attached items) {gworkspace i : Nat} (inside : i ≤ items.length)
    (others : ∀ j : Fin gsessionLenMax, j.val < i → ¬EntryNamed manager ws name j) :
    detachLoop manager gworkspace ws name gsessionLenMax 0 =
      detachLoop manager gworkspace ws name (gsessionLenMax - i) i := by
  induction i with
  | zero => rfl
  | succ i ih =>
    have few := held.few
    rw [ih (by omega) fun j before => others j (Nat.lt_succ_of_lt before)]
    obtain ⟨session, made, entry, fetched⟩ := held.fetched inside
    have other : ¬strStartsWith session.name name = true := by
      intro named
      exact others ⟨i, by omega⟩ (Nat.lt_succ_self i) ⟨_, session, held.slot inside, made, named⟩
    obtain ⟨left, more⟩ : ∃ left, gsessionLenMax - i = left + 1 := ⟨gsessionLenMax - (i + 1), by omega⟩
    have rest : gsessionLenMax - (i + 1) = left := by omega
    rw [more, rest, detachLoop, entry]
    change (gsessionAt manager (some items[i]) >>= _) = _
    rw [fetched]
    change (if strStartsWith session.name name = true then _ else _) = _
    rw [if_neg other]

theorem detach_first (held : WorkspaceHeld manager ws attached items) {gworkspace : Nat} {i : Fin gsessionLenMax}
    (named : EntryNamed manager ws name i) (others : ∀ j < i, ¬EntryNamed manager ws name j) :
    detachLoop manager gworkspace ws name gsessionLenMax 0 =
      .ok (0, ⟨manager.workspaces.set gworkspace
        { ws with sessions := Function.update ws.sessions i none, sessionsLen := ws.sessionsLen - 1 },
          manager.sessions⟩) := by
  obtain ⟨pointer, session, there, made, starts⟩ := named
  have inside : i.val < items.length := by
    by_contra outside
    rw [held.behind i (Nat.not_lt.mp outside)] at there
    cases there
  have few := held.few
  obtain ⟨found, made', entry, fetched⟩ := held.fetched inside
  have same : found = session := by
    rw [held.slot inside, Option.some.injEq] at there
    rw [there] at made'
    exact Option.some.inj (made'.symm.trans made)
  rw [held.detach_passes (Nat.le_of_lt inside) fun j before => others j before]
  obtain ⟨left, more⟩ : ∃ left, gsessionLenMax - i.val = left + 1 := ⟨gsessionLenMax - (i.val + 1), by omega⟩
  have count : u64Sub ws.sessionsLen 1 = ws.sessionsLen - 1 := by
    have length := held.length
    have size : gsessionLenMax = 16 := rfl
    exact u64Sub_eq (by omega) (by omega)
  rw [more, detachLoop, entry]
  change (gsessionAt manager (some items[i.val]) >>= _) = _
  rw [fetched]
  change (if strStartsWith found.name name = true then _ else _) = _
  rw [same, if_pos starts, setElement_eq ws.sessions i.isLt none, count]
  rfl

/-- Without a named entry the loop comes to the first entry that is `NULL`, if there is one. -/
theorem detach_none (held : WorkspaceHeld manager ws attached items) {gworkspace : Nat}
    (others : ∀ j, ¬EntryNamed manager ws name j) :
    detachLoop manager gworkspace ws name gsessionLenMax 0 =
      if items.length = gsessionLenMax then .ok (1, manager) else .error .undefined := by
  have few := held.few
  rw [held.detach_passes (Nat.le_refl _) fun j _ => others j]
  split
  next full => rw [full]; rfl
  next room =>
    obtain ⟨left, more⟩ : ∃ left, gsessionLenMax - items.length = left + 1 :=
      ⟨gsessionLenMax - (items.length + 1), by omega⟩
    have inside : items.length < gsessionLenMax := by omega
    rw [more, detachLoop, elementAt_eq ws.sessions inside, held.behind ⟨_, inside⟩ (Nat.le_refl _)]
    rfl

end WorkspaceHeld

/-- No entry is named, or one of them is the first. -/
theorem first_named (manager : GraphicsManager) (ws : GWorkspace) (name : List UInt8) :
    (∀ j, ¬EntryNamed manager ws name j) ∨
      ∃ i, EntryNamed manager ws name i ∧ ∀ j < i, ¬EntryNamed manager ws name j := by
  by_cases some_ : ∃ i, EntryNamed manager ws name i
  · right
    obtain ⟨i, named⟩ := some_
    induction place : i.val using Nat.strong_induction_on generalizing i with
    | _ size ih =>
      by_cases earlier : ∃ j < i, EntryNamed manager ws name j
      · obtain ⟨j, before, named⟩ := earlier
        exact ih j.val (place ▸ before) j named rfl
      · exact ⟨i, named, fun j before there => earlier ⟨j, before, there⟩⟩
  · exact .inl (not_exists.mp some_)

section Steps

variable {state : SessionState} {gworkspace gsession : Nat}

/-- A workspace that is changed in its place, with the ledger of it. -/
theorem SessionsHeld.change (held : SessionsHeld state) {sessions : List GSession} {ws after : GWorkspace}
    (there : state.manager.workspaces[gworkspace]? = some ws) (kept : state.manager.sessions.length ≤ sessions.length)
    (changed : WorkspaceHeld ⟨state.manager.workspaces.set gworkspace after, sessions⟩ after attached items) :
    SessionsHeld ⟨⟨state.manager.workspaces.set gworkspace after, sessions⟩,
      Function.update state.attached gworkspace attached⟩ := by
  have inside := (List.getElem?_eq_some_iff.mp there).1
  refine ⟨?_, ?_⟩
  · intro other ws' found
    by_cases same : gworkspace = other
    · subst same
      dsimp only at found
      rw [List.getElem?_set_self inside, Option.some.injEq] at found
      subst found
      dsimp only
      rw [Function.update_self]
      exact ⟨items, changed⟩
    · dsimp only at found
      rw [List.getElem?_set_ne same] at found
      obtain ⟨others, held'⟩ := held.held other ws' found
      dsimp only
      rw [Function.update_of_ne (Ne.symm same)]
      exact ⟨others, held'.frame kept⟩
  · intro other outside
    dsimp only at outside
    rw [List.length_set] at outside
    dsimp only
    rw [Function.update_of_ne (by omega), held.none_yet other outside]

/-- What is done besides the workspaces. -/
theorem SessionsHeld.besides (held : SessionsHeld state) {sessions : List GSession}
    (kept : state.manager.sessions.length ≤ sessions.length) :
    SessionsHeld ⟨⟨state.manager.workspaces, sessions⟩, state.attached⟩ := by
  refine ⟨fun gworkspace ws there => ?_, held.none_yet⟩
  obtain ⟨items, held'⟩ := held.held gworkspace ws there
  exact ⟨items, held'.frame kept⟩

theorem SessionsHeld.workspace (held : SessionsHeld state) (name : List UInt8) :
    SessionsHeld ⟨⟨state.manager.workspaces ++ [⟨name, 10, fun _ => none, 0, gsessionLenMax⟩], state.manager.sessions⟩,
      state.attached⟩ := by
  refine ⟨fun gworkspace ws there => ?_, fun gworkspace outside => ?_⟩
  · by_cases old : gworkspace < state.manager.workspaces.length
    · dsimp only at there
      rw [List.getElem?_append_left old] at there
      obtain ⟨items, held'⟩ := held.held gworkspace ws there
      exact ⟨items, held'.frame (Nat.le_refl _)⟩
    · have empty := held.none_yet gworkspace (Nat.not_lt.mp old)
      have inside := (List.getElem?_eq_some_iff.mp there).1
      dsimp only at there inside
      rw [List.length_append, List.length_singleton] at inside
      have last : gworkspace = state.manager.workspaces.length := by omega
      rw [last, List.getElem?_concat_length, Option.some.injEq] at there
      subst there
      refine ⟨[], rfl, rfl, holds_nil _, fun _ _ => rfl, List.nodup_nil, fun gsession => ?_, fun _ member => ?_⟩
      · dsimp only
        rw [empty]
        exact iff_of_false (Finset.notMem_empty _) List.not_mem_nil
      · exact absurd member List.not_mem_nil
  · apply held.none_yet
    dsimp only at outside
    rw [List.length_append] at outside
    omega

theorem SessionsHeld.workspaceInit (held : SessionsHeld state) {block : Option Nat} {array : Bool}
    (safe : CallSafe state (.workspaceInit name block array)) :
    ∃ after, sessionStep state (.workspaceInit name block array) = .ok after ∧ SessionsHeld after := by
  refine ⟨_, rfl, ?_⟩
  unfold gworkspaceInit
  by_cases full : workspacesTotal < state.manager.workspaces.length
  · rw [if_pos full]
    exact held
  rw [if_neg full]
  cases block with
  | none => exact held
  | some sessionsLen =>
    cases array with
    | false => exact held
    | true =>
      have cleared : sessionsLen = 0 := safe (Nat.not_lt.mp full) rfl sessionsLen rfl
      rw [cleared]
      exact held.workspace _

theorem SessionsHeld.sessionInit (held : SessionsHeld state) (name : List UInt8) (width : Nat)
    (block : Option (Option Nat)) (ring : Bool) :
    ∃ after, sessionStep state (.sessionInit name width block ring) = .ok after ∧ SessionsHeld after := by
  refine ⟨_, rfl, ?_⟩
  unfold gsessionInit
  cases block with
  | none => exact held
  | some pointer =>
    cases ring with
    | false => exact held
    | true => exact held.besides (by rw [List.length_append]; exact Nat.le_add_right _ _)

/-- A session is attached to the first workspace when its name is named. -/
theorem attach_eq {ws : GWorkspace} {session : GSession} {workspaceName : List UInt8}
    (first : state.manager.workspaces[0]? = some ws) (made : state.manager.sessions[gsession]? = some session)
    (named : strStartsWith ws.name workspaceName = true) (total : ws.sessionsTotal = gsessionLenMax)
    (room : ws.sessionsLen < gsessionLenMax) :
    sessionStep state (.attach gsession workspaceName) =
      .ok ⟨⟨state.manager.workspaces.set 0 { ws with
          sessions := Function.update ws.sessions ⟨ws.sessionsLen, room⟩ (some gsession), sessionsLen :=
            ws.sessionsLen + 1 },
        state.manager.sessions.set gsession { session with gworkspace := some 0 }⟩,
        Function.update state.attached 0 (insert gsession (state.attached 0))⟩ := by
  have inside := (List.getElem?_eq_some_iff.mp made).1
  have count : u64 (ws.sessionsLen + 1) = ws.sessionsLen + 1 := by
    have size : gsessionLenMax = 16 := rfl
    exact u64_eq (by omega)
  have attaches : gsessionAttach state.manager gsession workspaceName = .ok (0,
      ⟨state.manager.workspaces.set 0 { ws with
          sessions := Function.update ws.sessions ⟨ws.sessionsLen, room⟩ (some gsession), sessionsLen :=
            ws.sessionsLen + 1 },
        state.manager.sessions.set gsession { session with gworkspace := some 0 }⟩) := by
    unfold gsessionAttach
    rw [made]
    dsimp only
    rw [attachLoop, first]
    dsimp only
    rw [if_pos named, if_neg (by omega), setElement_eq ws.sessions room, count]
    rfl
  rw [sessionStep, attaches]
  change Except.ok _ = _
  rw [if_pos rfl, nowAttached]
  dsimp only
  rw [List.getElem?_set_self inside]

theorem attach_null {workspaceName : List UInt8} (null : state.manager.sessions[gsession]? = none) :
    sessionStep state (.attach gsession workspaceName) = .ok state := by
  have nothing : gsessionAttach state.manager gsession workspaceName = .ok (1, state.manager) := by
    unfold gsessionAttach
    rw [null]
  rw [sessionStep, nothing]
  rfl

/-- Other names leave everything as it is. -/
theorem attach_other {ws : GWorkspace} {workspaceName : List UInt8} (first : state.manager.workspaces[0]? = some ws)
    (other : ¬strStartsWith ws.name workspaceName = true) :
    sessionStep state (.attach gsession workspaceName) = .ok state := by
  cases made : state.manager.sessions[gsession]? with
  | none => exact attach_null made
  | some session =>
    have nothing : gsessionAttach state.manager gsession workspaceName = .ok (1, state.manager) := by
      unfold gsessionAttach
      rw [made]
      dsimp only
      rw [attachLoop, first]
      dsimp only
      rw [if_neg other, attachLoop]
    rw [sessionStep, nothing]
    rfl

theorem SessionsHeld.attach (held : SessionsHeld state) {workspaceName : List UInt8}
    (safe : CallSafe state (.attach gsession workspaceName)) :
    ∃ after, sessionStep state (.attach gsession workspaceName) = .ok after ∧ SessionsHeld after := by
  cases made : state.manager.sessions[gsession]? with
  | none => exact ⟨state, attach_null made, held⟩
  | some session =>
    have inside := (List.getElem?_eq_some_iff.mp made).1
    obtain ⟨ws, first, free⟩ := safe inside
    by_cases named : strStartsWith ws.name workspaceName = true
    · obtain ⟨room, fresh⟩ := free named
      obtain ⟨items, workspace⟩ := held.held 0 ws first
      refine ⟨_, attach_eq first made named workspace.total room, ?_⟩
      have kept : state.manager.sessions.length ≤
          (state.manager.sessions.set gsession { session with gworkspace := some 0 }).length := by rw [List.length_set]
      exact held.change first kept ((workspace.push inside room fresh).frame kept)
    · exact ⟨state, attach_other first named, held⟩

theorem detach_null (null : state.manager.workspaces[gworkspace]? = none ∨ state.manager.sessions[gsession]? = none) :
    sessionStep state (.detach gworkspace gsession) = .ok state := by
  have nothing : gsessionDetach state.manager gworkspace gsession = .ok (1, state.manager) := by
    unfold gsessionDetach
    rcases null with null | null
    · rw [null]
    · rw [null]
      cases state.manager.workspaces[gworkspace]? <;> rfl
  rw [sessionStep, nothing]
  rfl

/-- A call with a workspace and a session goes through the entries. -/
theorem detach_loops {ws : GWorkspace} {session : GSession} (there : state.manager.workspaces[gworkspace]? = some ws)
    (made : state.manager.sessions[gsession]? = some session) (total : ws.sessionsTotal = gsessionLenMax) :
    gsessionDetach state.manager gworkspace gsession =
      detachLoop state.manager gworkspace ws session.name gsessionLenMax 0 := by
  unfold gsessionDetach
  rw [there, made, ← total]

theorem detach_ok {ws : GWorkspace} {session : GSession} (workspace : WorkspaceHeld state.manager ws attached items)
    (there : state.manager.workspaces[gworkspace]? = some ws) (made : state.manager.sessions[gsession]? = some session)
    {i : Fin gsessionLenMax} (named : EntryNamed state.manager ws session.name i)
    (first : ∀ j < i, ¬EntryNamed state.manager ws session.name j) :
    sessionStep state (.detach gworkspace gsession) =
      .ok ⟨⟨state.manager.workspaces.set gworkspace
        { ws with sessions := Function.update ws.sessions i none, sessionsLen := ws.sessionsLen - 1 },
        state.manager.sessions⟩,
        Function.update state.attached gworkspace ((state.attached gworkspace).erase gsession)⟩ := by
  rw [sessionStep, detach_loops there made workspace.total, workspace.detach_first named first]
  rfl

theorem SessionsHeld.detach (held : SessionsHeld state) (safe : CallSafe state (.detach gworkspace gsession)) :
    ∃ after, sessionStep state (.detach gworkspace gsession) = .ok after ∧ SessionsHeld after := by
  cases there : state.manager.workspaces[gworkspace]? with
  | none => exact ⟨state, detach_null (.inl there), held⟩
  | some ws =>
    cases made : state.manager.sessions[gsession]? with
    | none => exact ⟨state, detach_null (.inr made), held⟩
    | some session =>
      obtain ⟨items, workspace⟩ := held.held gworkspace ws there
      rcases safe ws session there made with ⟨i, last, entry, first⟩ | ⟨full, others⟩
      · have named : EntryNamed state.manager ws session.name i :=
          ⟨gsession, session, entry, made, (strStartsWith_iff _ _).mpr (List.prefix_refl session.name)⟩
        refine ⟨_, detach_ok workspace there made named first, ?_⟩
        rcases List.eq_nil_or_concat' items with rfl | ⟨front, other, rfl⟩
        · rw [workspace.length] at last
          cases last
        · have position : i.val = front.length := by
            rw [workspace.length, List.length_append, List.length_singleton] at last
            exact Nat.add_right_cancel last
          have slot := workspace.slot (by rw [List.length_append, List.length_singleton]; omega : i.val < (front ++ [other]).length)
          have same : other = gsession := by
            rw [List.getElem_concat_length position] at slot
            exact Option.some.inj (slot.symm.trans entry)
          subst same
          exact held.change there (Nat.le_refl _) ((workspace.pop position).frame (Nat.le_refl _))
      · refine ⟨state, ?_, held⟩
        rw [sessionStep, detach_loops there made workspace.total, workspace.detach_none others,
          if_pos (workspace.length.symm.trans full)]
        rfl

/-- A call that is safe returns, and keeps the arrays as they should be. -/
theorem SessionsHeld.keeps (held : SessionsHeld state) (call : SessionCall) (safe : CallSafe state call) :
    ∃ after, sessionStep state call = .ok after ∧ SessionsHeld after := by
  cases call with
  | workspaceInit name block array => exact held.workspaceInit safe
  | sessionInit name width block ring => exact held.sessionInit name width block ring
  | attach gsession workspaceName => exact held.attach safe
  | detach gworkspace gsession => exact held.detach safe

/-- A workspace that starts with a number of sessions has no entries for them. -/
theorem workspaceInit_breaks {block : Option Nat} {array : Bool} {after : SessionState}
    (unsafe_ : ¬CallSafe state (.workspaceInit name block array))
    (result : sessionStep state (.workspaceInit name block array) = .ok after) : ¬SessionsRight after := by
  obtain ⟨room, missed⟩ := Classical.not_imp.mp unsafe_
  obtain ⟨made, unset⟩ := Classical.not_imp.mp missed
  obtain ⟨sessionsLen, given⟩ := not_forall.mp unset
  obtain ⟨fresh, some_⟩ := Classical.not_imp.mp given
  intro right
  have workspaces : after.manager.workspaces =
      state.manager.workspaces ++ [⟨name.take (gnameMax - 1), 10, fun _ => none, sessionsLen, gsessionLenMax⟩] := by
    rw [sessionStep, made, fresh] at result
    cases result
    unfold gworkspaceInit
    rw [if_neg (Nat.not_lt.mpr room)]
    rfl
  have last := right state.manager.workspaces.length _ (by rw [workspaces, List.getElem?_concat_length])
  exact last.filled 0 (Nat.pos_of_ne_zero some_) rfl

/-- A session that is attached again is in the array twice. -/
theorem attach_breaks (held : SessionsHeld state) {workspaceName : List UInt8} {after : SessionState}
    (unsafe_ : ¬CallSafe state (.attach gsession workspaceName))
    (result : sessionStep state (.attach gsession workspaceName) = .ok after) : ¬SessionsRight after := by
  obtain ⟨inside, unsafe_⟩ := Classical.not_imp.mp unsafe_
  have made := List.getElem?_eq_getElem inside
  cases first : state.manager.workspaces[0]? with
  | none =>
    have fails : gsessionAttach state.manager gsession workspaceName = .error .undefined := by
      unfold gsessionAttach
      rw [made]
      dsimp only
      rw [attachLoop, first]
    rw [sessionStep, fails] at result
    cases result
  | some ws =>
    obtain ⟨items, workspace⟩ := held.held 0 ws first
    have few := workspace.few
    by_cases named : strStartsWith ws.name workspaceName = true
    · by_cases room : ws.sessionsLen < gsessionLenMax
      · have again : gsession ∈ state.attached 0 := by
          by_contra fresh
          exact unsafe_ ⟨ws, first, fun _ => ⟨room, fresh⟩⟩
        rw [attach_eq first made named workspace.total room] at result
        cases result
        intro right
        have zero : 0 < state.manager.workspaces.length := (List.getElem?_eq_some_iff.mp first).1
        have changed := right 0 _ (List.getElem?_set_self zero)
        obtain ⟨i, before, entry⟩ := (workspace.right.those gsession).mp again
        have earlier : i ≠ ⟨ws.sessionsLen, room⟩ := fun same => by rw [same] at before; exact Nat.lt_irrefl _ before
        have apart := changed.apart i ⟨ws.sessionsLen, room⟩ (Nat.lt_succ_of_lt before) (Nat.lt_succ_self _)
        dsimp only at apart
        rw [Function.update_of_ne earlier, Function.update_self] at apart
        exact absurd (apart entry) earlier
      · have fails : gsessionAttach state.manager gsession workspaceName = .error .undefined := by
          have full : ¬(0 ≤ (ws.sessionsLen : Int) ∧ (ws.sessionsLen : Int) < gsessionLenMax) := by omega
          unfold gsessionAttach
          rw [made]
          dsimp only
          rw [attachLoop, first]
          dsimp only
          rw [if_pos named, if_neg (by rw [workspace.total, workspace.length]; omega), setElement, dif_neg full]
          rfl
        rw [sessionStep, fails] at result
        cases result
    · exact absurd ⟨ws, first, fun there => absurd there named⟩ unsafe_

/-- To detach leaves a hole, or takes another session out, or runs into an entry that is `NULL`. -/
theorem detach_breaks (held : SessionsHeld state) {after : SessionState}
    (unsafe_ : ¬CallSafe state (.detach gworkspace gsession))
    (result : sessionStep state (.detach gworkspace gsession) = .ok after) : ¬SessionsRight after := by
  obtain ⟨ws, unsafe_⟩ := not_forall.mp unsafe_
  obtain ⟨session, unsafe_⟩ := not_forall.mp unsafe_
  obtain ⟨there, unsafe_⟩ := Classical.not_imp.mp unsafe_
  obtain ⟨made, unsafe_⟩ := Classical.not_imp.mp unsafe_
  obtain ⟨missed, open_⟩ := not_or.mp unsafe_
  obtain ⟨items, workspace⟩ := held.held gworkspace ws there
  rcases first_named state.manager ws session.name with others | ⟨i, named, first⟩
  · have room : items.length ≠ gsessionLenMax := fun full => open_ ⟨workspace.length.trans full, others⟩
    rw [sessionStep, detach_loops there made workspace.total, workspace.detach_none others, if_neg room] at result
    cases result
  · rw [detach_ok workspace there made named first] at result
    cases result
    intro right
    have inside : gworkspace < state.manager.workspaces.length := (List.getElem?_eq_some_iff.mp there).1
    have changed := right gworkspace _ (List.getElem?_set_self inside)
    obtain ⟨pointer, other, entry, -⟩ := named
    have before : i.val < ws.sessionsLen := by
      rw [workspace.length]
      by_contra outside
      rw [workspace.behind i (Nat.not_lt.mp outside)] at entry
      cases entry
    by_cases last : i.val + 1 = ws.sessionsLen
    · have apart : pointer ≠ gsession := fun same => missed ⟨i, last, same ▸ entry, first⟩
      have listed : pointer ∈ state.attached gworkspace := (workspace.right.those pointer).mpr ⟨i, before, entry⟩
      have left := (changed.those pointer).mp
      dsimp only at left
      rw [Function.update_self] at left
      obtain ⟨j, within, found⟩ := left (Finset.mem_erase.mpr ⟨apart, listed⟩)
      by_cases same : j = i
      · rw [same, Function.update_self] at found
        cases found
      · rw [Function.update_of_ne same] at found
        exact same (workspace.right.apart j i (by omega) before (found.trans entry.symm))
    · have filled := changed.filled i (by dsimp only; omega)
      dsimp only at filled
      rw [Function.update_self] at filled
      exact filled rfl

end Steps

/-- In every run: all calls return and all workspaces stay right exactly when each call is
one that the code is right for. -/
theorem workspace_sessions_right_iff (calls : List SessionCall) :
    Always sessionStep SessionsRight sessionStart calls ↔ Meets sessionStep CallSafe sessionStart calls := by
  have starts : SessionsHeld sessionStart :=
    ⟨fun gworkspace ws there => absurd there (by rw [sessionStart, List.getElem?_nil]; exact Option.some_ne_none ws ∘ Eq.symm),
      fun _ _ => rfl⟩
  apply always_iff_meets SessionsHeld ?_ (fun state call held safe => held.keeps call safe) ?_ starts
  · intro state held gworkspace ws there
    obtain ⟨items, workspace⟩ := held.held gworkspace ws there
    exact workspace.right
  · intro state call after held unsafe_ result
    cases call with
    | workspaceInit name block array => exact workspaceInit_breaks unsafe_ result
    | sessionInit name width block ring => exact absurd trivial unsafe_
    | attach gsession workspaceName => exact attach_breaks held unsafe_ result
    | detach gworkspace gsession => exact detach_breaks held unsafe_ result

/-- Two sessions are attached, and the first is detached. -/
def holeRun : List SessionCall :=
  [.workspaceInit [119] (some 0) true, .sessionInit [97] 10 (some none) true, .sessionInit [98] 10 (some none) true,
    .attach 0 [119], .attach 1 [119], .detach 0 0]

theorem workspace_sessions_wrong : ¬Always sessionStep SessionsRight sessionStart holeRun := by
  intro always
  obtain ⟨after, run, one, hole⟩ : ∃ after, holeRun.foldlM sessionStep sessionStart = .ok after ∧
      ∃ ws, after.manager.workspaces[0]? = some ws ∧ ws.sessionsLen = 1 ∧ ws.sessions 0 = none :=
        ⟨_, rfl, _, rfl, rfl, rfl⟩
  obtain ⟨there, length, empty⟩ := hole
  exact (always.finish run 0 one there).filled 0 (by rw [length]; decide) empty

end Kernix.Proofs
