import Kernix.Drivers.Xhci
import Kernix.Lib.RingBuffer

/-! The event ring over many turns. The controller flips the cycle bit on each of them,
and the handler always waits for the same value. -/

namespace Kernix.Proofs
open RingBuffer

local instance eventSlots : NeZero eventRingSize := ⟨by decide⟩

/-- The ring together with the events that the controller has written and those that the
calls have handled. -/
structure EventState where
  ctrl : XhciController
  written : List XhciTrb
  handled : List XhciTrb

inductive RingEvent where
  | writes (event : XhciTrb)
  | handles

/-- The event with the cycle bit of the turn that the controller is in. -/
def withCycle (written : Nat) (event : XhciTrb) : XhciTrb :=
  { event with control := (event.control &&& 0xFFFFFFFE) ||| (if written / eventRingSize % 2 = 0 then 1 else 0) }

/-- The controller writes the next entry, unless the driver has not handled all events
that fill the ring. -/
def controllerWrites (state : EventState) (event : XhciTrb) : EventState :=
  if state.handled.length + eventRingSize ≤ state.written.length then state
  else
    let event := withCycle state.written.length event
    let slot := Fin.ofNat eventRingSize state.written.length
    { state with
      ctrl := { state.ctrl with eventRing := Function.update state.ctrl.eventRing slot event }
      written := state.written ++ [event] }

def driverHandles (state : EventState) : EventState :=
  { state with
    ctrl := (xhciHandleEvent state.ctrl).2
    handled := state.handled ++ (xhciFoundEvent state.ctrl).toList }

def ringStep (state : EventState) : RingEvent → EventState
  | .writes event => controllerWrites state event
  | .handles => driverHandles state

def eventStart (types : Nat → UInt8) : EventState := ⟨xhciInit types, [], []⟩

/-- The call handles the first event that was not handled yet, or none if there is none. -/
def HandlesNext (state : EventState) : Prop := xhciFoundEvent state.ctrl = state.written[state.handled.length]?

/-- All calls in a run handle the events that they should. -/
def CallsRight : EventState → List RingEvent → Prop
  | _, [] => True
  | state, event :: events => (event = .handles → HandlesNext state) ∧ CallsRight (ringStep state event) events

/-- All calls are made in the first turn of the ring. -/
def FirstTurn : EventState → List RingEvent → Prop
  | _, [] => True
  | state, event :: events =>
    (event = .handles → state.handled.length < eventRingSize) ∧ FirstTurn (ringStep state event) events

/-- The written events are in the ring, from the one that is next to be handled on. The
entries behind them are still cleared in the first turn. -/
structure EventHeld (state : EventState) : Prop where
  initialized : state.ctrl.initialized = true
  index : state.ctrl.eventRingIndex = Fin.ofNat eventRingSize state.handled.length
  order : state.handled <+: state.written
  few : state.handled.length ≤ eventRingSize
  room : state.written.length ≤ state.handled.length + eventRingSize
  held : ∀ index event, state.written[index]? = some event → state.written.length ≤ index + eventRingSize →
    state.ctrl.eventRing (Fin.ofNat eventRingSize index) = event
  cycles : ∀ index event, state.written[index]? = some event →
    (event.control &&& 1 ≠ 0 ↔ index / eventRingSize % 2 = 0)
  cleared : ∀ slot : Fin eventRingSize, state.written.length ≤ slot.val → state.ctrl.eventRing slot = ⟨0, 0, 0, 0⟩

variable {state : EventState} {event : XhciTrb}

theorem withCycle_cycle (written : Nat) (event : XhciTrb) :
    (withCycle written event).control &&& 1 ≠ 0 ↔ written / eventRingSize % 2 = 0 := by
  have bits (flip : UInt32) : ((event.control &&& 0xFFFFFFFE) ||| flip) &&& 1 = flip &&& 1 := by
    have apart : (0xFFFFFFFE : UInt32) &&& 1 = 0 := by decide
    have parts : ((event.control &&& 0xFFFFFFFE) ||| flip) &&& 1 = (event.control &&& 0xFFFFFFFE) &&& 1 ||| flip &&& 1 :=
      UInt32.toBitVec_inj.mp BitVec.and_or_distrib_right
    rw [parts, UInt32.and_assoc, apart, UInt32.and_zero, UInt32.zero_or]
  unfold withCycle
  dsimp only
  rw [bits]
  split
  next even => exact iff_of_true (by decide) even
  next odd => exact iff_of_false (by decide) odd

theorem xhciFoundEvent_eq (initialized : state.ctrl.initialized = true) : xhciFoundEvent state.ctrl =
    if (state.ctrl.eventRing state.ctrl.eventRingIndex).control &&& 1 ≠ 0 then
      some (state.ctrl.eventRing state.ctrl.eventRingIndex) else none := by
  unfold xhciFoundEvent
  rw [initialized]
  simp

/-- In the first turn the handler finds what it should. -/
theorem EventHeld.first (held : EventHeld state) (early : state.handled.length < eventRingSize) : HandlesNext state := by
  have fewer := held.order.length_le
  have index : state.ctrl.eventRingIndex = Fin.ofNat eventRingSize state.handled.length := held.index
  unfold HandlesNext
  rw [xhciFoundEvent_eq held.initialized, index]
  cases next : state.written[state.handled.length]? with
  | some event =>
    have cycle := (held.cycles _ event next).mpr (by rw [Nat.div_eq_of_lt early])
    rw [held.held _ event next held.room, if_pos cycle]
  | none =>
    have behind : state.written.length ≤ (Fin.ofNat eventRingSize state.handled.length).val := by
      rw [Fin.val_ofNat, Nat.mod_eq_of_lt early]
      exact List.getElem?_eq_none_iff.mp next
    rw [held.cleared _ behind]
    rfl

/-- Behind the first turn the handler finds an old event again, or misses a new one. -/
theorem EventHeld.late (held : EventHeld state) (late : eventRingSize ≤ state.handled.length) : ¬HandlesNext state := by
  have fewer := held.order.length_le
  have few := held.few
  have room := held.room
  have turned : state.handled.length = eventRingSize := by omega
  have index : state.ctrl.eventRingIndex = Fin.ofNat eventRingSize 0 := by
    rw [held.index, turned]
    rfl
  unfold HandlesNext
  rw [xhciFoundEvent_eq held.initialized, turned]
  cases next : state.written[eventRingSize]? with
  | some event =>
    have entry : state.ctrl.eventRing state.ctrl.eventRingIndex = event := by
      rw [held.index, turned]
      exact held.held _ event next (by omega)
    have cycle : ¬event.control &&& 1 ≠ 0 := mt (held.cycles _ event next).mp (by decide)
    rw [entry, if_neg cycle]
    rintro ⟨⟩
  | none =>
    have all := List.getElem?_eq_none_iff.mp next
    obtain ⟨event, first⟩ : ∃ event, state.written[0]? = some event :=
      ⟨_, List.getElem?_eq_getElem (by unfold eventRingSize at turned; omega)⟩
    have entry : state.ctrl.eventRing state.ctrl.eventRingIndex = event := by
      rw [index]
      exact held.held 0 event first (by omega)
    have cycle := (held.cycles 0 event first).mpr (by decide)
    rw [entry, if_pos cycle]
    rintro ⟨⟩

theorem EventHeld.writes (held : EventHeld state) (event : XhciTrb) : EventHeld (controllerWrites state event) := by
  have room := held.room
  unfold controllerWrites
  split
  · exact held
  next free =>
    have written (index : Nat) (other : XhciTrb)
        (found : (state.written ++ [withCycle state.written.length event])[index]? = some other) :
        state.written[index]? = some other ∨ index = state.written.length ∧
          other = withCycle state.written.length event := by
      rcases Nat.lt_trichotomy index state.written.length with less | rfl | more
      · left
        rwa [List.getElem?_append_left less] at found
      · right
        rw [List.getElem?_concat_length] at found
        exact ⟨rfl, (Option.some.inj found).symm⟩
      · rw [List.getElem?_eq_none (by rw [List.length_append, List.length_singleton]; omega)] at found
        cases found
    refine ⟨held.initialized, held.index, held.order.trans (List.prefix_append _ _), held.few, ?_, ?_, ?_, ?_⟩
    · dsimp only
      rw [List.length_append, List.length_singleton]
      omega
    · intro index other found recent
      dsimp only at found recent ⊢
      rw [List.length_append, List.length_singleton] at recent
      rcases written index other found with old | ⟨rfl, rfl⟩
      · have inside := (List.getElem?_eq_some_iff.mp old).1
        rw [Function.update_of_ne, held.held index other old (by omega)]
        intro same
        have offsets : index % 256 = state.written.length % 256 := congrArg Fin.val same
        have size : eventRingSize = 256 := rfl
        omega
      · exact Function.update_self _ _ _
    · intro index other found
      rcases written index other found with old | ⟨rfl, rfl⟩
      · exact held.cycles index other old
      · exact withCycle_cycle _ _
    · intro slot behind
      dsimp only at behind ⊢
      rw [List.length_append, List.length_singleton] at behind
      rw [Function.update_of_ne, held.cleared slot (by omega)]
      rintro rfl
      rw [Fin.val_ofNat] at behind
      have less := Nat.mod_le state.written.length eventRingSize
      omega

theorem EventHeld.handles (held : EventHeld state) (early : state.handled.length < eventRingSize) :
    EventHeld (driverHandles state) := by
  have next := held.first early
  unfold HandlesNext at next
  unfold driverHandles xhciHandleEvent
  rw [next]
  cases found : state.written[state.handled.length]? with
  | none =>
    dsimp only
    rw [Option.toList_none, List.append_nil]
    exact held
  | some event =>
    dsimp only
    rw [Option.toList_some]
    obtain ⟨rest, whole⟩ := held.order
    obtain ⟨inside, value⟩ := List.getElem?_eq_some_iff.mp found
    have length : (state.handled ++ [event]).length = state.handled.length + 1 := by
      rw [List.length_append, List.length_singleton]
    refine ⟨held.initialized, ?_, ?_, ?_, ?_, held.held, held.cycles, held.cleared⟩
    · dsimp only
      rw [length, held.index]
      simpa only [zero_add] using offset_add_one (0 : Fin eventRingSize) state.handled.length
    · refine ⟨state.written.drop (state.handled.length + 1), ?_⟩
      have front : state.handled = state.written.take state.handled.length := List.prefix_iff_eq_take.mp held.order
      rw [List.append_assoc, List.singleton_append, ← value, ← List.drop_eq_getElem_cons inside]
      conv_lhs => rw [front, List.length_take, Nat.min_eq_left (by omega)]
      exact List.take_append_drop _ _
    · dsimp only
      rw [length]
      exact early
    · dsimp only
      rw [length]
      have room := held.room
      omega

theorem eventStart_held (types : Nat → UInt8) : EventHeld (eventStart types) where
  initialized := rfl
  index := rfl
  order := List.prefix_refl _
  few := Nat.zero_le _
  room := Nat.zero_le _
  held := by
    intro index event found
    cases found
  cycles := by
    intro index event found
    cases found
  cleared := fun _ _ => rfl

theorem EventHeld.calls_right_iff (held : EventHeld state) (events : List RingEvent) :
    CallsRight state events ↔ FirstTurn state events := by
  induction events generalizing state with
  | nil => rfl
  | cons event events ih =>
    rw [CallsRight, FirstTurn]
    cases event with
    | writes event => simp only [reduceCtorEq, false_implies, true_and, ih (held.writes event), ringStep]
    | handles =>
      by_cases early : state.handled.length < eventRingSize
      · have next := held.first early
        simp only [next, early, ih (held.handles early), ringStep]
      · have wrong := held.late (by omega)
        simp only [wrong, early, imp_false, not_true, false_and]

/-- Each event is handled once and in order by the calls of the first turn, and by no later ones. -/
theorem event_ring_right_iff (types : Nat → UInt8) (events : List RingEvent) :
    CallsRight (eventStart types) events ↔ FirstTurn (eventStart types) events :=
  (eventStart_held types).calls_right_iff events

/-- Events that are handled as soon as they are written, and one more call. -/
private def promptTurns (event : XhciTrb) : Nat → List RingEvent
  | 0 => [.handles]
  | turns + 1 => .writes event :: .handles :: promptTurns event turns

private theorem EventHeld.prompt (held : EventHeld state) (event : XhciTrb) {turns : Nat}
    (all : state.handled.length = state.written.length) (left : state.handled.length + turns = eventRingSize) :
    ¬CallsRight state (promptTurns event turns) := by
  induction turns generalizing state with
  | zero =>
    intro right
    exact held.late (by omega) (right.1 rfl)
  | succ turns ih =>
    intro right
    have size : eventRingSize = 256 := rfl
    have free : ¬state.handled.length + eventRingSize ≤ state.written.length := by omega
    have kept : (controllerWrites state event).handled = state.handled := by
      unfold controllerWrites
      rw [if_neg free]
    have longer : (controllerWrites state event).written.length = state.written.length + 1 := by
      unfold controllerWrites
      rw [if_neg free, List.length_append, List.length_singleton]
    have early : (controllerWrites state event).handled.length < eventRingSize := by
      rw [kept]
      omega
    have next := (held.writes event).first early
    have counted : (driverHandles (controllerWrites state event)).handled.length = state.handled.length + 1 := by
      unfold driverHandles
      rw [next, List.getElem?_eq_getElem (by rw [kept]; omega), Option.toList_some, List.length_append, List.length_singleton,
        kept]
    refine ih ((held.writes event).handles early) ?_ ?_ right.2.2
    · exact counted.trans ((congrArg (· + 1) all).trans longer.symm)
    · rw [counted]
      omega

/-- Behind 256 events the call handles the first one again. -/
theorem event_ring_wrong : ¬∀ (types : Nat → UInt8) (events : List RingEvent), CallsRight (eventStart types) events := by
  intro right
  exact (eventStart_held fun _ => 0).prompt ⟨0, 0, 0, 0⟩ rfl rfl (right _ (promptTurns ⟨0, 0, 0, 0⟩ eventRingSize))

end Kernix.Proofs
