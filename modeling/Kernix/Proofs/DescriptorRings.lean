import Kernix.Lib.Runs
import Kernix.Drivers.E1000
import Kernix.Lib.RingBuffer

/-! The rings of descriptors. Nothing keeps the sender from going around the transmit ring
and meeting the device, and a ring whose heads meet is empty to the device. In the receive
ring the tail stays one slot behind the driver's index, so at most thirty-one frames wait
in the ring, and the device stops before it meets the driver. -/

namespace Kernix.Proofs
open RingBuffer Transition

section Transmit
open Runs

local instance transmitSlots : NeZero descCount := ⟨by decide⟩

/-- The rings together with the packets that the driver has accepted and those that the
device has sent. -/
structure TransmitState where
  dev : E1000Device
  accepted : List (List UInt8)
  transmitted : List (List UInt8)

inductive TransmitEvent where
  | sends (data : List UInt8)
  | transmits

def transmitStep (state : TransmitState) : TransmitEvent → Except Stop TransmitState
  | .sends data =>
    .ok { state with
      dev := e1000SendPacket state.dev data
      accepted := if packetBufferSize < data.length then state.accepted else state.accepted ++ [data] }
  | .transmits =>
    match deviceTransmits state.dev with
    | none => .ok state
    | some (packet, dev) => .ok { state with dev, transmitted := state.transmitted ++ [packet] }

def transmitStart (dev : E1000Device) : TransmitState := ⟨e1000Init dev, [], []⟩

/-- The packet that a slot of the ring holds. -/
def packetAt (dev : E1000Device) (slot : Fin descCount) : List UInt8 :=
  readBuffer (dev.txBuffers slot) (dev.txDescs slot).length

/-- The accepted packets are those that the device has sent, in order, and behind them
those that are still in the ring. The tail meets the head only when none is left. -/
structure TransmitRight (state : TransmitState) : Prop where
  order : state.transmitted ++ queue (packetAt state.dev) state.dev.tdh state.dev.tdt = state.accepted
  tail : state.dev.tdt = state.dev.tdh → state.transmitted = state.accepted

/-- A packet is accepted only where the tail stays behind the head. -/
def RoomToSend (state : TransmitState) : TransmitEvent → Prop
  | .sends data => data.length ≤ packetBufferSize → state.dev.txCur + 1 ≠ state.dev.tdh
  | .transmits => True

/-- The driver's index is the tail. -/
structure TransmitHeld (state : TransmitState) : Prop where
  right : TransmitRight state
  current : state.dev.tdt = state.dev.txCur

variable {state : TransmitState} {data : List UInt8} {buffer : PacketBuffer}

theorem readBuffer_filled (fits : data.length ≤ packetBufferSize) :
    readBuffer (fillBuffer buffer data) data.length = data := by
  apply List.ext_getElem
  · rw [readBuffer, List.length_take, List.length_ofFn]
    omega
  · intro index _ inside
    simp only [readBuffer, fillBuffer, List.getElem_take, List.getElem_ofFn, List.getD_eq_getElem?_getD,
      List.getElem?_eq_getElem inside, Option.getD_some]

/-- What is sent goes into the slot of the driver's index. -/
theorem packetAt_sent (dev : E1000Device) (fits : data.length ≤ packetBufferSize) :
    packetAt (e1000SendPacket dev data) = Function.update (packetAt dev) dev.txCur data := by
  funext slot
  unfold packetAt e1000SendPacket
  rw [if_neg (by omega)]
  by_cases here : slot = dev.txCur
  · subst here
    simp only [Function.update_self]
    exact readBuffer_filled fits
  · simp only [Function.update_of_ne here]

theorem deviceTransmits_moves {dev : E1000Device} (some_ : dev.tdh ≠ dev.tdt) :
    ∃ after, deviceTransmits dev = some (packetAt dev dev.tdh, after) ∧ packetAt after = packetAt dev ∧
      after.tdh = dev.tdh + 1 ∧ after.tdt = dev.tdt ∧ after.txCur = dev.txCur := by
  unfold deviceTransmits
  rw [if_neg some_]
  refine ⟨_, rfl, ?_, rfl, rfl, rfl⟩
  funext slot
  unfold packetAt
  by_cases here : slot = dev.tdh
  · subst here
    simp only [Function.update_self]
  · simp only [Function.update_of_ne here]

theorem TransmitHeld.sends (held : TransmitHeld state) (room : RoomToSend state (.sends data)) :
    ∃ after, transmitStep state (.sends data) = .ok after ∧ TransmitHeld after := by
  refine ⟨_, rfl, ?_⟩
  by_cases fits : data.length ≤ packetBufferSize
  · have apart := room fits
    have packets := packetAt_sent state.dev fits
    rw [if_neg (by omega)]
    have moved : (e1000SendPacket state.dev data).tdt = state.dev.txCur + 1 ∧
        (e1000SendPacket state.dev data).tdh = state.dev.tdh ∧
        (e1000SendPacket state.dev data).txCur = state.dev.txCur + 1 := by
      unfold e1000SendPacket
      rw [if_neg (by omega)]
      exact ⟨rfl, rfl, rfl⟩
    obtain ⟨tail, head, current⟩ := moved
    refine ⟨⟨?_, fun meet => absurd ((tail.symm.trans meet).trans head) apart⟩, tail.trans current.symm⟩
    dsimp only
    rw [packets, tail, head, queue_push apart, ← List.append_assoc, ← held.current, held.right.order]
  · have long : packetBufferSize < data.length := by omega
    have same : e1000SendPacket state.dev data = state.dev := if_pos long
    rw [same, if_pos long]
    exact held

theorem TransmitHeld.transmits (held : TransmitHeld state) :
    ∃ after, transmitStep state .transmits = .ok after ∧ TransmitHeld after := by
  by_cases empty : state.dev.tdh = state.dev.tdt
  · have idle : deviceTransmits state.dev = none := if_pos empty
    exact ⟨state, by rw [transmitStep, idle], held⟩
  · obtain ⟨dev, sends, packets, head, tail, current⟩ := deviceTransmits_moves empty
    have order := held.right.order
    rw [queue_pop empty, List.append_cons] at order
    refine ⟨⟨dev, state.accepted, state.transmitted ++ [packetAt state.dev state.dev.tdh]⟩, by rw [transmitStep,
      sends], ?_⟩
    refine ⟨⟨?_, fun meet => ?_⟩, tail.trans (held.current.trans current.symm)⟩
    · dsimp only
      rw [packets, head, tail]
      exact order
    · dsimp only at meet ⊢
      rw [← head, ← tail, meet, queue_empty, List.append_nil] at order
      exact order

/-- A packet that makes the tail meet the head is lost with all that were still in the ring. -/
theorem TransmitHeld.overrun (held : TransmitHeld state) (full : ¬RoomToSend state (.sends data)) :
    ¬TransmitRight { state with
      dev := e1000SendPacket state.dev data
      accepted := if packetBufferSize < data.length then state.accepted else state.accepted ++ [data] } := by
  intro right
  obtain ⟨fits, meets⟩ := Classical.not_imp.mp full
  have tail := right.tail
  unfold e1000SendPacket at tail
  rw [if_neg (by omega), if_neg (by omega)] at tail
  have all := congrArg List.length (tail (not_not.mp meets))
  have before := congrArg List.length held.right.order
  rw [List.length_append] at all before
  simp only [List.length_singleton] at all
  omega

theorem transmitStart_held (dev : E1000Device) : TransmitHeld (transmitStart dev) :=
  ⟨⟨queue_empty _ _, fun _ => rfl⟩, rfl⟩

/-- Every accepted packet is sent once, in order, with its own bytes, in the runs that
accept none while the ring has no room for it. -/
theorem transmit_ring_right_iff (dev : E1000Device) (events : List TransmitEvent) :
    Always transmitStep TransmitRight (transmitStart dev) events ↔
      Meets transmitStep RoomToSend (transmitStart dev) events := by
  refine always_iff_meets TransmitHeld (fun _ held => held.right) ?_ ?_ (transmitStart_held dev)
  · intro state event held room
    cases event with
    | sends data => exact held.sends room
    | transmits => exact held.transmits
  · intro state event after held full moves
    cases event with
    | sends data =>
      cases moves
      exact held.overrun full
    | transmits => exact absurd trivial full

/-- A device before `e1000_init`. -/
def blankDevice : E1000Device :=
  ⟨fun _ => ⟨0, 0⟩, fun _ => ⟨0, 0, 0⟩, fun _ _ => 0, fun _ _ => 0, 0, 0, 0, 0, 0, 0⟩

private def lapped : List TransmitEvent := List.replicate 32 (.sends [0])

/-- Thirty-two packets that the device has not sent yet fill the ring, which is then empty to it. -/
theorem transmit_ring_wrong : ¬∀ (dev : E1000Device) (events : List TransmitEvent),
    Always transmitStep TransmitRight (transmitStart dev) events := by
  intro right
  have run : ∃ after, lapped.foldlM transmitStep (transmitStart blankDevice) = .ok after ∧
      after.dev.tdt = after.dev.tdh ∧ after.transmitted ≠ after.accepted := 
    ⟨_, rfl, by decide, fun same => List.cons_ne_nil _ _ same.symm⟩
  obtain ⟨after, run, meet, lost⟩ := run
  exact lost (((right blankDevice lapped).finish run).tail meet)

end Transmit

local instance receiveSlots : NeZero descCount := ⟨by decide⟩

/-- The rings together with the frames that the device has accepted and the results that
the calls have had, each with its `max_len`, where these are not zero. -/
structure ReceiveState where
  dev : E1000Device
  accepted : List (List UInt8)
  results : List (Nat × List UInt8)

inductive ReceiveEvent where
  | arrives (frame : List UInt8)
  | receives (maxLen : Nat)

/-- A frame has from 1 to 2048 bytes. It is lost when the ring is full. -/
def ReceiveMoves (before : ReceiveState) (event : ReceiveEvent) (after : ReceiveState) : Prop :=
  match event with
  | .arrives frame =>
    0 < frame.length ∧ frame.length ≤ packetBufferSize ∧
      match deviceReceives before.dev frame with
      | none => after = before
      | some dev => after = { before with dev, accepted := before.accepted ++ [frame] }
  | .receives maxLen =>
    0 < maxLen ∧
      after = { before with
        dev := (e1000ReceivePacket before.dev maxLen).2
        results :=
          if (e1000ReceivePacket before.dev maxLen).1 = [] then before.results
          else before.results ++ [(maxLen, (e1000ReceivePacket before.dev maxLen).1)] }

def ReceiveStarts (state : ReceiveState) : Prop := ∃ dev, state = ⟨e1000Init dev, [], []⟩

/-- The frame that a slot of the ring holds. -/
def frameAt (dev : E1000Device) (slot : Fin descCount) : List UInt8 :=
  readBuffer (dev.rxBuffers slot) (dev.rxDescs slot).length

/-- The bit that the device sets when a descriptor holds a frame. -/
def Done (dev : E1000Device) (slot : Fin descCount) : Prop := (dev.rxDescs slot).status &&& 0x1 ≠ 0

/-- The results are the accepted frames in their order, each cut off at its `max_len`, and
the next ones are in the ring. A call has no result only when there is no frame. -/
structure ReceiveRight (state : ReceiveState) : Prop where
  order : state.results.map Prod.snd = List.zipWith (fun result frame => frame.take result.1) state.results state.accepted
  fewer : state.results.length ≤ state.accepted.length
  returns : ∀ maxLen, 0 < maxLen → (e1000ReceivePacket state.dev maxLen).1 =
    ((state.accepted.drop state.results.length).head?.map fun frame => frame.take maxLen).getD []
  handed : state.dev.rdh ≠ state.dev.rdt → ¬Done state.dev state.dev.rdh

/-- The frames that wait lie between the driver's index and the head. -/
structure ReceiveHeld (state : ReceiveState) : Prop where
  order : state.results.map Prod.snd = List.zipWith (fun result frame => frame.take result.1) state.results state.accepted
  fewer : state.results.length ≤ state.accepted.length
  waiting : queue (frameAt state.dev) state.dev.rxCur state.dev.rdh = state.accepted.drop state.results.length
  done : ∀ slot, Done state.dev slot ↔ Between state.dev.rxCur state.dev.rdh slot
  tail : state.dev.rdt + 1 = state.dev.rxCur
  given : ∀ frame ∈ state.accepted, frame ≠ []

variable {state after : ReceiveState} {frame : List UInt8} {dev : E1000Device} {maxLen : Nat}

theorem deviceReceives_moves (room : dev.rdh ≠ dev.rdt) (fits : frame.length ≤ packetBufferSize) :
    ∃ after, deviceReceives dev frame = some after ∧ frameAt after = Function.update (frameAt dev) dev.rdh frame ∧
      (∀ slot, Done after slot ↔ Done dev slot ∨ slot = dev.rdh) ∧
      after.rdh = dev.rdh + 1 ∧ after.rdt = dev.rdt ∧ after.rxCur = dev.rxCur := by
  unfold deviceReceives
  rw [if_neg room]
  refine ⟨_, rfl, ?_, ?_, rfl, rfl, rfl⟩
  · funext slot
    unfold frameAt
    by_cases here : slot = dev.rdh
    · subst here
      simp only [Function.update_self]
      exact readBuffer_filled fits
    · simp only [Function.update_of_ne here]
  · intro slot
    unfold Done
    by_cases here : slot = dev.rdh
    · subst here
      simp only [Function.update_self]
      refine iff_of_true ?_ (.inr trivial)
      intro zero
      have bits := congrArg UInt8.toBitVec zero
      have low := congrArg (fun bits => bits.getLsbD 0) bits
      simp at low
    · simp only [Function.update_of_ne here, here, or_false]

theorem e1000ReceivePacket_moves (ready : Done dev dev.rxCur) (maxLen : Nat) :
    ∃ after, e1000ReceivePacket dev maxLen = ((frameAt dev dev.rxCur).take maxLen, after) ∧ frameAt after = frameAt dev ∧
      (∀ slot, Done after slot ↔ Done dev slot ∧ slot ≠ dev.rxCur) ∧
      after.rxCur = dev.rxCur + 1 ∧ after.rdt + 1 = after.rxCur ∧ after.rdh = dev.rdh := by
  have bytes : readBuffer (dev.rxBuffers dev.rxCur) (min (dev.rxDescs dev.rxCur).length maxLen) =
      (frameAt dev dev.rxCur).take maxLen := by
    rw [frameAt, readBuffer, readBuffer, List.take_take, Nat.min_comm]
  unfold e1000ReceivePacket
  dsimp only
  rw [if_neg ready, bytes]
  refine ⟨_, rfl, ?_, ?_, rfl, ?_, rfl⟩
  · funext slot
    unfold frameAt
    by_cases here : slot = dev.rxCur
    · subst here
      simp only [Function.update_self]
    · simp only [Function.update_of_ne here]
  · intro slot
    unfold Done
    by_cases here : slot = dev.rxCur
    · subst here
      simp
    · simp [here]
  · dsimp only
    rw [add_assoc]
    exact add_zero _

theorem e1000ReceivePacket_idle (idle : ¬Done dev dev.rxCur) (maxLen : Nat) : e1000ReceivePacket dev maxLen = ([], dev) :=
  if_pos (not_not.mp idle)

section Zips
variable {α β γ : Type} {f : α → β → γ} {first : List α} {second more : List β}

theorem zipWith_longer (fewer : first.length ≤ second.length) :
    List.zipWith f first (second ++ more) = List.zipWith f first second := by
  induction first generalizing second with
  | nil => rfl
  | cons item first ih =>
    cases second with
    | nil => cases fewer
    | cons other second =>
      rw [List.cons_append, List.zipWith_cons_cons, List.zipWith_cons_cons, ih (Nat.le_of_succ_le_succ fewer)]

theorem zipWith_snoc {item : α} {other : β} {rest : List β} (next : second.drop first.length = other :: rest) :
    List.zipWith f (first ++ [item]) second = List.zipWith f first second ++ [f item other] := by
  have inside := congrArg List.length next
  rw [List.length_drop, List.length_cons] at inside
  have whole := List.take_append_drop first.length second
  rw [next] at whole
  have length : first.length = (second.take first.length).length := by
    rw [List.length_take]
    omega
  rw [← whole, List.zipWith_append length, zipWith_longer (by omega)]
  simp

end Zips

theorem ReceiveHeld.ready_iff (held : ReceiveHeld state) :
    Done state.dev state.dev.rxCur ↔ state.dev.rxCur ≠ state.dev.rdh := by
  rw [held.done, Between, distance_self]
  constructor
  · intro some same
    rw [same, distance_self] at some
    omega
  · exact distance_pos

/-- The frame that the next call takes. -/
theorem ReceiveHeld.next (held : ReceiveHeld state) (some_ : state.dev.rxCur ≠ state.dev.rdh) :
    state.accepted.drop state.results.length =
      frameAt state.dev state.dev.rxCur :: queue (frameAt state.dev) (state.dev.rxCur + 1) state.dev.rdh := by
  rw [← held.waiting, queue_pop some_]

theorem ReceiveHeld.right (held : ReceiveHeld state) : ReceiveRight state where
  order := held.order
  fewer := held.fewer
  returns := by
    intro maxLen _
    by_cases empty : state.dev.rxCur = state.dev.rdh
    · have idle : ¬Done state.dev state.dev.rxCur := fun ready => held.ready_iff.mp ready empty
      rw [e1000ReceivePacket_idle idle, ← held.waiting, empty, queue_empty]
      rfl
    · obtain ⟨after, receives, -⟩ := e1000ReceivePacket_moves (held.ready_iff.mpr empty) maxLen
      rw [receives, held.next empty]
      rfl
  handed := by
    intro _ ready
    exact Nat.lt_irrefl _ ((held.done _).mp ready)

theorem ReceiveHeld.arrives (held : ReceiveHeld state) (moves : ReceiveMoves state (.arrives frame) after) :
    ReceiveHeld after := by
  obtain ⟨some, fits, moves⟩ := moves
  by_cases full : state.dev.rdh = state.dev.rdt
  · have stops : deviceReceives state.dev frame = none := if_pos full
    rw [stops] at moves
    rw [moves]
    exact held
  · obtain ⟨dev, receives, frames, done, head, tail, current⟩ := deviceReceives_moves full fits
    rw [receives] at moves
    subst moves
    have room : state.dev.rdh + 1 ≠ state.dev.rxCur := by
      rw [← held.tail]
      exact fun same => full (add_right_cancel same)
    refine ⟨?_, ?_, ?_, ?_, ?_, ?_⟩
    · dsimp only
      rw [zipWith_longer held.fewer]
      exact held.order
    · exact Nat.le_trans held.fewer (List.length_append ▸ Nat.le_add_right _ _)
    · dsimp only
      rw [frames, head, current, queue_push room, held.waiting, List.drop_append_of_le_length held.fewer]
    · intro slot
      dsimp only
      rw [done, head, current, between_push room, held.done]
    · dsimp only
      rw [tail, current]
      exact held.tail
    · intro other member
      rcases List.mem_append.mp member with old | new
      · exact held.given other old
      · cases List.mem_singleton.mp new
        exact List.ne_nil_of_length_pos some

theorem ReceiveHeld.receives (held : ReceiveHeld state) (moves : ReceiveMoves state (.receives maxLen) after) :
    ReceiveHeld after := by
  obtain ⟨positive, rfl⟩ := moves
  by_cases empty : state.dev.rxCur = state.dev.rdh
  · have idle : ¬Done state.dev state.dev.rxCur := fun ready => held.ready_iff.mp ready empty
    rw [e1000ReceivePacket_idle idle, if_pos rfl]
    exact held
  · have next := held.next empty
    obtain ⟨dev, receives, frames, done, current, tail, head⟩ :=
      e1000ReceivePacket_moves (held.ready_iff.mpr empty) maxLen
    have some : (frameAt state.dev state.dev.rxCur).take maxLen ≠ [] := by
      have member : frameAt state.dev state.dev.rxCur ∈ state.accepted :=
        List.mem_of_mem_drop (next ▸ List.mem_cons_self)
      rw [ne_eq, List.take_eq_nil_iff, not_or]
      exact ⟨by omega, held.given _ member⟩
    rw [receives, if_neg some]
    have count := congrArg List.length next
    rw [List.length_drop, List.length_cons] at count
    refine ⟨?_, ?_, ?_, ?_, tail, held.given⟩
    · dsimp only
      rw [List.map_append, held.order, zipWith_snoc next]
      rfl
    · dsimp only
      rw [List.length_append, List.length_singleton]
      omega
    · dsimp only
      rw [frames, current, head, List.length_append, List.length_singleton, ← List.drop_drop, next]
      rfl
    · intro slot
      dsimp only
      rw [done, current, head, between_pop empty, held.done]

theorem receiveStart_held (dev : E1000Device) : ReceiveHeld ⟨e1000Init dev, [], []⟩ where
  order := rfl
  fewer := Nat.le_refl _
  waiting := queue_empty _ _
  done := by
    intro slot
    refine iff_of_false (fun ready => ready (by decide : (0 : UInt8) &&& 0x1 = 0)) ?_
    intro between
    rw [Between] at between
    exact absurd between (by rw [e1000Init, distance_self]; omega)
  tail := (by decide : (Fin.last 31 : Fin descCount) + 1 = 0)
  given := fun _ member => absurd member List.not_mem_nil

/-- The calls return the frames that the device has accepted, each once and in order. -/
theorem receive_ring_right (reached : Reachable ReceiveStarts ReceiveMoves state) : ReceiveRight state := by
  refine (reached.invariant ReceiveHeld ?_ ?_).right
  · rintro _ ⟨dev, rfl⟩
    exact receiveStart_held dev
  · intro before event after held moves
    cases event with
    | arrives frame => exact held.arrives moves
    | receives maxLen => exact held.receives moves

theorem receive_ring_right_one : ∃ dev, ReceiveRight ⟨dev, [[7]], []⟩ := by
  have starts : ReceiveStarts ⟨e1000Init blankDevice, [], []⟩ := ⟨blankDevice, rfl⟩
  have room : (e1000Init blankDevice).rdh ≠ (e1000Init blankDevice).rdt := by decide
  have fits : [(7 : UInt8)].length ≤ packetBufferSize := by decide
  obtain ⟨dev, receives, -⟩ := deviceReceives_moves room fits
  have moves : ReceiveMoves ⟨e1000Init blankDevice, [], []⟩ (.arrives [7]) ⟨dev, [[7]], []⟩ := by
    refine ⟨by decide, fits, ?_⟩
    dsimp only
    rw [receives]
    rfl
  exact ⟨dev, receive_ring_right (.step (.initial starts) moves)⟩

end Kernix.Proofs
