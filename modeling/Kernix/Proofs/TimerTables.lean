import Kernix.Interrupts.Timer
import Kernix.Lib.SlotList

/-! The table of the timer is the list of its events: a subscription appends, the end
of one takes its event out, and the others keep their order. -/

namespace Kernix.Proofs
open SlotList

/-- The active subscriptions, in the order of their slots. -/
structure TableIs (system : TimerSystem) (events : List TimerEvent) : Prop where
  count : system.subscriberCount = events.length
  holds : SlotList.Holds system.subscribers events

variable {system : TimerSystem} {events : List TimerEvent}

theorem TableIs.bound (table : TableIs system events) : events.length ≤ maxEventSubscribers := table.holds.fits

/-- A system has one list of active subscriptions. -/
theorem TableIs.unique {others : List TimerEvent} (table : TableIs system events) (other : TableIs system others) :
    events = others := by
  have first := table.count
  have second := other.count
  exact table.holds.unique other.holds (by omega)

theorem TableIs.element (table : TableIs system events) {position : Nat} (inside : position < events.length) :
    elementAt system.subscribers position = .ok events[position] := by
  have bound := table.bound
  rw [elementAt_eq _ (by omega), table.holds.slot position inside]

theorem shiftSubscribers_eq (subscribers : Fin maxEventSubscribers → TimerEvent) {left position : Nat}
    (inside : position + left < maxEventSubscribers) :
    shiftSubscribers subscribers left position = .ok (shifted subscribers position left) := by
  induction left generalizing subscribers position with
  | zero => rw [shiftSubscribers, shifted_none]
  | succ left ih =>
    have next : (position : Int) + 1 = ((position + 1 : Nat) : Int) := by omega
    rw [shiftSubscribers, next, elementAt_eq _ (by omega)]
    simp only [bind, Except.bind]
    rw [setElement_eq _ (by omega)]
    simp only
    rw [ih _ (by omega), shifted_step _ (by omega)]

/-- What stays the same in a table that lost or changed an event. -/
structure SameClock (before after : TimerSystem) : Prop where
  ticks : after.totalTicks = before.totalTicks
  issued : after.issued = before.issued

theorem removeSubscriber_erases (table : TableIs system events) {position : Nat} (inside : position < events.length) :
    ∃ after, removeSubscriber system position = .ok after ∧ TableIs after (events.eraseIdx position) ∧
      SameClock system after := by
  have count := table.count
  have bound := table.bound
  have left : (system.subscriberCount - 1 - position).toNat = events.length - 1 - position := by omega
  unfold removeSubscriber
  rw [left, shiftSubscribers_eq _ (by omega)]
  refine ⟨_, rfl, ⟨?_, table.holds.erase inside⟩, rfl, rfl⟩
  rw [List.length_eraseIdx_of_lt inside]
  dsimp only
  omega

/-- The slot of the first event with an id. -/
def slotOf (events : List TimerEvent) (subscriptionId : Int) : Option Nat :=
  events.findIdx? fun event => i32 event.id = subscriptionId

private theorem findSubscriber_from (table : TableIs system events) (subscriptionId : Int) {left position : Nat}
    (whole : position + left = events.length) :
    findSubscriber system.subscribers subscriptionId left position =
      .ok ((slotOf (events.drop position) subscriptionId).map fun slot => Int.ofNat (position + slot)) := by
  induction left generalizing position with
  | zero =>
    rw [findSubscriber, List.drop_of_length_le (by omega)]
    rfl
  | succ left ih =>
    have next : (position : Int) + 1 = ((position + 1 : Nat) : Int) := by omega
    rw [findSubscriber, table.element (by omega)]
    simp only [bind, Except.bind]
    have here : events.drop position = events[position] :: events.drop (position + 1) :=
      List.drop_eq_getElem_cons (by omega)
    rw [next, ih (by omega), here]
    simp only [slotOf, List.findIdx?_cons, decide_eq_true_eq]
    split
    · rfl
    · rw [Option.map_map]
      congr 2
      funext slot
      simp only [Function.comp_apply]
      congr 1
      omega

theorem findSubscriber_eq (table : TableIs system events) (subscriptionId : Int) :
    findSubscriber system.subscribers subscriptionId system.subscriberCount.toNat 0 =
      .ok ((slotOf events subscriptionId).map Int.ofNat) := by
  have count := table.count
  have length : system.subscriberCount.toNat = events.length := by omega
  rw [length]
  have found := findSubscriber_from table subscriptionId (Nat.zero_add events.length)
  simp only [Nat.zero_add, List.drop_zero] at found
  exact found

theorem slotOf_inside {subscriptionId : Int} {slot : Nat} (found : slotOf events subscriptionId = some slot) :
    ∃ inside : slot < events.length, i32 events[slot].id = subscriptionId := by
  obtain ⟨inside, same, _⟩ := List.findIdx?_eq_some_iff_getElem.mp found
  exact ⟨inside, by simpa using same⟩

/-- The list without the first event that has the id. -/
def withoutId (events : List TimerEvent) (subscriptionId : Int) : List TimerEvent :=
  match slotOf events subscriptionId with
  | none => events
  | some slot => events.eraseIdx slot

theorem withoutId_cons (event : TimerEvent) (events : List TimerEvent) (subscriptionId : Int) :
    withoutId (event :: events) subscriptionId =
      if i32 event.id = subscriptionId then events else event :: withoutId events subscriptionId := by
  simp only [withoutId, slotOf, List.findIdx?_cons, decide_eq_true_eq]
  by_cases same : i32 event.id = subscriptionId
  · simp [same]
  · cases List.findIdx? (fun event => decide (i32 event.id = subscriptionId)) events <;> simp [same]

theorem timerUnsubscribeEvent_removes (table : TableIs system events) (subscriptionId : Int) :
    ∃ after, timerUnsubscribeEvent system subscriptionId = .ok after ∧ TableIs after (withoutId events subscriptionId) ∧
      SameClock system after := by
  unfold timerUnsubscribeEvent withoutId
  rw [findSubscriber_eq table]
  simp only [bind, Except.bind]
  cases found : slotOf events subscriptionId with
  | none => exact ⟨system, rfl, table, rfl, rfl⟩
  | some slot =>
    obtain ⟨inside, _⟩ := slotOf_inside found
    exact removeSubscriber_erases table inside

theorem timerSubscribeEvent_refused {callback : Nat} (refused : Refused system callback) (data intervalMs : Nat)
    (recurring : Int) : timerSubscribeEvent system callback data intervalMs recurring = .ok (-1, system) := by
  rw [timerSubscribeEvent, if_pos refused]
  rfl

theorem timerSubscribeEvent_appends (table : TableIs system events) {callback : Nat}
    (accepted : ¬Refused system callback) (data intervalMs : Nat) (recurring : Int) :
    ∃ after, timerSubscribeEvent system callback data intervalMs recurring =
        .ok (i32 (subscribedEvent system callback data intervalMs recurring).id, after) ∧
      TableIs after (events ++ [subscribedEvent system callback data intervalMs recurring]) ∧
      after.totalTicks = system.totalTicks ∧
      after.issued = system.issued ++ [i32 (subscribedEvent system callback data intervalMs recurring).id] := by
  have count := table.count
  have room : events.length < maxEventSubscribers := by
    simp only [Refused, not_or, not_le] at accepted
    omega
  unfold timerSubscribeEvent
  rw [if_neg accepted]
  dsimp only
  rw [count, setElement_eq _ room]
  refine ⟨_, rfl, ⟨?_, table.holds.push room _⟩, rfl, rfl⟩
  simp

/-- What settling makes of an event that has had its call. -/
def settled (ticks : Nat) (event : TimerEvent) : Option TimerEvent :=
  if event.recurring ≠ 0 then some { event with nextTrigger := u64 (ticks + event.intervalTicks) } else none

theorem settled_same {ticks : Nat} {event after : TimerEvent} (settles : settled ticks event = some after) :
    after = { event with nextTrigger := u64 (ticks + event.intervalTicks) } ∧ event.recurring ≠ 0 := by
  unfold settled at settles
  split at settles
  next recurs => exact ⟨(Option.some.inj settles).symm, recurs⟩
  next => cases settles

/-- Settling keeps the events around the slot, and the loop goes on behind it. -/
theorem settleSlot_settles {front back : List TimerEvent} {event : TimerEvent}
    (table : TableIs system (front ++ event :: back)) :
    ∃ after, settleSlot system front.length =
        .ok (((front ++ (settled system.totalTicks event).toList).length : Nat), after) ∧
      TableIs after (front ++ (settled system.totalTicks event).toList ++ back) ∧ SameClock system after := by
  have bound := table.bound
  have inside : front.length < (front ++ event :: back).length := by simp
  have here : (front ++ event :: back)[front.length] = event := by simp
  unfold settleSlot settled
  rw [table.element inside, here]
  simp only [bind, Except.bind]
  split
  · rw [setElement_eq _ (Nat.lt_of_lt_of_le inside bound)]
    have changed := table.holds.set inside { event with nextTrigger := u64 (system.totalTicks + event.intervalTicks) }
    generalize Function.update system.subscribers _ _ = subscribers at changed ⊢
    refine ⟨{ system with subscribers }, ?_, ⟨?_, ?_⟩, rfl, rfl⟩
    · simp [pure, Except.pure]
    · have count := table.count
      simpa using count
    · simpa using changed
  · obtain ⟨after, removes, erased, clock⟩ := removeSubscriber_erases table inside
    rw [removes]
    refine ⟨after, ?_, ?_, clock⟩
    · simp [pure, Except.pure]
    · rw [List.eraseIdx_append_of_length_le (Nat.le_refl _), Nat.sub_self, List.eraseIdx_cons_zero] at erased
      simpa using erased

end Kernix.Proofs
