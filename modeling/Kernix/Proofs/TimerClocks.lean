import Kernix.Interrupts.Timer
import Kernix.Proofs.TimerIds
import Kernix.Proofs.TimerPasses

/-! The timer counts ticks of the rate that it was initialised with, and turns them into
time as ticks of 300 Hz. One interrupt, with handlers that do not call the timer, calls the
events that are due. -/

namespace Kernix.Proofs

section Quiet

variable {δ : Type} {system after : TimerSystem} {events : List TimerEvent} {world final : δ}

/-- What an interrupt is for, with the tick count that it counts up to. -/
structure InterruptServed (handlers : Nat → Nat → δ → HandlerRun δ) (system : TimerSystem) (events : List TimerEvent)
    (world : δ)
    (notes : List TimerNote) (after : TimerSystem) (final : δ) : Prop where
  ticks : after.totalTicks = system.totalTicks + 1
  /-- The events that are due are called once each, in the order of the table. -/
  called : notes = (events.filter (Due (system.totalTicks + 1))).map .called
  ran : HandlersRun handlers (events.filter (Due (system.totalTicks + 1))) world final
  /-- Of those that are due the recurring ones get their next time and the others go away;
  all others stay as they are. -/
  table : TableIs after (events.filterMap (passedEvent (system.totalTicks + 1)))

/-- An interrupt also issues no id. -/
theorem interrupt_passes {handlers : Nat → Nat → δ → HandlerRun δ} (quiet : Quiet handlers)
    (table : TableIs system events)
    (started : 1 ≤ system.totalTicks) (below : system.totalTicks ≤ 2 ^ 64 - 2) (world : δ) {fuel : Nat}
    (enough : maxEventSubscribers < fuel) :
    ∃ notes after final, timerHandleInterrupt handlers fuel system world = .ok (notes, after, final) ∧
      InterruptServed handlers system events world notes after final ∧ after.issued = system.issued := by
  have bound := table.bound
  have counts : u64 (system.totalTicks + 1) = system.totalTicks + 1 := Nat.mod_eq_of_lt (by omega)
  have ticked : TableIs { system with totalTicks := u64 (system.totalTicks + 1) } ([] ++ events) :=
    ⟨table.count, table.holds⟩
  obtain ⟨notes, after, final, loops, kept, clock, told, runs⟩ :=
    interruptLoop_quiet quiet ticked world fuel (Nat.lt_of_le_of_lt bound enough)
  have start : ((([] : List TimerEvent).length : Nat) : Int) = 0 := rfl
  rw [start] at loops
  have ticks := clock.ticks
  dsimp only at kept told runs ticks
  rw [counts] at kept told runs ticks
  refine ⟨notes, after, final, ?_, ⟨ticks, told, runs, kept⟩, clock.issued⟩
  unfold timerHandleInterrupt
  rw [if_neg (by omega)]
  exact loops

/-- Every interrupt serves its table, the last tick that can be counted included. -/
theorem interrupt_served {handlers : Nat → Nat → δ → HandlerRun δ} (quiet : Quiet handlers)
    (table : TableIs system events)
    (started : 1 ≤ system.totalTicks) (below : system.totalTicks ≤ 2 ^ 64 - 2) (world : δ) {fuel : Nat}
    (enough : maxEventSubscribers < fuel) :
    ∃ notes after final, timerHandleInterrupt handlers fuel system world = .ok (notes, after, final) ∧
      InterruptServed handlers system events world notes after final := by
  obtain ⟨notes, after, final, handles, served, _⟩ := interrupt_passes quiet table started below world enough
  exact ⟨notes, after, final, handles, served⟩

/-- Three events next to each other, of which the first and the last are due. -/
def mixedEvents : List TimerEvent := [⟨1, 7, 0, 3, 5, 0, 0⟩, ⟨2, 8, 0, 3, 6, 1, 1⟩, ⟨3, 9, 0, 3, 2, 1, 2⟩]

def mixedTimer : TimerSystem where
  totalTicks := 4
  subscribers := fun slot => mixedEvents.getD slot.val ⟨0, 0, 0, 0, 0, 0, 0⟩
  subscriberCount := 3
  issued := [1, 2, 3]

theorem mixedTimer_table : TableIs mixedTimer mixedEvents :=
  ⟨rfl, by decide, fun position inside => by simp [mixedTimer, List.getD_eq_getElem?_getD, inside]⟩

theorem interrupt_served_mixed : ∃ notes after final,
    timerHandleInterrupt idleHandlers 17 mixedTimer () = .ok (notes, after, final) ∧
      InterruptServed idleHandlers mixedTimer mixedEvents () notes after final :=
  interrupt_served (fun _ _ world => ⟨world, rfl⟩) mixedTimer_table (by decide) (by decide) () (by decide)

end Quiet

variable {δ : Type} {handlers : Nat → Nat → δ → HandlerRun δ}

/-! Only the interrupt counts ticks, whatever the handlers do. -/

theorem subscribe_ticks {system after : TimerSystem} {callback data intervalMs : Nat} {recurring ret : Int}
    (subscribes : timerSubscribeEvent system callback data intervalMs recurring = .ok (ret, after)) :
    after.totalTicks = system.totalTicks := by
  unfold timerSubscribeEvent at subscribes
  by_cases refused : Refused system callback
  · rw [if_pos refused] at subscribes
    cases subscribes
    rfl
  · rw [if_neg refused] at subscribes
    obtain ⟨subscribers, sets, subscribes⟩ := bind_ok subscribes
    cases subscribes
    rfl

theorem remove_ticks {system after : TimerSystem} {i : Int} (removes : removeSubscriber system i = .ok after) :
    after.totalTicks = system.totalTicks := by
  obtain ⟨subscribers, shifts, removes⟩ := bind_ok removes
  cases removes
  rfl

theorem unsubscribe_ticks {system after : TimerSystem} {subscriptionId : Int}
    (unsubscribes : timerUnsubscribeEvent system subscriptionId = .ok after) : after.totalTicks = system.totalTicks := by
  obtain ⟨found, finds, unsubscribes⟩ := bind_ok unsubscribes
  cases found with
  | none =>
    cases unsubscribes
    rfl
  | some i => exact remove_ticks unsubscribes

theorem runHandler_ticks (run : HandlerRun δ) {system after : TimerSystem} {notes : List TimerNote} {final : δ}
    (runs : runHandler run system = .ok (notes, after, final)) : after.totalTicks = system.totalTicks := by
  induction run generalizing system notes after final with
  | done world =>
    cases runs
    rfl
  | subscribe callback data intervalMs recurring next ih =>
    obtain ⟨⟨ret, middle⟩, subscribes, runs⟩ := bind_ok runs
    obtain ⟨⟨rest, last, world⟩, goes, runs⟩ := bind_ok runs
    have kept := (ih ret goes).trans (subscribe_ticks subscribes)
    by_cases refused : Refused system callback
    · simp only [if_pos refused] at runs
      cases runs
      exact kept
    · simp only [if_neg refused] at runs
      cases runs
      exact kept
  | unsubscribe subscriptionId next ih =>
    obtain ⟨found, finds, runs⟩ := bind_ok runs
    obtain ⟨middle, unsubscribes, runs⟩ := bind_ok runs
    obtain ⟨⟨rest, last, world⟩, goes, runs⟩ := bind_ok runs
    have kept := (ih goes).trans (unsubscribe_ticks unsubscribes)
    cases found with
    | none =>
      cases runs
      exact kept
    | some i =>
      obtain ⟨event, reads, runs⟩ := bind_ok runs
      cases runs
      exact kept

theorem callHandler_ticks {event : TimerEvent} {system after : TimerSystem} {world final : δ} {notes : List TimerNote}
    (calls : callHandler handlers event system world = .ok (notes, after, final)) :
    after.totalTicks = system.totalTicks := by
  unfold callHandler at calls
  by_cases none : event.handler = 0
  · rw [if_pos none] at calls
    cases calls
    rfl
  · rw [if_neg none] at calls
    obtain ⟨⟨rest, last, world⟩, runs, calls⟩ := bind_ok calls
    cases calls
    exact runHandler_ticks _ runs

theorem settleSlot_ticks {system after : TimerSystem} {i next : Int} (settles : settleSlot system i = .ok (next, after)) :
    after.totalTicks = system.totalTicks := by
  obtain ⟨event, reads, settles⟩ := bind_ok settles
  by_cases recurs : event.recurring ≠ 0
  · rw [if_pos recurs] at settles
    obtain ⟨subscribers, sets, settles⟩ := bind_ok settles
    cases settles
    rfl
  · rw [if_neg recurs] at settles
    obtain ⟨middle, removes, settles⟩ := bind_ok settles
    cases settles
    exact remove_ticks removes

theorem interruptLoop_ticks (fuel : Nat) {i : Int} {system after : TimerSystem} {world final : δ} {notes : List TimerNote}
    (loops : interruptLoop handlers fuel i system world = .ok (notes, after, final)) :
    after.totalTicks = system.totalTicks := by
  induction fuel generalizing i system world notes with
  | zero => cases loops
  | succ fuel ih =>
    rw [interruptLoop] at loops
    by_cases more : i < system.subscriberCount
    · rw [if_pos more] at loops
      obtain ⟨event, reads, loops⟩ := bind_ok loops
      by_cases due : event.nextTrigger ≤ system.totalTicks
      · rw [if_pos due] at loops
        obtain ⟨⟨first, called, between⟩, calls, loops⟩ := bind_ok loops
        obtain ⟨⟨next, kept⟩, settles, loops⟩ := bind_ok loops
        obtain ⟨⟨rest, last, world⟩, goes, loops⟩ := bind_ok loops
        cases loops
        rw [ih goes, settleSlot_ticks settles, callHandler_ticks calls]
      · rw [if_neg due] at loops
        exact ih loops
    · rw [if_neg more] at loops
      cases loops
      rfl

/-- A pass that comes to its end does the same with more turns of the loop to spare. -/
theorem interruptLoop_more (fuel extra : Nat) {i : Int} {system : TimerSystem} {world : δ}
    {result : List TimerNote × TimerSystem × δ} (loops : interruptLoop handlers fuel i system world = .ok result) :
    interruptLoop handlers (fuel + extra) i system world = .ok result := by
  induction fuel generalizing i system world result with
  | zero => cases loops
  | succ fuel ih =>
    rw [Nat.succ_add, interruptLoop]
    rw [interruptLoop] at loops
    by_cases more : i < system.subscriberCount
    · rw [if_pos more] at loops ⊢
      obtain ⟨event, reads, loops⟩ := bind_ok loops
      rw [reads]
      simp only [bind, Except.bind]
      by_cases due : event.nextTrigger ≤ system.totalTicks
      · rw [if_pos due] at loops ⊢
        obtain ⟨⟨first, called, between⟩, calls, loops⟩ := bind_ok loops
        obtain ⟨⟨next, kept⟩, settles, loops⟩ := bind_ok loops
        obtain ⟨rest, goes, loops⟩ := bind_ok loops
        rw [calls]
        simp only
        rw [settles]
        simp only
        rw [ih goes]
        exact loops
      · rw [if_neg due] at loops ⊢
        exact ih loops
    · rw [if_neg more] at loops ⊢
      exact loops

/-- A run of the timer from its initialisation at a rate: how many interrupts there have
been, and how many of them since the boot time was recorded. -/
inductive ClockRun (handlers : Nat → Nat → δ → HandlerRun δ) (f : Nat) : TimerClock → δ → Nat → Nat → Prop where
  | start (clock : TimerClock) (world : δ) : ClockRun handlers f (timerClockInitialize clock f) world 0 0
  | call {clock : TimerClock} {world after : δ} {n since : Nat} {op : TimerOp} {system : TimerSystem}
      (run : ClockRun handlers f clock world n since) (between : op ≠ .interrupt)
      (steps : timerStep handlers (clock.system, world) op = .ok (system, after)) :
      ClockRun handlers f { clock with system } after n since
  | interrupt {clock : TimerClock} {world after : δ} {n since fuel : Nat} {notes : List TimerNote} {system : TimerSystem}
      (run : ClockRun handlers f clock world n since)
      (handles : timerHandleInterrupt handlers fuel clock.system world = .ok (notes, system, after)) :
      ClockRun handlers f { clock with system } after (n + 1) (since + 1)
  | stamp {clock : TimerClock} {world : δ} {n since : Nat} (run : ClockRun handlers f clock world n since) :
      ClockRun handlers f (timerRecordBootTimestamp clock) world n 0

/-- The elapsed time in units, of which a second has a number, is rounded down. The timer
starts with tick 1, so the tick that is running may count as a whole one. -/
def RoundsDown (f units n value : Nat) : Prop := n * units / f ≤ value ∧ value ≤ (n + 1) * units / f

/-- The value is less than a whole unit of its own away from the elapsed time, or just one. -/
def WithinUnit (f units n value : Nat) : Prop := n * units ≤ (value + 1) * f ∧ value * f ≤ n * units + f

/-- A call that does not take away an event. -/
def SparesEvent (event : TimerEvent) (system : TimerSystem) : TimerOp → Prop
  | .unsubscribe subscriptionId => ∀ slot,
    findSubscriber system.subscribers subscriptionId system.subscriberCount.toNat 0 = .ok (some slot) →
      elementAt system.subscribers slot ≠ .ok event
  | _ => True

/-- The time from a subscription on, in interrupts, with any calls between them. -/
inductive Wait (handlers : Nat → Nat → δ → HandlerRun δ) (event : TimerEvent) (system : TimerSystem) (world : δ) :
    Nat → TimerSystem → δ → Prop where
  | start : Wait handlers event system world 0 system world
  | call {k : Nat} {middle after : TimerSystem} {between final : δ} {op : TimerOp}
      (wait : Wait handlers event system world k middle between) (other : op ≠ .interrupt)
      (spares : SparesEvent event middle op) (steps : timerStep handlers (middle, between) op = .ok (after, final)) :
      Wait handlers event system world k after final
  | interrupt {k : Nat} {middle after : TimerSystem} {between final : δ}
      (wait : Wait handlers event system world k middle between)
      (steps : timerStep handlers (middle, between) .interrupt = .ok (after, final)) :
      Wait handlers event system world (k + 1) after final

/-- The interrupt that is the first to call an event with an interval, at a rate. -/
def firstInterrupt (f intervalMs : Nat) : Nat := max 1 (intervalMs * f / 1000)

/-- A subscription succeeds, and none of the interrupts before the right one calls its
event, but this one does. -/
def FirstFires (handlers : Nat → Nat → δ → HandlerRun δ) (f : Nat) (system : TimerSystem) (world : δ)
    (callback data intervalMs : Nat) (recurring : Int) : Prop :=
  let event := subscribedEvent system callback data intervalMs recurring
  ∃ id after, timerSubscribeEvent system callback data intervalMs recurring = .ok (id, after) ∧
    ∀ k middle between, Wait handlers event after world k middle between → k < firstInterrupt f intervalMs →
      ∃ notes next final,
        timerHandleInterrupt handlers (maxEventSubscribers + 1) middle between = .ok (notes, next, final) ∧
          (event.serial ∈ calledSerials notes ↔ k + 1 = firstInterrupt f intervalMs)

/-- The times are those of the rate, up to a tolerance, and so are the intervals. -/
structure ClockExact (near : Nat → Nat → Nat → Nat → Prop) (f : Nat) : Prop where
  elapsed : ∀ (δ : Type) (handlers : Nat → Nat → δ → HandlerRun δ) (clock : TimerClock) (world : δ) (n since : Nat),
    ClockRun handlers f clock world n since → n < 2 ^ 53 →
      near f 1 n (timerCalculateElapsedSeconds clock.system) ∧
      near f 1000 n (timerCalculateElapsedMilliseconds clock.system) ∧
      near f 1 since (timerGetSystemUptimeSeconds clock)
  /-- For handlers that do not call the timer, which is so for both handlers of the kernel. -/
  fires : ∀ (δ : Type) (handlers : Nat → Nat → δ → HandlerRun δ), Quiet handlers →
    ∀ (clock : TimerClock) (world : δ) (n since : Nat), ClockRun handlers f clock world n since →
      ∀ (callback data intervalMs : Nat) (recurring : Int), ¬Refused clock.system callback →
        n + intervalMs * f / 1000 < 2 ^ 53 → FirstFires handlers f clock.system world callback data intervalMs recurring

/-- The rates whose divisor the timer chip can be given as it is. -/
def RateFits (f : Nat) : Prop := 1 ≤ f ∧ f ≤ timerBaseFrequency ∧ timerBaseFrequency / f ≤ 65535

instance (f : Nat) : Decidable (RateFits f) := inferInstanceAs (Decidable (_ ∧ _))

theorem timerStep_ticks {state after : TimerSystem × δ} {op : TimerOp} (other : op ≠ .interrupt)
    (steps : timerStep handlers state op = .ok after) : after.1.totalTicks = state.1.totalTicks := by
  cases op with
  | interrupt => exact absurd rfl other
  | subscribe =>
    obtain ⟨⟨ret, middle⟩, subscribes, steps⟩ := bind_ok steps
    cases steps
    exact subscribe_ticks subscribes
  | unsubscribe =>
    obtain ⟨middle, unsubscribes, steps⟩ := bind_ok steps
    cases steps
    exact unsubscribe_ticks unsubscribes

theorem handleInterrupt_ticks {system after : TimerSystem} {world final : δ} {fuel : Nat} {notes : List TimerNote}
    (handles : timerHandleInterrupt handlers fuel system world = .ok (notes, after, final))
    (started : 1 ≤ system.totalTicks) (below : system.totalTicks + 1 < 2 ^ 64) :
    after.totalTicks = system.totalTicks + 1 := by
  unfold timerHandleInterrupt at handles
  rw [if_neg (by omega)] at handles
  rw [interruptLoop_ticks fuel handles]
  exact u64_eq below

/-- The tick counter of a run, and the time that counts as the boot. -/
structure ClockCounts (clock : TimerClock) (n since : Nat) : Prop where
  ticks : clock.system.totalTicks = n + 1
  boot : clock.bootTimeTicks + since = n ∨ clock.bootTimeTicks + since = n + 1

theorem ClockRun.counts {f : Nat} {clock : TimerClock} {world : δ} {n since : Nat}
    (run : ClockRun handlers f clock world n since) (small : n + 1 < 2 ^ 64) : ClockCounts clock n since := by
  induction run with
  | start clock world => exact ⟨rfl, .inl rfl⟩
  | call run between steps ih =>
    have counts := ih small
    exact ⟨(timerStep_ticks between steps).trans counts.ticks, counts.boot⟩
  | interrupt run handles ih =>
    have counts := ih (by omega)
    have ticks := counts.ticks
    have boot := counts.boot
    refine ⟨?_, ?_⟩
    · rw [← ticks]
      exact handleInterrupt_ticks handles (by omega) (by omega)
    · dsimp only
      omega
  | stamp run ih =>
    have counts := ih small
    exact ⟨counts.ticks, .inr counts.ticks⟩

/-- At 300 Hz the clock is exact. -/
theorem elapsed_exact {clock : TimerClock} {n since : Nat} (counts : ClockCounts clock n since) (small : n < 2 ^ 53) :
    RoundsDown 300 1 n (timerCalculateElapsedSeconds clock.system) ∧
      RoundsDown 300 1000 n (timerCalculateElapsedMilliseconds clock.system) ∧
      RoundsDown 300 1 since (timerGetSystemUptimeSeconds clock) := by
  have ticks := counts.ticks
  have boot := counts.boot
  have product : u64 ((n + 1) * 1000) = (n + 1) * 1000 := u64_eq (by omega)
  have difference : u64Sub (n + 1) clock.bootTimeTicks = n + 1 - clock.bootTimeTicks := u64Sub_eq (by omega) (by omega)
  unfold timerCalculateElapsedSeconds timerCalculateElapsedMilliseconds timerGetSystemUptimeSeconds RoundsDown
  rw [ticks, if_neg (by omega), if_neg (by omega), if_neg (by omega), product, difference]
  omega

/-- An accepted subscription appends its event, with a serial number of its own. -/
theorem subscribe_held {system : TimerSystem} {events : List TimerEvent} (table : TableIs system events)
    (serials : SerialsHeld system events) {callback : Nat} (accepted : ¬Refused system callback) (data intervalMs : Nat)
    (recurring : Int) :
    ∃ id after, timerSubscribeEvent system callback data intervalMs recurring = .ok (id, after) ∧
      TableIs after (events ++ [subscribedEvent system callback data intervalMs recurring]) ∧
      SerialsHeld after (events ++ [subscribedEvent system callback data intervalMs recurring]) ∧
      after.totalTicks = system.totalTicks := by
  obtain ⟨after, subscribes, appended, ticks, issued⟩ :=
    timerSubscribeEvent_appends table accepted data intervalMs recurring
  exact ⟨_, after, subscribes, appended, serials.append rfl issued, ticks⟩

/-- A call between the interrupts keeps the table in order, and the events that it spares. -/
theorem call_held {system : TimerSystem} {events : List TimerEvent} (table : TableIs system events)
    (serials : SerialsHeld system events) {world : δ} {op : TimerOp} (other : op ≠ .interrupt) {after : TimerSystem}
    {final : δ} (steps : timerStep handlers (system, world) op = .ok (after, final)) :
    ∃ kept, TableIs after kept ∧ SerialsHeld after kept ∧
      ∀ event ∈ events, SparesEvent event system op → event ∈ kept := by
  cases op with
  | interrupt => exact absurd rfl other
  | subscribe callback data intervalMs recurring =>
    obtain ⟨⟨ret, middle⟩, subscribes, steps⟩ := bind_ok steps
    cases steps
    by_cases refused : Refused system callback
    · rw [timerSubscribeEvent_refused refused] at subscribes
      cases subscribes
      exact ⟨events, table, serials, fun event member _ => member⟩
    · obtain ⟨id, same, again, appended, numbered, _⟩ := subscribe_held table serials refused data intervalMs recurring
      cases again.symm.trans subscribes
      exact ⟨_, appended, numbered, fun event member _ => List.mem_append_left _ member⟩
  | unsubscribe subscriptionId =>
    obtain ⟨middle, unsubscribes, steps⟩ := bind_ok steps
    cases steps
    obtain ⟨changed, again, kept, clock⟩ := timerUnsubscribeEvent_removes table subscriptionId
    cases again.symm.trans unsubscribes
    refine ⟨_, kept, serials.sublist (identities_serials (withoutId_identities events subscriptionId)) clock.issued, ?_⟩
    intro event member spares
    unfold withoutId
    split
    · exact member
    next slot found =>
      obtain ⟨inside, _⟩ := slotOf_inside found
      have another : events[slot] ≠ event := by
        intro same
        refine spares slot ?_ ?_
        · rw [findSubscriber_eq table, found]
          rfl
        · rw [table.element inside, same]
      obtain ⟨position, low, here⟩ := List.mem_iff_getElem.mp member
      refine List.mem_eraseIdx_iff_getElem.mpr ⟨position, low, ?_, here⟩
      rintro rfl
      exact another here

/-- A table of handlers that do not call the timer stays in order, and a run can go on. -/
theorem interrupt_held {system : TimerSystem} {events : List TimerEvent} (quiet : Quiet handlers)
    (table : TableIs system events) (serials : SerialsHeld system events) (started : 1 ≤ system.totalTicks)
    (below : system.totalTicks ≤ 2 ^ 64 - 2) (world : δ) :
    ∃ notes after final, timerHandleInterrupt handlers (maxEventSubscribers + 1) system world =
      .ok (notes, after, final) ∧
      InterruptServed handlers system events world notes after final ∧
      SerialsHeld after (events.filterMap (passedEvent (system.totalTicks + 1))) := by
  obtain ⟨notes, after, final, handles, served, issued⟩ :=
    interrupt_passes quiet table started below world (Nat.lt_succ_self _)
  exact ⟨notes, after, final, handles, served,
    serials.sublist (identities_serials (passedEvent_identities events _)) issued⟩

/-- However many turns of the loop an interrupt is given, it does the same. -/
theorem handleInterrupt_same {system : TimerSystem} {world : δ} {fuel enough : Nat}
    {result other : List TimerNote × TimerSystem × δ}
    (handles : timerHandleInterrupt handlers fuel system world = .ok result)
    (again : timerHandleInterrupt handlers enough system world = .ok other) : result = other := by
  unfold timerHandleInterrupt at handles again
  by_cases stopped : system.totalTicks = 0
  · rw [if_pos stopped] at handles again
    exact Except.ok.inj (handles.symm.trans again)
  · rw [if_neg stopped] at handles again
    have first := interruptLoop_more fuel enough handles
    have second := interruptLoop_more enough fuel again
    rw [Nat.add_comm] at second
    exact Except.ok.inj (first.symm.trans second)

theorem ClockRun.table {f : Nat} {clock : TimerClock} {world : δ} {n since : Nat} (quiet : Quiet handlers)
    (run : ClockRun handlers f clock world n since) (small : n + 1 < 2 ^ 64) :
    ∃ events, TableIs clock.system events ∧ SerialsHeld clock.system events := by
  induction run with
  | start clock world =>
    refine ⟨[], ⟨rfl, SlotList.holds_nil _⟩, List.nodup_nil, ?_⟩
    intro event member
    cases member
  | call run between steps ih =>
    obtain ⟨events, table, serials⟩ := ih small
    obtain ⟨kept, after, numbered, _⟩ := call_held table serials between steps
    exact ⟨kept, after, numbered⟩
  | @interrupt clock world after n since fuel notes system run handles ih =>
    obtain ⟨events, table, serials⟩ := ih (by omega)
    have ticks := (run.counts (by omega)).ticks
    obtain ⟨others, next, final, again, served, numbered⟩ :=
      interrupt_held quiet table serials (by omega) (by omega) world
    cases handleInterrupt_same handles again
    exact ⟨_, served.table, numbered⟩
  | stamp run ih => exact ih small

/-- What holds of the table and of an event while it waits for its first call. -/
structure Waiting (event : TimerEvent) (ticks : Nat) (system : TimerSystem) (events : List TimerEvent) : Prop where
  table : TableIs system events
  serials : SerialsHeld system events
  present : event ∈ events
  ticks : system.totalTicks = ticks

theorem Waiting.call {event : TimerEvent} {ticks : Nat} {system after : TimerSystem} {events : List TimerEvent}
    (waiting : Waiting event ticks system events) {world final : δ} {op : TimerOp} (other : op ≠ .interrupt)
    (spares : SparesEvent event system op) (steps : timerStep handlers (system, world) op = .ok (after, final)) :
    ∃ kept, Waiting event ticks after kept := by
  obtain ⟨kept, table, serials, stays⟩ := call_held waiting.table waiting.serials other steps
  exact ⟨kept, table, serials, stays event waiting.present spares, (timerStep_ticks other steps).trans waiting.ticks⟩

/-- The next interrupt calls a waiting event if it is due, and else leaves it as it is. -/
theorem Waiting.interrupt {event : TimerEvent} {ticks : Nat} {system : TimerSystem} {events : List TimerEvent}
    (quiet : Quiet handlers) (waiting : Waiting event ticks system events) (given : event.handler ≠ 0)
    (started : 1 ≤ ticks) (below : ticks ≤ 2 ^ 64 - 2) (world : δ) :
    ∃ notes after final, timerHandleInterrupt handlers (maxEventSubscribers + 1) system world =
      .ok (notes, after, final) ∧
      (event.serial ∈ calledSerials notes ↔ event.nextTrigger ≤ ticks + 1) ∧
      (ticks + 1 < event.nextTrigger → ∃ kept, Waiting event (ticks + 1) after kept) := by
  have now := waiting.ticks
  obtain ⟨notes, after, final, handles, served, numbered⟩ :=
    interrupt_held quiet waiting.table waiting.serials (by omega) (by omega) world
  have called := served.called
  have table := served.table
  have counted := served.ticks
  rw [now] at called table numbered counted
  refine ⟨notes, after, final, handles, ?_, ?_⟩
  · have heard : calledSerials notes = (events.filter (Due (ticks + 1))).map fun event => event.serial := by
      rw [called, calledSerials, List.filterMap_map, ← List.filterMap_eq_map]
      rfl
    rw [heard, List.mem_map]
    constructor
    · rintro ⟨other, member, same⟩
      obtain ⟨inside, due⟩ := List.mem_filter.mp member
      rw [← waiting.serials.same inside waiting.present same]
      exact (of_decide_eq_true due).1
    · intro due
      exact ⟨event, List.mem_filter.mpr ⟨waiting.present, decide_eq_true ⟨due, given⟩⟩, rfl⟩
  · intro early
    have stays : passedEvent (ticks + 1) event = some event := if_neg (by omega)
    exact ⟨_, table, numbered, List.mem_filterMap.mpr ⟨event, waiting.present, stays⟩, counted⟩

/-- The waiting lasts until the interrupt before the one that is due. -/
theorem Wait.waiting {event : TimerEvent} {system after : TimerSystem} {world final : δ} {events : List TimerEvent}
    {k ticks : Nat}
    (quiet : Quiet handlers) (starts : Waiting event ticks system events) (given : event.handler ≠ 0)
    (started : 1 ≤ ticks)
    (below : ticks + k ≤ 2 ^ 64 - 2) (wait : Wait handlers event system world k after final)
    (early : k = 0 ∨ ticks + k < event.nextTrigger) : ∃ kept, Waiting event (ticks + k) after kept := by
  induction wait with
  | start => exact ⟨events, starts⟩
  | call wait other spares steps ih =>
    obtain ⟨kept, waiting⟩ := ih below early
    exact waiting.call other spares steps
  | @interrupt k middle after between final wait steps ih =>
    have later := early.resolve_left (Nat.succ_ne_zero k)
    obtain ⟨kept, waiting⟩ := ih (by omega) (.inr (by omega))
    obtain ⟨notes, next, last, handles, _, goes⟩ := waiting.interrupt quiet given (by omega) (by omega) between
    obtain ⟨⟨heard, changed, world⟩, again, steps⟩ := bind_ok steps
    cases steps
    cases handles.symm.trans again
    exact goes later

/-- At 300 Hz an event is first called when its interval is over. -/
theorem first_fires {system : TimerSystem} {events : List TimerEvent} (quiet : Quiet handlers)
    (table : TableIs system events) (serials : SerialsHeld system events) (world : δ) {callback : Nat}
    (accepted : ¬Refused system callback) (data intervalMs : Nat) (recurring : Int) (started : 1 ≤ system.totalTicks)
    (small : system.totalTicks + intervalMs * 300 / 1000 ≤ 2 ^ 53) :
    FirstFires handlers 300 system world callback data intervalMs recurring := by
  obtain ⟨id, after, subscribes, appended, numbered, ticks⟩ :=
    subscribe_held table serials accepted data intervalMs recurring
  have interval : u64 (intervalMs * 300) / 1000 = intervalMs * 300 / 1000 := by
    rw [u64_eq (by omega)]
  have trigger : (subscribedEvent system callback data intervalMs recurring).nextTrigger =
      system.totalTicks + intervalMs * 300 / 1000 := by
    unfold subscribedEvent
    dsimp only
    rw [interval]
    exact u64_eq (by omega)
  have given : (subscribedEvent system callback data intervalMs recurring).handler ≠ 0 := (not_or.mp accepted).1
  have starts : Waiting (subscribedEvent system callback data intervalMs recurring) system.totalTicks after _ :=
    ⟨appended, numbered, List.mem_append_right _ (List.mem_singleton_self _), ticks⟩
  refine ⟨id, after, subscribes, fun k middle between wait early => ?_⟩
  unfold firstInterrupt at early ⊢
  obtain ⟨kept, waiting⟩ := wait.waiting quiet starts given started (by omega) (by omega)
  obtain ⟨notes, next, final, handles, heard, _⟩ := waiting.interrupt quiet given (by omega) (by omega) between
  refine ⟨notes, next, final, handles, heard.trans ?_⟩
  omega

theorem clock_exact_standard : ClockExact RoundsDown 300 where
  elapsed _ _ _ _ _ _ run small := elapsed_exact (run.counts (by omega)) small
  fires _ _ quiet _ world _ _ run callback data intervalMs recurring accepted small := by
    have ticks := (run.counts (by omega)).ticks
    obtain ⟨events, table, serials⟩ := run.table quiet (by omega)
    exact first_fires quiet table serials world accepted data intervalMs recurring (by omega) (by omega)

/-- `global_timer_system` with a boot time before the initialisation. -/
def freshClock : TimerClock := ⟨freshTimer, 0, 0⟩

private theorem idle_quiet : Quiet idleHandlers := fun _ _ world => ⟨world, rfl⟩

/-- Any number of interrupts without subscriptions. -/
theorem idle_run (f : Nat) {n : Nat} (small : n < 2 ^ 53) : ∃ clock, ClockRun idleHandlers f clock () n n := by
  induction n with
  | zero => exact ⟨_, .start freshClock ()⟩
  | succ n ih =>
    obtain ⟨clock, run⟩ := ih (by omega)
    have ticks := (run.counts (by omega)).ticks
    obtain ⟨events, table, serials⟩ := run.table idle_quiet (by omega)
    obtain ⟨notes, after, final, handles, _⟩ := interrupt_held idle_quiet table serials (by omega) (by omega) ()
    exact ⟨_, run.interrupt handles⟩

/-- 300 seconds show what rate the clock goes at. -/
theorem rate_of_exact {f : Nat} (fits : RateFits f) (exact : ClockExact RoundsDown f) : f = 300 := by
  obtain ⟨positive, known, divides⟩ := fits
  have base : timerBaseFrequency = 1193182 := rfl
  obtain ⟨clock, run⟩ := idle_run f (show 300 * f < 2 ^ 53 by omega)
  have ticks := (run.counts (by omega)).ticks
  obtain ⟨least, most⟩ := (exact.elapsed Unit idleHandlers clock () _ _ run (by omega)).1
  have seconds : timerCalculateElapsedSeconds clock.system = (300 * f + 1) / 300 := by
    unfold timerCalculateElapsedSeconds
    rw [ticks, if_neg (by omega)]
  rw [seconds, Nat.mul_one] at least most
  have several : 2 ≤ f := by
    by_contra single
    obtain rfl : f = 1 := by omega
    revert divides
    decide
  have elapsed : 300 * f / f = 300 := Nat.mul_div_cancel _ (by omega)
  have running : (300 * f + 1) / f = 300 := by
    rw [Nat.mul_comm, Nat.mul_add_div (by omega), Nat.div_eq_of_lt (by omega)]
  omega

/-- The first tick counts as 3 milliseconds before any time has gone by. -/
theorem milliseconds_ahead {f : Nat} (positive : 1 ≤ f) : ¬ClockExact WithinUnit f := by
  intro exact
  have early := (exact.elapsed Unit idleHandlers _ () 0 0 (.start freshClock ()) (by omega)).2.1.2
  have ticks : (timerClockInitialize freshClock f).system.totalTicks = 1 := rfl
  have value : timerCalculateElapsedMilliseconds (timerClockInitialize freshClock f).system = 3 := by
    unfold timerCalculateElapsedMilliseconds
    rw [ticks]
    decide
  rw [value] at early
  omega

/-- The clock is exact, to the tick that is running, at the one rate of 300 Hz; at no rate
are the milliseconds exact to a millisecond. -/
theorem clock_exact_iff (f : Nat) (fits : RateFits f) :
    (ClockExact RoundsDown f ↔ f = 300) ∧ ¬ClockExact WithinUnit f := by
  refine ⟨⟨rate_of_exact fits, ?_⟩, milliseconds_ahead fits.1⟩
  rintro rfl
  exact clock_exact_standard

theorem clock_exact_iff_300 : (ClockExact RoundsDown 300 ↔ 300 = 300) ∧ ¬ClockExact WithinUnit 300 :=
  clock_exact_iff 300 (by decide)

/-- At the rate that the kernel chooses, 3 seconds are shown as 10. -/
theorem clock_fast : RateFits 1000 ∧
    (∃ clock, ClockRun idleHandlers 1000 clock () 3000 3000 ∧ timerCalculateElapsedSeconds clock.system = 10) ∧
    ¬ClockExact RoundsDown 1000 := by
  refine ⟨by decide, ?_, fun exact => absurd (rate_of_exact (by decide) exact) (by decide)⟩
  obtain ⟨clock, run⟩ := idle_run 1000 (show 3000 < 2 ^ 53 by decide)
  have ticks := (run.counts (by decide)).ticks
  refine ⟨clock, run, ?_⟩
  unfold timerCalculateElapsedSeconds
  rw [ticks]
  decide

end Kernix.Proofs
