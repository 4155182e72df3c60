import Kernix.Proofs.TimerTables
import Mathlib.Data.List.Nodup

/-! One pass of the interrupt over the subscriptions, with handlers that call the timer
themselves. The loop goes on with the slot that it has called the handler of; while no
handler takes away the event in this slot or one before it, the pass is as it should be. -/

namespace Kernix.Proofs

variable {δ : Type} {system : TimerSystem} {events : List TimerEvent}

/-- The subscriptions whose handler was called, in the order of the calls. -/
def calledSerials (notes : List TimerNote) : List Nat :=
  notes.filterMap fun
    | .called event => some event.serial
    | _ => none

/-- The subscriptions that were unsubscribed. -/
def endedSerials (notes : List TimerNote) : List Nat :=
  notes.filterMap fun
    | .unsubscribed event => some event.serial
    | _ => none

@[simp] theorem calledSerials_append (first second : List TimerNote) :
    calledSerials (first ++ second) = calledSerials first ++ calledSerials second :=
  List.filterMap_append

@[simp] theorem endedSerials_append (first second : List TimerNote) :
    endedSerials (first ++ second) = endedSerials first ++ endedSerials second :=
  List.filterMap_append

@[simp] theorem calledSerials_called (event : TimerEvent) (notes : List TimerNote) :
    calledSerials (.called event :: notes) = event.serial :: calledSerials notes := rfl

@[simp] theorem calledSerials_subscribed (event : TimerEvent) (notes : List TimerNote) :
    calledSerials (.subscribed event :: notes) = calledSerials notes := rfl

@[simp] theorem calledSerials_unsubscribed (event : TimerEvent) (notes : List TimerNote) :
    calledSerials (.unsubscribed event :: notes) = calledSerials notes := rfl

@[simp] theorem endedSerials_called (event : TimerEvent) (notes : List TimerNote) :
    endedSerials (.called event :: notes) = endedSerials notes := rfl

@[simp] theorem endedSerials_subscribed (event : TimerEvent) (notes : List TimerNote) :
    endedSerials (.subscribed event :: notes) = endedSerials notes := rfl

@[simp] theorem endedSerials_unsubscribed (event : TimerEvent) (notes : List TimerNote) :
    endedSerials (.unsubscribed event :: notes) = event.serial :: endedSerials notes := rfl

/-- The events of a pass: those of the table, and those that handlers subscribe. -/
def Takes (events : List TimerEvent) (notes : List TimerNote) (event : TimerEvent) : Prop :=
  event ∈ events ∨ .subscribed event ∈ notes

/-- The same subscription, whenever it triggers next. -/
def SameSubscription (event kept : TimerEvent) : Prop :=
  kept = { event with nextTrigger := kept.nextTrigger }

/-- What a pass at a tick is to do with the events it takes. -/
structure PassRight (ticks : Nat) (events : List TimerEvent) (notes : List TimerNote) (rest : List TimerEvent) :
    Prop where
  called : ∀ event, Takes events notes event → event.nextTrigger ≤ ticks → event.handler ≠ 0 →
    (calledSerials notes).count event.serial = 1 ∨
      event.serial ∈ endedSerials notes ∧ event.serial ∉ calledSerials notes
  only : ∀ serial ∈ calledSerials notes, ∃ event, Takes events notes event ∧ event.serial = serial ∧
    event.nextTrigger ≤ ticks
  kept : ∀ event, Takes events notes event → event.serial ∉ endedSerials notes →
    ¬(event.nextTrigger ≤ ticks ∧ event.recurring = 0) → ∃ kept ∈ rest, SameSubscription event kept

/-- The serial numbers of the active subscriptions are different ones that were given out. -/
structure SerialsHeld (system : TimerSystem) (events : List TimerEvent) : Prop where
  distinct : (events.map fun event => event.serial).Nodup
  given : ∀ event ∈ events, event.serial < system.issued.length

/-- No call of the handler takes away the event in the slot or one before it. -/
def Spares (slot : Nat) : HandlerRun δ → TimerSystem → Prop
  | .done _, _ => True
  | .subscribe callback data intervalMs recurring next, system =>
    ∀ ret after, timerSubscribeEvent system callback data intervalMs recurring = .ok (ret, after) →
      Spares slot (next ret) after
  | .unsubscribe subscriptionId next, system =>
    (∀ found : Nat, findSubscriber system.subscribers subscriptionId system.subscriberCount.toNat 0 =
      .ok (some (found : Int)) →
      slot < found) ∧
    ∀ after, timerUnsubscribeEvent system subscriptionId = .ok after → Spares slot next after

/-- From a slot on the loop comes to an end, and every handler that it calls spares the
slot of its event and those before it. -/
inductive Orderly (handlers : Nat → Nat → δ → HandlerRun δ) : Nat → TimerSystem → δ → Prop where
  | ends {slot : Nat} {system : TimerSystem} {world : δ} (behind : system.subscriberCount ≤ slot) :
      Orderly handlers slot system world
  | early {slot : Nat} {system : TimerSystem} {world : δ} {event : TimerEvent}
      (found : elementAt system.subscribers slot = .ok event) (later : system.totalTicks < event.nextTrigger)
      (rest : Orderly handlers (slot + 1) system world) : Orderly handlers slot system world
  | due {slot : Nat} {system : TimerSystem} {world : δ} {event : TimerEvent}
      (found : elementAt system.subscribers slot = .ok event) (due : event.nextTrigger ≤ system.totalTicks)
      (spares : event.handler ≠ 0 → Spares slot (handlers event.handler event.userData world) system)
      (rest : ∀ notes middle next after final, callHandler handlers event system world = .ok (notes, middle, final) →
        settleSlot middle slot = .ok ((next : Nat), after) → Orderly handlers next after final) :
      Orderly handlers slot system world

/-- What a handler that spares the front leaves of the rest. -/
structure Called (system after : TimerSystem) (front back rest : List TimerEvent) (notes : List TimerNote) : Prop where
  table : TableIs after (front ++ rest)
  serials : SerialsHeld after (front ++ rest)
  ticks : after.totalTicks = system.totalTicks
  issued : system.issued.length ≤ after.issued.length
  silent : calledSerials notes = []
  stays : ∀ event, Takes back notes event → event ∈ rest ∨ event.serial ∈ endedSerials notes
  origin : ∀ event ∈ rest, Takes back notes event
  gone : ∀ serial ∈ endedSerials notes, serial ∉ (front ++ rest).map fun event => event.serial
  ended : ∀ serial ∈ endedSerials notes,
    serial < after.issued.length ∧ (serial ∈ back.map (fun event => event.serial) ∨ system.issued.length ≤ serial)
  fresh : ∀ event, .subscribed event ∈ notes → system.issued.length ≤ event.serial

theorem SerialsHeld.append {after : TimerSystem} (serials : SerialsHeld system events) {event : TimerEvent} {id : Int}
    (serial : event.serial = system.issued.length) (issued : after.issued = system.issued ++ [id]) :
    SerialsHeld after (events ++ [event]) := by
  have more : after.issued.length = system.issued.length + 1 := by simp [issued]
  constructor
  · rw [List.map_append, List.map_singleton]
    refine List.nodup_append.mpr ⟨serials.distinct, List.nodup_singleton _, ?_⟩
    intro left present right last
    obtain ⟨old, member, rfl⟩ := List.mem_map.mp present
    have early := serials.given old member
    rw [List.mem_singleton.mp last, serial]
    omega
  · intro other member
    rw [more]
    rcases List.mem_append.mp member with old | new
    · have early := serials.given other old
      omega
    · rw [List.mem_singleton.mp new, serial]
      exact Nat.lt_succ_self _

theorem SerialsHeld.sublist {after : TimerSystem} {kept : List TimerEvent} (serials : SerialsHeld system events)
    (fewer : (kept.map fun event => event.serial).Sublist (events.map fun event => event.serial))
    (issued : after.issued = system.issued) : SerialsHeld after kept := by
  refine ⟨fewer.nodup serials.distinct, ?_⟩
  intro event member
  obtain ⟨old, present, same⟩ := List.mem_map.mp (fewer.mem (List.mem_map_of_mem member))
  rw [issued, ← same]
  exact serials.given old present

/-- Events of a table with the same serial number are one. -/
theorem SerialsHeld.same (serials : SerialsHeld system events) {first second : TimerEvent} (left : first ∈ events)
    (right : second ∈ events) (equal : first.serial = second.serial) : first = second :=
  List.inj_on_of_nodup_map serials.distinct left right equal

theorem Called.refl {front back : List TimerEvent} (table : TableIs system (front ++ back))
    (serials : SerialsHeld system (front ++ back)) : Called system system front back back [] where
  table := table
  serials := serials
  ticks := rfl
  issued := Nat.le_refl _
  silent := rfl
  stays := fun _ takes => .inl (takes.resolve_right List.not_mem_nil)
  origin := fun _ member => .inl member
  gone := fun _ member => absurd member List.not_mem_nil
  ended := fun _ member => absurd member List.not_mem_nil
  fresh := fun _ member => absurd member List.not_mem_nil

/-- A subscription in front of what a handler does. -/
theorem Called.subscribe {middle after : TimerSystem} {front back rest : List TimerEvent} {notes : List TimerNote}
    {event : TimerEvent} (called : Called middle after front (back ++ [event]) rest notes)
    (ticks : middle.totalTicks = system.totalTicks) (issued : middle.issued.length = system.issued.length + 1)
    (serial : event.serial = system.issued.length) :
    Called system after front back rest (.subscribed event :: notes) where
  table := called.table
  serials := called.serials
  ticks := called.ticks.trans ticks
  issued := by
    have more := called.issued
    omega
  silent := by simpa using called.silent
  stays := by
    intro other takes
    apply called.stays other
    simp only [Takes, List.mem_cons, TimerNote.subscribed.injEq, List.mem_append, List.not_mem_nil, or_false] at takes ⊢
    tauto
  origin := by
    intro other member
    have takes := called.origin other member
    simp only [Takes, List.mem_cons, TimerNote.subscribed.injEq, List.mem_append, List.not_mem_nil, or_false] at takes ⊢
    tauto
  gone := called.gone
  ended := by
    intro other member
    obtain ⟨given, origin⟩ := called.ended other member
    refine ⟨given, ?_⟩
    simp only [List.map_append, List.map_singleton, List.mem_append, List.mem_singleton] at origin
    rcases origin with (old | new) | later
    · exact .inl old
    · exact .inr (by omega)
    · exact .inr (by omega)
  fresh := by
    intro other member
    rcases List.mem_cons.mp member with same | later
    · rw [TimerNote.subscribed.inj same, serial]
    · have bound := called.fresh other later
      omega

/-- The end of a subscription in front of what a handler does. -/
theorem Called.unsubscribe {middle after : TimerSystem} {front before behind rest : List TimerEvent}
    {notes : List TimerNote}
    {event : TimerEvent} (called : Called middle after front (before ++ behind) rest notes)
    (clock : SameClock system middle)
    (serials : SerialsHeld system (front ++ (before ++ event :: behind))) :
    Called system after front (before ++ event :: behind) rest (.unsubscribed event :: notes) where
  table := called.table
  serials := called.serials
  ticks := called.ticks.trans clock.ticks
  issued := by
    rw [← clock.issued]
    exact called.issued
  silent := by simpa using called.silent
  stays := by
    intro other takes
    rw [endedSerials_unsubscribed, List.mem_cons]
    by_cases same : other = event
    · exact .inr (.inl (by rw [same]))
    · have kept := called.stays other
      simp only [Takes, List.mem_cons, List.mem_append, reduceCtorEq, false_or] at takes kept
      tauto
  origin := by
    intro other member
    have takes := called.origin other member
    simp only [Takes, List.mem_cons, List.mem_append, reduceCtorEq, false_or] at takes ⊢
    tauto
  gone := by
    intro serial member
    rw [endedSerials_unsubscribed, List.mem_cons] at member
    rcases member with rfl | later
    · intro present
      have given := serials.given event (by simp)
      have distinct := serials.distinct
      simp only [List.map_append, List.mem_append, List.mem_map] at present
      rcases present with ⟨other, front, same⟩ | ⟨other, member, same⟩
      · have equal := serials.same (List.mem_append_left _ front) (by simp) same
        subst equal
        simp only [List.map_append, List.map_cons, List.nodup_append] at distinct
        exact distinct.2.2 _ (List.mem_map_of_mem front) _ (by simp) rfl
      · rcases called.origin other member with old | new
        · have equal : other = event := by
            apply serials.same _ (by simp) same
            rcases List.mem_append.mp old with left | right
            · simp [left]
            · simp [right]
          subst equal
          have inner : ((before ++ other :: behind).map fun event => event.serial).Nodup := by
            rw [List.map_append, List.nodup_append] at distinct
            exact distinct.2.1
          rw [List.map_append, List.map_cons, List.nodup_middle, List.nodup_cons] at inner
          apply inner.1
          rw [← List.map_append]
          exact List.mem_map_of_mem old
        · have late := called.fresh other new
          rw [clock.issued] at late
          omega
    · exact called.gone serial later
  ended := by
    intro serial member
    rw [endedSerials_unsubscribed, List.mem_cons] at member
    rw [← clock.issued]
    rcases member with rfl | later
    · have given := serials.given event (by simp)
      have more := called.issued
      rw [clock.issued] at more
      exact ⟨by omega, .inl (by simp)⟩
    · obtain ⟨given, origin⟩ := called.ended serial later
      refine ⟨given, origin.imp_left ?_⟩
      simp only [List.map_append, List.map_cons, List.mem_append, List.mem_cons]
      tauto
  fresh := by
    intro other member
    rw [← clock.issued]
    exact called.fresh other (List.mem_of_ne_of_mem (by simp) member)

/-- A handler that spares the slots up to its own leaves them as they are. -/
theorem runHandler_spares (run : HandlerRun δ) {front back : List TimerEvent} {slot : Nat}
    (table : TableIs system (front ++ back)) (serials : SerialsHeld system (front ++ back))
    (spares : Spares slot run system) (length : front.length = slot + 1) :
    ∃ notes after world rest, runHandler run system = .ok (notes, after, world) ∧
      Called system after front back rest notes := by
  induction run generalizing system back with
  | done world => exact ⟨[], system, world, back, rfl, .refl table serials⟩
  | subscribe callback data intervalMs recurring next ih =>
    simp only [Spares] at spares
    by_cases refused : Refused system callback
    · have subscribes := timerSubscribeEvent_refused refused data intervalMs recurring
      obtain ⟨notes, after, world, rest, runs, called⟩ := ih (-1) table serials (spares _ _ subscribes)
      refine ⟨notes, after, world, rest, ?_, called⟩
      rw [runHandler, subscribes]
      simp only [bind, Except.bind]
      rw [runs]
      exact if_pos refused
    · obtain ⟨middle, subscribes, appended, ticks, issued⟩ :=
        timerSubscribeEvent_appends table refused data intervalMs recurring
      have numbered := @SerialsHeld.append _ _ _ serials
        (subscribedEvent system callback data intervalMs recurring) _ rfl issued
      rw [List.append_assoc] at appended numbered
      obtain ⟨notes, after, world, rest, runs, called⟩ := ih _ appended numbered (spares _ _ subscribes)
      refine ⟨_, after, world, rest, ?_, called.subscribe ticks (by simp [issued]) rfl⟩
      rw [runHandler, subscribes]
      simp only [bind, Except.bind]
      rw [runs]
      exact if_neg refused
  | unsubscribe subscriptionId next ih =>
    obtain ⟨behind, continues⟩ := spares
    have finds := findSubscriber_eq table subscriptionId
    obtain ⟨middle, removes, kept, clock⟩ := timerUnsubscribeEvent_removes table subscriptionId
    unfold withoutId at kept
    cases found : slotOf (front ++ back) subscriptionId with
    | none =>
      rw [found] at finds
      have same : timerUnsubscribeEvent system subscriptionId = .ok system := by
        rw [timerUnsubscribeEvent, finds]
        rfl
      obtain ⟨notes, after, world, rest, runs, called⟩ := ih table serials (continues system same)
      refine ⟨notes, after, world, rest, ?_, called⟩
      rw [runHandler, finds]
      simp only [bind, Except.bind]
      rw [same]
      simp only
      rw [runs]
      rfl
    | some place =>
      rw [found] at kept finds
      have late := behind place finds
      obtain ⟨inside, _⟩ := slotOf_inside found
      rw [List.length_append] at inside
      obtain ⟨before, event, behind, rfl, here⟩ : ∃ before event behind, back = before ++ event :: behind ∧
          before.length = place - front.length := by
        have room : place - front.length < back.length := by omega
        refine ⟨back.take (place - front.length), back[place - front.length], back.drop (place - front.length + 1),
          ?_, ?_⟩
        · rw [← List.drop_eq_getElem_cons room, List.take_append_drop]
        · rw [List.length_take]
          omega
      have regrouped : front ++ (before ++ event :: behind) = (front ++ before) ++ event :: behind := by simp
      have position : place = (front ++ before).length := by
        rw [List.length_append]
        omega
      have erased : (front ++ (before ++ event :: behind)).eraseIdx place = front ++ (before ++ behind) := by
        rw [regrouped, position, List.eraseIdx_append_of_length_le (Nat.le_refl _), Nat.sub_self, List.eraseIdx_cons_zero,
          List.append_assoc]
      simp only at kept
      rw [erased] at kept
      have fewer : (front ++ (before ++ behind)).Sublist (front ++ (before ++ event :: behind)) := by
        rw [← erased]
        exact List.eraseIdx_sublist _ _
      obtain ⟨notes, after, world, rest, runs, called⟩ :=
        ih kept (serials.sublist (fewer.map _) clock.issued) (continues middle removes)
      refine ⟨_, after, world, rest, ?_, called.unsubscribe clock serials⟩
      have element : elementAt system.subscribers (Int.ofNat place) = .ok event := by
        have within : place < (front ++ (before ++ event :: behind)).length := by
          rw [List.length_append]
          omega
        refine (table.element within).trans ?_
        congr 1
        simp only [regrouped, position]
        simp
      rw [runHandler, finds]
      simp only [bind, Except.bind, Option.map_some]
      rw [removes]
      simp only
      rw [runs]
      simp only
      rw [element]
      rfl

/-- What the loop makes of the events from a slot on. -/
structure Passed (system after : TimerSystem) (front back rest : List TimerEvent) (notes : List TimerNote) : Prop where
  table : TableIs after (front ++ rest)
  right : PassRight system.totalTicks back notes rest
  ended : ∀ serial ∈ endedSerials notes,
    serial ∈ back.map (fun event => event.serial) ∨ system.issued.length ≤ serial
  fresh : ∀ event, .subscribed event ∈ notes → system.issued.length ≤ event.serial

theorem Passed.ends {front : List TimerEvent} (table : TableIs system front) : Passed system system front [] [] [] where
  table := by simpa using table
  right := by
    refine ⟨?_, fun _ member => absurd member List.not_mem_nil, ?_⟩
    · intro event takes
      exact (takes.elim List.not_mem_nil List.not_mem_nil).elim
    · intro event takes
      exact (takes.elim List.not_mem_nil List.not_mem_nil).elim
  ended := fun _ member => absurd member List.not_mem_nil
  fresh := fun _ member => absurd member List.not_mem_nil

/-- A called subscription is one of the events that the loop takes. -/
theorem Passed.called {after : TimerSystem} {front back rest : List TimerEvent} {notes : List TimerNote}
    (passes : Passed system after front back rest notes) {serial : Nat} (member : serial ∈ calledSerials notes) :
    serial ∈ back.map (fun event => event.serial) ∨ system.issued.length ≤ serial := by
  obtain ⟨event, takes, rfl, _⟩ := passes.right.only serial member
  rcases takes with old | new
  · exact .inl (List.mem_map_of_mem old)
  · exact .inr (passes.fresh event new)

/-- An event that is not due stays as it is. -/
theorem Passed.early {after : TimerSystem} {front back rest : List TimerEvent} {notes : List TimerNote}
    {event : TimerEvent}
    (passes : Passed system after (front ++ [event]) back rest notes)
    (serials : SerialsHeld system (front ++ event :: back)) (later : system.totalTicks < event.nextTrigger) :
    Passed system after front (event :: back) (event :: rest) notes where
  table := by simpa using passes.table
  right := by
    have takes {other : TimerEvent} (taken : Takes (event :: back) notes other) : other = event ∨
      Takes back notes other := by
      simp only [Takes, List.mem_cons] at taken ⊢
      tauto
    refine ⟨?_, ?_, ?_⟩
    · intro other taken due calls
      rcases takes taken with rfl | rest
      · omega
      · exact passes.right.called other rest due calls
    · intro serial member
      obtain ⟨other, taken, same, due⟩ := passes.right.only serial member
      exact ⟨other, taken.imp_left (List.mem_cons_of_mem _), same, due⟩
    · intro other taken active stays
      rcases takes taken with rfl | rest
      · exact ⟨other, List.mem_cons_self, rfl⟩
      · obtain ⟨kept, member, same⟩ := passes.right.kept other rest active stays
        exact ⟨kept, List.mem_cons_of_mem _ member, same⟩
  ended := by
    intro serial member
    exact (passes.ended serial member).imp_left fun old => by simp [old]
  fresh := passes.fresh

/-- What `callHandler` does with a handler that spares the slots up to its own. -/
theorem callHandler_spares {handlers : Nat → Nat → δ → HandlerRun δ} {front back : List TimerEvent} {event : TimerEvent}
    (table : TableIs system (front ++ event :: back)) (serials : SerialsHeld system (front ++ event :: back)) (world : δ)
    (spares : event.handler ≠ 0 → Spares front.length (handlers event.handler event.userData world) system) :
    ∃ notes after final rest inner, callHandler handlers event system world = .ok (notes, after, final) ∧
      Called system after (front ++ [event]) back rest inner ∧
      notes = if event.handler = 0 then inner else .called event :: inner := by
  have regrouped : front ++ event :: back = (front ++ [event]) ++ back := by simp
  rw [regrouped] at table serials
  unfold callHandler
  by_cases missing : event.handler = 0
  · rw [if_pos missing]
    exact ⟨[], system, world, back, [], rfl, .refl table serials, (if_pos missing).symm⟩
  · obtain ⟨notes, after, final, rest, runs, called⟩ := runHandler_spares _ table serials (spares missing) (by simp)
    rw [if_neg missing, runs]
    exact ⟨_, after, final, rest, notes, rfl, called, (if_neg missing).symm⟩

/-- The call of a due event, its settlement, and the rest of the loop. -/
theorem Passed.due {middle changed after : TimerSystem} {front back left rest : List TimerEvent}
    {first inner notes : List TimerNote} {event : TimerEvent} (serials : SerialsHeld system (front ++ event :: back))
    (due : event.nextTrigger ≤ system.totalTicks)
    (called : Called system middle (front ++ [event]) back left inner)
    (calls : first = if event.handler = 0 then inner else .called event :: inner) (clock : SameClock middle changed)
    (passes : Passed changed after (front ++ (settled middle.totalTicks event).toList) left rest notes) :
    Passed system after front (event :: back) ((settled middle.totalTicks event).toList ++ rest) (first ++ notes) := by
  have ticks : changed.totalTicks = system.totalTicks := clock.ticks.trans called.ticks
  have given : changed.issued.length = middle.issued.length := by rw [clock.issued]
  have more := called.issued
  have right := passes.right
  rw [ticks] at right
  have endedFirst : endedSerials first = endedSerials inner := by
    rw [calls]
    split <;> rfl
  have calledFirst : calledSerials first = if event.handler = 0 then [] else [event.serial] := by
    rw [calls]
    split
    · exact called.silent
    · rw [calledSerials_called, called.silent]
  have subscribedFirst (other : TimerEvent) : .subscribed other ∈ first ↔ .subscribed other ∈ inner := by
    rw [calls]
    split <;> simp
  have early : event.serial < system.issued.length := serials.given event (by simp)
  have aloneBack {other : TimerEvent} (takes : Takes back inner other) : other.serial ≠ event.serial := by
    rcases takes with old | new
    · have distinct := serials.distinct
      rw [List.map_append, List.map_cons, List.nodup_append, List.nodup_cons] at distinct
      intro same
      exact distinct.2.1.1 (same ▸ List.mem_map_of_mem old)
    · have late := called.fresh other new
      omega
  have aloneLeft : event.serial ∉ left.map fun event => event.serial := by
    have distinct := called.serials.distinct
    rw [List.append_assoc, List.map_append, List.singleton_append, List.map_cons, List.nodup_append,
      List.nodup_cons] at distinct
    exact distinct.2.1.1
  have notAgain : event.serial ∉ calledSerials notes := by
    intro member
    rcases passes.called member with old | new
    · exact aloneLeft old
    · omega
  have notEnded {serial : Nat} (ends : serial ∈ endedSerials inner) : serial ∉ calledSerials notes := by
    intro member
    rcases passes.called member with old | new
    · exact called.gone serial ends (by rw [List.map_append]; exact List.mem_append_right _ old)
    · have bound := (called.ended serial ends).1
      omega
  have takes {other : TimerEvent} (taken : Takes (event :: back) (first ++ notes) other) :
      other = event ∨ Takes back inner other ∨ .subscribed other ∈ notes := by
    simp only [Takes, List.mem_cons, List.mem_append, subscribedFirst] at taken ⊢
    tauto
  have inLeft {other : TimerEvent} (taken : Takes back inner other ∨ .subscribed other ∈ notes) :
      Takes left notes other ∨ other.serial ∈ endedSerials inner ∧ Takes back inner other := by
    rcases taken with old | new
    · rcases called.stays other old with stays | ends
      · exact .inl (.inl stays)
      · exact .inr ⟨ends, old⟩
    · exact .inl (.inr new)
  have apart {other : TimerEvent} (taken : Takes back inner other ∨ .subscribed other ∈ notes) :
      other.serial ≠ event.serial := by
    rcases taken with old | new
    · exact aloneBack old
    · have late := passes.fresh other new
      omega
  refine ⟨by simpa using passes.table, ⟨?_, ?_, ?_⟩, ?_, ?_⟩
  · intro other taken otherDue handles
    rw [calledSerials_append, endedSerials_append, calledFirst, endedFirst, List.count_append, List.mem_append,
      List.mem_append]
    rcases takes taken with rfl | rest
    · left
      rw [if_neg handles, List.count_singleton_self, List.count_eq_zero_of_not_mem notAgain]
    · have other_ne := apart rest
      have none : other.serial ∉ if event.handler = 0 then [] else [event.serial] := by
        split
        · exact List.not_mem_nil
        · simpa using other_ne
      rw [List.count_eq_zero_of_not_mem none, Nat.zero_add]
      rcases inLeft rest with stays | ⟨ends, _⟩
      · rcases right.called other stays otherDue handles with once | ⟨ends, silent⟩
        · exact .inl once
        · exact .inr ⟨.inr ends, not_or.mpr ⟨none, silent⟩⟩
      · exact .inr ⟨.inl ends, not_or.mpr ⟨none, notEnded ends⟩⟩
  · intro serial member
    rw [calledSerials_append, calledFirst, List.mem_append] at member
    rcases member with now | later
    · refine ⟨event, .inl List.mem_cons_self, ?_, due⟩
      split at now
      · cases now
      · exact (List.mem_singleton.mp now).symm
    · obtain ⟨other, taken, same, otherDue⟩ := right.only serial later
      refine ⟨other, ?_, same, otherDue⟩
      simp only [Takes, List.mem_cons, List.mem_append, subscribedFirst]
      rcases taken with old | new
      · have origin := called.origin other old
        simp only [Takes] at origin
        tauto
      · exact .inr (.inr new)
  · intro other taken active stays
    rw [endedSerials_append, endedFirst, List.mem_append, not_or] at active
    rcases takes taken with rfl | rest
    · have recurs : other.recurring ≠ 0 := fun once => stays ⟨due, once⟩
      refine ⟨{ other with nextTrigger := u64 (middle.totalTicks + other.intervalTicks) }, ?_, rfl⟩
      rw [settled, if_pos recurs]
      exact List.mem_append_left _ (List.mem_singleton_self _)
    · rcases inLeft rest with stayed | ⟨ends, _⟩
      · obtain ⟨kept, member, same⟩ := right.kept other stayed active.2 stays
        exact ⟨kept, List.mem_append_right _ member, same⟩
      · exact absurd ends active.1
  · intro serial member
    rw [endedSerials_append, endedFirst, List.mem_append] at member
    rw [List.map_cons, List.mem_cons]
    rcases member with now | later
    · exact ((called.ended serial now).2).imp_left .inr
    · rcases passes.ended serial later with old | new
      · obtain ⟨other, inside, rfl⟩ := List.mem_map.mp old
        rcases called.origin other inside with was | new
        · exact .inl (.inr (List.mem_map_of_mem was))
        · exact .inr (called.fresh other new)
      · exact .inr (by omega)
  · intro other member
    rcases List.mem_append.mp member with now | later
    · exact called.fresh other ((subscribedFirst other).mp now)
    · have late := passes.fresh other later
      omega

/-- The event in an active slot is the first of those from the slot on. -/
theorem TableIs.head {front back : List TimerEvent} (table : TableIs system (front ++ back)) {event : TimerEvent}
    (found : elementAt system.subscribers front.length = .ok event) (active : front.length < system.subscriberCount) :
    ∃ rest, back = event :: rest := by
  have count := table.count
  rw [List.length_append] at count
  cases back with
  | nil =>
    rw [List.length_nil] at count
    omega
  | cons first rest =>
    have inside : front.length < (front ++ first :: rest).length := by simp
    have element := table.element inside
    rw [found] at element
    exact ⟨rest, by simpa using (Except.ok.inj element).symm⟩

/-- Behind the active slots the loop stops. -/
theorem interruptLoop_ends (handlers : Nat → Nat → δ → HandlerRun δ) {front back : List TimerEvent} (world : δ)
    (table : TableIs system (front ++ back)) (behind : system.subscriberCount ≤ front.length) :
    (∀ fuel ≥ 1, interruptLoop handlers fuel front.length system world = .ok ([], system, world)) ∧
      Passed system system front back [] [] := by
  have count := table.count
  rw [List.length_append] at count
  obtain rfl : back = [] := List.length_eq_zero_iff.mp (by omega)
  rw [List.append_nil] at table
  refine ⟨?_, .ends table⟩
  intro fuel enough
  obtain ⟨fuel, rfl⟩ : ∃ rest, fuel = rest + 1 := ⟨fuel - 1, by omega⟩
  rw [interruptLoop, if_neg (by omega)]
  rfl

/-- An orderly loop comes to its end, and passes every event as it should. -/
theorem interruptLoop_orderly {handlers : Nat → Nat → δ → HandlerRun δ} {slot : Nat} {world : δ}
    (orderly : Orderly handlers slot system world) {front back : List TimerEvent} (table : TableIs system (front ++ back))
    (serials : SerialsHeld system (front ++ back)) (length : front.length = slot) :
    ∃ enough notes after final rest,
      (∀ fuel ≥ enough, interruptLoop handlers fuel slot system world = .ok (notes, after, final)) ∧
        Passed system after front back rest notes := by
  induction orderly generalizing front back with
  | ends behind =>
    subst length
    obtain ⟨loops, passes⟩ := interruptLoop_ends handlers _ table behind
    exact ⟨1, [], _, _, [], loops, passes⟩
  | @early slot system world event found later rest ih =>
    subst length
    by_cases behind : system.subscriberCount ≤ front.length
    · obtain ⟨loops, passes⟩ := interruptLoop_ends handlers world table behind
      exact ⟨1, [], _, _, [], loops, passes⟩
    · obtain ⟨back, rfl⟩ := table.head found (by omega)
      have regrouped : front ++ event :: back = (front ++ [event]) ++ back := by simp
      have moved : TableIs system ((front ++ [event]) ++ back) := regrouped ▸ table
      have numbered : SerialsHeld system ((front ++ [event]) ++ back) := regrouped ▸ serials
      obtain ⟨enough, notes, after, final, left, loops, passes⟩ :=
        ih moved numbered (by simp)
      refine ⟨enough + 1, notes, after, final, _, ?_, passes.early serials later⟩
      intro fuel more
      obtain ⟨fuel, rfl⟩ : ∃ less, fuel = less + 1 := ⟨fuel - 1, by omega⟩
      have next : ((front.length : Int) + 1) = ((front.length + 1 : Nat) : Int) := by omega
      rw [interruptLoop, if_pos (by omega), found, next]
      simp only [bind, Except.bind]
      rw [if_neg (by omega)]
      exact loops fuel (by omega)
  | @due slot system world event found due spares rest ih =>
    subst length
    by_cases behind : system.subscriberCount ≤ front.length
    · obtain ⟨loops, passes⟩ := interruptLoop_ends handlers world table behind
      exact ⟨1, [], _, _, [], loops, passes⟩
    · obtain ⟨back, rfl⟩ := table.head found (by omega)
      obtain ⟨first, middle, between, left, inner, calls, called, same⟩ := callHandler_spares table serials world spares
      have here : (front ++ [event]) ++ left = front ++ event :: left := by simp
      obtain ⟨changed, settles, moved, clock⟩ := settleSlot_settles (here ▸ called.table)
      have kept : SerialsHeld changed (front ++ (settled middle.totalTicks event).toList ++ left) := by
        refine called.serials.sublist ?_ clock.issued
        rw [here, List.append_assoc]
        simp only [List.map_append]
        apply List.Sublist.append_left
        unfold settled
        split
        · exact List.Sublist.refl _
        · exact List.sublist_cons_self _ _
      obtain ⟨enough, notes, after, final, behindLeft, loops, passes⟩ :=
        ih first middle _ changed between calls settles moved kept rfl
      refine ⟨enough + 1, first ++ notes, after, final, _, ?_, Passed.due serials due called same clock passes⟩
      intro fuel more
      obtain ⟨fuel, rfl⟩ : ∃ less, fuel = less + 1 := ⟨fuel - 1, by omega⟩
      rw [interruptLoop, if_pos (by omega), found]
      simp only [bind, Except.bind]
      rw [if_pos due, calls]
      simp only
      rw [settles]
      simp only
      rw [loops fuel (by omega)]
      rfl

/-- The system when the loop of an interrupt starts. -/
def ticked (system : TimerSystem) : TimerSystem := { system with totalTicks := u64 (system.totalTicks + 1) }

/-- What an interrupt is to do. Before the initialisation there are no ticks, and no event is due. -/
structure InterruptRight (system : TimerSystem) (events : List TimerEvent) (notes : List TimerNote)
    (after : TimerSystem) :
    Prop where
  pass : ∃ rest, TableIs after rest ∧
    (system.totalTicks ≠ 0 → PassRight (ticked system).totalTicks events notes rest) ∧
    (system.totalTicks = 0 → notes = [] ∧ rest = events)
  bounds : 0 ≤ after.subscriberCount ∧ after.subscriberCount ≤ maxEventSubscribers

theorem TableIs.bounds (table : TableIs system events) :
    0 ≤ system.subscriberCount ∧ system.subscriberCount ≤ maxEventSubscribers := by
  have count := table.count
  have bound := table.bound
  omega

/-- While every handler spares its own slot and those before it, an interrupt returns,
calls what is due, and keeps what is neither expired nor unsubscribed. -/
theorem interrupt_right (handlers : Nat → Nat → δ → HandlerRun δ) (system : TimerSystem) (events : List TimerEvent)
    (world : δ) (table : TableIs system events) (serials : SerialsHeld system events)
    (orderly : Orderly handlers 0 (ticked system) world) :
    ∃ enough notes after final,
      (∀ fuel ≥ enough, timerHandleInterrupt handlers fuel system world = .ok (notes, after, final)) ∧
        InterruptRight system events notes after := by
  unfold timerHandleInterrupt
  by_cases idle : system.totalTicks = 0
  · refine ⟨0, [], system, world, fun fuel _ => if_pos idle, ⟨events, table, ?_, fun _ => ⟨rfl, rfl⟩⟩, table.bounds⟩
    exact fun running => absurd idle running
  · have start : TableIs (ticked system) ([] ++ events) := ⟨table.count, table.holds⟩
    have numbered : SerialsHeld (ticked system) ([] ++ events) := ⟨serials.distinct, serials.given⟩
    obtain ⟨enough, notes, after, final, rest, loops, passes⟩ := interruptLoop_orderly orderly start numbered rfl
    refine ⟨enough, notes, after, final, ?_, ⟨rest, passes.table, fun _ => passes.right, fun zero => absurd zero idle⟩,
      passes.table.bounds⟩
    intro fuel more
    rw [if_neg idle]
    exact loops fuel more

/-- A one-shot event that is due at the next tick. -/
def dueEvent : TimerEvent := ⟨1, 7, 0, 3, 5, 0, 0⟩

def dueTimer : TimerSystem := ⟨4, fun _ => dueEvent, 1, [1]⟩

private theorem dueTimer_table : TableIs dueTimer [dueEvent] := by
  refine ⟨rfl, by decide, ?_⟩
  intro index inside
  obtain rfl : index = 0 := by simpa using inside
  rfl

private theorem dueTimer_serials : SerialsHeld dueTimer [dueEvent] := by
  refine ⟨List.nodup_singleton _, ?_⟩
  intro event member
  rw [List.mem_singleton.mp member]
  decide

/-- A handler that subscribes again. -/
def renewingHandlers (_ _ : Nat) (_ : Unit) : HandlerRun Unit := .subscribe 7 0 10 0 fun _ => .done ()

/-- A handler that ends its own subscription. -/
def endingHandlers (_ _ : Nat) (_ : Unit) : HandlerRun Unit := .unsubscribe 1 (.done ())

/-- The event that a handler has subscribed stays in the place of the expired one. -/
theorem interrupt_right_renewing :
    ∃ enough notes after final,
      (∀ fuel ≥ enough, timerHandleInterrupt renewingHandlers fuel dueTimer () = .ok (notes, after, final)) ∧
        InterruptRight dueTimer [dueEvent] notes after := by
  apply interrupt_right renewingHandlers dueTimer _ () dueTimer_table dueTimer_serials
  have found : elementAt (ticked dueTimer).subscribers (0 : Nat) = .ok dueEvent := rfl
  refine .due found (by decide) (fun _ _ _ _ => trivial) ?_
  intro notes middle next after final calls settles
  have called : callHandler renewingHandlers dueEvent (ticked dueTimer) () = .ok (_, _, _) := rfl
  cases called.symm.trans calls
  have both := Except.ok.inj (settles.symm.trans (rfl : _ = Except.ok (_, _)))
  obtain ⟨slot, same⟩ := Prod.mk.inj both
  obtain rfl : next = 0 := Int.ofNat_inj.mp slot
  subst same
  exact @Orderly.early _ _ _ _ _ ⟨2, 7, 0, 3, 8, 0, 1⟩ rfl (by decide) (.ends (by decide))

/-- A one-shot event whose handler ends its own subscription leaves a count of -1. -/
theorem interrupt_count_negative :
    TableIs dueTimer [dueEvent] ∧ SerialsHeld dueTimer [dueEvent] ∧
      ∃ notes after, timerHandleInterrupt endingHandlers 2 dueTimer () = .ok (notes, after, ()) ∧
        after.subscriberCount = -1 ∧ ∀ events, ¬InterruptRight dueTimer events notes after := by
  refine ⟨dueTimer_table, dueTimer_serials, _, _, rfl, rfl, ?_⟩
  intro events right
  exact absurd right.bounds.1 (by decide)

end Kernix.Proofs
