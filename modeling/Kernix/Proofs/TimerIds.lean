import Kernix.Lib.Runs
import Kernix.Proofs.TimerTables
import Mathlib.Data.List.Nodup

/-! The id of a subscription is the number of active ones. Ids are issued a second time
as soon as a subscription has ended, and then an id ends a subscription of somebody else. -/

namespace Kernix.Proofs

variable {δ : Type} {system : TimerSystem} {events : List TimerEvent}

/-- No handler calls the timer. -/
def Quiet (handlers : Nat → Nat → δ → HandlerRun δ) : Prop :=
  ∀ handler data world, ∃ after, handlers handler data world = .done after

/-- What a pass without calls of the timer makes of an event. -/
def passedEvent (ticks : Nat) (event : TimerEvent) : Option TimerEvent :=
  if event.nextTrigger ≤ ticks then settled ticks event else some event

theorem passedEvent_same {ticks : Nat} {event after : TimerEvent} (passes : passedEvent ticks event = some after) :
    after.id = event.id ∧ after.serial = event.serial := by
  unfold passedEvent at passes
  split at passes
  next =>
    rw [(settled_same passes).1]
    exact ⟨rfl, rfl⟩
  next =>
    cases passes
    exact ⟨rfl, rfl⟩

/-- An interrupt calls the handler of an event. -/
def Due (ticks : Nat) (event : TimerEvent) : Prop := event.nextTrigger ≤ ticks ∧ event.handler ≠ 0

instance (ticks : Nat) : DecidablePred (Due ticks) := fun event =>
  inferInstanceAs (Decidable (event.nextTrigger ≤ ticks ∧ event.handler ≠ 0))

/-- The handlers of some events run one after the other. -/
inductive HandlersRun (handlers : Nat → Nat → δ → HandlerRun δ) : List TimerEvent → δ → δ → Prop where
  | none (world : δ) : HandlersRun handlers [] world world
  | next {event : TimerEvent} {events : List TimerEvent} {before middle after : δ}
      (runs : handlers event.handler event.userData before = .done middle)
        (rest : HandlersRun handlers events middle after) :
      HandlersRun handlers (event :: events) before after

theorem callHandler_quiet {handlers : Nat → Nat → δ → HandlerRun δ} (quiet : Quiet handlers) (event : TimerEvent)
    (system : TimerSystem) (world : δ) :
    ∃ notes middle, callHandler handlers event system world = .ok (notes, system, middle) ∧
      ∀ ticks rest more after, event.nextTrigger ≤ ticks → more = (rest.filter (Due ticks)).map .called →
        HandlersRun handlers (rest.filter (Due ticks)) middle after →
        notes ++ more = ((event :: rest).filter (Due ticks)).map .called ∧
          HandlersRun handlers ((event :: rest).filter (Due ticks)) world after := by
  unfold callHandler
  split
  next none =>
    refine ⟨[], world, rfl, fun ticks rest more after due same runs => ?_⟩
    have idle : ¬Due ticks event := fun given => given.2 none
    rw [List.filter_cons_of_neg (by simpa using idle)]
    exact ⟨same, runs⟩
  next given =>
    obtain ⟨middle, runs⟩ := quiet event.handler event.userData world
    rw [runs]
    refine ⟨[.called event], middle, rfl, fun ticks rest more after due same later => ?_⟩
    have called : Due ticks event := ⟨due, given⟩
    rw [List.filter_cons_of_pos (by simpa using called), same]
    exact ⟨rfl, .next runs later⟩

/-- The loop settles each event on its own, and calls the handlers of those that are due. -/
theorem interruptLoop_quiet {handlers : Nat → Nat → δ → HandlerRun δ} (quiet : Quiet handlers)
    {front back : List TimerEvent}
    (table : TableIs system (front ++ back)) (world : δ) (fuel : Nat) (enough : back.length < fuel) :
    ∃ notes after final, interruptLoop handlers fuel front.length system world = .ok (notes, after, final) ∧
      TableIs after (front ++ back.filterMap (passedEvent system.totalTicks)) ∧ SameClock system after ∧
      notes = (back.filter (Due system.totalTicks)).map .called ∧
      HandlersRun handlers (back.filter (Due system.totalTicks)) world final := by
  induction back generalizing front system world fuel with
  | nil =>
    obtain ⟨fuel, rfl⟩ : ∃ rest, fuel = rest + 1 := ⟨fuel - 1, by omega⟩
    have count := table.count
    simp only [List.append_nil] at count
    rw [interruptLoop, if_neg (by omega)]
    exact ⟨[], system, world, rfl, by simpa using table, ⟨rfl, rfl⟩, rfl, .none world⟩
  | cons event back ih =>
    obtain ⟨fuel, rfl⟩ : ∃ rest, fuel = rest + 1 := ⟨fuel - 1, by omega⟩
    have count := table.count
    simp only [List.length_append, List.length_cons] at count enough
    have inside : front.length < (front ++ event :: back).length := by simp
    have here : (front ++ event :: back)[front.length] = event := by simp
    have whole (ticks : Nat) : front ++ (event :: back).filterMap (passedEvent ticks) =
        front ++ (passedEvent ticks event).toList ++ back.filterMap (passedEvent ticks) := by
      rw [List.filterMap_cons]
      cases passedEvent ticks event <;> simp
    rw [interruptLoop, if_pos (by omega), table.element inside, here]
    simp only [bind, Except.bind]
    rw [whole]
    by_cases due : event.nextTrigger ≤ system.totalTicks
    · have settles : passedEvent system.totalTicks event = settled system.totalTicks event := if_pos due
      obtain ⟨notes, middle, calls, called⟩ := callHandler_quiet quiet event system world
      obtain ⟨changed, settling, moved, clock⟩ := settleSlot_settles table
      obtain ⟨more, after, final, loops, kept, same, told, runs⟩ := ih moved middle fuel (by omega)
      rw [if_pos due, calls]
      simp only
      rw [settling]
      simp only
      rw [loops, settles]
      rw [clock.ticks] at kept told runs
      exact ⟨_, after, final, rfl, kept, ⟨same.ticks.trans clock.ticks, same.issued.trans clock.issued⟩,
        called _ _ _ _ due told runs⟩
    · have stays : passedEvent system.totalTicks event = some event := if_neg due
      have next : (front.length : Int) + 1 = ((front ++ [event]).length : Nat) := by simp
      have regrouped : front ++ event :: back = (front ++ [event]) ++ back := by simp
      have early : ¬Due system.totalTicks event := fun given => due given.1
      rw [regrouped] at table
      obtain ⟨notes, after, final, loops, kept, same, told, runs⟩ := ih table world fuel (by omega)
      rw [if_neg due, stays, next, List.filter_cons_of_neg (by simpa using early)]
      exact ⟨notes, after, final, loops, kept, same, told, runs⟩

/-- The operations of a run. An interrupt may come at any time between the calls. -/
inductive TimerOp where
  | subscribe (callback data intervalMs : Nat) (recurring : Int)
  | unsubscribe (subscriptionId : Int)
  | interrupt

/-- One operation. More passes than the table has slots are not needed, as long as no
handler calls the timer. -/
def timerStep (handlers : Nat → Nat → δ → HandlerRun δ) (state : TimerSystem × δ) :
    TimerOp → Except Stop (TimerSystem × δ)
  | .subscribe callback data intervalMs recurring => do
    let (_, after) ← timerSubscribeEvent state.1 callback data intervalMs recurring
    return (after, state.2)
  | .unsubscribe subscriptionId => do
    let after ← timerUnsubscribeEvent state.1 subscriptionId
    return (after, state.2)
  | .interrupt => do
    let (_, after, world) ← timerHandleInterrupt handlers (maxEventSubscribers + 1) state.1 state.2
    return (after, world)

/-- The active subscriptions have ids of their own, and an id that a subscription was
answered with ends this subscription, and nothing when it has ended. -/
structure ExactIds (system : TimerSystem) (events : List TimerEvent) : Prop where
  table : TableIs system events
  distinct : (events.map fun event => event.id).Nodup
  exact : ∀ serial subscriptionId, system.issued[serial]? = some subscriptionId →
    ∃ after, timerUnsubscribeEvent system subscriptionId = .ok after ∧
      TableIs after (events.filter fun event => event.serial ≠ serial)

/-- A subscription that succeeds is made while all the earlier ones are active. -/
def NoneEnded (state : TimerSystem × δ) : TimerOp → Prop
  | .subscribe callback _ _ _ => Refused state.1 callback ∨ state.1.subscriberCount = state.1.issued.length
  | _ => True

/-- What holds between the operations. -/
structure TimerHeld (system : TimerSystem) (events : List TimerEvent) : Prop where
  table : TableIs system events
  serials : (events.map fun event => event.serial).Nodup
  made : events.length ≤ system.issued.length
  few : system.issued.length ≤ maxEventSubscribers
  numbered : ∀ serial (inside : serial < system.issued.length), system.issued[serial] = serial + 1
  ids : ∀ event ∈ events, event.serial < system.issued.length ∧ event.id = event.serial + 1

/-- Where ids belong to serials, an id takes out the subscription with the serial. -/
theorem withoutId_filter {serial : Nat} {subscriptionId : Int} (serials : (events.map fun event => event.serial).Nodup)
    (same : ∀ event ∈ events, i32 event.id = subscriptionId ↔ event.serial = serial) :
    withoutId events subscriptionId = events.filter fun event => event.serial ≠ serial := by
  induction events with
  | nil => rfl
  | cons event events ih =>
    simp only [List.map_cons, List.nodup_cons] at serials
    have first := same event List.mem_cons_self
    have rest := ih serials.2 fun other member => same other (List.mem_cons_of_mem _ member)
    rw [withoutId_cons]
    by_cases here : event.serial = serial
    · have others : ∀ other ∈ events, other.serial ≠ serial := by
        intro other member equal
        exact serials.1 (List.mem_map.mpr ⟨other, member, by rw [equal, here]⟩)
      rw [if_pos (first.mpr here), List.filter_cons_of_neg (by simpa using here)]
      exact (List.filter_eq_self.mpr fun other member => by simpa using others other member).symm
    · rw [if_neg (fun equal => here (first.mp equal)), List.filter_cons_of_pos (by simpa using here), rest]

theorem TimerHeld.exactIds (held : TimerHeld system events) : ExactIds system events := by
  refine ⟨held.table, ?_, ?_⟩
  · have numbers : (events.map fun event => event.id) = (events.map fun event => event.serial).map Nat.succ := by
      rw [List.map_map]
      exact List.map_congr_left fun event member => (held.ids event member).2
    rw [numbers]
    exact held.serials.map Nat.succ_injective
  · intro serial subscriptionId issued
    have size : maxEventSubscribers = 16 := rfl
    obtain ⟨inside, value⟩ := List.getElem?_eq_some_iff.mp issued
    have few := held.few
    have number := held.numbered serial inside
    obtain ⟨after, removes, kept, _⟩ := timerUnsubscribeEvent_removes held.table subscriptionId
    refine ⟨after, removes, ?_⟩
    rw [← withoutId_filter held.serials]
    · exact kept
    · intro event member
      obtain ⟨early, id⟩ := held.ids event member
      rw [i32_eq (by rw [id]; omega), id]
      omega

/-- The identity of an event: what no pass changes. -/
def identity (event : TimerEvent) : Nat × Nat := (event.id, event.serial)

theorem withoutId_identities (events : List TimerEvent) (subscriptionId : Int) :
    ((withoutId events subscriptionId).map identity).Sublist (events.map identity) := by
  apply List.Sublist.map
  unfold withoutId
  split
  · exact List.Sublist.refl _
  · exact List.eraseIdx_sublist _ _

theorem passedEvent_identities (events : List TimerEvent) (ticks : Nat) :
    ((events.filterMap (passedEvent ticks)).map identity).Sublist (events.map identity) := by
  induction events with
  | nil => exact List.Sublist.refl _
  | cons event events ih =>
    rw [List.filterMap_cons, List.map_cons]
    cases passes : passedEvent ticks event with
    | none => exact ih.cons _
    | some after =>
      obtain ⟨id, serial⟩ := passedEvent_same passes
      rw [List.map_cons, show identity after = identity event from Prod.ext id serial]
      exact ih.cons_cons _

theorem identities_serials {kept : List TimerEvent} (identities : (kept.map identity).Sublist (events.map identity)) :
    (kept.map fun event => event.serial).Sublist (events.map fun event => event.serial) := by
  have both := identities.map Prod.snd
  rw [List.map_map, List.map_map] at both
  exact both

/-- What an operation does to the active subscriptions: it takes some away, or it
appends one. -/
inductive Stepped (system after : TimerSystem) (events kept : List TimerEvent) : TimerOp → Prop where
  | fewer {op : TimerOp} (issued : after.issued = system.issued)
      (identities : (kept.map identity).Sublist (events.map identity)) : Stepped system after events kept op
  | appended {callback data intervalMs : Nat} {recurring : Int} (accepted : ¬Refused system callback)
      (appends : kept = events ++ [subscribedEvent system callback data intervalMs recurring])
      (issued : after.issued = system.issued ++ [i32 (subscribedEvent system callback data intervalMs recurring).id]) :
      Stepped system after events kept (.subscribe callback data intervalMs recurring)

theorem timerStep_steps {handlers : Nat → Nat → δ → HandlerRun δ} (quiet : Quiet handlers) {state : TimerSystem × δ}
    (table : TableIs state.1 events) (op : TimerOp) :
    ∃ after kept, timerStep handlers state op = .ok after ∧ TableIs after.1 kept ∧
      Stepped state.1 after.1 events kept op := by
  obtain ⟨system, world⟩ := state
  dsimp only at table
  cases op with
  | subscribe callback data intervalMs recurring =>
    simp only [timerStep]
    by_cases refused : Refused system callback
    · rw [timerSubscribeEvent_refused refused]
      exact ⟨_, events, rfl, table, .fewer rfl (List.Sublist.refl _)⟩
    · obtain ⟨after, subscribes, appended, _, issued⟩ :=
        timerSubscribeEvent_appends table refused data intervalMs recurring
      rw [subscribes]
      exact ⟨_, _, rfl, appended, .appended refused rfl issued⟩
  | unsubscribe subscriptionId =>
    obtain ⟨after, removes, kept, clock⟩ := timerUnsubscribeEvent_removes table subscriptionId
    simp only [timerStep]
    rw [removes]
    exact ⟨_, _, rfl, kept, .fewer clock.issued (withoutId_identities events subscriptionId)⟩
  | interrupt =>
    simp only [timerStep, timerHandleInterrupt]
    split
    · exact ⟨_, events, rfl, table, .fewer rfl (List.Sublist.refl _)⟩
    · have bound := table.bound
      have ticked : TableIs { system with totalTicks := u64 (system.totalTicks + 1) } ([] ++ events) :=
        ⟨table.count, table.holds⟩
      obtain ⟨notes, after, final, loops, kept, clock, -⟩ :=
        interruptLoop_quiet quiet ticked world (maxEventSubscribers + 1) (by omega)
      rw [show ((([] : List TimerEvent).length : Nat) : Int) = 0 from rfl] at loops
      rw [loops]
      exact ⟨_, _, rfl, kept, .fewer clock.issued (passedEvent_identities events _)⟩

/-- Taking events away keeps what holds. -/
theorem TimerHeld.fewer {after : TimerSystem} {kept : List TimerEvent} (held : TimerHeld system events)
    (table : TableIs after kept) (issued : after.issued = system.issued)
    (identities : (kept.map identity).Sublist (events.map identity)) : TimerHeld after kept := by
  have serials := identities_serials identities
  refine ⟨table, serials.nodup held.serials, ?_, ?_, ?_, ?_⟩
  · have fewer := serials.length_le
    have made := held.made
    simp only [List.length_map] at fewer
    rw [issued]
    omega
  · rw [issued]
    exact held.few
  · rw [issued]
    exact held.numbered
  · intro event member
    obtain ⟨old, present, same⟩ := List.mem_map.mp (identities.mem (List.mem_map_of_mem member))
    simp only [identity, Prod.mk.injEq] at same
    rw [issued, ← same.1, ← same.2]
    exact held.ids old present

/-- A subscription while the earlier ones are active gets an id that nobody had. -/
theorem TimerHeld.append {after : TimerSystem} (held : TimerHeld system events) {event : TimerEvent}
    (room : events.length < maxEventSubscribers) (active : events.length = system.issued.length)
    (table : TableIs after (events ++ [event])) (serial : event.serial = system.issued.length)
    (id : event.id = system.issued.length + 1) (issued : after.issued = system.issued ++ [i32 event.id]) :
    TimerHeld after (events ++ [event]) := by
  have size : maxEventSubscribers = 16 := rfl
  have number : i32 event.id = (system.issued.length + 1 : Nat) := by
    rw [id]
    exact i32_eq (by omega)
  refine ⟨table, ?_, ?_, ?_, ?_, ?_⟩
  · rw [List.map_append, List.map_singleton]
    refine List.nodup_append.mpr ⟨held.serials, List.nodup_singleton _, ?_⟩
    intro left present right last
    obtain ⟨old, member, rfl⟩ := List.mem_map.mp present
    have early := (held.ids old member).1
    rw [List.mem_singleton.mp last, serial]
    omega
  · rw [issued, List.length_append, List.length_append, List.length_singleton, List.length_singleton, active]
  · rw [issued, List.length_append, List.length_singleton]
    omega
  · intro index inside
    simp only [issued, List.length_append, List.length_singleton] at inside ⊢
    by_cases last : index = system.issued.length
    · subst last
      simp only [List.getElem_append_right (Nat.le_refl _), Nat.sub_self, List.getElem_cons_zero, number]
      exact Int.natCast_succ _
    · have early : index < system.issued.length := by omega
      rw [List.getElem_append_left early]
      exact held.numbered index early
  · intro other member
    rw [issued, List.length_append, List.length_singleton]
    rcases List.mem_append.mp member with old | new
    · obtain ⟨early, same⟩ := held.ids other old
      exact ⟨by omega, same⟩
    · rw [List.mem_singleton.mp new, serial, id]
      exact ⟨Nat.lt_succ_self _, rfl⟩

/-- The id of a new event, while the table has a place for it. -/
theorem TableIs.newId (table : TableIs system events) (room : events.length < maxEventSubscribers) :
    u64OfInt (system.subscriberCount + 1) = events.length + 1 := by
  have count := table.count
  have size : maxEventSubscribers = 16 := rfl
  rw [u64OfInt]
  omega

theorem TableIs.room (table : TableIs system events) {callback : Nat} (accepted : ¬Refused system callback) :
    events.length < maxEventSubscribers := by
  have count := table.count
  simp only [Refused, not_or, not_le] at accepted
  omega

/-- Every operation but a subscription after an end keeps what holds. -/
theorem timerStep_held {handlers : Nat → Nat → δ → HandlerRun δ} (quiet : Quiet handlers) {state : TimerSystem × δ}
    (held : TimerHeld state.1 events) (op : TimerOp) (active : NoneEnded state op) :
    ∃ after kept, timerStep handlers state op = .ok after ∧ TimerHeld after.1 kept := by
  have count := held.table.count
  obtain ⟨after, kept, steps, table, stepped⟩ := timerStep_steps quiet held.table op
  refine ⟨after, kept, steps, ?_⟩
  cases stepped with
  | fewer issued identities => exact held.fewer table issued identities
  | appended accepted appends issued =>
    have room := held.table.room accepted
    have whole : state.1.subscriberCount = state.1.issued.length := active.resolve_left accepted
    have active : events.length = state.1.issued.length := by omega
    subst appends
    refine held.append room active table rfl ?_ issued
    rw [← active]
    exact held.table.newId room

/-- A subscription after an end gets the id of an earlier one. -/
theorem timerStep_repeats {handlers : Nat → Nat → δ → HandlerRun δ} {state after : TimerSystem × δ}
    (held : TimerHeld state.1 events) {op : TimerOp} (ended : ¬NoneEnded state op)
    (steps : timerStep handlers state op = .ok after) (kept : List TimerEvent) : ¬ExactIds after.1 kept := by
  intro exactIds
  obtain ⟨system, world⟩ := state
  dsimp only at held
  have table := held.table
  have count := table.count
  have size : maxEventSubscribers = 16 := rfl
  cases op with
  | unsubscribe => exact ended trivial
  | interrupt => exact ended trivial
  | subscribe callback data intervalMs recurring =>
    obtain ⟨accepted, fewer⟩ := not_or.mp ended
    obtain ⟨changed, subscribes, appended, _, issued⟩ :=
      timerSubscribeEvent_appends table accepted data intervalMs recurring
    have newId := table.newId (table.room accepted)
    simp only [timerStep] at steps
    rw [subscribes] at steps
    cases steps
    generalize event_eq : subscribedEvent system callback data intervalMs recurring = event at appended issued
    have serial : event.serial = system.issued.length := by rw [← event_eq]; rfl
    have value : event.id = events.length + 1 := by rw [← event_eq]; exact newId
    have made := held.made
    have few := held.few
    simp only at fewer
    have id : i32 event.id = (events.length + 1 : Nat) := by
      rw [value]
      exact i32_eq (by omega)
    cases appended.unique exactIds.table
    have old : changed.issued[events.length]? = some (i32 event.id) := by
      rw [issued, List.getElem?_append_left (by omega), List.getElem?_eq_getElem (by omega),
        held.numbered events.length (by omega), id]
      rfl
    have new : changed.issued[event.serial]? = some (i32 event.id) := by
      rw [issued, serial, List.getElem?_append_right (Nat.le_refl _), Nat.sub_self]
      rfl
    obtain ⟨first, removes, kept⟩ := exactIds.exact _ _ old
    obtain ⟨second, again, others⟩ := exactIds.exact _ _ new
    cases removes.symm.trans again
    have member : event ∈ (events ++ [event]).filter fun other => other.serial ≠ events.length := by
      simp only [List.mem_filter, List.mem_append, List.mem_singleton, or_true, true_and, decide_eq_true_eq]
      omega
    rw [kept.unique others] at member
    simp at member

/-- The active subscriptions have ids of their own. -/
def DistinctIds (system : TimerSystem) (events : List TimerEvent) : Prop :=
  TableIs system events ∧ (events.map fun event => event.id).Nodup

/-- A subscription that succeeds is made while no active one has the id it gets. -/
def NoneClashes (state : TimerSystem × δ) : TimerOp → Prop
  | .subscribe callback _ _ _ =>
    Refused state.1 callback ∨
      ∀ events, TableIs state.1 events → ∀ event ∈ events, event.id ≠ u64OfInt (state.1.subscriberCount + 1)
  | _ => True

/-- Every operation but a subscription whose id is taken keeps the ids apart. -/
theorem timerStep_distinct {handlers : Nat → Nat → δ → HandlerRun δ} (quiet : Quiet handlers) {state : TimerSystem × δ}
    (distinct : DistinctIds state.1 events) (op : TimerOp) (apart : NoneClashes state op) :
    ∃ after kept, timerStep handlers state op = .ok after ∧ DistinctIds after.1 kept := by
  obtain ⟨table, ids⟩ := distinct
  obtain ⟨after, kept, steps, moved, stepped⟩ := timerStep_steps quiet table op
  refine ⟨after, kept, steps, moved, ?_⟩
  cases stepped with
  | fewer issued identities =>
    have fewer : (kept.map fun event => event.id).Sublist (events.map fun event => event.id) := by
      have both := identities.map Prod.fst
      rw [List.map_map, List.map_map] at both
      exact both
    exact fewer.nodup ids
  | appended accepted appends issued =>
    have fresh := apart.resolve_left accepted events table
    rw [appends, List.map_append, List.map_singleton]
    refine List.nodup_append.mpr ⟨ids, List.nodup_singleton _, ?_⟩
    intro left present right last
    obtain ⟨old, member, rfl⟩ := List.mem_map.mp present
    rw [List.mem_singleton.mp last]
    exact fresh old member

/-- A subscription whose id is taken has the id of another one. -/
theorem timerStep_clashes {handlers : Nat → Nat → δ → HandlerRun δ} {state after : TimerSystem × δ}
    {op : TimerOp} (taken : ¬NoneClashes state op)
    (steps : timerStep handlers state op = .ok after) (kept : List TimerEvent) : ¬DistinctIds after.1 kept := by
  intro ⟨moved, ids⟩
  obtain ⟨system, world⟩ := state
  cases op with
  | unsubscribe => exact taken trivial
  | interrupt => exact taken trivial
  | subscribe callback data intervalMs recurring =>
    obtain ⟨accepted, clash⟩ := not_or.mp taken
    simp only [not_forall, ne_eq, not_not] at clash
    obtain ⟨events, table, event, member, same⟩ := clash
    obtain ⟨changed, subscribes, appended, _⟩ := timerSubscribeEvent_appends table accepted data intervalMs recurring
    simp only [timerStep] at steps
    rw [subscribes] at steps
    cases steps
    rw [← appended.unique moved, List.map_append, List.map_singleton] at ids
    exact (List.nodup_append.mp ids).2.2 event.id (List.mem_map_of_mem member) _ (List.mem_singleton_self _) same

private theorem initial_held (system : TimerSystem) : TimerHeld (timerSystemInitialize system) [] := by
  refine ⟨⟨rfl, SlotList.holds_nil _⟩, List.nodup_nil, Nat.le_refl _, Nat.zero_le _, ?_, ?_⟩
  · intro serial inside
    cases inside
  · intro event member
    cases member

theorem always_exact_iff {handlers : Nat → Nat → δ → HandlerRun δ} (quiet : Quiet handlers) (system : TimerSystem)
    (world : δ) (ops : List TimerOp) :
    Runs.Always (timerStep handlers) (fun state => ∃ events, ExactIds state.1 events)
        (timerSystemInitialize system, world) ops ↔
      Runs.Meets (timerStep handlers) NoneEnded (timerSystemInitialize system, world) ops := by
  apply Runs.always_iff_meets fun state => ∃ events, TimerHeld state.1 events
  · intro state ⟨events, held⟩
    exact ⟨events, held.exactIds⟩
  · intro state op ⟨events, held⟩ active
    obtain ⟨after, kept, steps, holds⟩ := timerStep_held quiet held op active
    exact ⟨after, steps, kept, holds⟩
  · intro state op after ⟨events, held⟩ ended steps ⟨kept, exactIds⟩
    exact timerStep_repeats held ended steps kept exactIds
  · exact ⟨[], initial_held system⟩

theorem always_distinct_iff {handlers : Nat → Nat → δ → HandlerRun δ} (quiet : Quiet handlers) (system : TimerSystem)
    (world : δ) (ops : List TimerOp) :
    Runs.Always (timerStep handlers) (fun state => ∃ events, DistinctIds state.1 events)
        (timerSystemInitialize system, world) ops ↔
      Runs.Meets (timerStep handlers) NoneClashes (timerSystemInitialize system, world) ops := by
  apply Runs.always_iff_meets fun state => ∃ events, DistinctIds state.1 events
  · intro state distinct
    exact distinct
  · intro state op ⟨events, distinct⟩ apart
    obtain ⟨after, kept, steps, holds⟩ := timerStep_distinct quiet distinct op apart
    exact ⟨after, steps, kept, holds⟩
  · intro state op after _ taken steps ⟨kept, distinct⟩
    exact timerStep_clashes taken steps kept distinct
  · exact ⟨[], (initial_held system).table, List.nodup_nil⟩

/-- The ids are exact in all states of a run exactly when no subscription is made after
another one has ended; they are only distinct exactly when none is made whose id is taken. -/
theorem timer_ids_exact_iff (handlers : Nat → Nat → δ → HandlerRun δ) (quiet : Quiet handlers) (system : TimerSystem)
    (world : δ) (ops : List TimerOp) :
    (Runs.Always (timerStep handlers) (fun state => ∃ events, ExactIds state.1 events)
        (timerSystemInitialize system, world) ops ↔
      Runs.Meets (timerStep handlers) NoneEnded (timerSystemInitialize system, world) ops) ∧
    (Runs.Always (timerStep handlers) (fun state => ∃ events, DistinctIds state.1 events)
        (timerSystemInitialize system, world) ops ↔
      Runs.Meets (timerStep handlers) NoneClashes (timerSystemInitialize system, world) ops) :=
  ⟨always_exact_iff quiet system world ops, always_distinct_iff quiet system world ops⟩

/-- Handlers that do nothing. -/
def idleHandlers (_ _ : Nat) (world : Unit) : HandlerRun Unit := .done world

/-- `global_timer_system` at the start. -/
def freshTimer : TimerSystem := ⟨0, fun _ => ⟨0, 0, 0, 0, 0, 0, 0⟩, 0, []⟩

/-- Two subscriptions, the end of the first one, and a third subscription. -/
def overlappingOps : List TimerOp := [.subscribe 1 0 10 1, .subscribe 2 0 10 1, .unsubscribe 1, .subscribe 3 0 10 1]

theorem timer_ids_exact_iff_overlapping :
    (Runs.Always (timerStep idleHandlers) (fun state => ∃ events, ExactIds state.1 events)
        (timerSystemInitialize freshTimer, ()) overlappingOps ↔
      Runs.Meets (timerStep idleHandlers) NoneEnded (timerSystemInitialize freshTimer, ()) overlappingOps) ∧
    (Runs.Always (timerStep idleHandlers) (fun state => ∃ events, DistinctIds state.1 events)
        (timerSystemInitialize freshTimer, ()) overlappingOps ↔
      Runs.Meets (timerStep idleHandlers) NoneClashes (timerSystemInitialize freshTimer, ()) overlappingOps) :=
  timer_ids_exact_iff idleHandlers (fun _ _ world => ⟨world, rfl⟩) freshTimer () overlappingOps

/-- The third subscription gets the id of the second one, which is active. -/
theorem timer_ids_overlap :
    ¬Runs.Always (timerStep idleHandlers) (fun state => ∃ events, ExactIds state.1 events)
        (timerSystemInitialize freshTimer, ()) overlappingOps ∧
      ¬Runs.Always (timerStep idleHandlers) (fun state => ∃ events, DistinctIds state.1 events)
        (timerSystemInitialize freshTimer, ()) overlappingOps := by
  have quiet : Quiet idleHandlers := fun _ _ world => ⟨world, rfl⟩
  constructor
  · rw [always_exact_iff quiet]
    intro meets
    have third := (((meets.2 _ rfl).2 _ rfl).2 _ rfl).1
    revert third
    simp only [NoneEnded, Refused]
    decide
  · rw [always_distinct_iff quiet]
    intro meets
    have third := (((meets.2 _ rfl).2 _ rfl).2 _ rfl).1
    have apart := third.resolve_left (by decide) [⟨2, 2, 0, 3, 4, 1, 1⟩]
    refine apart ⟨rfl, by decide, ?_⟩ _ (List.mem_singleton_self _) rfl
    intro index inside
    obtain rfl : index = 0 := by simpa using inside
    rfl

end Kernix.Proofs
