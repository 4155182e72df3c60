import Kernix.Common.Array

/-! The subscriptions of `timer.c` and its clock. A handler is code outside of the timer:
a run of it calls the timer a number of times and changes its own world. -/

namespace Kernix

/-- `MAX_EVENT_SUBSCRIBERS`. -/
abbrev maxEventSubscribers : Nat := 16

structure TimerEvent where
  id : Nat
  handler : Nat
  userData : Nat
  intervalTicks : Nat
  nextTrigger : Nat
  recurring : Int
  /-- Not in the code: which subscription the event is, in the order they were made. -/
  serial : Nat
  deriving DecidableEq, Repr

structure TimerSystem where
  totalTicks : Nat
  subscribers : Fin maxEventSubscribers → TimerEvent
  subscriberCount : Int
  /-- Not in the code: the number that each subscription was answered with. -/
  issued : List Int

def timerSystemInitialize (system : TimerSystem) : TimerSystem :=
  { system with subscriberCount := 0, totalTicks := 1, issued := [] }

/-- The loop over `subscribers[j] = subscribers[j + 1]`. -/
def shiftSubscribers (subscribers : Fin maxEventSubscribers → TimerEvent) :
    Nat → Int → Except Stop (Fin maxEventSubscribers → TimerEvent)
  | 0, _ => .ok subscribers
  | left + 1, j => do
    let next ← elementAt subscribers (j + 1)
    let subscribers ← setElement subscribers j next
    shiftSubscribers subscribers left (j + 1)

def removeSubscriber (system : TimerSystem) (i : Int) : Except Stop TimerSystem := do
  let subscribers ← shiftSubscribers system.subscribers (system.subscriberCount - 1 - i).toNat i
  return { system with subscribers, subscriberCount := system.subscriberCount - 1 }

/-- The event that a subscription puts behind the others. -/
def subscribedEvent (system : TimerSystem) (callback data intervalMs : Nat) (recurring : Int) : TimerEvent :=
  let intervalTicks := u64 (intervalMs * 300) / 1000
  { id := u64OfInt (system.subscriberCount + 1), handler := callback, userData := data, intervalTicks,
    nextTrigger := u64 (system.totalTicks + intervalTicks), recurring, serial := system.issued.length }

/-- A subscription is refused without a callback, and when the table is full. -/
def Refused (system : TimerSystem) (callback : Nat) : Prop :=
  callback = 0 ∨ (maxEventSubscribers : Int) ≤ system.subscriberCount

instance (system : TimerSystem) (callback : Nat) : Decidable (Refused system callback) :=
  inferInstanceAs (Decidable (_ ∨ _))

def timerSubscribeEvent (system : TimerSystem) (callback data intervalMs : Nat) (recurring : Int) :
    Except Stop (Int × TimerSystem) := do
  if Refused system callback then return (-1, system)
  let event := subscribedEvent system callback data intervalMs recurring
  let subscribers ← setElement system.subscribers system.subscriberCount event
  let issued := system.issued ++ [i32 event.id]
  return (i32 event.id, { system with subscribers, subscriberCount := system.subscriberCount + 1, issued })

/-- The search of `timer_unsubscribe_event`, `left` slots from `i` on. -/
def findSubscriber (subscribers : Fin maxEventSubscribers → TimerEvent) (subscriptionId : Int) :
    Nat → Int → Except Stop (Option Int)
  | 0, _ => .ok none
  | left + 1, i => do
    let event ← elementAt subscribers i
    if i32 event.id = subscriptionId then return some i
    findSubscriber subscribers subscriptionId left (i + 1)

def timerUnsubscribeEvent (system : TimerSystem) (subscriptionId : Int) : Except Stop TimerSystem := do
  match ← findSubscriber system.subscribers subscriptionId system.subscriberCount.toNat 0 with
  | none => return system
  | some i => removeSubscriber system i

/-- What a handler does: calls of the timer, and in the end a world of its own. -/
inductive HandlerRun (δ : Type) where
  | done (world : δ)
  | subscribe (callback data intervalMs : Nat) (recurring : Int) (next : Int → HandlerRun δ)
  | unsubscribe (subscriptionId : Int) (next : HandlerRun δ)

/-- What happens to the subscriptions in a pass. -/
inductive TimerNote where
  | called (event : TimerEvent)
  | subscribed (event : TimerEvent)
  | unsubscribed (event : TimerEvent)
  deriving DecidableEq, Repr

variable {δ : Type}

def runHandler : HandlerRun δ → TimerSystem → Except Stop (List TimerNote × TimerSystem × δ)
  | .done world, system => .ok ([], system, world)
  | .subscribe callback data intervalMs recurring next, system => do
    let (ret, after) ← timerSubscribeEvent system callback data intervalMs recurring
    let (notes, final, world) ← runHandler (next ret) after
    if Refused system callback then return (notes, final, world)
    return (.subscribed (subscribedEvent system callback data intervalMs recurring) :: notes, final, world)
  | .unsubscribe subscriptionId next, system => do
    let found ← findSubscriber system.subscribers subscriptionId system.subscriberCount.toNat 0
    let after ← timerUnsubscribeEvent system subscriptionId
    let (notes, final, world) ← runHandler next after
    match found with
    | none => return (notes, final, world)
    | some i =>
      let event ← elementAt system.subscribers i
      return (.unsubscribed event :: notes, final, world)

/-- `if (event->handler) event->handler(event->user_data);` -/
def callHandler (handlers : Nat → Nat → δ → HandlerRun δ) (event : TimerEvent) (system : TimerSystem) (world : δ) :
    Except Stop (List TimerNote × TimerSystem × δ) := do
  if event.handler = 0 then return ([], system, world)
  let (notes, system, world) ← runHandler (handlers event.handler event.userData world) system
  return (.called event :: notes, system, world)

/-- What follows the call: the slot is read again, and its event gets its next time or
goes away. The slot that the loop looks at next comes with the result. -/
def settleSlot (system : TimerSystem) (i : Int) : Except Stop (Int × TimerSystem) := do
  let event ← elementAt system.subscribers i
  if event.recurring ≠ 0 then
    let subscribers ← setElement system.subscribers i
      { event with nextTrigger := u64 (system.totalTicks + event.intervalTicks) }
    return (i + 1, { system with subscribers })
  let system ← removeSubscriber system i
  return (i, system)

/-- The loop of the interrupt. Handlers that subscribe more and more events which are
due at once keep it from ending. -/
def interruptLoop (handlers : Nat → Nat → δ → HandlerRun δ) :
    Nat → Int → TimerSystem → δ → Except Stop (List TimerNote × TimerSystem × δ)
  | 0, _, _, _ => .error .halted
  | fuel + 1, i, system, world => do
    if i < system.subscriberCount then
      let event ← elementAt system.subscribers i
      if event.nextTrigger ≤ system.totalTicks then
        let (notes, system, world) ← callHandler handlers event system world
        let (i, system) ← settleSlot system i
        let (rest, system, world) ← interruptLoop handlers fuel i system world
        return (notes ++ rest, system, world)
      else interruptLoop handlers fuel (i + 1) system world
    else return ([], system, world)

def timerHandleInterrupt (handlers : Nat → Nat → δ → HandlerRun δ) (fuel : Nat) (system : TimerSystem) (world : δ) :
    Except Stop (List TimerNote × TimerSystem × δ) :=
  if system.totalTicks = 0 then .ok ([], system, world)
  else interruptLoop handlers fuel 0 { system with totalTicks := u64 (system.totalTicks + 1) } world

/-- `TIMER_BASE_FREQUENCY`. -/
abbrev timerBaseFrequency : Nat := 1193182

/-- `global_timer_system` with its boot time, and the divisor that the chip was given. -/
structure TimerClock where
  system : TimerSystem
  bootTimeTicks : Nat
  divisor : Nat

/-- `timer_system_initialize`, with what it writes to the ports `0x43` and `0x40`. -/
def timerClockInitialize (clock : TimerClock) (targetFrequency : Nat) : TimerClock :=
  let targetFrequency := if targetFrequency = 0 ∨ timerBaseFrequency < targetFrequency then 300 else targetFrequency
  let divisor := timerBaseFrequency / targetFrequency
  let divisor := if divisor < 1 then 1 else divisor
  let divisor := if 65535 < divisor then 65535 else divisor
  { system := timerSystemInitialize clock.system, bootTimeTicks := 0, divisor }

def timerCalculateElapsedSeconds (system : TimerSystem) : Nat :=
  if system.totalTicks = 0 then 0 else system.totalTicks / 300

def timerCalculateElapsedMilliseconds (system : TimerSystem) : Nat :=
  if system.totalTicks = 0 then 0 else u64 (system.totalTicks * 1000) / 300

def timerRecordBootTimestamp (clock : TimerClock) : TimerClock :=
  { clock with bootTimeTicks := clock.system.totalTicks }

def timerGetSystemUptimeSeconds (clock : TimerClock) : Nat :=
  if clock.system.totalTicks = 0 then 0 else u64Sub clock.system.totalTicks clock.bootTimeTicks / 300

end Kernix
