import Kernix.Machine
import Mathlib.Data.List.FinRange
import Mathlib.Logic.Function.Basic

/-! The way from a device to its handler: the two interrupt controllers as `irq.c` programs
them, the gates of `idt.c`, the entries of `cpu_vectors.asm`, and what `isr.c` and
`cpu_faults.c` do behind them. A request that the controllers hold back waits outside. -/

namespace Kernix

section Controllers

/-- The words that a controller expects on its data port. -/
inductive PicStage where
  | icw2
  | icw3
  | icw4
  | ready
  deriving DecidableEq, Repr

/-- One of the controllers: eight lines, the first of them the most urgent. -/
structure Pic where
  stage : PicStage
  base : UInt8
  wiring : UInt8
  mask : UInt8
  inService : Fin 8 → Bool

def bitOf (byte : UInt8) (n : Fin 8) : Bool := byte.toBitVec.getLsbD n

abbrev eoiSignal : UInt8 := 0x20

/-- The first bit that is set is cleared. -/
def clearFirst (bits : Fin 8 → Bool) : Fin 8 → Bool :=
  match (List.finRange 8).find? bits with
  | none => bits
  | some n => Function.update bits n false

/-- A byte to the command port: a start of the initialisation, or an end of interrupt for
the most urgent line in service. The code sends no other. -/
def Pic.command (pic : Pic) (value : UInt8) : Pic :=
  if value &&& 0x10 ≠ 0 then { pic with stage := .icw2, mask := 0, inService := fun _ => false }
  else if value = eoiSignal then { pic with inService := clearFirst pic.inService }
  else pic

/-- A byte to the data port. -/
def Pic.data (pic : Pic) (value : UInt8) : Pic :=
  match pic.stage with
  | .icw2 => { pic with base := value &&& 0xF8, stage := .icw3 }
  | .icw3 => { pic with wiring := value, stage := .icw4 }
  | .icw4 => { pic with stage := .ready }
  | .ready => { pic with mask := value }

/-- A request on a line goes through unless the line is masked, or one at least as urgent is
in service. -/
def Pic.accepts (pic : Pic) (n : Fin 8) : Bool :=
  pic.stage = .ready && !bitOf pic.mask n && (List.finRange 8).all fun k => n < k || !pic.inService k

def Pic.serve (pic : Pic) (n : Fin 8) : Pic := { pic with inService := Function.update pic.inService n true }

/-- The line of the primary controller that the secondary one is wired to. -/
abbrev cascadeLine : Fin 8 := 2

/-- The same line, as the calls of `irq.c` number it. -/
abbrev cascadeIrq : Fin 16 := 2

structure Pics where
  primary : Pic
  secondary : Pic

/-- The controller that a line of the sixteen belongs to, and its number there. -/
def lineOf (n : Fin 16) : Bool × Fin 8 := (8 ≤ n.val, Fin.ofNat 8 n)

/-- The vector of a request that gets through, with the line in service. -/
def Pics.deliver (pics : Pics) (n : Fin 16) : Option (UInt8 × Pics) :=
  if (lineOf n).1 then
    if bitOf pics.primary.wiring cascadeLine && pics.secondary.wiring = UInt8.ofNat cascadeLine &&
        pics.secondary.accepts (lineOf n).2 && pics.primary.accepts cascadeLine then
      some (pics.secondary.base + UInt8.ofNat (lineOf n).2,
        ⟨pics.primary.serve cascadeLine, pics.secondary.serve (lineOf n).2⟩)
    else none
  else if pics.primary.accepts (lineOf n).2 then
    some (pics.primary.base + UInt8.ofNat (lineOf n).2, { pics with primary := pics.primary.serve (lineOf n).2 })
  else none

end Controllers

section Irq

def primaryPicCmd : UInt16 := 0x20
def primaryPicData : UInt16 := 0x21
def secondaryPicCmd : UInt16 := 0xA0
def secondaryPicData : UInt16 := 0xA1

def Pics.outb (pics : Pics) (port : UInt16) (value : UInt8) : Pics :=
  if port = primaryPicCmd then { pics with primary := pics.primary.command value }
  else if port = primaryPicData then { pics with primary := pics.primary.data value }
  else if port = secondaryPicCmd then { pics with secondary := pics.secondary.command value }
  else if port = secondaryPicData then { pics with secondary := pics.secondary.data value }
  else pics

def reprogramPic (pics : Pics) : Pics :=
  [(primaryPicCmd, 0x11), (secondaryPicCmd, 0x11), (primaryPicData, 0x20), (secondaryPicData, 0x28),
    (primaryPicData, 0x04), (secondaryPicData, 0x02), (primaryPicData, 0x01), (secondaryPicData, 0x01),
    (primaryPicData, 0xFF), (secondaryPicData, 0xFF)].foldl (fun pics out => pics.outb out.1 out.2) pics

def irqAck (pics : Pics) (num : UInt8) : Pics :=
  let pics := if 8 ≤ num then pics.outb secondaryPicCmd eoiSignal else pics
  pics.outb primaryPicCmd eoiSignal

/-- `1 << num`, for a line of one controller. -/
def oneBit (n : Fin 8) : UInt8 := 1 <<< UInt8.ofNat n

/-- The byte that `irq_set_mask` writes. -/
def maskedByte (current : UInt8) (n : Fin 8) (enable : Bool) : UInt8 :=
  if enable then current ||| oneBit n else current &&& ~~~oneBit n

/-- `irq_set_mask`, for a line that there is. -/
def irqSetMask (pics : Pics) (num : Fin 16) (enable : Bool) : Pics :=
  if num.val < 8 then pics.outb primaryPicData (maskedByte pics.primary.mask (lineOf num).2 enable)
  else pics.outb secondaryPicData (maskedByte pics.secondary.mask (lineOf num).2 enable)

end Irq

section Gates

/-- `idt_entry_t`. -/
structure IdtEntry where
  offsetLow : UInt16
  selector : UInt16
  ist : UInt8
  flags : UInt8
  offsetMid : UInt16
  offsetHigh : UInt32
  reserved : UInt32
  deriving DecidableEq, Repr

def IdtEntry.zero : IdtEntry := ⟨0, 0, 0, 0, 0, 0, 0⟩

abbrev Idt := UInt8 → IdtEntry

def idtSetGate (idt : Idt) (num : UInt8) (handler : UInt64) (flags : UInt8) : Idt :=
  Function.update idt num
    { offsetLow := (handler &&& 0xFFFF).toUInt16
      selector := 0x08
      ist := 0
      flags := flags
      offsetMid := ((handler >>> 16) &&& 0xFFFF).toUInt16
      offsetHigh := ((handler >>> 32) &&& 0xFFFFFFFF).toUInt32
      reserved := 0 }

def idtFlagPresent : UInt8 := 0x80
def idtFlagRing0 : UInt8 := 0x00
def idtFlagGateInt : UInt8 := 0x0E

/-- Where the processor goes on when it takes a vector; without a present gate it does not. -/
def IdtEntry.target (entry : IdtEntry) : Option UInt64 :=
  if entry.flags &&& idtFlagPresent ≠ 0 then
    some (entry.offsetLow.toUInt64 ||| entry.offsetMid.toUInt64 <<< 16 ||| entry.offsetHigh.toUInt64 <<< 32)
  else none

abbrev exceptionVectorsCount : Nat := 32

/-- The addresses of the entries of `cpu_vectors.asm`: the exceptions, and behind them the
hardware interrupts. Each pushes its own number. -/
structure EntryPoints where
  address : Fin 48 → UInt64
  injective : Function.Injective address

/-- The number that the entry at an address pushes. -/
def EntryPoints.pushes (points : EntryPoints) (address : UInt64) : Option UInt8 :=
  ((List.finRange 48).find? fun n => points.address n = address).map fun n => UInt8.ofNat n

/-- `isr_install`, over the gates. -/
def isrInstall (points : EntryPoints) (idt : Idt) : Idt :=
  (List.finRange 32).foldl (fun idt (n : Fin 32) => idtSetGate idt (UInt8.ofNat n) (points.address (n.castAdd 16)) 0) idt

/-- The gates of `irq_install`. -/
def irqGates (points : EntryPoints) (idt : Idt) : Idt :=
  (List.finRange 16).foldl (fun idt (n : Fin 16) => idtSetGate idt (UInt8.ofNat (32 + n)) (points.address (n.natAdd 32))
    (idtFlagPresent ||| idtFlagRing0 ||| idtFlagGateInt)) idt

end Gates

section Dispatch

/-- What an interrupt ends up calling. -/
inductive InterruptCall where
  | callback (routine : Nat)
  | timerHandleInterrupt
  | keyboardInterruptHandler
  | mouseInterruptHandler
  | nothing
  | initiateFaultPanic (name : Option String)
  deriving DecidableEq, Repr

/-- The names of `fault_table`; the others are `NULL`. -/
def faultName (faultCode : Nat) : Option String :=
  ["Division By Zero", "Page Fault", "General Protection Fault", "Unknown Fault"][faultCode]?

def handleCpuInterrupt (faultCode : UInt8) : InterruptCall :=
  if faultCode < 32 then .initiateFaultPanic (faultName faultCode.toNat)
  else if 32 ≤ faultCode ∧ faultCode < 48 then
    match (faultCode - 32).toNat with
    | 0 => .timerHandleInterrupt
    | 1 => .keyboardInterruptHandler
    | 12 => .mouseInterruptHandler
    | _ => .nothing
  else .initiateFaultPanic (some "Unknown Fault")

/-- The static variables of `irq.c`, `isr.c` and `idt.c`, with those of the handlers that
decide whether they end the interrupt: the ticks of the timer and the cycle of the mouse. -/
structure InterruptSystem where
  pics : Pics
  idt : Idt
  handlersArray : Fin 16 → Option Nat
  systemReady : Bool
  vectorCallbacks : Fin exceptionVectorsCount → Option Nat
  totalTicks : Nat
  mouseCycle : Nat

/-- `exception_processor`, which `common_interrupt_routine` calls for all entries. -/
def exceptionProcessor (system : InterruptSystem) (vectorId : UInt8) : InterruptCall :=
  if exception : vectorId.toNat < exceptionVectorsCount then
    match system.vectorCallbacks ⟨vectorId.toNat, exception⟩ with
    | some routine => .callback routine
    | none => handleCpuInterrupt vectorId
  else handleCpuInterrupt vectorId

/-- `interrupt_processor`, which no entry calls. -/
def interruptProcessor (system : InterruptSystem) (intNo : UInt8) : Option Nat × InterruptSystem :=
  if !system.systemReady then (none, system)
  else
    let interruptNum := intNo - 32
    let routine := if known : interruptNum.toNat < 16 then system.handlersArray ⟨interruptNum.toNat, known⟩ else none
    (routine, { system with pics := irqAck system.pics interruptNum })

def irqRegisterHandler (system : InterruptSystem) (num : Fin 16) (routine : Nat) : InterruptSystem :=
  { system with handlersArray := Function.update system.handlersArray num (some routine)
                pics := irqSetMask system.pics num false }

def irqUnregisterHandler (system : InterruptSystem) (num : Fin 16) : InterruptSystem :=
  { system with handlersArray := Function.update system.handlersArray num none
                pics := irqSetMask system.pics num true }

def irqInstall (points : EntryPoints) (system : InterruptSystem) : InterruptSystem :=
  { system with
    handlersArray := fun _ => none
    idt := irqGates points system.idt
    pics := [0, 1, 12, 2].foldl (fun pics num => irqSetMask pics num false) (reprogramPic system.pics)
    systemReady := true }

def idtInit (points : EntryPoints) (system : InterruptSystem) : InterruptSystem :=
  irqInstall points { system with idt := isrInstall points fun _ => .zero, vectorCallbacks := fun _ => none }

/-- What the handler does to the controllers. The mouse sends the byte `b`, if `status` says
that it is one of the mouse's. -/
def runCall (system : InterruptSystem) (status b : UInt8) : InterruptCall → InterruptSystem
  | .timerHandleInterrupt =>
    if system.totalTicks = 0 then system
    else
      { system with totalTicks := u64 (system.totalTicks + 1), pics := system.pics.outb primaryPicCmd eoiSignal }
  | .keyboardInterruptHandler => { system with pics := system.pics.outb primaryPicCmd eoiSignal }
  | .mouseInterruptHandler =>
    if status &&& 0x20 = 0 then system
    else if system.mouseCycle = 0 ∧ b &&& 0x08 = 0 then system
    else { system with mouseCycle := (system.mouseCycle + 1) % 3, pics := irqAck system.pics 12 }
  | _ => system

/-- The processor takes a vector, and comes back from it. -/
def takeVector (points : EntryPoints) (system : InterruptSystem) (vector status b : UInt8) :
    Option InterruptCall × InterruptSystem :=
  match (system.idt vector).target.bind points.pushes with
  | none => (none, system)
  | some number =>
    let call := exceptionProcessor system number
    (some call, runCall system status b call)

/-- A device requests an interrupt. -/
def request (points : EntryPoints) (system : InterruptSystem) (n : Fin 16) (status b : UInt8) :
    Option InterruptCall × InterruptSystem :=
  match system.pics.deliver n with
  | none => (none, system)
  | some (vector, pics) => takeVector points { system with pics } vector status b

end Dispatch

end Kernix
