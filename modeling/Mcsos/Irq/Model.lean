import Mcsos.Irq.Pic
import Mcsos.Log.Calls
import Mcsos.Machine.Part
import Mcsos.Trap.Model

/-!
Interrupt handling behind the entry stubs: `kernel/core/trap.c`, and
`timer_on_irq0` of `kernel/arch/x86_64/pit.c`.

A frame is what a stub leaves on the stack; `isr_common` passes the stack
pointer, so it is never null.
-/

namespace Mcsos.Irq

open Mcsos.Machine
open Mcsos.Machine.Prog
open Mcsos.Log

/-- The static variables of the handlers, the log and the controllers. -/
structure TrapWorld where
  log : LogWorld
  pics : PicPair
  trapCount : UInt64
  ticks : UInt64

inductive TrapEvent where
  | log (event : LogEvent)
  | port (access : PortAccess PicPair)
  | storeTrapCount (value : UInt64)
  | storeTicks (value : UInt64)

def TrapEvent.apply : TrapEvent → TrapWorld → TrapWorld
  | .log event, w => { w with log := Event.apply event w.log }
  | .port access, w => { w with pics := Event.apply access w.pics }
  | .storeTrapCount value, w => { w with trapCount := value }
  | .storeTicks value, w => { w with ticks := value }

instance : Event TrapEvent TrapWorld := ⟨TrapEvent.apply⟩

abbrev TrapProg : Type → Type := Prog TrapEvent TrapWorld

/-- The log is a part of the world. -/
def logPart : Part LogEvent LogWorld TrapEvent TrapWorld := ⟨TrapWorld.log, .log, fun _ _ => rfl⟩

/-- And so are the controllers. -/
def picPart : Part (PortAccess PicPair) PicPair TrapEvent TrapWorld :=
  ⟨TrapWorld.pics, .port, fun _ _ => rfl⟩

def logs (calls : List LogCall) : TrapProg Unit := logPart.lift (logCalls calls)

/-! ### The timer -/

/-- The line of `timer_on_irq0`. -/
def tickCalls (ticks : UInt64) : List LogCall :=
  [.write (text "[MCSOS:TIMER] ticks="), .dec64 ticks, .writeln (text "")]

def timerOnIrq0 : TrapProg Unit := do
  let w ← get
  emit (.storeTicks (w.ticks + 1))
  let w ← get
  if w.ticks % 100 = 0 then logs (tickCalls w.ticks) else pure ()

def timerTicks (w : TrapWorld) : UInt64 := w.ticks

/-! ### Traps -/

def exceptionNames : Vector String 32 :=
  #v["#DE Divide Error", "#DB Debug", "NMI Interrupt", "#BP Breakpoint",
    "#OF Overflow", "#BR Bound Range Exceeded", "#UD Invalid Opcode",
    "#NM Device Not Available", "#DF Double Fault",
    "Coprocessor Segment Overrun", "#TS Invalid TSS",
    "#NP Segment Not Present", "#SS Stack Segment Fault",
    "#GP General Protection Fault", "#PF Page Fault", "Reserved",
    "#MF x87 Floating-Point Exception", "#AC Alignment Check",
    "#MC Machine Check", "#XM SIMD Floating-Point Exception",
    "#VE Virtualization Exception", "#CP Control Protection Exception",
    "Reserved", "Reserved", "Reserved", "Reserved", "Reserved", "Reserved",
    "#HV Hypervisor Injection Exception", "#VC VMM Communication Exception",
    "#SX Security Exception", "Reserved"]

def trapName (vector : UInt64) : List UInt8 :=
  if inside : vector.toNat < 32 then text exceptionNames[vector.toNat] else text "external-irq"

/-- The calls of `log_trap_frame`. -/
def logTrapFrame (frame : Trap.X8664TrapFrame) : List LogCall :=
  [.keyValueHex64 (text "trap_vector") frame.vector,
    .keyValueHex64 (text "trap_error") frame.errorCode,
    .keyValueHex64 (text "trap_rip") frame.rip,
    .keyValueHex64 (text "trap_cs") frame.cs,
    .keyValueHex64 (text "trap_rflags") frame.rflags]

/-- How `x86_64_trap_dispatch` ends: it returns, or calls `kernel_panic_at`,
which does not. -/
inductive TrapOutcome where
  | returns
  | panics (reason : List UInt8) (code : UInt64)
deriving DecidableEq

/-- The line for an interrupt that is not the timer's. -/
def unexpectedCalls (irq : UInt8) : List LogCall :=
  [.write (text "[M5] unexpected irq="), .dec64 irq.toUInt64, .writeln (text "")]

/-- The path for a vector from 0x20 to 0x2F. -/
def irqDispatch (irq : UInt8) : TrapProg Unit := do
  if irq = 0 then timerOnIrq0 else logs (unexpectedCalls irq)
  picPart.lift (picSendEoi irq)

/-- The path for any other vector. -/
def exceptionDispatch (frame : Trap.X8664TrapFrame) : TrapProg TrapOutcome := do
  logs ([.write (text "[M5] trap: "), .writeln (trapName frame.vector)] ++ logTrapFrame frame)
  if frame.vector = 3 then
    logs [.writeln (text "[M5] breakpoint handled; returning")]
    pure .returns
  else
    pure (.panics (text "unrecoverable CPU exception") frame.vector)

def picMasterOffset : UInt8 := 0x20

def picSlaveOffset : UInt8 := 0x28

def x8664TrapDispatch (frame : Trap.X8664TrapFrame) : TrapProg TrapOutcome := do
  let w ← get
  emit (.storeTrapCount (w.trapCount + 1))
  if frame.vector ≥ picMasterOffset.toUInt64 ∧ frame.vector < picSlaveOffset.toUInt64 + 8 then
    irqDispatch (frame.vector - picMasterOffset.toUInt64).toUInt8
    pure .returns
  else
    exceptionDispatch frame

end Mcsos.Irq
