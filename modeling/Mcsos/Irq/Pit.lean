import Mathlib.Logic.Function.Iterate
import Mcsos.Machine.Port

/-!
Contract: the rate of the timer. `pit_configure_hz` of
`kernel/arch/x86_64/pit.c` sets up channel 0 of the 8254 in whatever state it
is, and the channel then interrupts as often as was asked for or a little more
often, as far as the divisor can be had.
-/

namespace Mcsos.Irq

open Mcsos.Machine
open Mcsos.Machine.Prog

/-! ### The channel -/

/-- Which bytes of a count are written. -/
inductive PitAccess where
  | low
  | high
  | both
deriving DecidableEq, Repr

/-- `low` is the first byte of a count that takes two; without a count the
channel stands still. -/
structure PitChannel where
  access : PitAccess
  mode : UInt8
  bcd : Bool
  low : Option UInt8
  reload : Option UInt16
deriving DecidableEq, Repr

/-- The access that a control word asks for; none is the latch command. -/
def controlAccess (value : UInt8) : Option PitAccess :=
  if (value >>> 4) &&& 3 = 1 then some .low
  else if (value >>> 4) &&& 3 = 2 then some .high
  else if (value >>> 4) &&& 3 = 3 then some .both
  else none

namespace PitChannel

/-- A control word for this channel stops it until a count is written. -/
def control (channel : PitChannel) (value : UInt8) : PitChannel :=
  if value >>> 6 = 0 then
    match controlAccess value with
    | none => channel
    | some access =>
        ⟨access, (value >>> 1) &&& 7, value &&& 1 ≠ 0, none, none⟩
  else channel

/-- A byte of a count. -/
def count (channel : PitChannel) (value : UInt8) : PitChannel :=
  match channel.access, channel.low with
  | .low, _ => { channel with reload := some value.toUInt16 }
  | .high, _ => { channel with reload := some (value.toUInt16 <<< 8) }
  | .both, none => { channel with low := some value }
  | .both, some low =>
      { channel with
        low := none
        reload := some (low.toUInt16 ||| (value.toUInt16 <<< 8)) }

end PitChannel

def pitChannel0 : UInt16 := 0x40
def pitCommand : UInt16 := 0x43

instance : PortDevice PitChannel where
  answer _ _ := 0
  afterInb _ channel := channel
  afterOutb port value channel :=
    if port = pitCommand then channel.control value
    else if port = pitChannel0 then channel.count value
    else channel

/-! ### Configuration -/

def pitBaseFrequencyHz : UInt32 := 1193182

/-- The divisor of `pit_configure_hz`. -/
def pitDivisor (hz : UInt32) : UInt32 :=
  let hz := if hz = 0 then 100 else hz
  let divisor := pitBaseFrequencyHz / hz
  let divisor := if divisor = 0 then 1 else divisor
  if divisor > 0xFFFF then 0xFFFF else divisor

def pitConfigureHz (hz : UInt32) : PortProg PitChannel Unit := do
  let divisor := pitDivisor hz
  outb pitCommand 0x36
  outb pitChannel0 (divisor &&& 0xFF).toUInt8
  outb pitChannel0 ((divisor >>> 8) &&& 0xFF).toUInt8

end Mcsos.Irq
