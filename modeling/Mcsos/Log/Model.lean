import Mcsos.Machine.Numeral
import Mcsos.Machine.Trace

/-!
Decimal output of the kernel log: `log_putc` and `log_dec64` of
`kernel/core/log.c`, and `log_dec_u32` of `kernel/core/panic.c`.

The state has the log's one variable and the array of the function that is
running; the array is a local one, so it may hold anything at first. The serial
port is where the calls of `serial_init` and `serial_putc` go.
-/

namespace Mcsos.Log

open Mcsos.Machine
open Mcsos.Machine.Prog

/-- `g_log_ready`, and `buf`. -/
structure LogWorld where
  logReady : Bool
  buf : Nat → UInt8

/-- An access of `g_log_ready` or `buf`, or a call that drives the port. -/
inductive LogEvent where
  | storeLogReady (value : Bool)
  | storeBuf (index : Nat) (char : UInt8)
  | loadBuf (index : Nat)
  | serialInit
  | serialPutc (char : UInt8)
deriving DecidableEq, Repr

def LogEvent.apply : LogEvent → LogWorld → LogWorld
  | .storeLogReady value, w => { w with logReady := value }
  | .storeBuf index char, w => { w with buf := Function.update w.buf index char }
  | .loadBuf _, w => w
  | .serialInit, w => w
  | .serialPutc _, w => w

instance : Event LogEvent LogWorld := ⟨LogEvent.apply⟩

abbrev LogProg := Prog LogEvent LogWorld

/-! ### Characters -/

/-- The `if` in front of every output. -/
def logPrepare : LogProg Unit := do
  let w ← get
  if w.logReady then
    pure ()
  else
    emit .serialInit
    emit (.storeLogReady true)

def logPutc (char : UInt8) : LogProg Unit := do
  logPrepare
  emit (.serialPutc char)

/-! ### Numbers -/

/-- `while (value != 0u && i < limit)`: a digit is stored and taken off the
value. The answer is what `i` and `value` are behind the loop. -/
def fillDigits (limit i value : Nat) : LogProg (Nat × Nat) :=
  if value ≠ 0 ∧ i < limit then do
    emit (.storeBuf i (digitByte (value % 10)))
    fillDigits limit (i + 1) (value / 10)
  else
    pure (i, value)
termination_by value
decreasing_by exact Nat.div_lt_self (by omega) (by decide)

/-- `while (i != 0u) { log_putc(buf[--i]); }` -/
def putDigits : Nat → LogProg Unit
  | 0 => pure ()
  | i + 1 => do
      emit (.loadBuf i)
      let w ← get
      logPutc (w.buf i)
      putDigits i

/-- A number in decimal, with room for `limit` digits. -/
def logDec (limit value : Nat) : LogProg Unit :=
  if value = 0 then
    logPutc (digitByte 0)
  else do
    let filled ← fillDigits limit 0 value
    putDigits filled.1

/-- The length of `buf` in `log_dec64`, whose loop stops one short of it. -/
def dec64Length : Nat := 21

def logDec64 (value : UInt64) : LogProg Unit := logDec 20 value.toNat

/-- `sizeof(buf)` in `log_dec_u32`. -/
def decU32Length : Nat := 11

def logDecU32 (value : UInt32) : LogProg Unit := logDec decU32Length value.toNat

end Mcsos.Log
