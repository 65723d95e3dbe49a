import Mcsos.Log.Calls
import Mcsos.Machine.Port

/-!
The serial port: `kernel/core/serial.c`, driving a UART at COM1.

The UART is the registers that the code writes, what its line status register
answers at each read, and the bytes handed to the transmitter, each with the
settings of the line at that moment. The line status is not up to the code: it
may answer anything.
-/

namespace Mcsos.Serial

open Mcsos.Machine
open Mcsos.Machine.Prog
open Mcsos.Log

/-! ### The device -/

/-- A byte that is transmitted: the line control and the divisor of the baud
rate clock that it goes out with. -/
structure Frame where
  lineControl : UInt8
  divisorLow : UInt8
  divisorHigh : UInt8
  byte : UInt8
deriving DecidableEq, Repr

structure Uart where
  interruptEnable : UInt8
  fifoControl : UInt8
  lineControl : UInt8
  modemControl : UInt8
  divisorLow : UInt8
  divisorHigh : UInt8
  /-- What each read of the line status register answers. -/
  lineStatus : Nat → UInt8
  /-- How often it has been read. -/
  polls : Nat
  /-- What was handed to the transmitter, in order. -/
  frames : List Frame

def com1Port : UInt16 := 0x3F8

/-- The divisor latch takes the place of the first two registers. -/
def Uart.latched (uart : Uart) : Bool := uart.lineControl &&& 0x80 != 0

def Uart.transmit (uart : Uart) (byte : UInt8) : Uart :=
  { uart with
    frames := uart.frames ++
      [⟨uart.lineControl, uart.divisorLow, uart.divisorHigh, byte⟩] }

instance : PortDevice Uart where
  answer port uart := if port = com1Port + 5 then uart.lineStatus uart.polls else 0
  afterInb port uart :=
    if port = com1Port + 5 then { uart with polls := uart.polls + 1 } else uart
  afterOutb port value uart :=
    if port = com1Port then
      if uart.latched then { uart with divisorLow := value } else uart.transmit value
    else if port = com1Port + 1 then
      if uart.latched then { uart with divisorHigh := value }
      else { uart with interruptEnable := value }
    else if port = com1Port + 2 then { uart with fifoControl := value }
    else if port = com1Port + 3 then { uart with lineControl := value }
    else if port = com1Port + 4 then { uart with modemControl := value }
    else uart

abbrev UartProg : Type → Type := PortProg Uart

/-! ### Operations -/

def serialTimeoutLimit : Nat := 100000

def serialTransmitEmpty : UartProg Bool := do
  let status ← inb (com1Port + 5)
  pure (status &&& 0x20 != 0)

def serialInit : UartProg Unit := do
  outb (com1Port + 1) 0x00
  outb (com1Port + 3) 0x80
  outb (com1Port + 0) 0x03
  outb (com1Port + 1) 0x00
  outb (com1Port + 3) 0x03
  outb (com1Port + 2) 0xC7
  outb (com1Port + 4) 0x0B

/-- The `while` loop of `serial_putc` with so many rounds to go: whether it
ended because the transmitter is empty. -/
def awaitEmpty : Nat → UartProg Bool
  | 0 => pure false
  | rounds + 1 => do
      let ready ← serialTransmitEmpty
      if ready then pure true else awaitEmpty rounds

/-- `serial_putc` behind its first `if`. -/
def putByte (c : UInt8) : UartProg Unit := do
  let ready ← awaitEmpty serialTimeoutLimit
  if ready then outb com1Port c else pure ()

/-- `serial_putc`; the call of itself is with a carriage return, for which it
does not call itself again. -/
def serialPutc (c : UInt8) : UartProg Unit := do
  if c = 10 then putByte 13 else pure ()
  putByte c

/-- What an access of the log does to the port. -/
def driveOne : LogEvent → UartProg Unit
  | .serialInit => serialInit
  | .serialPutc char => serialPutc char
  | .storeLogReady _ | .storeBuf _ _ | .loadBuf _ => pure ()

/-- What a record of the log does to the port. -/
def drive : List LogEvent → UartProg Unit
  | [] => pure ()
  | event :: rest => do
      driveOne event
      drive rest

end Mcsos.Serial
