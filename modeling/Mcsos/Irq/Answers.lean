import Mcsos.Irq.Service
import Mcsos.Trap.Gates
import Mcsos.Trap.Transparency

/-!
Contract: what becomes of any vector once the table is loaded. The processor
finds the gate, the stub hands a frame to `x86_64_trap_dispatch`, and that
returns or panics. A vector without a gate comes back as a general protection
fault that names it.
-/

namespace Mcsos.Irq

open Mcsos.Machine
open Mcsos.Machine.Prog
open Mcsos.Log
open Mcsos.Trap

/-! ### Exceptions -/

/-- Numerals name stubs. -/
scoped instance hasStubs : NeZero 48 := ⟨by decide⟩

/-- The vector that a fault has itself. -/
def faultVector : GateFault → UInt8
  | .generalProtection => 13
  | .notPresent => 11

/-- The gate that an interrupt goes through in the end, with the error code that
is pushed: a vector that has none faults, and the error code names it. -/
def answer (memory : Nat → UInt8) (idtr : X8664Idtr) (vector : UInt8) (errorCode : UInt64) :
    Option (UInt8 × UInt64 × Gate) :=
  match gateFor memory idtr vector with
  | .ok gate => some (vector, errorCode, gate)
  | .error fault =>
      match gateFor memory idtr (faultVector fault) with
      | .ok gate => some (faultVector fault, 8 * vector.toUInt64 + 2, gate)
      | .error _ => none

/-- The stub that a vector ends up in, and the error code there. -/
def entered (vector : UInt8) (errorCode : UInt64) : Fin 48 × UInt64 :=
  if stub : vector.toNat < 48 then (⟨vector.toNat, stub⟩, errorCode)
  else (13, 8 * vector.toUInt64 + 2)

-- The vector of `int 0x80` comes back as a fault that names it.
example : entered 0x80 0 = (13, 0x402) := by decide

end Mcsos.Irq
