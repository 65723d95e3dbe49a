import Mcsos.Machine.Trace

/-!
Owns programs that drive a device through I/O ports. A device says what a read
of a port answers and what reads and writes do to it; a program reads and
writes ports one access after the other.

It does not own any particular device.
-/

namespace Mcsos.Machine

/-- A device behind I/O ports. -/
class PortDevice (σ : Type) where
  answer : UInt16 → σ → UInt8
  afterInb : UInt16 → σ → σ
  afterOutb : UInt16 → UInt8 → σ → σ

/-- One access of a port of a device of type `σ`. -/
inductive PortAccess (σ : Type) where
  | inb (port : UInt16)
  | outb (port : UInt16) (value : UInt8)
deriving DecidableEq, Repr

variable {σ : Type} [PortDevice σ]

def PortAccess.apply : PortAccess σ → σ → σ
  | .inb port, device => PortDevice.afterInb port device
  | .outb port value, device => PortDevice.afterOutb port value device

instance : Event (PortAccess σ) σ := ⟨PortAccess.apply⟩

abbrev PortProg (σ : Type) : Type → Type := Prog (PortAccess σ) σ

open Prog

def inb (port : UInt16) : PortProg σ UInt8 := do
  let device ← get
  emit (.inb port)
  pure (PortDevice.answer port device)

def outb (port : UInt16) (value : UInt8) : PortProg σ Unit := emit (.outb port value)

@[simp] theorem inb_result (port : UInt16) (device : σ) :
    (inb port : PortProg σ UInt8).result device = PortDevice.answer port device := rfl

@[simp] theorem inb_final (port : UInt16) (device : σ) :
    (inb port : PortProg σ UInt8).final device = PortDevice.afterInb port device := rfl

@[simp] theorem outb_final (port : UInt16) (value : UInt8) (device : σ) :
    (outb port value : PortProg σ Unit).final device = PortDevice.afterOutb port value device := rfl

end Mcsos.Machine
