import Mathlib.Data.Finset.Insert
import Mathlib.Data.Fintype.Defs
import Mcsos.Machine.BitArray
import Mcsos.Machine.Port

/-!
The two interrupt controllers: the 8259A pair as it is wired in a PC, and
`kernel/arch/x86_64/pic.c`, which drives it.

A controller has eight lines, the lower ones first. It asks for an interrupt
while a line is requested that is not masked and comes before everything in
service. The second controller asks through line 2 of the first.
-/

namespace Mcsos.Irq

open Mcsos.Machine
open Mcsos.Machine.Prog

/-! ### One controller -/

/-- Numerals name lines. -/
scoped instance hasLines : NeZero 8 := ⟨by decide⟩

/-- Which initialization word the data port takes next. -/
inductive InitPhase where
  | done
  | icw2
  | icw3
  | icw4
deriving DecidableEq, Repr

structure Pic where
  phase : InitPhase
  icw1 : UInt8
  offset : UInt8
  cascade : UInt8
  mode : UInt8
  mask : UInt8
  requests : Finset (Fin 8)
  inService : Finset (Fin 8)
deriving DecidableEq

namespace Pic

def Masked (pic : Pic) (line : Fin 8) : Prop := pic.mask &&& bitMask line ≠ 0

instance (pic : Pic) (line : Fin 8) : Decidable (pic.Masked line) :=
  inferInstanceAs (Decidable (_ ≠ _))

/-- The line an interrupt is asked for. -/
def next (pic : Pic) : Option (Fin 8) :=
  (List.finRange 8).find? fun line =>
    line ∈ pic.requests ∧ ¬ pic.Masked line ∧ ∀ other ∈ pic.inService, line < other

/-- The interrupt is taken. -/
def acknowledge (pic : Pic) (line : Fin 8) : Pic :=
  { pic with
    requests := pic.requests.erase line
    inService := insert line pic.inService }

/-- The end of an interrupt, which one it is not said: the first one in
service. -/
def endOfInterrupt (pic : Pic) : Pic :=
  match (List.finRange 8).find? fun line => line ∈ pic.inService with
  | none => pic
  | some line => { pic with inService := pic.inService.erase line }

/-- The vector of a line. -/
def vector (pic : Pic) (line : Fin 8) : UInt8 := (pic.offset &&& 0xF8) + UInt8.ofNat line

/-- A write to the command port: the first initialization word, which clears
the mask and the requests it has latched, or the end of an interrupt. -/
def command (pic : Pic) (value : UInt8) : Pic :=
  if value &&& 0x10 ≠ 0 then
    { pic with phase := .icw2, icw1 := value, mask := 0, requests := ∅ }
  else if value = 0x20 then pic.endOfInterrupt
  else pic

/-- A write to the data port: the next initialization word or the mask. -/
def data (pic : Pic) (value : UInt8) : Pic :=
  match pic.phase with
  | .done => { pic with mask := value }
  | .icw2 =>
      { pic with
        offset := value
        phase :=
          if pic.icw1 &&& 0x02 = 0 then .icw3
          else if pic.icw1 &&& 0x01 = 0 then .done else .icw4 }
  | .icw3 =>
      { pic with
        cascade := value
        phase := if pic.icw1 &&& 0x01 = 0 then .done else .icw4 }
  | .icw4 => { pic with mode := value, phase := .done }

end Pic

/-! ### The pair -/

structure PicPair where
  master : Pic
  slave : Pic
deriving DecidableEq

/-- The line of the first controller that the second one is wired to. -/
def cascadeLine : Fin 8 := 2

namespace PicPair

/-- The first controller with what comes in on its lines. -/
def wired (pics : PicPair) : Pic :=
  { pics.master with
    requests :=
      if pics.slave.next.isSome then insert cascadeLine pics.master.requests
      else pics.master.requests.erase cascadeLine }

/-- The line of the first controller that an interrupt is asked for. -/
def next (pics : PicPair) : Option (Fin 8) := pics.wired.next

end PicPair

def pic1Command : UInt16 := 0x20
def pic1Data : UInt16 := 0x21
def pic2Command : UInt16 := 0xA0
def pic2Data : UInt16 := 0xA1

instance : PortDevice PicPair where
  answer port pics :=
    if port = pic1Data then pics.master.mask
    else if port = pic2Data then pics.slave.mask
    else 0
  afterInb _ pics := pics
  afterOutb port value pics :=
    if port = pic1Command then { pics with master := pics.master.command value }
    else if port = pic1Data then { pics with master := pics.master.data value }
    else if port = pic2Command then { pics with slave := pics.slave.command value }
    else if port = pic2Data then { pics with slave := pics.slave.data value }
    else pics

abbrev PicProg : Type → Type := PortProg PicPair

/-! ### Operations -/

def picEoi : UInt8 := 0x20

def ioWait : PicProg Unit := outb 0x80 0

def picRemap (masterOffset slaveOffset : UInt8) : PicProg Unit := do
  let masterMask ← inb pic1Data
  let slaveMask ← inb pic2Data
  outb pic1Command 0x11
  ioWait
  outb pic2Command 0x11
  ioWait
  outb pic1Data masterOffset
  ioWait
  outb pic2Data slaveOffset
  ioWait
  outb pic1Data 0x04
  ioWait
  outb pic2Data 0x02
  ioWait
  outb pic1Data 0x01
  ioWait
  outb pic2Data 0x01
  ioWait
  outb pic1Data masterMask
  outb pic2Data slaveMask

def picMaskAll : PicProg Unit := do
  outb pic1Data 0xFF
  outb pic2Data 0xFF

/-- The port and the line of `pic_unmask_irq`. -/
def unmaskTarget (irq : UInt8) : UInt16 × UInt8 :=
  if irq < 8 then (pic1Data, irq) else (pic2Data, irq - 8)

def picUnmaskIrq (irq : UInt8) : PicProg Unit := do
  let (port, line) := unmaskTarget irq
  let mask ← inb port
  outb port (mask &&& (~~~((1 : UInt32) <<< line.toUInt32)).toUInt8)

def picSendEoi (irq : UInt8) : PicProg Unit := do
  if irq ≥ 8 then outb pic2Command picEoi else pure ()
  outb pic1Command picEoi

def picReadMasterMask : PicProg UInt8 := inb pic1Data

def picReadSlaveMask : PicProg UInt8 := inb pic2Data

/-! ### What the operations do -/

section

variable (pics : PicPair) (value : UInt8)

@[simp] theorem outb_pic1Command : (outb pic1Command value : PicProg Unit).final pics =
    { pics with master := pics.master.command value } := rfl

@[simp] theorem outb_pic1Data : (outb pic1Data value : PicProg Unit).final pics =
    { pics with master := pics.master.data value } := rfl

@[simp] theorem outb_pic2Command : (outb pic2Command value : PicProg Unit).final pics =
    { pics with slave := pics.slave.command value } := rfl

@[simp] theorem outb_pic2Data : (outb pic2Data value : PicProg Unit).final pics =
    { pics with slave := pics.slave.data value } := rfl

@[simp] theorem inb_pic (port : UInt16) : (inb port : PicProg UInt8).final pics = pics := rfl

@[simp] theorem inb_pic1Data : (inb pic1Data : PicProg UInt8).result pics = pics.master.mask := rfl

@[simp] theorem inb_pic2Data : (inb pic2Data : PicProg UInt8).result pics = pics.slave.mask := rfl

end

theorem Pic.command_eoi (pic : Pic) : pic.command picEoi = pic.endOfInterrupt := rfl

theorem picSendEoi_final (irq : UInt8) (pics : PicPair) :
    (picSendEoi irq).final pics =
      ⟨pics.master.endOfInterrupt,
        if irq ≥ 8 then pics.slave.endOfInterrupt else pics.slave⟩ := by
  by_cases far : irq ≥ 8
  · simp only [picSendEoi, far, if_true, final_bind, outb_pic1Command, outb_pic2Command,
      Pic.command_eoi]
  · simp only [picSendEoi, far, if_false, outb_pic1Command, Pic.command_eoi]

/-- Nothing but the masks. -/
def Pic.withMask (pic : Pic) (mask : UInt8) : Pic := { pic with mask := mask }

theorem Pic.data_done {pic : Pic} (done : pic.phase = .done) (value : UInt8) :
    pic.data value = pic.withMask value := by
  simp only [Pic.data, done, Pic.withMask]

theorem picMaskAll_final {pics : PicPair} (master : pics.master.phase = .done)
    (slave : pics.slave.phase = .done) :
    picMaskAll.final pics = ⟨pics.master.withMask 0xFF, pics.slave.withMask 0xFF⟩ := by
  simp only [picMaskAll, final_bind, outb_pic1Data, outb_pic2Data, Pic.data_done master,
    Pic.data_done slave]

/-- The mask without the bit of a line. -/
def unmasked (mask : UInt8) (line : Fin 8) : UInt8 := mask &&& ~~~bitMask line

theorem unmask_shift (line : Fin 8) :
    (~~~((1 : UInt32) <<< (UInt8.ofNat line).toUInt32)).toUInt8 = ~~~bitMask line := by
  revert line
  decide

theorem unmask_shift_slave (line : Fin 8) :
    (~~~((1 : UInt32) <<< (UInt8.ofNat (8 + line) - 8).toUInt32)).toUInt8 = ~~~bitMask line := by
  revert line
  decide

theorem picUnmaskIrq_master (line : Fin 8) {pics : PicPair} (done : pics.master.phase = .done) :
    (picUnmaskIrq (UInt8.ofNat line)).final pics =
      { pics with master := pics.master.withMask (unmasked pics.master.mask line) } := by
  have near : UInt8.ofNat line < 8 := by
    revert line
    decide
  simp only [picUnmaskIrq, unmaskTarget, if_pos near, final_bind, inb_pic, inb_pic1Data,
    outb_pic1Data, Pic.data_done done, unmask_shift]
  rfl

theorem picUnmaskIrq_slave (line : Fin 8) {pics : PicPair} (done : pics.slave.phase = .done) :
    (picUnmaskIrq (UInt8.ofNat (8 + line))).final pics =
      { pics with slave := pics.slave.withMask (unmasked pics.slave.mask line) } := by
  have far : ¬ UInt8.ofNat (8 + line) < 8 := by
    revert line
    decide
  simp only [picUnmaskIrq, unmaskTarget, if_neg far, final_bind, inb_pic, inb_pic2Data,
    outb_pic2Data, Pic.data_done done, unmask_shift_slave]
  rfl

/-! ### Requests -/

theorem Pic.next_eq_some {pic : Pic} {line : Fin 8} (next : pic.next = some line) :
    line ∈ pic.requests ∧ ¬ pic.Masked line ∧ ∀ other ∈ pic.inService, line < other := by
  have found := List.find?_some next
  simpa using found

/-- With nothing in service any request that is not masked is asked for. -/
theorem Pic.next_isSome_iff {pic : Pic} (idle : pic.inService = ∅) :
    pic.next.isSome ↔ ∃ line ∈ pic.requests, ¬ pic.Masked line := by
  rw [Pic.next, List.find?_isSome]
  simp [idle]

/-- The interrupt that is taken from an idle controller is the one that is
ended. -/
theorem Pic.endOfInterrupt_acknowledge {pic : Pic} (idle : pic.inService = ∅) (line : Fin 8) :
    (pic.acknowledge line).endOfInterrupt = { pic with requests := pic.requests.erase line } := by
  have first : ∀ line : Fin 8,
      (List.finRange 8).find? (fun other => other ∈ ({line} : Finset (Fin 8))) = some line := by
    decide
  have single : (pic.acknowledge line).inService = {line} := by simp [Pic.acknowledge, idle]
  rw [Pic.endOfInterrupt, single, first line]
  simp [Pic.acknowledge, idle]

/-- The end of an interrupt that never was changes nothing. -/
theorem Pic.endOfInterrupt_idle {pic : Pic} (idle : pic.inService = ∅) :
    pic.endOfInterrupt = pic := by
  have none : (List.finRange 8).find? (fun line => line ∈ pic.inService) = none := by
    simp [idle]
  rw [Pic.endOfInterrupt, none]

end Mcsos.Irq
