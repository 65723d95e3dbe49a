import Mathlib.Data.Fintype.Basic
import Mcsos.Irq.Model

/-!
Owns the way of a request through the controllers: how a device raises a line,
what the processor is given when it acknowledges, and what is left when
`pic_send_eoi` has been called for the vector. From controllers with nothing in
service an interrupt and its end take one request away and nothing else.
-/

namespace Mcsos.Irq

open Mcsos.Machine
open Mcsos.Machine.Prog

/-! ### Lines -/

/-- A line of the first or of the second controller. -/
inductive IrqLine where
  | near (line : Fin 8)
  | far (line : Fin 8)
deriving DecidableEq

namespace IrqLine

/-- The number that the kernel knows the line by. -/
def number : IrqLine → UInt8
  | near line => UInt8.ofNat line
  | far line => UInt8.ofNat (8 + line)

def vector (irq : IrqLine) : UInt8 := picMasterOffset + irq.number

/-- The timer. -/
def timer : IrqLine := near 0

/-- The order in which lines are served: those of the second controller stand
in the place of the line it is wired to. -/
def rank : IrqLine → Nat
  | near line => 8 * line.val
  | far line => 8 * cascadeLine.val + line.val

end IrqLine

/-- What the processor finds when it acknowledges an interrupt: a request, or
none any more at the first or at the second controller, which then answers with
its last line and has nothing in service. -/
inductive Delivery where
  | requested
  | spuriousMaster
  | spuriousSlave
deriving DecidableEq

namespace PicPair

/-- A device raises its line. The cascade is no device's. -/
def raise (pics : PicPair) : IrqLine → PicPair
  | .near line =>
      if line = cascadeLine then pics
      else { pics with
        master := { pics.master with requests := insert line pics.master.requests } }
  | .far line =>
      { pics with slave := { pics.slave with requests := insert line pics.slave.requests } }

/-- The request of a line goes, taken or not. -/
def withdraw (pics : PicPair) : IrqLine → PicPair
  | .near line =>
      { pics with master := { pics.master with requests := pics.master.requests.erase line } }
  | .far line =>
      { pics with slave := { pics.slave with requests := pics.slave.requests.erase line } }

/-- A request that no mask is in the way of. -/
def Pending (pics : PicPair) : IrqLine → Prop
  | .near line =>
      line ≠ cascadeLine ∧ line ∈ pics.master.requests ∧ ¬ pics.master.Masked line
  | .far line =>
      line ∈ pics.slave.requests ∧ ¬ pics.slave.Masked line ∧ ¬ pics.master.Masked cascadeLine

/-- The controllers after the acknowledge cycle, and the vector. -/
def accept (pics : PicPair) : Delivery → Option (PicPair × UInt8)
  | .requested =>
      match pics.next with
      | none => none
      | some line =>
          if line = cascadeLine then
            match pics.slave.next with
            | none => none
            | some far =>
                some (⟨pics.master.acknowledge cascadeLine, pics.slave.acknowledge far⟩,
                  pics.slave.vector far)
          else some ({ pics with master := pics.master.acknowledge line }, pics.master.vector line)
  | .spuriousMaster => some (pics, pics.master.vector 7)
  | .spuriousSlave =>
      if ¬ pics.master.Masked cascadeLine ∧ ∀ other ∈ pics.master.inService, cascadeLine < other then
        some ({ pics with master := pics.master.acknowledge cascadeLine }, pics.slave.vector 7)
      else none

/-- The controllers after `pic_send_eoi` for a vector. -/
def settle (pics : PicPair) (vector : UInt8) : PicPair :=
  (picSendEoi (vector - picMasterOffset)).final pics

/-- Set up as the kernel does it, with nothing in service. -/
structure Quiet (pics : PicPair) : Prop where
  masterDone : pics.master.phase = .done
  slaveDone : pics.slave.phase = .done
  masterOffset : pics.master.offset = picMasterOffset
  slaveOffset : pics.slave.offset = picSlaveOffset
  masterIdle : pics.master.inService = ∅
  slaveIdle : pics.slave.inService = ∅

/-- What is left of a request that was served: the cascade's is gone as well. -/
def served (pics : PicPair) : IrqLine → PicPair
  | .near line => pics.withdraw (.near line)
  | .far line => (pics.withdraw (.near cascadeLine)).withdraw (.far line)

end PicPair

/-! ### Vectors -/

/-- A vector of the controllers. -/
def External (vector : UInt8) : Prop := picMasterOffset ≤ vector ∧ vector < picSlaveOffset + 8

instance (vector : UInt8) : Decidable (External vector) := inferInstanceAs (Decidable (_ ∧ _))

theorem IrqLine.vector_external (irq : IrqLine) : External irq.vector := by
  cases irq with
  | near line =>
      revert line
      decide
  | far line =>
      revert line
      decide

theorem IrqLine.vector_eq_timer {irq : IrqLine} :
    irq.vector = picMasterOffset ↔ irq = .timer := by
  cases irq with
  | near line =>
      revert line
      decide
  | far line =>
      revert line
      decide

/-- The number is found again, and tells which controllers are to hear of the
end. -/
theorem near_vector (line : Fin 8) : ¬ (IrqLine.near line).vector - picMasterOffset ≥ 8 := by
  revert line
  decide

theorem far_vector (line : Fin 8) : (IrqLine.far line).vector - picMasterOffset ≥ 8 := by
  revert line
  decide

section

variable {pics : PicPair}

theorem PicPair.Quiet.master_vector (quiet : pics.Quiet) (line : Fin 8) :
    pics.master.vector line = (IrqLine.near line).vector := by
  rw [Pic.vector, quiet.masterOffset]
  rfl

theorem PicPair.Quiet.slave_vector (quiet : pics.Quiet) (line : Fin 8) :
    pics.slave.vector line = (IrqLine.far line).vector := by
  rw [Pic.vector, quiet.slaveOffset]
  revert line
  decide

theorem PicPair.settle_near (line : Fin 8) :
    pics.settle (IrqLine.near line).vector =
      { pics with master := pics.master.endOfInterrupt } := by
  rw [PicPair.settle, picSendEoi_final, if_neg (near_vector line)]

theorem PicPair.settle_far (line : Fin 8) :
    pics.settle (IrqLine.far line).vector =
      ⟨pics.master.endOfInterrupt, pics.slave.endOfInterrupt⟩ := by
  rw [PicPair.settle, picSendEoi_final, if_pos (far_vector line)]

/-! ### The request that is taken -/

/-- The search finds the first line. -/
theorem find_least {asks : Fin 8 → Bool} {line : Fin 8}
    (found : (List.finRange 8).find? asks = some line) :
    ∀ other, asks other = true → line ≤ other := by
  intro other here
  obtain ⟨-, index, inside, place, refused⟩ := List.find?_eq_some_iff_getElem.mp found
  rw [List.getElem_finRange] at place
  by_contra before
  have first : other.val < index := by
    rw [← place] at before
    exact Fin.lt_def.mp (by simpa using before)
  have refuses := refused other.val first
  simp [here] at refuses

/-- An idle controller asks for the first request that is not masked. -/
theorem Pic.next_least {pic : Pic} (idle : pic.inService = ∅) {line : Fin 8}
    (next : pic.next = some line) :
    ∀ other ∈ pic.requests, ¬ pic.Masked other → line ≤ other := by
  intro other requested unmasked
  exact find_least next other (by simp [requested, unmasked, idle])

/-- What comes in at the first controller. -/
theorem PicPair.mem_wired {line : Fin 8} : line ∈ pics.wired.requests ↔
    line = cascadeLine ∧ pics.slave.next.isSome = true ∨
      line ≠ cascadeLine ∧ line ∈ pics.master.requests := by
  unfold PicPair.wired
  by_cases asks : pics.slave.next.isSome = true
  · rw [if_pos asks, Finset.mem_insert]
    tauto
  · rw [if_neg asks, Finset.mem_erase]
    tauto

theorem PicPair.Quiet.wired_idle (quiet : pics.Quiet) : pics.wired.inService = ∅ := quiet.masterIdle

/-- A line that is asked for comes before every other request. -/
theorem PicPair.Quiet.next_near (quiet : pics.Quiet) {line : Fin 8} (next : pics.next = some line)
    (direct : line ≠ cascadeLine) :
    pics.Pending (.near line) ∧ ∀ other, pics.Pending other → (IrqLine.near line).rank ≤ other.rank := by
  obtain ⟨requested, unmasked, -⟩ := Pic.next_eq_some next
  have least := Pic.next_least quiet.wired_idle next
  rcases PicPair.mem_wired.mp requested with ⟨cascaded, -⟩ | ⟨-, own⟩
  · exact absurd cascaded direct
  · refine ⟨⟨direct, own, unmasked⟩, ?_⟩
    intro other pending
    cases other with
    | near otherLine =>
        have first := least otherLine (PicPair.mem_wired.mpr (Or.inr ⟨pending.1, pending.2.1⟩))
          pending.2.2
        simp only [IrqLine.rank]
        omega
    | far otherLine =>
        have farAsks : pics.slave.next.isSome = true :=
          (Pic.next_isSome_iff quiet.slaveIdle).mpr ⟨otherLine, pending.1, pending.2.1⟩
        have first := least cascadeLine (PicPair.mem_wired.mpr (Or.inl ⟨rfl, farAsks⟩)) pending.2.2
        simp only [IrqLine.rank]
        omega

theorem PicPair.Quiet.next_far (quiet : pics.Quiet) (next : pics.next = some cascadeLine)
    {line : Fin 8} (farNext : pics.slave.next = some line) :
    pics.Pending (.far line) ∧ ∀ other, pics.Pending other → (IrqLine.far line).rank ≤ other.rank := by
  obtain ⟨-, unmasked, -⟩ := Pic.next_eq_some next
  obtain ⟨requested, farUnmasked, -⟩ := Pic.next_eq_some farNext
  have least := Pic.next_least quiet.wired_idle next
  have farLeast := Pic.next_least quiet.slaveIdle farNext
  refine ⟨⟨requested, farUnmasked, unmasked⟩, ?_⟩
  intro other pending
  cases other with
  | near otherLine =>
      have first := least otherLine (PicPair.mem_wired.mpr (Or.inr ⟨pending.1, pending.2.1⟩))
        pending.2.2
      have apart : otherLine.val ≠ cascadeLine.val := fun same => pending.1 (Fin.ext same)
      have order : cascadeLine.val ≤ otherLine.val := first
      have small := line.isLt
      simp only [IrqLine.rank]
      omega
  | far otherLine =>
      have first := farLeast otherLine pending.1 pending.2.1
      simp only [IrqLine.rank]
      omega

/-! ### An interrupt and its end -/

/-- What has happened to quiet controllers between an acknowledge and the end of
the interrupt. -/
inductive Settled (pics : PicPair) : Delivery → UInt8 → PicPair → Prop where
  | requested (irq : IrqLine) (pending : pics.Pending irq)
      (first : ∀ other, pics.Pending other → irq.rank ≤ other.rank) :
      Settled pics .requested irq.vector (pics.served irq)
  | spuriousMaster : Settled pics .spuriousMaster (IrqLine.near 7).vector pics
  | spuriousSlave (unmasked : ¬ pics.master.Masked cascadeLine) :
      Settled pics .spuriousSlave (IrqLine.far 7).vector (pics.served (.near cascadeLine))

theorem PicPair.Quiet.accept_settle (quiet : pics.Quiet) {delivery : Delivery} {after : PicPair}
    {vector : UInt8} (accepted : pics.accept delivery = some (after, vector)) :
    Settled pics delivery vector (after.settle vector) := by
  cases delivery with
  | requested =>
      cases next : pics.next with
      | none => simp [PicPair.accept, next] at accepted
      | some line =>
          by_cases cascaded : line = cascadeLine
          · subst cascaded
            cases farNext : pics.slave.next with
            | none => simp [PicPair.accept, next, farNext] at accepted
            | some farLine =>
                simp only [PicPair.accept, next, farNext, if_true, Option.some.injEq,
                  Prod.mk.injEq] at accepted
                obtain ⟨rfl, rfl⟩ := accepted
                obtain ⟨pending, first⟩ := quiet.next_far next farNext
                rw [quiet.slave_vector, PicPair.settle_far,
                  Pic.endOfInterrupt_acknowledge quiet.masterIdle,
                  Pic.endOfInterrupt_acknowledge quiet.slaveIdle]
                exact Settled.requested _ pending first
          · simp only [PicPair.accept, next, cascaded, if_false, Option.some.injEq,
              Prod.mk.injEq] at accepted
            obtain ⟨rfl, rfl⟩ := accepted
            obtain ⟨pending, first⟩ := quiet.next_near next cascaded
            rw [quiet.master_vector, PicPair.settle_near,
              Pic.endOfInterrupt_acknowledge quiet.masterIdle]
            exact Settled.requested _ pending first
  | spuriousMaster =>
      simp only [PicPair.accept, Option.some.injEq, Prod.mk.injEq] at accepted
      obtain ⟨rfl, rfl⟩ := accepted
      rw [quiet.master_vector, PicPair.settle_near, Pic.endOfInterrupt_idle quiet.masterIdle]
      exact Settled.spuriousMaster
  | spuriousSlave =>
      rw [PicPair.accept, Option.ite_none_right_eq_some] at accepted
      obtain ⟨⟨unmasked, -⟩, pair⟩ := accepted
      simp only [Option.some.injEq, Prod.mk.injEq] at pair
      obtain ⟨rfl, rfl⟩ := pair
      rw [quiet.slave_vector, PicPair.settle_far,
        Pic.endOfInterrupt_acknowledge quiet.masterIdle, Pic.endOfInterrupt_idle quiet.slaveIdle]
      exact Settled.spuriousSlave unmasked

/-! ### What stays -/

theorem PicPair.Quiet.raise (quiet : pics.Quiet) (irq : IrqLine) : (pics.raise irq).Quiet := by
  obtain ⟨masterDone, slaveDone, masterOffset, slaveOffset, masterIdle, slaveIdle⟩ := quiet
  cases irq with
  | near line =>
      simp only [PicPair.raise]
      split_ifs <;> exact ⟨masterDone, slaveDone, masterOffset, slaveOffset, masterIdle, slaveIdle⟩
  | far line => exact ⟨masterDone, slaveDone, masterOffset, slaveOffset, masterIdle, slaveIdle⟩

theorem PicPair.Quiet.withdraw (quiet : pics.Quiet) (irq : IrqLine) : (pics.withdraw irq).Quiet := by
  obtain ⟨masterDone, slaveDone, masterOffset, slaveOffset, masterIdle, slaveIdle⟩ := quiet
  cases irq <;> exact ⟨masterDone, slaveDone, masterOffset, slaveOffset, masterIdle, slaveIdle⟩

theorem PicPair.Quiet.served (quiet : pics.Quiet) (irq : IrqLine) : (pics.served irq).Quiet := by
  cases irq with
  | near line => exact quiet.withdraw (.near line)
  | far line => exact (quiet.withdraw (.near cascadeLine)).withdraw (.far line)

theorem Settled.quiet {delivery : Delivery} {vector : UInt8} {after : PicPair}
    (settled : Settled pics delivery vector after) (quiet : pics.Quiet) : after.Quiet := by
  cases settled with
  | requested irq => exact quiet.served irq
  | spuriousMaster => exact quiet
  | spuriousSlave => exact quiet.served _

end

end Mcsos.Irq
