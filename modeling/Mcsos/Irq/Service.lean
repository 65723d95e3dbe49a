import Mathlib.Data.List.Count
import Mcsos.Irq.Delivery

/-!
Contract: interrupts in any run after boot. Requests come and go on every line,
lines are masked and unmasked, and interrupts are taken whenever one is asked
for, or without one where a request went away too late.

Every handler returns and leaves nothing in service, so no request that is not
masked is ever held up; the timer's come first. Each edge of the timer is one
tick unless it was withdrawn, and the log of the run is the log of the
interrupts one after the other.
-/

namespace Mcsos.Irq

open Mcsos.Machine
open Mcsos.Machine.Prog
open Mcsos.Log

/-! ### One handler -/

/-- The accesses of the log among those of a handler. -/
def TrapEvent.logged : TrapEvent → Option LogEvent
  | .log event => some event
  | _ => none

/-- What the handler of an interrupt line writes to the log. -/
def irqCalls (ticks : UInt64) (irq : UInt8) : List LogCall :=
  if irq = 0 then (if ticks % 100 = 0 then tickCalls ticks else []) else unexpectedCalls irq

/-- The ticks that the handler of a line leaves. -/
def irqTicks (ticks : UInt64) (irq : UInt8) : UInt64 := if irq = 0 then ticks + 1 else ticks

/-- What the handler of a vector has done to the world it was entered in, and
what it has recorded. -/
structure Handled (before after : TrapWorld) (vector : UInt8) (record : List LogEvent) : Prop where
  trapCount : after.trapCount = before.trapCount + 1
  ticks : after.ticks = irqTicks before.ticks (vector - picMasterOffset)
  pics : after.pics = before.pics.settle vector
  log : after.log = (logCalls (irqCalls after.ticks (vector - picMasterOffset))).final before.log
  record : record = (logCalls (irqCalls after.ticks (vector - picMasterOffset))).trace before.log

section

variable (w : TrapWorld)

theorem logs_final (calls : List LogCall) :
    (logs calls).final w = { w with log := (logCalls calls).final w.log } := by
  have log : ((logs calls).final w).log = _ := logPart.lift_view (logCalls calls) w
  have pics : ((logs calls).final w).pics = w.pics :=
    logPart.lift_frame (logCalls calls) w TrapWorld.pics fun _ _ => rfl
  have trapCount : ((logs calls).final w).trapCount = w.trapCount :=
    logPart.lift_frame (logCalls calls) w TrapWorld.trapCount fun _ _ => rfl
  have ticks : ((logs calls).final w).ticks = w.ticks :=
    logPart.lift_frame (logCalls calls) w TrapWorld.ticks fun _ _ => rfl
  exact congr (congr (congr (congrArg TrapWorld.mk log) pics) trapCount) ticks

theorem picPart_final (program : PicProg Unit) :
    (picPart.lift program).final w = { w with pics := program.final w.pics } := by
  have log : ((picPart.lift program).final w).log = w.log :=
    picPart.lift_frame program w TrapWorld.log fun _ _ => rfl
  have pics : ((picPart.lift program).final w).pics = _ := picPart.lift_view program w
  have trapCount : ((picPart.lift program).final w).trapCount = w.trapCount :=
    picPart.lift_frame program w TrapWorld.trapCount fun _ _ => rfl
  have ticks : ((picPart.lift program).final w).ticks = w.ticks :=
    picPart.lift_frame program w TrapWorld.ticks fun _ _ => rfl
  exact congr (congr (congr (congrArg TrapWorld.mk log) pics) trapCount) ticks

/-- What of a program's record is the log's. -/
def logRecord {α : Type} (program : TrapProg α) : List LogEvent :=
  (program.trace w).filterMap TrapEvent.logged

theorem logRecord_logs (calls : List LogCall) :
    logRecord w (logs calls) = (logCalls calls).trace w.log := by
  rw [logRecord, logs, Part.lift_trace, List.filterMap_map]
  exact List.filterMap_some

theorem logRecord_picPart (program : PicProg Unit) : logRecord w (picPart.lift program) = [] := by
  rw [logRecord, Part.lift_trace, List.filterMap_map]
  exact List.filterMap_none _

theorem logRecord_bind {α β : Type} (program : TrapProg α) (next : α → TrapProg β) :
    logRecord w (program >>= next) =
      logRecord w program ++ logRecord (program.final w) (next (program.result w)) := by
  rw [logRecord, trace_bind, List.filterMap_append]
  rfl

theorem logRecord_get : logRecord w (get : TrapProg TrapWorld) = [] := rfl

theorem logRecord_pure {α : Type} (value : α) : logRecord w (pure value : TrapProg α) = [] := rfl

/-- A handler apart from the end of its interrupt. -/
def irqBody (irq : UInt8) : TrapProg Unit :=
  if irq = 0 then timerOnIrq0 else logs (unexpectedCalls irq)

theorem timerOnIrq0_eq : timerOnIrq0.final w =
      { w with
        ticks := w.ticks + 1
        log := (logCalls (irqCalls (w.ticks + 1) 0)).final w.log } ∧
    logRecord w timerOnIrq0 = (logCalls (irqCalls (w.ticks + 1) 0)).trace w.log := by
  have counted : Event.apply (TrapEvent.storeTicks (w.ticks + 1)) w =
      { w with ticks := w.ticks + 1 } := rfl
  have record : logRecord w timerOnIrq0 =
      logRecord { w with ticks := w.ticks + 1 }
        (if (w.ticks + 1) % 100 = 0 then logs (tickCalls (w.ticks + 1)) else pure ()) := by
    simp only [timerOnIrq0, logRecord_bind, final_get, result_get, final_emit, counted]
    rfl
  rw [record]
  simp only [timerOnIrq0, final_bind, final_get, result_get, final_emit, counted, irqCalls, if_true]
  by_cases hundred : (w.ticks + 1) % 100 = 0
  · simp only [if_pos hundred, logs_final, logRecord_logs, and_self]
  · simp only [if_neg hundred]
    exact ⟨rfl, rfl⟩

theorem irqBody_eq (irq : UInt8) : (irqBody irq).final w =
      { w with
        ticks := irqTicks w.ticks irq
        log := (logCalls (irqCalls (irqTicks w.ticks irq) irq)).final w.log } ∧
    logRecord w (irqBody irq) = (logCalls (irqCalls (irqTicks w.ticks irq) irq)).trace w.log := by
  by_cases timer : irq = 0
  · simp only [timer, irqBody, if_true, irqTicks]
    exact timerOnIrq0_eq w
  · simp only [irqBody, if_neg timer, irqTicks, irqCalls, logs_final, logRecord_logs, and_self]

theorem irqDispatch_eq (irq : UInt8) :
    irqDispatch irq = (irqBody irq >>= fun _ => picPart.lift (picSendEoi irq)) := by
  unfold irqDispatch irqBody
  split <;> rfl

/-- The handler of a vector of the controllers. -/
theorem x8664TrapDispatch_handled {vector : UInt8} (external : External vector)
    (frame : Trap.X8664TrapFrame) (entered : frame.vector = vector.toUInt64) :
    (x8664TrapDispatch frame).result w = .returns ∧
      Handled w ((x8664TrapDispatch frame).final w) vector
        (logRecord w (x8664TrapDispatch frame)) := by
  obtain ⟨lower, upper⟩ := external
  have inside : frame.vector ≥ picMasterOffset.toUInt64 ∧
      frame.vector < picSlaveOffset.toUInt64 + 8 := by
    rw [entered]
    exact ⟨lower, upper⟩
  have irq : (frame.vector - picMasterOffset.toUInt64).toUInt8 = vector - picMasterOffset := by
    rw [entered]
    simp
  have counted : Event.apply (TrapEvent.storeTrapCount (w.trapCount + 1)) w =
      { w with trapCount := w.trapCount + 1 } := rfl
  have silent : logRecord w (emit (TrapEvent.storeTrapCount (w.trapCount + 1))) = [] := rfl
  obtain ⟨body, record⟩ :=
    irqBody_eq { w with trapCount := w.trapCount + 1 } (vector - picMasterOffset)
  have path : x8664TrapDispatch frame = (do
      let w ← get
      emit (.storeTrapCount (w.trapCount + 1))
      irqDispatch (vector - picMasterOffset)
      pure .returns) := by
    rw [x8664TrapDispatch, irq]
    simp only [if_pos inside]
  rw [path]
  refine ⟨rfl, ?_⟩
  simp only [irqDispatch_eq, final_bind, final_get, result_get, final_emit, counted, body,
    picPart_final, final_pure, logRecord_bind, logRecord_get, silent, record, logRecord_picPart,
    logRecord_pure, List.nil_append, List.append_nil]
  exact ⟨rfl, rfl, rfl, rfl, rfl⟩

end

/-! ### Runs -/

/-- A handler's interrupt, how it ended and which lines were open. -/
structure Service where
  vector : UInt8
  outcome : TrapOutcome
  opened : Finset IrqLine

/-- The machine in the course of a run, the latest handler first. `edges` and
`withdrawn` count the requests of the timer that were latched and that went
away untaken. -/
structure Session where
  world : TrapWorld
  opened : Finset IrqLine
  handled : List Service
  record : List LogEvent
  edges : Nat
  withdrawn : Nat

/-- What may happen between two instructions of the kernel. -/
inductive Occurrence where
  | raise (irq : IrqLine)
  | withdraw (irq : IrqLine)
  | maskAll
  | unmask (irq : IrqLine)
  | interrupt (delivery : Delivery) (frame : Trap.X8664TrapFrame)

/-- The timer's requests that wait at the controller: one, or none. -/
def PicPair.timerRequests (pics : PicPair) : Nat := if 0 ∈ pics.master.requests then 1 else 0

namespace Session

/-- A handler entered with a vector. The stub pushes it, the rest of the frame is
whatever was interrupted. -/
def enter (s : Session) (pics : PicPair) (vector : UInt8) (frame : Trap.X8664TrapFrame) :
    Session :=
  let handler := x8664TrapDispatch { frame with vector := vector.toUInt64 }
  let entered := { s.world with pics := pics }
  { s with
    world := handler.final entered
    handled := ⟨vector, handler.result entered, s.opened⟩ :: s.handled
    record := s.record ++ logRecord entered handler }

def next (s : Session) : Occurrence → Session
  | .raise irq =>
      { s with
        world := { s.world with pics := s.world.pics.raise irq }
        edges := s.edges + if irq = .timer then 1 - s.world.pics.timerRequests else 0 }
  | .withdraw irq =>
      { s with
        world := { s.world with pics := s.world.pics.withdraw irq }
        withdrawn := s.withdrawn + if irq = .timer then s.world.pics.timerRequests else 0 }
  | .maskAll => { s with world := (picPart.lift picMaskAll).final s.world, opened := ∅ }
  | .unmask irq =>
      { s with
        world := (picPart.lift (picUnmaskIrq irq.number)).final s.world
        opened := insert irq s.opened }
  | .interrupt delivery frame =>
      match s.world.pics.accept delivery with
      | none => s
      | some (pics, vector) => s.enter pics vector frame

end Session

/-- What `kmain` does before it enables interrupts. -/
def irqSetUp : PicProg Unit := do
  picRemap picMasterOffset picSlaveOffset
  picMaskAll
  picUnmaskIrq 0

def Session.start (w : TrapWorld) : Session where
  world := (picPart.lift irqSetUp).final w
  opened := {.timer}
  handled := []
  record := []
  edges := 0
  withdrawn := 0

/-! ### What holds of every run -/

/-- The ticks after some vectors, the latest first. -/
def ticksAfter (start : UInt64) (vectors : List UInt8) : UInt64 :=
  start + UInt64.ofNat (vectors.count picMasterOffset)

/-- The calls of the handlers. -/
def serviceCalls (start : UInt64) : List UInt8 → List LogCall
  | [] => []
  | vector :: earlier =>
      serviceCalls start earlier ++
        irqCalls (ticksAfter start (vector :: earlier)) (vector - picMasterOffset)

/-- A line that is not masked where it comes in. -/
def PicPair.Unmasked (pics : PicPair) : IrqLine → Prop
  | .near line => ¬ pics.master.Masked line
  | .far line => ¬ pics.slave.Masked line

/-- A vector belongs to a line that was open, at both controllers if it is the
second one's, or it is a last line's, which stands for a request that went
away. -/
def Admitted (service : Service) : Prop :=
  ∃ irq : IrqLine, service.vector = irq.vector ∧
    match irq with
    | .near line => .near line ∈ service.opened ∨ line = 7
    | .far line =>
        .near cascadeLine ∈ service.opened ∧ (.far line ∈ service.opened ∨ line = 7)

/-- The kernel's account of the interrupts of a run. -/
structure Serviced (start : TrapWorld) (s : Session) : Prop where
  quiet : s.world.pics.Quiet
  masks : ∀ irq, s.world.pics.Unmasked irq ↔ irq ∈ s.opened
  returned : ∀ service ∈ s.handled, service.outcome = .returns
  admitted : ∀ service ∈ s.handled, Admitted service
  trapCount : s.world.trapCount = start.trapCount + UInt64.ofNat s.handled.length
  ticks : s.world.ticks = ticksAfter start.ticks (s.handled.map Service.vector)
  edges : s.edges = (s.handled.map Service.vector).count picMasterOffset + s.withdrawn +
    s.world.pics.timerRequests
  log : s.world.log =
    (logCalls (serviceCalls start.ticks (s.handled.map Service.vector))).final start.log
  record : s.record =
    (logCalls (serviceCalls start.ticks (s.handled.map Service.vector))).trace start.log

/-! ### Masks -/

section

variable {pics : PicPair}

theorem Pic.masked_unmasked {pic : Pic} {line other : Fin 8} :
    (pic.withMask (unmasked pic.mask line)).Masked other ↔ other ≠ line ∧ pic.Masked other := by
  have shifted := getBit_clearBit (fun _ => pic.mask) line other
  have lineByte : line.val / 8 = 0 := Nat.div_eq_of_lt line.isLt
  have otherByte : other.val / 8 = 0 := Nat.div_eq_of_lt other.isLt
  simp only [getBit, clearBit, lineByte, otherByte, Function.update_self] at shifted
  have distinct : other ≠ line ↔ ¬ line.val = other.val := by
    rw [ne_comm, ne_eq, Fin.ext_iff]
  rw [distinct]
  simp only [Pic.Masked, Pic.withMask, unmasked]
  rw [← bne_iff_ne, shifted]
  simp

theorem Pic.masked_all (pic : Pic) (line : Fin 8) : (pic.withMask 0xFF).Masked line := by
  have all : ∀ line : Fin 8, (0xFF : UInt8) &&& bitMask line ≠ 0 := by decide
  exact all line

/-- A line is opened at its controller. -/
def PicPair.unmask (pics : PicPair) : IrqLine → PicPair
  | .near line => { pics with master := pics.master.withMask (unmasked pics.master.mask line) }
  | .far line => { pics with slave := pics.slave.withMask (unmasked pics.slave.mask line) }

theorem PicPair.Quiet.picUnmaskIrq_final (quiet : pics.Quiet) (irq : IrqLine) :
    (picUnmaskIrq irq.number).final pics = pics.unmask irq := by
  cases irq with
  | near line => exact picUnmaskIrq_master line quiet.masterDone
  | far line => exact picUnmaskIrq_slave line quiet.slaveDone

theorem PicPair.unmasked_unmask (irq other : IrqLine) :
    (pics.unmask irq).Unmasked other ↔ other = irq ∨ pics.Unmasked other := by
  cases irq with
  | near line =>
      cases other with
      | near otherLine =>
          simp only [PicPair.unmask, PicPair.Unmasked, Pic.masked_unmasked, IrqLine.near.injEq]
          tauto
      | far otherLine => simp [PicPair.unmask, PicPair.Unmasked]
  | far line =>
      cases other with
      | near otherLine => simp [PicPair.unmask, PicPair.Unmasked]
      | far otherLine =>
          simp only [PicPair.unmask, PicPair.Unmasked, Pic.masked_unmasked, IrqLine.far.injEq]
          tauto

theorem PicPair.Quiet.unmask (quiet : pics.Quiet) (irq : IrqLine) : (pics.unmask irq).Quiet := by
  obtain ⟨masterDone, slaveDone, masterOffset, slaveOffset, masterIdle, slaveIdle⟩ := quiet
  cases irq <;> exact ⟨masterDone, slaveDone, masterOffset, slaveOffset, masterIdle, slaveIdle⟩

theorem PicPair.unmasked_raise (irq other : IrqLine) :
    (pics.raise irq).Unmasked other ↔ pics.Unmasked other := by
  cases irq with
  | near line =>
      simp only [PicPair.raise]
      split_ifs
      · rfl
      · cases other <;> rfl
  | far line => cases other <;> rfl

theorem PicPair.unmasked_withdraw (irq other : IrqLine) :
    (pics.withdraw irq).Unmasked other ↔ pics.Unmasked other := by
  cases irq <;> cases other <;> rfl

theorem Settled.unmasked {delivery : Delivery} {vector : UInt8} {after : PicPair}
    (settled : Settled pics delivery vector after) (other : IrqLine) :
    after.Unmasked other ↔ pics.Unmasked other := by
  have served : ∀ irq, (pics.served irq).Unmasked other ↔ pics.Unmasked other := by
    intro irq
    cases irq with
    | near line => exact PicPair.unmasked_withdraw _ other
    | far line => exact (PicPair.unmasked_withdraw _ other).trans (PicPair.unmasked_withdraw _ other)
  cases settled with
  | requested irq => exact served irq
  | spuriousMaster => rfl
  | spuriousSlave => exact served _

/-! ### The timer's requests -/

theorem PicPair.timerRequests_raise (irq : IrqLine) :
    (pics.raise irq).timerRequests =
      pics.timerRequests + if irq = .timer then 1 - pics.timerRequests else 0 := by
  cases irq with
  | near line =>
      by_cases timer : line = 0
      · have direct : (0 : Fin 8) ≠ cascadeLine := by decide
        by_cases latched : 0 ∈ pics.master.requests <;>
          simp [PicPair.raise, PicPair.timerRequests, IrqLine.timer, timer, direct, latched]
      · have other : IrqLine.near line ≠ .timer := fun same => timer (IrqLine.near.inj same)
        rw [if_neg other, Nat.add_zero]
        simp only [PicPair.raise]
        split_ifs
        · rfl
        · simp [PicPair.timerRequests, Ne.symm timer]
  | far line => rfl

theorem PicPair.timerRequests_withdraw (irq : IrqLine) :
    pics.timerRequests = (pics.withdraw irq).timerRequests +
      if irq = .timer then pics.timerRequests else 0 := by
  cases irq with
  | near line =>
      by_cases timer : line = 0
      · simp [PicPair.withdraw, PicPair.timerRequests, IrqLine.timer, timer]
      · have other : IrqLine.near line ≠ .timer := fun same => timer (IrqLine.near.inj same)
        simp [PicPair.withdraw, PicPair.timerRequests, other, Ne.symm timer]
  | far line => rfl

/-- A request of the timer that is taken is a vector of the timer, and no other
interrupt is. -/
theorem Settled.timerRequests {delivery : Delivery} {vector : UInt8} {after : PicPair}
    (settled : Settled pics delivery vector after) :
    pics.timerRequests = after.timerRequests + if vector = picMasterOffset then 1 else 0 := by
  cases settled with
  | requested irq pending first =>
      rw [if_congr IrqLine.vector_eq_timer rfl rfl]
      cases irq with
      | near line =>
          have latched : IrqLine.near line = .timer → pics.timerRequests = 1 := by
            intro timer
            have requested := pending.2.1
            rw [IrqLine.near.inj timer] at requested
            rw [PicPair.timerRequests, if_pos requested]
          have gone := pics.timerRequests_withdraw (.near line)
          by_cases timer : IrqLine.near line = .timer
          · rw [if_pos timer] at gone ⊢
            rw [PicPair.served]
            have one := latched timer
            omega
          · rwa [if_neg timer] at gone ⊢
      | far line =>
          rw [if_neg nofun]
          have cascade := pics.timerRequests_withdraw (.near cascadeLine)
          rwa [if_neg (by decide)] at cascade
  | spuriousMaster => rfl
  | spuriousSlave unmasked =>
      have cascade := pics.timerRequests_withdraw (.near cascadeLine)
      rwa [if_neg (by decide)] at cascade ⊢

end

/-! ### The start -/

variable {start : TrapWorld} {s : Session}

/-- What happens to the controllers' lines and masks alone. -/
theorem Serviced.lines (serviced : Serviced start s) {pics : PicPair} {opened : Finset IrqLine}
    {edges withdrawn : Nat} (quiet : pics.Quiet) (masks : ∀ irq, pics.Unmasked irq ↔ irq ∈ opened)
    (balance : edges + s.withdrawn + s.world.pics.timerRequests =
      s.edges + withdrawn + pics.timerRequests) :
    Serviced start
      { s with
        world := { s.world with pics := pics }
        opened := opened
        edges := edges
        withdrawn := withdrawn } where
  quiet := quiet
  masks := masks
  returned := serviced.returned
  admitted := serviced.admitted
  trapCount := serviced.trapCount
  ticks := serviced.ticks
  edges := by
    have before := serviced.edges
    dsimp only
    omega
  log := serviced.log
  record := serviced.record

theorem ticksAfter_cons (ticks : UInt64) (vector : UInt8) (earlier : List UInt8) :
    irqTicks (ticksAfter ticks earlier) (vector - picMasterOffset) =
      ticksAfter ticks (vector :: earlier) := by
  have zero : vector - picMasterOffset = 0 ↔ vector = picMasterOffset := by
    rw [UInt8.sub_eq_iff_eq_add, UInt8.zero_add]
  unfold irqTicks ticksAfter
  by_cases timer : vector = picMasterOffset
  · rw [if_pos (zero.mpr timer), timer, List.count_cons_self, UInt64.ofNat_add, UInt64.add_assoc]
    rfl
  · rw [if_neg (mt zero.mp timer), List.count_cons_of_ne timer]

theorem logCalls_append (calls more : List LogCall) (w : LogWorld) :
    (logCalls (calls ++ more)).final w = (logCalls more).final ((logCalls calls).final w) ∧
      (logCalls (calls ++ more)).trace w =
        (logCalls calls).trace w ++ (logCalls more).trace ((logCalls calls).final w) := by
  induction calls generalizing w with
  | nil => exact ⟨rfl, rfl⟩
  | cons call rest inductionHypothesis =>
      obtain ⟨final, trace⟩ := inductionHypothesis (call.program.final w)
      simp only [List.cons_append, logCalls, final_bind, trace_bind, final, trace, List.append_assoc,
        and_self]

theorem Settled.admitted {pics after : PicPair} {delivery : Delivery} {vector : UInt8}
    (settled : Settled pics delivery vector after) {service : Service}
    (masks : ∀ irq, pics.Unmasked irq ↔ irq ∈ service.opened) (same : service.vector = vector) :
    Admitted service := by
  cases settled with
  | requested irq pending first =>
      refine ⟨irq, same, ?_⟩
      cases irq with
      | near line => exact Or.inl ((masks (.near line)).mp pending.2.2)
      | far line =>
          exact ⟨(masks (.near cascadeLine)).mp pending.2.2,
            Or.inl ((masks (.far line)).mp pending.2.1)⟩
  | spuriousMaster => exact ⟨.near 7, same, Or.inr rfl⟩
  | spuriousSlave unmasked =>
      exact ⟨.far 7, same, (masks (.near cascadeLine)).mp unmasked, Or.inr rfl⟩

theorem Settled.external {pics after : PicPair} {delivery : Delivery} {vector : UInt8}
    (settled : Settled pics delivery vector after) : External vector := by
  cases settled with
  | requested irq => exact irq.vector_external
  | spuriousMaster => exact IrqLine.vector_external _
  | spuriousSlave => exact IrqLine.vector_external _

/-- A handler has returned. -/
theorem Serviced.handler (serviced : Serviced start s) {delivery : Delivery} {pics : PicPair}
    {vector : UInt8} (settled : Settled s.world.pics delivery vector (pics.settle vector))
    {after : TrapWorld} {record : List LogEvent}
    (handled : Handled { s.world with pics := pics } after vector record) :
    Serviced start
      { s with
        world := after
        handled := ⟨vector, .returns, s.opened⟩ :: s.handled
        record := s.record ++ record } := by
  have ticks : after.ticks = ticksAfter start.ticks (vector :: s.handled.map Service.vector) := by
    rw [handled.ticks, ← ticksAfter_cons, ← serviced.ticks]
  obtain ⟨finals, traces⟩ := logCalls_append
    (serviceCalls start.ticks (s.handled.map Service.vector))
    (irqCalls (ticksAfter start.ticks (vector :: s.handled.map Service.vector))
      (vector - picMasterOffset)) start.log
  have log := handled.log
  have recorded := handled.record
  rw [ticks] at log recorded
  exact
    { quiet := by
        rw [handled.pics]
        exact settled.quiet serviced.quiet
      masks := fun irq => by
        rw [handled.pics]
        exact (settled.unmasked irq).trans (serviced.masks irq)
      returned := fun service member => by
        rcases List.mem_cons.mp member with rfl | earlier
        · rfl
        · exact serviced.returned service earlier
      admitted := fun service member => by
        rcases List.mem_cons.mp member with rfl | earlier
        · exact settled.admitted serviced.masks rfl
        · exact serviced.admitted service earlier
      trapCount := by
        rw [handled.trapCount, serviced.trapCount, UInt64.add_assoc, List.length_cons,
          UInt64.ofNat_add]
        rfl
      ticks := ticks
      edges := by
        have before := serviced.edges
        have timer := settled.timerRequests
        rw [handled.pics, List.map_cons, List.count_cons, if_congr beq_iff_eq rfl rfl]
        dsimp only
        omega
      log := by
        rw [log, List.map_cons, serviceCalls, finals, serviced.log]
      record := by
        rw [List.map_cons, serviceCalls, traces, serviced.record, recorded, ← serviced.log] }

/-- An interrupt is taken. -/
theorem Serviced.enter (serviced : Serviced start s) {delivery : Delivery} {pics : PicPair}
    {vector : UInt8} (accepted : s.world.pics.accept delivery = some (pics, vector))
    (frame : Trap.X8664TrapFrame) : Serviced start (s.enter pics vector frame) := by
  have settled := serviced.quiet.accept_settle accepted
  obtain ⟨returns, handled⟩ := x8664TrapDispatch_handled { s.world with pics := pics }
    settled.external { frame with vector := vector.toUInt64 } rfl
  simp only [Session.enter, returns]
  exact serviced.handler settled handled

theorem Serviced.next (serviced : Serviced start s) (occurrence : Occurrence) :
    Serviced start (s.next occurrence) := by
  cases occurrence with
  | raise irq =>
      apply serviced.lines (serviced.quiet.raise irq)
      · exact fun other => (PicPair.unmasked_raise irq other).trans (serviced.masks other)
      · rw [PicPair.timerRequests_raise]
        omega
  | withdraw irq =>
      apply serviced.lines (serviced.quiet.withdraw irq)
      · exact fun other => (PicPair.unmasked_withdraw irq other).trans (serviced.masks other)
      · have gone := s.world.pics.timerRequests_withdraw irq
        omega
  | maskAll =>
      simp only [Session.next, picPart_final]
      rw [picMaskAll_final serviced.quiet.masterDone serviced.quiet.slaveDone]
      apply serviced.lines
      · obtain ⟨masterDone, slaveDone, masterOffset, slaveOffset, masterIdle, slaveIdle⟩ :=
          serviced.quiet
        exact ⟨masterDone, slaveDone, masterOffset, slaveOffset, masterIdle, slaveIdle⟩
      · intro irq
        cases irq <;> simp [PicPair.Unmasked, Pic.masked_all]
      · rfl
  | unmask irq =>
      simp only [Session.next, picPart_final]
      rw [serviced.quiet.picUnmaskIrq_final]
      apply serviced.lines (serviced.quiet.unmask irq)
      · intro other
        rw [PicPair.unmasked_unmask, serviced.masks, Finset.mem_insert]
      · cases irq <;> rfl
  | interrupt delivery frame =>
      simp only [Session.next]
      cases accepted : s.world.pics.accept delivery with
      | none => exact serviced
      | some taken => exact serviced.enter accepted frame

/-- The controllers as firmware leaves them, in the middle of being set up anew
and with requests waiting. -/
def firmwarePics : PicPair where
  master := ⟨.icw3, 0x11, 0x08, 0x04, 0x01, 0xB8, {0, 1}, ∅⟩
  slave := ⟨.done, 0x11, 0x70, 0x02, 0x01, 0x8F, {4}, ∅⟩

def firmwareWorld : TrapWorld := ⟨⟨true, fun _ => 0⟩, firmwarePics, 0, 99⟩

/-- A frame with nothing in it. -/
def blankFrame : Trap.X8664TrapFrame :=
  ⟨0, 0, 0, 0, 0, 0, 0, 0, 0, 0, 0, 0, 0, 0, 0, 0, 0, 0, 0, 0⟩

end Mcsos.Irq
