import Mcsos.Irq.Service
import Mcsos.Serial.Preempted
import Mcsos.Trap.Gates

/-!
Contract: what interrupts make of output in progress. The threads log with
interrupts enabled, and the handlers log to the same line; nothing keeps them
apart. A handler runs to its end, as its gate turns interrupts off, so its text
stands whole between two bytes of what it interrupted.
-/

namespace Mcsos.Irq

open Mcsos.Machine
open Mcsos.Machine.Prog
open Mcsos.Log
open Mcsos.Serial
open Mcsos.Trap

/-! ### The machine -/

/-- The gate of a vector turns interrupts off, what was interrupted, and what a
panic would be told of its place and read of the flags. -/
structure Interruption where
  stub : Fin 48
  masking : gateType stub = x8664IdtGateInterrupt
  frame : X8664TrapFrame
  pics : PicPair
  file : Option (List UInt8)
  lineNumber : UInt32
  rflags : UInt64

/-- Code in the middle of output, the line, and what each handler has asked of
the log so far. -/
structure Console where
  world : TrapWorld
  line : Line
  output : Output
  records : List (List LogEvent)
  halted : Bool

namespace Console

def start (world : TrapWorld) (line : Line) (chars : List UInt8) : Console :=
  ⟨world, line, .ahead (lineBytes chars), [], false⟩

/-- The interrupted code makes its next access. -/
def access (c : Console) : Console :=
  { c with
    line := c.line.run c.output.access
    output := c.output.access.result c.line.uart }

/-- A handler runs, and where it panics the report follows and the machine
halts. -/
def interrupt (c : Console) (interruption : Interruption) : Console :=
  let entered := { c.world with pics := interruption.pics }
  let handler :=
    x8664TrapDispatch { interruption.frame with vector := UInt64.ofNat interruption.stub }
  let report :=
    match handler.result entered with
    | .returns => []
    | .panics reason code =>
        kernelPanicAt interruption.file interruption.lineNumber (some reason) code
          interruption.rflags
  let after := handler.final entered
  let record := logRecord entered handler ++ (logCalls report).trace after.log
  { c with
    world := { after with log := (logCalls report).final after.log }
    line := c.line.run (drive record)
    records := c.records ++ [record]
    halted := !report.isEmpty }

end Console

inductive Moment where
  | access
  | interrupt (interruption : Interruption)

def Moment.isAccess : Moment → Bool
  | .access => true
  | .interrupt _ => false

def Console.next (c : Console) (moment : Moment) : Console :=
  if c.halted then c
  else
    match moment with
    | .access => c.access
    | .interrupt interruption => c.interrupt interruption

/-! ### What holds at every moment -/

/-- What a record puts on the line where nothing is dropped. -/
def recordBytes (record : List LogEvent) : List UInt8 := lineBytes (record.filterMap LogEvent.sent)

/-- The line after some moments: what has gone out, how much the transmitter
holds, and how far the interrupted code has got. -/
structure Console.Running (line : Line) (bytes : List UInt8) (accesses : Nat) (c : Console) :
    Prop where
  mixed : Mixed line.uart c.line.uart bytes c.output (c.records.map recordBytes)
  holds : c.line.Holds c.output.room
  left : c.halted = false → c.output.left ≤ bytes.length * (serialTimeoutLimit + 1) - accesses

section

variable {line : Line} {bytes : List UInt8} {accesses : Nat} {c : Console}

theorem Console.access_uart (c : Console) :
    c.access.line.uart = c.output.access.final c.line.uart :=
  Line.run_uart _

theorem Console.Running.access (running : c.Running line bytes accesses)
    (goes : c.halted = false) : c.access.Running line bytes (accesses + 1) where
  mixed := by
    rw [Console.access_uart]
    exact running.mixed.access (c.output.access_accessed running.mixed.setUp)
  holds := running.holds.access running.mixed.setUp
  left _ := by
    have before := running.left goes
    have nearer := c.output.access_left c.line.uart
    show (c.output.access.result c.line.uart).left ≤ _
    omega

/-- The handler drives the line with its record, and leaves the interrupted code
where it is. -/
theorem Console.interrupt_drives (c : Console) (interruption : Interruption) :
    ∃ record, (c.interrupt interruption).line = c.line.run (drive record) ∧
      (c.interrupt interruption).output = c.output ∧
      (c.interrupt interruption).records = c.records ++ [record] :=
  ⟨_, rfl, rfl, rfl⟩

theorem Console.Running.interrupt (running : c.Running line bytes accesses)
    (goes : c.halted = false) (interruption : Interruption) :
    (c.interrupt interruption).Running line bytes accesses := by
  obtain ⟨record, drives, same, records⟩ := c.interrupt_drives interruption
  have setUp := running.mixed.setUp
  obtain ⟨some, few⟩ := c.output.room_bounds
  constructor
  · rw [drives, same, records, List.map_append, Line.run_uart]
    exact running.mixed.carried (drive_carried record setUp)
  · rw [drives, same]
    exact running.holds.drive record setUp some few
  · rw [same]
    exact fun _ => running.left goes

/-- A moment, and whether it was an access. -/
theorem Console.Running.next (running : c.Running line bytes accesses) (moment : Moment) :
    (c.next moment).Running line bytes (accesses + [moment].countP Moment.isAccess) := by
  unfold Console.next
  cases goes : c.halted with
  | true =>
      rw [if_pos rfl]
      exact ⟨running.mixed, running.holds, fun halts => absurd (goes.symm.trans halts) (by simp)⟩
  | false =>
      rw [if_neg (by simp)]
      cases moment with
      | access => exact running.access goes
      | interrupt interruption => exact running.interrupt goes interruption

theorem Console.Running.run (moments : List Moment) (running : c.Running line bytes accesses) :
    (moments.foldl Console.next c).Running line bytes
      (accesses + moments.countP Moment.isAccess) := by
  induction moments generalizing c accesses with
  | nil => exact running
  | cons moment rest inductionHypothesis =>
      have later := inductionHypothesis (running.next moment)
      rwa [Nat.add_assoc, ← List.countP_append] at later

theorem Console.start_running (world : TrapWorld) {line : Line} (setUp : SetUp line.uart)
    (holds : line.Holds 2) (chars : List UInt8) :
    (Console.start world line chars).Running line (lineBytes chars) 0 where
  mixed := ⟨setUp, [], [], [], .start, by simp [Console.start], List.Sublist.refl _, .nil⟩
  holds := holds
  left _ := (Output.left_ahead _).le

/-! ### When nothing is lost -/

/-- Everything has gone out so far. -/
def Console.Complete (wait : Nat) (line : Line) (bytes : List UInt8) (c : Console) : Prop :=
  Serial.Complete wait line.uart c.line.uart bytes c.output (c.records.map recordBytes)

theorem Console.records_length_le (c : Console) (moments : List Moment) :
    c.records.length ≤ (moments.foldl Console.next c).records.length := by
  induction moments generalizing c with
  | nil => exact Nat.le_refl _
  | cons moment rest inductionHypothesis =>
      refine le_trans ?_ (inductionHypothesis (c.next moment))
      unfold Console.next
      split
      · exact Nat.le_refl _
      · cases moment with
        | access => exact Nat.le_refl _
        | interrupt interruption => simp [Console.interrupt]

theorem Console.Complete.next {wait : Nat} (complete : c.Complete wait line bytes)
    (prompt : PromptWithin wait line.uart) (moment : Moment)
    (few : ((c.next moment).records.length + 1) * wait ≤ serialTimeoutLimit) :
    (c.next moment).Complete wait line bytes := by
  unfold Console.next at few ⊢
  split at few
  · rwa [if_pos ‹_›]
  · rw [if_neg ‹_›]
    cases moment with
    | access =>
        have accessed := c.output.access_accessed complete.setUp
        rw [← Console.access_uart] at accessed
        exact Serial.Complete.access complete prompt (by simpa using few) accessed
    | interrupt interruption =>
        obtain ⟨record, drives, same, records⟩ := c.interrupt_drives interruption
        have carried := drive_carried record complete.setUp
        rw [← Line.run_uart, ← drives] at carried
        rw [Console.Complete, same, records, List.map_append]
        exact Serial.Complete.carried complete prompt
          (le_trans (Nat.le_mul_of_pos_left wait (Nat.succ_pos _)) few) carried

theorem Console.Complete.run {wait : Nat} (moments : List Moment)
    (complete : c.Complete wait line bytes) (prompt : PromptWithin wait line.uart)
    (few : ((moments.foldl Console.next c).records.length + 1) * wait ≤ serialTimeoutLimit) :
    (moments.foldl Console.next c).Complete wait line bytes := by
  induction moments generalizing c with
  | nil => exact complete
  | cons moment rest inductionHypothesis =>
      have fewer := Nat.mul_le_mul_right wait
        (Nat.succ_le_succ ((c.next moment).records_length_le rest))
      exact inductionHypothesis (complete.next prompt moment (fewer.trans few)) few

theorem Console.start_complete (wait : Nat) (world : TrapWorld) {line : Line}
    (setUp : SetUp line.uart) (chars : List UInt8) :
    (Console.start world line chars).Complete wait line (lineBytes chars) :=
  ⟨setUp, rfl, Nat.le_refl _, fun _ here => ahead_patience (Nat.le_refl _) here, [], [], .start,
    by simp [Console.start], rfl⟩

/-- Moments without a handler. -/
theorem Console.uninterrupted (count : Nat) (goes : c.halted = false) :
    ((List.replicate count Moment.access).foldl Console.next c).line =
      c.line.run (Output.accesses count c.output) := by
  induction count generalizing c with
  | zero => rfl
  | succ count inductionHypothesis =>
      have moment : c.next .access = c.access := by rw [Console.next, if_neg (by simp [goes])]
      have still : c.access.halted = false := goes
      rw [List.replicate_succ, List.foldl_cons, moment, inductionHypothesis still, Output.accesses,
        Line.run_bind]
      rfl

end

/-- Output that interrupts come into: without any, it is that of the calls of
`serial_putc`. With any at any moments, it ends after so many accesses of its
own, the transmitter never holds more than two bytes that it was not seen empty
for, and what goes out is some of its bytes with some of each handler's together
in between, all in order; everything, where the transmitter is prompt and the
handlers are few for it. -/
theorem output_interrupted (chars : List UInt8) (world : TrapWorld) {line : Line}
    (setUp : SetUp line.uart) (holds : line.Holds 2) :
    (∀ count, (lineBytes chars).length * (serialTimeoutLimit + 1) ≤ count →
      ((List.replicate count Moment.access).foldl Console.next (.start world line chars)).line =
        line.run (drive (chars.map .serialPutc))) ∧
    ∀ (moments : List Moment) (c : Console), c = moments.foldl Console.next (.start world line chars) →
      Mixed line.uart c.line.uart (lineBytes chars) c.output (c.records.map recordBytes) ∧
      c.line.Holds 2 ∧
      (c.halted = false →
        (lineBytes chars).length * (serialTimeoutLimit + 1) ≤ moments.countP Moment.isAccess →
        c.output.bytes = []) ∧
      ∀ wait, PromptWithin wait line.uart →
        (c.records.length + 1) * wait ≤ serialTimeoutLimit →
        c.Complete wait line (lineBytes chars) := by
  refine ⟨fun count enough => ?_, ?_⟩
  · rw [Console.uninterrupted count rfl]
    exact congrArg line.after (Serial.uninterrupted line.uart enough)
  · rintro moments c rfl
    have running := (Console.start_running world setUp holds chars).run moments
    refine ⟨running.mixed, running.holds.mono (Output.room_bounds _).2, fun goes enough => ?_,
      fun wait prompt few => (Console.start_complete wait world setUp chars).run moments prompt few⟩
    have left := running.left goes
    exact Output.left_eq_zero (by omega)

/-- A line that has been set up, with nothing handed over. -/
def readyLine : Line := ⟨serialInit.final powerOn, 0, 0⟩

/-- The hundredth tick comes between a look at the status and the write. -/
def tickBetween : List Moment :=
  [.access, .access, .access,
    .interrupt ⟨⟨32, by decide⟩, by decide, blankFrame, firmwarePics, none, 0, 0x202⟩, .access]

theorem output_interrupted_tickBetween :
    Mixed readyLine.uart (tickBetween.foldl Console.next
        (.start firmwareWorld readyLine (text "up"))).line.uart (lineBytes (text "up"))
        (tickBetween.foldl Console.next (.start firmwareWorld readyLine (text "up"))).output
        ((tickBetween.foldl Console.next
          (.start firmwareWorld readyLine (text "up"))).records.map recordBytes) ∧
      (tickBetween.foldl Console.next (.start firmwareWorld readyLine (text "up"))).line.Holds 2 :=
  have interrupted := (output_interrupted (text "up") firmwareWorld
    (serialInit_carried powerOn).setUp ⟨by decide, by decide⟩).2 tickBetween _ rfl
  ⟨interrupted.1, interrupted.2.1⟩

end Mcsos.Irq
