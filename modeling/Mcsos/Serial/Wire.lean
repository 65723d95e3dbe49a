import Mcsos.Serial.Model

/-!
Contract: what the log says is what goes out on the line. Nothing is
transmitted before the line is set up, whatever state the UART was in; the
bytes go out in order, with a carriage return in front of every line feed; a
byte is dropped only where the transmitter stays busy for the whole of the
wait, and the wait is bounded.
-/

namespace Mcsos.Serial

open Mcsos.Machine
open Mcsos.Machine.Prog
open Mcsos.Log

/-! ### The line -/

/-- The line status says that the transmitter is empty. -/
def ShowsEmpty (status : UInt8) : Prop := status &&& 0x20 ≠ 0

instance (status : UInt8) : Decidable (ShowsEmpty status) := inferInstanceAs (Decidable (_ ≠ _))

/-- From now on the transmitter is never busy for a whole wait. -/
def Prompt (uart : Uart) : Prop :=
  ∀ start, uart.polls ≤ start →
    ∃ wait < serialTimeoutLimit, ShowsEmpty (uart.lineStatus (start + wait))

/-- Eight data bits, no parity and one stop bit at a third of the highest rate,
which is 38400 baud; the queues are on, the outputs asserted. -/
structure SetUp (uart : Uart) : Prop where
  lineControl : uart.lineControl = 0x03
  divisorLow : uart.divisorLow = 0x03
  divisorHigh : uart.divisorHigh = 0x00
  fifoControl : uart.fifoControl = 0xC7
  modemControl : uart.modemControl = 0x0B

/-- A byte on a line that is set up. -/
def frame (byte : UInt8) : Frame := ⟨0x03, 0x03, 0x00, byte⟩

/-- The bytes that a character goes out as. -/
def crlf (char : UInt8) : List UInt8 := if char = 10 then [13, char] else [char]

/-- What has become of a UART that was given some bytes to transmit. -/
structure Carried (uart after : Uart) (bytes : List UInt8) : Prop where
  setUp : SetUp after
  delivered : ∃ passed : List UInt8, passed.Sublist bytes ∧
    after.frames = uart.frames ++ passed.map frame ∧ (Prompt uart → passed = bytes)
  lineStatus : after.lineStatus = uart.lineStatus
  waits : uart.polls ≤ after.polls ∧
    after.polls ≤ uart.polls + bytes.length * serialTimeoutLimit

theorem Carried.refl {uart : Uart} (setUp : SetUp uart) : Carried uart uart [] :=
  ⟨setUp, ⟨[], List.Sublist.refl _, by simp, fun _ => rfl⟩, rfl, Nat.le_refl _, by simp⟩

theorem Carried.prompt {uart after : Uart} {bytes : List UInt8} (carried : Carried uart after bytes)
    (prompt : Prompt uart) : Prompt after := by
  intro start later
  rw [carried.lineStatus]
  exact prompt start (carried.waits.1.trans later)

theorem Carried.trans {uart between after : Uart} {bytes more : List UInt8}
    (first : Carried uart between bytes) (second : Carried between after more) :
    Carried uart after (bytes ++ more) where
  setUp := second.setUp
  delivered := by
    obtain ⟨passed, within, frames, whole⟩ := first.delivered
    obtain ⟨later, laterWithin, laterFrames, laterWhole⟩ := second.delivered
    refine ⟨passed ++ later, within.append laterWithin, ?_, fun prompt => ?_⟩
    · rw [laterFrames, frames, List.append_assoc, List.map_append]
    · rw [whole prompt, laterWhole (first.prompt prompt)]
  lineStatus := second.lineStatus.trans first.lineStatus
  waits := by
    have before := first.waits
    have behind := second.waits
    rw [List.length_append, Nat.add_mul]
    omega

/-! ### The wait -/

/-- What a wait leaves: it has read the status so often. -/
def Uart.waited (uart : Uart) (reads : Nat) : Uart := { uart with polls := uart.polls + reads }

theorem transmitEmpty_iff (uart : Uart) :
    serialTransmitEmpty.result uart = true ↔ ShowsEmpty (uart.lineStatus uart.polls) := by
  simp [serialTransmitEmpty, PortDevice.answer, ShowsEmpty]

theorem transmitEmpty_final (uart : Uart) : serialTransmitEmpty.final uart = uart.waited 1 := by
  simp [serialTransmitEmpty, PortDevice.afterInb, Uart.waited]

/-- A wait changes nothing but the count of reads; it fails where the status
was busy at every one of them. -/
theorem awaitEmpty_spec (rounds : Nat) (uart : Uart) :
    (∃ reads ≤ rounds, (awaitEmpty rounds).final uart = uart.waited reads) ∧
      ((awaitEmpty rounds).result uart = true ↔
        ∃ wait < rounds, ShowsEmpty (uart.lineStatus (uart.polls + wait))) := by
  induction rounds generalizing uart with
  | zero => exact ⟨⟨0, Nat.le_refl 0, rfl⟩, by simp [awaitEmpty]⟩
  | succ rounds inductionHypothesis =>
      obtain ⟨⟨reads, few, later⟩, passes⟩ := inductionHypothesis (uart.waited 1)
      by_cases ready : ShowsEmpty (uart.lineStatus uart.polls)
      · have here := (transmitEmpty_iff uart).mpr ready
        simp only [awaitEmpty, final_bind, result_bind, transmitEmpty_final, here, if_true,
          final_pure, result_pure, true_iff]
        exact ⟨⟨1, by omega, rfl⟩, 0, by omega, ready⟩
      · have here := mt (transmitEmpty_iff uart).mp ready
        simp only [awaitEmpty, final_bind, result_bind, transmitEmpty_final, here, Bool.false_eq_true,
          if_false]
        refine ⟨⟨reads + 1, by omega, ?_⟩, passes.trans ⟨?_, ?_⟩⟩
        · rw [later]
          simp only [Uart.waited, Nat.add_assoc, Nat.add_comm 1]
        · rintro ⟨wait, inside, empty⟩
          refine ⟨wait + 1, by omega, ?_⟩
          rwa [Uart.waited, Nat.add_assoc, Nat.add_comm 1] at empty
        · rintro ⟨wait, inside, empty⟩
          cases wait with
          | zero => exact absurd empty ready
          | succ wait =>
              refine ⟨wait, by omega, ?_⟩
              rwa [Uart.waited, Nat.add_assoc, Nat.add_comm 1]

/-! ### One byte -/

theorem SetUp.waited {uart : Uart} (setUp : SetUp uart) (reads : Nat) : SetUp (uart.waited reads) :=
  ⟨setUp.lineControl, setUp.divisorLow, setUp.divisorHigh, setUp.fifoControl, setUp.modemControl⟩

/-- On a line that is set up the first register is the transmitter's. -/
theorem SetUp.outb_final {uart : Uart} (setUp : SetUp uart) (byte : UInt8) :
    (outb com1Port byte : UartProg Unit).final uart =
      { uart with frames := uart.frames ++ [frame byte] } := by
  have unlatched : uart.latched = false := by
    rw [Uart.latched, setUp.lineControl]
    decide
  simp [PortDevice.afterOutb, unlatched, Uart.transmit, setUp.lineControl, setUp.divisorLow,
    setUp.divisorHigh, frame]

theorem putByte_carried {uart : Uart} (setUp : SetUp uart) (byte : UInt8) :
    Carried uart ((putByte byte).final uart) [byte] := by
  obtain ⟨⟨reads, few, waited⟩, passes⟩ := awaitEmpty_spec serialTimeoutLimit uart
  have still := setUp.waited reads
  cases ready : (awaitEmpty serialTimeoutLimit).result uart with
  | true =>
      have sends : (putByte byte).final uart =
          { uart.waited reads with frames := uart.frames ++ [frame byte] } := by
        simp only [putByte, final_bind, ready, waited, if_true, still.outb_final]
        rfl
      rw [sends]
      refine ⟨⟨still.lineControl, still.divisorLow, still.divisorHigh, still.fifoControl,
        still.modemControl⟩, ⟨[byte], List.Sublist.refl _, rfl, fun _ => rfl⟩, rfl, ?_⟩
      show _ ≤ uart.polls + reads ∧ uart.polls + reads ≤ _
      simp
      omega
  | false =>
      have drops : (putByte byte).final uart = uart.waited reads := by
        simp [putByte, ready, waited]
      rw [drops]
      refine ⟨still, ⟨[], List.nil_sublist _, by simp [Uart.waited], fun prompt => ?_⟩, rfl, ?_⟩
      · have empty := passes.mpr (prompt uart.polls (Nat.le_refl _))
        rw [ready] at empty
        cases empty
      · show _ ≤ uart.polls + reads ∧ uart.polls + reads ≤ _
        simp
        omega

theorem serialPutc_carried {uart : Uart} (setUp : SetUp uart) (char : UInt8) :
    Carried uart ((serialPutc char).final uart) (crlf char) := by
  unfold serialPutc crlf
  by_cases newline : char = 10
  · simp only [newline, if_true, final_bind]
    have first := putByte_carried setUp 13
    exact first.trans (putByte_carried first.setUp 10)
  · simp only [newline, if_false]
    exact putByte_carried setUp char

/-- Setting the line up transmits nothing, whether the divisor latch was in the
way of the transmitter or not. -/
theorem serialInit_carried (uart : Uart) : Carried uart (serialInit.final uart) [] := by
  have writes : serialInit.final uart =
      { uart with
        interruptEnable := if uart.latched then uart.interruptEnable else 0
        fifoControl := 0xC7, lineControl := 0x03, modemControl := 0x0B
        divisorLow := 0x03, divisorHigh := 0x00 } := by
    by_cases unlatched : uart.lineControl &&& 0x80 = 0
    · simp [serialInit, PortDevice.afterOutb, com1Port, unlatched, Uart.latched]
    · simp [serialInit, PortDevice.afterOutb, com1Port, unlatched, Uart.latched]
  rw [writes]
  exact ⟨⟨rfl, rfl, rfl, rfl, rfl⟩, ⟨[], List.Sublist.refl _, by simp, fun _ => rfl⟩, rfl,
    Nat.le_refl _, by simp⟩

/-! ### A record of the log -/

/-- The bytes that a record is to send. -/
def lineBytes (chars : List UInt8) : List UInt8 := chars.flatMap crlf

theorem lineBytes_cons (char : UInt8) (rest : List UInt8) :
    lineBytes (char :: rest) = crlf char ++ lineBytes rest :=
  List.flatMap_cons

theorem drive_carried (record : List LogEvent) {uart : Uart} (setUp : SetUp uart) :
    Carried uart ((drive record).final uart) (lineBytes (record.filterMap LogEvent.sent)) := by
  induction record generalizing uart with
  | nil => exact Carried.refl setUp
  | cons event rest inductionHypothesis =>
      rw [drive, final_bind]
      cases event with
      | serialInit =>
          have first := serialInit_carried uart
          exact first.trans (inductionHypothesis first.setUp)
      | serialPutc char =>
          have first := serialPutc_carried setUp char
          show Carried uart _ (lineBytes (char :: rest.filterMap LogEvent.sent))
          rw [lineBytes_cons]
          exact first.trans (inductionHypothesis first.setUp)
      | storeLogReady value => exact inductionHypothesis setUp
      | storeBuf index char => exact inductionHypothesis setUp
      | loadBuf index => exact inductionHypothesis setUp

/-- What the terminal makes of the bytes: the carriage return in front of a line
feed belongs to it. -/
def readLine : List UInt8 → List UInt8
  | [] => []
  | [byte] => [byte]
  | first :: second :: rest =>
      if first = 13 ∧ second = 10 then 10 :: readLine rest else first :: readLine (second :: rest)

/-- No line feed comes first. -/
theorem lineBytes_head {chars tail : List UInt8} {second : UInt8}
    (shape : lineBytes chars = second :: tail) : second ≠ 10 := by
  cases chars with
  | nil => cases shape
  | cons char rest =>
      rw [lineBytes_cons, crlf] at shape
      by_cases newline : char = 10
      · rw [if_pos newline, List.cons_append, List.cons.injEq] at shape
        rw [← shape.1]
        decide
      · rw [if_neg newline, List.cons_append, List.cons.injEq] at shape
        rw [← shape.1]
        exact newline

/-- The characters can be read off the line. -/
theorem readLine_lineBytes (chars : List UInt8) : readLine (lineBytes chars) = chars := by
  induction chars with
  | nil => rfl
  | cons char rest inductionHypothesis =>
      rw [lineBytes_cons, crlf]
      by_cases newline : char = 10
      · rw [if_pos newline, newline]
        show (if (13 : UInt8) = 13 ∧ (10 : UInt8) = 10 then 10 :: readLine (lineBytes rest) else _) = _
        rw [if_pos ⟨rfl, rfl⟩, inductionHypothesis]
      · rw [if_neg newline]
        show readLine (char :: lineBytes rest) = _
        cases shape : lineBytes rest with
        | nil =>
            rw [shape] at inductionHypothesis
            rw [← inductionHypothesis]
            rfl
        | cons second tail =>
            rw [shape] at inductionHypothesis
            rw [readLine, if_neg fun both => lineBytes_head shape both.2, inductionHypothesis]

/-- Only the accesses that drive the port do anything to it. -/
theorem drive_filter (record : List LogEvent) (uart : Uart) :
    (drive (record.filter LogEvent.drives)).final uart = (drive record).final uart := by
  induction record generalizing uart with
  | nil => rfl
  | cons event rest inductionHypothesis =>
      have step : (drive (event :: rest)).final uart =
          (drive rest).final ((driveOne event).final uart) := by rw [drive, final_bind]
      rw [step, ← inductionHypothesis]
      cases driving : event.drives with
      | true => rw [List.filter_cons_of_pos driving, drive, final_bind]
      | false =>
          rw [List.filter_cons_of_neg (by simp [driving])]
          cases event with
          | serialInit => cases driving
          | serialPutc char => cases driving
          | storeLogReady value => rfl
          | storeBuf index char => rfl
          | loadBuf index => rfl

theorem sent_filter (record : List LogEvent) :
    (record.filter LogEvent.drives).filterMap LogEvent.sent = record.filterMap LogEvent.sent := by
  rw [List.filterMap_filter]
  congr 1
  funext event
  cases event <;> rfl

/-- A record that sets the line up first can start anywhere. -/
theorem drive_opens {record more : List LogEvent}
    (opens : record.filter LogEvent.drives = .serialInit :: more) (uart : Uart) :
    Carried uart ((drive record).final uart) (lineBytes (record.filterMap LogEvent.sent)) := by
  have first := serialInit_carried uart
  rw [← drive_filter, ← sent_filter, opens, drive, final_bind]
  exact first.trans (drive_carried more first.setUp)

/-! ### Runs of the log -/

/-- The calls of a run go out on the line: it is set up before anything is
transmitted, whether by an earlier run or by this one. -/
theorem logCalls_carried (call : LogCall) (rest : List LogCall) {w : LogWorld} {uart : Uart}
    (line : w.logReady = true → SetUp uart) :
    Carried uart ((drive ((logCalls (call :: rest)).trace w)).final uart)
      (lineBytes ((call :: rest).flatMap LogCall.chars)) := by
  rw [← logCalls_sent _ w]
  cases ready : w.logReady with
  | true => exact drive_carried _ (line ready)
  | false =>
      obtain ⟨first, opens⟩ := call.opens ready
      have record : portCalls (logCalls (call :: rest)) w = .serialInit ::
          (first ++ portCalls (logCalls rest) (call.program.final w)) := by
        rw [logCalls, portCalls_bind, opens]
        rfl
      exact drive_opens record uart

/-- What a run of the log puts on the line, whatever the UART was and whatever
its status answers: bytes of the text in order, each with the line set up and
after a bounded wait; all of them where the transmitter is prompt, and then the
text can be read off the line. -/
theorem log_calls_transmitted (call : LogCall) (rest : List LogCall) {w : LogWorld} {uart : Uart}
    (line : w.logReady = true → SetUp uart) :
    Carried uart ((drive ((logCalls (call :: rest)).trace w)).final uart)
        (lineBytes ((call :: rest).flatMap LogCall.chars)) ∧
      readLine (lineBytes ((call :: rest).flatMap LogCall.chars)) =
        (call :: rest).flatMap LogCall.chars :=
  ⟨logCalls_carried call rest line, readLine_lineBytes _⟩

/-- A UART whose divisor latch is open and whose transmitter is empty at every
third read. -/
def powerOn : Uart where
  interruptEnable := 0x0F
  fifoControl := 0
  lineControl := 0x83
  modemControl := 0
  divisorLow := 12
  divisorHigh := 0
  lineStatus := fun poll => if poll % 3 = 2 then 0x60 else 0x00
  polls := 0
  frames := []

theorem log_calls_transmitted_powerOn :
    Carried powerOn
        ((drive ((logCalls [.writeln (text "up"), .hex64 7]).trace ⟨false, fun _ => 0⟩)).final powerOn)
        (lineBytes ([.writeln (text "up"), .hex64 7].flatMap LogCall.chars)) ∧
      readLine (lineBytes ([.writeln (text "up"), .hex64 7].flatMap LogCall.chars)) =
        [.writeln (text "up"), .hex64 7].flatMap LogCall.chars :=
  log_calls_transmitted _ _ (by simp)

/-- A panic reports from any state of the log and the port, and reports from one
place that put the same bytes on the line are of the same line, code and
flags. -/
theorem panic_report_transmitted (file : Option (List UInt8)) (line : UInt32)
    (reason : Option (List UInt8)) (code rflags : UInt64) {w : LogWorld} {uart : Uart}
    (opened : w.logReady = true → SetUp uart) :
    Carried uart
        ((drive ((logCalls (kernelPanicAt file line reason code rflags)).trace w)).final uart)
        (lineBytes ((kernelPanicAt file line reason code rflags).flatMap LogCall.chars)) ∧
      ∀ line' code' rflags',
        lineBytes ((kernelPanicAt file line reason code rflags).flatMap LogCall.chars) =
            lineBytes ((kernelPanicAt file line' reason code' rflags').flatMap LogCall.chars) →
          line = line' ∧ code = code' ∧ rflags = rflags' := by
  refine ⟨logCalls_carried _ _ opened, ?_⟩
  intro line' code' rflags' same
  have texts := congrArg readLine same
  rw [readLine_lineBytes, readLine_lineBytes] at texts
  exact kernelPanicAt_injective texts

theorem panic_report_transmitted_powerOn :
    Carried powerOn
        ((drive ((logCalls (kernelPanicAt none 12 none 3 0x202)).trace ⟨false, fun _ => 0⟩)).final
          powerOn)
        (lineBytes ((kernelPanicAt none 12 none 3 0x202).flatMap LogCall.chars)) ∧
      ∀ line' code' rflags',
        lineBytes ((kernelPanicAt none 12 none 3 0x202).flatMap LogCall.chars) =
            lineBytes ((kernelPanicAt none line' none code' rflags').flatMap LogCall.chars) →
          12 = line' ∧ 3 = code' ∧ 0x202 = rflags' :=
  panic_report_transmitted none 12 none 3 0x202 (by simp)

end Mcsos.Serial
