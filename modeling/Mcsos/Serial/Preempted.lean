import Mathlib.Data.List.Forall2
import Mcsos.Serial.Wire

/-!
Contract: `serial_putc` taken one access of a port at a time, so that interrupts
can come in between. It owns what the transmitter holds at most, and that
taking the accesses one by one is what `serial_putc` does.

It does not own what interrupts do.
-/

namespace Mcsos.Serial

open Mcsos.Machine
open Mcsos.Machine.Prog
open Mcsos.Log

/-! ### The queue of the transmitter -/

/-- The UART, the number of bytes handed over since its status last showed the
transmitter empty, and the most that there have been. -/
structure Line where
  uart : Uart
  queued : Nat
  most : Nat

def Line.access (line : Line) (access : PortAccess Uart) : Line :=
  let queued :=
    match access with
    | .inb port =>
        if port = com1Port + 5 ∧ ShowsEmpty (line.uart.lineStatus line.uart.polls) then 0
        else line.queued
    | .outb port _ =>
        if port = com1Port ∧ line.uart.latched = false then line.queued + 1 else line.queued
  ⟨access.apply line.uart, queued, max line.most queued⟩

def Line.after (line : Line) (accesses : List (PortAccess Uart)) : Line :=
  accesses.foldl Line.access line

/-- So many bytes may be queued, and never were there more than two. -/
structure Line.Holds (line : Line) (bytes : Nat) : Prop where
  queued : line.queued ≤ bytes
  most : line.most ≤ 2

section

variable {line : Line} {bytes : Nat}

@[simp] theorem Line.after_nil : line.after [] = line := rfl

theorem Line.after_append (first second : List (PortAccess Uart)) :
    line.after (first ++ second) = (line.after first).after second :=
  List.foldl_append

theorem Line.after_uart (accesses : List (PortAccess Uart)) :
    (line.after accesses).uart = applyAll accesses line.uart := by
  induction accesses generalizing line with
  | nil => rfl
  | cons access rest inductionHypothesis => exact inductionHypothesis

/-- What a program leaves of the line. -/
def Line.run {α : Type} (line : Line) (program : UartProg α) : Line :=
  line.after (program.trace line.uart)

@[simp] theorem Line.run_uart {α : Type} (program : UartProg α) :
    (line.run program).uart = program.final line.uart :=
  Line.after_uart _

@[simp] theorem Line.run_pure {α : Type} (value : α) : line.run (pure value : UartProg α) = line :=
  rfl

theorem Line.run_bind {α β : Type} (program : UartProg α) (next : α → UartProg β) :
    line.run (program >>= next) = (line.run program).run (next (program.result line.uart)) := by
  rw [Line.run, trace_bind, Line.after_append, Line.run, Line.run_uart]
  rfl

theorem Line.Holds.mono {more : Nat} (holds : line.Holds bytes) (few : bytes ≤ more) :
    line.Holds more :=
  ⟨holds.queued.trans few, holds.most⟩

/-- A look at the status empties the count where it shows the transmitter
empty. -/
theorem Line.Holds.transmitEmpty (holds : line.Holds bytes) (few : bytes ≤ 2) :
    (line.run serialTransmitEmpty).Holds
      (if serialTransmitEmpty.result line.uart then 0 else bytes) := by
  have one : line.run serialTransmitEmpty = line.access (.inb (com1Port + 5)) := rfl
  have queued := holds.queued
  have most := holds.most
  by_cases empty : ShowsEmpty (line.uart.lineStatus line.uart.polls)
  · rw [if_pos ((transmitEmpty_iff _).mpr empty), one, Line.access]
    constructor
    · simp [empty]
    · simpa [empty] using most
  · rw [if_neg (mt (transmitEmpty_iff _).mp empty), one, Line.access]
    constructor
    · simpa [empty] using queued
    · simp only [empty, and_false, if_false]
      omega

theorem Line.Holds.awaitEmpty (holds : line.Holds bytes) (few : bytes ≤ 2) (rounds : Nat) :
    (line.run (awaitEmpty rounds)).Holds
      (if (awaitEmpty rounds).result line.uart then 0 else bytes) := by
  induction rounds generalizing line with
  | zero => exact holds
  | succ rounds inductionHypothesis =>
      have looked := holds.transmitEmpty few
      cases ready : serialTransmitEmpty.result line.uart with
      | true =>
          rw [ready] at looked
          simpa [Serial.awaitEmpty, Line.run_bind, ready] using looked
      | false =>
          rw [ready] at looked
          have later := inductionHypothesis looked
          simpa [Serial.awaitEmpty, Line.run_bind, ready] using later

/-- A byte handed over. -/
theorem Line.Holds.outb (holds : line.Holds bytes) (setUp : SetUp line.uart) (few : bytes ≤ 1)
    (byte : UInt8) : (line.run (outb com1Port byte : UartProg Unit)).Holds (bytes + 1) := by
  have one : line.run (Machine.outb com1Port byte : UartProg Unit) =
      line.access (.outb com1Port byte) := rfl
  have unlatched : line.uart.latched = false := by
    rw [Uart.latched, setUp.lineControl]
    decide
  have queued := holds.queued
  have most := holds.most
  rw [one, Line.access]
  constructor
  · simpa [unlatched] using queued
  · simp only [unlatched, and_self, if_true]
    omega

theorem Line.Holds.putByte (holds : line.Holds bytes) (setUp : SetUp line.uart) (some : 1 ≤ bytes)
    (few : bytes ≤ 2) (byte : UInt8) : (line.run (putByte byte)).Holds bytes := by
  obtain ⟨⟨reads, -, waited⟩, -⟩ := awaitEmpty_spec serialTimeoutLimit line.uart
  have still : SetUp (line.run (Serial.awaitEmpty serialTimeoutLimit)).uart := by
    rw [Line.run_uart, waited]
    exact setUp.waited reads
  have looked := holds.awaitEmpty few serialTimeoutLimit
  rw [Serial.putByte, Line.run_bind]
  cases ready : (Serial.awaitEmpty serialTimeoutLimit).result line.uart with
  | true =>
      rw [ready] at looked
      exact (looked.outb still (Nat.zero_le 1) byte).mono some
  | false =>
      rw [ready] at looked
      exact looked

theorem Line.Holds.serialPutc (holds : line.Holds bytes) (setUp : SetUp line.uart)
    (some : 1 ≤ bytes) (few : bytes ≤ 2) (char : UInt8) :
    (line.run (serialPutc char)).Holds bytes := by
  unfold Serial.serialPutc
  by_cases newline : char = 10
  · have still : SetUp (line.run (Serial.putByte 13)).uart := by
      rw [Line.run_uart]
      exact (putByte_carried setUp 13).setUp
    simp only [if_pos newline, Line.run_bind]
    exact (holds.putByte setUp some few 13).putByte still some few char
  · simp only [if_neg newline]
    exact holds.putByte setUp some few char

/-- A write that is not of a byte to transmit. -/
theorem Line.Holds.outb_register (holds : line.Holds bytes) (few : bytes ≤ 2) (port : UInt16)
    (value : UInt8) (register : port = com1Port → line.uart.latched = true) :
    (line.run (Machine.outb port value : UartProg Unit)).Holds bytes := by
  have one : line.run (Machine.outb port value : UartProg Unit) =
      line.access (.outb port value) := rfl
  have other : ¬ (port = com1Port ∧ line.uart.latched = false) := by
    rintro ⟨data, unlatched⟩
    rw [register data] at unlatched
    cases unlatched
  have queued := holds.queued
  have most := holds.most
  rw [one, Line.access]
  constructor
  · simpa only [if_neg other] using queued
  · simp only [if_neg other]
    omega

/-- Setting the line up hands nothing over. -/
theorem Line.Holds.serialInit (holds : line.Holds bytes) (few : bytes ≤ 2) :
    (line.run serialInit).Holds bytes := by
  have register : ∀ {line : Line} (port : UInt16) (value : UInt8), port ≠ com1Port →
      line.Holds bytes → (line.run (Machine.outb port value : UartProg Unit)).Holds bytes :=
    fun port value apart holds => holds.outb_register few port value fun data => absurd data apart
  have latched := register (com1Port + 3) 0x80 (by decide)
    (register (com1Port + 1) 0x00 (by decide) holds)
  have divisor := latched.outb_register few (com1Port + 0) 0x03 fun _ => by
    simp [PortDevice.afterOutb, com1Port, Uart.latched]
  exact register (com1Port + 4) 0x0B (by decide) (register (com1Port + 2) 0xC7 (by decide)
    (register (com1Port + 3) 0x03 (by decide) (register (com1Port + 1) 0x00 (by decide) divisor)))

/-- A record of the log, which each byte waits for. -/
theorem Line.Holds.drive (record : List LogEvent) (holds : line.Holds bytes)
    (setUp : SetUp line.uart) (some : 1 ≤ bytes) (few : bytes ≤ 2) :
    (line.run (drive record)).Holds bytes := by
  induction record generalizing line with
  | nil => exact holds
  | cons event rest inductionHypothesis =>
      rw [Serial.drive, Line.run_bind]
      cases event with
      | serialInit =>
          have still : SetUp (line.run (driveOne .serialInit)).uart := by
            rw [Line.run_uart]
            exact (serialInit_carried line.uart).setUp
          exact inductionHypothesis (holds.serialInit few) still
      | serialPutc char =>
          have still : SetUp (line.run (driveOne (.serialPutc char))).uart := by
            rw [Line.run_uart]
            exact (serialPutc_carried setUp char).setUp
          exact inductionHypothesis (holds.serialPutc setUp some few char) still
      | storeLogReady value => exact inductionHypothesis holds setUp
      | storeBuf index char => exact inductionHypothesis holds setUp
      | loadBuf index => exact inductionHypothesis holds setUp

end

/-! ### One access at a time -/

/-- Where in `serial_putc` the code is: at a look at the status, with `spin` as
it is, or at the write. -/
inductive PutPoint where
  | waiting (spin : Fin serialTimeoutLimit)
  | sending

def notSpun : Fin serialTimeoutLimit := ⟨0, by decide⟩

/-- Code in the middle of output: the bytes that are left, the one it is at
first. -/
structure Output where
  point : PutPoint
  bytes : List UInt8

/-- Output that has not begun. -/
def Output.ahead (bytes : List UInt8) : Output := ⟨.waiting notSpun, bytes⟩

/-- The next access. -/
def Output.access : Output → UartProg Output
  | ⟨_, []⟩ => pure (.ahead [])
  | ⟨.waiting spin, byte :: rest⟩ => do
      let ready ← serialTransmitEmpty
      pure (
        if ready then ⟨.sending, byte :: rest⟩
        else if more : spin + 1 < serialTimeoutLimit then
          ⟨.waiting ⟨spin + 1, more⟩, byte :: rest⟩
        else .ahead rest)
  | ⟨.sending, byte :: rest⟩ => do
      outb com1Port byte
      pure (.ahead rest)

/-- So many accesses. -/
def Output.accesses : Nat → Output → UartProg Output
  | 0, output => pure output
  | count + 1, output => do
      let output ← output.access
      output.accesses count

/-- The accesses that it takes at most. -/
def Output.left : Output → Nat
  | ⟨_, []⟩ => 0
  | ⟨.waiting spin, _ :: rest⟩ =>
      serialTimeoutLimit - spin + 1 + rest.length * (serialTimeoutLimit + 1)
  | ⟨.sending, _ :: rest⟩ => 1 + rest.length * (serialTimeoutLimit + 1)

theorem Output.left_ahead (bytes : List UInt8) :
    (ahead bytes).left = bytes.length * (serialTimeoutLimit + 1) := by
  cases bytes with
  | nil => simp [ahead, left]
  | cons byte rest => simp [ahead, left, notSpun, Nat.succ_mul, Nat.add_comm]

/-- Each access brings the end nearer, whatever the status answers. -/
theorem Output.access_left (output : Output) (uart : Uart) :
    (output.access.result uart).left ≤ output.left - 1 := by
  obtain ⟨point, bytes⟩ := output
  cases bytes with
  | nil => simp [access, left_ahead]
  | cons byte rest =>
      cases point with
      | sending =>
          rw [access, result_bind, result_pure, left_ahead, left]
          omega
      | waiting spin =>
          have below := spin.isLt
          rw [access, result_bind, result_pure]
          split
          · rw [left, left]
            omega
          · split
            · simp only [left]
              omega
            · rw [left_ahead, left]
              omega

theorem Output.left_eq_zero {output : Output} (ended : output.left = 0) : output.bytes = [] := by
  obtain ⟨point, bytes⟩ := output
  cases bytes with
  | nil => rfl
  | cons byte rest =>
      cases point with
      | sending => simp [left] at ended
      | waiting spin => simp [left] at ended

/-- What an access does. -/
inductive Output.Accessed (uart : Uart) : Output → Output → Uart → Prop where
  | finished (point : PutPoint) : Accessed uart ⟨point, []⟩ (.ahead []) uart
  | found {spin : Fin serialTimeoutLimit} {byte : UInt8} {rest : List UInt8}
      (empty : ShowsEmpty (uart.lineStatus uart.polls)) :
      Accessed uart ⟨.waiting spin, byte :: rest⟩ ⟨.sending, byte :: rest⟩ (uart.waited 1)
  | spun {spin : Fin serialTimeoutLimit} {byte : UInt8} {rest : List UInt8}
      (busy : ¬ ShowsEmpty (uart.lineStatus uart.polls)) (more : spin + 1 < serialTimeoutLimit) :
      Accessed uart ⟨.waiting spin, byte :: rest⟩ ⟨.waiting ⟨spin + 1, more⟩, byte :: rest⟩
        (uart.waited 1)
  | dropped {spin : Fin serialTimeoutLimit} {byte : UInt8} {rest : List UInt8}
      (busy : ¬ ShowsEmpty (uart.lineStatus uart.polls)) (last : serialTimeoutLimit ≤ spin + 1) :
      Accessed uart ⟨.waiting spin, byte :: rest⟩ (.ahead rest) (uart.waited 1)
  | sent (byte : UInt8) (rest : List UInt8) :
      Accessed uart ⟨.sending, byte :: rest⟩ (.ahead rest)
        { uart with frames := uart.frames ++ [frame byte] }

theorem Output.access_accessed (output : Output) {uart : Uart} (setUp : SetUp uart) :
    Accessed uart output (output.access.result uart) (output.access.final uart) := by
  obtain ⟨point, bytes⟩ := output
  cases bytes with
  | nil => exact .finished point
  | cons byte rest =>
      cases point with
      | sending =>
          rw [access, final_bind, setUp.outb_final]
          exact .sent byte rest
      | waiting spin =>
          rw [access, final_bind, transmitEmpty_final, result_bind, result_pure, final_pure]
          cases ready : serialTransmitEmpty.result uart with
          | true => exact .found ((transmitEmpty_iff uart).mp ready)
          | false =>
              have busy : ¬ ShowsEmpty (uart.lineStatus uart.polls) :=
                mt (transmitEmpty_iff uart).mpr (by simp [ready])
              by_cases more : spin.val + 1 < serialTimeoutLimit
              · simp only [Bool.false_eq_true, if_false, dif_pos more]
                exact .spun busy more
              · simp only [Bool.false_eq_true, if_false, dif_neg more]
                exact .dropped busy (Nat.not_lt.mp more)

/-- A byte that an access takes off what is left has been handed over, or was
dropped. -/
theorem Output.Accessed.hands {uart after : Uart} {output rest : Output}
    (accessed : Accessed uart output rest after) (setUp : SetUp uart) :
    SetUp after ∧ ∃ more : List UInt8, after.frames = uart.frames ++ more.map frame ∧
      (more ++ rest.bytes).Sublist output.bytes := by
  cases accessed with
  | finished => exact ⟨setUp, [], by simp, List.Sublist.refl _⟩
  | found => exact ⟨setUp.waited 1, [], by simp [Uart.waited], List.Sublist.refl _⟩
  | spun => exact ⟨setUp.waited 1, [], by simp [Uart.waited], List.Sublist.refl _⟩
  | dropped => exact ⟨setUp.waited 1, [], by simp [Uart.waited], List.sublist_cons_self _ _⟩
  | sent byte =>
      exact ⟨⟨setUp.lineControl, setUp.divisorLow, setUp.divisorHigh, setUp.fifoControl,
        setUp.modemControl⟩, [byte], rfl, List.Sublist.refl _⟩

/-- How many bytes may be queued: one less where the next access hands one
over. -/
def Output.room : Output → Nat
  | ⟨.sending, _ :: _⟩ => 1
  | _ => 2

theorem Output.room_bounds (output : Output) : 1 ≤ output.room ∧ output.room ≤ 2 := by
  unfold room
  split <;> omega

theorem Line.Holds.access {line : Line} {output : Output} (holds : line.Holds output.room)
    (setUp : SetUp line.uart) :
    (line.run output.access).Holds (output.access.result line.uart).room := by
  obtain ⟨point, bytes⟩ := output
  cases bytes with
  | nil => exact holds.mono (Output.room_bounds _).2
  | cons byte rest =>
      cases point with
      | sending =>
          rw [Output.access, Line.run_bind]
          exact holds.outb setUp (Nat.le_refl 1) byte
      | waiting spin =>
          have looked := holds.transmitEmpty (Nat.le_refl 2)
          rw [Output.access, Line.run_bind, Line.run_pure, result_bind, result_pure]
          cases ready : serialTransmitEmpty.result line.uart with
          | true =>
              rw [ready] at looked
              exact looked.mono (Nat.zero_le _)
          | false =>
              rw [ready] at looked
              by_cases more : spin.val + 1 < serialTimeoutLimit
              · simp only [Bool.false_eq_true, if_false, dif_pos more]
                exact looked
              · simp only [Bool.false_eq_true, if_false, dif_neg more]
                exact looked

/-! ### Without interrupts -/

/-- One byte after the other. -/
def putBytes : List UInt8 → UartProg Unit
  | [] => pure ()
  | byte :: rest => do
      putByte byte
      putBytes rest

/-- What is left of the calls. -/
def Output.finish : Output → UartProg Unit
  | ⟨_, []⟩ => pure ()
  | ⟨.waiting spin, byte :: rest⟩ => do
      let ready ← awaitEmpty (serialTimeoutLimit - spin)
      if ready then outb com1Port byte else pure ()
      putBytes rest
  | ⟨.sending, byte :: rest⟩ => do
      outb com1Port byte
      putBytes rest

variable (uart : Uart)

theorem Output.finish_ahead (bytes : List UInt8) :
    (ahead bytes).finish.trace uart = (putBytes bytes).trace uart := by
  cases bytes with
  | nil => rfl
  | cons byte rest =>
      have whole : serialTimeoutLimit - notSpun.val = serialTimeoutLimit := rfl
      rw [ahead, finish, putBytes, putByte, whole]
      cases ready : (awaitEmpty serialTimeoutLimit).result uart with
      | true => simp [ready]
      | false => simp [ready]

/-- The next access is the first of what is left. -/
theorem Output.finish_access (output : Output) :
    output.finish.trace uart =
      output.access.trace uart ++
        (output.access.result uart).finish.trace (output.access.final uart) := by
  obtain ⟨point, bytes⟩ := output
  cases bytes with
  | nil => rfl
  | cons byte rest =>
      cases point with
      | sending =>
          rw [access, finish]
          simp [finish_ahead]
      | waiting spin =>
          have below := spin.isLt
          have rounds : serialTimeoutLimit - spin.val =
              serialTimeoutLimit - (spin.val + 1) + 1 := by omega
          rw [access, finish, rounds, awaitEmpty]
          cases ready : serialTransmitEmpty.result uart with
          | true => simp [ready, finish]
          | false =>
              by_cases more : spin.val + 1 < serialTimeoutLimit
              · simp [ready, more, finish]
              · have last : serialTimeoutLimit - (spin.val + 1) = 0 := by omega
                simp [ready, more, last, awaitEmpty, finish_ahead]

/-- Taken to the end, the accesses are those of the calls. -/
theorem Output.accesses_trace {count : Nat} {output : Output} (enough : output.left ≤ count) :
    (accesses count output).trace uart = output.finish.trace uart := by
  induction count generalizing output uart with
  | zero =>
      have ended := left_eq_zero (Nat.le_zero.mp enough)
      obtain ⟨point, bytes⟩ := output
      cases ended
      rfl
  | succ count inductionHypothesis =>
      have nearer := output.access_left uart
      rw [accesses, trace_bind, finish_access, inductionHypothesis _ (by omega)]

theorem putBytes_append (first second : List UInt8) :
    (putBytes (first ++ second)).trace uart =
      (putBytes first).trace uart ++ (putBytes second).trace ((putBytes first).final uart) := by
  induction first generalizing uart with
  | nil => rfl
  | cons byte rest inductionHypothesis =>
      rw [List.cons_append, putBytes, putBytes, trace_bind, trace_bind, final_bind,
        inductionHypothesis, List.append_assoc]

/-- Calls of `serial_putc` one after the other. -/
theorem drive_putBytes (chars : List UInt8) :
    (drive (chars.map .serialPutc)).trace uart = (putBytes (lineBytes chars)).trace uart := by
  have one : ∀ char uart, (serialPutc char).trace uart = (putBytes (crlf char)).trace uart := by
    intro char uart
    by_cases newline : char = 10
    · simp [serialPutc, crlf, newline, putBytes]
    · simp [serialPutc, crlf, newline, putBytes]
  induction chars generalizing uart with
  | nil => rfl
  | cons char rest inductionHypothesis =>
      have same : (serialPutc char).final uart = (putBytes (crlf char)).final uart :=
        congrArg (applyAll · uart) (one char uart)
      rw [lineBytes_cons, putBytes_append, ← one, ← same, ← inductionHypothesis]
      rfl

/-- Code that is not interrupted does what its calls of `serial_putc` do. -/
theorem uninterrupted {count : Nat} {chars : List UInt8}
    (enough : (lineBytes chars).length * (serialTimeoutLimit + 1) ≤ count) :
    (Output.accesses count (.ahead (lineBytes chars))).trace uart =
      (drive (chars.map .serialPutc)).trace uart := by
  rw [Output.accesses_trace uart (by rwa [Output.left_ahead]), Output.finish_ahead, drive_putBytes]

/-! ### With other output in between -/

/-- The letters of a sequence with whole words between them, all in order. -/
inductive Merges {α : Type} : List α → List (List α) → List α → Prop
  | start : Merges [] [] []
  | letters {own merged : List α} {words : List (List α)} (more : List α) :
      Merges own words merged → Merges (own ++ more) words (merged ++ more)
  | word {own merged : List α} {words : List (List α)} (word : List α) :
      Merges own words merged → Merges own (words ++ [word]) (merged ++ word)

/-- What has gone out since the start: of the code's own bytes and of each of
the texts in between some, in order. -/
structure Mixed (start uart : Uart) (bytes : List UInt8) (output : Output)
    (texts : List (List UInt8)) : Prop where
  setUp : SetUp uart
  frames : ∃ own words merged, Merges own words merged ∧
    uart.frames = start.frames ++ merged.map frame ∧
    (own ++ output.bytes).Sublist bytes ∧ List.Forall₂ List.Sublist words texts

/-- From now on the status never shows the transmitter busy for so many looks in
a row. -/
def PromptWithin (wait : Nat) (uart : Uart) : Prop :=
  ∀ start, uart.polls ≤ start → ∃ look < wait, ShowsEmpty (uart.lineStatus (start + look))

/-- The last so many looks have found the transmitter busy. -/
def BusyFor (uart : Uart) (looks : Nat) : Prop :=
  ∀ earlier < looks, ¬ ShowsEmpty (uart.lineStatus (uart.polls - looks + earlier))

/-- Everything has gone out, as each text in between has cost the code less than
one wait. -/
structure Complete (wait : Nat) (start uart : Uart) (bytes : List UInt8) (output : Output)
    (texts : List (List UInt8)) : Prop where
  setUp : SetUp uart
  lineStatus : uart.lineStatus = start.lineStatus
  polls : start.polls ≤ uart.polls
  patience : ∀ spin, output.point = .waiting spin → ∃ looks,
    spin.val ≤ texts.length * (wait - 1) + looks ∧ start.polls + looks ≤ uart.polls ∧
      BusyFor uart looks
  frames : ∃ own merged, Merges own texts merged ∧
    uart.frames = start.frames ++ merged.map frame ∧ own ++ output.bytes = bytes

section

variable {wait : Nat} {start uart after : Uart} {bytes text : List UInt8} {output rest : Output}
  {texts : List (List UInt8)}

theorem Mixed.access (mixed : Mixed start uart bytes output texts)
    (accessed : Output.Accessed uart output rest after) : Mixed start after bytes rest texts := by
  obtain ⟨own, words, merged, merges, frames, within, others⟩ := mixed.frames
  obtain ⟨setUp, more, handed, left⟩ := accessed.hands mixed.setUp
  refine ⟨setUp, own ++ more, words, merged ++ more, merges.letters more, ?_, ?_, others⟩
  · rw [handed, frames, List.append_assoc, List.map_append]
  · rw [List.append_assoc]
    exact (left.append_left own).trans within

theorem Mixed.carried (mixed : Mixed start uart bytes output texts)
    (carried : Carried uart after text) : Mixed start after bytes output (texts ++ [text]) := by
  obtain ⟨own, words, merged, merges, frames, within, others⟩ := mixed.frames
  obtain ⟨word, part, handed, -⟩ := carried.delivered
  refine ⟨carried.setUp, own, words ++ [word], merged ++ word, merges.word word, ?_, within,
    List.rel_append others (.cons part .nil)⟩
  rw [handed, frames, List.append_assoc, List.map_append]

theorem PromptWithin.busy_lt (prompt : PromptWithin wait start)
    (same : uart.lineStatus = start.lineStatus) {looks : Nat}
    (room : start.polls + looks ≤ uart.polls) (busy : BusyFor uart looks) : looks < wait := by
  obtain ⟨look, soon, empty⟩ := prompt (uart.polls - looks) (by omega)
  by_contra long
  rw [← same] at empty
  exact busy look (by omega) empty

/-- A look that finds the transmitter busy is one more. -/
theorem BusyFor.succ {looks : Nat} (busy : BusyFor uart looks) (inside : looks ≤ uart.polls)
    (now : ¬ ShowsEmpty (uart.lineStatus uart.polls)) : BusyFor (uart.waited 1) (looks + 1) := by
  intro earlier before
  have begin : uart.polls + 1 - (looks + 1) = uart.polls - looks := by omega
  show ¬ ShowsEmpty (uart.lineStatus (uart.polls + 1 - (looks + 1) + earlier))
  rw [begin]
  rcases Nat.lt_succ_iff_lt_or_eq.mp before with past | rfl
  · exact busy earlier past
  · rwa [Nat.sub_add_cancel inside]

/-- At the start of a byte there has been no wait. -/
theorem ahead_patience (polls : start.polls ≤ uart.polls) {left : List UInt8}
    {spin : Fin serialTimeoutLimit} (here : (Output.ahead left).point = .waiting spin) :
    ∃ looks, spin.val ≤ texts.length * (wait - 1) + looks ∧ start.polls + looks ≤ uart.polls ∧
      BusyFor uart looks := by
  cases here
  exact ⟨0, Nat.zero_le _, polls, fun _ none => absurd none (Nat.not_lt_zero _)⟩

theorem Complete.access (complete : Complete wait start uart bytes output texts)
    (prompt : PromptWithin wait start) (few : (texts.length + 1) * wait ≤ serialTimeoutLimit)
    (accessed : Output.Accessed uart output rest after) :
    Complete wait start after bytes rest texts := by
  have setUp := (accessed.hands complete.setUp).1
  obtain ⟨own, merged, merges, frames, whole⟩ := complete.frames
  have polls := complete.polls
  cases accessed with
  | finished =>
      exact ⟨setUp, complete.lineStatus, polls, fun spin here => ahead_patience polls here,
        own, merged, merges, frames, whole⟩
  | found =>
      refine ⟨setUp, complete.lineStatus, polls.trans (Nat.le_add_right _ 1), ?_, own, merged,
        merges, frames, whole⟩
      rintro spin ⟨⟩
  | spun busy more =>
      obtain ⟨looks, spun, room, busyFor⟩ := complete.patience _ rfl
      refine ⟨setUp, complete.lineStatus, polls.trans (Nat.le_add_right _ 1), ?_, own, merged,
        merges, frames, whole⟩
      rintro spin ⟨⟩
      exact ⟨looks + 1, by simp only; omega, by simp only [Uart.waited]; omega,
        busyFor.succ (by omega) busy⟩
  | dropped busy last =>
      -- so long a wait would be made of waits that are too short, one for each text and this one
      obtain ⟨looks, spun, room, busyFor⟩ := complete.patience _ rfl
      have same : (uart.waited 1).lineStatus = start.lineStatus := complete.lineStatus
      have short := prompt.busy_lt same (by simp only [Uart.waited]; omega)
        (busyFor.succ (by omega) busy)
      have waits : texts.length * (wait - 1) ≤ texts.length * wait :=
        Nat.mul_le_mul_left _ (Nat.sub_le wait 1)
      rw [Nat.succ_mul] at few
      omega
  | sent byte =>
      refine ⟨setUp, complete.lineStatus, polls, fun spin here => ahead_patience polls here,
        own ++ [byte], merged ++ [byte], merges.letters [byte], ?_, ?_⟩
      · rw [frames, List.append_assoc, List.map_append]
        rfl
      · rw [List.append_assoc]
        exact whole

/-- A text in between ends one wait at most. -/
theorem Complete.carried (complete : Complete wait start uart bytes output texts)
    (prompt : PromptWithin wait start) (few : wait ≤ serialTimeoutLimit)
    (carried : Carried uart after text) :
    Complete wait start after bytes output (texts ++ [text]) := by
  obtain ⟨own, merged, merges, frames, whole⟩ := complete.frames
  obtain ⟨word, part, handed, all⟩ := carried.delivered
  have lineStatus := carried.lineStatus.trans complete.lineStatus
  have polls := complete.polls.trans carried.waits.1
  have every : word = text := by
    apply all
    intro first later
    obtain ⟨look, soon, empty⟩ := prompt first (complete.polls.trans later)
    rw [← complete.lineStatus] at empty
    exact ⟨look, soon.trans_le few, empty⟩
  refine ⟨carried.setUp, lineStatus, polls, ?_, own, merged ++ word, ?_, ?_, whole⟩
  · intro spin here
    obtain ⟨looks, spun, room, busyFor⟩ := complete.patience spin here
    have short := prompt.busy_lt complete.lineStatus room busyFor
    refine ⟨0, ?_, polls, fun _ none => absurd none (Nat.not_lt_zero _)⟩
    rw [List.length_append, List.length_singleton, Nat.succ_mul]
    omega
  · rw [← every]
    exact merges.word word
  · rw [handed, frames, List.append_assoc, List.map_append]

end

end Mcsos.Serial
