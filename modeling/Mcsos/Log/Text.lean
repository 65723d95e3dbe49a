import Mcsos.Log.Decimal

/-!
Contract: what the functions of `kernel/core/log.c` ask of the serial port. The
port is set up before the first character, whichever function is called first,
and the characters follow in order.
-/

namespace Mcsos.Log

open Mcsos.Machine
open Mcsos.Machine.Prog

/-! ### Strings -/

/-- The characters of a literal. -/
def text (literal : String) : List UInt8 :=
  literal.toList.map fun char => UInt8.ofNat char.toNat

/-- `while (*s != '\0') serial_putc(*s++)`, by the characters in front of the
terminator. -/
def putChars : List UInt8 → LogProg Unit
  | [] => pure ()
  | char :: rest => do
      emit (.serialPutc char)
      putChars rest

/-- `serial_write`; the null pointer is `none`. -/
def serialWrite : Option (List UInt8) → LogProg Unit
  | none => pure ()
  | some chars => putChars chars

def logInit : LogProg Unit := do
  emit .serialInit
  emit (.storeLogReady true)

def logWrite (s : Option (List UInt8)) : LogProg Unit := do
  logPrepare
  serialWrite s

def logWriteln (s : Option (List UInt8)) : LogProg Unit := do
  logWrite s
  logPutc 10

/-! ### What is asked of the port -/

/-- The access is a call that drives the port. -/
def LogEvent.drives : LogEvent → Bool
  | .serialInit | .serialPutc _ => true
  | .storeLogReady _ | .storeBuf _ _ | .loadBuf _ => false

/-- The calls a program makes, in order. -/
def portCalls {α : Type} (program : LogProg α) (w : LogWorld) : List LogEvent :=
  (program.trace w).filter LogEvent.drives

/-- The port is set up first where it has not been, and is ready from then
on. -/
structure Prepared {α : Type} (program : LogProg α) (w : LogWorld) : Prop where
  calls : portCalls program w =
    (if w.logReady then [] else [.serialInit]) ++ (sent program w).map .serialPutc
  ready : (program.final w).logReady = true

/-- Nothing is asked of the port but to send, and it stays as ready as it
was. -/
structure Plain {α : Type} (program : LogProg α) (w : LogWorld) : Prop where
  calls : portCalls program w = (sent program w).map .serialPutc
  ready : (program.final w).logReady = w.logReady

section

variable {α β : Type} {program : LogProg α} {next : α → LogProg β} {w : LogWorld}

theorem portCalls_bind (program : LogProg α) (next : α → LogProg β) (w : LogWorld) :
    portCalls (program >>= next) w =
      portCalls program w ++ portCalls (next (program.result w)) (program.final w) := by
  rw [portCalls, trace_bind, List.filter_append]
  rfl

theorem Plain.bind (first : Plain program w)
    (second : Plain (next (program.result w)) (program.final w)) :
    Plain (program >>= next) w where
  calls := by rw [portCalls_bind, first.calls, second.calls, sent_bind, List.map_append]
  ready := by rw [final_bind, second.ready, first.ready]

/-- What asks nothing of the port can come first. -/
theorem Plain.silent_bind (first : Plain program w) (silent : sent program w = [])
    (second : Prepared (next (program.result w)) (program.final w)) :
    Prepared (program >>= next) w where
  calls := by
    rw [portCalls_bind, first.calls, second.calls, sent_bind, silent, first.ready]
    rfl
  ready := by rw [final_bind, second.ready]

theorem Prepared.bind_plain (first : Prepared program w)
    (second : Plain (next (program.result w)) (program.final w)) :
    Prepared (program >>= next) w where
  calls := by
    rw [portCalls_bind, first.calls, second.calls, sent_bind, List.map_append, List.append_assoc]
  ready := by rw [final_bind, second.ready, first.ready]

/-- A program that sees to the port itself does nothing about one that is
ready. -/
theorem Prepared.plain (prepared : Prepared program w) (ready : w.logReady = true) :
    Plain program w where
  calls := by
    rw [prepared.calls, ready]
    rfl
  ready := prepared.ready.trans ready.symm

theorem Prepared.bind (first : Prepared program w)
    (second : Prepared (next (program.result w)) (program.final w)) :
    Prepared (program >>= next) w :=
  first.bind_plain (second.plain first.ready)

end

/-- The program sends these characters, whatever the state of the log. -/
structure Utters (program : LogProg Unit) (chars : List UInt8) : Prop where
  prepared : ∀ w, Prepared program w
  sends : ∀ w, sent program w = chars

theorem Utters.bind {program next : LogProg Unit} {chars rest : List UInt8}
    (first : Utters program chars) (second : Utters next rest) :
    Utters (program >>= fun _ => next) (chars ++ rest) where
  prepared w := (first.prepared w).bind (second.prepared _)
  sends w := by rw [sent_bind, first.sends, second.sends]

theorem logPrepare_trace (w : LogWorld) :
    logPrepare.trace w = if w.logReady then [] else [.serialInit, .storeLogReady true] := by
  cases ready : w.logReady with
  | true => simp [logPrepare, ready]
  | false => simp [logPrepare, ready]

theorem logPrepare_utters : Utters logPrepare [] where
  prepared w := by
    constructor
    · rw [portCalls, sent, logPrepare_trace]
      split <;> rfl
    · rw [final, logPrepare_trace]
      cases ready : w.logReady with
      | true => exact ready
      | false => rfl
  sends w := by
    rw [sent, logPrepare_trace]
    split <;> rfl

theorem putc_plain (char : UInt8) (w : LogWorld) :
    Plain (emit (.serialPutc char) : LogProg Unit) w :=
  ⟨rfl, rfl⟩

theorem logPutc_utters (char : UInt8) : Utters (logPutc char) [char] where
  prepared w := (logPrepare_utters.prepared w).bind_plain (putc_plain char _)
  sends w := logPutc_sent char w

theorem putChars_plain (chars : List UInt8) (w : LogWorld) :
    Plain (putChars chars) w ∧ sent (putChars chars) w = chars := by
  induction chars generalizing w with
  | nil => exact ⟨⟨rfl, rfl⟩, rfl⟩
  | cons char rest inductionHypothesis =>
      obtain ⟨plain, sends⟩ := inductionHypothesis ((emit (.serialPutc char) : LogProg Unit).final w)
      refine ⟨(putc_plain char w).bind plain, ?_⟩
      rw [putChars, sent_bind, sends]
      rfl

/-- Nothing is sent for the null pointer. -/
theorem logWrite_utters (s : Option (List UInt8)) : Utters (logWrite s) (s.getD []) := by
  have plain : ∀ w, Plain (serialWrite s) w ∧ sent (serialWrite s) w = s.getD [] := by
    intro w
    cases s with
    | none => exact ⟨⟨rfl, rfl⟩, rfl⟩
    | some chars => exact putChars_plain chars w
  constructor
  · intro w
    exact (logPrepare_utters.prepared w).bind_plain (plain _).1
  · intro w
    rw [logWrite, sent_bind, logPrepare_utters.sends, (plain _).2]
    rfl

theorem logWriteln_utters (s : Option (List UInt8)) : Utters (logWriteln s) (s.getD [] ++ [10]) :=
  (logWrite_utters s).bind (logPutc_utters 10)

/-! ### Numbers -/

theorem putDigits_plain (count : Nat) {w : LogWorld} (ready : w.logReady = true) :
    Plain (putDigits count) w := by
  induction count generalizing w with
  | zero => exact ⟨rfl, rfl⟩
  | succ count inductionHypothesis =>
      have putc := ((logPutc_utters (w.buf count)).prepared w)
      exact Plain.bind ⟨rfl, rfl⟩ (Plain.bind ⟨rfl, rfl⟩
        ((putc.plain ready).bind (inductionHypothesis putc.ready)))

theorem putDigits_prepared (count : Nat) (w : LogWorld) : Prepared (putDigits (count + 1)) w := by
  have putc := ((logPutc_utters (w.buf count)).prepared w)
  exact Plain.silent_bind ⟨rfl, rfl⟩ rfl (Plain.silent_bind ⟨rfl, rfl⟩ rfl
    (putc.bind_plain (putDigits_plain count putc.ready)))

theorem fillDigits_plain (limit i value : Nat) (w : LogWorld) : Plain (fillDigits limit i value) w := by
  induction value using Nat.strong_induction_on generalizing i w with
  | h value inductionHypothesis =>
      by_cases round : value ≠ 0 ∧ i < limit
      · rw [fillDigits_round round.1 round.2]
        have smaller : value / 10 < value := Nat.div_lt_self (Nat.pos_of_ne_zero round.1) (by decide)
        exact Plain.bind ⟨rfl, rfl⟩ (inductionHypothesis _ smaller (i + 1) _)
      · rw [fillDigits, if_neg round]
        exact ⟨rfl, rfl⟩

theorem logDec_utters {limit value : Nat} (room : (Nat.digits 10 value).length ≤ limit) :
    Utters (logDec limit value) (numeral value) := by
  refine ⟨fun w => ?_, logDec_sent room⟩
  unfold logDec
  by_cases zero : value = 0
  · rw [if_pos zero]
    exact (logPutc_utters (digitByte 0)).prepared w
  · have filled := filled_of_room room w
    have some : (Nat.digits 10 value).length = (Nat.digits 10 value).length - 1 + 1 := by
      have nonempty : Nat.digits 10 value ≠ [] := Nat.digits_ne_nil_iff_ne_zero.mpr zero
      have positive := List.length_pos_of_ne_nil nonempty
      omega
    rw [if_neg zero]
    refine (fillDigits_plain limit 0 value w).silent_bind filled.silent ?_
    rw [filled.result, Nat.zero_add, some]
    exact putDigits_prepared _ _

end Mcsos.Log
