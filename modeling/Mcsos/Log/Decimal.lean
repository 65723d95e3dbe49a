import Mcsos.Log.Model

/-!
Contract: what `log_dec64` and `log_dec_u32` send is the numeral of the value.

The first loop leaves the digits in the array, the last one first, and the
second loop sends them from the back. The bounds of the first loop are never
what ends it, because the array has room for the longest numeral.
-/

namespace Mcsos.Log

open Mcsos.Machine
open Mcsos.Machine.Prog

/-- The character that an access sends. -/
def LogEvent.sent : LogEvent → Option UInt8
  | .serialPutc char => some char
  | .storeLogReady _ | .storeBuf _ _ | .loadBuf _ | .serialInit => none

/-- The characters that a program sends, in order. -/
def sent {α : Type} (program : LogProg α) (w : LogWorld) : List UInt8 :=
  (program.trace w).filterMap LogEvent.sent

/-- An access of the array is inside it. -/
def LogEvent.InArray (length : Nat) : LogEvent → Prop
  | .storeBuf index _ | .loadBuf index => index < length
  | .storeLogReady _ | .serialInit | .serialPutc _ => True

/-! ### Output -/

section

variable {α β : Type}

theorem sent_bind (program : LogProg α) (next : α → LogProg β) (w : LogWorld) :
    sent (program >>= next) w =
      sent program w ++ sent (next (program.result w)) (program.final w) := by
  rw [sent, trace_bind, List.filterMap_append]
  rfl

/-- A character is sent once the port is ready, which is seen to first. -/
theorem logPutc_trace (char : UInt8) (w : LogWorld) :
    (logPutc char).trace w =
      (if w.logReady then [] else [.serialInit, .storeLogReady true]) ++ [.serialPutc char] := by
  cases ready : w.logReady with
  | true => simp [logPutc, logPrepare, ready]
  | false => simp [logPutc, logPrepare, ready]

theorem logPutc_sent (char : UInt8) (w : LogWorld) : sent (logPutc char) w = [char] := by
  rw [sent, logPutc_trace]
  split <;> rfl

theorem logPutc_buf (char : UInt8) (w : LogWorld) : ((logPutc char).final w).buf = w.buf := by
  rw [final, logPutc_trace]
  split <;> rfl

theorem logPutc_issues (length : Nat) (char : UInt8) (w : LogWorld) :
    (logPutc char).Issues (LogEvent.InArray length) w := by
  intro event issued
  rw [logPutc_trace] at issued
  cases event with
  | storeBuf index char => split at issued <;> simp at issued
  | loadBuf index => split at issued <;> simp at issued
  | storeLogReady value => trivial
  | serialInit => trivial
  | serialPutc char => trivial

end

/-- The array is sent from the back. -/
theorem putDigits_sent (count : Nat) (w : LogWorld) :
    sent (putDigits count) w = ((List.range count).map w.buf).reverse := by
  induction count generalizing w with
  | zero => rfl
  | succ count inductionHypothesis =>
      have load : sent (emit (.loadBuf count)) w = [] := rfl
      have same : (emit (.loadBuf count) : LogProg Unit).final w = w := rfl
      rw [putDigits, sent_bind, load, same, sent_bind, result_get, final_get, sent_bind,
        logPutc_sent, inductionHypothesis, logPutc_buf, List.range_succ]
      simp [sent]

theorem putDigits_issues {count length : Nat} (inside : count ≤ length) (w : LogWorld) :
    (putDigits count).Issues (LogEvent.InArray length) w := by
  induction count generalizing w with
  | zero => simp [putDigits]
  | succ count inductionHypothesis =>
      simp only [putDigits, issues_bind, issues_emit, issues_get, true_and]
      exact ⟨inside, logPutc_issues length _ _, inductionHypothesis (Nat.le_of_succ_le inside) _⟩

/-! ### Digits -/

theorem fillDigits_done (limit i : Nat) : fillDigits limit i 0 = pure (i, 0) := by
  rw [fillDigits, if_neg (by simp)]

theorem fillDigits_round {limit i value : Nat} (more : value ≠ 0) (room : i < limit) :
    fillDigits limit i value =
      (emit (.storeBuf i (digitByte (value % 10))) >>= fun _ =>
        fillDigits limit (i + 1) (value / 10)) := by
  rw [fillDigits, if_pos ⟨more, room⟩]

/-- The value is taken apart into its digits, which are in the array from `i`
on, and nothing is sent. -/
structure Filled (limit i value : Nat) (digits : List Nat) (w : LogWorld) : Prop where
  result : (fillDigits limit i value).result w = (i + digits.length, 0)
  stored : ∀ place < digits.length,
    ((fillDigits limit i value).final w).buf (i + place) = digitByte (digits.getD place 0)
  earlier : ∀ index < i, ((fillDigits limit i value).final w).buf index = w.buf index
  silent : sent (fillDigits limit i value) w = []
  issues : ∀ length, i + digits.length ≤ length →
    (fillDigits limit i value).Issues (LogEvent.InArray length) w

theorem filled_zero (limit i : Nat) (w : LogWorld) : Filled limit i 0 [] w := by
  constructor
  · rw [fillDigits_done, result_pure]
    rfl
  · intro place impossible
    cases impossible
  · intro index _
    rw [fillDigits_done, final_pure]
  · rw [fillDigits_done]
    rfl
  · intro length _
    rw [fillDigits_done]
    exact issues_pure _ _ _

/-- One round of the loop: the last digit is stored in front of the others. -/
theorem Filled.round {limit i value : Nat} {rest : List Nat} {w : LogWorld} (more : value ≠ 0)
    (room : i < limit)
    (later : Filled limit (i + 1) (value / 10) rest
      { w with buf := Function.update w.buf i (digitByte (value % 10)) }) :
    Filled limit i value (value % 10 :: rest) w := by
  have round := fillDigits_round more room
  have stores : (emit (.storeBuf i (digitByte (value % 10))) : LogProg Unit).final w =
      { w with buf := Function.update w.buf i (digitByte (value % 10)) } := rfl
  have shift : i + (value % 10 :: rest).length = i + 1 + rest.length := by
    rw [List.length_cons]
    omega
  constructor
  · rw [round, result_bind, stores, later.result, shift]
  · intro place inside
    rw [round, final_bind, stores]
    cases place with
    | zero =>
        exact (later.earlier i (Nat.lt_succ_self i)).trans (Function.update_self i _ _)
    | succ place =>
        have there := later.stored place (Nat.lt_of_succ_lt_succ inside)
        rwa [show i + 1 + place = i + (place + 1) by omega] at there
  · intro index before
    rw [round, final_bind, stores, later.earlier index (Nat.lt_succ_of_lt before)]
    exact Function.update_of_ne (Nat.ne_of_lt before) _ _
  · rw [round, sent_bind, stores, later.silent]
    rfl
  · intro length inside
    rw [shift] at inside
    rw [round, issues_bind, stores, issues_emit]
    have here : i < length := by omega
    exact ⟨here, later.issues length inside⟩

/-- Where there is room for the digits, the loop ends because the value does. -/
theorem fillDigits_filled {limit i value : Nat} {digits : List Nat}
    (isDigits : Nat.digits 10 value = digits) (room : i + digits.length ≤ limit) (w : LogWorld) :
    Filled limit i value digits w := by
  induction digits generalizing i value w with
  | nil =>
      obtain rfl : value = 0 := Nat.digits_eq_nil_iff_eq_zero.mp isDigits
      exact filled_zero limit i w
  | cons digit rest inductionHypothesis =>
      have more : value ≠ 0 := by
        rintro rfl
        simp at isDigits
      rw [Nat.digits_def' (by decide) (Nat.pos_of_ne_zero more), List.cons.injEq] at isDigits
      obtain ⟨rfl, isRest⟩ := isDigits
      rw [List.length_cons] at room
      exact Filled.round more (by omega) (inductionHypothesis isRest (by omega) _)

/-! ### Whole numbers -/

section

variable {limit value : Nat} (room : (Nat.digits 10 value).length ≤ limit)

include room

theorem filled_of_room (w : LogWorld) : Filled limit 0 value (Nat.digits 10 value) w := by
  rw [← Nat.zero_add (Nat.digits 10 value).length] at room
  exact fillDigits_filled rfl room w

theorem logDec_sent (w : LogWorld) : sent (logDec limit value) w = numeral value := by
  unfold logDec numeral
  by_cases zero : value = 0
  · rw [if_pos zero, if_pos zero, logPutc_sent]
    rfl
  · have filled := filled_of_room room w
    rw [if_neg zero, if_neg zero, sent_bind, filled.silent, filled.result, putDigits_sent,
      List.nil_append, Nat.zero_add]
    congr 1
    apply List.ext_getElem (by simp)
    intro place inside otherInside
    have small : place < (Nat.digits 10 value).length := by simpa using inside
    have stored := filled.stored place small
    rw [Nat.zero_add] at stored
    simp [stored, small]

theorem logDec_issues {length : Nat} (fits : limit ≤ length) (w : LogWorld) :
    (logDec limit value).Issues (LogEvent.InArray length) w := by
  unfold logDec
  by_cases zero : value = 0
  · rw [if_pos zero]
    exact logPutc_issues length _ w
  · have filled := filled_of_room room w
    have inside : 0 + (Nat.digits 10 value).length ≤ length := by omega
    rw [if_neg zero, issues_bind, filled.result]
    exact ⟨filled.issues length inside, putDigits_issues inside _⟩

end

theorem digits64_length (value : UInt64) : (Nat.digits 10 value.toNat).length ≤ 20 :=
  digits_length_le (lt_trans value.toNat_lt (by decide))

theorem digits32_length (value : UInt32) : (Nat.digits 10 value.toNat).length ≤ decU32Length :=
  digits_length_le (lt_trans value.toNat_lt (by decide))

/-- `log_dec64` sends the numeral of every value, and its bound never ends the
loop; `log_dec_u32` sends the same for every value that it can be called with.
Neither leaves its array. -/
theorem decimal_logging_exact (w : LogWorld) :
    (∀ value : UInt64,
      IsNumeral (sent (logDec64 value) w) value.toNat ∧
        ((fillDigits 20 0 value.toNat).result w).2 = 0 ∧
        (logDec64 value).Issues (LogEvent.InArray dec64Length) w) ∧
      ∀ value : UInt32,
        sent (logDecU32 value) w = sent (logDec64 value.toUInt64) w ∧
          (logDecU32 value).Issues (LogEvent.InArray decU32Length) w := by
  constructor
  · intro value
    have room := digits64_length value
    have filled := filled_of_room room w
    refine ⟨?_, congrArg Prod.snd filled.result, logDec_issues room (by decide) w⟩
    rw [logDec64, logDec_sent room]
    exact isNumeral_numeral value.toNat
  · intro value
    have room := digits32_length value
    refine ⟨?_, logDec_issues room (Nat.le_refl _) w⟩
    rw [logDecU32, logDec64, logDec_sent room, logDec_sent (digits64_length _),
      UInt32.toNat_toUInt64]

end Mcsos.Log
