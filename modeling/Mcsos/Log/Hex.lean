import Mcsos.Log.Text
import Mcsos.Machine.DigitField

/-!
Contract: hexadecimal output. `log_hex64` of `kernel/core/log.c` sends its
digits one by one, `serial_write_hex64` of `kernel/lib/serial_hex.c` fills an
array and sends that; both send sixteen digits from which the value can be read
back.
-/

namespace Mcsos.Log

open Mcsos.Machine
open Mcsos.Machine.Prog

/-! ### Operations -/

/-- `digits[nibble]` in `log_hex64`. -/
def lowerHex (nibble : Nat) : UInt8 := (text "0123456789abcdef").getD nibble 0

/-- `hex[nibble]` in `serial_write_hex64`. -/
def upperHex (nibble : Nat) : UInt8 := (text "0123456789ABCDEF").getD nibble 0

/-- `(value >> shift) & 0x0F`. -/
def nibbleAt (value : UInt64) (shift : Nat) : Nat := ((value >>> UInt64.ofNat shift) &&& 0x0F).toNat

/-- The loop of `log_hex64`, with so many rounds to go. -/
def putNibbles (value : UInt64) : Nat → LogProg Unit
  | 0 => pure ()
  | rounds + 1 => do
      logPutc (lowerHex (nibbleAt value (4 * rounds)))
      putNibbles value rounds

def logHex64 (value : UInt64) : LogProg Unit := do
  logWrite (text "0x")
  putNibbles value 16

def logKeyValueHex64 (key : Option (List UInt8)) (value : UInt64) : LogProg Unit := do
  logWrite key
  logWrite (text "=")
  logHex64 value
  logPutc 10

/-- The loop of `serial_write_hex64`, with so many rounds to go. -/
def storeNibbles (v : UInt64) : Nat → LogProg Unit
  | 0 => pure ()
  | rounds + 1 => do
      emit (.storeBuf (2 + (15 - rounds)) (upperHex (nibbleAt v (4 * rounds))))
      storeNibbles v rounds

/-- The loop of `serial_write` on the array, with so many rounds at most. -/
def putBuf : Nat → Nat → LogProg Unit
  | 0, _ => pure ()
  | rounds + 1, i => do
      emit (.loadBuf i)
      let w ← get
      if w.buf i = 0 then
        pure ()
      else
        emit (.serialPutc (w.buf i))
        putBuf rounds (i + 1)

/-- `sizeof(buf)` in `serial_write_hex64`. -/
def hex64Length : Nat := 19

/-- `serial_write_hex64` up to its call of `serial_write`. -/
def fillHex (v : UInt64) : LogProg Unit := do
  emit (.storeBuf 0 48)
  emit (.storeBuf 1 120)
  storeNibbles v 16
  emit (.storeBuf 18 0)

def serialWriteHex64 (v : UInt64) : LogProg Unit := do
  fillHex v
  putBuf hex64Length 0

/-! ### `log_hex64` -/

theorem nibbleAt_eq (value : UInt64) {place : Nat} (inside : place < 16) :
    nibbleAt value (4 * place) = value.toNat / 16 ^ place % 16 := by
  have shift : (UInt64.ofNat (4 * place)).toNat % 64 = 4 * place := by
    rw [UInt64.toNat_ofNat']
    omega
  have mask : (0x0F : UInt64).toNat = 2 ^ 4 - 1 := rfl
  rw [nibbleAt, UInt64.toNat_and, UInt64.toNat_shiftRight, shift, mask,
    Nat.and_two_pow_sub_one_eq_mod, Nat.shiftRight_eq_div_pow, pow_mul]
  rfl

/-- The digits of a number, sixteen of them. -/
def hexText (digit : Nat → UInt8) (value : UInt64) : List UInt8 :=
  (fieldDigits 16 16 value.toNat).map digit

theorem putNibbles_utters (value : UInt64) {rounds : Nat} (few : rounds ≤ 16) (w : LogWorld)
    (ready : w.logReady = true) :
    Plain (putNibbles value rounds) w ∧
      sent (putNibbles value rounds) w = (fieldDigits 16 rounds value.toNat).map lowerHex := by
  induction rounds generalizing w with
  | zero => exact ⟨⟨rfl, rfl⟩, rfl⟩
  | succ rounds inductionHypothesis =>
      have putc := (logPutc_utters (lowerHex (nibbleAt value (4 * rounds)))).prepared w
      obtain ⟨plain, sends⟩ := inductionHypothesis (by omega) _ putc.ready
      refine ⟨(putc.plain ready).bind plain, ?_⟩
      rw [putNibbles, sent_bind, logPutc_sent, sends, nibbleAt_eq value (by omega)]
      rfl

theorem logHex64_utters (value : UInt64) :
    Utters (logHex64 value) (text "0x" ++ hexText lowerHex value) := by
  have digits := fun w ready => @putNibbles_utters value 16 (Nat.le_refl 16) w ready
  have zeroX := logWrite_utters (text "0x")
  constructor
  · intro w
    exact (zeroX.prepared w).bind_plain (digits _ (zeroX.prepared w).ready).1
  · intro w
    rw [logHex64, sent_bind, zeroX.sends, (digits _ (zeroX.prepared w).ready).2]
    rfl

theorem logKeyValueHex64_utters (key : Option (List UInt8)) (value : UInt64) :
    Utters (logKeyValueHex64 key value)
      (key.getD [] ++ (text "=" ++ (text "0x" ++ hexText lowerHex value ++ [10]))) :=
  (logWrite_utters key).bind ((logWrite_utters (text "=")).bind
    ((logHex64_utters value).bind (logPutc_utters 10)))

/-- What a hexadecimal digit stands for, in either case. -/
def hexValue (char : UInt8) : Nat :=
  if char.toNat ≤ 57 then char.toNat - 48
  else if char.toNat ≤ 70 then char.toNat - 55
  else char.toNat - 87

/-- The number that hexadecimal digits are the numeral of. -/
def readHex (chars : List UInt8) : Nat := fieldWorth 16 (chars.map hexValue)

theorem readHex_hexText {digit : Nat → UInt8}
    (reads : ∀ nibble < 16, hexValue (digit nibble) = nibble) (value : UInt64) :
    readHex (hexText digit value) = value.toNat := by
  have digits : (hexText digit value).map hexValue = fieldDigits 16 16 value.toNat := by
    rw [hexText, List.map_map]
    refine (List.map_congr_left fun nibble member => ?_).trans (List.map_id _)
    exact reads nibble (fieldDigits_small (by decide) 16 value.toNat nibble member)
  rw [readHex, digits, fieldWorth_fieldDigits]
  exact Nat.mod_eq_of_lt value.toNat_lt

/-! ### `serial_write_hex64` -/

theorem storeNibbles_buf (v : UInt64) {rounds : Nat} (few : rounds ≤ 16) (w : LogWorld)
    (index : Nat) :
    ((storeNibbles v rounds).final w).buf index =
      if 18 - rounds ≤ index ∧ index < 18 then upperHex (nibbleAt v (4 * (17 - index)))
      else w.buf index := by
  induction rounds generalizing w with
  | zero =>
      rw [if_neg (by omega)]
      rfl
  | succ rounds inductionHypothesis =>
      rw [storeNibbles, final_bind, inductionHypothesis (by omega)]
      by_cases behind : 18 - rounds ≤ index ∧ index < 18
      · rw [if_pos behind, if_pos (by omega)]
      · rw [if_neg behind]
        show Function.update w.buf _ _ index = _
        by_cases here : index = 2 + (15 - rounds)
        · rw [if_pos (by omega), here, Function.update_self,
            show 17 - (2 + (15 - rounds)) = rounds by omega]
        · rw [if_neg (by omega), Function.update_of_ne here]

theorem storeNibbles_silent (v : UInt64) {rounds : Nat} (few : rounds ≤ 16) (w : LogWorld) :
    sent (storeNibbles v rounds) w = [] ∧
      (storeNibbles v rounds).Issues (LogEvent.InArray hex64Length) w := by
  induction rounds generalizing w with
  | zero => exact ⟨rfl, issues_pure _ _ _⟩
  | succ rounds inductionHypothesis =>
      obtain ⟨silent, issues⟩ := inductionHypothesis (by omega) ((emit (.storeBuf
        (2 + (15 - rounds)) (upperHex (nibbleAt v (4 * rounds)))) : LogProg Unit).final w)
      refine ⟨silent, ?_⟩
      rw [storeNibbles, issues_bind, issues_emit]
      refine ⟨?_, issues⟩
      show 2 + (15 - rounds) < 19
      omega

/-- The accesses that send a string of the array from `i` on. -/
def bufAccesses : List UInt8 → Nat → List LogEvent
  | [], i => [.loadBuf i]
  | char :: rest, i => .loadBuf i :: .serialPutc char :: bufAccesses rest (i + 1)

/-- A string in the array is sent up to its terminator. -/
theorem putBuf_trace {chars : List UInt8} (nulFree : ∀ char ∈ chars, char ≠ 0) {w : LogWorld}
    {i rounds : Nat}
    (stored : ∀ position ≤ chars.length, w.buf (i + position) = chars.getD position 0)
    (enough : chars.length < rounds) : (putBuf rounds i).trace w = bufAccesses chars i := by
  induction chars generalizing i rounds with
  | nil =>
      obtain ⟨rounds, rfl⟩ := Nat.exists_eq_add_of_lt enough
      have ended : w.buf i = 0 := stored 0 (Nat.le_refl _)
      have load : (emit (.loadBuf i) : LogProg Unit).final w = w := rfl
      simp [putBuf, load, ended, bufAccesses]
  | cons char rest inductionHypothesis =>
      cases rounds with
      | zero => simp at enough
      | succ rounds =>
          have here : w.buf i = char := stored 0 (Nat.zero_le _)
          have present : char ≠ 0 := nulFree char List.mem_cons_self
          have load : (emit (.loadBuf i) : LogProg Unit).final w = w := rfl
          have send : (emit (.serialPutc char) : LogProg Unit).final w = w := rfl
          have later := inductionHypothesis (fun other member => nulFree other (by simp [member]))
            (fun position le => by
              have there := stored (position + 1) (Nat.succ_le_succ le)
              rwa [← Nat.add_assoc, Nat.add_right_comm] at there)
            (show rest.length < rounds by simpa using enough)
          simp only [putBuf, trace_bind, trace_emit, load, trace_get, result_get, final_get, here,
            if_neg present, send, later]
          rfl

theorem bufAccesses_sent (chars : List UInt8) (i : Nat) :
    (bufAccesses chars i).filterMap LogEvent.sent = chars := by
  induction chars generalizing i with
  | nil => rfl
  | cons char rest inductionHypothesis =>
      show char :: (bufAccesses rest (i + 1)).filterMap LogEvent.sent = _
      rw [inductionHypothesis]

theorem bufAccesses_inArray {chars : List UInt8} {i length : Nat} (inside : i + chars.length < length) :
    ∀ event ∈ bufAccesses chars i, event.InArray length := by
  induction chars generalizing i with
  | nil =>
      intro event member
      rw [List.mem_singleton.mp member]
      exact inside
  | cons char rest inductionHypothesis =>
      rw [List.length_cons] at inside
      intro event member
      rcases List.mem_cons.mp member with rfl | behind
      · show i < length
        omega
      · rcases List.mem_cons.mp behind with rfl | later
        · trivial
        · exact inductionHypothesis (by omega) event later

/-- What `serial_write_hex64` sends. -/
def upperText (v : UInt64) : List UInt8 := text "0x" ++ hexText upperHex v

theorem upperText_length (v : UInt64) : (upperText v).length = 18 := by
  simp [upperText, hexText, text]

theorem upperHex_ne_zero {nibble : Nat} (small : nibble < 16) : upperHex nibble ≠ 0 := by
  revert nibble
  decide

theorem upperText_nulFree (v : UInt64) : ∀ char ∈ upperText v, char ≠ 0 := by
  intro char member
  rcases List.mem_append.mp member with front | digit
  · rintro rfl
    simp [text] at front
  · obtain ⟨nibble, isNibble, rfl⟩ := List.mem_map.mp digit
    exact upperHex_ne_zero (fieldDigits_small (by decide) 16 v.toNat nibble isNibble)

theorem fillHex_stored (v : UInt64) (w : LogWorld) :
    ∀ position ≤ (upperText v).length,
      ((fillHex v).final w).buf (0 + position) = (upperText v).getD position 0 := by
  intro position le
  rw [upperText_length] at le
  rw [Nat.zero_add]
  have filled : ((fillHex v).final w).buf position =
      Function.update ((storeNibbles v 16).final
        ⟨w.logReady, Function.update (Function.update w.buf 0 48) 1 120⟩).buf 18 0 position := rfl
  rw [filled, List.getD_eq_getElem?_getD]
  by_cases last : position = 18
  · rw [last, Function.update_self, List.getElem?_eq_none (by rw [upperText_length])]
    rfl
  · have zeroX : (text "0x").length = 2 := rfl
    rw [Function.update_of_ne last, storeNibbles_buf v (Nat.le_refl 16)]
    by_cases digit : 18 - 16 ≤ position ∧ position < 18
    · rw [if_pos digit, upperText, List.getElem?_append_right (by rw [zeroX]; omega), zeroX, hexText,
        List.getElem?_map, fieldDigits_getElem? (by omega), nibbleAt_eq v (by omega),
        show 16 - 1 - (position - 2) = 17 - position by omega]
      rfl
    · rw [if_neg digit, upperText, List.getElem?_append_left (by rw [zeroX]; omega)]
      obtain rfl | rfl : position = 0 ∨ position = 1 := by omega
      · rfl
      · rfl

/-- `serial_write_hex64` sends the same number as `log_hex64`, in capitals, and
keeps to its array. -/
theorem serialWriteHex64_sent (v : UInt64) (w : LogWorld) :
    sent (serialWriteHex64 v) w = upperText v ∧
      (serialWriteHex64 v).Issues (LogEvent.InArray hex64Length) w := by
  have silent : sent (fillHex v) w = [] := by
    rw [fillHex, sent_bind, sent_bind, sent_bind, (storeNibbles_silent v (Nat.le_refl 16) _).1]
    rfl
  have fills : (fillHex v).Issues (LogEvent.InArray hex64Length) w := by
    have inside : ∀ index < 19, ∀ char, (LogEvent.storeBuf index char).InArray hex64Length :=
      fun _ below _ => below
    simp only [fillHex, issues_bind, issues_emit]
    exact ⟨inside 0 (by decide) 48, inside 1 (by decide) 120,
      (storeNibbles_silent v (Nat.le_refl 16) _).2, inside 18 (by decide) 0⟩
  have enough : (upperText v).length < hex64Length := by
    rw [upperText_length]
    decide
  have reads := putBuf_trace (upperText_nulFree v) (fillHex_stored v w) enough
  constructor
  · rw [serialWriteHex64, sent_bind, silent, sent, reads, bufAccesses_sent]
    rfl
  · rw [serialWriteHex64, issues_bind]
    refine ⟨fills, ?_⟩
    rw [Issues, reads]
    exact bufAccesses_inArray (by rw [Nat.zero_add]; exact enough)

/-- `log_hex64` and `serial_write_hex64` print sixteen digits of the value,
which can be read off them, the second in capitals and from an array that it
keeps to. -/
theorem hexadecimal_logging_exact (v : UInt64) (w : LogWorld) :
    (sent (logHex64 v) w = text "0x" ++ hexText lowerHex v ∧
        readHex (hexText lowerHex v) = v.toNat) ∧
      (sent (serialWriteHex64 v) w = text "0x" ++ hexText upperHex v ∧
        readHex (hexText upperHex v) = v.toNat) ∧
      (serialWriteHex64 v).Issues (LogEvent.InArray hex64Length) w :=
  ⟨⟨(logHex64_utters v).sends w, readHex_hexText (by decide) v⟩,
    ⟨(serialWriteHex64_sent v w).1, readHex_hexText (by decide) v⟩, (serialWriteHex64_sent v w).2⟩

end Mcsos.Log
