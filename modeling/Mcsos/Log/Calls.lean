import Mcsos.Log.Hex

/-!
Contract: runs of the log. Whatever functions are called in whatever order,
what is sent is what the calls are to send one after the other, and a port that
is not ready is set up before anything is sent. The report of `kernel_panic_at`
in `kernel/core/panic.c` is such a run.
-/

namespace Mcsos.Log

open Mcsos.Machine
open Mcsos.Machine.Prog

/-! ### Calls -/

/-- A call of a function of the log. -/
inductive LogCall where
  | init
  | putc (c : UInt8)
  | write (s : Option (List UInt8))
  | writeln (s : Option (List UInt8))
  | hex64 (value : UInt64)
  | keyValueHex64 (key : Option (List UInt8)) (value : UInt64)
  | dec64 (value : UInt64)
  | decU32 (value : UInt32)

def LogCall.program : LogCall → LogProg Unit
  | .init => logInit
  | .putc c => logPutc c
  | .write s => logWrite s
  | .writeln s => logWriteln s
  | .hex64 value => logHex64 value
  | .keyValueHex64 key value => logKeyValueHex64 key value
  | .dec64 value => logDec64 value
  | .decU32 value => logDecU32 value

/-- The characters of a call. -/
def LogCall.chars : LogCall → List UInt8
  | .init => []
  | .putc c => [c]
  | .write s => s.getD []
  | .writeln s => s.getD [] ++ [10]
  | .hex64 value => text "0x" ++ hexText lowerHex value
  | .keyValueHex64 key value =>
      key.getD [] ++ (text "=" ++ (text "0x" ++ hexText lowerHex value ++ [10]))
  | .dec64 value => numeral value.toNat
  | .decU32 value => numeral value.toNat

/-- One call after the other. -/
def logCalls : List LogCall → LogProg Unit
  | [] => pure ()
  | call :: rest => do
      call.program
      logCalls rest

/-- Every call but that of `log_init` sees to the port itself. -/
theorem LogCall.utters (call : LogCall) : call = .init ∨ Utters call.program call.chars := by
  cases call with
  | init => exact Or.inl rfl
  | putc c => exact Or.inr (logPutc_utters c)
  | write s => exact Or.inr (logWrite_utters s)
  | writeln s => exact Or.inr (logWriteln_utters s)
  | hex64 value => exact Or.inr (logHex64_utters value)
  | keyValueHex64 key value => exact Or.inr (logKeyValueHex64_utters key value)
  | dec64 value => exact Or.inr (logDec_utters (digits64_length value))
  | decU32 value => exact Or.inr (logDec_utters (digits32_length value))

theorem LogCall.sends (call : LogCall) (w : LogWorld) : sent call.program w = call.chars := by
  rcases call.utters with rfl | utters
  · rfl
  · exact utters.sends w

theorem LogCall.ready (call : LogCall) (w : LogWorld) :
    (call.program.final w).logReady = true := by
  rcases call.utters with rfl | utters
  · rfl
  · exact (utters.prepared w).ready

/-- The first thing that is asked of a port that is not ready is to set it
up. -/
theorem LogCall.opens (call : LogCall) {w : LogWorld} (closed : w.logReady = false) :
    ∃ rest, portCalls call.program w = .serialInit :: rest := by
  rcases call.utters with rfl | utters
  · exact ⟨[], rfl⟩
  · rw [(utters.prepared w).calls, closed]
    exact ⟨_, rfl⟩

theorem logCalls_sent (calls : List LogCall) (w : LogWorld) :
    sent (logCalls calls) w = calls.flatMap LogCall.chars := by
  induction calls generalizing w with
  | nil => rfl
  | cons call rest inductionHypothesis =>
      rw [logCalls, sent_bind, call.sends, inductionHypothesis, List.flatMap_cons]

/-! ### The report of a panic -/

/-- What `kernel_panic_at` calls before `cpu_halt_forever`, with the flags that
it read. -/
def kernelPanicAt (file : Option (List UInt8)) (line : UInt32) (reason : Option (List UInt8))
    (code rflags : UInt64) : List LogCall :=
  [.writeln (text ""),
    .writeln (text "================ MCSOS KERNEL PANIC ================"),
    .write (text "system="),
    .write (text "MCSOS"),
    .write (text " version="),
    .write (text "260502"),
    .write (text " milestone="),
    .writeln (text "M4"),
    .write (text "reason="),
    .writeln (some (reason.getD (text "<null>"))),
    .write (text "location="),
    .write (some (file.getD (text "<unknown>"))),
    .write (text ":"),
    .decU32 line,
    .putc 10,
    .keyValueHex64 (text "panic_code") code,
    .keyValueHex64 (text "rflags_before_cli") rflags,
    .writeln (text "state=halted"),
    .writeln (text "====================================================")]

theorem numeral_injective {number other : Nat} (same : numeral number = numeral other) :
    number = other := by
  rw [← (isNumeral_numeral number).worth, same, (isNumeral_numeral other).worth]

/-- Texts of one line with a line feed behind them are told apart. -/
theorem line_injective {line other rest otherRest : List UInt8} (single : 10 ∉ line)
    (otherSingle : 10 ∉ other) (same : line ++ 10 :: rest = other ++ 10 :: otherRest) :
    line = other ∧ rest = otherRest := by
  have upToLine : ∀ {chars : List UInt8} {behind : List UInt8}, 10 ∉ chars →
      (chars ++ 10 :: behind).takeWhile (fun char => char ≠ 10) = chars := by
    intro chars behind absent
    have passes : ∀ char ∈ chars, decide (char ≠ 10) = true := by
      intro char member
      apply decide_eq_true
      rintro rfl
      exact absent member
    rw [List.takeWhile_append_of_pos passes, List.takeWhile_cons_of_neg (by decide), List.append_nil]
  have lines := congrArg (List.takeWhile fun char => char ≠ 10) same
  rw [upToLine single, upToLine otherSingle] at lines
  rw [lines] at same
  exact ⟨lines, (List.cons.inj (List.append_cancel_left same)).2⟩

theorem newline_not_mem_numeral (number : Nat) : 10 ∉ numeral number := by
  intro member
  exact absurd ((isNumeral_numeral number).digits 10 member).1 (by decide)

/-- Numerals with a line feed behind them are told apart. -/
theorem numeral_line_injective {number other : Nat} {rest otherRest : List UInt8}
    (same : numeral number ++ 10 :: rest = numeral other ++ 10 :: otherRest) :
    number = other ∧ rest = otherRest := by
  obtain ⟨numerals, rests⟩ :=
    line_injective (newline_not_mem_numeral number) (newline_not_mem_numeral other) same
  exact ⟨numeral_injective numerals, rests⟩

theorem hexText_line_injective {value other : UInt64} {rest otherRest : List UInt8}
    (same : hexText lowerHex value ++ rest = hexText lowerHex other ++ otherRest) :
    value = other ∧ rest = otherRest := by
  obtain ⟨digits, rests⟩ := List.append_inj same (by simp [hexText])
  have worths := congrArg readHex digits
  rw [readHex_hexText (by decide), readHex_hexText (by decide)] at worths
  exact ⟨UInt64.toNat.inj worths, rests⟩

/-- Reports of panics at one place tell their line, code and flags. -/
theorem kernelPanicAt_injective {file reason : Option (List UInt8)} {line line' : UInt32}
    {code code' rflags rflags' : UInt64}
    (same : (kernelPanicAt file line reason code rflags).flatMap LogCall.chars =
      (kernelPanicAt file line' reason code' rflags').flatMap LogCall.chars) :
    line = line' ∧ code = code' ∧ rflags = rflags' := by
  simp only [kernelPanicAt, List.flatMap_cons, LogCall.chars, List.append_assoc,
    List.append_cancel_left_eq, Option.getD_some, List.singleton_append, List.cons.injEq,
    true_and] at same
  obtain ⟨lines, same⟩ := numeral_line_injective same
  simp only [List.append_cancel_left_eq] at same
  obtain ⟨codes, same⟩ := hexText_line_injective same
  simp only [List.append_cancel_left_eq, List.cons.injEq, true_and] at same
  exact ⟨UInt32.toNat.inj lines, codes, (hexText_line_injective same).1⟩

end Mcsos.Log
