import Mathlib.Data.Nat.Digits.Lemmas
import Mathlib.Tactic.Common

/-!
Owns decimal numerals as strings of bytes: what a string of digits is worth,
which of the strings worth a number is its numeral, and that the digits found
by division make it up.
-/

namespace Mcsos.Machine

/-- `'0' + digit` as a character. -/
def digitByte (digit : Nat) : UInt8 := UInt8.ofNat (48 + digit)

/-- What a string of digits is worth, the most significant one first. -/
def digitsWorth (chars : List UInt8) : Nat :=
  chars.foldl (fun total char => 10 * total + (char.toNat - 48)) 0

/-- The string is the numeral of the number: digits that are worth it, at least
one, and no leading zero but the one of the numeral of 0. -/
structure IsNumeral (chars : List UInt8) (number : Nat) : Prop where
  digits : ∀ char ∈ chars, 48 ≤ char.toNat ∧ char.toNat ≤ 57
  worth : digitsWorth chars = number
  leading : ∃ first rest, chars = first :: rest ∧ (first = 48 → number = 0 ∧ rest = [])

/-- The digits that repeated division finds, the last one first in the
string. -/
def numeral (number : Nat) : List UInt8 :=
  if number = 0 then [48] else ((Nat.digits 10 number).map digitByte).reverse

theorem digitByte_toNat {digit : Nat} (small : digit < 10) :
    (digitByte digit).toNat = 48 + digit := by
  rw [digitByte, UInt8.toNat_ofNat']
  omega

theorem digitsWorth_append_singleton (chars : List UInt8) (char : UInt8) :
    digitsWorth (chars ++ [char]) = 10 * digitsWorth chars + (char.toNat - 48) := by
  simp [digitsWorth]

theorem digitsWorth_reverse {digits : List Nat} (small : ∀ digit ∈ digits, digit < 10) :
    digitsWorth (digits.map digitByte).reverse = Nat.ofDigits 10 digits := by
  induction digits with
  | nil => rfl
  | cons digit rest inductionHypothesis =>
      have first := digitByte_toNat (small digit List.mem_cons_self)
      have later := inductionHypothesis
        fun other member => small other (List.mem_cons_of_mem _ member)
      rw [List.map_cons, List.reverse_cons, digitsWorth_append_singleton, later, first,
        Nat.ofDigits_cons]
      omega

theorem digits_small (number : Nat) : ∀ digit ∈ Nat.digits 10 number, digit < 10 :=
  fun _ member => Nat.digits_lt_base (by decide) member

/-- The digit that division finds last is first in the numeral, and is not 0. -/
theorem numeral_leading {number : Nat} (nonzero : number ≠ 0) :
    ∃ first rest, ((Nat.digits 10 number).map digitByte).reverse = first :: rest ∧
      first ≠ 48 := by
  have nonempty : Nat.digits 10 number ≠ [] := Nat.digits_ne_nil_iff_ne_zero.mpr nonzero
  have small := digits_small number _ (List.getLast_mem nonempty)
  refine ⟨digitByte ((Nat.digits 10 number).getLast nonempty),
    ((Nat.digits 10 number).dropLast.map digitByte).reverse, ?_, ?_⟩
  · rw [← List.reverse_concat, ← List.map_singleton (f := digitByte), ← List.map_append,
      List.dropLast_append_getLast nonempty]
  · intro leadingZero
    have value := congrArg UInt8.toNat leadingZero
    rw [digitByte_toNat small] at value
    exact Nat.getLast_digit_ne_zero 10 nonzero (Nat.add_left_cancel value)

theorem isNumeral_numeral (number : Nat) : IsNumeral (numeral number) number := by
  unfold numeral
  by_cases zero : number = 0
  · rw [if_pos zero, zero]
    refine ⟨?_, rfl, 48, [], rfl, fun _ => ⟨rfl, rfl⟩⟩
    intro char member
    obtain rfl := List.mem_singleton.mp member
    decide
  · rw [if_neg zero]
    obtain ⟨first, rest, shape, notZero⟩ := numeral_leading zero
    refine ⟨?_, ?_, first, rest, shape, fun leadingZero => absurd leadingZero notZero⟩
    · intro char member
      obtain ⟨digit, isDigit, rfl⟩ := List.mem_map.mp (List.mem_reverse.mp member)
      have bound := digits_small number digit isDigit
      rw [digitByte_toNat bound]
      omega
    · rw [digitsWorth_reverse (digits_small number), Nat.ofDigits_digits]

/-- A number below a power of ten has at most as many digits. -/
theorem digits_length_le {number limit : Nat} (small : number < 10 ^ limit) :
    (Nat.digits 10 number).length ≤ limit :=
  (Nat.digits_length_le_iff (by decide) number).mpr small

end Mcsos.Machine
