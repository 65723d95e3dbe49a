import Mathlib.Algebra.Order.Ring.Nat
import Mathlib.Tactic.Common
import Mathlib.Tactic.Ring

/-!
Owns numbers written out in a fixed number of digits of any base, the most
significant digit first: the number can be read off the digits again.
-/

namespace Mcsos.Machine

/-- The last `width` digits of the number. -/
def fieldDigits (base : Nat) : Nat → Nat → List Nat
  | 0, _ => []
  | width + 1, value => value / base ^ width % base :: fieldDigits base width value

/-- What a string of digits is worth. -/
def fieldWorth (base : Nat) (digits : List Nat) : Nat :=
  digits.foldl (fun total digit => base * total + digit) 0

variable {base : Nat}

theorem fieldWorth_foldl (digits : List Nat) (total : Nat) :
    digits.foldl (fun total digit => base * total + digit) total =
      base ^ digits.length * total + fieldWorth base digits := by
  induction digits generalizing total with
  | nil => simp [fieldWorth]
  | cons digit rest inductionHypothesis =>
      have first : fieldWorth base (digit :: rest) =
          base ^ rest.length * (base * 0 + digit) + fieldWorth base rest := inductionHypothesis _
      rw [List.foldl_cons, inductionHypothesis, first, List.length_cons, pow_succ]
      ring

@[simp] theorem fieldDigits_length (width value : Nat) :
    (fieldDigits base width value).length = width := by
  induction width with
  | zero => rfl
  | succ width inductionHypothesis => rw [fieldDigits, List.length_cons, inductionHypothesis]

theorem fieldDigits_getElem? {width place : Nat} (inside : place < width) (value : Nat) :
    (fieldDigits base width value)[place]? = some (value / base ^ (width - 1 - place) % base) := by
  induction width generalizing place with
  | zero => omega
  | succ width inductionHypothesis =>
      cases place with
      | zero => rfl
      | succ place =>
          rw [fieldDigits, List.getElem?_cons_succ, inductionHypothesis (by omega),
            show width + 1 - 1 - (place + 1) = width - 1 - place by omega]

theorem fieldDigits_small (positive : 0 < base) (width value : Nat) :
    ∀ digit ∈ fieldDigits base width value, digit < base := by
  induction width with
  | zero => simp [fieldDigits]
  | succ width inductionHypothesis =>
      intro digit member
      rcases List.mem_cons.mp member with rfl | later
      · exact Nat.mod_lt _ positive
      · exact inductionHypothesis digit later

theorem fieldWorth_fieldDigits (width value : Nat) :
    fieldWorth base (fieldDigits base width value) = value % base ^ width := by
  induction width with
  | zero => simp [fieldDigits, fieldWorth, Nat.mod_one]
  | succ width inductionHypothesis =>
      rw [fieldDigits, fieldWorth, List.foldl_cons, fieldWorth_foldl, inductionHypothesis,
        fieldDigits_length, pow_succ, Nat.mod_mul]
      ring

end Mcsos.Machine
