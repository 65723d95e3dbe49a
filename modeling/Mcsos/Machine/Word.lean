import Mathlib.Algebra.Order.Ring.Nat
import Mathlib.Tactic.Common

/-!
Owns fixed-width unsigned arithmetic on natural numbers: a word is the number
it denotes, and every operation that can leave the range is reduced where it
happens. Operations that cannot leave the range are the ones on numbers.
-/

namespace Mcsos.Machine

/-- Reduction to 64 bits. -/
def wrap64 (value : Nat) : Nat := value % 2 ^ 64

/-- Reduction to 32 bits. -/
def wrap32 (value : Nat) : Nat := value % 2 ^ 32

/-- Subtraction of 64-bit words, which borrows from `2 ^ 64`. -/
def sub64 (left right : Nat) : Nat := (left + (2 ^ 64 - right % 2 ^ 64)) % 2 ^ 64

theorem wrap64_of_lt {value : Nat} (small : value < 2 ^ 64) : wrap64 value = value :=
  Nat.mod_eq_of_lt small

theorem sub64_of_le {left right : Nat} (ordered : right ≤ left) (small : left < 2 ^ 64) :
    sub64 left right = left - right := by
  unfold sub64
  omega

theorem toNat_pos_of_ne_zero {word : UInt64} (nonzero : word ≠ 0) : 0 < word.toNat := by
  apply Nat.pos_of_ne_zero
  intro zero
  exact nonzero (UInt64.toNat.inj zero)

/-- A small `uint64_t` keeps its value as an `int64_t`. -/
theorem toInt64_toInt_of_lt {word : UInt64} (small : word.toNat < 2 ^ 63) :
    word.toInt64.toInt = word.toNat := by
  show word.toBitVec.toInt = _
  apply BitVec.toInt_eq_toNat_of_lt
  show 2 * word.toNat < 2 ^ 64
  omega

/-- A small `uint64_t` keeps its value as an `int`. -/
theorem toInt32_toInt_of_lt {word : UInt64} (small : word.toNat < 2 ^ 31) :
    word.toUInt32.toInt32.toInt = word.toNat := by
  have truncated : word.toUInt32.toNat = word.toNat := by
    rw [UInt64.toNat_toUInt32]
    omega
  rw [← truncated]
  show word.toUInt32.toBitVec.toInt = _
  apply BitVec.toInt_eq_toNat_of_lt
  show 2 * word.toUInt32.toNat < 2 ^ 32
  omega

/-- A `uint64_t` that is a small negative number as an `int64_t` is negative as
an `int`. -/
theorem toInt32_toInt_neg {word : UInt64} (large : 2 ^ 64 - 2 ^ 31 ≤ word.toNat) :
    word.toUInt32.toInt32.toInt < 0 := by
  have below := word.toNat_lt
  have low : word.toUInt32.toNat = word.toNat % 2 ^ 32 := UInt64.toNat_toUInt32 word
  have signed : word.toUInt32.toInt32.toInt = if 2 * word.toUInt32.toNat < 2 ^ 32
      then (word.toUInt32.toNat : Int) else word.toUInt32.toNat - (2 ^ 32 : Nat) :=
    BitVec.toInt_eq_toNat_cond word.toUInt32.toBitVec
  rw [signed, low, if_neg (by omega)]
  omega

/-- A signed offset added in 64 bits is added mathematically, as long as start
and target are small. -/
theorem add_toUInt64_toNat {base : UInt64} {offset : Int64} (start : base.toNat < 2 ^ 62)
    (target : (base + offset.toUInt64).toNat < 2 ^ 62) :
    base.toNat + offset.toInt = (base + offset.toUInt64).toNat := by
  have signed : offset.toInt = if 2 * offset.toUInt64.toNat < 2 ^ 64
      then (offset.toUInt64.toNat : Int) else offset.toUInt64.toNat - (2 ^ 64 : Nat) :=
    BitVec.toInt_eq_toNat_cond offset.toBitVec
  have small := offset.toUInt64.toNat_lt
  rw [UInt64.toNat_add] at target ⊢
  rw [signed]
  split <;> omega

/-- The sum in 64 bits stays below a small limit exactly when the mathematical
one lies between 0 and the limit: a sum that wraps ends far above. -/
theorem add_toUInt64_le_iff {base : UInt64} {offset : Int64} {limit : Nat}
    (start : base.toNat < 2 ^ 62) (small : limit < 2 ^ 62) :
    (base + offset.toUInt64).toNat ≤ limit ↔
      0 ≤ base.toNat + offset.toInt ∧ base.toNat + offset.toInt ≤ limit := by
  have signed : offset.toInt = if 2 * offset.toUInt64.toNat < 2 ^ 64
      then (offset.toUInt64.toNat : Int) else offset.toUInt64.toNat - (2 ^ 64 : Nat) :=
    BitVec.toInt_eq_toNat_cond offset.toBitVec
  have below := offset.toUInt64.toNat_lt
  rw [UInt64.toNat_add, signed]
  split <;> omega

end Mcsos.Machine
