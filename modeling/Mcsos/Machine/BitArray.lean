import Mathlib.Data.Finset.Card
import Mathlib.Data.Finset.Range
import Mathlib.Data.Nat.Bitwise
import Mathlib.Tactic.IntervalCases

/-!
Owns bit arrays packed into bytes, eight bits a byte and the lowest bit first:
reading, setting and clearing one bit, the byte that holds all ones, and the
set of clear bits below a bound. A byte array is a function from byte indices,
so nothing here depends on where an array ends.
-/

namespace Mcsos.Machine

/-- The byte with the single bit `position % 8`. -/
def bitMask (position : Nat) : UInt8 := 1 <<< UInt8.ofNat (position % 8)

/-- Bit `position` of a packed array. -/
def getBit (bytes : Nat → UInt8) (position : Nat) : Bool :=
  bytes (position / 8) &&& bitMask position != 0

/-- The array with bit `position` set. -/
def setBit (bytes : Nat → UInt8) (position : Nat) : Nat → UInt8 :=
  Function.update bytes (position / 8) (bytes (position / 8) ||| bitMask position)

/-- The array with bit `position` cleared. -/
def clearBit (bytes : Nat → UInt8) (position : Nat) : Nat → UInt8 :=
  Function.update bytes (position / 8) (bytes (position / 8) &&& ~~~bitMask position)

/-! ### One byte -/

theorem bitMask_toNat (position : Nat) : (bitMask position).toNat = 2 ^ (position % 8) := by
  have small : position % 8 < 8 := Nat.mod_lt _ (by decide)
  unfold bitMask
  generalize position % 8 = shift at small
  interval_cases shift <;> rfl

/-- Testing a byte against a one-bit mask reads that bit of its value. -/
theorem and_bitMask_ne_zero (byte : UInt8) (position : Nat) :
    (byte &&& bitMask position != 0) = byte.toNat.testBit (position % 8) := by
  have value : (byte &&& bitMask position).toNat =
      (byte.toNat.testBit (position % 8)).toNat * 2 ^ (position % 8) := by
    rw [UInt8.toNat_and, bitMask_toNat, Nat.and_two_pow]
  have zero : byte &&& bitMask position = 0 ↔ (byte &&& bitMask position).toNat = 0 := by
    rw [← UInt8.toNat_inj]
    rfl
  cases bit : byte.toNat.testBit (position % 8) with
  | false =>
      rw [bit] at value
      simp only [Bool.toNat_false, Nat.zero_mul] at value
      simpa using zero.mpr value
  | true =>
      rw [bit] at value
      have positive : 0 < 2 ^ (position % 8) := Nat.two_pow_pos _
      simp only [Bool.toNat_true, Nat.one_mul] at value
      simp only [bne_iff_ne, ne_eq, zero]
      omega

private theorem testBit_not_bitMask (position other : Nat) :
    (~~~bitMask position).toNat.testBit (other % 8) = !decide (position % 8 = other % 8) := by
  have small : position % 8 < 8 := Nat.mod_lt _ (by decide)
  have otherSmall : other % 8 < 8 := Nat.mod_lt _ (by decide)
  unfold bitMask
  generalize position % 8 = shift at small
  generalize other % 8 = bit at otherSmall
  interval_cases shift <;> interval_cases bit <;> rfl

theorem getBit_eq_testBit (bytes : Nat → UInt8) (position : Nat) :
    getBit bytes position = (bytes (position / 8)).toNat.testBit (position % 8) :=
  and_bitMask_ne_zero _ _

/-! ### Updates -/

theorem getBit_setBit (bytes : Nat → UInt8) (position other : Nat) :
    getBit (setBit bytes position) other = (decide (position = other) || getBit bytes other) := by
  rw [getBit_eq_testBit, getBit_eq_testBit]
  unfold setBit
  by_cases sameByte : other / 8 = position / 8
  · have sameBit : position % 8 = other % 8 ↔ position = other := by omega
    rw [sameByte, Function.update_self, UInt8.toNat_or, Nat.testBit_or, bitMask_toNat,
      Nat.testBit_two_pow, decide_eq_decide.mpr sameBit, Bool.or_comm]
  · have different : position ≠ other := by
      rintro rfl
      exact sameByte rfl
    rw [Function.update_of_ne sameByte]
    simp [different]

theorem getBit_clearBit (bytes : Nat → UInt8) (position other : Nat) :
    getBit (clearBit bytes position) other =
      (!decide (position = other) && getBit bytes other) := by
  rw [getBit_eq_testBit, getBit_eq_testBit]
  unfold clearBit
  by_cases sameByte : other / 8 = position / 8
  · have sameBit : position % 8 = other % 8 ↔ position = other := by omega
    rw [sameByte, Function.update_self, UInt8.toNat_and, Nat.testBit_and, testBit_not_bitMask,
      decide_eq_decide.mpr sameBit, Bool.and_comm]
  · have different : position ≠ other := by
      rintro rfl
      exact sameByte rfl
    rw [Function.update_of_ne sameByte]
    simp [different]

/-- Every bit of a byte of ones is set. -/
theorem getBit_of_ones {bytes : Nat → UInt8} {position : Nat}
    (ones : bytes (position / 8) = 0xFF) : getBit bytes position = true := by
  have small : position % 8 < 8 := Nat.mod_lt _ (by decide)
  rw [getBit_eq_testBit, ones]
  generalize position % 8 = bit at small
  interval_cases bit <;> rfl

/-- A byte is known by its eight bits. -/
theorem byte_eq_of_getBit {bytes other : Nat → UInt8} {index : Nat}
    (same : ∀ position, position / 8 = index → getBit bytes position = getBit other position) :
    bytes index = other index := by
  rw [← UInt8.toNat_inj]
  apply Nat.eq_of_testBit_eq
  intro bit
  by_cases inside : bit < 8
  · have byte : (8 * index + bit) / 8 = index := by omega
    have low : (8 * index + bit) % 8 = bit := by omega
    have here := same (8 * index + bit) byte
    rwa [getBit_eq_testBit, getBit_eq_testBit, byte, low] at here
  · have large : 2 ^ 8 ≤ 2 ^ bit := Nat.pow_le_pow_right (by decide) (Nat.not_lt.mp inside)
    rw [Nat.testBit_lt_two_pow ((bytes index).toNat_lt.trans_le large),
      Nat.testBit_lt_two_pow ((other index).toNat_lt.trans_le large)]

/-! ### The clear bits below a bound -/

/-- The positions below `count` whose bit is clear. -/
def clearBits (bytes : Nat → UInt8) (count : Nat) : Finset Nat :=
  (Finset.range count).filter fun position => getBit bytes position = false

theorem mem_clearBits {bytes : Nat → UInt8} {count position : Nat} :
    position ∈ clearBits bytes count ↔ position < count ∧ getBit bytes position = false := by
  simp [clearBits]

/-- The positions below `count` whose bit is set. -/
def setBits (bytes : Nat → UInt8) (count : Nat) : Finset Nat :=
  (Finset.range count).filter fun position => getBit bytes position = true

/-- Every position below the bound is clear or set. -/
theorem clearBits_card_add_setBits_card (bytes : Nat → UInt8) (count : Nat) :
    (clearBits bytes count).card + (setBits bytes count).card = count := by
  have split := (Finset.range count).card_filter_add_card_filter_not
    (fun position => getBit bytes position = false)
  simp only [Bool.not_eq_false, Finset.card_range] at split
  exact split

theorem clearBits_setBit (bytes : Nat → UInt8) (count position : Nat) :
    clearBits (setBit bytes position) count = (clearBits bytes count).erase position := by
  ext other
  simp only [mem_clearBits, Finset.mem_erase, getBit_setBit, Bool.or_eq_false_iff,
    decide_eq_false_iff_not]
  constructor
  · rintro ⟨below, different, clear⟩
    exact ⟨fun same => different same.symm, below, clear⟩
  · rintro ⟨different, below, clear⟩
    exact ⟨below, fun same => different same.symm, clear⟩

theorem clearBits_clearBit (bytes : Nat → UInt8) {count position : Nat} (below : position < count) :
    clearBits (clearBit bytes position) count = insert position (clearBits bytes count) := by
  ext other
  simp only [mem_clearBits, Finset.mem_insert, getBit_clearBit, Bool.and_eq_false_iff,
    Bool.not_eq_false', decide_eq_true_eq]
  constructor
  · rintro ⟨otherBelow, same | clear⟩
    · exact Or.inl same.symm
    · exact Or.inr ⟨otherBelow, clear⟩
  · rintro (same | ⟨otherBelow, clear⟩)
    · exact ⟨same ▸ below, Or.inl same.symm⟩
    · exact ⟨otherBelow, Or.inr clear⟩

/-- Setting a clear bit below the bound takes one position out. -/
theorem clearBits_card_setBit {bytes : Nat → UInt8} {count position : Nat}
    (below : position < count) (clear : getBit bytes position = false) :
    (clearBits (setBit bytes position) count).card + 1 = (clearBits bytes count).card := by
  rw [clearBits_setBit]
  exact Finset.card_erase_add_one (mem_clearBits.mpr ⟨below, clear⟩)

/-- Clearing a set bit below the bound puts one position in. -/
theorem clearBits_card_clearBit {bytes : Nat → UInt8} {count position : Nat}
    (below : position < count) (set : getBit bytes position = true) :
    (clearBits (clearBit bytes position) count).card = (clearBits bytes count).card + 1 := by
  rw [clearBits_clearBit bytes below]
  apply Finset.card_insert_of_notMem
  intro member
  rw [(mem_clearBits.mp member).2] at set
  cases set

end Mcsos.Machine
