import Mathlib.Algebra.Order.Ring.Nat
import Mathlib.Data.Nat.Digits.Defs
import Mathlib.Tactic.Ring

/-!
Owns flat byte memory: a function from addresses to bytes, with little-endian
fields of any width read from it and written to it. A field occupies the
`width` addresses from its own on; two fields that share no address do not
see each other.
-/

namespace Mcsos.Machine

/-! ### Ranges -/

section

variable {β : Type}

/-- The memory with the `size` cells from `base` on replaced by `data`. -/
def writeRange (memory : Nat → β) (base size : Nat) (data : Nat → β) : Nat → β :=
  fun address =>
    if base ≤ address ∧ address < base + size then data (address - base) else memory address

theorem writeRange_zero (memory : Nat → β) (base : Nat) (data : Nat → β) :
    writeRange memory base 0 data = memory := by
  funext address
  exact if_neg (by omega)

/-- A range grows by one cell at its end: what one round of a copy loop does. -/
theorem writeRange_succ (memory : Nat → β) (base size : Nat) (data : Nat → β) :
    writeRange memory base (size + 1) data =
      Function.update (writeRange memory base size data) (base + size) (data size) := by
  funext address
  by_cases last : address = base + size
  · subst last
    simp [writeRange]
  · rw [Function.update_of_ne last]
    have same : (base ≤ address ∧ address < base + (size + 1)) ↔
        (base ≤ address ∧ address < base + size) := by omega
    simp only [writeRange, same]

theorem writeRange_inside (memory : Nat → β) (base : Nat) {size position : Nat}
    (data : Nat → β) (inside : position < size) :
    writeRange memory base size data (base + position) = data position := by
  have holds : base ≤ base + position ∧ base + position < base + size := by omega
  simp [writeRange, holds]

theorem writeRange_congr (memory : Nat → β) (base : Nat) {size : Nat} {data other : Nat → β}
    (same : ∀ position < size, data position = other position) :
    writeRange memory base size data = writeRange memory base size other := by
  funext address
  simp only [writeRange]
  split
  next inside => exact same _ (by omega)
  next => rfl

theorem writeRange_outside (memory : Nat → β) {base size address : Nat} (data : Nat → β)
    (outside : address < base ∨ base + size ≤ address) :
    writeRange memory base size data address = memory address :=
  if_neg (by omega)

/-- A write leaves a cell as it is exactly when it does not reach the cell, or
repeats what is there. -/
theorem writeRange_eq_iff (memory : Nat → β) (base size : Nat) (data : Nat → β) (address : Nat) :
    writeRange memory base size data address = memory address ↔
      ∀ position < size, address = base + position → data position = memory address := by
  constructor
  · intro same position inside here
    rw [← same, here, writeRange_inside memory base data inside]
  · intro repeated
    by_cases inside : base ≤ address ∧ address < base + size
    · have position := repeated (address - base) (by omega) (by omega)
      simpa [writeRange, inside] using position
    · exact if_neg inside

/-- The `size` cells from `base` on. -/
def readRange (memory : Nat → β) (base size : Nat) : List β :=
  (List.range size).map fun position => memory (base + position)

@[simp] theorem readRange_length (memory : Nat → β) (base size : Nat) :
    (readRange memory base size).length = size := by
  simp [readRange]

theorem readRange_getElem (memory : Nat → β) (base : Nat) {size position : Nat}
    (inside : position < (readRange memory base size).length) :
    (readRange memory base size)[position] = memory (base + position) := by
  simp [readRange]

theorem readRange_take (memory : Nat → β) (base size count : Nat) :
    (readRange memory base size).take count = readRange memory base (min count size) := by
  rw [readRange, ← List.map_take, List.take_range]
  rfl

theorem readRange_drop (memory : Nat → β) (base size count : Nat) :
    (readRange memory base size).drop count = readRange memory (base + count) (size - count) := by
  apply List.ext_getElem
  · simp
  · intro position inside _
    rw [List.getElem_drop, readRange_getElem, readRange_getElem, Nat.add_assoc]

/-- Bytes with some of them replaced from `start` on, and extended where the
replacement is longer. -/
def overwrite (bytes : List β) (start : Nat) (data : List β) : List β :=
  bytes.take start ++ data ++ bytes.drop (start + data.length)

/-- Writing inside or at the end of a range overwrites what is read from it. -/
theorem readRange_writeRange (memory : Nat → β) (base : Nat) {size start : Nat} (count : Nat)
    (data : Nat → β) (reached : start ≤ size) :
    readRange (writeRange memory (base + start) count data) base (max size (start + count)) =
      overwrite (readRange memory base size) start ((List.range count).map data) := by
  have front : (readRange memory base size).take start = readRange memory base start := by
    rw [readRange_take, Nat.min_eq_left reached]
  unfold overwrite
  rw [front, readRange_drop, List.length_map, List.length_range]
  apply List.ext_getElem
  · simp
    omega
  · intro position inside _
    rw [readRange_getElem]
    by_cases before : position < start
    · rw [List.getElem_append_left (by simp; omega), List.getElem_append_left (by simpa using before),
        readRange_getElem]
      exact writeRange_outside _ _ (by omega)
    · by_cases written : position < start + count
      · rw [List.getElem_append_left (by simp; omega), List.getElem_append_right (by simpa using before),
          List.getElem_map, List.getElem_range, readRange_length,
          ← writeRange_inside memory (base + start) data (show position - start < count by omega)]
        congr 1
        omega
      · rw [List.getElem_append_right (by simp; omega), readRange_getElem,
          writeRange_outside _ _ (by omega)]
        congr 1
        simp
        omega

end

/-! ### Bytes of a number -/

/-- Byte `position` of a number, least significant byte first. -/
def byteOf (value position : Nat) : UInt8 := UInt8.ofNat (value / 256 ^ position)

/-- The number with byte `position` replaced. -/
def replaceByte (value position : Nat) (byte : UInt8) : Nat :=
  value - value / 256 ^ position % 256 * 256 ^ position + byte.toNat * 256 ^ position

/-! ### Little-endian fields -/

/-- The number in the `width` bytes from `address` on, least significant
first. -/
def readLE (memory : Nat → UInt8) (address : Nat) : Nat → Nat
  | 0 => 0
  | width + 1 => (memory address).toNat + 256 * readLE memory (address + 1) width

/-- A field is read from its own bytes only. -/
theorem readLE_congr {memory other : Nat → UInt8} {address width : Nat}
    (same : ∀ position < width, memory (address + position) = other (address + position)) :
    readLE memory address width = readLE other address width := by
  induction width generalizing address with
  | zero => rfl
  | succ width inductionHypothesis =>
      have first : memory address = other address := same 0 (by omega)
      have rest : readLE memory (address + 1) width = readLE other (address + 1) width := by
        apply inductionHypothesis
        intro position inside
        rw [Nat.add_assoc, Nat.add_comm 1]
        exact same (position + 1) (by omega)
      rw [readLE, readLE, first, rest]

/-- A field is the number whose digits are its bytes. -/
theorem readLE_eq_ofDigits (memory : Nat → UInt8) (address width : Nat) :
    readLE memory address width =
      Nat.ofDigits 256 ((readRange memory address width).map UInt8.toNat) := by
  induction width generalizing address with
  | zero => rfl
  | succ width inductionHypothesis =>
      have first : readRange memory address (width + 1) =
          memory address :: readRange memory (address + 1) width := by
        simp [readRange, List.range_succ_eq_map, Nat.add_assoc, Nat.add_comm 1]
      rw [readLE, inductionHypothesis, first, List.map_cons, Nat.ofDigits_cons]

/-- The cells of a memory that holds a list. -/
theorem readRange_eq_take_drop {β : Type} {memory : Nat → β} {cells : List β} {base size : Nat}
    (holds : ∀ position (inside : position < cells.length), memory position = cells[position])
    (fits : base + size ≤ cells.length) :
    readRange memory base size = (cells.drop base).take size := by
  apply List.ext_getElem
  · simp
    omega
  · intro position inside _
    rw [readRange_length] at inside
    rw [readRange_getElem, List.getElem_take, List.getElem_drop]
    exact holds _ _

theorem readLE_lt (memory : Nat → UInt8) (address width : Nat) :
    readLE memory address width < 256 ^ width := by
  induction width generalizing address with
  | zero => exact Nat.one_pos
  | succ width inductionHypothesis =>
      have byte := (memory address).toNat_lt
      have rest := inductionHypothesis (address + 1)
      rw [readLE, pow_succ]
      omega

/-- Bytes of a number, from byte `skipped` on, read back as that part of it. -/
theorem readLE_of_byteOf {memory : Nat → UInt8} {value : Nat} (address skipped width : Nat)
    (bytes : ∀ position < width, memory (address + position) = byteOf value (skipped + position)) :
    readLE memory address width = value / 256 ^ skipped % 256 ^ width := by
  induction width generalizing address skipped with
  | zero => simp [readLE, Nat.mod_one]
  | succ width inductionHypothesis =>
      have first : (memory address).toNat = value / 256 ^ skipped % 256 := by
        have here := bytes 0 (by omega)
        simp only [Nat.add_zero] at here
        rw [here]
        simp [byteOf]
      have rest : readLE memory (address + 1) width =
          value / 256 ^ (skipped + 1) % 256 ^ width := by
        apply inductionHypothesis
        intro position inside
        rw [Nat.add_assoc, Nat.add_assoc, Nat.add_comm 1]
        exact bytes (position + 1) (by omega)
      rw [readLE, first, rest, pow_succ, ← Nat.div_div_eq_div_mul, pow_succ, Nat.mul_comm (256 ^ width),
        Nat.mod_mul]

/-- The memory with a field of `width` bytes set to `value`. -/
def writeLE (memory : Nat → UInt8) (address width value : Nat) : Nat → UInt8 :=
  writeRange memory address width (byteOf value)

theorem readLE_writeLE (memory : Nat → UInt8) (address : Nat) {width value : Nat}
    (fits : value < 256 ^ width) :
    readLE (writeLE memory address width value) address width = value := by
  rw [@readLE_of_byteOf _ value address 0 width, pow_zero, Nat.div_one, Nat.mod_eq_of_lt fits]
  intro position inside
  rw [writeLE, writeRange_inside _ _ _ inside, Nat.zero_add]

theorem readLE_writeLE_apart (memory : Nat → UInt8) {address width other otherWidth : Nat}
    (value : Nat) (apart : other + otherWidth ≤ address ∨ address + width ≤ other) :
    readLE (writeLE memory address width value) other otherWidth =
      readLE memory other otherWidth := by
  apply readLE_congr
  intro position inside
  exact writeRange_outside _ _ (by omega)

end Mcsos.Machine
