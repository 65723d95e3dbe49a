import Mcsos.Machine.Bytes

/-!
Owns a stack of 64-bit words in byte memory. Addresses are 64-bit and wrap, so
there is no address at which a stack may not begin; the stack grows downwards
and `StackHolds` describes the words from its top on, the last one pushed
first.
-/

namespace Mcsos.Machine

/-- Byte memory with 64-bit addresses. -/
abbrev Memory64 := UInt64 → UInt8

/-- The little-endian word at `address`. -/
def load64 (memory : Memory64) (address : UInt64) : UInt64 :=
  UInt64.ofNat (readLE (fun position => memory (address + UInt64.ofNat position)) 0 8)

/-- The memory with the word at `address` replaced. -/
def store64 (memory : Memory64) (address value : UInt64) : Memory64 :=
  fun target =>
    if (target - address).toNat < 8 then byteOf value.toNat (target - address).toNat
    else memory target

/-! ### One word -/

theorem store64_inside (memory : Memory64) (address value : UInt64) {position : Nat}
    (inside : position < 8) :
    store64 memory address value (address + UInt64.ofNat position) =
      byteOf value.toNat position := by
  have distance : (address + UInt64.ofNat position - address).toNat = position := by
    have small : position < UInt64.size := by
      simp only [UInt64.size]
      omega
    rw [UInt64.add_comm, UInt64.add_sub_cancel, UInt64.toNat_ofNat_of_lt' small]
  rw [store64, distance, if_pos inside]

theorem load64_store64 (memory : Memory64) (address value : UInt64) :
    load64 (store64 memory address value) address = value := by
  have bytes := @readLE_of_byteOf
    (fun position => store64 memory address value (address + UInt64.ofNat position))
    value.toNat 0 0 8 (by
      intro position inside
      simp only [Nat.zero_add]
      exact store64_inside memory address value inside)
  have small : value.toNat < 256 ^ 8 := value.toNat_lt
  rw [load64, bytes, pow_zero, Nat.div_one, Nat.mod_eq_of_lt small, UInt64.ofNat_toNat]

/-- A word is read from its own bytes only. -/
theorem load64_congr {memory other : Memory64} {address : UInt64}
    (same : ∀ position < 8, memory (address + UInt64.ofNat position) =
      other (address + UInt64.ofNat position)) :
    load64 memory address = load64 other address := by
  have field : readLE (fun position => memory (address + UInt64.ofNat position)) 0 8 =
      readLE (fun position => other (address + UInt64.ofNat position)) 0 8 := by
    apply readLE_congr
    intro position inside
    simpa using same position inside
  rw [load64, load64, field]

/-! ### Words from the top of a stack on -/

/-- The words from `rsp` on, in the order of their addresses. -/
def StackHolds (memory : Memory64) (rsp : UInt64) : List UInt64 → Prop
  | [] => True
  | word :: rest => load64 memory rsp = word ∧ StackHolds memory (rsp + 8) rest

theorem stackHolds_append {memory : Memory64} {rsp : UInt64} {first second : List UInt64} :
    StackHolds memory rsp (first ++ second) ↔
      StackHolds memory rsp first ∧
        StackHolds memory (rsp + UInt64.ofNat (8 * first.length)) second := by
  induction first generalizing rsp with
  | nil => simp [StackHolds]
  | cons word rest inductionHypothesis =>
      have next : rsp + 8 + UInt64.ofNat (8 * rest.length) =
          rsp + UInt64.ofNat (8 * (word :: rest).length) := by
        rw [List.length_cons, Nat.mul_succ, Nat.add_comm, UInt64.ofNat_add, ← UInt64.add_assoc]
        rfl
      show _ ∧ StackHolds _ _ (rest ++ second) ↔ (_ ∧ _) ∧ _
      rw [inductionHypothesis, next, and_assoc]

/-- One word of a stack. -/
theorem StackHolds.word {memory : Memory64} {rsp : UInt64} {words : List UInt64}
    (holds : StackHolds memory rsp words) {index : Nat} (inside : index < words.length) :
    load64 memory (rsp + UInt64.ofNat (8 * index)) = words[index] := by
  induction words generalizing rsp index with
  | nil => simp at inside
  | cons word rest inductionHypothesis =>
      cases index with
      | zero => simpa using holds.1
      | succ index =>
          have next : rsp + UInt64.ofNat (8 * (index + 1)) = rsp + 8 + UInt64.ofNat (8 * index) := by
            rw [Nat.mul_succ, Nat.add_comm, UInt64.ofNat_add, ← UInt64.add_assoc]
            rfl
          rw [next]
          exact inductionHypothesis holds.2 (by simpa using inside)

/-- A stack is described by its own bytes only. -/
theorem StackHolds.congr {memory other : Memory64} {rsp : UInt64} {words : List UInt64}
    (holds : StackHolds memory rsp words)
    (same : ∀ position < 8 * words.length, other (rsp + UInt64.ofNat position) =
      memory (rsp + UInt64.ofNat position)) : StackHolds other rsp words := by
  induction words generalizing rsp with
  | nil => trivial
  | cons word rest inductionHypothesis =>
      rw [List.length_cons] at same
      refine ⟨(load64_congr fun position inside => same position (by omega)).trans holds.1, ?_⟩
      apply inductionHypothesis holds.2
      intro position inside
      have here := same (8 + position) (by omega)
      rwa [UInt64.ofNat_add, ← UInt64.add_assoc] at here

/-- A store below a stack does not reach it. -/
theorem store64_below (memory : Memory64) (rsp value : UInt64) {position : Nat}
    (near : position + 8 < 2 ^ 64) :
    store64 memory (rsp - 8) value (rsp + UInt64.ofNat position) =
      memory (rsp + UInt64.ofNat position) := by
  have offset : rsp + UInt64.ofNat position - (rsp - 8) = UInt64.ofNat (position + 8) := by
    rw [UInt64.ofNat_add]
    grind
  have distance : (rsp + UInt64.ofNat position - (rsp - 8)).toNat = position + 8 := by
    rw [offset, UInt64.toNat_ofNat_of_lt' near]
  rw [store64, distance, if_neg (by omega)]

/-- A push: the new word is on top, the others are where they were. -/
theorem StackHolds.push {memory : Memory64} {rsp : UInt64} {words : List UInt64}
    (holds : StackHolds memory rsp words) (short : 8 * (words.length + 1) ≤ 2 ^ 64)
    (value : UInt64) :
    StackHolds (store64 memory (rsp - 8) value) (rsp - 8) (value :: words) := by
  refine ⟨load64_store64 memory (rsp - 8) value, ?_⟩
  rw [UInt64.sub_add_cancel]
  apply holds.congr
  intro position inside
  exact store64_below memory rsp value (by omega)

end Mcsos.Machine
