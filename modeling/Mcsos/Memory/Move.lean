import Mathlib.Algebra.Order.Ring.Nat
import Mcsos.Machine.Copy
import Mcsos.Memory.Model

/-!
Contract: `memmove` against a copy of all bytes at once.

The direction is chosen so that no byte is overwritten before it is read,
however the ranges overlap. `memcpy` always goes upward, which is the same for
ranges that share no byte.
-/

namespace Mcsos.Memory

open Mcsos.Machine

/-- The address is one of the `count` from `start` on. -/
def InRange (start count address : UInt64) : Prop :=
  start.toNat ≤ address.toNat ∧ address.toNat < start.toNat + count.toNat

instance (start count address : UInt64) : Decidable (InRange start count address) :=
  inferInstanceAs (Decidable (_ ∧ _))

/-- The range does not wrap. -/
def Fits (start count : UInt64) : Prop := start.toNat + count.toNat ≤ 2 ^ 64

instance (start count : UInt64) : Decidable (Fits start count) :=
  inferInstanceAs (Decidable (_ ≤ _))

/-- The memory with the range at `src` copied to `dest` at once. -/
def copied (dest src count : UInt64) (memory : Bytes) : Bytes :=
  fun address =>
    if InRange dest count address then memory (src + (address - dest)) else memory address

/-! ### The loops, cell by cell -/

/-- The cell that a copy is of, by its place in the range. -/
def cell (start : UInt64) (place : Nat) : UInt64 := start + UInt64.ofNat place

theorem cell_succ (start : UInt64) (place : Nat) :
    cell (start + 1) place = cell start (place + 1) := by
  rw [cell, cell, UInt64.ofNat_add, UInt64.add_assoc, UInt64.add_comm 1]
  rfl

theorem cell_toNat {start count : UInt64} (fits : Fits start count) {place : Nat}
    (inside : place < count.toNat) : (cell start place).toNat = start.toNat + place := by
  unfold Fits at fits
  rw [cell, UInt64.toNat_add, UInt64.toNat_ofNat']
  omega

theorem copyUpward_eq (count : Nat) (d s : UInt64) (memory : Bytes) :
    copyUpward count d s memory = copyEach (cell d) (cell s) (List.range count) memory := by
  induction count generalizing d s memory with
  | zero => rfl
  | succ count inductionHypothesis =>
      have shifted : ∀ start, cell (start + 1) = cell start ∘ Nat.succ :=
        fun start => funext (cell_succ start)
      have first : ∀ start, cell start 0 = start := fun start => UInt64.add_zero start
      rw [copyUpward, inductionHypothesis, List.range_succ_eq_map, copyEach, copyEach_map, first,
        first, shifted, shifted]

theorem copyDownward_eq (count : Nat) (dest src : UInt64) (memory : Bytes) :
    copyDownward count (cell dest count) (cell src count) memory =
      copyEach (cell dest) (cell src) (List.range count).reverse memory := by
  induction count generalizing memory with
  | zero => rfl
  | succ count inductionHypothesis =>
      have previous : ∀ start, cell start (count + 1) - 1 = cell start count := by
        intro start
        rw [cell, cell, UInt64.ofNat_add, ← UInt64.add_assoc]
        exact UInt64.add_sub_cancel _ _
      rw [copyDownward]
      simp only [previous]
      rw [inductionHypothesis, List.range_succ, List.reverse_append]
      rfl

/-! ### A copy at once -/

section

variable {dest src count : UInt64}

theorem inRange_iff (fits : Fits dest count) (address : UInt64) :
    InRange dest count address ↔ ∃ place < count.toNat, cell dest place = address := by
  constructor
  · intro within
    obtain ⟨above, below⟩ := within
    have inside : address.toNat - dest.toNat < count.toNat := by omega
    refine ⟨address.toNat - dest.toNat, inside, ?_⟩
    apply UInt64.toNat.inj
    rw [cell_toNat fits inside]
    omega
  · intro isCell
    obtain ⟨place, inside, rfl⟩ := isCell
    rw [InRange, cell_toNat fits inside]
    omega

/-- Copies of all cells in a safe order are a copy of them at once. -/
theorem copyEach_eq_copied (fits : Fits dest count) {order : List Nat}
    (places : ∀ place, place ∈ order ↔ place < count.toNat)
    (safe : SafeOrder (cell dest) (cell src) order) (memory : Bytes) :
    copyEach (cell dest) (cell src) order memory = copied dest src count memory := by
  funext address
  by_cases inside : InRange dest count address
  · obtain ⟨place, isPlace, rfl⟩ := (inRange_iff fits address).mp inside
    have offset : src + (cell dest place - dest) = cell src place := by
      rw [cell, UInt64.add_comm dest, UInt64.add_sub_cancel, cell]
    rw [safe.copyEach_target ((places place).mpr isPlace), copied, if_pos inside, offset]
  · rw [copied, if_neg inside]
    apply copyEach_of_ne
    intro place member same
    exact inside ((inRange_iff fits address).mpr ⟨place, (places place).mp member, same.symm⟩)

variable (destFits : Fits dest count) (srcFits : Fits src count)

include destFits srcFits

theorem cell_ne_cell {place later : Nat} (inside : place < count.toNat)
    (laterInside : later < count.toNat) (different : dest.toNat + place ≠ src.toNat + later) :
    cell dest place ≠ cell src later := by
  intro same
  have equal := congrArg UInt64.toNat same
  rw [cell_toNat destFits inside, cell_toNat srcFits laterInside] at equal
  exact different equal

omit srcFits in
theorem cell_injective {place later : Nat} (inside : place < count.toNat)
    (laterInside : later < count.toNat) (different : place ≠ later) :
    cell dest place ≠ cell dest later :=
  cell_ne_cell destFits destFits inside laterInside (by omega)

/-- Upward, a byte is overwritten once the destination gets there: that is
never before it is read, unless the destination is ahead. -/
theorem upward_safe
    (behind : ∀ place later, place < later → later < count.toNat →
      dest.toNat + place ≠ src.toNat + later) :
    SafeOrder (cell dest) (cell src) (List.range count.toNat) := by
  refine List.pairwise_lt_range.imp_of_mem ?_
  intro place later member laterMember order
  have inside := List.mem_range.mp member
  have laterInside := List.mem_range.mp laterMember
  exact ⟨cell_injective destFits inside laterInside (Nat.ne_of_lt order),
    cell_ne_cell destFits srcFits inside laterInside (behind place later order laterInside)⟩

theorem downward_safe (ahead : src.toNat ≤ dest.toNat) :
    SafeOrder (cell dest) (cell src) (List.range count.toNat).reverse := by
  refine List.pairwise_reverse.mpr (List.pairwise_lt_range.imp_of_mem ?_)
  intro earlier place member placeMember order
  have inside := List.mem_range.mp member
  have placeInside := List.mem_range.mp placeMember
  exact ⟨cell_injective destFits placeInside inside (Nat.ne_of_gt order),
    cell_ne_cell destFits srcFits placeInside inside (by omega)⟩

theorem copyUpward_eq_copied
    (behind : ∀ place later, place < later → later < count.toNat →
      dest.toNat + place ≠ src.toNat + later) (memory : Bytes) :
    copyUpward count.toNat dest src memory = copied dest src count memory := by
  rw [copyUpward_eq]
  exact copyEach_eq_copied destFits (fun _ => List.mem_range)
    (upward_safe destFits srcFits behind) memory

theorem copyDownward_eq_copied (ahead : src.toNat ≤ dest.toNat) (memory : Bytes) :
    copyDownward count.toNat (dest + count) (src + count) memory =
      copied dest src count memory := by
  have stop : ∀ start : UInt64, start + count = cell start count.toNat := by
    intro start
    rw [cell, UInt64.ofNat_toNat]
  rw [stop, stop, copyDownward_eq]
  refine copyEach_eq_copied destFits ?_ (downward_safe destFits srcFits ahead) memory
  intro place
  rw [List.mem_reverse, List.mem_range]

theorem memmove_eq (memory : Bytes) :
    memmove dest src count memory = (dest, copied dest src count memory) := by
  unfold memmove
  split
  next trivially =>
    -- nothing to do: no byte, or every byte onto itself
    congr 1
    funext address
    rcases trivially with rfl | rfl
    · have back : dest + (address - dest) = address := by
        rw [UInt64.add_comm, UInt64.sub_add_cancel]
      simp [copied, back]
    · have outside : ¬ InRange dest 0 address := by
        intro within
        exact absurd within.2 (Nat.not_lt.mpr within.1)
      rw [copied, if_neg outside]
  next apart =>
    split
    next below =>
      rw [copyUpward_eq_copied destFits srcFits]
      intro place later order inside
      have ordered := UInt64.lt_iff_toNat_lt.mp below
      omega
    next above =>
      show (dest, copyDownward count.toNat (dest + count) (src + count) memory) = _
      rw [copyDownward_eq_copied destFits srcFits]
      exact Nat.not_lt.mp fun ordered => above (UInt64.lt_iff_toNat_lt.mpr ordered)

theorem memcpy_eq (disjoint : ∀ address, InRange dest count address → ¬ InRange src count address)
    (memory : Bytes) : memcpy dest src count memory = (dest, copied dest src count memory) := by
  rw [memcpy, copyUpward_eq_copied destFits srcFits]
  intro place later order inside same
  refine disjoint (cell src later) ?_ ((inRange_iff srcFits _).mpr ⟨later, inside, rfl⟩)
  rw [InRange, cell_toNat srcFits inside]
  omega

/-- After `memmove` the destination holds what the source held, and all else is
as it was; `memcpy` does the same where the ranges share no byte. -/
theorem memmove_copies (memory : Bytes) :
    (memmove dest src count memory).1 = dest ∧
      (∀ i < count, (memmove dest src count memory).2 (dest + i) = memory (src + i)) ∧
      (∀ address, ¬ InRange dest count address →
        (memmove dest src count memory).2 address = memory address) ∧
      ((∀ address, InRange dest count address → ¬ InRange src count address) →
        (memcpy dest src count memory).2 = (memmove dest src count memory).2) := by
  rw [memmove_eq destFits srcFits]
  refine ⟨rfl, ?_, ?_, ?_⟩
  · intro i inside
    have isPlace := UInt64.lt_iff_toNat_lt.mp inside
    have inRange : InRange dest count (dest + i) :=
      (inRange_iff destFits _).mpr ⟨i.toNat, isPlace, by rw [cell, UInt64.ofNat_toNat]⟩
    show copied dest src count memory (dest + i) = _
    rw [copied, if_pos inRange, UInt64.add_comm dest, UInt64.add_sub_cancel]
  · intro address outside
    exact if_neg outside
  · intro disjoint
    rw [memcpy_eq destFits srcFits disjoint]

end

/-- Four bytes moved up by two, over themselves. -/
theorem memmove_copies_overlap :
    (memmove 0x1002 0x1000 4 fun address => address.toUInt8).2 (0x1002 + 3) =
      (0x1000 + 3 : UInt64).toUInt8 := by
  have destFits : Fits 0x1002 4 := by decide
  have srcFits : Fits 0x1000 4 := by decide
  exact (memmove_copies destFits srcFits _).2.1 3 (by decide)

end Mcsos.Memory
