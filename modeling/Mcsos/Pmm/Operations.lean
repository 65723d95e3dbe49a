import Mcsos.Pmm.Model

/-!
What each operation of the manager does to its state. All of them are built
from two effects, taking a free frame and releasing a used one; this module
says which frames each operation takes or releases and what it answers, and
later modules never open the loops again.
-/

namespace Mcsos.Pmm

open Mcsos.Machine
open Mcsos.Machine.Prog

/-- A frame is marked used and counted so. -/
def PmmState.take (pmm : PmmState) (frame : Nat) : PmmState :=
  { pmm with
    bitmap := setBit pmm.bitmap frame
    freeFrames := sub64 pmm.freeFrames 1
    usedFrames := wrap64 (pmm.usedFrames + 1) }

/-- A frame is marked free and counted so. -/
def PmmState.release (pmm : PmmState) (frame : Nat) : PmmState :=
  { pmm with
    bitmap := clearBit pmm.bitmap frame
    freeFrames := wrap64 (pmm.freeFrames + 1)
    usedFrames := sub64 pmm.usedFrames 1 }

theorem getBit_take (pmm : PmmState) (frame other : Nat) :
    getBit (pmm.take frame).bitmap other = (decide (frame = other) || getBit pmm.bitmap other) :=
  getBit_setBit _ _ _

theorem getBit_release (pmm : PmmState) (frame other : Nat) :
    getBit (pmm.release frame).bitmap other =
      (!decide (frame = other) && getBit pmm.bitmap other) :=
  getBit_clearBit _ _ _

/-! ### Bits and counters -/

@[simp] theorem bitmapTest_result (bit : Nat) (pmm : PmmState) :
    (bitmapTest bit).result pmm = getBit pmm.bitmap bit := (rfl)

@[simp] theorem bitmapTest_final (bit : Nat) (pmm : PmmState) :
    (bitmapTest bit).final pmm = pmm := (rfl)

theorem bitmapSet_countTaken_final (bit : Nat) (pmm : PmmState) :
    countTaken.final ((bitmapSet bit).final pmm) = pmm.take bit := rfl

theorem bitmapClear_countReleased_final (bit : Nat) (pmm : PmmState) :
    countReleased.final ((bitmapClear bit).final pmm) = pmm.release bit := rfl

/-! ### Allocation -/

private theorem allocProbe_miss {index : Nat} {pmm : PmmState}
    (used : getBit pmm.bitmap index = true) :
    (allocProbe index).result pmm = none ∧ (allocProbe index).final pmm = pmm := by
  simp [allocProbe, used]

private theorem allocProbe_hit {index : Nat} {pmm : PmmState}
    (free : getBit pmm.bitmap index = false) :
    (allocProbe index).result pmm = some (wrap64 (index * pmmPageSize)) ∧
      (allocProbe index).final pmm = pmm.take index := by
  simp [allocProbe, free, bitmapSet_countTaken_final]

/-- The allocator takes the lowest free frame, or finds every frame used and
changes nothing. -/
theorem pmmAllocFrame_cases (pmm : PmmState) :
    ((∀ frame, frame < pmm.frameCount → getBit pmm.bitmap frame = true) ∧
      pmmAllocFrame.result pmm = pmmInvalidFrame ∧ pmmAllocFrame.final pmm = pmm) ∨
    ∃ frame, frame < pmm.frameCount ∧ getBit pmm.bitmap frame = false ∧
      (∀ lower, lower < frame → getBit pmm.bitmap lower = true) ∧
      pmmAllocFrame.result pmm = wrap64 (frame * pmmPageSize) ∧
      pmmAllocFrame.final pmm = pmm.take frame := by
  by_cases full : ∀ frame, frame < pmm.frameCount → getBit pmm.bitmap frame = true
  · left
    obtain ⟨answer, same⟩ := scanLoop_miss 0 pmm.frameCount allocProbe pmm
      (fun index _ upper => allocProbe_miss (full index (by omega)))
    refine ⟨full, ?_, ?_⟩
    · simp [pmmAllocFrame, answer]
    · simp [pmmAllocFrame, answer, same]
  · right
    push Not at full
    have existsFree : ∃ frame, frame < pmm.frameCount ∧ getBit pmm.bitmap frame = false := by
      obtain ⟨frame, below, notUsed⟩ := full
      exact ⟨frame, below, by simpa using notUsed⟩
    -- the loop stops at the least free frame
    obtain ⟨below, free⟩ := Nat.find_spec existsFree
    have lowest : ∀ lower, lower < Nat.find existsFree → getBit pmm.bitmap lower = true := by
      intro lower before
      have notFree := Nat.find_min existsFree before
      by_contra notUsed
      exact notFree ⟨by omega, by simpa using notUsed⟩
    obtain ⟨value, effect⟩ := allocProbe_hit free
    obtain ⟨answer, last⟩ := scanLoop_hit 0 pmm.frameCount allocProbe pmm
      (Nat.zero_le _) (by omega)
      (fun index _ upper => allocProbe_miss (lowest index upper)) value
    refine ⟨Nat.find existsFree, below, free, lowest, ?_, ?_⟩
    · simp [pmmAllocFrame, answer]
    · simp [pmmAllocFrame, answer, last, effect]

/-! ### Release -/

theorem and_pageMask (phys : Nat) : phys &&& (pmmPageSize - 1) = phys % pmmPageSize :=
  Nat.and_two_pow_sub_one_eq_mod phys 12

/-- `pmm_free_frame` refuses without effect, or releases the one frame it is
given. -/
theorem pmmFreeFrame_cases (phys : Nat) (pmm : PmmState) :
    ((pmmFreeFrame phys).result pmm = false ∧ (pmmFreeFrame phys).final pmm = pmm) ∨
    (phys % pmmPageSize = 0 ∧ phys / pmmPageSize < pmm.frameCount ∧
      getBit pmm.bitmap (phys / pmmPageSize) = true ∧
      (pmmFreeFrame phys).result pmm = true ∧
      (pmmFreeFrame phys).final pmm = pmm.release (phys / pmmPageSize)) := by
  unfold pmmFreeFrame
  rw [and_pageMask]
  simp only [result_bind, final_bind, result_get, final_get]
  by_cases aligned : phys % pmmPageSize = 0
  · by_cases below : phys / pmmPageSize < pmm.frameCount
    · have inside : ¬ phys / pmmPageSize ≥ pmm.frameCount := by omega
      cases bit : getBit pmm.bitmap (phys / pmmPageSize) with
      | false => simp [aligned, inside, bit]
      | true => simp [aligned, inside, below, bit, bitmapClear_countReleased_final]
    · have outside : phys / pmmPageSize ≥ pmm.frameCount := by omega
      simp [aligned, outside]
  · simp [aligned]

/-- The address of a used frame is accepted. -/
theorem pmmFreeFrame_used {frame : Nat} {pmm : PmmState} (below : frame < pmm.frameCount)
    (used : getBit pmm.bitmap frame = true) :
    (pmmFreeFrame (frame * pmmPageSize)).result pmm = true ∧
      (pmmFreeFrame (frame * pmmPageSize)).final pmm = pmm.release frame := by
  have number : frame * pmmPageSize / pmmPageSize = frame := Nat.mul_div_cancel frame (by decide)
  have aligned : frame * pmmPageSize % pmmPageSize = 0 := Nat.mul_mod_left _ _
  have inside : ¬ frame ≥ pmm.frameCount := by omega
  unfold pmmFreeFrame
  rw [and_pageMask]
  simp [aligned, number, inside, used, bitmapClear_countReleased_final]

/-! ### Reservation -/

/-- The effect of one iteration of the loop of `pmm_reserve_range` on a frame
inside the managed range. -/
private theorem reserveFrame_inside {start index : Nat} {pmm : PmmState}
    (below : wrap64 (start + index) < pmm.frameCount) :
    (reserveFrame start index).result pmm = none ∧
      (reserveFrame start index).final pmm =
        if getBit pmm.bitmap (wrap64 (start + index)) then pmm
        else pmm.take (wrap64 (start + index)) := by
  have inside : ¬ wrap64 (start + index) ≥ pmm.frameCount := by omega
  cases bit : getBit pmm.bitmap (wrap64 (start + index)) with
  | false => simp [reserveFrame, inside, bit, bitmapSet_countTaken_final]
  | true => simp [reserveFrame, inside, bit]

private theorem reserveFrame_outside {start index : Nat} {pmm : PmmState}
    (outside : pmm.frameCount ≤ wrap64 (start + index)) :
    (reserveFrame start index).result pmm = some () ∧
      (reserveFrame start index).final pmm = pmm := by
  simp [reserveFrame, outside]

/-- What taking a frame preserves, one iteration of the loop preserves. -/
theorem reserveFrame_invariant (inv : PmmState → Prop) (start index : Nat) {pmm : PmmState}
    (entry : inv pmm)
    (step : ∀ s frame, inv s → frame < s.frameCount → getBit s.bitmap frame = false →
      inv (s.take frame)) :
    inv ((reserveFrame start index).final pmm) := by
  by_cases below : wrap64 (start + index) < pmm.frameCount
  · rw [(reserveFrame_inside below).2]
    cases bit : getBit pmm.bitmap (wrap64 (start + index)) with
    | false => exact step pmm _ entry below bit
    | true => exact entry
  · rw [(reserveFrame_outside (Nat.not_lt.mp below)).2]
    exact entry

/-- What a sequence of takes preserves, a reservation preserves. -/
theorem pmmReserveRange_invariant (inv : PmmState → Prop) (base length : Nat) {pmm : PmmState}
    (entry : inv pmm)
    (step : ∀ s frame, inv s → frame < s.frameCount → getBit s.bitmap frame = false →
      inv (s.take frame)) :
    inv ((pmmReserveRange base length).final pmm) := by
  have loop := scanLoop_invariant 0 (length / pmmPageSize)
    (reserveFrame (base / pmmPageSize)) (fun _ s => inv s) (fun _ s => inv s) entry (by
      intro index s _ _ holds
      have kept := reserveFrame_invariant inv (base / pmmPageSize) index holds step
      split <;> exact kept)
  simp only [pmmReserveRange, final_bind, final_pure]
  split at loop <;> exact loop

/-- The bits of the frames from `start` on and below `stop` that are managed
are set. -/
def Covered (start stop : Nat) (pmm : PmmState) : Prop :=
  ∀ frame, start ≤ frame → frame < stop → frame < pmm.frameCount →
    getBit pmm.bitmap frame = true

private theorem reserveFrame_covered {start index : Nat} {pmm : PmmState}
    (below : wrap64 (start + index) < pmm.frameCount) (noWrap : start + index < 2 ^ 64)
    (covered : Covered start (start + index) pmm) :
    Covered start (start + (index + 1)) ((reserveFrame start index).final pmm) := by
  rw [(reserveFrame_inside below).2, wrap64_of_lt noWrap]
  intro frame lower upper managed
  by_cases last : start + index = frame
  · subst last
    cases bit : getBit pmm.bitmap (start + index) with
    | false => simp [getBit_take]
    | true => simp [bit]
  · cases bit : getBit pmm.bitmap (start + index) with
    | false =>
        simp only [bit, Bool.false_eq_true, if_false] at managed ⊢
        rw [getBit_take, covered frame lower (by omega) managed, Bool.or_true]
    | true =>
        simp only [bit, if_true] at managed ⊢
        exact covered frame lower (by omega) managed

/-- After a reservation every managed frame of the range is used. The range
never wraps: frame numbers of 64-bit addresses have 52 bits. -/
theorem pmmReserveRange_covered {base length : Nat} (baseSmall : base < 2 ^ 64)
    (lengthSmall : length < 2 ^ 64) (pmm : PmmState) :
    Covered (base / pmmPageSize) (base / pmmPageSize + length / pmmPageSize)
      ((pmmReserveRange base length).final pmm) := by
  have noWrap : ∀ index < length / pmmPageSize, base / pmmPageSize + index < 2 ^ 64 := by
    intro index inside
    simp only [pmmPageSize] at inside ⊢
    omega
  have entry : Covered (base / pmmPageSize) (base / pmmPageSize + 0) pmm := by
    intro frame lower upper
    omega
  have loop := scanLoop_invariant 0 (length / pmmPageSize)
    (reserveFrame (base / pmmPageSize))
    (fun index s => Covered (base / pmmPageSize) (base / pmmPageSize + index) s)
    (fun _ s => Covered (base / pmmPageSize) (base / pmmPageSize + length / pmmPageSize) s)
    entry (by
      intro index s _ upper covered
      have small := noWrap index (by omega)
      by_cases below : wrap64 (base / pmmPageSize + index) < s.frameCount
      · rw [(reserveFrame_inside below).1]
        exact reserveFrame_covered below small covered
      · -- the loop stops at the first frame that is not managed
        obtain ⟨stops, same⟩ := reserveFrame_outside (Nat.not_lt.mp below)
        rw [stops, same]
        rw [wrap64_of_lt small] at below
        intro frame lower _ managed
        exact covered frame lower (by omega) managed)
  simp only [pmmReserveRange, final_bind, final_pure]
  split at loop
  · rwa [Nat.zero_add] at loop
  · exact loop

/-- A reservation takes frames of its range only. -/
theorem pmmReserveRange_outside {base length : Nat} (baseSmall : base < 2 ^ 64)
    (lengthSmall : length < 2 ^ 64) (pmm : PmmState) {frame : Nat}
    (outside : frame < base / pmmPageSize ∨
      base / pmmPageSize + length / pmmPageSize ≤ frame) :
    getBit ((pmmReserveRange base length).final pmm).bitmap frame = getBit pmm.bitmap frame := by
  have loop := scanLoop_invariant 0 (length / pmmPageSize)
    (reserveFrame (base / pmmPageSize))
    (fun _ s => getBit s.bitmap frame = getBit pmm.bitmap frame)
    (fun _ s => getBit s.bitmap frame = getBit pmm.bitmap frame) rfl (by
      intro index s _ upper same
      have noWrap : wrap64 (base / pmmPageSize + index) = base / pmmPageSize + index := by
        apply wrap64_of_lt
        simp only [pmmPageSize] at upper ⊢
        omega
      have kept : getBit ((reserveFrame (base / pmmPageSize) index).final s).bitmap frame =
          getBit pmm.bitmap frame := by
        by_cases below : wrap64 (base / pmmPageSize + index) < s.frameCount
        · rw [(reserveFrame_inside below).2, noWrap]
          split
          · exact same
          · have different : base / pmmPageSize + index ≠ frame := by omega
            rw [getBit_take, same]
            simp [different]
        · rw [(reserveFrame_outside (Nat.not_lt.mp below)).2]
          exact same
      split <;> exact kept)
  simp only [pmmReserveRange, final_bind, final_pure]
  split at loop <;> exact loop

/-! ### Queries -/

/-- A frame is free when it is managed and its bit is clear. -/
theorem pmmIsFrameFree_iff (phys : Nat) (pmm : PmmState) :
    (pmmIsFrameFree phys).result pmm = true ↔
      phys / pmmPageSize < pmm.frameCount ∧ getBit pmm.bitmap (phys / pmmPageSize) = false := by
  unfold pmmIsFrameFree
  by_cases below : phys / pmmPageSize < pmm.frameCount
  · simp [below, Nat.not_le.mpr below]
  · simp [below, Nat.not_lt.mp below]

/-- The same of a frame by its number. -/
theorem pmmIsFrameFree_frame_iff (frame : Nat) (pmm : PmmState) :
    (pmmIsFrameFree (frame * pmmPageSize)).result pmm = true ↔
      frame < pmm.frameCount ∧ getBit pmm.bitmap frame = false := by
  have number : frame * pmmPageSize / pmmPageSize = frame := Nat.mul_div_cancel frame (by decide)
  rw [pmmIsFrameFree_iff, number]

end Mcsos.Pmm
