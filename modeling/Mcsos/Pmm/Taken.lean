import Mathlib.Data.Finset.Union
import Mcsos.Pmm.Reservation

/-!
Owns the manager as a set: a state is one it was in before, together with the
frames that have been taken since. Taking a free frame adds it to the set,
releasing one of the set takes it out, and two states with the same set are the
same state, whatever calls led to them.

Reservations are the first use. A reservation adds the free frames of its
range, so reservations may be made in any order, overlap and be repeated.
-/

namespace Mcsos.Pmm

open Mcsos.Machine
open Mcsos.Machine.Prog

/-- The counters are `uint64_t`. -/
structure PmmState.Words (pmm : PmmState) : Prop where
  freeFrames : pmm.freeFrames < 2 ^ 64
  usedFrames : pmm.usedFrames < 2 ^ 64

/-- The manager is as it was in `start`, but for these frames, which were free
and are taken. -/
structure TakenFrom (start : PmmState) (frames : Finset Nat) (pmm : PmmState) : Prop where
  frameCount : pmm.frameCount = start.frameCount
  nextHint : pmm.nextHint = start.nextHint
  initialized : pmm.initialized = start.initialized
  wereFree : frames ⊆ clearBits start.bitmap start.frameCount
  bits : ∀ frame, getBit pmm.bitmap frame = (decide (frame ∈ frames) || getBit start.bitmap frame)
  freeFrames : pmm.freeFrames = sub64 start.freeFrames frames.card
  usedFrames : pmm.usedFrames = wrap64 (start.usedFrames + frames.card)

theorem takenFrom_self {start : PmmState} (words : start.Words) : TakenFrom start ∅ start := by
  have freeSmall := words.freeFrames
  have usedSmall := words.usedFrames
  refine ⟨rfl, rfl, rfl, Finset.empty_subset _, by simp, ?_, ?_⟩
  · rw [Finset.card_empty, sub64_of_le (Nat.zero_le _) freeSmall, Nat.sub_zero]
  · rw [Finset.card_empty, Nat.add_zero, wrap64_of_lt usedSmall]

section

variable {start pmm : PmmState} {frames : Finset Nat} (taken : TakenFrom start frames pmm)

include taken

/-- The set determines the state. -/
theorem TakenFrom.unique {other : PmmState} (otherTaken : TakenFrom start frames other) :
    pmm = other := by
  have bitmap : pmm.bitmap = other.bitmap := by
    funext index
    apply byte_eq_of_getBit
    intro position _
    rw [taken.bits, otherTaken.bits]
  have count := taken.frameCount.trans otherTaken.frameCount.symm
  have free := taken.freeFrames.trans otherTaken.freeFrames.symm
  have used := taken.usedFrames.trans otherTaken.usedFrames.symm
  have hint := taken.nextHint.trans otherTaken.nextHint.symm
  have initialized := taken.initialized.trans otherTaken.initialized.symm
  cases pmm
  cases other
  simp only at bitmap count free used hint initialized
  subst bitmap count free used hint initialized
  rfl

/-- A frame is free when it was, and has not been taken. -/
theorem TakenFrom.clear_iff (frame : Nat) :
    getBit pmm.bitmap frame = false ↔ frame ∉ frames ∧ getBit start.bitmap frame = false := by
  rw [taken.bits, Bool.or_eq_false_iff, decide_eq_false_iff_not]

theorem TakenFrom.take {frame : Nat} (below : frame < pmm.frameCount)
    (free : getBit pmm.bitmap frame = false) :
    TakenFrom start (insert frame frames) (pmm.take frame) := by
  obtain ⟨fresh, wasFree⟩ := (taken.clear_iff frame).mp free
  have counted : (insert frame frames).card = frames.card + 1 := Finset.card_insert_of_notMem fresh
  have freeBefore := taken.freeFrames
  have usedBefore := taken.usedFrames
  refine ⟨taken.frameCount, taken.nextHint, taken.initialized, ?_, ?_, ?_, ?_⟩
  · rw [taken.frameCount] at below
    exact Finset.insert_subset (mem_clearBits.mpr ⟨below, wasFree⟩) taken.wereFree
  · intro other
    rw [getBit_take, taken.bits, ← Bool.or_assoc]
    congr 1
    simp [eq_comm]
  · show sub64 pmm.freeFrames 1 = _
    rw [counted, freeBefore]
    unfold sub64
    omega
  · show wrap64 (pmm.usedFrames + 1) = _
    rw [counted, usedBefore]
    unfold wrap64
    omega

/-- Releasing a frame that was taken undoes it. -/
theorem TakenFrom.release {frame : Nat} (member : frame ∈ frames) :
    TakenFrom start (frames.erase frame) (pmm.release frame) := by
  have wasFree := (mem_clearBits.mp (taken.wereFree member)).2
  have counted : (frames.erase frame).card + 1 = frames.card := Finset.card_erase_add_one member
  have freeBefore := taken.freeFrames
  have usedBefore := taken.usedFrames
  refine ⟨taken.frameCount, taken.nextHint, taken.initialized,
    (Finset.erase_subset _ _).trans taken.wereFree, ?_, ?_, ?_⟩
  · intro other
    rw [getBit_release, taken.bits]
    by_cases here : frame = other
    · subst here
      simp [wasFree]
    · have different : other ≠ frame := fun same => here same.symm
      simp [here, different]
  · show wrap64 (pmm.freeFrames + 1) = _
    rw [freeBefore, ← counted]
    unfold wrap64 sub64
    omega
  · show sub64 pmm.usedFrames 1 = _
    rw [usedBefore, ← counted]
    unfold wrap64 sub64
    omega

/-- Where nothing is taken, nothing has changed. -/
theorem TakenFrom.restored (words : start.Words) (none : frames = ∅) : pmm = start := by
  subst none
  exact taken.unique (takenFrom_self words)

end

/-! ### Reservations -/

/-- The arguments of a `pmm_reserve_range`. -/
structure AddressRange where
  base : Nat
  length : Nat
  base_lt : base < 2 ^ 64 := by decide
  length_lt : length < 2 ^ 64 := by decide

/-- The frame is one of the frame range of the arguments. -/
def AddressRange.Has (range : AddressRange) (frame : Nat) : Prop :=
  range.base / pmmPageSize ≤ frame ∧
    frame < range.base / pmmPageSize + range.length / pmmPageSize

instance (range : AddressRange) (frame : Nat) : Decidable (range.Has frame) :=
  inferInstanceAs (Decidable (_ ∧ _))

/-- The frame is in one of the ranges. -/
def InRanges (ranges : List AddressRange) (frame : Nat) : Prop :=
  ∃ range ∈ ranges, range.Has frame

instance (ranges : List AddressRange) : DecidablePred (InRanges ranges) :=
  fun frame => inferInstanceAs (Decidable (∃ range ∈ ranges, range.Has frame))

/-- A `pmm_reserve_range` for each range, the first one first. -/
def reserveRanges (ranges : List AddressRange) (pmm : PmmState) : PmmState :=
  ranges.foldl (fun state range => (pmmReserveRange range.base range.length).final state) pmm

/-- A reservation takes the frames of its range that are free. -/
theorem TakenFrom.reserve {start pmm : PmmState} {frames : Finset Nat}
    (taken : TakenFrom start frames pmm) (range : AddressRange) :
    ∃ after, TakenFrom start after ((pmmReserveRange range.base range.length).final pmm) ∧
      ∀ frame, frame ∈ after ↔ frame ∈ frames ∨
        range.Has frame ∧ frame ∈ clearBits start.bitmap start.frameCount := by
  obtain ⟨after, reserved⟩ := pmmReserveRange_invariant
    (fun state => ∃ after, TakenFrom start after state) range.base range.length ⟨frames, taken⟩ (by
      intro state frame held below free
      obtain ⟨before, holds⟩ := held
      exact ⟨insert frame before, holds.take below free⟩)
  refine ⟨after, reserved, ?_⟩
  intro frame
  have covered := pmmReserveRange_covered range.base_lt range.length_lt pmm frame
  have outside : frame < range.base / pmmPageSize ∨
      range.base / pmmPageSize + range.length / pmmPageSize ≤ frame → _ :=
    pmmReserveRange_outside range.base_lt range.length_lt pmm
  rw [reserved.frameCount] at covered
  rw [reserved.bits, taken.bits] at outside
  rw [reserved.bits] at covered
  -- both sides hold of frames only that were free and managed
  by_cases wasFree : frame ∈ clearBits start.bitmap start.frameCount
  · obtain ⟨managed, clear⟩ := mem_clearBits.mp wasFree
    simp only [clear, Bool.or_false, decide_eq_true_eq, decide_eq_decide] at covered outside
    unfold AddressRange.Has
    constructor
    · intro member
      by_cases inside : range.base / pmmPageSize ≤ frame ∧
          frame < range.base / pmmPageSize + range.length / pmmPageSize
      · exact Or.inr ⟨inside, wasFree⟩
      · exact Or.inl ((outside (by omega)).mp member)
    · intro either
      by_cases inside : range.base / pmmPageSize ≤ frame ∧
          frame < range.base / pmmPageSize + range.length / pmmPageSize
      · exact covered inside.1 inside.2 managed
      · apply (outside (by omega)).mpr
        exact either.resolve_right fun ⟨here, _⟩ => inside here
  · constructor
    · intro member
      exact absurd (reserved.wereFree member) wasFree
    · rintro (member | ⟨-, free⟩)
      · exact absurd (taken.wereFree member) wasFree
      · exact absurd free wasFree

theorem TakenFrom.reserveRanges {start pmm : PmmState} {frames : Finset Nat}
    (taken : TakenFrom start frames pmm) (ranges : List AddressRange) :
    ∃ after, TakenFrom start after (Pmm.reserveRanges ranges pmm) ∧
      ∀ frame, frame ∈ after ↔ frame ∈ frames ∨
        InRanges ranges frame ∧ frame ∈ clearBits start.bitmap start.frameCount := by
  induction ranges generalizing pmm frames with
  | nil => exact ⟨frames, taken, by simp [InRanges]⟩
  | cons range rest inductionHypothesis =>
      obtain ⟨between, first, fromFirst⟩ := taken.reserve range
      obtain ⟨after, last, fromRest⟩ := inductionHypothesis first
      refine ⟨after, last, ?_⟩
      intro frame
      rw [fromRest, fromFirst, or_assoc, ← or_and_right]
      simp [InRanges]

/-- The free frames of the ranges. -/
def freeInRanges (pmm : PmmState) (ranges : List AddressRange) : Finset Nat :=
  (clearBits pmm.bitmap pmm.frameCount).filter (InRanges ranges)

theorem reserveRanges_takenFrom {pmm : PmmState} (words : pmm.Words) (ranges : List AddressRange) :
    TakenFrom pmm (freeInRanges pmm ranges) (reserveRanges ranges pmm) := by
  obtain ⟨after, taken, members⟩ := (takenFrom_self words).reserveRanges ranges
  have frames : after = freeInRanges pmm ranges := by
    ext frame
    rw [members, freeInRanges, Finset.mem_filter]
    simp [and_comm]
  exact frames ▸ taken

/-- Reservations whose ranges make up the same managed frames leave the same
state, in any order, and take each free frame of theirs off `free_frames`
once. -/
theorem reserveRanges_commute (pmm : PmmState) (words : pmm.Words)
    (first second : List AddressRange)
    (sameUnion : ∀ frame < pmm.frameCount, InRanges first frame ↔ InRanges second frame) :
    reserveRanges first pmm = reserveRanges second pmm ∧
      (reserveRanges first pmm).freeFrames =
        sub64 pmm.freeFrames (freeInRanges pmm first).card ∧
      ((freeInRanges pmm first).card ≤ pmm.freeFrames →
        (reserveRanges first pmm).freeFrames + (freeInRanges pmm first).card =
          pmm.freeFrames) := by
  have firstTaken := reserveRanges_takenFrom words first
  have secondTaken := reserveRanges_takenFrom words second
  have same : freeInRanges pmm first = freeInRanges pmm second := by
    apply Finset.filter_congr
    intro frame free
    exact sameUnion frame (mem_clearBits.mp free).1
  have counted := firstTaken.freeFrames
  refine ⟨(same ▸ firstTaken).unique secondTaken, counted, ?_⟩
  intro enough
  rw [sub64_of_le enough words.freeFrames] at counted
  omega

/-- Frames 1 and 2 one after the other and again, with a base in the middle of
a page; and both at once, together with what lies past the end. -/
theorem reserveRanges_commute_fourFrames :
    reserveRanges [⟨0x2800, 0x1000, by decide, by decide⟩, ⟨0x1000, 0x1000, by decide, by decide⟩,
        ⟨0x1000, 0x2FFF, by decide, by decide⟩] fourFrames =
      reserveRanges [⟨0x1000, 0x2000, by decide, by decide⟩,
        ⟨0x4000, 0xFFFFFFFFFFFFF000, by decide, by decide⟩] fourFrames :=
  (reserveRanges_commute fourFrames ⟨by decide, by decide⟩ _ _ (by decide)).1

end Mcsos.Pmm
