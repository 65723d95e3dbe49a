import Mathlib.Data.List.Nodup
import Mathlib.Logic.Function.Iterate
import Mcsos.Pmm.Taken

/-!
Contract: repeated `pmm_alloc_frame` hands out the pages that were free at the
start, lowest first and each once, and then answers `PMM_INVALID_FRAME`.

The frames handed out so far are always the first ones of one list, that of the
frames free at the start.
-/

namespace Mcsos.Pmm

open Mcsos.Machine
open Mcsos.Machine.Prog

/-- The state after so many calls of `pmm_alloc_frame`. -/
def afterAllocs (calls : Nat) (pmm : PmmState) : PmmState := pmmAllocFrame.final^[calls] pmm

/-- The free frames, lowest first. -/
def freeList (pmm : PmmState) : List Nat :=
  (List.range pmm.frameCount).filter fun frame => !getBit pmm.bitmap frame

theorem mem_freeList {pmm : PmmState} {frame : Nat} :
    frame ∈ freeList pmm ↔ frame < pmm.frameCount ∧ getBit pmm.bitmap frame = false := by
  simp [freeList]

theorem freeList_increasing (pmm : PmmState) : (freeList pmm).Pairwise (· < ·) :=
  List.pairwise_lt_range.filter _

section

variable {start pmm : PmmState} {before : List Nat}
  (taken : TakenFrom start before.toFinset pmm)

include taken

/-- With the first free frames taken, the next one is handed out. -/
theorem TakenFrom.alloc_next {next : Nat} {later : List Nat}
    (split : freeList start = before ++ next :: later) :
    pmmAllocFrame.result pmm = wrap64 (next * pmmPageSize) ∧
      TakenFrom start (before ++ [next]).toFinset (pmmAllocFrame.final pmm) := by
  have increasing := freeList_increasing start
  rw [split] at increasing
  obtain ⟨-, back, across⟩ := List.pairwise_append.mp increasing
  have nextMember : next ∈ freeList start := by simp [split]
  obtain ⟨nextBelow, nextWasFree⟩ := mem_freeList.mp nextMember
  have nextFree : getBit pmm.bitmap next = false := by
    refine (taken.clear_iff next).mpr ⟨?_, nextWasFree⟩
    intro old
    exact absurd (across next (List.mem_toFinset.mp old) next List.mem_cons_self)
      (Nat.lt_irrefl next)
  rw [← taken.frameCount] at nextBelow
  obtain ⟨full, -, -⟩ | ⟨frame, below, free, lowest, answer, effect⟩ := pmmAllocFrame_cases pmm
  · rw [full next nextBelow] at nextFree
    cases nextFree
  · have isNext : frame = next := by
      obtain ⟨fresh, wasFree⟩ := (taken.clear_iff frame).mp free
      rw [taken.frameCount] at below
      have member := mem_freeList.mpr ⟨below, wasFree⟩
      rw [split] at member
      rcases List.mem_append.mp member with old | rest
      · exact absurd (List.mem_toFinset.mpr old) fresh
      · rcases List.mem_cons.mp rest with here | beyond
        · exact here
        · -- the allocator would have stopped at `next` before
          rw [lowest next ((List.pairwise_cons.mp back).1 frame beyond)] at nextFree
          cases nextFree
    subst isNext
    refine ⟨answer, ?_⟩
    rw [effect, List.toFinset_append, List.toFinset_cons, List.toFinset_nil,
      insert_empty_eq, Finset.union_comm, ← Finset.insert_eq]
    exact taken.take below free

/-- With all of them taken, none is handed out. -/
theorem TakenFrom.alloc_none (all : freeList start = before) :
    pmmAllocFrame.result pmm = pmmInvalidFrame ∧ pmmAllocFrame.final pmm = pmm := by
  obtain ⟨-, invalid, same⟩ | ⟨frame, below, free, -, -, -⟩ := pmmAllocFrame_cases pmm
  · exact ⟨invalid, same⟩
  · obtain ⟨fresh, wasFree⟩ := (taken.clear_iff frame).mp free
    rw [taken.frameCount] at below
    have member := mem_freeList.mpr ⟨below, wasFree⟩
    rw [all] at member
    exact absurd (List.mem_toFinset.mpr member) fresh

end

/-- After so many calls, so many of the free frames are taken. -/
theorem afterAllocs_takenFrom {pmm : PmmState} (words : pmm.Words) (calls : Nat) :
    TakenFrom pmm ((freeList pmm).take calls).toFinset (afterAllocs calls pmm) := by
  induction calls with
  | zero => exact takenFrom_self words
  | succ calls inductionHypothesis =>
      rw [afterAllocs, Function.iterate_succ_apply', ← afterAllocs]
      by_cases inside : calls < (freeList pmm).length
      · have split := List.take_append_drop calls (freeList pmm)
        rw [List.drop_eq_getElem_cons inside] at split
        rw [List.take_add_one, List.getElem?_eq_getElem inside]
        exact (inductionHypothesis.alloc_next split.symm).2
      · have all := List.take_of_length_le (Nat.not_lt.mp inside)
        rw [all] at inductionHypothesis
        rw [List.take_of_length_le (by omega), (inductionHypothesis.alloc_none rfl).2]
        exact inductionHypothesis

/-- Allocation drains the pool: the pages that are free, by `pmm_is_frame_free`,
in increasing order and each once, and nothing from then on. -/
theorem alloc_drains_pool (pmm : PmmState) (words : pmm.Words) (small : pmm.frameCount ≤ 2 ^ 52) :
    ∃ addresses : List Nat, addresses.Pairwise (· < ·) ∧
      (∀ phys, phys ∈ addresses ↔
        phys % pmmPageSize = 0 ∧ (pmmIsFrameFree phys).result pmm = true) ∧
      (∀ calls (inside : calls < addresses.length),
        pmmAllocFrame.result (afterAllocs calls pmm) = addresses[calls]) ∧
      ∀ calls, addresses.length ≤ calls →
        pmmAllocFrame.result (afterAllocs calls pmm) = pmmInvalidFrame ∧
          pmmAllocFrame.final (afterAllocs calls pmm) = afterAllocs calls pmm := by
  refine ⟨(freeList pmm).map (· * pmmPageSize), ?_, ?_, ?_, ?_⟩
  · apply (freeList_increasing pmm).map
    intro frame other before
    exact Nat.mul_lt_mul_of_pos_right before (by decide)
  · intro phys
    rw [List.mem_map, pmmIsFrameFree_iff]
    constructor
    · rintro ⟨frame, member, rfl⟩
      rw [Nat.mul_div_cancel frame (by decide)]
      exact ⟨Nat.mul_mod_left _ _, mem_freeList.mp member⟩
    · rintro ⟨aligned, free⟩
      exact ⟨_, mem_freeList.mpr free, Nat.div_mul_cancel (Nat.dvd_of_mod_eq_zero aligned)⟩
  · intro calls inside
    rw [List.length_map] at inside
    have split := List.take_append_drop calls (freeList pmm)
    rw [List.drop_eq_getElem_cons inside] at split
    have answer := ((afterAllocs_takenFrom words calls).alloc_next split.symm).1
    have below := (mem_freeList.mp (List.getElem_mem inside)).1
    rw [answer, List.getElem_map]
    apply wrap64_of_lt
    simp only [pmmPageSize]
    omega
  · intro calls beyond
    rw [List.length_map] at beyond
    exact (afterAllocs_takenFrom words calls).alloc_none (List.take_of_length_le beyond).symm

theorem alloc_drains_pool_fourFrames :
    ∃ addresses : List Nat, addresses.Pairwise (· < ·) ∧
      (∀ phys, phys ∈ addresses ↔
        phys % pmmPageSize = 0 ∧ (pmmIsFrameFree phys).result fourFrames = true) ∧
      (∀ calls (inside : calls < addresses.length),
        pmmAllocFrame.result (afterAllocs calls fourFrames) = addresses[calls]) ∧
      ∀ calls, addresses.length ≤ calls →
        pmmAllocFrame.result (afterAllocs calls fourFrames) = pmmInvalidFrame ∧
          pmmAllocFrame.final (afterAllocs calls fourFrames) = afterAllocs calls fourFrames :=
  alloc_drains_pool fourFrames ⟨by decide, by decide⟩ (by decide)

end Mcsos.Pmm
