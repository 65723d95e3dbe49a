import Mcsos.Pmm.Taken

/-!
Contract: a run of allocations and frees that gives back all it was given
leaves the manager as it was.

A frame is given back by its address, which is cut off to 64 bits: frame
`2 ^ 52` has the address of frame 0. Nothing is lost where no frame with such a
number is free, as it never is in memory of 64-bit addresses.
-/

namespace Mcsos.Pmm

open Mcsos.Machine
open Mcsos.Machine.Prog

/-- The run allocates and frees only, and frees what is outstanding. -/
def Tenancy.Exchanges (tenancy : Tenancy) : PmmCall → Prop
  | .alloc => True
  | .free phys => phys ∈ tenancy.live
  | .reserve _ _ => False

instance (tenancy : Tenancy) : (call : PmmCall) → Decidable (tenancy.Exchanges call)
  | .alloc => inferInstanceAs (Decidable True)
  | .free phys => inferInstanceAs (Decidable (phys ∈ tenancy.live))
  | .reserve _ _ => inferInstanceAs (Decidable False)

/-- A call of `pmm_free_frame` returns true. -/
def Tenancy.FreeReturnsTrue (tenancy : Tenancy) (call : PmmCall) : Prop :=
  ∀ phys, call = .free phys → (pmmFreeFrame phys).result tenancy.pmm = true

/-- The addresses of the free frames are not cut off. -/
def PmmState.Addressable (pmm : PmmState) : Prop :=
  ∀ frame < pmm.frameCount, getBit pmm.bitmap frame = false → frame < 2 ^ 52

/-- The outstanding addresses are those of the frames taken since `start`. -/
structure Balanced (start : PmmState) (tenancy : Tenancy) (frames : List Nat) : Prop where
  nodup : frames.Nodup
  live : tenancy.live = frames.map (· * pmmPageSize)
  taken : TakenFrom start frames.toFinset tenancy.pmm

section

variable {start : PmmState} {tenancy : Tenancy} {frames : List Nat}
  (balanced : Balanced start tenancy frames)

include balanced

theorem Balanced.alloc (addressable : start.Addressable) :
    ∃ after, Balanced start (tenancy.next .alloc) after := by
  obtain ⟨-, invalid, same⟩ | ⟨frame, below, free, -, answer, effect⟩ :=
    pmmAllocFrame_cases tenancy.pmm
  · refine ⟨frames, balanced.nodup, ?_, ?_⟩
    · simp only [Tenancy.next, invalid, if_true, balanced.live]
    · simp only [Tenancy.next, PmmCall.run, same]
      exact balanced.taken
  · obtain ⟨fresh, wasFree⟩ := (balanced.taken.clear_iff frame).mp free
    have small := addressable frame (balanced.taken.frameCount ▸ below) wasFree
    have address : wrap64 (frame * pmmPageSize) = frame * pmmPageSize := by
      apply wrap64_of_lt
      simp only [pmmPageSize]
      omega
    have valid : frame * pmmPageSize ≠ pmmInvalidFrame := by
      simp only [pmmPageSize, pmmInvalidFrame]
      omega
    refine ⟨frame :: frames, ?_, ?_, ?_⟩
    · rw [List.mem_toFinset] at fresh
      exact List.nodup_cons.mpr ⟨fresh, balanced.nodup⟩
    · simp only [Tenancy.next, answer, address, if_neg valid, balanced.live, List.map_cons]
    · simp only [Tenancy.next, PmmCall.run, effect, List.toFinset_cons]
      exact balanced.taken.take below free

theorem Balanced.free {phys : Nat} (owned : phys ∈ tenancy.live) :
    (pmmFreeFrame phys).result tenancy.pmm = true ∧
      ∃ after, Balanced start (tenancy.next (.free phys)) after := by
  rw [balanced.live] at owned
  obtain ⟨frame, member, rfl⟩ := List.mem_map.mp owned
  have isTaken := List.mem_toFinset.mpr member
  have below := (mem_clearBits.mp (balanced.taken.wereFree isTaken)).1
  rw [← balanced.taken.frameCount] at below
  have used : getBit tenancy.pmm.bitmap frame = true := by
    rw [balanced.taken.bits]
    simp [isTaken]
  obtain ⟨accepted, effect⟩ := pmmFreeFrame_used below used
  refine ⟨accepted, frames.erase frame, balanced.nodup.erase frame, ?_, ?_⟩
  · have distinct : Function.Injective fun number => number * pmmPageSize :=
      fun _ _ same => Nat.eq_of_mul_eq_mul_right (by decide) same
    simp only [Tenancy.next, balanced.live]
    exact (List.map_erase distinct frames).symm
  · have left : (frames.erase frame).toFinset = frames.toFinset.erase frame := by
      ext other
      rw [List.mem_toFinset, balanced.nodup.mem_erase_iff, Finset.mem_erase, List.mem_toFinset]
    simp only [Tenancy.next, PmmCall.run, effect, left]
    exact balanced.taken.release isTaken

/-- A call of the run gives a frame out or takes one back. -/
theorem Balanced.next (addressable : start.Addressable) {call : PmmCall}
    (exchanges : tenancy.Exchanges call) :
    tenancy.FreeReturnsTrue call ∧ ∃ after, Balanced start (tenancy.next call) after := by
  cases call with
  | alloc =>
      refine ⟨?_, balanced.alloc addressable⟩
      intro phys impossible
      cases impossible
  | free phys =>
      obtain ⟨accepted, after⟩ := balanced.free exchanges
      refine ⟨?_, after⟩
      intro _ same
      cases same
      exact accepted
  | reserve base length => exact absurd exchanges id

end

/-- Every free of an outstanding address succeeds, and a run at whose end
nothing is outstanding has changed nothing. -/
theorem exchanges_restore (pmm : PmmState) (words : pmm.Words) (addressable : pmm.Addressable)
    (calls : List PmmCall)
    (exchanges : EveryCall Tenancy.next Tenancy.Exchanges calls ⟨pmm, []⟩)
    (returned : (calls.foldl Tenancy.next ⟨pmm, []⟩).live = []) :
    EveryCall Tenancy.next Tenancy.FreeReturnsTrue calls ⟨pmm, []⟩ ∧
      (calls.foldl Tenancy.next ⟨pmm, []⟩).pmm.bitmap = pmm.bitmap ∧
      (calls.foldl Tenancy.next ⟨pmm, []⟩).pmm.freeFrames = pmm.freeFrames ∧
      (calls.foldl Tenancy.next ⟨pmm, []⟩).pmm.usedFrames = pmm.usedFrames := by
  have entry : ∃ frames, Balanced pmm ⟨pmm, []⟩ frames :=
    ⟨[], List.nodup_nil, rfl, takenFrom_self words⟩
  constructor
  · refine everyCall_of_invariant (fun tenancy => ∃ frames, Balanced pmm tenancy frames) ?_ entry
      exchanges
    intro tenancy call held keepsTo
    obtain ⟨frames, balanced⟩ := held
    exact balanced.next addressable keepsTo
  · obtain ⟨frames, balanced⟩ := exchanges.final
      (fun tenancy => ∃ frames, Balanced pmm tenancy frames)
      (fun _ _ held keepsTo => held.elim fun _ balanced => (balanced.next addressable keepsTo).2)
      entry
    have none : frames = [] := by
      rw [balanced.live, List.map_eq_nil_iff] at returned
      exact returned
    rw [balanced.taken.restored words (by rw [none, List.toFinset_nil])]
    exact ⟨rfl, rfl, rfl⟩

/-- Frames are given back in another order than they were handed out, and one
is handed out again in between. -/
theorem exchanges_restore_fourFrames :
    EveryCall Tenancy.next Tenancy.FreeReturnsTrue
        [.alloc, .alloc, .free 0x1000, .alloc, .free 0x2000, .free 0x1000] ⟨fourFrames, []⟩ ∧
      ([PmmCall.alloc, .alloc, .free 0x1000, .alloc, .free 0x2000, .free 0x1000].foldl
        Tenancy.next ⟨fourFrames, []⟩).pmm.bitmap = fourFrames.bitmap := by
  have restored := exchanges_restore fourFrames ⟨by decide, by decide⟩
    (fun frame below _ => lt_of_lt_of_le below (by decide))
    [.alloc, .alloc, .free 0x1000, .alloc, .free 0x2000, .free 0x1000]
    (by decide +kernel) (by decide +kernel)
  exact ⟨restored.1, restored.2.1⟩

/-- Memory past the end of 64-bit addresses: all frames are used but frame
`2 ^ 52`. -/
def farFrame : PmmState :=
  ⟨fun index => if index = 2 ^ 49 then 0 else 0xFF, 2 ^ 52 + 1, 1, 2 ^ 52, 0, true⟩

theorem farFrame_clear_iff {frame : Nat} (below : frame < 2 ^ 52 + 1) :
    getBit farFrame.bitmap frame = false ↔ frame = 2 ^ 52 := by
  constructor
  · intro clear
    by_contra other
    have ones : farFrame.bitmap (frame / 8) = 0xFF := by
      have earlier : frame / 8 ≠ 2 ^ 49 := by omega
      exact if_neg earlier
    rw [getBit_of_ones ones] at clear
    cases clear
  · rintro rfl
    rfl

/-- Its address is 0, and giving it back frees frame 0. -/
theorem farFrame_not_restored :
    ¬ ∀ (pmm : PmmState) (calls : List PmmCall), pmm.Words →
      EveryCall Tenancy.next Tenancy.Exchanges calls ⟨pmm, []⟩ →
      (calls.foldl Tenancy.next ⟨pmm, []⟩).live = [] →
      (calls.foldl Tenancy.next ⟨pmm, []⟩).pmm.bitmap = pmm.bitmap := by
  intro always
  have alloc : pmmAllocFrame.result farFrame = 0 ∧
      pmmAllocFrame.final farFrame = farFrame.take (2 ^ 52) := by
    obtain ⟨full, -, -⟩ | ⟨frame, below, free, -, answer, effect⟩ := pmmAllocFrame_cases farFrame
    · have clear : getBit farFrame.bitmap (2 ^ 52) = false := rfl
      rw [full (2 ^ 52) (by decide)] at clear
      cases clear
    · obtain rfl := (farFrame_clear_iff below).mp free
      exact ⟨answer, effect⟩
  have freed : (pmmFreeFrame (0 * pmmPageSize)).final (farFrame.take (2 ^ 52)) =
      (farFrame.take (2 ^ 52)).release 0 := by
    apply (pmmFreeFrame_used _ _).2
    · decide
    · rw [getBit_take]
      rfl
  rw [Nat.zero_mul] at freed
  have handedOut : Tenancy.next ⟨farFrame, []⟩ .alloc = ⟨farFrame.take (2 ^ 52), [0]⟩ := by
    simp only [Tenancy.next, PmmCall.run, alloc.1, alloc.2]
    rfl
  have givenBack : [PmmCall.alloc, .free 0].foldl Tenancy.next ⟨farFrame, []⟩ =
      ⟨(farFrame.take (2 ^ 52)).release 0, []⟩ := by
    rw [List.foldl_cons, handedOut, List.foldl_cons, List.foldl_nil]
    simp only [Tenancy.next, PmmCall.run, freed]
    rfl
  have restored := always farFrame [.alloc, .free 0] ⟨by decide, by decide⟩
    ⟨trivial, by rw [handedOut]; exact List.mem_singleton_self 0, trivial⟩ (by rw [givenBack])
  rw [givenBack] at restored
  have bit := congrArg (fun bitmap => getBit bitmap 0) restored
  simp only [getBit_release] at bit
  exact absurd bit (by decide)

end Mcsos.Pmm
