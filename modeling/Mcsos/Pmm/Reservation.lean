import Mcsos.Pmm.Counters

/-!
Contract: what a reservation keeps. The bitmap has one bit for a frame that is
handed out and for one that is reserved, so a reservation of a frame that is
handed out changes nothing, and the frame is free again when its owner gives
it back. Every other frame of a reserved range is never allocated again.

A range is reserved from the page of its base on, for as many pages as its
length has whole ones; the last section is about ranges that are not whole
pages.
-/

namespace Mcsos.Pmm

open Mcsos.Machine
open Mcsos.Machine.Prog

/-- The manager, together with the addresses handed out and not freed since. -/
structure Tenancy where
  pmm : PmmState
  live : List Nat

def Tenancy.next (tenancy : Tenancy) (call : PmmCall) : Tenancy where
  pmm := call.run tenancy.pmm
  live :=
    match call with
    | .alloc =>
        if pmmAllocFrame.result tenancy.pmm = pmmInvalidFrame then tenancy.live
        else pmmAllocFrame.result tenancy.pmm :: tenancy.live
    | .free phys => tenancy.live.erase phys
    | .reserve _ _ => tenancy.live

/-- `pmm_free_frame` is only called on outstanding frames. -/
def Tenancy.Allowed (tenancy : Tenancy) : PmmCall → Prop
  | .free phys => phys ∈ tenancy.live
  | _ => True

instance (tenancy : Tenancy) : (call : PmmCall) → Decidable (tenancy.Allowed call)
  | .alloc => inferInstanceAs (Decidable True)
  | .free phys => inferInstanceAs (Decidable (phys ∈ tenancy.live))
  | .reserve _ _ => inferInstanceAs (Decidable True)

/-- The manager after initialisation: nothing is handed out. -/
def Tenancy.initialised (regions : List BootMemRegion) (bitmapSize maxPhysBytes : Nat)
    (storage : PmmState) : Tenancy :=
  ⟨(pmmInitFromMap regions bitmapSize maxPhysBytes).final storage, []⟩

/-- What taking a frame preserves, and releasing the frame of a free, a call
preserves. -/
theorem PmmCall.run_invariant (call : PmmCall) (inv : PmmState → Prop) {pmm : PmmState}
    (entry : inv pmm) (take : ∀ s frame, inv s → inv (s.take frame))
    (release : ∀ phys, call = .free phys → phys % pmmPageSize = 0 →
      inv (pmm.release (phys / pmmPageSize))) : inv (call.run pmm) := by
  cases call with
  | alloc =>
      obtain ⟨_, _, same⟩ | ⟨found, _, _, _, _, effect⟩ := pmmAllocFrame_cases pmm
      · rwa [PmmCall.run, same]
      · rw [PmmCall.run, effect]
        exact take pmm found entry
  | free phys =>
      obtain ⟨_, same⟩ | ⟨aligned, _, _, _, effect⟩ := pmmFreeFrame_cases phys pmm
      · rwa [PmmCall.run, same]
      · rw [PmmCall.run, effect]
        exact release phys rfl aligned
  | reserve base length =>
      exact pmmReserveRange_invariant inv base length entry
        fun s frame holds _ _ => take s frame holds

/-! ### One frame over a run -/

/-- The manager counts frames of 64-bit addresses, and `frame` is not one that
it may hand out. -/
structure Kept (frame : Nat) (pmm : PmmState) : Prop where
  small : pmm.frameCount ≤ 2 ^ 52
  used : frame < pmm.frameCount → getBit pmm.bitmap frame = true

section

variable {frame : Nat} {pmm : PmmState}

theorem Kept.take (kept : Kept frame pmm) (other : Nat) : Kept frame (pmm.take other) where
  small := kept.small
  used managed := by
    rw [getBit_take, kept.used managed, Bool.or_true]

theorem Kept.release (kept : Kept frame pmm) {other : Nat} (different : other ≠ frame) :
    Kept frame (pmm.release other) where
  small := kept.small
  used managed := by
    rw [getBit_release, kept.used managed]
    simp [different]

/-- The allocator returns another frame than a kept one. -/
theorem Kept.alloc_result (kept : Kept frame pmm) :
    pmmAllocFrame.result pmm ≠ frame * pmmPageSize := by
  obtain ⟨_, invalid, _⟩ | ⟨found, below, free, _, answer, _⟩ := pmmAllocFrame_cases pmm
  · rw [invalid]
    simp only [pmmInvalidFrame, pmmPageSize]
    omega
  · have small := kept.small
    rw [answer, wrap64_of_lt (by simp only [pmmPageSize]; omega)]
    intro same
    have here : found = frame := Nat.eq_of_mul_eq_mul_right (by decide) same
    rw [here] at free below
    rw [kept.used below] at free
    cases free

/-- A kept frame stays so under every call but its own release. -/
theorem Kept.run (kept : Kept frame pmm) {call : PmmCall}
    (notReleased : call ≠ .free (frame * pmmPageSize)) : Kept frame (call.run pmm) := by
  refine call.run_invariant (Kept frame) kept (fun _ other holds => holds.take other) ?_
  rintro phys rfl aligned
  apply kept.release
  rintro rfl
  apply notReleased
  rw [Nat.div_mul_cancel (Nat.dvd_of_mod_eq_zero aligned)]

end

/-- A kept frame that nobody owns stays both. -/
theorem Kept.unowned_next {frame : Nat} {tenancy : Tenancy} {call : PmmCall}
    (kept : Kept frame tenancy.pmm) (unowned : frame * pmmPageSize ∉ tenancy.live)
    (allowed : tenancy.Allowed call) :
    Kept frame (tenancy.next call).pmm ∧ frame * pmmPageSize ∉ (tenancy.next call).live := by
  constructor
  · apply kept.run
    rintro rfl
    exact unowned allowed
  · cases call with
    | alloc =>
        show _ ∉ (if _ then _ else _)
        split
        · exact unowned
        · intro member
          rcases List.mem_cons.mp member with handedOut | old
          · exact kept.alloc_result handedOut.symm
          · exact unowned old
    | free phys => exact fun member => unowned (List.mem_of_mem_erase member)
    | reserve base length => exact unowned

/-! ### A reservation in a run -/

/-- The frame count is fixed at initialisation. -/
theorem PmmCall.run_frameCount (call : PmmCall) (pmm : PmmState) :
    (call.run pmm).frameCount = pmm.frameCount :=
  call.run_invariant (fun s => s.frameCount = pmm.frameCount) rfl (fun _ _ same => same)
    fun _ _ _ => rfl

/-- A reservation keeps every frame of its range. -/
theorem kept_of_reserved {base length frame : Nat} (baseSmall : base < 2 ^ 64)
    (lengthSmall : length < 2 ^ 64) (baseAligned : base % pmmPageSize = 0)
    (lengthAligned : length % pmmPageSize = 0) (lower : base ≤ frame * pmmPageSize)
    (upper : frame * pmmPageSize < base + length) {pmm : PmmState}
    (small : pmm.frameCount ≤ 2 ^ 52) :
    Kept frame ((pmmReserveRange base length).final pmm) where
  small := by
    rw [← PmmCall.run_frameCount (.reserve base length) pmm] at small
    exact small
  used managed := by
    apply pmmReserveRange_covered baseSmall lengthSmall pmm frame ?_ ?_ managed
    · simp only [pmmPageSize] at *
      omega
    · simp only [pmmPageSize] at *
      omega

/-- An allocation returns a frame of a reserved range only if the frame was
handed out when it was reserved and its owner has freed it since. -/
theorem reserved_frame_only_after_owner_frees (regions : List BootMemRegion)
    (bitmapSize maxPhysBytes : Nat) (storage : PmmState) (small : maxPhysBytes < 2 ^ 64)
    (earlier later : List PmmCall) (base length : Nat) (baseSmall : base < 2 ^ 64)
    (lengthSmall : length < 2 ^ 64) (baseAligned : base % pmmPageSize = 0)
    (lengthAligned : length % pmmPageSize = 0)
    (allowed : EveryCall Tenancy.next Tenancy.Allowed (earlier ++ .reserve base length :: later)
      (.initialised regions bitmapSize maxPhysBytes storage))
    (frame : Nat) (lower : base ≤ frame * pmmPageSize) (upper : frame * pmmPageSize < base + length)
    (returned : pmmAllocFrame.result ((earlier ++ .reserve base length :: later).foldl
      Tenancy.next (.initialised regions bitmapSize maxPhysBytes storage)).pmm =
        frame * pmmPageSize) :
    frame * pmmPageSize ∈ (earlier.foldl Tenancy.next
        (.initialised regions bitmapSize maxPhysBytes storage)).live ∧
      PmmCall.free (frame * pmmPageSize) ∈ later := by
  rw [List.foldl_append, List.foldl_cons] at returned
  obtain ⟨before, _, after⟩ := everyCall_append.mp allowed
  -- the frame count is that of the initialisation until the reservation
  have counted := before.final (fun tenancy => tenancy.pmm.frameCount ≤ 2 ^ 52)
    (fun tenancy call bound _ => (PmmCall.run_frameCount call tenancy.pmm).trans_le bound)
    ((pmmInitFromMap_frameCount regions bitmapSize maxPhysBytes storage).trans_le
      (frameCount_le small))
  generalize earlier.foldl Tenancy.next (.initialised regions bitmapSize maxPhysBytes storage) =
    reserving at *
  have kept : Kept frame (reserving.next (.reserve base length)).pmm :=
    kept_of_reserved baseSmall lengthSmall baseAligned lengthAligned lower upper counted
  constructor
  · by_contra unowned
    have unreturned := after.final
      (fun tenancy => Kept frame tenancy.pmm ∧ frame * pmmPageSize ∉ tenancy.live)
      (fun _ _ holds here => holds.1.unowned_next holds.2 here) ⟨kept, unowned⟩
    exact unreturned.1.alloc_result returned
  · by_contra unreleased
    have others : ∀ call ∈ later, call ≠ .free (frame * pmmPageSize) := by
      rintro call member rfl
      exact unreleased member
    have unreleasedRun : EveryCall Tenancy.next
        (fun _ call => call ≠ .free (frame * pmmPageSize)) later
        (reserving.next (.reserve base length)) := everyCall_of_forall others _
    have unreturned := unreleasedRun.final (fun tenancy => Kept frame tenancy.pmm)
      (fun _ _ holds here => holds.run here) kept
    exact unreturned.alloc_result returned

/-- Frame 1 is reserved while it is handed out, and its owner frees it. -/
def reservedWhileOwned : List PmmCall := [.alloc, .reserve 0x1000 0x1000, .free 0x1000]

/-- The next allocation returns it. -/
theorem reservedWhileOwned_reallocated :
    EveryCall Tenancy.next Tenancy.Allowed reservedWhileOwned
        (.initialised eightFrames 1 0x8000 zeroPmm) ∧
      pmmAllocFrame.result (reservedWhileOwned.foldl Tenancy.next
        (.initialised eightFrames 1 0x8000 zeroPmm)).pmm = 0x1000 := by
  decide +kernel

theorem reserved_frame_only_after_owner_frees_frameOne :
    1 * pmmPageSize ∈ ([PmmCall.alloc].foldl Tenancy.next
        (.initialised eightFrames 1 0x8000 zeroPmm)).live ∧
      PmmCall.free (1 * pmmPageSize) ∈ [PmmCall.free 0x1000] :=
  reserved_frame_only_after_owner_frees eightFrames 1 0x8000 zeroPmm (by decide)
    [.alloc] [.free 0x1000] 0x1000 0x1000 (by decide) (by decide) (by decide) (by decide)
    (by decide +kernel) 1 (by decide) (by decide) (by decide +kernel)

/-! ### The pages of a range -/

/-- Some byte of the page lies in the range. -/
def TouchesPage (base length frame : Nat) : Prop :=
  ∃ byte, base ≤ byte ∧ byte < base + length ∧
    frame * pmmPageSize ≤ byte ∧ byte < frame * pmmPageSize + pmmPageSize

/-- After a reservation that succeeds, no page the range touches is free. -/
def CoversTouched (pmm : PmmState) (base length : Nat) : Prop :=
  (pmmReserveRange base length).result pmm = true →
    ∀ frame, TouchesPage base length frame →
      (pmmIsFrameFree (frame * pmmPageSize)).result
        ((pmmReserveRange base length).final pmm) = false

/-- A page a range touches is not before the first frame the loop takes. -/
theorem TouchesPage.lower {base length frame : Nat} (touches : TouchesPage base length frame) :
    base / pmmPageSize ≤ frame := by
  obtain ⟨byte, atLeast, -, -, upper⟩ := touches
  simp only [pmmPageSize] at *
  omega

/-- The pages a range touches are covered exactly when those behind the whole
pages of its length, counted from the page of its base, were not free before. -/
theorem pmmReserveRange_coversTouched_iff (pmm : PmmState) (base length : Nat)
    (small : base + length < 2 ^ 64) :
    CoversTouched pmm base length ↔
      ∀ frame, base / pmmPageSize + length / pmmPageSize ≤ frame →
        TouchesPage base length frame →
          (pmmIsFrameFree (frame * pmmPageSize)).result pmm = false := by
  have succeeds : (pmmReserveRange base length).result pmm = true := by simp [pmmReserveRange]
  have baseSmall : base < 2 ^ 64 := by omega
  have lengthSmall : length < 2 ^ 64 := by omega
  have count := PmmCall.run_frameCount (.reserve base length) pmm
  change ((pmmReserveRange base length).final pmm).frameCount = pmm.frameCount at count
  simp only [CoversTouched, ← Bool.not_eq_true, pmmIsFrameFree_frame_iff, count]
  constructor
  · intro covers frame behind touches free
    apply covers succeeds frame touches
    rwa [pmmReserveRange_outside baseSmall lengthSmall pmm (Or.inr behind)]
  · rintro used - frame touches ⟨managed, clear⟩
    by_cases behind : base / pmmPageSize + length / pmmPageSize ≤ frame
    · rw [pmmReserveRange_outside baseSmall lengthSmall pmm (Or.inr behind)] at clear
      exact used frame behind touches ⟨managed, clear⟩
    · have set := pmmReserveRange_covered baseSmall lengthSmall pmm frame touches.lower
        (Nat.not_le.mp behind) (count.symm ▸ managed)
      exact clear set

/-- A range of whole pages has no page behind the last. -/
theorem pmmReserveRange_coversTouched_wholePages : CoversTouched fourFrames 0x1000 0x2000 := by
  refine (pmmReserveRange_coversTouched_iff fourFrames 0x1000 0x2000 (by decide)).mpr ?_
  rintro frame behind ⟨byte, -, below, lower, -⟩
  simp only [pmmPageSize] at behind lower
  omega

/-- Half a page of frame 1, and a page across frames 1 and 2. -/
theorem partialPages_stay_free :
    ¬ CoversTouched fourFrames 0x1000 0x800 ∧ ¬ CoversTouched fourFrames 0x1800 0x1000 := by
  constructor
  · intro covers
    have used := covers rfl 1 ⟨0x1000, by decide, by decide, by decide, by decide⟩
    exact absurd used (by decide +kernel)
  · intro covers
    have used := covers rfl 2 ⟨0x2000, by decide, by decide, by decide, by decide⟩
    exact absurd used (by decide +kernel)

end Mcsos.Pmm
