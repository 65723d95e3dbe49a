import Mcsos.Pmm.Boot

/-!
What holds over whole runs of the manager: every free bit belongs to a frame
the map made usable, frames that are handed out are handed out once, and what
a caller may pass to `pmm_free_frame` for that to stay so.
-/

namespace Mcsos.Pmm

open Mcsos.Machine
open Mcsos.Machine.Prog

/-! ### The pool -/

/-- Every free frame of the `count` managed ones is a usable frame other than
frame 0. -/
structure PoolClean (regions : List BootMemRegion) (count : Nat) (pmm : PmmState) : Prop where
  frameCount : pmm.frameCount = count
  clean : ∀ frame, frame < count → getBit pmm.bitmap frame = false →
    frame ≠ 0 ∧ UsableFrame regions frame

section

variable {regions : List BootMemRegion} {count : Nat} {pmm : PmmState}

theorem PoolClean.take (clean : PoolClean regions count pmm) (frame : Nat) :
    PoolClean regions count (pmm.take frame) where
  frameCount := clean.frameCount
  clean other below free := by
    rw [getBit_take, Bool.or_eq_false_iff] at free
    exact clean.clean other below free.2

theorem PoolClean.release (clean : PoolClean regions count pmm) {frame : Nat}
    (notZero : frame ≠ 0) (usable : UsableFrame regions frame) :
    PoolClean regions count (pmm.release frame) where
  frameCount := clean.frameCount
  clean other below free := by
    by_cases here : frame = other
    · exact here ▸ ⟨notZero, usable⟩
    · apply clean.clean other below
      simpa [getBit_release, here] using free

theorem PoolClean.alloc (clean : PoolClean regions count pmm) :
    PoolClean regions count (pmmAllocFrame.final pmm) := by
  obtain ⟨_, _, same⟩ | ⟨frame, _, _, _, _, effect⟩ := pmmAllocFrame_cases pmm
  · rwa [same]
  · rw [effect]
    exact clean.take frame

theorem PoolClean.reserve (clean : PoolClean regions count pmm) (base length : Nat) :
    PoolClean regions count ((pmmReserveRange base length).final pmm) :=
  pmmReserveRange_invariant _ base length clean fun _ frame holds _ _ => holds.take frame

/-- `pmm_free_frame` keeps the pool clean when the frame it is given, if it is
a managed page address at all, is usable and not frame 0. -/
theorem PoolClean.free (clean : PoolClean regions count pmm) {phys : Nat}
    (allowed : phys % pmmPageSize = 0 → phys / pmmPageSize < count →
      phys / pmmPageSize ≠ 0 ∧ UsableFrame regions (phys / pmmPageSize)) :
    PoolClean regions count ((pmmFreeFrame phys).final pmm) := by
  obtain ⟨_, same⟩ | ⟨aligned, below, _, _, effect⟩ := pmmFreeFrame_cases phys pmm
  · rwa [same]
  · rw [effect]
    rw [clean.frameCount] at below
    obtain ⟨notZero, usable⟩ := allowed aligned below
    exact clean.release notZero usable

/-- What the allocator returns from a clean pool. -/
theorem PoolClean.alloc_result (clean : PoolClean regions count pmm)
    (small : count ≤ 2 ^ 52) :
    pmmAllocFrame.result pmm = pmmInvalidFrame ∨
      ∃ frame, pmmAllocFrame.result pmm = frame * pmmPageSize ∧ frame < count ∧
        getBit pmm.bitmap frame = false ∧ frame ≠ 0 ∧ UsableFrame regions frame ∧
        pmmAllocFrame.final pmm = pmm.take frame := by
  obtain ⟨_, invalid, _⟩ | ⟨frame, below, free, _, answer, effect⟩ := pmmAllocFrame_cases pmm
  · exact Or.inl invalid
  · right
    rw [clean.frameCount] at below
    obtain ⟨notZero, usable⟩ := clean.clean frame below free
    refine ⟨frame, ?_, below, free, notZero, usable, effect⟩
    rw [answer]
    apply wrap64_of_lt
    simp only [pmmPageSize]
    omega

end

/-- The frames of 64 bits of physical address space. -/
theorem frameCount_le {maxPhysBytes : Nat} (small : maxPhysBytes < 2 ^ 64) :
    maxPhysBytes / pmmPageSize ≤ 2 ^ 52 := by
  simp only [pmmPageSize]
  omega

/-- The bits past the last whole byte of the bitmap, which initialisation does
not fill, are set in the storage for every frame the map does not free. -/
def TailSealed (regions : List BootMemRegion) (maxPhysBytes : Nat) (storage : Nat → UInt8) :
    Prop :=
  ∀ frame, 8 * (maxPhysBytes / pmmPageSize / 8) ≤ frame →
    frame < maxPhysBytes / pmmPageSize → frame ≠ 0 → getBit storage frame = false →
    UsableFrame regions frame

theorem tailSealed_of_whole (regions : List BootMemRegion) {maxPhysBytes : Nat}
    (storage : Nat → UInt8) (whole : maxPhysBytes / pmmPageSize % 8 = 0) :
    TailSealed regions maxPhysBytes storage := by
  intro frame lower upper
  omega

theorem poolClean_init (regions : List BootMemRegion) (bitmapSize : Nat) {maxPhysBytes : Nat}
    (pmm : PmmState) (tail : TailSealed regions maxPhysBytes pmm.bitmap) :
    PoolClean regions (maxPhysBytes / pmmPageSize)
      ((pmmInitFromMap regions bitmapSize maxPhysBytes).final pmm) where
  frameCount := pmmInitFromMap_frameCount _ _ _ _
  clean frame below free := by
    rw [pmmInitFromMap_free_iff _ _ _ _ below] at free
    obtain ⟨notZero, usable | ⟨unfilled, stale⟩⟩ := free
    · exact ⟨notZero, usable⟩
    · exact ⟨notZero, tail frame (by omega) below notZero stale⟩

/-! ### Runs in which callers free only what they own -/

/-- A run of the three operations from `boot`, with the addresses handed out
and not freed since. `pmm_free_frame` is only called on one of these. -/
inductive OwnedRun (boot : PmmState) : PmmState → List Nat → Prop where
  | boot : OwnedRun boot boot []
  | alloc {pmm : PmmState} {live : List Nat} (run : OwnedRun boot pmm live) :
      OwnedRun boot (pmmAllocFrame.final pmm)
        (if pmmAllocFrame.result pmm = pmmInvalidFrame then live
         else pmmAllocFrame.result pmm :: live)
  | free {pmm : PmmState} {live : List Nat} {phys : Nat} (run : OwnedRun boot pmm live)
      (owned : phys ∈ live) :
      OwnedRun boot ((pmmFreeFrame phys).final pmm) (live.erase phys)
  | reserve {pmm : PmmState} {live : List Nat} (base length : Nat)
      (run : OwnedRun boot pmm live) :
      OwnedRun boot ((pmmReserveRange base length).final pmm) live

/-- One outstanding address: the address of a used, usable frame other than
frame 0. -/
def Outstanding (regions : List BootMemRegion) (count : Nat) (pmm : PmmState) (phys : Nat) :
    Prop :=
  ∃ frame, phys = frame * pmmPageSize ∧ frame < count ∧ getBit pmm.bitmap frame = true ∧
    frame ≠ 0 ∧ UsableFrame regions frame

structure Ledger (regions : List BootMemRegion) (count : Nat) (pmm : PmmState)
    (live : List Nat) : Prop where
  pool : PoolClean regions count pmm
  nodup : live.Nodup
  outstanding : ∀ phys ∈ live, Outstanding regions count pmm phys

private theorem outstanding_take {regions : List BootMemRegion} {count : Nat} {pmm : PmmState}
    {phys : Nat} (owned : Outstanding regions count pmm phys) (frame : Nat) :
    Outstanding regions count (pmm.take frame) phys := by
  obtain ⟨own, address, below, used, rest⟩ := owned
  exact ⟨own, address, below, by simp [getBit_take, used], rest⟩

private theorem outstanding_release {regions : List BootMemRegion} {count : Nat}
    {pmm : PmmState} {phys frame : Nat} (owned : Outstanding regions count pmm phys)
    (other : phys ≠ frame * pmmPageSize) :
    Outstanding regions count (pmm.release frame) phys := by
  obtain ⟨own, address, below, used, rest⟩ := owned
  have different : frame ≠ own := by
    rintro rfl
    exact other address
  exact ⟨own, address, below, by simp [getBit_release, used, different], rest⟩

theorem Ledger.alloc {regions : List BootMemRegion} {count : Nat} {pmm : PmmState}
    {live : List Nat} (ledger : Ledger regions count pmm live) (small : count ≤ 2 ^ 52) :
    Ledger regions count (pmmAllocFrame.final pmm)
      (if pmmAllocFrame.result pmm = pmmInvalidFrame then live
       else pmmAllocFrame.result pmm :: live) := by
  obtain invalid | ⟨frame, answer, below, free, notZero, usable, effect⟩ :=
    ledger.pool.alloc_result small
  · have same : pmmAllocFrame.final pmm = pmm := by
      obtain ⟨_, _, same⟩ | ⟨frame, below, _, _, answer, _⟩ := pmmAllocFrame_cases pmm
      · exact same
      · -- a page address is never the all-ones answer
        rw [invalid, ledger.pool.frameCount] at *
        simp only [pmmInvalidFrame, pmmPageSize, wrap64] at answer
        omega
    rw [if_pos invalid, same]
    exact ledger
  · have valid : pmmAllocFrame.result pmm ≠ pmmInvalidFrame := by
      rw [answer]
      simp only [pmmInvalidFrame, pmmPageSize]
      omega
    rw [if_neg valid, answer, effect]
    refine ⟨ledger.pool.take frame, ?_, ?_⟩
    · refine List.nodup_cons.mpr ⟨fun member => ?_, ledger.nodup⟩
      -- an outstanding frame is used, and this one was free
      obtain ⟨own, address, _, used, _⟩ := ledger.outstanding _ member
      have same : own = frame := by
        simp only [pmmPageSize] at address
        omega
      rw [same, free] at used
      cases used
    · intro phys member
      rcases List.mem_cons.mp member with rfl | old
      · exact ⟨frame, rfl, below, by simp [getBit_take], notZero, usable⟩
      · exact outstanding_take (ledger.outstanding phys old) frame

theorem Ledger.free {regions : List BootMemRegion} {count : Nat} {pmm : PmmState}
    {live : List Nat} (ledger : Ledger regions count pmm live) {phys : Nat}
    (owned : phys ∈ live) :
    Ledger regions count ((pmmFreeFrame phys).final pmm) (live.erase phys) := by
  obtain ⟨frame, rfl, below, used, notZero, usable⟩ := ledger.outstanding phys owned
  have index : frame * pmmPageSize / pmmPageSize = frame :=
    Nat.mul_div_cancel frame (by decide)
  have remaining : ∀ other ∈ live.erase (frame * pmmPageSize),
      other ∈ live ∧ other ≠ frame * pmmPageSize := by
    intro other member
    obtain ⟨different, old⟩ := (List.Nodup.mem_erase_iff ledger.nodup).mp member
    exact ⟨old, different⟩
  refine ⟨ledger.pool.free fun _ _ => index.symm ▸ ⟨notZero, usable⟩, ledger.nodup.erase _, ?_⟩
  intro other member
  obtain ⟨old, different⟩ := remaining other member
  obtain ⟨_, same⟩ | ⟨_, _, _, _, effect⟩ := pmmFreeFrame_cases (frame * pmmPageSize) pmm
  · rw [same]
    exact ledger.outstanding other old
  · rw [effect, index]
    exact outstanding_release (ledger.outstanding other old) different

theorem Ledger.reserve {regions : List BootMemRegion} {count : Nat} {pmm : PmmState}
    {live : List Nat} (ledger : Ledger regions count pmm live) (base length : Nat) :
    Ledger regions count ((pmmReserveRange base length).final pmm) live :=
  pmmReserveRange_invariant (fun s => Ledger regions count s live) base length ledger
    fun _ frame holds _ _ => ⟨holds.pool.take frame, holds.nodup,
      fun phys member => outstanding_take (holds.outstanding phys member) frame⟩

/-- The ledger holds in every state of a run that starts with it. -/
theorem OwnedRun.ledger {regions : List BootMemRegion} {count : Nat} {boot pmm : PmmState}
    {live : List Nat} (small : count ≤ 2 ^ 52) (start : Ledger regions count boot [])
    (run : OwnedRun boot pmm live) : Ledger regions count pmm live := by
  induction run with
  | boot => exact start
  | alloc _ inductionHypothesis => exact inductionHypothesis.alloc small
  | free _ owned inductionHypothesis => exact inductionHypothesis.free owned
  | reserve base length _ inductionHypothesis => exact inductionHypothesis.reserve base length

/-- Frames handed out are distinct, page aligned, managed, never frame 0 and
always usable, and the allocator gives up exactly when every bit is set. -/
theorem ownedRun_frames (regions : List BootMemRegion) (bitmapSize maxPhysBytes : Nat)
    (storage pmm : PmmState) (live : List Nat) (small : maxPhysBytes < 2 ^ 64)
    (whole : maxPhysBytes / pmmPageSize % 8 = 0)
    (run : OwnedRun ((pmmInitFromMap regions bitmapSize maxPhysBytes).final storage) pmm live) :
    live.Nodup ∧
      (∀ phys ∈ live, phys % pmmPageSize = 0 ∧
        phys < maxPhysBytes / pmmPageSize * pmmPageSize ∧ phys / pmmPageSize ≠ 0 ∧
        UsableFrame regions (phys / pmmPageSize)) ∧
      (pmmAllocFrame.result pmm = pmmInvalidFrame ↔
        ∀ frame, frame < maxPhysBytes / pmmPageSize → getBit pmm.bitmap frame = true) := by
  have start : Ledger regions (maxPhysBytes / pmmPageSize)
      ((pmmInitFromMap regions bitmapSize maxPhysBytes).final storage) [] :=
    ⟨poolClean_init regions bitmapSize storage (tailSealed_of_whole regions _ whole),
      List.nodup_nil, by simp⟩
  have ledger := run.ledger (frameCount_le small) start
  refine ⟨ledger.nodup, ?_, ?_⟩
  · intro phys member
    obtain ⟨frame, rfl, below, _, notZero, usable⟩ := ledger.outstanding phys member
    rw [Nat.mul_div_cancel frame (by decide)]
    refine ⟨Nat.mul_mod_left _ _, ?_, notZero, usable⟩
    exact Nat.mul_lt_mul_of_pos_right below (by decide)
  · have bound := frameCount_le small
    rw [← ledger.pool.frameCount]
    rw [← ledger.pool.frameCount] at bound
    obtain ⟨full, invalid, _⟩ | ⟨frame, below, free, _, answer, _⟩ := pmmAllocFrame_cases pmm
    · exact ⟨fun _ => full, fun _ => invalid⟩
    · constructor
      · intro invalid
        rw [invalid] at answer
        simp only [pmmInvalidFrame, pmmPageSize, wrap64] at answer
        omega
      · intro full
        rw [full frame below] at free
        cases free

/-- Eight usable frames from address 0 on, in storage of one byte. -/
def eightFrames : List BootMemRegion :=
  [⟨0, 0x8000, pmmRegionUsable, Nat.two_pow_pos 64, by decide, pmmRegionUsable_lt⟩]

def eightFramesBoot : PmmState := (pmmInitFromMap eightFrames 1 0x8000).final zeroPmm

/-- The run that allocates one frame. -/
private theorem oneFrame_run :
    OwnedRun eightFramesBoot (pmmAllocFrame.final eightFramesBoot) [0x1000] := by
  have answer : pmmAllocFrame.result eightFramesBoot = 0x1000 := by decide +kernel
  have run := OwnedRun.alloc (OwnedRun.boot : OwnedRun eightFramesBoot eightFramesBoot [])
  rwa [answer, if_neg (by decide)] at run

theorem ownedRun_frames_oneFrame :
    [0x1000].Nodup ∧
      (∀ phys ∈ [0x1000], phys % pmmPageSize = 0 ∧
        phys < 0x8000 / pmmPageSize * pmmPageSize ∧ phys / pmmPageSize ≠ 0 ∧
        UsableFrame eightFrames (phys / pmmPageSize)) ∧
      (pmmAllocFrame.result (pmmAllocFrame.final eightFramesBoot) = pmmInvalidFrame ↔
        ∀ frame, frame < 0x8000 / pmmPageSize →
          getBit (pmmAllocFrame.final eightFramesBoot).bitmap frame = true) :=
  ownedRun_frames eightFrames 1 0x8000 zeroPmm _ _ (by decide) (by decide) oneFrame_run

/-! ### Runs with arbitrary frees -/

/-- A call of a run, with any arguments. -/
inductive PmmCall where
  | alloc
  | free (phys : Nat)
  | reserve (base length : Nat)

def PmmCall.run : PmmCall → PmmState → PmmState
  | .alloc, pmm => pmmAllocFrame.final pmm
  | .free phys, pmm => (pmmFreeFrame phys).final pmm
  | .reserve base length, pmm => (pmmReserveRange base length).final pmm

def runCalls (calls : List PmmCall) (pmm : PmmState) : PmmState :=
  calls.foldl (fun state call => call.run state) pmm

/-- The address names no managed page, or a usable one other than frame 0. -/
def FreeAllowed (regions : List BootMemRegion) (count phys : Nat) : Prop :=
  phys % pmmPageSize = 0 → phys / pmmPageSize < count →
    phys / pmmPageSize ≠ 0 ∧ UsableFrame regions (phys / pmmPageSize)

theorem PoolClean.runCalls {regions : List BootMemRegion} {count : Nat} (calls : List PmmCall)
    (allowed : ∀ phys, PmmCall.free phys ∈ calls → FreeAllowed regions count phys) :
    ∀ {pmm : PmmState}, PoolClean regions count pmm →
      PoolClean regions count (runCalls calls pmm) := by
  induction calls with
  | nil =>
      intro pmm clean
      exact clean
  | cons call rest inductionHypothesis =>
      intro pmm clean
      apply inductionHypothesis (fun phys member => allowed phys (by simp [member]))
      cases call with
      | alloc => exact clean.alloc
      | free phys => exact clean.free (allowed phys (by simp))
      | reserve base length => exact clean.reserve base length

/-- The next allocation returns neither address 0 nor a frame outside the
usable regions. -/
def AllocUsable (regions : List BootMemRegion) (pmm : PmmState) : Prop :=
  pmmAllocFrame.result pmm ≠ 0 ∧
    (pmmAllocFrame.result pmm ≠ pmmInvalidFrame →
      UsableFrame regions (pmmAllocFrame.result pmm / pmmPageSize))

/-- No allocation of a run returns address 0 or a frame outside the usable
regions, provided the storage held no stray clear bit past the last whole byte
and every managed page passed to `pmm_free_frame` is usable and not frame 0. -/
theorem runCalls_alloc_usable (regions : List BootMemRegion) (bitmapSize maxPhysBytes : Nat)
    (storage : PmmState) (calls : List PmmCall) (small : maxPhysBytes < 2 ^ 64)
    (tail : TailSealed regions maxPhysBytes storage.bitmap)
    (allowed : ∀ phys, PmmCall.free phys ∈ calls →
      FreeAllowed regions (maxPhysBytes / pmmPageSize) phys)
    (before after : List PmmCall) (split : calls = before ++ PmmCall.alloc :: after) :
    AllocUsable regions
      (runCalls before ((pmmInitFromMap regions bitmapSize maxPhysBytes).final storage)) := by
  have clean := PoolClean.runCalls before
    (fun phys member => allowed phys (by simp [split, member]))
    (poolClean_init regions bitmapSize storage tail)
  obtain invalid | ⟨frame, answer, _, _, notZero, usable, _⟩ :=
    clean.alloc_result (frameCount_le small)
  · rw [AllocUsable, invalid]
    exact ⟨by decide, fun valid => absurd rfl valid⟩
  · rw [AllocUsable, answer, Nat.mul_div_cancel frame (by decide)]
    refine ⟨?_, fun _ => usable⟩
    simp only [pmmPageSize]
    omega

/-- Freeing an owned frame and allocating again. -/
theorem runCalls_alloc_usable_afterFree :
    AllocUsable eightFrames (runCalls [.alloc, .free 0x1000] eightFramesBoot) :=
  runCalls_alloc_usable eightFrames 1 0x8000 zeroPmm [.alloc, .free 0x1000, .alloc]
    (by decide) (tailSealed_of_whole _ _ (by decide))
    (by
      intro phys member
      simp only [List.mem_cons, PmmCall.free.injEq, List.not_mem_nil, or_false, reduceCtorEq,
        false_or] at member
      subst member
      intro _ _
      exact ⟨by decide, by decide⟩)
    [.alloc, .free 0x1000] [] rfl

/-- Freeing address 0, which was never handed out, makes the next allocation
return it. With four frames of memory, none usable, and storage of zero bytes,
the first allocation returns frame 1. -/
theorem runCalls_alloc_leaks :
    ¬ AllocUsable eightFrames (runCalls [.free 0] eightFramesBoot) ∧
      ¬ AllocUsable [] (runCalls [] ((pmmInitFromMap [] 1 0x4000).final zeroPmm)) := by
  have zero : pmmAllocFrame.result (runCalls [.free 0] eightFramesBoot) = 0 := by decide +kernel
  have stray : pmmAllocFrame.result
      (runCalls [] ((pmmInitFromMap [] 1 0x4000).final zeroPmm)) = 0x1000 := by decide +kernel
  constructor
  · intro usable
    exact usable.1 zero
  · intro usable
    have inRegion := usable.2 (by rw [stray]; decide)
    rw [stray] at inRegion
    exact absurd inRegion (by decide)

end Mcsos.Pmm
