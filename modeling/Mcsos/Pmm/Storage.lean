import Mcsos.Pmm.Counters
import Mcsos.Pmm.UsableMap

/-!
Contract: what the manager relies on of the storage for its bitmap.

The initialisation fills `frame_count / 8` bytes, so the last frames of a
memory that is not a whole number of bytes keep the bits the storage held; and
it does not read the size of the storage it is given.
-/

namespace Mcsos.Pmm

open Mcsos.Machine
open Mcsos.Machine.Prog

/-! ### The content of the storage -/

/-- The frames the map frees and counts: usable ones whose bit is set when the
map is read. -/
def freedFrames (regions : List BootMemRegion) (storage : PmmState) (maxPhysBytes : Nat) :
    Finset Nat :=
  (Finset.range (maxPhysBytes / pmmPageSize)).filter fun frame =>
    UsableFrame regions frame ∧ getBit (bootState storage maxPhysBytes).bitmap frame = true

/-- Two initialisations that differ in what the storage held give the same free
frames and the same counters. -/
def IgnoresStorage (regions : List BootMemRegion) (bitmapSize maxPhysBytes : Nat) : Prop :=
  ∀ (pmm : PmmState) (bitmap other : Nat → UInt8),
    let init := (pmmInitFromMap regions bitmapSize maxPhysBytes).final
    (∀ frame < maxPhysBytes / pmmPageSize,
      (pmmIsFrameFree (frame * pmmPageSize)).result (init { pmm with bitmap := bitmap }) =
        (pmmIsFrameFree (frame * pmmPageSize)).result (init { pmm with bitmap := other })) ∧
      (init { pmm with bitmap := bitmap }).freeFrames =
        (init { pmm with bitmap := other }).freeFrames ∧
      (init { pmm with bitmap := bitmap }).usedFrames =
        (init { pmm with bitmap := other }).usedFrames

/-- Every frame whose bit decides something lies in a byte that is filled. -/
def FillsDeciding (regions : List BootMemRegion) (frameCount : Nat) : Prop :=
  ∀ frame < frameCount, frame ≠ 0 ∨ UsableFrame regions frame → frame / 8 < frameCount / 8

section

variable {regions : List BootMemRegion} {bitmapSize maxPhysBytes : Nat}

/-- Reading the map clears the bits of the freed frames. -/
theorem clearBits_releaseRegions (storage : PmmState) :
    clearBits ((releaseRegions regions).final (bootState storage maxPhysBytes)).bitmap
        (maxPhysBytes / pmmPageSize) =
      clearBits (bootState storage maxPhysBytes).bitmap (maxPhysBytes / pmmPageSize) ∪
        freedFrames regions storage maxPhysBytes := by
  have released := releaseRegions_boot regions storage maxPhysBytes
  ext frame
  rw [Finset.mem_union, mem_clearBits, mem_clearBits, freedFrames, Finset.mem_filter,
    Finset.mem_range, ← Bool.not_eq_true, released.bits frame]
  change _ ∧ ¬ (_ ∧ ¬ (frame < maxPhysBytes / pmmPageSize ∧ _)) ↔ _
  cases getBit (bootState storage maxPhysBytes).bitmap frame <;> simp

theorem releaseRegions_freeFrames (small : maxPhysBytes < 2 ^ 64) (storage : PmmState) :
    ((releaseRegions regions).final (bootState storage maxPhysBytes)).freeFrames =
      (freedFrames regions storage maxPhysBytes).card := by
  have counted := (releaseRegions_counted regions storage small).free
  have count := (releaseRegions_boot regions storage maxPhysBytes).frameCount
  have apart : Disjoint (clearBits (bootState storage maxPhysBytes).bitmap
      (maxPhysBytes / pmmPageSize)) (freedFrames regions storage maxPhysBytes) := by
    rw [Finset.disjoint_left]
    intro frame clear freed
    have set := (Finset.mem_filter.mp freed).2.2
    rw [(mem_clearBits.mp clear).2] at set
    cases set
  rw [count] at counted
  change _ = (clearBits _ (maxPhysBytes / pmmPageSize)).card at counted
  rw [clearBits_releaseRegions, Finset.card_union_of_disjoint apart, Nat.add_comm] at counted
  exact Nat.add_left_cancel counted

/-- The counters after an initialisation, frame 0 taken once more. -/
theorem pmmInitFromMap_counters (small : maxPhysBytes < 2 ^ 64) (storage : PmmState) :
    ((pmmInitFromMap regions bitmapSize maxPhysBytes).final storage).freeFrames =
        sub64 (freedFrames regions storage maxPhysBytes).card 1 ∧
      ((pmmInitFromMap regions bitmapSize maxPhysBytes).final storage).usedFrames =
        wrap64 (maxPhysBytes / pmmPageSize - (freedFrames regions storage maxPhysBytes).card + 1) := by
  have free := @releaseRegions_freeFrames regions maxPhysBytes small storage
  have total := (releaseRegions_counted regions storage small).total
  have count := (releaseRegions_boot regions storage maxPhysBytes).frameCount
  rw [count, free] at total
  change _ = maxPhysBytes / pmmPageSize at total
  rw [pmmInitFromMap_final]
  constructor
  · change sub64 _ 1 = _
    rw [free]
  · change wrap64 (_ + 1) = _
    congr 2
    omega

/-- Filled bytes are all the initialisation answers from. -/
theorem FillsDeciding.ignoresStorage (fills : FillsDeciding regions (maxPhysBytes / pmmPageSize))
    (small : maxPhysBytes < 2 ^ 64) : IgnoresStorage regions bitmapSize maxPhysBytes := by
  intro pmm bitmap other init
  have freed : freedFrames regions { pmm with bitmap := bitmap } maxPhysBytes =
      freedFrames regions { pmm with bitmap := other } maxPhysBytes := by
    apply Finset.filter_congr
    intro frame member
    apply and_congr_right
    intro usable
    have filled := fills frame (Finset.mem_range.mp member) (Or.inr usable)
    rw [bootState_filled _ filled, bootState_filled _ filled]
  have counters := fun storage => @pmmInitFromMap_counters regions bitmapSize _ small storage
  refine ⟨?_, ?_, ?_⟩
  · intro frame below
    have clear : ∀ storage, getBit (init storage).bitmap frame = false ↔
        frame ≠ 0 ∧ UsableFrame regions frame := by
      intro storage
      rw [pmmInitFromMap_free_iff regions bitmapSize maxPhysBytes storage below]
      apply and_congr_right
      intro notZero
      have filled := fills frame below (Or.inl notZero)
      simp [Nat.not_le.mpr filled]
    rw [Bool.eq_iff_iff, pmmIsFrameFree_frame_iff, pmmIsFrameFree_frame_iff,
      pmmInitFromMap_frameCount, pmmInitFromMap_frameCount, clear, clear]
  · rw [(counters _).1, (counters _).1, freed]
  · rw [(counters _).2, (counters _).2, freed]

/-- A set bit of the storage that is not filled, of a usable frame, makes the
map free and count the frame. -/
theorem freedFrames_setBit {storage : PmmState} {frame : Nat}
    (below : frame < maxPhysBytes / pmmPageSize) (usable : UsableFrame regions frame)
    (unfilled : maxPhysBytes / pmmPageSize / 8 ≤ frame / 8)
    (clear : getBit storage.bitmap frame = false) :
    (freedFrames regions { storage with bitmap := setBit storage.bitmap frame } maxPhysBytes).card =
      (freedFrames regions storage maxPhysBytes).card + 1 := by
  have absent : frame ∉ freedFrames regions storage maxPhysBytes := by
    intro freed
    have set := (Finset.mem_filter.mp freed).2.2
    rw [bootState_unfilled storage unfilled, clear] at set
    cases set
  rw [← Finset.card_insert_of_notMem absent]
  congr 1
  ext other
  simp only [freedFrames, Finset.mem_insert, Finset.mem_filter, Finset.mem_range]
  by_cases same : other = frame
  · subst same
    simp [below, usable, bootState_unfilled _ unfilled, getBit_setBit]
  · have kept : getBit (bootState { storage with bitmap := setBit storage.bitmap frame }
        maxPhysBytes).bitmap other = getBit (bootState storage maxPhysBytes).bitmap other := by
      by_cases filled : other / 8 < maxPhysBytes / pmmPageSize / 8
      · rw [bootState_filled _ filled, bootState_filled _ filled]
      · rw [bootState_unfilled _ (Nat.not_lt.mp filled), bootState_unfilled _ (Nat.not_lt.mp filled),
          getBit_setBit]
        simp [Ne.symm same]
    rw [kept]
    simp [same]

/-- A frame that decides something and lies in no filled byte shows the bit the
storage held: it is free or not, or it is counted or not. -/
theorem IgnoresStorage.fillsDeciding (ignores : IgnoresStorage regions bitmapSize maxPhysBytes)
    (small : maxPhysBytes < 2 ^ 64) : FillsDeciding regions (maxPhysBytes / pmmPageSize) := by
  intro frame below deciding
  by_contra notFilled
  have unfilled := Nat.not_lt.mp notFilled
  have clear : getBit zeroPmm.bitmap frame = false := by
    rw [getBit_eq_testBit]
    exact Nat.zero_testBit _
  obtain ⟨answers, counts, -⟩ := ignores zeroPmm zeroPmm.bitmap (setBit zeroPmm.bitmap frame)
  by_cases usable : UsableFrame regions frame
  · have more := freedFrames_setBit below usable unfilled clear
    have bounded : (freedFrames regions zeroPmm maxPhysBytes).card ≤
        maxPhysBytes / pmmPageSize := by
      refine (Finset.card_filter_le _ _).trans (Nat.le_of_eq ?_)
      exact Finset.card_range _
    rw [(pmmInitFromMap_counters small _).1, (pmmInitFromMap_counters small _).1, more] at counts
    change sub64 (freedFrames regions zeroPmm maxPhysBytes).card 1 = _ at counts
    simp only [sub64, pmmPageSize] at counts bounded
    omega
  · have notZero : frame ≠ 0 := deciding.resolve_right usable
    have free : ∀ storage : PmmState, (pmmIsFrameFree (frame * pmmPageSize)).result
        ((pmmInitFromMap regions bitmapSize maxPhysBytes).final storage) = true ↔
          getBit storage.bitmap frame = false := by
      intro storage
      rw [pmmIsFrameFree_frame_iff, pmmInitFromMap_frameCount,
        pmmInitFromMap_free_iff regions bitmapSize maxPhysBytes storage below]
      simp [below, notZero, usable, unfilled]
    have answer := answers frame below
    rw [Bool.eq_iff_iff, free, free, getBit_setBit] at answer
    simp [clear] at answer

end

theorem fillsDeciding_iff (regions : List BootMemRegion) (frameCount : Nat) :
    FillsDeciding regions frameCount ↔
      frameCount % 8 = 0 ∨ frameCount = 1 ∧ ¬ UsableFrame regions 0 := by
  constructor
  · intro fills
    by_cases whole : frameCount % 8 = 0
    · exact Or.inl whole
    · -- the last frame lies in the byte that is not filled
      have last := mt (fills (frameCount - 1) (by omega)) (by omega)
      push Not at last
      obtain ⟨zero, unusable⟩ := last
      rw [zero] at unusable
      exact Or.inr ⟨by omega, unusable⟩
  · rintro (whole | ⟨one, unusable⟩) frame below deciding
    · omega
    · have zero : frame = 0 := by omega
      subst zero
      exact absurd deciding (by simp [unusable])

/-- An initialisation does not depend on what the storage held exactly when the
frames fill whole bytes, or when the one managed frame is frame 0 and the map
does not free it. -/
theorem pmmInitFromMap_ignoresStorage_iff (regions : List BootMemRegion)
    (bitmapSize maxPhysBytes : Nat) (small : maxPhysBytes < 2 ^ 64) :
    IgnoresStorage regions bitmapSize maxPhysBytes ↔
      maxPhysBytes / pmmPageSize % 8 = 0 ∨
        maxPhysBytes / pmmPageSize = 1 ∧ ¬ UsableFrame regions 0 := by
  rw [← fillsDeciding_iff]
  constructor
  · intro ignores
    exact ignores.fillsDeciding small
  · intro fills
    exact fills.ignoresStorage small

theorem pmmInitFromMap_ignoresStorage_m6Regions : IgnoresStorage m6Regions 2048 0x4000000 :=
  (pmmInitFromMap_ignoresStorage_iff m6Regions 2048 0x4000000 (by decide)).mpr (Or.inl (by decide))

/-- Nine frames in two bytes, and no region. -/
theorem nineFrames_show_storage : ¬ IgnoresStorage [] 2 0x9000 := by
  intro ignores
  have answer := (ignores zeroPmm (fun _ => 0) (fun _ => 0xFF)).1 8 (by decide)
  exact absurd answer (by decide +kernel)

/-! ### The size of the storage -/

/-- An access to the bitmap is to a byte of the storage. -/
def InStorage (bitmapSize : Nat) : PmmAccess → Prop
  | .loadByte index | .storeByte index _ => index < bitmapSize
  | _ => True

/-- The initialisation stays in the storage and refuses one that is too small;
when it succeeds, no call after any run of calls, and no query, leaves it. -/
structure HonoursStorage (regions : List BootMemRegion) (bitmapSize maxPhysBytes : Nat)
    (pmm : PmmState) : Prop where
  init : (pmmInitFromMap regions bitmapSize maxPhysBytes).Issues (InStorage bitmapSize) pmm
  refuses : 8 * bitmapSize < maxPhysBytes / pmmPageSize →
    (pmmInitFromMap regions bitmapSize maxPhysBytes).result pmm = false
  call : (pmmInitFromMap regions bitmapSize maxPhysBytes).result pmm = true →
    ∀ (calls : List PmmCall) (call : PmmCall), ∀ access ∈ call.trace
      (runCalls calls ((pmmInitFromMap regions bitmapSize maxPhysBytes).final pmm)),
        InStorage bitmapSize access
  query : (pmmInitFromMap regions bitmapSize maxPhysBytes).result pmm = true →
    ∀ (calls : List PmmCall) (phys : Nat), (pmmIsFrameFree phys).Issues (InStorage bitmapSize)
      (runCalls calls ((pmmInitFromMap regions bitmapSize maxPhysBytes).final pmm))

section

variable {bitmapSize frameCount : Nat}

theorem builtFrom_inStorage (fits : frameCount ≤ 8 * bitmapSize) :
    BuiltFrom (InStorage bitmapSize) (fun pmm => pmm.frameCount = frameCount) := by
  have byte : ∀ pmm : PmmState, ∀ frame, pmm.frameCount = frameCount →
      frame < pmm.frameCount → frame / 8 < bitmapSize := by
    intro pmm frame count below
    omega
  refine ⟨?_, ?_, ?_⟩
  · intro pmm frame count below
    simp [bitmapTest, InStorage, byte pmm frame count below]
  · intro pmm frame count below _
    refine ⟨?_, count⟩
    simp [bitmapSet, countTaken, InStorage, byte pmm frame count below]
  · intro pmm frame count below _
    refine ⟨?_, count⟩
    simp [bitmapClear, countReleased, InStorage, byte pmm frame count below]

end

section

variable {good : PmmAccess → Prop} {inv : PmmState → Prop} (built : BuiltFrom good inv)

include built

theorem BuiltFrom.regionFrame {pmm : PmmState} (entry : inv pmm) (start index : Nat) :
    (releaseRegionFrame start index).Issues good pmm ∧
      inv ((releaseRegionFrame start index).final pmm) := by
  by_cases below : wrap64 (start + index) < pmm.frameCount
  · have inside : ¬ wrap64 (start + index) ≥ pmm.frameCount := Nat.not_le.mpr below
    have tested := built.test pmm _ entry below
    rw [(releaseRegionFrame_inside below).2]
    cases bit : getBit pmm.bitmap (wrap64 (start + index)) with
    | false => exact ⟨by simp [releaseRegionFrame, inside, bit, tested], entry⟩
    | true =>
        obtain ⟨released, after⟩ := built.release pmm _ entry below bit
        rw [issues_bind] at released
        exact ⟨by simpa [releaseRegionFrame, inside, bit, tested] using released, after⟩
  · have outside := Nat.not_lt.mp below
    rw [(releaseRegionFrame_outside outside).2]
    exact ⟨by simp [releaseRegionFrame, outside], entry⟩

theorem BuiltFrom.region {pmm : PmmState} (entry : inv pmm) (region : BootMemRegion) :
    (releaseRegion region).Issues good pmm ∧ inv ((releaseRegion region).final pmm) := by
  have issued := scanLoop_issues 0 (region.length / pmmPageSize)
    (releaseRegionFrame (region.base / pmmPageSize)) good (fun _ s => inv s) entry (by
      intro index s _ _ holds
      have frame := built.regionFrame holds (region.base / pmmPageSize) index
      exact ⟨frame.1, fun _ => frame.2⟩)
  have kept := scanLoop_invariant 0 (region.length / pmmPageSize)
    (releaseRegionFrame (region.base / pmmPageSize)) (fun _ s => inv s) (fun _ s => inv s) entry (by
      intro index s _ _ holds
      have frame := built.regionFrame holds (region.base / pmmPageSize) index
      split <;> exact frame.2)
  simp only [releaseRegion, issues_bind, issues_pure, final_bind, final_pure, and_true]
  refine ⟨issued, ?_⟩
  split at kept <;> exact kept

theorem BuiltFrom.regions (regions : List BootMemRegion) {pmm : PmmState} (entry : inv pmm) :
    (releaseRegions regions).Issues good pmm := by
  induction regions generalizing pmm with
  | nil => exact issues_pure _ _ _
  | cons region rest inductionHypothesis =>
      rw [releaseRegions, issues_ite, issues_bind]
      obtain ⟨issued, kept⟩ := built.region entry region
      exact ⟨fun _ => inductionHypothesis entry, fun _ => ⟨issued, inductionHypothesis kept⟩⟩

end

theorem pmmInitFromMap_inStorage {bitmapSize maxPhysBytes : Nat} (nonempty : 0 < bitmapSize)
    (fits : maxPhysBytes / pmmPageSize ≤ 8 * bitmapSize) (regions : List BootMemRegion)
    (pmm : PmmState) :
    (pmmInitFromMap regions bitmapSize maxPhysBytes).Issues (InStorage bitmapSize) pmm := by
  have filled : ∀ s, (forLoop 0 (maxPhysBytes / pmmPageSize / 8)
      (fun index => emit (PmmAccess.storeByte index 0xFF))).Issues (InStorage bitmapSize) s := by
    intro s
    apply forLoop_emit_issues
    intro index _ below
    change index < bitmapSize
    omega
  simp only [pmmInitFromMap, pmmZeroState, bitmapSet, countTaken, issues_bind, issues_emit,
    issues_get, issues_pure, InStorage, filled, nonempty, true_and, and_true]
  apply (builtFrom_inStorage fits).regions
  rw [fillBytes_final]
  rfl

@[simp] theorem pmmInitFromMap_result (regions : List BootMemRegion)
    (bitmapSize maxPhysBytes : Nat) (pmm : PmmState) :
    (pmmInitFromMap regions bitmapSize maxPhysBytes).result pmm = true := by
  simp [pmmInitFromMap]

/-- The bit of frame 0 is set whatever the map and the sizes are. -/
theorem pmmInitFromMap_loads_first (regions : List BootMemRegion) (bitmapSize maxPhysBytes : Nat)
    (pmm : PmmState) :
    PmmAccess.loadByte 0 ∈ (pmmInitFromMap regions bitmapSize maxPhysBytes).trace pmm := by
  simp [pmmInitFromMap, bitmapSet]

/-- The storage is honoured exactly when it has a bit for every frame, and a
byte for the bit of frame 0 in any case. -/
theorem pmmInitFromMap_honoursStorage_iff (regions : List BootMemRegion)
    (bitmapSize maxPhysBytes : Nat) (pmm : PmmState) :
    HonoursStorage regions bitmapSize maxPhysBytes pmm ↔
      0 < bitmapSize ∧ maxPhysBytes / pmmPageSize ≤ 8 * bitmapSize := by
  constructor
  · intro honours
    refine ⟨honours.init _ (pmmInitFromMap_loads_first regions bitmapSize maxPhysBytes pmm), ?_⟩
    by_contra short
    have refused := honours.refuses (Nat.not_le.mp short)
    rw [pmmInitFromMap_result] at refused
    cases refused
  · rintro ⟨nonempty, fits⟩
    have built := builtFrom_inStorage fits
    have count := pmmInitFromMap_frameCount regions bitmapSize maxPhysBytes pmm
    have run : ∀ calls, (runCalls calls
        ((pmmInitFromMap regions bitmapSize maxPhysBytes).final pmm)).frameCount =
          maxPhysBytes / pmmPageSize := by
      intro calls
      exact EveryCall.final (fun s : PmmState => s.frameCount = maxPhysBytes / pmmPageSize)
        (fun s call holds _ => (built.call holds call).1) (everyCall_true calls _) count
    refine ⟨pmmInitFromMap_inStorage nonempty fits regions pmm,
      fun short => absurd fits (Nat.not_le.mpr short), ?_, ?_⟩
    · intro _ calls call
      exact (built.call (run calls) call).2
    · intro _ calls phys
      unfold pmmIsFrameFree
      rw [issues_bind, result_get, final_get, issues_ite]
      refine ⟨issues_get _ _, fun _ => issues_pure _ _ _, fun inside => ?_⟩
      rw [issues_bind]
      exact ⟨built.test _ _ (run calls) (Nat.not_le.mp inside), issues_pure _ _ _⟩

/-- Sixteen frames and a storage of one byte: the initialisation fills two, and
succeeds. -/
theorem shortStorage_not_honoured :
    ¬ HonoursStorage [] 1 0x10000 zeroPmm ∧
      PmmAccess.storeByte 1 0xFF ∈ (pmmInitFromMap [] 1 0x10000).trace zeroPmm := by
  constructor
  · intro honours
    have refused := honours.refuses (by decide)
    exact absurd refused (by decide +kernel)
  · simp [pmmInitFromMap, forLoop_emit_trace, pmmPageSize]

end Mcsos.Pmm
