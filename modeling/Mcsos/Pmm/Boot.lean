import Mcsos.Pmm.Operations

/-!
What `pmm_init_from_map` leaves behind: which frames it frees, and when its
two counters agree with the bitmap.

The initialisation fills `frame_count / 8` bytes with ones, frees every frame
of a usable region, and then takes frame 0 once more without asking whether
the map had freed it. The counters are therefore exact precisely for the maps
that free frame 0.
-/

namespace Mcsos.Pmm

open Mcsos.Machine
open Mcsos.Machine.Prog

/-- The frame lies in the frame range of the region, both ends rounded down
as the source rounds them. -/
def BootMemRegion.CoversFrame (region : BootMemRegion) (frame : Nat) : Prop :=
  region.base / pmmPageSize ≤ frame ∧
    frame < region.base / pmmPageSize + region.length / pmmPageSize

instance (region : BootMemRegion) (frame : Nat) : Decidable (region.CoversFrame frame) := by
  unfold BootMemRegion.CoversFrame
  infer_instance

/-- The frame lies in the frame range of some usable region. -/
def UsableFrame (regions : List BootMemRegion) (frame : Nat) : Prop :=
  ∃ region ∈ regions, region.type = pmmRegionUsable ∧ region.CoversFrame frame

instance (regions : List BootMemRegion) (frame : Nat) : Decidable (UsableFrame regions frame) := by
  unfold UsableFrame
  infer_instance

theorem usableFrame_cons {region : BootMemRegion} {rest : List BootMemRegion} {frame : Nat} :
    UsableFrame (region :: rest) frame ↔
      (region.type = pmmRegionUsable ∧ region.CoversFrame frame) ∨ UsableFrame rest frame := by
  simp [UsableFrame]

/-- Frame arithmetic of a region never leaves 64 bits. -/
theorem BootMemRegion.frame_lt (region : BootMemRegion) {index : Nat}
    (below : index < region.length / pmmPageSize) :
    region.base / pmmPageSize + index < 2 ^ 64 := by
  have baseLt := region.base_lt
  have lengthLt := region.length_lt
  simp only [pmmPageSize] at below ⊢
  omega

/-! ### Releasing the usable regions -/

theorem releaseRegionFrame_inside {start index : Nat} {pmm : PmmState}
    (below : wrap64 (start + index) < pmm.frameCount) :
    (releaseRegionFrame start index).result pmm = none ∧
      (releaseRegionFrame start index).final pmm =
        if getBit pmm.bitmap (wrap64 (start + index)) then pmm.release (wrap64 (start + index))
        else pmm := by
  have inside : ¬ wrap64 (start + index) ≥ pmm.frameCount := by omega
  cases bit : getBit pmm.bitmap (wrap64 (start + index)) with
  | false => simp [releaseRegionFrame, inside, bit]
  | true => simp [releaseRegionFrame, inside, bit, bitmapClear_countReleased_final]

theorem releaseRegionFrame_outside {start index : Nat} {pmm : PmmState}
    (outside : pmm.frameCount ≤ wrap64 (start + index)) :
    (releaseRegionFrame start index).result pmm = some () ∧
      (releaseRegionFrame start index).final pmm = pmm := by
  simp [releaseRegionFrame, outside]

/-- `after` is `before` with the managed frames satisfying `freed` marked
free, reached by releases that keep `inv`. -/
structure Released (inv : PmmState → Prop) (freed : Nat → Prop) (before after : PmmState) :
    Prop where
  kept : inv after
  frameCount : after.frameCount = before.frameCount
  bits : ∀ frame, getBit after.bitmap frame = true ↔
    getBit before.bitmap frame = true ∧ ¬ (frame < before.frameCount ∧ freed frame)

/-- An invariant of states is kept by releases of used managed frames. -/
def KeptByRelease (inv : PmmState → Prop) : Prop :=
  ∀ pmm frame, inv pmm → frame < pmm.frameCount → getBit pmm.bitmap frame = true →
    inv (pmm.release frame)

theorem released_refl {inv : PmmState → Prop} {pmm : PmmState} {freed : Nat → Prop}
    (holds : inv pmm) (none : ∀ frame, ¬ freed frame) : Released inv freed pmm pmm where
  kept := holds
  frameCount := rfl
  bits frame := by simp [none frame]

/-- One more frame of the range is looked at: it ends up free whether or not
it was used. -/
private theorem released_step {inv : PmmState → Prop} (keeps : KeptByRelease inv)
    {start index : Nat} {before pmm : PmmState}
    (holds : Released inv (fun frame => start ≤ frame ∧ frame < start + index) before pmm)
    (below : start + index < pmm.frameCount) :
    Released inv (fun frame => start ≤ frame ∧ frame < start + (index + 1)) before
      (if getBit pmm.bitmap (start + index) then pmm.release (start + index) else pmm) := by
  have belowBefore : start + index < before.frameCount := holds.frameCount ▸ below
  cases bit : getBit pmm.bitmap (start + index) with
  | true =>
      refine ⟨keeps pmm _ holds.kept below bit, holds.frameCount, fun frame => ?_⟩
      simp only [↓reduceIte, getBit_release, Bool.and_eq_true, Bool.not_eq_eq_eq_not,
        Bool.not_true, decide_eq_false_iff_not, holds.bits frame]
      constructor
      · rintro ⟨different, used, notFreed⟩
        exact ⟨used, by omega⟩
      · rintro ⟨used, notFreed⟩
        exact ⟨by omega, used, by omega⟩
  | false =>
      refine ⟨holds.kept, holds.frameCount, fun frame => ?_⟩
      simp only [Bool.false_eq_true, ↓reduceIte, holds.bits frame]
      have clear : ¬ (getBit before.bitmap (start + index) = true ∧
          ¬ (start + index < before.frameCount ∧
            start ≤ start + index ∧ start + index < start + index)) := by
        rw [← holds.bits, bit]
        simp
      constructor
      · rintro ⟨used, notFreed⟩
        refine ⟨used, fun freed => ?_⟩
        have here : frame = start + index := by omega
        subst here
        exact clear ⟨used, by omega⟩
      · rintro ⟨used, notFreed⟩
        exact ⟨used, by omega⟩

theorem releaseRegion_released {inv : PmmState → Prop} (keeps : KeptByRelease inv)
    (region : BootMemRegion) {pmm : PmmState} (holds : inv pmm) :
    Released inv region.CoversFrame pmm ((releaseRegion region).final pmm) := by
  have loop := scanLoop_invariant 0 (region.length / pmmPageSize)
    (releaseRegionFrame (region.base / pmmPageSize))
    (fun index s => Released inv (fun frame => region.base / pmmPageSize ≤ frame ∧
      frame < region.base / pmmPageSize + index) pmm s)
    (fun _ s => Released inv region.CoversFrame pmm s)
    (released_refl holds (by omega)) (by
      intro index s _ upper soFar
      have exact : wrap64 (region.base / pmmPageSize + index) =
          region.base / pmmPageSize + index :=
        wrap64_of_lt (region.frame_lt (by omega))
      by_cases below : region.base / pmmPageSize + index < s.frameCount
      · obtain ⟨answer, effect⟩ := releaseRegionFrame_inside (exact ▸ below)
        rw [answer, effect, exact]
        exact released_step keeps soFar below
      · obtain ⟨answer, effect⟩ :=
          releaseRegionFrame_outside (exact ▸ Nat.not_lt.mp below)
        rw [answer, effect]
        -- past the managed range: no frame below the bound is left in the region
        refine ⟨soFar.kept, soFar.frameCount, fun frame => (soFar.bits frame).trans ?_⟩
        have bound := soFar.frameCount
        unfold BootMemRegion.CoversFrame
        constructor <;> rintro ⟨used, notFreed⟩ <;> exact ⟨used, by omega⟩)
  simp only [releaseRegion, final_bind, final_pure]
  rw [Nat.zero_add] at loop
  split at loop <;> exact loop

theorem releaseRegions_released {inv : PmmState → Prop} (keeps : KeptByRelease inv)
    (regions : List BootMemRegion) {pmm : PmmState} (holds : inv pmm) :
    Released inv (UsableFrame regions) pmm ((releaseRegions regions).final pmm) := by
  induction regions generalizing pmm with
  | nil => exact released_refl holds (by simp [UsableFrame])
  | cons region rest inductionHypothesis =>
      rw [releaseRegions]
      by_cases usable : region.type = pmmRegionUsable
      · rw [if_neg (by simpa using usable), final_bind]
        have first := releaseRegion_released keeps region holds
        have others := inductionHypothesis first.kept
        refine ⟨others.kept, others.frameCount.trans first.frameCount, fun frame => ?_⟩
        rw [others.bits, first.bits, first.frameCount, usableFrame_cons]
        tauto
      · rw [if_pos usable]
        have others := inductionHypothesis holds
        refine ⟨others.kept, others.frameCount, fun frame => ?_⟩
        rw [others.bits, usableFrame_cons]
        tauto

/-! ### The whole initialisation -/

/-- The state before the map is read: whole bytes of ones, every frame counted
as used. Bits past the last whole byte keep what the storage held. -/
def bootState (pmm : PmmState) (maxPhysBytes : Nat) : PmmState where
  bitmap := fun index =>
    if index < maxPhysBytes / pmmPageSize / 8 then 0xFF else pmm.bitmap index
  frameCount := maxPhysBytes / pmmPageSize
  freeFrames := 0
  usedFrames := maxPhysBytes / pmmPageSize
  nextHint := 0
  initialized := false

theorem fillBytes_final (count : Nat) (pmm : PmmState) :
    (forLoop 0 count (fun index => emit (PmmAccess.storeByte index 0xFF))).final pmm =
      { pmm with bitmap := fun index => if index < count then 0xFF else pmm.bitmap index } := by
  have loop := forLoop_emit_writeRange (fun index => PmmAccess.storeByte index 0xFF)
    (fun bitmap => { pmm with bitmap := bitmap }) pmm.bitmap 0 count (fun _ => 0xFF) (by
      intro index _ memory
      rw [Nat.zero_add]
      rfl)
  have filled : writeRange pmm.bitmap 0 count (fun _ => 0xFF) =
      fun index => if index < count then 0xFF else pmm.bitmap index := by
    funext index
    simp [writeRange]
  rw [filled] at loop
  exact loop

theorem bootState_filled (pmm : PmmState) {maxPhysBytes frame : Nat}
    (filled : frame / 8 < maxPhysBytes / pmmPageSize / 8) :
    getBit (bootState pmm maxPhysBytes).bitmap frame = true :=
  getBit_of_ones (if_pos filled)

theorem bootState_unfilled (pmm : PmmState) {maxPhysBytes frame : Nat}
    (unfilled : maxPhysBytes / pmmPageSize / 8 ≤ frame / 8) :
    getBit (bootState pmm maxPhysBytes).bitmap frame = getBit pmm.bitmap frame := by
  simp [getBit, bootState, Nat.not_lt.mpr unfilled]

/-- `pmm_init_from_map` frees the usable frames of the boot state and takes
frame 0 at the end. -/
theorem pmmInitFromMap_final (regions : List BootMemRegion) (bitmapSize maxPhysBytes : Nat)
    (pmm : PmmState) :
    (pmmInitFromMap regions bitmapSize maxPhysBytes).final pmm =
      { ((releaseRegions regions).final (bootState pmm maxPhysBytes)).take 0 with
        initialized := true } := by
  simp only [pmmInitFromMap, final_bind, fillBytes_final]
  rfl

/-- The map read from the boot state, with no invariant to keep. -/
theorem releaseRegions_boot (regions : List BootMemRegion) (pmm : PmmState)
    (maxPhysBytes : Nat) :
    Released (fun _ => True) (UsableFrame regions) (bootState pmm maxPhysBytes)
      ((releaseRegions regions).final (bootState pmm maxPhysBytes)) :=
  releaseRegions_released (fun _ _ _ _ _ => trivial) regions trivial

theorem pmmInitFromMap_frameCount (regions : List BootMemRegion)
    (bitmapSize maxPhysBytes : Nat) (pmm : PmmState) :
    ((pmmInitFromMap regions bitmapSize maxPhysBytes).final pmm).frameCount =
      maxPhysBytes / pmmPageSize := by
  rw [pmmInitFromMap_final]
  exact (releaseRegions_boot regions pmm maxPhysBytes).frameCount

/-- A managed frame is free after initialisation exactly when it is not frame
0 and either the map frees it or no store reached its bit and the storage held
it clear. -/
theorem pmmInitFromMap_free_iff (regions : List BootMemRegion) (bitmapSize maxPhysBytes : Nat)
    (pmm : PmmState) {frame : Nat} (below : frame < maxPhysBytes / pmmPageSize) :
    getBit ((pmmInitFromMap regions bitmapSize maxPhysBytes).final pmm).bitmap frame = false ↔
      frame ≠ 0 ∧ (UsableFrame regions frame ∨
        (maxPhysBytes / pmmPageSize / 8 ≤ frame / 8 ∧ getBit pmm.bitmap frame = false)) := by
  have released := releaseRegions_boot regions pmm maxPhysBytes
  have boot : getBit (bootState pmm maxPhysBytes).bitmap frame = true ↔
      frame / 8 < maxPhysBytes / pmmPageSize / 8 ∨ getBit pmm.bitmap frame = true := by
    by_cases filled : frame / 8 < maxPhysBytes / pmmPageSize / 8
    · simp [bootState_filled pmm filled, filled]
    · simp [bootState_unfilled pmm (Nat.not_lt.mp filled), filled]
  have bits := released.bits frame
  rw [boot] at bits
  have inRange : frame < (bootState pmm maxPhysBytes).frameCount := below
  rw [pmmInitFromMap_final]
  change getBit (PmmState.take _ 0).bitmap frame = false ↔ _
  rw [getBit_take, Bool.or_eq_false_iff, decide_eq_false_iff_not, ← Bool.not_eq_true, bits,
    ← Bool.not_eq_true (getBit pmm.bitmap frame)]
  constructor
  · rintro ⟨notZero, notUsed⟩
    refine ⟨fun zero => notZero zero.symm, ?_⟩
    by_cases usable : UsableFrame regions frame
    · exact Or.inl usable
    · right
      constructor
      · by_contra filled
        exact notUsed ⟨Or.inl (by omega), fun freed => usable freed.2⟩
      · intro stale
        exact notUsed ⟨Or.inr stale, fun freed => usable freed.2⟩
  · rintro ⟨notZero, usable | ⟨unfilled, stale⟩⟩
    · exact ⟨fun zero => notZero zero.symm, fun used => used.2 ⟨inRange, usable⟩⟩
    · refine ⟨fun zero => notZero zero.symm, ?_⟩
      rintro ⟨filled | stillSet, _⟩
      · omega
      · exact stale stillSet

/-! ### The counters -/

/-- The counters count the clear and the set bits of the managed frames, so
they add up and neither has wrapped. -/
structure CountersExact (pmm : PmmState) : Prop where
  free : pmm.freeFrames = (clearBits pmm.bitmap pmm.frameCount).card
  used : pmm.usedFrames = (setBits pmm.bitmap pmm.frameCount).card
  total : pmm.freeFrames + pmm.usedFrames = pmm.frameCount

theorem countersExact_of_free {pmm : PmmState}
    (free : pmm.freeFrames = (clearBits pmm.bitmap pmm.frameCount).card)
    (total : pmm.freeFrames + pmm.usedFrames = pmm.frameCount) : CountersExact pmm := by
  have split := clearBits_card_add_setBits_card pmm.bitmap pmm.frameCount
  exact ⟨free, by omega, total⟩

/-- The frames counted as free are the clear bits less `stale` of them, and the
counters add up. -/
structure CountedFrom (stale : Nat) (pmm : PmmState) : Prop where
  free : pmm.freeFrames + stale = (clearBits pmm.bitmap pmm.frameCount).card
  total : pmm.freeFrames + pmm.usedFrames = pmm.frameCount

theorem CountedFrom.release {stale : Nat} {pmm : PmmState} {frame : Nat}
    (counted : CountedFrom stale pmm) (small : pmm.frameCount < 2 ^ 64)
    (below : frame < pmm.frameCount) (used : getBit pmm.bitmap frame = true) :
    CountedFrom stale (pmm.release frame) := by
  have grown := clearBits_card_clearBit below used
  have split := clearBits_card_add_setBits_card (clearBit pmm.bitmap frame) pmm.frameCount
  have free := counted.free
  have total := counted.total
  have released : (pmm.release frame).freeFrames = pmm.freeFrames + 1 :=
    wrap64_of_lt (show pmm.freeFrames + 1 < 2 ^ 64 by omega)
  have left : (pmm.release frame).usedFrames = pmm.usedFrames - 1 :=
    sub64_of_le (by omega) (by omega)
  constructor
  · rw [released]
    change _ = (clearBits (clearBit pmm.bitmap frame) pmm.frameCount).card
    omega
  · rw [released, left]
    change _ = pmm.frameCount
    omega

/-- Releasing a used managed frame keeps the counters exact. -/
theorem countersExact_release {pmm : PmmState} {frame : Nat} (exact : CountersExact pmm)
    (small : pmm.frameCount < 2 ^ 64) (below : frame < pmm.frameCount)
    (used : getBit pmm.bitmap frame = true) : CountersExact (pmm.release frame) := by
  have counted : CountedFrom 0 pmm := ⟨exact.free, exact.total⟩
  have after := counted.release small below used
  exact countersExact_of_free after.free after.total

/-- Taking a free managed frame keeps the counters exact. -/
theorem countersExact_take {pmm : PmmState} {frame : Nat} (exact : CountersExact pmm)
    (small : pmm.frameCount < 2 ^ 64) (below : frame < pmm.frameCount)
    (free : getBit pmm.bitmap frame = false) : CountersExact (pmm.take frame) := by
  have shrunk := clearBits_card_setBit below free
  have total := exact.total
  have counted := exact.free
  apply countersExact_of_free
  · simp only [PmmState.take]
    rw [sub64_of_le (by omega) (by omega)]
    omega
  · simp only [PmmState.take, wrap64]
    rw [sub64_of_le (by omega) (by omega)]
    omega

/-- With a whole number of bitmap bytes the boot state counts exactly. -/
theorem countersExact_bootState (pmm : PmmState) {maxPhysBytes : Nat}
    (whole : maxPhysBytes / pmmPageSize % 8 = 0) :
    CountersExact (bootState pmm maxPhysBytes) := by
  have none : clearBits (bootState pmm maxPhysBytes).bitmap (maxPhysBytes / pmmPageSize) = ∅ := by
    apply Finset.eq_empty_of_forall_notMem
    intro frame member
    obtain ⟨below, clear⟩ := mem_clearBits.mp member
    rw [bootState_filled pmm (by omega)] at clear
    cases clear
  apply countersExact_of_free
  · change 0 = (clearBits _ (maxPhysBytes / pmmPageSize)).card
    rw [none]
    rfl
  · exact Nat.zero_add _

/-- Reading the map counts the frames it clears, not those that were clear
before. -/
theorem releaseRegions_counted (regions : List BootMemRegion) (pmm : PmmState)
    {maxPhysBytes : Nat} (small : maxPhysBytes < 2 ^ 64) :
    CountedFrom (clearBits (bootState pmm maxPhysBytes).bitmap (maxPhysBytes / pmmPageSize)).card
      ((releaseRegions regions).final (bootState pmm maxPhysBytes)) := by
  have keeps : KeptByRelease fun s =>
      CountedFrom (clearBits (bootState pmm maxPhysBytes).bitmap
        (maxPhysBytes / pmmPageSize)).card s ∧ s.frameCount = maxPhysBytes / pmmPageSize := by
    rintro s frame ⟨counted, count⟩ below used
    refine ⟨counted.release ?_ below used, count⟩
    rw [count]
    simp only [pmmPageSize]
    omega
  exact (releaseRegions_released keeps regions
    ⟨⟨Nat.zero_add _, Nat.zero_add _⟩, rfl⟩).kept.1

/-- The state after the map has been read and before frame 0 is taken. -/
private theorem releaseRegions_exact (regions : List BootMemRegion) (pmm : PmmState)
    {maxPhysBytes : Nat} (small : maxPhysBytes < 2 ^ 64)
    (whole : maxPhysBytes / pmmPageSize % 8 = 0) :
    CountersExact ((releaseRegions regions).final (bootState pmm maxPhysBytes)) := by
  have counted := releaseRegions_counted regions pmm small
  have none : (clearBits (bootState pmm maxPhysBytes).bitmap (maxPhysBytes / pmmPageSize)).card =
      0 := (countersExact_bootState pmm whole).free.symm
  have free := counted.free
  rw [none, Nat.add_zero] at free
  exact countersExact_of_free free counted.total

private theorem frameZero_free_iff (regions : List BootMemRegion) (pmm : PmmState)
    {maxPhysBytes : Nat} (positive : 0 < maxPhysBytes / pmmPageSize)
    (whole : maxPhysBytes / pmmPageSize % 8 = 0) :
    getBit ((releaseRegions regions).final (bootState pmm maxPhysBytes)).bitmap 0 = false ↔
      UsableFrame regions 0 := by
  have released := releaseRegions_boot regions pmm maxPhysBytes
  have filled : 0 / 8 < maxPhysBytes / pmmPageSize / 8 := by omega
  have inRange : 0 < (bootState pmm maxPhysBytes).frameCount := positive
  rw [← Bool.not_eq_true, released.bits 0]
  simp [bootState_filled pmm filled, inRange]

/-- A map that leaves frame 0 used makes the last adjustment count it twice. -/
theorem pmmInitFromMap_not_exact (regions : List BootMemRegion) (bitmapSize : Nat)
    (pmm : PmmState) {maxPhysBytes : Nat} (small : maxPhysBytes < 2 ^ 64)
    (positive : 0 < maxPhysBytes / pmmPageSize) (whole : maxPhysBytes / pmmPageSize % 8 = 0)
    (unusable : ¬ UsableFrame regions 0) :
    ¬ CountersExact ((pmmInitFromMap regions bitmapSize maxPhysBytes).final pmm) := by
  have before := releaseRegions_exact regions pmm small whole
  have count := (releaseRegions_boot regions pmm maxPhysBytes).frameCount
  rw [← frameZero_free_iff regions pmm positive whole, Bool.not_eq_false] at unusable
  rw [pmmInitFromMap_final]
  generalize (releaseRegions regions).final (bootState pmm maxPhysBytes) = state at *
  intro exact
  have same : clearBits (setBit state.bitmap 0) state.frameCount =
      clearBits state.bitmap state.frameCount := by
    rw [clearBits_setBit]
    apply Finset.erase_eq_of_notMem
    intro member
    rw [(mem_clearBits.mp member).2] at unusable
    cases unusable
  have after : sub64 state.freeFrames 1 =
      (clearBits (setBit state.bitmap 0) state.frameCount).card := exact.free
  have bound : state.frameCount < 2 ^ 64 := by
    rw [count]
    change maxPhysBytes / pmmPageSize < 2 ^ 64
    simp only [pmmPageSize]
    omega
  have counted := before.free
  have total := before.total
  rw [same, ← counted] at after
  unfold sub64 at after
  omega

/-- The counters are exact after boot for exactly the maps with a usable
region that begins in frame 0 and is at least one page long. -/
theorem pmmInitFromMap_countersExact_iff (regions : List BootMemRegion)
    (bitmapSize maxPhysBytes : Nat) (pmm : PmmState) (small : maxPhysBytes < 2 ^ 64)
    (positive : 0 < maxPhysBytes / pmmPageSize) (whole : maxPhysBytes / pmmPageSize % 8 = 0) :
    CountersExact ((pmmInitFromMap regions bitmapSize maxPhysBytes).final pmm) ↔
      ∃ region ∈ regions, region.type = pmmRegionUsable ∧
        region.base < pmmPageSize ∧ pmmPageSize ≤ region.length := by
  have begins : UsableFrame regions 0 ↔ ∃ region ∈ regions, region.type = pmmRegionUsable ∧
      region.base < pmmPageSize ∧ pmmPageSize ≤ region.length := by
    have covers : ∀ region : BootMemRegion, region.CoversFrame 0 ↔
        region.base < pmmPageSize ∧ pmmPageSize ≤ region.length := by
      intro region
      simp only [BootMemRegion.CoversFrame, pmmPageSize]
      omega
    simp only [UsableFrame, covers]
  rw [← begins]
  constructor
  · intro exact
    by_contra unusable
    exact pmmInitFromMap_not_exact regions bitmapSize pmm small positive whole unusable exact
  · intro usable
    have before := releaseRegions_exact regions pmm small whole
    have count := (releaseRegions_boot regions pmm maxPhysBytes).frameCount
    have free := (frameZero_free_iff regions pmm positive whole).mpr usable
    rw [pmmInitFromMap_final]
    have taken := countersExact_take before (by
      rw [count]
      change maxPhysBytes / pmmPageSize < 2 ^ 64
      simp only [pmmPageSize]
      omega) (by rw [count]; exact positive) free
    exact ⟨taken.free, taken.used, taken.total⟩

/-- A storage of zero bytes, as static storage starts. -/
def zeroPmm : PmmState := ⟨fun _ => 0, 0, 0, 0, 0, false⟩

/-- One usable region from address 0 on. -/
theorem pmmInitFromMap_countersExact_lowMemory :
    CountersExact ((pmmInitFromMap [⟨0, 0x9F000, pmmRegionUsable, by decide, by decide,
      by decide⟩] 8192 0x4000000).final zeroPmm) :=
  (pmmInitFromMap_countersExact_iff _ _ _ _ (by decide) (by decide) (by decide)).mpr
    ⟨_, List.mem_singleton_self _, rfl, by decide, by decide⟩

/-- `m6_regions`, the map `kmain` boots with: frame 0 is reserved. -/
def m6Regions : List BootMemRegion :=
  [⟨0x00000000, 0x0009F000, pmmRegionReserved, by decide, by decide, by decide⟩,
   ⟨0x00100000, 0x00300000, pmmRegionUsable, by decide, by decide, by decide⟩]

/-- The kernel's own map and sizes leave `free_frames` one below the number of
clear bits. -/
theorem m6Regions_counters_not_exact :
    0 < 0x4000000 / pmmPageSize ∧ 0x4000000 / pmmPageSize % 8 = 0 ∧
      ¬ CountersExact ((pmmInitFromMap m6Regions 2048 0x4000000).final zeroPmm) :=
  ⟨by decide, by decide, pmmInitFromMap_not_exact _ _ _ (by decide) (by decide) (by decide)
    (by decide)⟩

end Mcsos.Pmm
