import Mcsos.Pmm.Boot

/-!
Contract: the memory map an initialisation leaves, for managers of whole bytes.

Frames are freed by frame number: base and length of a usable region are each
rounded down to pages, and regions of other types are passed over. The first
section says which frames are free, whatever the order of the regions; the
second compares this with the bytes the regions are about.
-/

namespace Mcsos.Pmm

open Mcsos.Machine
open Mcsos.Machine.Prog

section

variable {regions : List BootMemRegion} {bitmapSize maxPhysBytes : Nat} {storage : PmmState}

/-! ### By frames -/

theorem pmmInitFromMap_clear_iff (whole : maxPhysBytes / pmmPageSize % 8 = 0) {frame : Nat}
    (below : frame < maxPhysBytes / pmmPageSize) :
    getBit ((pmmInitFromMap regions bitmapSize maxPhysBytes).final storage).bitmap frame = false ↔
      frame ≠ 0 ∧ UsableFrame regions frame := by
  have filled : ¬ maxPhysBytes / pmmPageSize / 8 ≤ frame / 8 := by omega
  rw [pmmInitFromMap_free_iff regions bitmapSize maxPhysBytes storage below]
  simp only [filled, false_and, or_false]

theorem pmmInitFromMap_isFrameFree_iff (whole : maxPhysBytes / pmmPageSize % 8 = 0)
    (frame : Nat) :
    (pmmIsFrameFree (frame * pmmPageSize)).result
        ((pmmInitFromMap regions bitmapSize maxPhysBytes).final storage) = true ↔
      frame < maxPhysBytes / pmmPageSize ∧ frame ≠ 0 ∧ UsableFrame regions frame := by
  rw [pmmIsFrameFree_frame_iff, pmmInitFromMap_frameCount]
  constructor
  · rintro ⟨below, clear⟩
    exact ⟨below, (pmmInitFromMap_clear_iff whole below).mp clear⟩
  · rintro ⟨below, usable⟩
    exact ⟨below, (pmmInitFromMap_clear_iff whole below).mpr usable⟩

end

/-- The free frames are those of the usable regions without frame 0, and the
bytes of the bitmap are the same for every map with the same regions and every
storage. -/
theorem pmmInitFromMap_frees_usable_union (regions : List BootMemRegion)
    (bitmapSize maxPhysBytes : Nat) (storage : PmmState)
    (whole : maxPhysBytes / pmmPageSize % 8 = 0) :
    (∀ frame < maxPhysBytes / pmmPageSize,
      ((pmmIsFrameFree (frame * pmmPageSize)).result
          ((pmmInitFromMap regions bitmapSize maxPhysBytes).final storage) = true ↔
        frame ≠ 0 ∧ ∃ region ∈ regions, region.type = pmmRegionUsable ∧
          region.base / pmmPageSize ≤ frame ∧
          frame < region.base / pmmPageSize + region.length / pmmPageSize)) ∧
      ∀ otherRegions otherSize otherStorage, (∀ region, region ∈ otherRegions ↔ region ∈ regions) →
        ∀ index < maxPhysBytes / pmmPageSize / 8,
          ((pmmInitFromMap otherRegions otherSize maxPhysBytes).final otherStorage).bitmap index =
            ((pmmInitFromMap regions bitmapSize maxPhysBytes).final storage).bitmap index := by
  constructor
  · intro frame below
    rw [pmmInitFromMap_isFrameFree_iff whole]
    exact and_iff_right below
  · intro otherRegions otherSize otherStorage same index inside
    apply byte_eq_of_getBit
    intro frame byte
    have below : frame < maxPhysBytes / pmmPageSize := by omega
    have usable : UsableFrame otherRegions frame ↔ UsableFrame regions frame := by
      simp only [UsableFrame, same]
    have clear := @pmmInitFromMap_clear_iff otherRegions otherSize maxPhysBytes otherStorage whole
      frame below
    rw [usable, ← @pmmInitFromMap_clear_iff regions bitmapSize maxPhysBytes storage whole frame
      below] at clear
    rw [Bool.eq_iff_iff, ← Bool.not_eq_false, ← Bool.not_eq_false, clear]

/-- The kernel's own map. -/
theorem pmmInitFromMap_frees_usable_union_m6Regions :
    (pmmIsFrameFree (0x100 * pmmPageSize)).result
      ((pmmInitFromMap m6Regions 2048 0x4000000).final zeroPmm) = true :=
  ((pmmInitFromMap_frees_usable_union m6Regions 2048 0x4000000 zeroPmm (by decide)).1 0x100
    (by decide)).mpr (by decide)

/-! ### By bytes -/

def BootMemRegion.HasByte (region : BootMemRegion) (byte : Nat) : Prop :=
  region.base ≤ byte ∧ byte < region.base + region.length

/-- The byte lies in some usable region. -/
def UsableByte (regions : List BootMemRegion) (byte : Nat) : Prop :=
  ∃ region ∈ regions, region.type = pmmRegionUsable ∧ region.HasByte byte

/-- A free frame is not frame 0, every byte of it lies in a usable region, and
none in a region of another type. -/
def FailClosed (regions : List BootMemRegion) (pmm : PmmState) : Prop :=
  ∀ frame, (pmmIsFrameFree (frame * pmmPageSize)).result pmm = true →
    frame ≠ 0 ∧
      ∀ byte, frame * pmmPageSize ≤ byte → byte < frame * pmmPageSize + pmmPageSize →
        UsableByte regions byte ∧
          ∀ region ∈ regions, region.type ≠ pmmRegionUsable → ¬ region.HasByte byte

/-- Where a usable region of a page or more begins inside a managed page, other
than page 0, the bytes of that page before it are usable too. -/
def LeadsUsable (regions : List BootMemRegion) (frameCount : Nat) : Prop :=
  ∀ region ∈ regions, region.type = pmmRegionUsable → pmmPageSize ≤ region.length →
    region.base / pmmPageSize ≠ 0 → region.base / pmmPageSize < frameCount →
      ∀ byte, region.base / pmmPageSize * pmmPageSize ≤ byte → byte < region.base →
        UsableByte regions byte

/-- Regions of other types have no byte in a managed page, other than page 0,
that the usable regions cover by frames. -/
def OthersApart (regions : List BootMemRegion) (frameCount : Nat) : Prop :=
  ∀ region ∈ regions, region.type ≠ pmmRegionUsable → ∀ byte, region.HasByte byte →
    byte / pmmPageSize ≠ 0 → byte / pmmPageSize < frameCount →
      ¬ UsableFrame regions (byte / pmmPageSize)

/-- A byte of a covered page lies in the region, unless it comes before it in
the region's first page. -/
theorem BootMemRegion.CoversFrame.hasByte {region : BootMemRegion} {byte : Nat}
    (covers : region.CoversFrame (byte / pmmPageSize)) :
    region.HasByte byte ∨ region.base / pmmPageSize = byte / pmmPageSize ∧ byte < region.base := by
  obtain ⟨lower, upper⟩ := covers
  simp only [BootMemRegion.HasByte, pmmPageSize] at *
  omega

/-- An initialisation is fail-closed exactly when no usable region takes bytes
before it into the map, and no region of another type reaches into a covered
page. -/
theorem pmmInitFromMap_failClosed_iff (regions : List BootMemRegion)
    (bitmapSize maxPhysBytes : Nat) (storage : PmmState)
    (whole : maxPhysBytes / pmmPageSize % 8 = 0) :
    FailClosed regions ((pmmInitFromMap regions bitmapSize maxPhysBytes).final storage) ↔
      LeadsUsable regions (maxPhysBytes / pmmPageSize) ∧
        OthersApart regions (maxPhysBytes / pmmPageSize) := by
  have free := @pmmInitFromMap_isFrameFree_iff regions bitmapSize maxPhysBytes storage whole
  simp only [FailClosed, free]
  constructor
  · intro closed
    constructor
    · intro region member usable long notZero managed byte lower upper
      have covers : region.CoversFrame (region.base / pmmPageSize) := by
        simp only [BootMemRegion.CoversFrame, pmmPageSize] at *
        omega
      have page := closed _ ⟨managed, notZero, region, member, usable, covers⟩
      refine (page.2 byte lower ?_).1
      simp only [pmmPageSize] at *
      omega
    · intro region member other byte inside notZero managed usable
      have page := closed _ ⟨managed, notZero, usable⟩
      refine (page.2 byte (Nat.div_mul_le_self _ _) ?_).2 region member other inside
      simp only [pmmPageSize]
      omega
  · rintro ⟨leads, apart⟩ frame ⟨managed, notZero, usable⟩
    refine ⟨notZero, ?_⟩
    intro byte lower upper
    have page : frame = byte / pmmPageSize := by
      simp only [pmmPageSize] at *
      omega
    subst page
    refine ⟨?_, fun region member other inside => apart region member other byte inside notZero
      managed usable⟩
    obtain ⟨region, member, isUsable, covers⟩ := usable
    rcases covers.hasByte with inside | ⟨first, before⟩
    · exact ⟨region, member, isUsable, inside⟩
    · have long : pmmPageSize ≤ region.length := by
        obtain ⟨-, upper⟩ := covers
        simp only [pmmPageSize] at *
        omega
      rw [← first] at lower notZero managed
      exact leads region member isUsable long notZero managed byte lower before

/-- Two pages of usable memory from frame 1 on. -/
def alignedMap : List BootMemRegion :=
  [⟨0x1000, 0x2000, pmmRegionUsable, by decide, by decide, pmmRegionUsable_lt⟩]

theorem pmmInitFromMap_failClosed_alignedMap :
    FailClosed alignedMap ((pmmInitFromMap alignedMap 1 0x8000).final zeroPmm) := by
  refine (pmmInitFromMap_failClosed_iff alignedMap 1 0x8000 zeroPmm (by decide)).mpr ⟨?_, ?_⟩
  · intro region member _ _ _ _ byte lower upper
    rw [List.mem_singleton.mp member] at lower upper
    exact absurd (Nat.lt_of_le_of_lt lower upper) (by decide)
  · intro region member other
    rw [List.mem_singleton.mp member] at other
    exact absurd rfl other

/-- The second of these pages is also in a reserved region, behind it in the
list. -/
def overlappedMap : List BootMemRegion :=
  alignedMap ++ [⟨0x2000, 0x1000, pmmRegionReserved, by decide, by decide, pmmRegionReserved_lt⟩]

/-- One page of usable memory from the middle of frame 1 on. -/
def unalignedMap : List BootMemRegion :=
  [⟨0x1800, 0x1000, pmmRegionUsable, by decide, by decide, pmmRegionUsable_lt⟩]

/-- Frame 2 is free and reserved; frame 1 is free with half of its bytes in no
region. -/
theorem overlappedMap_not_failClosed :
    ¬ FailClosed overlappedMap ((pmmInitFromMap overlappedMap 1 0x8000).final zeroPmm) ∧
      ¬ FailClosed unalignedMap ((pmmInitFromMap unalignedMap 1 0x8000).final zeroPmm) := by
  constructor
  · intro closed
    have page := (closed 2 (by decide +kernel)).2 0x2000 (by decide) (by decide)
    refine page.2 ⟨0x2000, 0x1000, pmmRegionReserved, by decide, by decide, by decide⟩ ?_
      (by decide) ⟨by decide, by decide⟩
    exact List.mem_append_right _ (List.mem_singleton_self _)
  · intro closed
    have page := (closed 1 (by decide +kernel)).2 0x1000 (by decide) (by decide)
    obtain ⟨region, member, -, inside⟩ := page.1
    rw [List.mem_singleton.mp member] at inside
    exact absurd inside.1 (by decide)

end Mcsos.Pmm
