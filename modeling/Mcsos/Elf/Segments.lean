import Mathlib.Order.Interval.Set.Basic
import Mcsos.Elf.Outcome

/-!
Contract: where the segments of an accepted image lie, in the image and in the
address space.

The loop compares the 64-bit sum of `p_offset` and `p_filesz` with the size of
the image, so a sum that wraps passes. Entry and segments are compared with the
lower end of the user range only; its upper end, `2 ^ 47`, is not looked at.
-/

namespace Mcsos.Elf

open Mcsos.Machine
open Mcsos.Machine.Prog

section

variable (image : Nat → UInt8) (imageSize : Nat)

/-- Every loadable segment has its bytes in the image, is not shorter in memory
than in the image, and has a power of two for its alignment. -/
def SegmentsInImage : Prop :=
  ∀ index < ePhnum image, pType image index = m11PtLoad →
    pOffset image index + pFilesz image index ≤ imageSize ∧
      pFilesz image index ≤ pMemsz image index ∧ (pAlign image index).isPowerOfTwo

/-- The addresses of a user program: the lower half, without its first pages. -/
def userRange : Set Nat := Set.Ico 0x400000 (2 ^ 47)

/-- The entry and the memory of every loadable segment are user addresses. -/
def StaysInUserSpace : Prop :=
  eEntry image ∈ userRange ∧
    ∀ index < ePhnum image, pType image index = m11PtLoad →
      Set.Ico (pVaddr image index) (pVaddr image index + pMemsz image index) ⊆ userRange

variable {image imageSize}

/-- What the checks of the loop leave of a loadable segment. -/
theorem not_segmentRejected_iff {index : Nat} (load : pType image index = m11PtLoad) :
    ¬ SegmentRejected image imageSize index ↔
      pFilesz image index ≤ pMemsz image index ∧
        wrap64 (pOffset image index + pFilesz image index) ≤ imageSize ∧
        (pAlign image index).isPowerOfTwo ∧ 0x400000 ≤ pVaddr image index := by
  rw [← Nat.ne_zero_and_sub_one_eq_zero_iff_isPowerOfTwo]
  simp only [SegmentRejected, load, true_and, not_or, Nat.not_lt, not_not, and_assoc]

/-- What is claimed of accepted images holds of an image that a check refuses,
and of the others as far as it follows from the checks. -/
theorem of_ok_iff {property condition : Prop} (plan : M11ProcessImagePlan)
    (checked : HeaderAccepted image imageSize →
      (∀ index < ePhnum image, ¬ SegmentRejected image imageSize index) →
      (property ↔ condition)) :
    ((m11Elf64PlanLoad image imageSize).result plan = .ok → property) ↔
      ¬ HeaderAccepted image imageSize ∨
        (∃ index < ePhnum image, SegmentRejected image imageSize index) ∨ condition := by
  rw [m11Elf64PlanLoad_ok_iff]
  constructor
  · intro holds
    by_contra fails
    push Not at fails
    obtain ⟨accepted, none, unmet⟩ := fails
    exact unmet ((checked accepted none).mp (holds ⟨accepted, none⟩))
  · rintro (refused | ⟨index, below, rejected⟩ | met) ⟨accepted, none⟩
    · exact absurd accepted refused
    · exact absurd rejected (none index below)
    · exact (checked accepted none).mpr met

end

/-! ### In the image -/

/-- An accepted image has its segments inside exactly when none of them has a
file range whose end wraps. -/
theorem m11Elf64PlanLoad_segmentsInImage_iff (image : Nat → UInt8) (imageSize : Nat)
    (plan : M11ProcessImagePlan) (small : imageSize < 2 ^ 64) :
    ((m11Elf64PlanLoad image imageSize).result plan = .ok → SegmentsInImage image imageSize) ↔
      ¬ HeaderAccepted image imageSize ∨
        (∃ index < ePhnum image, SegmentRejected image imageSize index) ∨
        ∀ index < ePhnum image, pType image index = m11PtLoad →
          pOffset image index + pFilesz image index < 2 ^ 64 := by
  apply of_ok_iff
  intro accepted none
  constructor
  · intro inside index below load
    exact Nat.lt_of_le_of_lt (inside index below load).1 small
  · intro noWrap index below load
    obtain ⟨shorter, bounded, aligned, -⟩ :=
      (not_segmentRejected_iff load).mp (none index below)
    rw [wrap64_of_lt (noWrap index below load)] at bounded
    exact ⟨bounded, shorter, aligned⟩

theorem m11Elf64PlanLoad_segmentsInImage_oneSegment :
    SegmentsInImage (imageOf oneSegmentBytes) 68 :=
  (m11Elf64PlanLoad_segmentsInImage_iff (imageOf oneSegmentBytes) 68 ⟨0, 0⟩ (by decide)).mpr
    (Or.inr (Or.inr (by decide +kernel))) (by decide +kernel)

/-- A loadable segment of one byte at offset `2 ^ 64 - 1` of the image. -/
def wrappedSegmentBytes : List UInt8 :=
  (oneSegmentBytes.take 28 ++ List.replicate 8 0xff ++ oneSegmentBytes.drop 36).set 44 0x01

/-- The image of 68 bytes is accepted. -/
theorem wrappedSegment_outside_image :
    wrappedSegmentBytes.length = 68 ∧
      ¬ ((m11Elf64PlanLoad (imageOf wrappedSegmentBytes) 68).result ⟨0, 0⟩ = .ok →
        SegmentsInImage (imageOf wrappedSegmentBytes) 68) := by
  refine ⟨rfl, fun inImage => ?_⟩
  have inside := inImage (by decide +kernel) 0 (by decide +kernel) (by decide +kernel)
  exact absurd inside.1 (by decide +kernel)

/-! ### In the address space -/

/-- A segment that begins in the user range is inside exactly when it is empty
or ends there. -/
theorem segment_subset_userRange_iff {vaddr memsz : Nat} (lower : 0x400000 ≤ vaddr) :
    Set.Ico vaddr (vaddr + memsz) ⊆ userRange ↔ memsz = 0 ∨ vaddr + memsz ≤ 2 ^ 47 := by
  constructor
  · intro inside
    by_contra beyond
    push Not at beyond
    have last : vaddr + memsz - 1 ∈ userRange := inside ⟨by omega, by omega⟩
    have upper := last.2
    omega
  · rintro (empty | bounded) address ⟨atLeast, below⟩
    · omega
    · exact ⟨Nat.le_trans lower atLeast, Nat.lt_of_lt_of_le below bounded⟩

/-- An accepted image stays in user space exactly when its entry and the ends of
its segments, none of which the planner compares with it, are at most
`2 ^ 47`. -/
theorem m11Elf64PlanLoad_staysInUserSpace_iff (image : Nat → UInt8) (imageSize : Nat)
    (plan : M11ProcessImagePlan) :
    ((m11Elf64PlanLoad image imageSize).result plan = .ok → StaysInUserSpace image) ↔
      ¬ HeaderAccepted image imageSize ∨
        (∃ index < ePhnum image, SegmentRejected image imageSize index) ∨
        (eEntry image < 2 ^ 47 ∧
          ∀ index < ePhnum image, pType image index = m11PtLoad →
            pMemsz image index = 0 ∨ pVaddr image index + pMemsz image index ≤ 2 ^ 47) := by
  apply of_ok_iff
  intro accepted none
  have lower : ∀ index < ePhnum image, pType image index = m11PtLoad →
      0x400000 ≤ pVaddr image index := by
    intro index below load
    obtain ⟨-, -, -, lower⟩ := (not_segmentRejected_iff load).mp (none index below)
    exact lower
  constructor
  · rintro ⟨entry, segments⟩
    refine ⟨entry.2, ?_⟩
    intro index below load
    exact (segment_subset_userRange_iff (lower index below load)).mp (segments index below load)
  · rintro ⟨entry, segments⟩
    refine ⟨⟨accepted.entry, entry⟩, ?_⟩
    intro index below load
    exact (segment_subset_userRange_iff (lower index below load)).mpr (segments index below load)

/-- A loadable segment at the first address of the kernel half. -/
def kernelSegmentBytes : List UInt8 :=
  oneSegmentBytes.take 36 ++ [0x00, 0x00, 0x00, 0x00, 0x00, 0x80, 0xff, 0xff] ++
    oneSegmentBytes.drop 44

/-- The image is accepted. -/
theorem kernelSegment_leaves_userSpace :
    ¬ ((m11Elf64PlanLoad (imageOf kernelSegmentBytes) 68).result ⟨0, 0⟩ = .ok →
      StaysInUserSpace (imageOf kernelSegmentBytes)) := by
  intro stays
  have segments := (stays (by decide +kernel)).2 0 (by decide +kernel) (by decide +kernel)
  have first : 0xffff800000000000 ∈ userRange := segments (by decide +kernel)
  have upper : 0xffff800000000000 < 2 ^ 47 := first.2
  omega

end Mcsos.Elf
