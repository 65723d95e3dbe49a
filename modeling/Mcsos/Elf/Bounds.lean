import Mcsos.Elf.Model

/-!
Where the planner reads. Its only guard on the program header table is the
64-bit sum `e_phoff + 44 * e_phnum`, which says nothing once it wraps; this
module determines exactly which images keep every read inside the image.
-/

namespace Mcsos.Elf

open Mcsos.Machine
open Mcsos.Machine.Prog

/-- The access reads inside the image: the bytes of the field are below
`imageSize`, and a program header that is looked at lies wholly inside, its
end computed without wrapping. -/
def ElfAccess.InsideImage (phoff imageSize : Nat) : ElfAccess → Prop
  | .ehdrLoad offset width => offset + width ≤ imageSize
  | .phdrLoad index offset width =>
      offset + width ≤ imageSize ∧ phoff + phdrSize * (index + 1) ≤ imageSize
  | .storeEntryVirtualAddress _ => True
  | .storeSegmentCount _ => True

/-- The checks the planner makes before its loop. -/
structure HeaderAccepted (image : Nat → UInt8) (imageSize : Nat) : Prop where
  size : ehdrSize ≤ imageSize
  magic : eIdentMagic image = m11ElfMagic
  machine : eMachine image = m11ElfMachineX86_64
  entry : 0x400000 ≤ eEntry image
  table : wrap64 (ePhoff image + ePhnum image * phdrSize) ≤ imageSize

/-- Program header `index` makes the planner return an error. -/
def SegmentRejected (image : Nat → UInt8) (imageSize index : Nat) : Prop :=
  pType image index = m11PtLoad ∧
    (pMemsz image index < pFilesz image index ∨
      imageSize < wrap64 (pOffset image index + pFilesz image index) ∨
      pAlign image index = 0 ∨ pAlign image index &&& (pAlign image index - 1) ≠ 0 ∨
      pVaddr image index < 0x400000)

instance (image : Nat → UInt8) (imageSize index : Nat) :
    Decidable (SegmentRejected image imageSize index) := by
  unfold SegmentRejected
  infer_instance

/-! ### One program header -/

@[simp] theorem phdrField_result (image : Nat → UInt8) (index field width : Nat)
    (plan : M11ProcessImagePlan) :
    (phdrField image index field width).result plan =
      fieldAt image (phdrOffset image index field) width := (rfl)

/-- The error program header `index` stops the planner with. -/
def segmentStatus (image : Nat → UInt8) (imageSize index : Nat) : Option M11Status :=
  if pType image index ≠ m11PtLoad then none
  else if pMemsz image index < pFilesz image index then some .errSegbounds
  else if wrap64 (pOffset image index + pFilesz image index) > imageSize then some .errSegbounds
  else if pAlign image index = 0 then some .errAlign
  else if pAlign image index &&& (pAlign image index - 1) ≠ 0 then some .errAlign
  else if pVaddr image index < 0x400000 then some .errSegrange
  else none

/-- The plan does not matter to the answer of an iteration. -/
theorem planSegment_result (image : Nat → UInt8) (imageSize index : Nat)
    (plan : M11ProcessImagePlan) :
    (planSegment image imageSize index).result plan = segmentStatus image imageSize index := by
  unfold planSegment
  simp only [phdrField_result, result_bind, result_pure, result_ite]
  rfl

theorem segmentStatus_eq_none_iff (image : Nat → UInt8) (imageSize index : Nat) :
    segmentStatus image imageSize index = none ↔ ¬ SegmentRejected image imageSize index := by
  unfold segmentStatus SegmentRejected
  split_ifs <;> simp_all

/-- The loop goes on after a header exactly when the header is not rejected. -/
theorem planSegment_result_none_iff (image : Nat → UInt8) (imageSize index : Nat)
    (plan : M11ProcessImagePlan) :
    (planSegment image imageSize index).result plan = none ↔
      ¬ SegmentRejected image imageSize index := by
  rw [planSegment_result, segmentStatus_eq_none_iff]

/-- The header's type is read whenever the header is looked at. -/
theorem planSegment_loads_type (image : Nat → UInt8) (imageSize index : Nat)
    (plan : M11ProcessImagePlan) :
    ElfAccess.phdrLoad index (phdrOffset image index 0) 4 ∈
      (planSegment image imageSize index).trace plan := by
  simp [planSegment, phdrField]

/-- A header that lies in the image is read inside it. -/
theorem planSegment_inside {image : Nat → UInt8} {imageSize index : Nat}
    (small : imageSize < 2 ^ 64)
    (inside : ePhoff image + phdrSize * (index + 1) ≤ imageSize) (plan : M11ProcessImagePlan) :
    (planSegment image imageSize index).Issues
      (ElfAccess.InsideImage (ePhoff image) imageSize) plan := by
  have field : ∀ offset width, offset + width ≤ phdrSize →
      ElfAccess.InsideImage (ePhoff image) imageSize
        (.phdrLoad index (phdrOffset image index offset) width) := by
    intro offset width fits
    refine ⟨?_, inside⟩
    simp only [phdrOffset, phdrSize, wrap64] at *
    omega
  simp only [planSegment, phdrField, issues_bind, issues_ite, issues_emit, issues_pure,
    issues_get, and_true, true_and, imp_true_iff]
  have stores : ∀ value, ElfAccess.InsideImage (ePhoff image) imageSize
      (.storeSegmentCount value) := fun _ => trivial
  simp only [stores, imp_true_iff, field 0 4 (by decide), field 28 8 (by decide),
    field 20 8 (by decide), field 4 8 (by decide), field 36 8 (by decide),
    field 12 8 (by decide), and_self]

/-! ### The whole planner -/

/-- The header reads stay inside any image they are made on, so the planner
reads inside exactly when its loop, where it is entered, does. -/
theorem m11Elf64PlanLoad_inside_iff (image : Nat → UInt8) (imageSize : Nat)
    (plan : M11ProcessImagePlan) :
    (m11Elf64PlanLoad image imageSize).Issues
        (ElfAccess.InsideImage (ePhoff image) imageSize) plan ↔
      (HeaderAccepted image imageSize →
        (scanLoop 0 (ePhnum image) (planSegment image imageSize)).Issues
          (ElfAccess.InsideImage (ePhoff image) imageSize) ⟨eEntry image, 0⟩) := by
  by_cases size : imageSize < ehdrSize
  · have notAccepted : ¬ HeaderAccepted image imageSize := by
      intro accepted
      have enough := accepted.size
      omega
    simp [m11Elf64PlanLoad, size, notAccepted]
  · have load : ∀ offset width, offset + width ≤ ehdrSize →
        ElfAccess.InsideImage (ePhoff image) imageSize (.ehdrLoad offset width) := by
      intro offset width fits
      simp only [ElfAccess.InsideImage]
      omega
    have entryStore : ∀ value, ElfAccess.InsideImage (ePhoff image) imageSize
        (.storeEntryVirtualAddress value) := fun _ => trivial
    have countStore : ∀ value, ElfAccess.InsideImage (ePhoff image) imageSize
        (.storeSegmentCount value) := fun _ => trivial
    simp only [m11Elf64PlanLoad, ehdrField, issues_ite, issues_bind, issues_emit, issues_pure,
      size, not_false_eq_true, true_and, true_imp_iff, load 0 4 (by decide),
      load 4 2 (by decide), load 6 8 (by decide), load 14 8 (by decide), load 22 2 (by decide),
      result_bind, result_pure, final_bind, final_emit, final_pure, implies_true, entryStore,
      countStore, and_true, not_not, Nat.not_lt, gt_iff_lt]
    constructor
    · intro reads accepted
      exact reads accepted.magic accepted.machine accepted.entry accepted.table
    · intro reads magic machine entry table
      exact reads ⟨Nat.not_lt.mp size, magic, machine, entry, table⟩

/-- A table that ends below `2 ^ 64` and passed the guard is read inside the
image throughout. -/
private theorem scanLoop_inside_of_noWrap {image : Nat → UInt8} {imageSize : Nat}
    (small : imageSize < 2 ^ 64) (accepted : HeaderAccepted image imageSize)
    (noWrap : ePhoff image + phdrSize * ePhnum image < 2 ^ 64) (plan : M11ProcessImagePlan) :
    (scanLoop 0 (ePhnum image) (planSegment image imageSize)).Issues
      (ElfAccess.InsideImage (ePhoff image) imageSize) plan := by
  have table := accepted.table
  rw [Nat.mul_comm, wrap64_of_lt noWrap] at table
  refine scanLoop_issues 0 (ePhnum image) (planSegment image imageSize) _
    (fun _ _ => True) trivial ?_
  intro index s _ upper _
  refine ⟨planSegment_inside small ?_ s, fun _ => trivial⟩
  calc ePhoff image + phdrSize * (index + 1)
      ≤ ePhoff image + phdrSize * ePhnum image := by
        simp only [phdrSize]
        omega
    _ ≤ imageSize := table

/-- A rejected header inside the image stops the loop before it leaves the
image. -/
private theorem scanLoop_inside_of_rejected {image : Nat → UInt8} {imageSize stop : Nat}
    (small : imageSize < 2 ^ 64)
    (inside : ePhoff image + phdrSize * (stop + 1) ≤ imageSize)
    (rejected : SegmentRejected image imageSize stop) (plan : M11ProcessImagePlan) :
    (scanLoop 0 (ePhnum image) (planSegment image imageSize)).Issues
      (ElfAccess.InsideImage (ePhoff image) imageSize) plan := by
  refine scanLoop_issues 0 (ePhnum image) (planSegment image imageSize) _
    (fun index _ => index ≤ stop) (Nat.zero_le stop) ?_
  intro index s _ _ before
  have indexInside : ePhoff image + phdrSize * (index + 1) ≤ imageSize := by
    simp only [phdrSize] at inside ⊢
    omega
  refine ⟨planSegment_inside small indexInside s, fun goesOn => ?_⟩
  rw [planSegment_result_none_iff] at goesOn
  have notHere : index ≠ stop := by
    intro here
    exact goesOn (here ▸ rejected)
  omega

/-- Once the sum wraps, a loop that meets no rejected header inside the image
reaches the last header, and that one does not lie in the image. -/
private theorem scanLoop_not_inside {image : Nat → UInt8} {imageSize : Nat}
    (small : imageSize < 2 ^ 64) (some : ePhnum image ≠ 0)
    (wraps : 2 ^ 64 ≤ ePhoff image + phdrSize * ePhnum image)
    (noStop : ∀ index, index < ePhnum image →
      ePhoff image + phdrSize * (index + 1) ≤ imageSize →
      ¬ SegmentRejected image imageSize index) (plan : M11ProcessImagePlan) :
    ¬ (scanLoop 0 (ePhnum image) (planSegment image imageSize)).Issues
      (ElfAccess.InsideImage (ePhoff image) imageSize) plan := by
  intro reads
  -- by induction every header is looked at, and a header looked at lies inside
  have lookedAt : ∀ index, index < ePhnum image →
      ePhoff image + phdrSize * (index + 1) ≤ imageSize := by
    intro index
    induction index using Nat.strong_induction_on with
    | _ index inductionHypothesis =>
        intro below
        have issued := scanLoop_mem_trace 0 (ePhnum image) (planSegment image imageSize)
          (Nat.zero_le index) (by omega) (fun _ => True)
          (fun earlier s _ before _ => ⟨(planSegment_result_none_iff image imageSize earlier s).mpr
            (noStop earlier (by omega) (inductionHypothesis earlier before (by omega))), trivial⟩)
          (fun s _ => planSegment_loads_type image imageSize index s) plan trivial
        exact (reads _ issued).2
  have last := lookedAt (ePhnum image - 1) (by omega)
  rw [Nat.sub_add_cancel (Nat.one_le_iff_ne_zero.mpr some)] at last
  omega

/-- The planner stays inside the image exactly when the image fails a header
check, has no program headers, has a header table whose end does not wrap, or
holds, wholly inside the image, a program header that makes it stop. -/
theorem m11Elf64PlanLoad_reads_inside_iff (image : Nat → UInt8) (imageSize : Nat)
    (plan : M11ProcessImagePlan) (small : imageSize < 2 ^ 64) :
    (m11Elf64PlanLoad image imageSize).Issues
        (ElfAccess.InsideImage (ePhoff image) imageSize) plan ↔
      ¬ HeaderAccepted image imageSize ∨ ePhnum image = 0 ∨
        ePhoff image + phdrSize * ePhnum image < 2 ^ 64 ∨
        ∃ index, index < ePhnum image ∧ ePhoff image + phdrSize * (index + 1) ≤ imageSize ∧
          SegmentRejected image imageSize index := by
  rw [m11Elf64PlanLoad_inside_iff]
  constructor
  · intro reads
    by_contra fails
    push Not at fails
    rcases fails with ⟨accepted, some, wraps, noStop⟩
    exact scanLoop_not_inside small some wraps noStop _ (reads accepted)
  · intro condition accepted
    rcases condition with notAccepted | none | noWrap | ⟨stop, _, inside, rejected⟩
    · exact absurd accepted notAccepted
    · rw [none]
      exact issues_pure _ _ _
    · exact scanLoop_inside_of_noWrap small accepted noWrap _
    · exact scanLoop_inside_of_rejected small inside rejected _

/-- The memory that holds `bytes` at the image pointer. -/
def imageOf (bytes : List UInt8) : Nat → UInt8 := fun offset => bytes.getD offset 0

/-- A header and one loadable segment, the table right behind the header. -/
def oneSegmentBytes : List UInt8 :=
  [0x7f, 0x45, 0x4c, 0x46, 0x3e, 0x00, 0x00, 0x10, 0x40, 0x00, 0x00, 0x00,
   0x00, 0x00, 0x18, 0x00, 0x00, 0x00, 0x00, 0x00, 0x00, 0x00, 0x01, 0x00,
   0x01, 0x00, 0x00, 0x00, 0x00, 0x00, 0x00, 0x00, 0x00, 0x00, 0x00, 0x00,
   0x00, 0x10, 0x40, 0x00, 0x00, 0x00, 0x00, 0x00, 0x00, 0x00, 0x00, 0x00,
   0x00, 0x00, 0x00, 0x00, 0x00, 0x10, 0x00, 0x00, 0x00, 0x00, 0x00, 0x00,
   0x00, 0x10, 0x00, 0x00, 0x00, 0x00, 0x00, 0x00]

theorem m11Elf64PlanLoad_reads_inside_oneSegment :
    (m11Elf64PlanLoad (imageOf oneSegmentBytes) 68).Issues
      (ElfAccess.InsideImage (ePhoff (imageOf oneSegmentBytes)) 68) ⟨0, 0⟩ :=
  (m11Elf64PlanLoad_reads_inside_iff (imageOf oneSegmentBytes) 68 ⟨0, 0⟩ (by decide)).mpr
    (Or.inr (Or.inr (Or.inl (by decide +kernel))))

/-- A bare header that claims one program header at offset `2 ^ 64 - 44`: the
sum of the guard is 0. -/
def wrappedTableBytes : List UInt8 :=
  [0x7f, 0x45, 0x4c, 0x46, 0x3e, 0x00, 0x00, 0x10, 0x40, 0x00, 0x00, 0x00,
   0x00, 0x00, 0xd4, 0xff, 0xff, 0xff, 0xff, 0xff, 0xff, 0xff, 0x01, 0x00]

/-- The planner accepts the 24-byte image as far as the guard goes and reads
the header 44 bytes before it. -/
theorem wrappedTable_reads_outside :
    wrappedTableBytes.length = 24 ∧
      ¬ (m11Elf64PlanLoad (imageOf wrappedTableBytes) 24).Issues
        (ElfAccess.InsideImage (ePhoff (imageOf wrappedTableBytes)) 24) ⟨0, 0⟩ := by
  have issued : ElfAccess.phdrLoad 0 0xffffffffffffffd4 4 ∈
      (m11Elf64PlanLoad (imageOf wrappedTableBytes) 24).trace ⟨0, 0⟩ := by
    decide +kernel
  refine ⟨rfl, fun reads => ?_⟩
  have outside : 0xffffffffffffffd4 + 4 ≤ 24 := (reads _ issued).1
  omega

end Mcsos.Elf
