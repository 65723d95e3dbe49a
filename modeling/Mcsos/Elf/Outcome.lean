import Mathlib.Data.List.TakeWhile
import Mcsos.Elf.Bounds

/-!
Contract: what the planner returns and what it leaves in the plan, for every
image and every plan it is given.

Nothing the loop reads depends on the plan, so the answer is the first error in
the order of the source. The plan is written before the loop and counted up
inside it; an error in the loop leaves it as far as it has come.
-/

namespace Mcsos.Elf

open Mcsos.Machine
open Mcsos.Machine.Prog

/-! ### What is returned -/

/-- The error the planner stops with before its loop. -/
def headerStatus (image : Nat → UInt8) (imageSize : Nat) : Option M11Status :=
  if imageSize < ehdrSize then some .errMagic
  else if eIdentMagic image ≠ m11ElfMagic then some .errMagic
  else if eMachine image ≠ m11ElfMachineX86_64 then some .errMachine
  else if eEntry image < 0x400000 then some .errEntry
  else if wrap64 (ePhoff image + ePhnum image * phdrSize) > imageSize then some .errSegbounds
  else none

/-- The error of the first program header that is rejected. -/
def tableStatus (image : Nat → UInt8) (imageSize : Nat) : Option M11Status :=
  (List.range (ePhnum image)).findSome? (segmentStatus image imageSize)

/-- The first check of several decides, if it fails. -/
private theorem getD_check (condition : Prop) {_ : Decidable condition} (error fallback : M11Status)
    (checks next : Option M11Status) :
    ((if condition then some error else checks).or next).getD fallback =
      if condition then error else (checks.or next).getD fallback := by
  split <;> rfl

section

variable (image : Nat → UInt8) (imageSize : Nat)

theorem headerStatus_eq_none_iff :
    headerStatus image imageSize = none ↔ HeaderAccepted image imageSize := by
  constructor
  · intro none
    unfold headerStatus at none
    split_ifs at none with size magic machine entry table
    exact ⟨Nat.not_lt.mp size, not_not.mp magic, not_not.mp machine, Nat.not_lt.mp entry,
      Nat.not_lt.mp table⟩
  · rintro ⟨size, magic, machine, entry, table⟩
    simp [headerStatus, Nat.not_lt.mpr size, magic, machine, Nat.not_lt.mpr entry,
      Nat.not_lt.mpr table]

theorem tableStatus_eq_none_iff :
    tableStatus image imageSize = none ↔
      ∀ index < ePhnum image, ¬ SegmentRejected image imageSize index := by
  simp only [tableStatus, List.findSome?_eq_none_iff, List.mem_range, segmentStatus_eq_none_iff]

theorem m11Elf64PlanLoad_result (plan : M11ProcessImagePlan) :
    (m11Elf64PlanLoad image imageSize).result plan =
      ((headerStatus image imageSize).or (tableStatus image imageSize)).getD .ok := by
  have loop : ∀ s, (scanLoop 0 (fieldAt image 22 2) (planSegment image imageSize)).result s =
      tableStatus image imageSize := by
    intro s
    rw [scanLoop_result (planSegment_result image imageSize), ← List.range_eq_range']
    rfl
  rw [headerStatus, getD_check, getD_check, getD_check, getD_check, getD_check, Option.none_or]
  unfold m11Elf64PlanLoad
  simp only [ehdrField, result_bind, result_pure, result_ite, loop]
  rfl

/-- No check reports success as an error. -/
theorem headerStatus_ne_ok : headerStatus image imageSize ≠ some .ok := by
  unfold headerStatus
  split_ifs <;> simp

theorem tableStatus_ne_ok : tableStatus image imageSize ≠ some .ok := by
  intro found
  obtain ⟨index, -, here⟩ := List.exists_of_findSome?_eq_some found
  unfold segmentStatus at here
  split_ifs at here <;> simp at here

theorem m11Elf64PlanLoad_ok_iff (plan : M11ProcessImagePlan) :
    (m11Elf64PlanLoad image imageSize).result plan = .ok ↔
      HeaderAccepted image imageSize ∧
        ∀ index < ePhnum image, ¬ SegmentRejected image imageSize index := by
  rw [m11Elf64PlanLoad_result, ← headerStatus_eq_none_iff, ← tableStatus_eq_none_iff]
  have headerFails := headerStatus_ne_ok image imageSize
  have tableFails := tableStatus_ne_ok image imageSize
  cases header : headerStatus image imageSize with
  | some status => simpa [header] using headerFails
  | none =>
      cases table : tableStatus image imageSize with
      | some status => simpa [table] using tableFails
      | none => simp

/-! ### What is left in the plan -/

/-- The program headers the loop goes through before the first rejected one. -/
def headersTaken : List Nat :=
  (List.range (ePhnum image)).takeWhile fun index => ¬ SegmentRejected image imageSize index

/-- The number of loadable segments among them. -/
def segmentsTaken : Nat :=
  (headersTaken image imageSize).countP fun index => pType image index = m11PtLoad

theorem segmentsTaken_of_none
    (none : ∀ index < ePhnum image, ¬ SegmentRejected image imageSize index) :
    segmentsTaken image imageSize =
      (List.range (ePhnum image)).countP fun index => pType image index = m11PtLoad := by
  have all : headersTaken image imageSize = List.range (ePhnum image) := by
    rw [headersTaken, List.takeWhile_eq_self_iff]
    intro index member
    exact decide_eq_true (none index (List.mem_range.mp member))
  rw [segmentsTaken, all]

/-- The effect of an iteration that goes on. -/
def countSegment (index : Nat) (plan : M11ProcessImagePlan) : M11ProcessImagePlan :=
  if pType image index = m11PtLoad then
    { plan with segmentCount := wrap32 (plan.segmentCount + 1) }
  else plan

@[simp] theorem phdrField_final (index field width : Nat) (plan : M11ProcessImagePlan) :
    (phdrField image index field width).final plan = plan := (rfl)

theorem planSegment_final (index : Nat) (plan : M11ProcessImagePlan) :
    (planSegment image imageSize index).final plan =
      if segmentStatus image imageSize index = none then countSegment image index plan
      else plan := by
  unfold planSegment
  simp only [phdrField_result, phdrField_final, final_bind, final_pure, final_emit, final_get,
    final_ite]
  change (if pType image index ≠ m11PtLoad then plan
    else if pMemsz image index < pFilesz image index then plan
    else if wrap64 (pOffset image index + pFilesz image index) > imageSize then plan
    else if pAlign image index = 0 then plan
    else if pAlign image index &&& (pAlign image index - 1) ≠ 0 then plan
    else if pVaddr image index < 0x400000 then plan
    else { plan with segmentCount := wrap32 (plan.segmentCount + 1) }) = _
  unfold segmentStatus countSegment
  split_ifs <;> simp_all

/-- Fewer than `2 ^ 32` headers do not wrap the count. -/
theorem foldl_countSegment (indices : List Nat) {plan : M11ProcessImagePlan}
    (small : plan.segmentCount + indices.length < 2 ^ 32) :
    indices.foldl (fun plan index => countSegment image index plan) plan =
      { plan with segmentCount :=
        plan.segmentCount + indices.countP fun index => pType image index = m11PtLoad } := by
  induction indices generalizing plan with
  | nil => rfl
  | cons index rest inductionHypothesis =>
      rw [List.length_cons] at small
      rw [List.foldl_cons, List.countP_cons]
      by_cases load : pType image index = m11PtLoad
      · have next : countSegment image index plan =
            { plan with segmentCount := plan.segmentCount + 1 } := by
          rw [countSegment, if_pos load, wrap32, Nat.mod_eq_of_lt (by omega)]
        rw [next, inductionHypothesis (by simp only; omega)]
        simp only [load, decide_true, if_true, Nat.add_assoc, Nat.add_comm 1]
      · have next : countSegment image index plan = plan := if_neg load
        rw [next, inductionHypothesis (by omega)]
        simp [load]

theorem ePhnum_lt : ePhnum image < 2 ^ 16 := readLE_lt _ 22 2

/-- The loop counts the loadable segments up to the first rejected header. -/
theorem scanLoop_planSegment_final (entry : Nat) :
    (scanLoop 0 (ePhnum image) (planSegment image imageSize)).final ⟨entry, 0⟩ =
      ⟨entry, segmentsTaken image imageSize⟩ := by
  have taken : (List.range' 0 (ePhnum image)).takeWhile
      (fun index => (segmentStatus image imageSize index).isNone) =
        headersTaken image imageSize := by
    rw [← List.range_eq_range', headersTaken]
    congr 1
    funext index
    rw [Bool.eq_iff_iff, Option.isNone_iff_eq_none, segmentStatus_eq_none_iff, decide_eq_true_iff]
  have short : (headersTaken image imageSize).length < 2 ^ 16 := by
    have prefixed := (List.takeWhile_prefix (l := List.range (ePhnum image))
      fun index => decide ¬ SegmentRejected image imageSize index).length_le
    rw [List.length_range] at prefixed
    exact Nat.lt_of_le_of_lt prefixed (ePhnum_lt image)
  rw [scanLoop_final (planSegment_result image imageSize) (countSegment image), taken,
    foldl_countSegment]
  · rw [Nat.zero_add]
    rfl
  · simp only
    omega
  · intro index s none
    rw [planSegment_final, if_pos none]
  · intro index s stops
    rw [planSegment_final, if_neg stops]

theorem m11Elf64PlanLoad_final (plan : M11ProcessImagePlan) :
    (m11Elf64PlanLoad image imageSize).final plan =
      if headerStatus image imageSize = none then
        ⟨eEntry image, segmentsTaken image imageSize⟩
      else plan := by
  have loop := scanLoop_planSegment_final image imageSize (eEntry image)
  unfold m11Elf64PlanLoad
  simp only [ehdrField, final_bind, final_pure, final_emit, result_bind, result_pure, final_ite]
  change (if imageSize < ehdrSize then plan
    else if eIdentMagic image ≠ m11ElfMagic then plan
    else if eMachine image ≠ m11ElfMachineX86_64 then plan
    else if eEntry image < 0x400000 then plan
    else if wrap64 (ePhoff image + ePhnum image * phdrSize) > imageSize then plan
    else (scanLoop 0 (ePhnum image) (planSegment image imageSize)).final ⟨eEntry image, 0⟩) = _
  rw [loop, headerStatus]
  split_ifs <;> simp_all

section

variable {image imageSize}

/-- Past the header checks the plan has the entry, and counts the segments
before the first rejected header. -/
theorem HeaderAccepted.final (accepted : HeaderAccepted image imageSize)
    (plan : M11ProcessImagePlan) :
    (m11Elf64PlanLoad image imageSize).final plan =
      ⟨eEntry image, segmentsTaken image imageSize⟩ := by
  rw [m11Elf64PlanLoad_final, if_pos ((headerStatus_eq_none_iff image imageSize).mpr accepted)]

/-- A header that is refused leaves the plan as it was. -/
theorem final_of_not_accepted (refused : ¬ HeaderAccepted image imageSize)
    (plan : M11ProcessImagePlan) : (m11Elf64PlanLoad image imageSize).final plan = plan := by
  rw [m11Elf64PlanLoad_final, if_neg (mt (headerStatus_eq_none_iff image imageSize).mp refused)]

end

/-! ### A plan that is left alone -/

/-- An image that is not accepted leaves the plan as it was exactly when a check
of the header refuses it, when no program header is rejected, or when the plan
already has the entry and the count the loop has come to. -/
theorem m11Elf64PlanLoad_keeps_plan_iff (plan : M11ProcessImagePlan) :
    ((m11Elf64PlanLoad image imageSize).result plan ≠ .ok →
        (m11Elf64PlanLoad image imageSize).final plan = plan) ↔
      ¬ HeaderAccepted image imageSize ∨
        (∀ index < ePhnum image, ¬ SegmentRejected image imageSize index) ∨
        plan = ⟨eEntry image, segmentsTaken image imageSize⟩ := by
  rw [ne_eq, m11Elf64PlanLoad_ok_iff]
  by_cases accepted : HeaderAccepted image imageSize
  · rw [accepted.final]
    by_cases none : ∀ index < ePhnum image, ¬ SegmentRejected image imageSize index
    · exact ⟨fun _ => Or.inr (Or.inl none), fun _ stops => absurd ⟨accepted, none⟩ stops⟩
    · constructor
      · intro kept
        exact Or.inr (Or.inr (kept fun ok => none ok.2).symm)
      · rintro (refused | all | same)
        · exact absurd accepted refused
        · exact absurd all none
        · exact fun _ => same.symm
  · exact ⟨fun _ => Or.inl accepted, fun _ _ => final_of_not_accepted accepted plan⟩

end

/-- One loadable segment at an address below the user range. -/
def lowSegmentBytes : List UInt8 := oneSegmentBytes.set 38 0x00

/-- The error is that of the segment, and the plan has the entry of the image. -/
theorem lowSegment_writes_plan :
    (m11Elf64PlanLoad (imageOf lowSegmentBytes) 68).final ⟨0, 7⟩ = ⟨0x401000, 0⟩ ∧
      ¬ ((m11Elf64PlanLoad (imageOf lowSegmentBytes) 68).result ⟨0, 7⟩ ≠ .ok →
        (m11Elf64PlanLoad (imageOf lowSegmentBytes) 68).final ⟨0, 7⟩ = ⟨0, 7⟩) := by
  decide +kernel

end Mcsos.Elf
