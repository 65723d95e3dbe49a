import Mcsos.Elf.Segments

/-!
The format the planner accepts, as a grammar of byte strings.

A string of bytes decodes to a file header and program headers. The format is a
list of checks, each with the code that reports its failure: those of the header
in order, then those of the loadable headers by index. The verdict is the code
of the first check that fails. Nothing here reads a memory or wraps; the theorem
at the end compares the planner with it.
-/

namespace Mcsos.Elf

open Mcsos.Machine
open Mcsos.Machine.Prog

/-! ### Decoding -/

/-- The little-endian number in `width` bytes of a string. -/
def numberAt (bytes : List UInt8) (offset width : Nat) : Nat :=
  Nat.ofDigits 256 (((bytes.drop offset).take width).map UInt8.toNat)

/-- `struct m11_elf64_ehdr`. -/
structure Ehdr where
  magic : Nat
  machine : Nat
  entry : Nat
  phoff : Nat
  phnum : Nat

/-- `struct m11_elf64_phdr`. -/
structure Phdr where
  type : Nat
  offset : Nat
  vaddr : Nat
  filesz : Nat
  memsz : Nat
  align : Nat

def decodeEhdr (bytes : List UInt8) : Ehdr where
  magic := numberAt bytes 0 4
  machine := numberAt bytes 4 2
  entry := numberAt bytes 6 8
  phoff := numberAt bytes 14 8
  phnum := numberAt bytes 22 2

def decodePhdr (bytes : List UInt8) (start : Nat) : Phdr where
  type := numberAt bytes start 4
  offset := numberAt bytes (start + 4) 8
  vaddr := numberAt bytes (start + 12) 8
  filesz := numberAt bytes (start + 20) 8
  memsz := numberAt bytes (start + 28) 8
  align := numberAt bytes (start + 36) 8

/-- The program header at an index of the table. -/
def phdrAt (bytes : List UInt8) (index : Nat) : Phdr :=
  decodePhdr bytes ((decodeEhdr bytes).phoff + 44 * index)

/-- The program headers of loadable segments, by index. -/
def loadHeaders (bytes : List UInt8) : List Phdr :=
  ((List.range (decodeEhdr bytes).phnum).map (phdrAt bytes)).filter fun header => header.type = 1

/-! ### Checks -/

/-- A requirement of the format, and the code that reports its failure. -/
structure Check where
  passed : Bool
  code : M11Status

/-- The code of the first check that fails. -/
def firstFailure (checks : List Check) : Option M11Status :=
  (checks.find? fun check => !check.passed).map Check.code

def headerChecks (bytes : List UInt8) : List Check :=
  let header := decodeEhdr bytes
  [⟨24 ≤ bytes.length, .errMagic⟩,
   ⟨header.magic = 0x464c457f, .errMagic⟩,
   ⟨header.machine = 62, .errMachine⟩,
   ⟨0x400000 ≤ header.entry, .errEntry⟩,
   ⟨header.phoff + 44 * header.phnum ≤ bytes.length, .errSegbounds⟩]

def Phdr.checks (imageSize : Nat) (header : Phdr) : List Check :=
  [⟨header.filesz ≤ header.memsz, .errSegbounds⟩,
   ⟨header.offset + header.filesz ≤ imageSize, .errSegbounds⟩,
   ⟨header.align.isPowerOfTwo, .errAlign⟩,
   ⟨0x400000 ≤ header.vaddr, .errSegrange⟩]

/-- All checks of an image, in order. -/
def imageChecks (bytes : List UInt8) : List Check :=
  headerChecks bytes ++ (loadHeaders bytes).flatMap (Phdr.checks bytes.length)

def verdict (bytes : List UInt8) : M11Status := (firstFailure (imageChecks bytes)).getD .ok

/-- The images of the format. -/
structure WellFormed (bytes : List UInt8) : Prop where
  size : 24 ≤ bytes.length
  magic : (decodeEhdr bytes).magic = 0x464c457f
  machine : (decodeEhdr bytes).machine = 62
  entry : 0x400000 ≤ (decodeEhdr bytes).entry
  table : (decodeEhdr bytes).phoff + 44 * (decodeEhdr bytes).phnum ≤ bytes.length
  segments : ∀ header ∈ loadHeaders bytes,
    header.filesz ≤ header.memsz ∧ header.offset + header.filesz ≤ bytes.length ∧
      header.align.isPowerOfTwo ∧ 0x400000 ≤ header.vaddr

theorem firstFailure_append (earlier later : List Check) :
    firstFailure (earlier ++ later) = (firstFailure earlier).or (firstFailure later) := by
  rw [firstFailure, List.find?_append, Option.map_or]
  rfl

theorem firstFailure_eq_none_iff (checks : List Check) :
    firstFailure checks = none ↔ ∀ check ∈ checks, check.passed = true := by
  simp [firstFailure]

theorem firstFailure_cons (requirement : Prop) [Decidable requirement] (code : M11Status)
    (later : List Check) :
    firstFailure (⟨requirement, code⟩ :: later) =
      if ¬ requirement then some code else firstFailure later := by
  by_cases met : requirement <;> simp [firstFailure, met]

theorem imageChecks_code_ne_ok (bytes : List UInt8) : ∀ check ∈ imageChecks bytes,
    check.code ≠ .ok := by
  intro check member
  simp only [imageChecks, headerChecks, Phdr.checks, List.mem_append, List.mem_flatMap,
    List.mem_cons, List.not_mem_nil, or_false] at member
  rcases member with (rfl | rfl | rfl | rfl | rfl) | ⟨header, -, rfl | rfl | rfl | rfl⟩ <;> simp

theorem verdict_eq_ok_iff (bytes : List UInt8) : verdict bytes = .ok ↔ WellFormed bytes := by
  have passes : verdict bytes = .ok ↔ ∀ check ∈ imageChecks bytes, check.passed = true := by
    rw [← firstFailure_eq_none_iff]
    constructor
    · intro ok
      by_contra failed
      obtain ⟨code, found⟩ := Option.ne_none_iff_exists'.mp failed
      obtain ⟨check, first, rfl⟩ := Option.map_eq_some_iff.mp found
      rw [verdict, found] at ok
      exact imageChecks_code_ne_ok bytes check (List.mem_of_find?_eq_some first) ok
    · intro none
      rw [verdict, none]
      rfl
  rw [passes]
  simp only [imageChecks, headerChecks, Phdr.checks, List.forall_mem_append, List.forall_mem_cons,
    List.forall_mem_flatMap, List.not_mem_nil, false_imp_iff, implies_true, and_true,
    decide_eq_true_eq]
  constructor
  · rintro ⟨⟨size, magic, machine, entry, table⟩, segments⟩
    exact ⟨size, magic, machine, entry, table, segments⟩
  · rintro ⟨size, magic, machine, entry, table, segments⟩
    exact ⟨⟨size, magic, machine, entry, table⟩, segments⟩

/-! ### The planner reads the decoded fields -/

/-- The memory at the image pointer begins with the bytes. -/
def Holds (image : Nat → UInt8) (bytes : List UInt8) : Prop :=
  ∀ position (inside : position < bytes.length), image position = bytes[position]

section

variable {image : Nat → UInt8} {bytes : List UInt8} (holds : Holds image bytes)
  (small : bytes.length < 2 ^ 64)

include holds small

theorem fieldAt_eq_numberAt {offset width : Nat} (fits : offset + width ≤ bytes.length) :
    fieldAt image offset width = numberAt bytes offset width := by
  have unwrapped : ∀ position (inside : position < bytes.length),
      image (wrap64 position) = bytes[position] := by
    intro position inside
    rw [wrap64_of_lt (by omega)]
    exact holds position inside
  rw [fieldAt, readLE_eq_ofDigits, readRange_eq_take_drop unwrapped fits]
  rfl

theorem ehdr_decoded (size : 24 ≤ bytes.length) :
    eIdentMagic image = (decodeEhdr bytes).magic ∧ eMachine image = (decodeEhdr bytes).machine ∧
      eEntry image = (decodeEhdr bytes).entry ∧ ePhoff image = (decodeEhdr bytes).phoff ∧
      ePhnum image = (decodeEhdr bytes).phnum := by
  refine ⟨?_, ?_, ?_, ?_, ?_⟩ <;> exact fieldAt_eq_numberAt holds small (by omega)

theorem headerStatus_eq_firstFailure
    (noWrap : 24 ≤ bytes.length →
      (decodeEhdr bytes).phoff + 44 * (decodeEhdr bytes).phnum < 2 ^ 64) :
    headerStatus image bytes.length = firstFailure (headerChecks bytes) := by
  simp only [headerChecks, firstFailure_cons, Nat.not_le]
  by_cases size : 24 ≤ bytes.length
  · obtain ⟨magic, machine, entry, phoff, phnum⟩ := ehdr_decoded holds small size
    have sum : wrap64 ((decodeEhdr bytes).phoff + (decodeEhdr bytes).phnum * phdrSize) =
        (decodeEhdr bytes).phoff + 44 * (decodeEhdr bytes).phnum := by
      rw [phdrSize, Nat.mul_comm, wrap64_of_lt (noWrap size)]
    simp only [headerStatus, magic, machine, entry, phoff, phnum, sum]
    rfl
  · have short := Nat.not_le.mp size
    rw [if_pos short]
    exact if_pos short

/-- The fields of a program header that lies in the image. -/
theorem phdr_decoded (size : 24 ≤ bytes.length)
    (table : (decodeEhdr bytes).phoff + 44 * (decodeEhdr bytes).phnum ≤ bytes.length)
    {index : Nat} (below : index < (decodeEhdr bytes).phnum) :
    pType image index = (phdrAt bytes index).type ∧
      pOffset image index = (phdrAt bytes index).offset ∧
      pVaddr image index = (phdrAt bytes index).vaddr ∧
      pFilesz image index = (phdrAt bytes index).filesz ∧
      pMemsz image index = (phdrAt bytes index).memsz ∧
      pAlign image index = (phdrAt bytes index).align := by
  obtain ⟨-, -, -, phoff, -⟩ := ehdr_decoded holds small size
  have field : ∀ offset width, offset + width ≤ 44 →
      fieldAt image (phdrOffset image index offset) width =
        numberAt bytes ((decodeEhdr bytes).phoff + 44 * index + offset) width := by
    intro offset width fits
    rw [phdrOffset, phoff, phdrSize, wrap64_of_lt (by omega)]
    exact fieldAt_eq_numberAt holds small (by omega)
  exact ⟨field 0 4 (by decide), field 4 8 (by decide), field 12 8 (by decide),
    field 20 8 (by decide), field 28 8 (by decide), field 36 8 (by decide)⟩

omit holds small in
/-- The two tests of an alignment are one. -/
theorem alignment_test (align : Nat) (next : Option M11Status) :
    (if align = 0 then some M11Status.errAlign
      else if align &&& (align - 1) ≠ 0 then some M11Status.errAlign else next) =
      if ¬ align.isPowerOfTwo then some M11Status.errAlign else next := by
  have aligned := @Nat.ne_zero_and_sub_one_eq_zero_iff_isPowerOfTwo align
  by_cases zero : align = 0
  · have notPower : ¬ align.isPowerOfTwo := fun power => (aligned.mpr power).1 zero
    rw [if_pos zero, if_pos notPower]
  · have power : align &&& (align - 1) ≠ 0 ↔ ¬ align.isPowerOfTwo := by
      rw [← aligned]
      simp [zero]
    rw [if_neg zero]
    exact if_congr power rfl rfl

/-- A header of another type is passed over; a loadable one is checked in
order. -/
theorem segmentStatus_eq_firstFailure (size : 24 ≤ bytes.length)
    (table : (decodeEhdr bytes).phoff + 44 * (decodeEhdr bytes).phnum ≤ bytes.length)
    {index : Nat} (below : index < (decodeEhdr bytes).phnum)
    (noWrap : (phdrAt bytes index).type = 1 →
      (phdrAt bytes index).offset + (phdrAt bytes index).filesz < 2 ^ 64) :
    segmentStatus image bytes.length index =
      if (phdrAt bytes index).type = 1 then
        firstFailure ((phdrAt bytes index).checks bytes.length)
      else none := by
  obtain ⟨type, offset, vaddr, filesz, memsz, align⟩ := phdr_decoded holds small size table below
  by_cases load : (phdrAt bytes index).type = 1
  · have isLoad : ¬ pType image index ≠ m11PtLoad := not_not.mpr (type.trans load)
    rw [if_pos load, segmentStatus, if_neg isLoad, alignment_test]
    simp only [offset, vaddr, filesz, memsz, align, wrap64_of_lt (noWrap load), Phdr.checks,
      firstFailure_cons, Nat.not_le]
    rfl
  · rw [if_neg load]
    exact if_pos (fun same => load (type.symm.trans same))

/-- The headers in order, each with its checks in order. -/
theorem tableStatus_eq_firstFailure (size : 24 ≤ bytes.length)
    (table : (decodeEhdr bytes).phoff + 44 * (decodeEhdr bytes).phnum ≤ bytes.length)
    (noWrap : ∀ header ∈ loadHeaders bytes, header.offset + header.filesz < 2 ^ 64) :
    tableStatus image bytes.length =
      firstFailure ((loadHeaders bytes).flatMap (Phdr.checks bytes.length)) := by
  obtain ⟨-, -, -, -, phnum⟩ := ehdr_decoded holds small size
  have each : ∀ index ∈ List.range (decodeEhdr bytes).phnum,
      segmentStatus image bytes.length index =
        if (phdrAt bytes index).type = 1 then
          firstFailure ((phdrAt bytes index).checks bytes.length)
        else none := by
    intro index member
    have below := List.mem_range.mp member
    apply segmentStatus_eq_firstFailure holds small size table below
    intro load
    apply noWrap
    rw [loadHeaders, List.mem_filter]
    exact ⟨List.mem_map_of_mem member, decide_eq_true load⟩
  rw [tableStatus, phnum, loadHeaders]
  -- header by header: one of another type adds nothing to either side
  generalize List.range (decodeEhdr bytes).phnum = indices at each ⊢
  induction indices with
  | nil => rfl
  | cons index rest inductionHypothesis =>
      have later := inductionHypothesis fun other member =>
        each other (List.mem_cons_of_mem _ member)
      rw [List.findSome?_cons, each index List.mem_cons_self, later, List.map_cons,
        List.filter_cons]
      by_cases load : (phdrAt bytes index).type = 1
      · rw [if_pos load, if_pos (decide_eq_true load), List.flatMap_cons, firstFailure_append]
        cases firstFailure ((phdrAt bytes index).checks bytes.length) <;> rfl
      · rw [if_neg load, if_neg (by simpa using load)]

theorem countP_eq_length_loadHeaders (size : 24 ≤ bytes.length)
    (table : (decodeEhdr bytes).phoff + 44 * (decodeEhdr bytes).phnum ≤ bytes.length) :
    ((List.range (ePhnum image)).countP fun index => pType image index = m11PtLoad) =
      (loadHeaders bytes).length := by
  obtain ⟨-, -, -, -, phnum⟩ := ehdr_decoded holds small size
  rw [phnum, loadHeaders, List.filter_map, List.length_map, ← List.countP_eq_length_filter]
  apply List.countP_congr
  intro index member
  obtain ⟨type, -⟩ := phdr_decoded holds small size table (List.mem_range.mp member)
  rw [type]
  rfl

/-- The planner returns the verdict on the bytes, whatever follows them in
memory: it accepts the images of the format, and plans their entry and their
loadable segments. The sums it compares with the size are to be below
`2 ^ 64`. -/
theorem m11Elf64PlanLoad_eq_verdict
    (tableEnd : 24 ≤ bytes.length →
      (decodeEhdr bytes).phoff + 44 * (decodeEhdr bytes).phnum < 2 ^ 64)
    (segmentEnd : (decodeEhdr bytes).phoff + 44 * (decodeEhdr bytes).phnum ≤ bytes.length →
      ∀ header ∈ loadHeaders bytes, header.offset + header.filesz < 2 ^ 64)
    (plan : M11ProcessImagePlan) :
    (m11Elf64PlanLoad image bytes.length).result plan = verdict bytes ∧
      ((m11Elf64PlanLoad image bytes.length).result plan = .ok ↔ WellFormed bytes) ∧
      ((m11Elf64PlanLoad image bytes.length).result plan = .ok →
        (m11Elf64PlanLoad image bytes.length).final plan =
          ⟨(decodeEhdr bytes).entry, (loadHeaders bytes).length⟩) := by
  have header := headerStatus_eq_firstFailure holds small tableEnd
  have returned : (m11Elf64PlanLoad image bytes.length).result plan = verdict bytes := by
    rw [m11Elf64PlanLoad_result, verdict, imageChecks, firstFailure_append, header]
    cases failed : firstFailure (headerChecks bytes) with
    | some code => rfl
    | none =>
        have passed := (firstFailure_eq_none_iff _).mp failed
        have size : 24 ≤ bytes.length := by
          simpa using passed ⟨24 ≤ bytes.length, .errMagic⟩ (by simp [headerChecks])
        have table : (decodeEhdr bytes).phoff + 44 * (decodeEhdr bytes).phnum ≤ bytes.length := by
          simpa using passed ⟨(decodeEhdr bytes).phoff + 44 * (decodeEhdr bytes).phnum ≤
            bytes.length, .errSegbounds⟩ (by simp [headerChecks])
        rw [tableStatus_eq_firstFailure holds small size table (segmentEnd table)]
  have accepts := verdict_eq_ok_iff bytes
  rw [← returned] at accepts
  refine ⟨returned, accepts, ?_⟩
  intro ok
  obtain ⟨size, -, -, -, table, -⟩ := accepts.mp ok
  obtain ⟨accepted, none⟩ := (m11Elf64PlanLoad_ok_iff image bytes.length plan).mp ok
  obtain ⟨-, -, entry, -, -⟩ := ehdr_decoded holds small size
  rw [accepted.final, segmentsTaken_of_none image bytes.length none,
    countP_eq_length_loadHeaders holds small size table, entry]

end

theorem m11Elf64PlanLoad_eq_verdict_oneSegment :
    verdict oneSegmentBytes = .ok ∧
      (m11Elf64PlanLoad (imageOf oneSegmentBytes) 68).final ⟨0, 0⟩ = ⟨0x401000, 1⟩ := by
  have holds : Holds (imageOf oneSegmentBytes) oneSegmentBytes := by
    intro position inside
    simp [imageOf, inside]
  obtain ⟨returned, -, planned⟩ := m11Elf64PlanLoad_eq_verdict holds (by decide)
    (by decide +kernel) (by decide +kernel) ⟨0, 0⟩
  have ok : verdict oneSegmentBytes = .ok := by decide +kernel
  exact ⟨ok, planned (returned.trans ok)⟩

end Mcsos.Elf
