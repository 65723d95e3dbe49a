import Mcsos.Machine.Bytes
import Mcsos.Machine.Trace
import Mcsos.Machine.Word

/-!
The ELF load planner: `kernel/user/m11_elf_loader.c` over `m11_elf_loader.h`.

`image` is the memory around the image pointer as a function of the 64-bit
offset from it: offsets below `image_size` are the image, the others are
whatever memory holds there. Reads past the image are thus recorded with the
offset they have, and what they return is arbitrary. The null tests of the
source have no counterpart, since image and plan are values here.
-/

namespace Mcsos.Elf

open Mcsos.Machine
open Mcsos.Machine.Prog

def m11ElfMagic : Nat := 0x464c457f
def m11ElfMachineX86_64 : Nat := 62
def m11PtLoad : Nat := 1

inductive M11Status where
  | ok
  | errMagic
  | errMachine
  | errEntry
  | errSegbounds
  | errAlign
  | errSegrange
deriving DecidableEq, Repr

/-- `sizeof(struct m11_elf64_ehdr)`, packed. -/
def ehdrSize : Nat := 24

/-- `sizeof(struct m11_elf64_phdr)`, packed. -/
def phdrSize : Nat := 44

/-- `struct m11_process_image_plan`. -/
structure M11ProcessImagePlan where
  entryVirtualAddress : Nat
  segmentCount : Nat
deriving DecidableEq, Repr

/-- The accesses of the planner: fields of the file header, fields of program
header `index`, each with its offset from the image pointer and its width, and
stores to the plan. -/
inductive ElfAccess where
  | ehdrLoad (offset width : Nat)
  | phdrLoad (index offset width : Nat)
  | storeEntryVirtualAddress (value : Nat)
  | storeSegmentCount (value : Nat)
deriving DecidableEq, Repr

def ElfAccess.apply : ElfAccess → M11ProcessImagePlan → M11ProcessImagePlan
  | .ehdrLoad _ _, plan => plan
  | .phdrLoad _ _ _, plan => plan
  | .storeEntryVirtualAddress value, plan => { plan with entryVirtualAddress := value }
  | .storeSegmentCount value, plan => { plan with segmentCount := value }

instance : Event ElfAccess M11ProcessImagePlan := ⟨ElfAccess.apply⟩

abbrev ElfProg := Prog ElfAccess M11ProcessImagePlan

/-! ### Fields -/

/-- A little-endian field at an offset from the image pointer; addresses are
64-bit words. -/
def fieldAt (image : Nat → UInt8) (offset width : Nat) : Nat :=
  readLE (fun address => image (wrap64 address)) offset width

def eIdentMagic (image : Nat → UInt8) : Nat := fieldAt image 0 4
def eMachine (image : Nat → UInt8) : Nat := fieldAt image 4 2
def eEntry (image : Nat → UInt8) : Nat := fieldAt image 6 8
def ePhoff (image : Nat → UInt8) : Nat := fieldAt image 14 8
def ePhnum (image : Nat → UInt8) : Nat := fieldAt image 22 2

/-- Offset of a field of program header `index`: `&phdr[index]` is computed
modulo `2 ^ 64`. -/
def phdrOffset (image : Nat → UInt8) (index field : Nat) : Nat :=
  wrap64 (ePhoff image + phdrSize * index + field)

def pType (image : Nat → UInt8) (index : Nat) : Nat := fieldAt image (phdrOffset image index 0) 4
def pOffset (image : Nat → UInt8) (index : Nat) : Nat := fieldAt image (phdrOffset image index 4) 8
def pVaddr (image : Nat → UInt8) (index : Nat) : Nat := fieldAt image (phdrOffset image index 12) 8
def pFilesz (image : Nat → UInt8) (index : Nat) : Nat := fieldAt image (phdrOffset image index 20) 8
def pMemsz (image : Nat → UInt8) (index : Nat) : Nat := fieldAt image (phdrOffset image index 28) 8
def pAlign (image : Nat → UInt8) (index : Nat) : Nat := fieldAt image (phdrOffset image index 36) 8

/-- Read a field of the file header. -/
def ehdrField (image : Nat → UInt8) (offset width : Nat) : ElfProg Nat := do
  emit (.ehdrLoad offset width)
  pure (fieldAt image offset width)

/-- Read a field of program header `index`. -/
def phdrField (image : Nat → UInt8) (index field width : Nat) : ElfProg Nat := do
  emit (.phdrLoad index (phdrOffset image index field) width)
  pure (fieldAt image (phdrOffset image index field) width)

/-! ### The planner -/

/-- One iteration over the program headers; `some` status is returned at once. -/
def planSegment (image : Nat → UInt8) (imageSize index : Nat) : ElfProg (Option M11Status) := do
  let type ← phdrField image index 0 4
  if type ≠ m11PtLoad then
    pure none
  else
    let memsz ← phdrField image index 28 8
    let filesz ← phdrField image index 20 8
    if memsz < filesz then
      pure (some .errSegbounds)
    else
      let offset ← phdrField image index 4 8
      if wrap64 (offset + filesz) > imageSize then
        pure (some .errSegbounds)
      else
        let align ← phdrField image index 36 8
        if align = 0 then
          pure (some .errAlign)
        else if align &&& (align - 1) ≠ 0 then
          pure (some .errAlign)
        else
          let vaddr ← phdrField image index 12 8
          if vaddr < 0x400000 then
            pure (some .errSegrange)
          else
            let plan ← get
            emit (.storeSegmentCount (wrap32 (plan.segmentCount + 1)))
            pure none

def m11Elf64PlanLoad (image : Nat → UInt8) (imageSize : Nat) : ElfProg M11Status := do
  if imageSize < ehdrSize then
    pure .errMagic
  else
    let magic ← ehdrField image 0 4
    if magic ≠ m11ElfMagic then
      pure .errMagic
    else
      let machine ← ehdrField image 4 2
      if machine ≠ m11ElfMachineX86_64 then
        pure .errMachine
      else
        let entry ← ehdrField image 6 8
        if entry < 0x400000 then
          pure .errEntry
        else
          let phoff ← ehdrField image 14 8
          let phnum ← ehdrField image 22 2
          if wrap64 (phoff + phnum * phdrSize) > imageSize then
            pure .errSegbounds
          else
            emit (.storeEntryVirtualAddress entry)
            emit (.storeSegmentCount 0)
            let stopped ← scanLoop 0 phnum (planSegment image imageSize)
            pure (stopped.getD .ok)

end Mcsos.Elf
