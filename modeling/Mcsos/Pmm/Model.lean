import Mcsos.Machine.BitArray
import Mcsos.Machine.Trace
import Mcsos.Machine.Word

/-!
The physical memory manager: `kernel/core/pmm.c` over `pmm.h`. One bit per
frame in storage the caller provides, set for a frame in use; two counters
kept beside it.

`bitmap` is the content of the storage behind `pmm->bitmap`, as a function of
the byte index, so storage that is too short shows as an access past its end
and not as a different behaviour. The pointer itself, which
`pmm_zero_state` clears and `pmm_init_from_map` sets to the storage, carries
no further information.
-/

namespace Mcsos.Pmm

open Mcsos.Machine

def pmmPageSize : Nat := 4096
def pmmInvalidFrame : Nat := 0xffffffffffffffff
def pmmRegionUsable : Nat := 1
def pmmRegionReserved : Nat := 2

theorem pmmRegionUsable_lt : pmmRegionUsable < 2 ^ 32 := by decide

theorem pmmRegionReserved_lt : pmmRegionReserved < 2 ^ 32 := by decide

/-- `struct boot_mem_region`, with the ranges of its fixed-width fields. -/
structure BootMemRegion where
  base : Nat
  length : Nat
  type : Nat
  base_lt : base < 2 ^ 64 := by decide
  length_lt : length < 2 ^ 64 := by decide
  type_lt : type < 2 ^ 32 := by decide

/-- `struct pmm_state`, together with the bytes its bitmap pointer reaches. -/
structure PmmState where
  bitmap : Nat → UInt8
  frameCount : Nat
  freeFrames : Nat
  usedFrames : Nat
  nextHint : Nat
  initialized : Bool

/-- The accesses of the manager: bytes of the bitmap by index, and stores to
the fields of the state. -/
inductive PmmAccess where
  | loadByte (index : Nat)
  | storeByte (index : Nat) (value : UInt8)
  | storeFrameCount (value : Nat)
  | storeFreeFrames (value : Nat)
  | storeUsedFrames (value : Nat)
  | storeNextHint (value : Nat)
  | storeInitialized (value : Bool)

def PmmAccess.apply : PmmAccess → PmmState → PmmState
  | .loadByte _, pmm => pmm
  | .storeByte index value, pmm => { pmm with bitmap := Function.update pmm.bitmap index value }
  | .storeFrameCount value, pmm => { pmm with frameCount := value }
  | .storeFreeFrames value, pmm => { pmm with freeFrames := value }
  | .storeUsedFrames value, pmm => { pmm with usedFrames := value }
  | .storeNextHint value, pmm => { pmm with nextHint := value }
  | .storeInitialized value, pmm => { pmm with initialized := value }

instance : Event PmmAccess PmmState := ⟨PmmAccess.apply⟩

abbrev PmmProg := Prog PmmAccess PmmState

open Prog

/-! ### Bits -/

def bitmapSet (bit : Nat) : PmmProg Unit := do
  emit (.loadByte (bit / 8))
  let pmm ← get
  emit (.storeByte (bit / 8) (pmm.bitmap (bit / 8) ||| bitMask bit))

def bitmapClear (bit : Nat) : PmmProg Unit := do
  emit (.loadByte (bit / 8))
  let pmm ← get
  emit (.storeByte (bit / 8) (pmm.bitmap (bit / 8) &&& ~~~bitMask bit))

def bitmapTest (bit : Nat) : PmmProg Bool := do
  emit (.loadByte (bit / 8))
  let pmm ← get
  pure (pmm.bitmap (bit / 8) &&& bitMask bit != 0)

/-- `free_frames--; used_frames++`. -/
def countTaken : PmmProg Unit := do
  let pmm ← get
  emit (.storeFreeFrames (sub64 pmm.freeFrames 1))
  emit (.storeUsedFrames (wrap64 (pmm.usedFrames + 1)))

/-- `free_frames++; used_frames--`. -/
def countReleased : PmmProg Unit := do
  let pmm ← get
  emit (.storeFreeFrames (wrap64 (pmm.freeFrames + 1)))
  emit (.storeUsedFrames (sub64 pmm.usedFrames 1))

/-! ### Initialisation -/

def pmmZeroState : PmmProg Unit := do
  emit (.storeFrameCount 0)
  emit (.storeFreeFrames 0)
  emit (.storeUsedFrames 0)
  emit (.storeNextHint 0)
  emit (.storeInitialized false)

/-- One frame of a usable region; `some` leaves the region's loop. -/
def releaseRegionFrame (start index : Nat) : PmmProg (Option Unit) := do
  let frame := wrap64 (start + index)
  let pmm ← get
  if frame ≥ pmm.frameCount then
    pure (some ())
  else
    let taken ← bitmapTest frame
    if taken then
      bitmapClear frame
      countReleased
      pure none
    else
      pure none

def releaseRegion (region : BootMemRegion) : PmmProg Unit := do
  let start := region.base / pmmPageSize
  let count := region.length / pmmPageSize
  let _ ← scanLoop 0 count (releaseRegionFrame start)
  pure ()

/-- The loop over the map; regions of another type are skipped. -/
def releaseRegions : List BootMemRegion → PmmProg Unit
  | [] => pure ()
  | region :: rest => do
      if region.type ≠ pmmRegionUsable then
        releaseRegions rest
      else
        releaseRegion region
        releaseRegions rest

/-- `pmm_init_from_map`; the size of the storage is an argument the source
does not read. -/
def pmmInitFromMap (regions : List BootMemRegion) (_bitmapSize maxPhysBytes : Nat) :
    PmmProg Bool := do
  pmmZeroState
  emit (.storeFrameCount (maxPhysBytes / pmmPageSize))
  forLoop 0 (maxPhysBytes / pmmPageSize / 8) (fun index => emit (.storeByte index 0xFF))
  emit (.storeUsedFrames (maxPhysBytes / pmmPageSize))
  emit (.storeFreeFrames 0)
  releaseRegions regions
  bitmapSet 0
  countTaken
  emit (.storeInitialized true)
  pure true

/-! ### Operations -/

/-- One probe of the allocator; `some` is the address it returns. -/
def allocProbe (index : Nat) : PmmProg (Option Nat) := do
  let taken ← bitmapTest index
  if !taken then
    bitmapSet index
    countTaken
    pure (some (wrap64 (index * pmmPageSize)))
  else
    pure none

def pmmAllocFrame : PmmProg Nat := do
  let pmm ← get
  let found ← scanLoop 0 pmm.frameCount allocProbe
  match found with
  | some phys => pure phys
  | none => pure pmmInvalidFrame

def pmmFreeFrame (phys : Nat) : PmmProg Bool := do
  let pmm ← get
  if phys &&& (pmmPageSize - 1) ≠ 0 then
    pure false
  else
    let frame := phys / pmmPageSize
    if frame ≥ pmm.frameCount then
      pure false
    else
      let taken ← bitmapTest frame
      if !taken then
        pure false
      else
        bitmapClear frame
        countReleased
        pure true

/-- One frame of a reserved range; `some` leaves the loop. -/
def reserveFrame (start index : Nat) : PmmProg (Option Unit) := do
  let frame := wrap64 (start + index)
  let pmm ← get
  if frame ≥ pmm.frameCount then
    pure (some ())
  else
    let taken ← bitmapTest frame
    if !taken then
      bitmapSet frame
      countTaken
      pure none
    else
      pure none

def pmmReserveRange (base length : Nat) : PmmProg Bool := do
  let start := base / pmmPageSize
  let count := length / pmmPageSize
  let _ ← scanLoop 0 count (reserveFrame start)
  pure true

def pmmIsFrameFree (phys : Nat) : PmmProg Bool := do
  let frame := phys / pmmPageSize
  let pmm ← get
  if frame ≥ pmm.frameCount then
    pure false
  else
    let taken ← bitmapTest frame
    pure !taken

end Mcsos.Pmm
