import Mathlib.Tactic.Common

/-!
The page mappings of the kernel: `kernel/core/vmm.c` over `kernel/vmm.h`.

There is one table, `g_mappings`, and every address space goes through it: the
functions take a `struct vmm_space *` and drop it. `tables` and `table_count`,
which `vmm_map_page` drops as well, have no counterpart. An unused entry keeps
the numbers of the mapping it held.
-/

namespace Mcsos.Vmm

def vmmPresent : UInt64 := 1

/-- The length of `g_mappings`. -/
def mappingCount : Nat := 256

/-- `vmm_mapping_t`. -/
structure VmmMapping where
  virt : UInt64
  phys : UInt64
  flags : UInt64
  used : Bool
deriving DecidableEq, Repr

/-- `g_mappings`. -/
abbrev Mappings := Nat → VmmMapping

/-- The table before the first call; it is static, so its memory is zero. -/
def noMappings : Mappings := fun _ => ⟨0, 0, 0, false⟩

/-- The address of a `struct vmm_space`. -/
abbrev Space := UInt64

/-- What `vmm_query_page` stores through its two pointers. -/
structure Page where
  phys : UInt64
  flags : UInt64
deriving DecidableEq, Repr

def VmmMapping.page (mapping : VmmMapping) : Page := ⟨mapping.phys, mapping.flags⟩

def vmmIsCanonical (virt : UInt64) : Bool :=
  let upper := virt >>> 48
  upper == 0 || upper == 0xFFFF

/-- The loop of `vmm_map_page`: the first entry that is not used. -/
def freeEntry (mappings : Mappings) : Option Nat :=
  (List.range mappingCount).find? fun i => !(mappings i).used

/-- The loop of `vmm_query_page` and `vmm_unmap_page`: the first used entry for
the page. -/
def entryOf (mappings : Mappings) (virt : UInt64) : Option Nat :=
  (List.range mappingCount).find? fun i => (mappings i).used && (mappings i).virt == virt

def vmmMapPage (_space : Space) (virt phys flags : UInt64) (mappings : Mappings) :
    Bool × Mappings :=
  if !vmmIsCanonical virt then
    (false, mappings)
  else if virt &&& 0xFFF ≠ 0 then
    (false, mappings)
  else if phys &&& 0xFFF ≠ 0 then
    (false, mappings)
  else
    match freeEntry mappings with
    | some i => (true, Function.update mappings i ⟨virt, phys, flags ||| vmmPresent, true⟩)
    | none => (false, mappings)

/-- `vmm_query_page`: true with what it stores, or false. -/
def vmmQueryPage (_space : Space) (virt : UInt64) (mappings : Mappings) : Option Page :=
  (entryOf mappings virt).map fun i => (mappings i).page

def vmmUnmapPage (_space : Space) (virt : UInt64) (mappings : Mappings) : Bool × Mappings :=
  match entryOf mappings virt with
  | some i => (true, Function.update mappings i { mappings i with used := false })
  | none => (false, mappings)

end Mcsos.Vmm
