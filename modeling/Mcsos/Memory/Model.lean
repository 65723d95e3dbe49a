import Mathlib.Tactic.Common

/-!
Copies of bytes: `memcpy` and `memmove` of `kernel/lib/memory.c`.

Pointers are 64-bit and wrap, the memory is the bytes at all of them. Each
function returns its destination.
-/

namespace Mcsos.Memory

/-- The byte at every address. -/
abbrev Bytes := UInt64 → UInt8

/-- `while (count-- != 0u) *d++ = *s++;` -/
def copyUpward : Nat → UInt64 → UInt64 → Bytes → Bytes
  | 0, _, _, memory => memory
  | count + 1, d, s, memory =>
      copyUpward count (d + 1) (s + 1) (Function.update memory d (memory s))

/-- `while (count-- != 0u) *--d = *--s;` -/
def copyDownward : Nat → UInt64 → UInt64 → Bytes → Bytes
  | 0, _, _, memory => memory
  | count + 1, d, s, memory =>
      let d := d - 1
      let s := s - 1
      copyDownward count d s (Function.update memory d (memory s))

def memcpy (dest src count : UInt64) (memory : Bytes) : UInt64 × Bytes :=
  (dest, copyUpward count.toNat dest src memory)

def memmove (dest src count : UInt64) (memory : Bytes) : UInt64 × Bytes :=
  if dest = src ∨ count = 0 then
    (dest, memory)
  else if dest < src then
    (dest, copyUpward count.toNat dest src memory)
  else
    let d := dest + count
    let s := src + count
    (dest, copyDownward count.toNat d s memory)

end Mcsos.Memory
