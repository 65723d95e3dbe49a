import Mcsos.Machine.CString
import Mcsos.Memory.Model

/-!
The string comparisons as they walk through memory: `m13_strcmp` of
`kernel/fs/m13_ramfs.c`, `m15_strcmp` of `kernel/fs/m15_mcsfs1.c` and
`m15_streq` of `fs/mcsfs1/mcsfs1.c`.

Two of them step both pointers, the third one steps an index. Every read of a
character is recorded, with the argument it goes through.
-/

namespace Mcsos.Strings

open Mcsos.Machine
open Mcsos.Machine.Prog
open Mcsos.Memory (Bytes)

/-- A read through the first argument, or through the second one. -/
inductive CharLoad where
  | ofA (address : UInt64)
  | ofB (address : UInt64)
deriving DecidableEq, Repr

instance : Event CharLoad Bytes := ⟨fun _ memory => memory⟩

abbrev CharProg := Prog CharLoad Bytes

def loadA (address : UInt64) : CharProg UInt8 := do
  emit (.ofA address)
  let memory ← get
  pure (memory address)

def loadB (address : UInt64) : CharProg UInt8 := do
  emit (.ofB address)
  let memory ← get
  pure (memory address)

/-- `*a && *b`. -/
def bothChars (a b : UInt64) : CharProg Bool := do
  let left ← loadA a
  if left = 0 then
    pure false
  else
    let right ← loadB b
    pure (right != 0)

/-- `(int)(*a - *b)`. -/
def difference (a b : UInt64) : CharProg Int := do
  let left ← loadA a
  let right ← loadB b
  pure (charDifference left right)

/-- In so many rounds a pointer passes every address. -/
def walkRounds : Nat := 2 ^ 64

/-! ### Pointer walks -/

/-- The loop of `m13_strcmp` and `m15_strcmp`. There is no answer where it does
not end. -/
def strcmpLoop : Nat → UInt64 → UInt64 → CharProg (Option Int)
  | 0, _, _ => pure none
  | rounds + 1, a, b => do
      let both ← bothChars a b
      if both then
        let left ← loadA a
        let right ← loadB b
        if left ≠ right then
          let value ← difference a b
          pure (some value)
        else
          strcmpLoop rounds (a + 1) (b + 1)
      else
        let value ← difference a b
        pure (some value)

def m13Strcmp (a b : UInt64) : CharProg (Option Int) := strcmpLoop walkRounds a b

def m15Strcmp (a b : UInt64) : CharProg (Option Int) := strcmpLoop walkRounds a b

/-! ### Index walk -/

/-- The loop of `m15_streq`. -/
def streqLoop (a b : UInt64) : Nat → UInt64 → CharProg (Option Int)
  | 0, _ => pure none
  | rounds + 1, i => do
      let both ← bothChars (a + i) (b + i)
      if both then
        let left ← loadA (a + i)
        let right ← loadB (b + i)
        if left ≠ right then
          pure (some 0)
        else
          streqLoop a b rounds (i + 1)
      else
        let left ← loadA (a + i)
        let right ← loadB (b + i)
        pure (some (if left = right then 1 else 0))

def m15Streq (a b : UInt64) : CharProg (Option Int) := streqLoop a b walkRounds 0

end Mcsos.Strings
