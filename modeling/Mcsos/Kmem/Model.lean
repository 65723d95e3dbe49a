import Mcsos.Machine.Bytes
import Mcsos.Machine.Trace
import Mcsos.Machine.Word

/-!
The kernel heap: `kernel/mm/kmem.c`.

The list of blocks lives in the memory it manages. A `kmem_block_t` is 24
bytes on x86_64: `size` in the first eight, `free` in the byte after them,
`next` in the last eight. Pointers are addresses, the null pointer is 0, and
pointer arithmetic is in 64 bits.
-/

namespace Mcsos.Kmem

open Mcsos.Machine
open Mcsos.Machine.Prog

/-- Memory and the static `g_head`, which is not part of any buffer. -/
structure KmemWorld where
  memory : Nat → UInt8
  gHead : UInt64

/-- `kmem_block_t`. -/
structure KmemBlock where
  size : UInt64
  free : Bool
  next : UInt64
deriving DecidableEq, Repr

/-- `sizeof(kmem_block_t)`. -/
def sizeofKmemBlock : UInt64 := 24

/-- What `block` points to. -/
def KmemWorld.deref (w : KmemWorld) (block : UInt64) : KmemBlock where
  size := UInt64.ofNat (readLE w.memory block.toNat 8)
  free := readLE w.memory (block.toNat + 8) 1 != 0
  next := UInt64.ofNat (readLE w.memory (block.toNat + 16) 8)

/-! ### Accesses -/

inductive KmemAccess where
  | storeHead (value : UInt64)
  | storeSize (block value : UInt64)
  | storeFree (block : UInt64) (value : Bool)
  | storeNext (block value : UInt64)
deriving DecidableEq, Repr

def KmemWorld.store (w : KmemWorld) (address width value : Nat) : KmemWorld :=
  { w with memory := writeLE w.memory address width value }

def KmemAccess.apply : KmemAccess → KmemWorld → KmemWorld
  | .storeHead value, w => { w with gHead := value }
  | .storeSize block value, w => w.store block.toNat 8 value.toNat
  | .storeFree block value, w => w.store (block.toNat + 8) 1 value.toNat
  | .storeNext block value, w => w.store (block.toNat + 16) 8 value.toNat

/-- The store is to the byte at `address`, among others. -/
def KmemAccess.Writes (address : Nat) : KmemAccess → Prop
  | .storeHead _ => False
  | .storeSize block _ => block.toNat ≤ address ∧ address < block.toNat + 8
  | .storeFree block _ => address = block.toNat + 8
  | .storeNext block _ => block.toNat + 16 ≤ address ∧ address < block.toNat + 24

instance : Event KmemAccess KmemWorld := ⟨KmemAccess.apply⟩

abbrev KmemProg := Prog KmemAccess KmemWorld

/-! ### Operations -/

def kmemInit (buffer size : UInt64) : KmemProg Unit := do
  emit (.storeHead buffer)
  emit (.storeSize buffer (size - sizeofKmemBlock))
  emit (.storeFree buffer true)
  emit (.storeNext buffer 0)

/-- The split of `kmalloc`: a header for what the request leaves of `curr`. -/
def splitBlock (curr size remaining : UInt64) : KmemProg Unit :=
  if remaining > sizeofKmemBlock then do
    let newBlock := curr + sizeofKmemBlock + size
    emit (.storeSize newBlock (remaining - sizeofKmemBlock))
    emit (.storeFree newBlock true)
    let w ← get
    emit (.storeNext newBlock (w.deref curr).next)
    emit (.storeNext curr newBlock)
    emit (.storeSize curr size)
  else
    pure ()

/-- The body of the `if` in the loop of `kmalloc`: `curr` is taken. -/
def takeBlock (curr size : UInt64) : KmemProg UInt64 := do
  let w ← get
  splitBlock curr size ((w.deref curr).size - size)
  emit (.storeFree curr false)
  pure (curr + sizeofKmemBlock)

/-- The walk of `kmalloc` from `curr` on; none when it has not ended after so
many rounds. -/
def kmallocFrom (size : UInt64) : Nat → UInt64 → KmemProg (Option UInt64)
  | 0, _ => pure none
  | rounds + 1, curr => do
      if curr = 0 then
        pure (some 0)
      else
        let w ← get
        if (w.deref curr).free ∧ (w.deref curr).size ≥ size then
          let ptr ← takeBlock curr size
          pure (some ptr)
        else
          kmallocFrom size rounds (w.deref curr).next

/-- A walk that goes on for more rounds than there are pointers has come back
to a block it has seen, and never ends. -/
def walkRounds : Nat := 2 ^ 64

/-- `kmalloc`: the pointer it returns, or none where it does not return. -/
def kmalloc (size : UInt64) : KmemProg (Option UInt64) := do
  if size = 0 then
    pure (some 0)
  else
    let w ← get
    kmallocFrom size walkRounds w.gHead

def kfree (ptr : UInt64) : KmemProg Unit :=
  if ptr = 0 then
    pure ()
  else
    emit (.storeFree (ptr - sizeofKmemBlock) true)

/-- The walk of `kmem_get_free_bytes`. -/
def freeBytesFrom (w : KmemWorld) : Nat → UInt64 → UInt64 → Option UInt64
  | 0, _, _ => none
  | rounds + 1, curr, total =>
      if curr = 0 then
        some total
      else
        let total := if (w.deref curr).free then total + (w.deref curr).size else total
        freeBytesFrom w rounds (w.deref curr).next total

/-- `kmem_get_free_bytes`, or none where it does not return. -/
def kmemGetFreeBytes (w : KmemWorld) : Option UInt64 :=
  freeBytesFrom w walkRounds w.gHead 0

end Mcsos.Kmem
