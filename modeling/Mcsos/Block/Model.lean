import Mcsos.Machine.Trace

/-!
The block device interface and its RAM driver: `kernel/block/m14_ramblk.c` over
`mcs_block.h`.

The storage and each buffer of a caller are objects of their own. A pointer to
a buffer is the number of the object, or `none` for a null pointer; the other
pointers of the source (`driver_data` and `storage`) have one target each, so
that storing them carries no information.
-/

namespace Mcsos.Block

open Mcsos.Machine
open Mcsos.Machine.Prog

def mcsBlockSize : UInt64 := 512

/-- The codes the driver returns. -/
inductive McsBlockStatus where
  | ok
  | einval
deriving DecidableEq, Repr

/-- The functions that `read` of a device may point to. -/
inductive BlockReadFn where
  | m14RamblkRead
deriving DecidableEq, Repr

/-- The functions that `write` of a device may point to. -/
inductive BlockWriteFn where
  | m14RamblkWrite
deriving DecidableEq, Repr

/-- `mcs_ram_block_device_t`. -/
structure McsRamBlockDevice where
  totalBlocks : UInt64

/-- `mcs_block_device_t`. -/
structure McsBlockDevice where
  blockCount : UInt64
  read : BlockReadFn
  write : BlockWriteFn

/-- The two device structures, the bytes of the storage and those of the
callers' buffers. -/
structure BlockMachine where
  ramdev : McsRamBlockDevice
  dev : McsBlockDevice
  storage : Nat → UInt8
  buffers : Nat → Nat → UInt8

/-! ### Accesses -/

/-- A pointer to a byte of the storage or of a buffer. -/
inductive BytePtr where
  | storage (offset : Nat)
  | buffer (object offset : Nat)
deriving DecidableEq, Repr

def BytePtr.add : BytePtr → Nat → BytePtr
  | .storage offset, index => .storage (offset + index)
  | .buffer object offset, index => .buffer object (offset + index)

/-- The byte behind a pointer. -/
def BlockMachine.byteAt (m : BlockMachine) : BytePtr → UInt8
  | .storage offset => m.storage offset
  | .buffer object offset => m.buffers object offset

def BlockMachine.setByte (m : BlockMachine) (value : UInt8) : BytePtr → BlockMachine
  | .storage offset => { m with storage := Function.update m.storage offset value }
  | .buffer object offset =>
      { m with
        buffers := Function.update m.buffers object
          (Function.update (m.buffers object) offset value) }

inductive BlockAccess where
  | load (ptr : BytePtr)
  | store (ptr : BytePtr) (value : UInt8)
  | storeTotalBlocks (value : UInt64)
  | storeBlockCount (value : UInt64)
  | storeRead (value : BlockReadFn)
  | storeWrite (value : BlockWriteFn)
deriving DecidableEq, Repr

def BlockAccess.apply : BlockAccess → BlockMachine → BlockMachine
  | .load _, m => m
  | .store ptr value, m => m.setByte value ptr
  | .storeTotalBlocks value, m => { m with ramdev := { m.ramdev with totalBlocks := value } }
  | .storeBlockCount value, m => { m with dev := { m.dev with blockCount := value } }
  | .storeRead value, m => { m with dev := { m.dev with read := value } }
  | .storeWrite value, m => { m with dev := { m.dev with write := value } }

instance : Event BlockAccess BlockMachine := ⟨BlockAccess.apply⟩

abbrev BlockProg := Prog BlockAccess BlockMachine

/-! ### The RAM driver -/

def m14Memcpy (dst src : BytePtr) (size : UInt64) : BlockProg Unit :=
  forLoop 0 size.toNat fun index => do
    emit (.load (src.add index))
    let m ← get
    emit (.store (dst.add index) (m.byteAt (src.add index)))

def m14RamblkRead (lba : UInt64) (buffer : Option Nat) : BlockProg McsBlockStatus := do
  match buffer with
  | none => pure .einval
  | some object =>
      let m ← get
      if lba ≥ m.ramdev.totalBlocks then
        pure .einval
      else
        m14Memcpy (.buffer object 0) (.storage (lba * mcsBlockSize).toNat) mcsBlockSize
        pure .ok

def m14RamblkWrite (lba : UInt64) (buffer : Option Nat) : BlockProg McsBlockStatus := do
  match buffer with
  | none => pure .einval
  | some object =>
      let m ← get
      if lba ≥ m.ramdev.totalBlocks then
        pure .einval
      else
        m14Memcpy (.storage (lba * mcsBlockSize).toNat) (.buffer object 0) mcsBlockSize
        pure .ok

/-! ### The interface -/

def mcsRamBlockInit (totalBlocks : UInt64) : BlockProg Unit :=
  emit (.storeTotalBlocks totalBlocks)

def mcsBlockBindRamdev : BlockProg Unit := do
  let m ← get
  emit (.storeBlockCount m.ramdev.totalBlocks)
  emit (.storeRead .m14RamblkRead)
  emit (.storeWrite .m14RamblkWrite)

def mcsBlockRead (lba : UInt64) (buffer : Option Nat) : BlockProg McsBlockStatus := do
  let m ← get
  match m.dev.read with
  | .m14RamblkRead => m14RamblkRead lba buffer

def mcsBlockWrite (lba : UInt64) (buffer : Option Nat) : BlockProg McsBlockStatus := do
  let m ← get
  match m.dev.write with
  | .m14RamblkWrite => m14RamblkWrite lba buffer

end Mcsos.Block
