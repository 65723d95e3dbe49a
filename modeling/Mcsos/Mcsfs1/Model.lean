import Mcsos.Machine.CString
import Mcsos.Machine.Word

/-!
The stand-alone file system MCSFS1: `fs/mcsfs1/mcsfs1.c` over `mcsfs1.h`.

Every inode carries its own name and data. `mcsfs1_init` sets the two header
fields and the `used` flags and nothing else, so names, sizes and data start as
whatever the memory held. The null tests of the source have no counterpart,
since file system, name and buffers are values here.
-/

namespace Mcsos.Mcsfs1

open Mcsos.Machine
open Mcsos.Machine.Prog

def mcsfs1Magic : UInt32 := 0x4D435331

def mcsfs1Ok : Int := 0
def mcsfs1Einval : Int := -1
def mcsfs1Enospc : Int := -2
def mcsfs1Enoent : Int := -3

def mcsfs1MaxFiles : Nat := 32
def mcsfs1NameLen : Nat := 32
def mcsfs1DataSize : Nat := 256

/-- `mcsfs1_inode_t`. -/
structure Mcsfs1Inode where
  used : UInt8
  name : Nat → UInt8
  size : UInt64
  data : Nat → UInt8

/-- `mcsfs1_t`. -/
structure Mcsfs1T where
  magic : UInt32
  inodeCount : UInt32
  inodes : Nat → Mcsfs1Inode

def Mcsfs1T.modifyInode (fs : Mcsfs1T) (index : Nat) (change : Mcsfs1Inode → Mcsfs1Inode) :
    Mcsfs1T :=
  { fs with inodes := Function.update fs.inodes index (change (fs.inodes index)) }

/-! ### Accesses -/

inductive Mcsfs1Access where
  | loadData (index position : Nat)
  | storeMagic (value : UInt32)
  | storeInodeCount (value : UInt32)
  | storeUsed (index : Nat) (value : UInt8)
  | storeName (index position : Nat) (value : UInt8)
  | storeSize (index : Nat) (value : UInt64)
  | storeData (index position : Nat) (value : UInt8)
deriving DecidableEq, Repr

def Mcsfs1Access.apply : Mcsfs1Access → Mcsfs1T → Mcsfs1T
  | .loadData _ _, fs => fs
  | .storeMagic value, fs => { fs with magic := value }
  | .storeInodeCount value, fs => { fs with inodeCount := value }
  | .storeUsed index value, fs => fs.modifyInode index fun inode => { inode with used := value }
  | .storeName index position value, fs =>
      fs.modifyInode index fun inode =>
        { inode with name := Function.update inode.name position value }
  | .storeSize index value, fs => fs.modifyInode index fun inode => { inode with size := value }
  | .storeData index position value, fs =>
      fs.modifyInode index fun inode =>
        { inode with data := Function.update inode.data position value }

instance : Event Mcsfs1Access Mcsfs1T := ⟨Mcsfs1Access.apply⟩

abbrev Mcsfs1Prog := Prog Mcsfs1Access Mcsfs1T

/-! ### Strings and bytes -/

/-- `m15_strlen`: the position of the terminator. -/
def m15Strlen (s : CString) : Nat := s.length

/-- The loop of `m15_streq` from a position on, over what is left of `b`. -/
def m15StreqFrom (a : Nat → UInt8) : List UInt8 → Nat → Bool
  | [], position => a position == 0
  | char :: rest, position =>
      if a position = 0 then
        0 == char
      else if a position ≠ char then
        false
      else
        m15StreqFrom a rest (position + 1)

def m15Streq (a : Nat → UInt8) (b : CString) : Bool := m15StreqFrom a b.chars 0

/-- `m15_memcpy`, one access for each byte. -/
def m15Memcpy (copy : Nat → Mcsfs1Access) (size : Nat) : Mcsfs1Prog Unit :=
  forLoop 0 size fun index => emit (copy index)

/-! ### Operations -/

def mcsfs1Init : Mcsfs1Prog Unit := do
  emit (.storeMagic mcsfs1Magic)
  emit (.storeInodeCount 0)
  forLoop 0 mcsfs1MaxFiles fun index => emit (.storeUsed index 0)

/-- The copy of a name, which ends with the field or behind the terminator. -/
def copyName (index : Nat) (name : CString) : Mcsfs1Prog (Option Unit) :=
  scanLoop 0 mcsfs1NameLen fun position => do
    emit (.storeName index position (name.byteAt position))
    if name.byteAt position = 0 then pure (some ()) else pure none

/-- One round of the loop of `mcsfs1_create`. -/
def createProbe (name : CString) (index : Nat) : Mcsfs1Prog (Option Int) := do
  let fs ← get
  if (fs.inodes index).used = 0 then
    emit (.storeUsed index 1)
    let _ ← copyName index name
    emit (.storeSize index 0)
    let fs ← get
    emit (.storeInodeCount (fs.inodeCount + 1))
    pure (some mcsfs1Ok)
  else
    pure none

def mcsfs1Create (name : CString) : Mcsfs1Prog Int := do
  if m15Strlen name ≥ mcsfs1NameLen then
    pure mcsfs1Einval
  else
    let status ← scanLoop 0 mcsfs1MaxFiles (createProbe name)
    pure (status.getD mcsfs1Enospc)

section

variable {α : Type}

/-- One round of the loop of `mcsfs1_write` and `mcsfs1_read`. -/
def inodeProbe (name : CString) (body : Nat → Mcsfs1Prog α) (index : Nat) :
    Mcsfs1Prog (Option α) := do
  let fs ← get
  if (fs.inodes index).used ≠ 0 ∧ m15Streq (fs.inodes index).name name then
    let answer ← body index
    pure (some answer)
  else
    pure none

/-- `body` runs on the first inode in use with the name, and its answer leaves
the loop. -/
def atInode (name : CString) (body : Nat → Mcsfs1Prog α) : Mcsfs1Prog (Option α) :=
  scanLoop 0 mcsfs1MaxFiles (inodeProbe name body)

end

/-- What `mcsfs1_write` does with the inode it finds. -/
def writeInode (data : Nat → UInt8) (size : UInt64) (index : Nat) : Mcsfs1Prog Int := do
  m15Memcpy (fun position => .storeData index position (data position)) size.toNat
  emit (.storeSize index size)
  pure mcsfs1Ok

def mcsfs1Write (name : CString) (data : Nat → UInt8) (size : UInt64) : Mcsfs1Prog Int := do
  if size.toNat > mcsfs1DataSize then
    pure mcsfs1Enospc
  else
    let status ← atInode name (writeInode data size)
    pure (status.getD mcsfs1Enoent)

/-- What `mcsfs1_read` does with the inode it finds: the return value and the
bytes put into the buffer. -/
def readInode (size : UInt64) (index : Nat) : Mcsfs1Prog (Int × List UInt8) := do
  let fs ← get
  let inode := fs.inodes index
  let size := if size > inode.size then inode.size else size
  m15Memcpy (.loadData index) size.toNat
  pure (size.toUInt32.toInt32.toInt, (List.range size.toNat).map inode.data)

def mcsfs1Read (name : CString) (size : UInt64) : Mcsfs1Prog (Int × List UInt8) := do
  let answer ← atInode name (readInode size)
  pure (answer.getD (mcsfs1Enoent, []))

end Mcsos.Mcsfs1
