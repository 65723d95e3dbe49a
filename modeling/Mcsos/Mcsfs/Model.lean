import Mcsos.Machine.CString
import Mcsos.Machine.Word

/-!
The kernel file system MCSFS1: `kernel/fs/m15_mcsfs1.c` over `m15_mcsfs1.h`.

All files share one data area. An inode takes its offset when it is created,
from `data_used`, and `data_used` moves only when a file is written.

`m15_strcpy` does not know the length of the name field. Its stores go through
the layout of the structure on x86_64, so that a name of 64 characters or more
lands in the fields behind; the null tests of the source have no counterpart,
since file system and name are values here.
-/

namespace Mcsos.Mcsfs

open Mcsos.Machine
open Mcsos.Machine.Prog

def m15Mcsfs1Magic : UInt64 := 0x4D4353465331

def m15Mcsfs1Ok : Int := 0
def m15Mcsfs1Enoent : Int := -2
def m15Mcsfs1Enospc : Int := -3

def m15Mcsfs1MaxFiles : Nat := 32
def m15Mcsfs1DataSize : Nat := 4096

/-- `m15_mcsfs1_inode_t`; `padding` is by offset from the inode's start. -/
structure M15Inode where
  name : Nat → UInt8
  offset : UInt64
  size : UInt64
  used : UInt8
  padding : Nat → UInt8

/-- `m15_mcsfs1_t`. -/
structure M15Mcsfs1 where
  magic : UInt64
  inodeCount : UInt64
  dataUsed : UInt64
  inodes : Nat → M15Inode
  data : Nat → UInt8

/-! ### Layout -/

/-- `sizeof(m15_mcsfs1_inode_t)`. -/
def inodeSize : Nat := 88

def M15Inode.byteAt (inode : M15Inode) (offset : Nat) : UInt8 :=
  if offset < 64 then inode.name offset
  else if offset < 72 then byteOf inode.offset.toNat (offset - 64)
  else if offset < 80 then byteOf inode.size.toNat (offset - 72)
  else if offset = 80 then inode.used
  else inode.padding offset

def M15Inode.setByte (inode : M15Inode) (offset : Nat) (byte : UInt8) : M15Inode :=
  if offset < 64 then
    { inode with name := Function.update inode.name offset byte }
  else if offset < 72 then
    { inode with offset := UInt64.ofNat (replaceByte inode.offset.toNat (offset - 64) byte) }
  else if offset < 80 then
    { inode with size := UInt64.ofNat (replaceByte inode.size.toNat (offset - 72) byte) }
  else if offset = 80 then
    { inode with used := byte }
  else
    { inode with padding := Function.update inode.padding offset byte }

def M15Mcsfs1.modifyInode (fs : M15Mcsfs1) (index : Nat) (change : M15Inode → M15Inode) :
    M15Mcsfs1 :=
  { fs with inodes := Function.update fs.inodes index (change (fs.inodes index)) }

/-- The byte at an offset from the start of `inodes`; the data follows them. -/
def M15Mcsfs1.byteAt (fs : M15Mcsfs1) (offset : Nat) : UInt8 :=
  if offset < m15Mcsfs1MaxFiles * inodeSize then
    (fs.inodes (offset / inodeSize)).byteAt (offset % inodeSize)
  else
    fs.data (offset - m15Mcsfs1MaxFiles * inodeSize)

def M15Mcsfs1.setByte (fs : M15Mcsfs1) (offset : Nat) (byte : UInt8) : M15Mcsfs1 :=
  if offset < m15Mcsfs1MaxFiles * inodeSize then
    fs.modifyInode (offset / inodeSize) fun inode => inode.setByte (offset % inodeSize) byte
  else
    { fs with
      data := Function.update fs.data (offset - m15Mcsfs1MaxFiles * inodeSize) byte }

/-- What `fs->inodes[index].name` points to. -/
def M15Mcsfs1.nameAt (fs : M15Mcsfs1) (index : Nat) : Nat → UInt8 :=
  fun position => fs.byteAt (index * inodeSize + position)

/-! ### Accesses -/

inductive M15Access where
  | loadData (offset : Nat)
  | storeMagic (value : UInt64)
  | storeInodeCount (value : UInt64)
  | storeDataUsed (value : UInt64)
  | storeUsed (index : Nat) (value : UInt8)
  | storeOffset (index : Nat) (value : UInt64)
  | storeSize (index : Nat) (value : UInt64)
  | storeName (index position : Nat) (value : UInt8)
  | storeData (offset : Nat) (value : UInt8)
deriving DecidableEq, Repr

def M15Access.apply : M15Access → M15Mcsfs1 → M15Mcsfs1
  | .loadData _, fs => fs
  | .storeMagic value, fs => { fs with magic := value }
  | .storeInodeCount value, fs => { fs with inodeCount := value }
  | .storeDataUsed value, fs => { fs with dataUsed := value }
  | .storeUsed index value, fs => fs.modifyInode index fun inode => { inode with used := value }
  | .storeOffset index value, fs => fs.modifyInode index fun inode => { inode with offset := value }
  | .storeSize index value, fs => fs.modifyInode index fun inode => { inode with size := value }
  | .storeName index position value, fs => fs.setByte (index * inodeSize + position) value
  | .storeData offset value, fs => { fs with data := Function.update fs.data offset value }

instance : Event M15Access M15Mcsfs1 := ⟨M15Access.apply⟩

abbrev M15Prog := Prog M15Access M15Mcsfs1

/-! ### Operations -/

def m15Strcmp (a : Nat → UInt8) (b : CString) : Int := (strcmpFrom a b.chars 0).1

def m15Strcpy (dst : Nat → UInt8 → M15Access) (src : CString) : M15Prog Unit := strcpy dst src

/-- `m15_memcpy`; the destination is the store its pointer makes for a byte. -/
def m15Memcpy (dst : Nat → UInt8 → M15Access) (src : Nat → UInt8) (size : Nat) : M15Prog Unit :=
  forLoop 0 size fun index => emit (dst index (src index))

/-- The index of the first inode in use with the name. -/
def m15FindInode (fs : M15Mcsfs1) (name : CString) : Option Nat :=
  (List.range fs.inodeCount.toNat).find? fun index =>
    (fs.inodes index).used != 0 && m15Strcmp (fs.nameAt index) name == 0

def m15Mcsfs1Init : M15Prog Unit := do
  emit (.storeMagic m15Mcsfs1Magic)
  emit (.storeInodeCount 0)
  emit (.storeDataUsed 0)
  forLoop 0 m15Mcsfs1MaxFiles fun index => emit (.storeUsed index 0)

def m15Mcsfs1Create (name : CString) : M15Prog Int := do
  let fs ← get
  if fs.inodeCount.toNat ≥ m15Mcsfs1MaxFiles then
    pure m15Mcsfs1Enospc
  else
    let inode := fs.inodeCount.toNat
    emit (.storeUsed inode 1)
    emit (.storeOffset inode fs.dataUsed)
    emit (.storeSize inode 0)
    m15Strcpy (.storeName inode) name
    let fs ← get
    emit (.storeInodeCount (fs.inodeCount + 1))
    pure m15Mcsfs1Ok

def m15Mcsfs1Write (name : CString) (buffer : Nat → UInt8) (size : UInt64) : M15Prog Int := do
  let fs ← get
  match m15FindInode fs name with
  | none => pure m15Mcsfs1Enoent
  | some inode =>
      let offset := (fs.inodes inode).offset
      if (offset + size).toNat ≥ m15Mcsfs1DataSize then
        pure m15Mcsfs1Enospc
      else
        m15Memcpy (fun index => .storeData (offset.toNat + index)) buffer size.toNat
        emit (.storeSize inode size)
        emit (.storeDataUsed (offset + size))
        pure size.toUInt32.toInt32.toInt

/-- `m15_mcsfs1_read`: the return value and the bytes put into the buffer. -/
def m15Mcsfs1Read (name : CString) (size : UInt64) : M15Prog (Int × List UInt8) := do
  let fs ← get
  match m15FindInode fs name with
  | none => pure (m15Mcsfs1Enoent, [])
  | some inode =>
      let offset := (fs.inodes inode).offset.toNat
      let size := if size > (fs.inodes inode).size then (fs.inodes inode).size else size
      forLoop 0 size.toNat fun index => emit (.loadData (offset + index))
      pure (size.toInt64.toInt, (List.range size.toNat).map fun index => fs.data (offset + index))

end Mcsos.Mcsfs
