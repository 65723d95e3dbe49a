import Mcsos.Machine.CString
import Mcsos.Machine.Word

/-!
The virtual file system and its RAM file system: `kernel/fs/m13_vfs.c` and
`kernel/fs/m13_ramfs.c` over `mcs_vfs.h`.

The world is one ramfs and any number of descriptor tables over it, numbered.
A descriptor's `node` pointer is the node's index; its `fs` pointer is the one
ramfs and is left out. `int` arguments are integers. Where the source indexes
the pool the index is computed in 64 bits.

`m13_strcpy` does not know the length of the name field; its stores go through
the layout of the structures on x86_64, as the comparison's loads do.
-/

namespace Mcsos.Vfs

open Mcsos.Machine
open Mcsos.Machine.Prog

def mcsMaxNodes : Nat := 64
def mcsMaxOpenFiles : Nat := 16
def mcsRamfsDataBytes : Nat := 8192

def mcsORdonly : UInt32 := 0x0001
def mcsOWronly : UInt32 := 0x0002
def mcsORdwr : UInt32 := 0x0004
def mcsOCreat : UInt32 := 0x0100

def mcsSeekSet : Int := 0
def mcsSeekCur : Int := 1
def mcsSeekEnd : Int := 2

def mcsOk : Int := 0
def mcsEinval : Int := -1
def mcsEnoent : Int := -2
def mcsEnfile : Int := -3
def mcsEbadf : Int := -4
def mcsEnospc : Int := -5

/-- `mcs_vnode_type_t`; `raw` is what a stray store can make of it. -/
inductive McsVnodeType where
  | dir
  | file
  | raw (value : UInt32)
deriving DecidableEq, Repr

/-- `mcs_vnode_t`; `padding` is by offset from the node's start. -/
structure McsVnode where
  id : UInt32
  parent : UInt32
  type : McsVnodeType
  name : Nat → UInt8
  size : UInt64
  dataOffset : UInt64
  dataCapacity : UInt64
  padding : Nat → UInt8

/-- `mcs_ramfs_t`; `padding` is by offset from the structure's start. -/
structure McsRamfs where
  nodes : Nat → McsVnode
  data : Nat → UInt8
  nodeCount : UInt32
  dataUsed : UInt64
  padding : Nat → UInt8

/-- `mcs_file_t`. -/
structure McsFile where
  flags : UInt32
  offset : UInt64
  node : Nat
  used : Bool

structure VfsWorld where
  fs : McsRamfs
  tables : Nat → Nat → McsFile

/-! ### Layout -/

/-- `sizeof(mcs_vnode_t)`. -/
def vnodeSize : Nat := 72

/-- Offset of `name` in a node. -/
def nameOffset : Nat := 12

def McsVnodeType.value : McsVnodeType → UInt32
  | .dir => 1
  | .file => 2
  | .raw value => value

def McsVnodeType.ofValue (value : UInt32) : McsVnodeType :=
  if value = 1 then .dir else if value = 2 then .file else .raw value

def McsVnode.byteAt (node : McsVnode) (offset : Nat) : UInt8 :=
  if offset < 4 then byteOf node.id.toNat offset
  else if offset < 8 then byteOf node.parent.toNat (offset - 4)
  else if offset < 12 then byteOf node.type.value.toNat (offset - 8)
  else if offset < 44 then node.name (offset - 12)
  else if offset < 48 then node.padding offset
  else if offset < 56 then byteOf node.size.toNat (offset - 48)
  else if offset < 64 then byteOf node.dataOffset.toNat (offset - 56)
  else byteOf node.dataCapacity.toNat (offset - 64)

def McsVnode.setByte (node : McsVnode) (offset : Nat) (byte : UInt8) : McsVnode :=
  if offset < 4 then
    { node with id := UInt32.ofNat (replaceByte node.id.toNat offset byte) }
  else if offset < 8 then
    { node with parent := UInt32.ofNat (replaceByte node.parent.toNat (offset - 4) byte) }
  else if offset < 12 then
    { node with
      type := .ofValue (UInt32.ofNat (replaceByte node.type.value.toNat (offset - 8) byte)) }
  else if offset < 44 then
    { node with name := Function.update node.name (offset - 12) byte }
  else if offset < 48 then
    { node with padding := Function.update node.padding offset byte }
  else if offset < 56 then
    { node with size := UInt64.ofNat (replaceByte node.size.toNat (offset - 48) byte) }
  else if offset < 64 then
    { node with dataOffset := UInt64.ofNat (replaceByte node.dataOffset.toNat (offset - 56) byte) }
  else
    { node with
      dataCapacity := UInt64.ofNat (replaceByte node.dataCapacity.toNat (offset - 64) byte) }

def McsRamfs.modifyNode (fs : McsRamfs) (index : Nat) (change : McsVnode → McsVnode) : McsRamfs :=
  { fs with nodes := Function.update fs.nodes index (change (fs.nodes index)) }

/-- Offset of `node_count`: the nodes, then the pool. -/
def nodeCountOffset : Nat := mcsMaxNodes * vnodeSize + mcsRamfsDataBytes

/-- The byte at an offset from the start of the structure; what follows the
structure is not part of it and reads as padding. -/
def McsRamfs.byteAt (fs : McsRamfs) (offset : Nat) : UInt8 :=
  if offset < mcsMaxNodes * vnodeSize then
    (fs.nodes (offset / vnodeSize)).byteAt (offset % vnodeSize)
  else if offset < nodeCountOffset then
    fs.data (offset - mcsMaxNodes * vnodeSize)
  else if offset < nodeCountOffset + 4 then
    byteOf fs.nodeCount.toNat (offset - nodeCountOffset)
  else if nodeCountOffset + 8 ≤ offset ∧ offset < nodeCountOffset + 16 then
    byteOf fs.dataUsed.toNat (offset - (nodeCountOffset + 8))
  else
    fs.padding offset

def McsRamfs.setByte (fs : McsRamfs) (offset : Nat) (byte : UInt8) : McsRamfs :=
  if offset < mcsMaxNodes * vnodeSize then
    fs.modifyNode (offset / vnodeSize) fun node => node.setByte (offset % vnodeSize) byte
  else if offset < nodeCountOffset then
    { fs with data := Function.update fs.data (offset - mcsMaxNodes * vnodeSize) byte }
  else if offset < nodeCountOffset + 4 then
    { fs with
      nodeCount := UInt32.ofNat (replaceByte fs.nodeCount.toNat (offset - nodeCountOffset) byte) }
  else if nodeCountOffset + 8 ≤ offset ∧ offset < nodeCountOffset + 16 then
    { fs with
      dataUsed :=
        UInt64.ofNat (replaceByte fs.dataUsed.toNat (offset - (nodeCountOffset + 8)) byte) }
  else
    { fs with padding := Function.update fs.padding offset byte }

/-- What `fs->nodes[index].name` points to. -/
def McsRamfs.nameAt (fs : McsRamfs) (index : Nat) : Nat → UInt8 :=
  fun position => fs.byteAt (index * vnodeSize + nameOffset + position)

/-! ### Accesses -/

inductive VfsAccess where
  | loadData (offset : Nat)
  | storeNodeCount (value : UInt32)
  | storeDataUsed (value : UInt64)
  | storeId (index : Nat) (value : UInt32)
  | storeParent (index : Nat) (value : UInt32)
  | storeType (index : Nat) (value : McsVnodeType)
  | storeSize (index : Nat) (value : UInt64)
  | storeDataOffset (index : Nat) (value : UInt64)
  | storeDataCapacity (index : Nat) (value : UInt64)
  | storeName (index position : Nat) (value : UInt8)
  | storeData (offset : Nat) (value : UInt8)
  | storeFileUsed (table fd : Nat) (value : Bool)
  | storeFileFlags (table fd : Nat) (value : UInt32)
  | storeFileOffset (table fd : Nat) (value : UInt64)
  | storeFileNode (table fd : Nat) (value : Nat)
deriving DecidableEq, Repr

def VfsWorld.modifyNode (w : VfsWorld) (index : Nat) (change : McsVnode → McsVnode) : VfsWorld :=
  { w with fs := w.fs.modifyNode index change }

def VfsWorld.modifyFile (w : VfsWorld) (table fd : Nat) (change : McsFile → McsFile) : VfsWorld :=
  { w with
    tables := Function.update w.tables table
      (Function.update (w.tables table) fd (change (w.tables table fd))) }

def VfsAccess.apply : VfsAccess → VfsWorld → VfsWorld
  | .loadData _, w => w
  | .storeNodeCount value, w => { w with fs := { w.fs with nodeCount := value } }
  | .storeDataUsed value, w => { w with fs := { w.fs with dataUsed := value } }
  | .storeId index value, w => w.modifyNode index fun node => { node with id := value }
  | .storeParent index value, w => w.modifyNode index fun node => { node with parent := value }
  | .storeType index value, w => w.modifyNode index fun node => { node with type := value }
  | .storeSize index value, w => w.modifyNode index fun node => { node with size := value }
  | .storeDataOffset index value, w =>
      w.modifyNode index fun node => { node with dataOffset := value }
  | .storeDataCapacity index value, w =>
      w.modifyNode index fun node => { node with dataCapacity := value }
  | .storeName index position value, w =>
      { w with fs := w.fs.setByte (index * vnodeSize + nameOffset + position) value }
  | .storeData offset value, w =>
      { w with fs := { w.fs with data := Function.update w.fs.data offset value } }
  | .storeFileUsed table fd value, w =>
      w.modifyFile table fd fun file => { file with used := value }
  | .storeFileFlags table fd value, w =>
      w.modifyFile table fd fun file => { file with flags := value }
  | .storeFileOffset table fd value, w =>
      w.modifyFile table fd fun file => { file with offset := value }
  | .storeFileNode table fd value, w =>
      w.modifyFile table fd fun file => { file with node := value }

instance : Event VfsAccess VfsWorld := ⟨VfsAccess.apply⟩

abbrev VfsProg := Prog VfsAccess VfsWorld

/-! ### RAM file system -/

def m13Strcmp (a : Nat → UInt8) (b : CString) : Int := (strcmpFrom a b.chars 0).1

def m13Strcpy (dst : Nat → UInt8 → VfsAccess) (src : CString) : VfsProg Unit := strcpy dst src

/-- The string `"/"`. -/
def rootName : CString := ⟨[47], by simp⟩

def mcsRamfsInit : VfsProg Unit := do
  emit (.storeNodeCount 1)
  emit (.storeDataUsed 0)
  emit (.storeId 0 0)
  emit (.storeParent 0 0)
  emit (.storeType 0 .dir)
  emit (.storeSize 0 0)
  emit (.storeDataOffset 0 0)
  emit (.storeDataCapacity 0 0)
  m13Strcpy (.storeName 0) rootName

/-- The index of the first node with the name. -/
def mcsRamfsLookup (fs : McsRamfs) (path : CString) : Option Nat :=
  (List.range fs.nodeCount.toNat).find? fun index => m13Strcmp (fs.nameAt index) path == 0

/-- `mcs_ramfs_create_file`: the index of the new node, or none for `NULL`. -/
def mcsRamfsCreateFile (path : CString) : VfsProg (Option Nat) := do
  let w ← get
  if w.fs.nodeCount.toNat ≥ mcsMaxNodes then
    pure none
  else if (w.fs.dataUsed + 256).toNat ≥ mcsRamfsDataBytes then
    pure none
  else
    let node := w.fs.nodeCount.toNat
    emit (.storeId node w.fs.nodeCount)
    emit (.storeParent node 0)
    emit (.storeType node .file)
    emit (.storeSize node 0)
    emit (.storeDataOffset node w.fs.dataUsed)
    emit (.storeDataCapacity node 256)
    m13Strcpy (.storeName node) path
    let w ← get
    emit (.storeDataUsed (w.fs.dataUsed + (w.fs.nodes node).dataCapacity))
    emit (.storeNodeCount (w.fs.nodeCount + 1))
    pure (some node)

def mcsRamfsSeedFile (path : CString) (data : Nat → UInt8) (size : UInt64) : VfsProg Int := do
  match ← mcsRamfsCreateFile path with
  | none => pure mcsEnospc
  | some node =>
      let w ← get
      if size > (w.fs.nodes node).dataCapacity then
        pure mcsEnospc
      else
        let dataOffset := (w.fs.nodes node).dataOffset
        forLoop 0 size.toNat fun index =>
          emit (.storeData (dataOffset + UInt64.ofNat index).toNat (data index))
        emit (.storeSize node size)
        pure mcsOk

/-! ### Descriptors -/

def mcsFdTableInit (table : Nat) : VfsProg Unit :=
  forLoop 0 mcsMaxOpenFiles fun fd => emit (.storeFileUsed table fd false)

/-- The descriptor `fd` names in its table: the range check every call starts
with. -/
def fdSlot (fd : Int) : Option Nat :=
  if fd < 0 ∨ fd ≥ mcsMaxOpenFiles then none else some fd.toNat

/-- The loop of `mcs_vfs_open`: take the first descriptor that is not in use. -/
def takeDescriptor (table : Nat) (node : Nat) (flags : UInt32) (fd : Nat) :
    VfsProg (Option Int) := do
  let w ← get
  if (w.tables table fd).used then
    pure none
  else
    emit (.storeFileUsed table fd true)
    emit (.storeFileFlags table fd flags)
    emit (.storeFileOffset table fd 0)
    emit (.storeFileNode table fd node)
    pure (some fd)

/-- The first half of `mcs_vfs_open`: the node of the path, made if it is to be
made, or the error. -/
def openNode (path : CString) (flags : UInt32) : VfsProg (Except Int Nat) := do
  let w ← get
  match mcsRamfsLookup w.fs path with
  | some node => pure (.ok node)
  | none =>
      if flags &&& mcsOCreat = 0 then
        pure (.error mcsEnoent)
      else
        match ← mcsRamfsCreateFile path with
        | none => pure (.error mcsEnospc)
        | some node => pure (.ok node)

def mcsVfsOpen (table : Nat) (path : CString) (flags : UInt32) : VfsProg Int := do
  match ← openNode path flags with
  | .error status => pure status
  | .ok node =>
      let taken ← scanLoop 0 mcsMaxOpenFiles (takeDescriptor table node flags)
      pure (taken.getD mcsEnfile)

/-- `mcs_vfs_read`: the return value and the bytes put into the buffer. -/
def mcsVfsRead (table : Nat) (fd : Int) (size : UInt64) : VfsProg (Int × List UInt8) := do
  let w ← get
  match fdSlot fd with
  | none => pure (mcsEbadf, [])
  | some slot =>
      let file := w.tables table slot
      if !file.used then
        pure (mcsEbadf, [])
      else
        let node := w.fs.nodes file.node
        let remain := node.size - file.offset
        let size := if size > remain then remain else size
        let source := fun index => (node.dataOffset + file.offset + UInt64.ofNat index).toNat
        forLoop 0 size.toNat fun index => emit (.loadData (source index))
        emit (.storeFileOffset table slot (file.offset + size))
        pure (size.toInt64.toInt, (List.range size.toNat).map fun index => w.fs.data (source index))

def mcsVfsWrite (table : Nat) (fd : Int) (buffer : Nat → UInt8) (size : UInt64) : VfsProg Int := do
  let w ← get
  match fdSlot fd with
  | none => pure mcsEbadf
  | some slot =>
      let file := w.tables table slot
      if !file.used then
        pure mcsEbadf
      else
        let node := w.fs.nodes file.node
        if file.offset + size > node.dataCapacity then
          pure mcsEnospc
        else
          forLoop 0 size.toNat fun index =>
            emit (.storeData (node.dataOffset + file.offset + UInt64.ofNat index).toNat
              (buffer index))
          emit (.storeFileOffset table slot (file.offset + size))
          if file.offset + size > node.size then
            emit (.storeSize file.node (file.offset + size))
            pure size.toInt64.toInt
          else
            pure size.toInt64.toInt

/-- The `switch` of `mcs_vfs_lseek`. -/
def seekTarget (file : McsFile) (node : McsVnode) (offset : Int64) (whence : Int) : Option UInt64 :=
  if whence = mcsSeekSet then some offset.toUInt64
  else if whence = mcsSeekCur then some (file.offset + offset.toUInt64)
  else if whence = mcsSeekEnd then some (node.size + offset.toUInt64)
  else none

def mcsVfsLseek (table : Nat) (fd : Int) (offset : Int64) (whence : Int) : VfsProg Int := do
  let w ← get
  match fdSlot fd with
  | none => pure mcsEbadf
  | some slot =>
      let file := w.tables table slot
      if !file.used then
        pure mcsEbadf
      else
        let node := w.fs.nodes file.node
        match seekTarget file node offset whence with
        | none => pure mcsEinval
        | some newOffset =>
            if newOffset > node.size then
              pure mcsEinval
            else
              emit (.storeFileOffset table slot newOffset)
              pure newOffset.toInt64.toInt

def mcsVfsClose (table : Nat) (fd : Int) : VfsProg Int :=
  match fdSlot fd with
  | none => pure mcsEbadf
  | some slot => do
      emit (.storeFileUsed table slot false)
      pure mcsOk

end Mcsos.Vfs
