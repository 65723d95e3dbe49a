import Mcsos.Machine.Slots
import Mcsos.Vfs.Model

/-!
The nodes of a ramfs, and what the RAM file system does to them.

`Represents` is the representation invariant while paths fit their field and
are created once: node `i` is the file `names[i]` and owns block `i - 1` of the
pool; node 0 is the root and owns nothing. `Named` only lists the names, which
may repeat there.
-/

namespace Mcsos.Vfs

open Mcsos.Machine
open Mcsos.Machine.Prog

/-- Pool bytes of the node at an index: 256 from `256 * (index - 1)` on, except
for the root. -/
def capacityOf (index : Nat) : Nat := if index = 0 then 0 else 256

/-- The node is the file of this path, with its block of the pool. -/
structure McsVnode.Is (node : McsVnode) (index : Nat) (path : CString) : Prop where
  short : path.length < 32
  stored : path.StoredIn node.name
  dataOffset : node.dataOffset.toNat = 256 * (index - 1)
  dataCapacity : node.dataCapacity.toNat = capacityOf index
  size : node.size.toNat ≤ capacityOf index

/-- The ramfs holds exactly these files, the root first. -/
structure Represents (fs : McsRamfs) (names : List CString) : Prop where
  bounded : names.length ≤ 64
  rooted : 0 < names.length
  count : fs.nodeCount.toNat = names.length
  distinct : names.Nodup
  dataUsed : fs.dataUsed.toNat = 256 * (names.length - 1)
  node : ∀ index path, names[index]? = some path → (fs.nodes index).Is index path

theorem capacityOf_le (index : Nat) : capacityOf index ≤ 256 := by
  unfold capacityOf
  split <;> omega

/-- Blocks of different nodes share no byte. -/
theorem blocks_disjoint {index other position written : Nat} (different : other ≠ index)
    (inOther : position < capacityOf other) (inIndex : written < capacityOf index) :
    256 * (other - 1) + position ≠ 256 * (index - 1) + written := by
  unfold capacityOf at inOther inIndex
  split at inOther
  · omega
  · split at inIndex
    · omega
    · omega

/-! ### Names -/

theorem nameOffset_slot {index position : Nat} (slot : index < 64) (inside : position < 32) :
    index * vnodeSize + nameOffset + position < mcsMaxNodes * vnodeSize ∧
      (index * vnodeSize + nameOffset + position) / vnodeSize = index ∧
      (index * vnodeSize + nameOffset + position) % vnodeSize = 12 + position := by
  simp only [vnodeSize, nameOffset, mcsMaxNodes]
  omega

/-- Inside the name field the layout is the field itself. -/
theorem nameAt_eq (fs : McsRamfs) {index position : Nat} (slot : index < 64)
    (inside : position < 32) : fs.nameAt index position = (fs.nodes index).name position := by
  rcases nameOffset_slot slot inside with ⟨before, quotient, remainder⟩
  rw [McsRamfs.nameAt, McsRamfs.byteAt, if_pos before, quotient, remainder, McsVnode.byteAt,
    if_neg (by omega), if_neg (by omega), if_neg (by omega), if_pos (by omega),
    Nat.add_sub_cancel_left]

theorem storeName_apply (w : VfsWorld) {index position : Nat} (slot : index < 64)
    (inside : position < 32) (value : UInt8) :
    Event.apply (VfsAccess.storeName index position value) w =
      w.modifyNode index fun node =>
        { node with name := Function.update node.name position value } := by
  rcases nameOffset_slot slot inside with ⟨before, quotient, remainder⟩
  have first : ¬ 12 + position < 4 := by omega
  have second : ¬ 12 + position < 8 := by omega
  have third : ¬ 12 + position < 12 := by omega
  have field : 12 + position < 44 := by omega
  show { w with fs := w.fs.setByte (index * vnodeSize + nameOffset + position) value } = _
  simp only [McsRamfs.setByte, before, if_true, quotient, remainder, McsVnode.setByte, first,
    second, third, field, if_false, Nat.add_sub_cancel_left, VfsWorld.modifyNode]

/-- A path that fits is copied into its field and nowhere else. -/
theorem m13Strcpy_final (w : VfsWorld) {index : Nat} (slot : index < 64) {path : CString}
    (short : path.length < 32) :
    (m13Strcpy (.storeName index) path).final w =
      w.modifyNode index fun node =>
        { node with name := writeRange node.name 0 (path.length + 1) path.byteAt } := by
  rw [m13Strcpy, strcpy_final]
  have loop := forLoop_emit_writeRange
    (fun position => VfsAccess.storeName index position (path.byteAt position))
    (fun bytes => w.modifyNode index ({ · with name := bytes }))
    (w.fs.nodes index).name 0 (path.length + 1) path.byteAt (by
      intro position inside memory
      rw [storeName_apply _ slot (by omega)]
      simp [VfsWorld.modifyNode, McsRamfs.modifyNode])
  simp only [VfsWorld.modifyNode, McsRamfs.modifyNode, Function.update_eq_self] at loop
  exact loop

/-! ### Lookup -/

/-- The nodes carry these names, oldest first, whether or not names repeat. -/
structure Named (fs : McsRamfs) (names : List CString) : Prop where
  bounded : names.length ≤ 64
  count : fs.nodeCount.toNat = names.length
  stored : ∀ index (path : CString), names[index]? = some path →
    path.length < 32 ∧ path.StoredIn (fs.nodes index).name

section

variable {fs : McsRamfs} {names : List CString}

theorem Named.storedAt (named : Named fs names) {index : Nat} {path : CString}
    (present : names[index]? = some path) : path.StoredIn (fs.nameAt index) := by
  have bounded := named.bounded
  have inside := (List.getElem?_eq_some_iff.mp present).1
  rcases named.stored index path present with ⟨short, here⟩
  intro position reached
  rw [nameAt_eq fs (by omega) (by omega)]
  exact here position reached

/-- A lookup comes to the first node with the path. -/
theorem Named.lookup (named : Named fs names) (path : CString) :
    mcsRamfsLookup fs path = names.idxOf? path := by
  rw [mcsRamfsLookup, named.count]
  apply find?_range_eq_idxOf?
  intro index name present
  simp [m13Strcmp, (named.storedAt present).strcmp_eq_zero_iff]

theorem Represents.named (represents : Represents fs names) : Named fs names := by
  refine ⟨represents.bounded, represents.count, ?_⟩
  intro index path present
  have is := represents.node index path present
  exact ⟨is.short, is.stored⟩

theorem Represents.lookup_eq_some_iff (represents : Represents fs names) (path : CString)
    (index : Nat) : mcsRamfsLookup fs path = some index ↔ names[index]? = some path := by
  rw [represents.named.lookup]
  exact idxOf?_eq_some_iff_getElem? represents.distinct

theorem Represents.lookup_eq_none_iff (represents : Represents fs names) (path : CString) :
    mcsRamfsLookup fs path = none ↔ path ∉ names := by
  rw [represents.named.lookup, List.idxOf?_eq_none_iff]

end

/-! ### Init -/

theorem mcsRamfsInit_final (w : VfsWorld) :
    mcsRamfsInit.final w =
      { w with
        fs :=
          { w.fs with
            nodeCount := 1
            dataUsed := 0
            nodes := Function.update w.fs.nodes 0
              { id := 0
                parent := 0
                type := .dir
                name := writeRange (w.fs.nodes 0).name 0 (rootName.length + 1) rootName.byteAt
                size := 0
                dataOffset := 0
                dataCapacity := 0
                padding := (w.fs.nodes 0).padding } } } := by
  have slot : 0 < 64 := by decide
  have short : rootName.length < 32 := by decide
  simp [mcsRamfsInit, m13Strcpy_final _ slot short, Event.apply, VfsAccess.apply,
    VfsWorld.modifyNode, McsRamfs.modifyNode]

theorem mcsRamfsInit_represents (w : VfsWorld) :
    Represents (mcsRamfsInit.final w).fs [rootName] := by
  rw [mcsRamfsInit_final]
  refine ⟨by decide, by decide, rfl, List.nodup_singleton _, rfl, ?_⟩
  intro index path present
  have first : index = 0 := by
    have inside := (List.getElem?_eq_some_iff.mp present).1
    simpa using inside
  subst first
  have root : path = rootName := (Option.some.inj present).symm
  subst root
  show (Function.update w.fs.nodes 0 _ 0).Is 0 rootName
  rw [Function.update_self]
  exact ⟨by decide, rootName.storedIn_writeRange _, rfl, rfl, Nat.zero_le _⟩

/-! ### Create -/

/-- A node and a block of the pool are left. -/
def HasSpace (fs : McsRamfs) : Prop :=
  fs.nodeCount.toNat < 64 ∧ (fs.dataUsed + 256).toNat < 8192

instance (fs : McsRamfs) : Decidable (HasSpace fs) := by
  unfold HasSpace
  infer_instance

theorem mcsRamfsCreateFile_full {w : VfsWorld} (full : ¬ HasSpace w.fs) (path : CString) :
    (mcsRamfsCreateFile path).result w = none ∧ (mcsRamfsCreateFile path).trace w = [] := by
  by_cases nodes : mcsMaxNodes ≤ w.fs.nodeCount.toNat
  · simp [mcsRamfsCreateFile, nodes]
  · have pool : mcsRamfsDataBytes ≤ (w.fs.dataUsed + 256).toNat := by
      by_contra below
      exact full ⟨Nat.lt_of_not_le nodes, Nat.lt_of_not_le below⟩
    simp [mcsRamfsCreateFile, nodes, -UInt64.toNat_add, pool]

/-- A create succeeds whenever there is space, whatever the path. -/
theorem mcsRamfsCreateFile_status {w : VfsWorld} (space : HasSpace w.fs) (path : CString) :
    (mcsRamfsCreateFile path).result w = some w.fs.nodeCount.toNat := by
  have nodes : ¬ mcsMaxNodes ≤ w.fs.nodeCount.toNat := Nat.not_le.mpr space.1
  have pool : ¬ mcsRamfsDataBytes ≤ (w.fs.dataUsed + 256).toNat := Nat.not_le.mpr space.2
  simp [mcsRamfsCreateFile, nodes, -UInt64.toNat_add, pool]

/-- The access is not to a descriptor table. -/
def VfsAccess.ToFs : VfsAccess → Prop
  | .storeFileUsed _ _ _ | .storeFileFlags _ _ _ | .storeFileOffset _ _ _ |
    .storeFileNode _ _ _ => False
  | _ => True

theorem VfsAccess.ToFs.tables {access : VfsAccess} (toFs : access.ToFs) (w : VfsWorld) :
    (Event.apply access w).tables = w.tables := by
  cases access with
  | storeFileUsed _ _ _ | storeFileFlags _ _ _ | storeFileOffset _ _ _ | storeFileNode _ _ _ =>
      cases toFs
  | _ => rfl

theorem mcsRamfsCreateFile_toFs (w : VfsWorld) (path : CString) :
    (mcsRamfsCreateFile path).Issues VfsAccess.ToFs w := by
  have copied : ∀ node s, (m13Strcpy (.storeName node) path).Issues VfsAccess.ToFs s := by
    intro node s
    rw [m13Strcpy, strcpy_issues_iff]
    intro position _
    trivial
  simp [mcsRamfsCreateFile, issues_ite, copied, VfsAccess.ToFs]

/-- No path reaches a descriptor table. -/
theorem mcsRamfsCreateFile_tables (w : VfsWorld) (path : CString) :
    ((mcsRamfsCreateFile path).final w).tables = w.tables :=
  final_frame VfsWorld.tables _ w fun access member =>
    (mcsRamfsCreateFile_toFs w path access member).tables

/-- The node a create makes out of the slot it takes. -/
def createdNode (fs : McsRamfs) (path : CString) : McsVnode :=
  let old := fs.nodes fs.nodeCount.toNat
  { id := fs.nodeCount
    parent := 0
    type := .file
    name := writeRange old.name 0 (path.length + 1) path.byteAt
    size := 0
    dataOffset := fs.dataUsed
    dataCapacity := 256
    padding := old.padding }

theorem mcsRamfsCreateFile_final {w : VfsWorld} (space : HasSpace w.fs) {path : CString}
    (short : path.length < 32) :
    (mcsRamfsCreateFile path).result w = some w.fs.nodeCount.toNat ∧
      (mcsRamfsCreateFile path).final w =
        { w with
          fs :=
            { w.fs with
              nodeCount := w.fs.nodeCount + 1
              dataUsed := w.fs.dataUsed + 256
              nodes := Function.update w.fs.nodes w.fs.nodeCount.toNat
                (createdNode w.fs path) } } := by
  have nodes : ¬ mcsMaxNodes ≤ w.fs.nodeCount.toNat := Nat.not_le.mpr space.1
  have pool : ¬ mcsRamfsDataBytes ≤ (w.fs.dataUsed + 256).toNat := Nat.not_le.mpr space.2
  simp [mcsRamfsCreateFile, nodes, -UInt64.toNat_add, pool, m13Strcpy_final _ space.1 short,
    Event.apply, VfsAccess.apply, VfsWorld.modifyNode, McsRamfs.modifyNode, createdNode]

/-- A create of a new path that fits adds an empty file. -/
theorem Represents.create {w : VfsWorld} {names : List CString} (represents : Represents w.fs names)
    (space : HasSpace w.fs) {path : CString} (short : path.length < 32) (fresh : path ∉ names) :
    Represents ((mcsRamfsCreateFile path).final w).fs (names ++ [path]) := by
  have bounded := represents.bounded
  have rooted := represents.rooted
  have dataUsed := represents.dataUsed
  have nodes := space.1
  rw [represents.count] at nodes
  rw [(mcsRamfsCreateFile_final space short).2]
  refine ⟨by simp; omega, by simp, ?_, ?_, ?_, ?_⟩
  · have one : (1 : UInt32).toNat = 1 := rfl
    rw [UInt32.toNat_add, one, represents.count, List.length_append, List.length_singleton]
    omega
  · rw [← List.concat_eq_append]
    exact represents.distinct.concat fresh
  · have block : (256 : UInt64).toNat = 256 := rfl
    rw [UInt64.toNat_add, block, List.length_append, List.length_singleton]
    omega
  · intro index found present
    show (Function.update w.fs.nodes w.fs.nodeCount.toNat _ index).Is index found
    rw [represents.count]
    rcases getElem?_concat_cases present with ⟨old, present⟩ | ⟨newest, same⟩
    · rw [Function.update_of_ne (by omega)]
      exact represents.node index found present
    · rw [newest, same, Function.update_self]
      have notRoot : capacityOf names.length = 256 := if_neg (by omega)
      exact ⟨short, path.storedIn_writeRange _, dataUsed, notRoot.symm, Nat.zero_le _⟩

/-! ### The pool -/

/-- The bytes of the file at an index. -/
def fileBytes (fs : McsRamfs) (index : Nat) : List UInt8 :=
  readRange fs.data (fs.nodes index).dataOffset.toNat (fs.nodes index).size.toNat

theorem fileBytes_length (fs : McsRamfs) (index : Nat) :
    (fileBytes fs index).length = (fs.nodes index).size.toNat := by
  simp [fileBytes]

theorem poolIndex {base : UInt64} {index : Nat} (inside : base.toNat + index < 2 ^ 64) :
    (base + UInt64.ofNat index).toNat = base.toNat + index := by
  have small : (UInt64.ofNat index).toNat = index := UInt64.toNat_ofNat_of_lt' (by
    show index < 2 ^ 64
    omega)
  rw [UInt64.toNat_add, small]
  omega

/-- The copy loop of `mcs_ramfs_seed_file` and `mcs_vfs_write`. -/
theorem storePool_final (w : VfsWorld) {base : UInt64} {size : Nat}
    (inside : base.toNat + size ≤ 2 ^ 64) (src : Nat → UInt8) :
    (forLoop 0 size fun index =>
      emit (VfsAccess.storeData (base + UInt64.ofNat index).toNat (src index))).final w =
      { w with fs := { w.fs with data := writeRange w.fs.data base.toNat size src } } := by
  apply forLoop_emit_writeRange
    (fun index => VfsAccess.storeData (base + UInt64.ofNat index).toNat (src index))
    (fun data => { w with fs := { w.fs with data := data } }) w.fs.data
  intro index below memory
  rw [poolIndex (by omega)]
  rfl

/-- The ramfs after bytes are written to a file from `start` on and its size is
set. -/
def McsRamfs.written (fs : McsRamfs) (index start count : Nat) (src : Nat → UInt8)
    (newSize : UInt64) : McsRamfs :=
  { fs with
    data := writeRange fs.data ((fs.nodes index).dataOffset.toNat + start) count src
    nodes := Function.update fs.nodes index { fs.nodes index with size := newSize } }

theorem written_node_self (fs : McsRamfs) (index start count : Nat) (src : Nat → UInt8)
    (newSize : UInt64) :
    (fs.written index start count src newSize).nodes index =
      { fs.nodes index with size := newSize } :=
  Function.update_self _ _ _

theorem written_node_other (fs : McsRamfs) {index other : Nat} (start count : Nat)
    (src : Nat → UInt8) (newSize : UInt64) (different : other ≠ index) :
    (fs.written index start count src newSize).nodes other = fs.nodes other :=
  Function.update_of_ne different _ _

/-- The file itself is overwritten, and extended where the bytes reach behind
its end. -/
theorem written_fileBytes_self (fs : McsRamfs) {index start count : Nat} {newSize : UInt64}
    (reached : start ≤ (fs.nodes index).size.toNat)
    (grown : newSize.toNat = max (fs.nodes index).size.toNat (start + count))
    (src : Nat → UInt8) :
    fileBytes (fs.written index start count src newSize) index =
      overwrite (fileBytes fs index) start ((List.range count).map src) := by
  rw [fileBytes, written_node_self, grown]
  exact readRange_writeRange _ _ _ _ reached

/-- A store into the block of one file leaves the bytes of the others. -/
theorem written_fileBytes_other {fs : McsRamfs} {index other : Nat} (different : other ≠ index)
    (place : (fs.nodes index).dataOffset.toNat = 256 * (index - 1))
    (otherPlace : (fs.nodes other).dataOffset.toNat = 256 * (other - 1))
    (otherSize : (fs.nodes other).size.toNat ≤ capacityOf other) {start count : Nat}
    (inBlock : start + count ≤ capacityOf index) (src : Nat → UInt8) (newSize : UInt64) :
    fileBytes (fs.written index start count src newSize) other = fileBytes fs other := by
  rw [fileBytes, written_node_other _ _ _ _ _ different]
  apply List.map_congr_left
  intro position inside
  rw [List.mem_range] at inside
  apply writeRange_outside
  rw [place, otherPlace]
  by_contra meets
  have apart := @blocks_disjoint index other position
    (256 * (other - 1) + position - 256 * (index - 1)) different (by omega) (by omega)
  omega

/-- Writing keeps the nodes in order. -/
theorem Represents.written {fs : McsRamfs} {names : List CString} (represents : Represents fs names)
    {index : Nat} {path : CString} (present : names[index]? = some path) {newSize : UInt64}
    (bounded : newSize.toNat ≤ capacityOf index) (start count : Nat) (src : Nat → UInt8) :
    Represents (fs.written index start count src newSize) names := by
  refine { represents with node := ?_ }
  intro other otherPath otherPresent
  have is := represents.node other otherPath otherPresent
  by_cases here : other = index
  · subst here
    rw [written_node_self]
    exact { is with size := bounded }
  · rw [written_node_other _ _ _ _ _ here]
    exact is

/-! ### Seed -/

theorem mcsRamfsSeedFile_full {w : VfsWorld} (full : ¬ HasSpace w.fs) (path : CString)
    (data : Nat → UInt8) (size : UInt64) :
    (mcsRamfsSeedFile path data size).result w = mcsEnospc ∧
      (mcsRamfsSeedFile path data size).final w = w := by
  rcases mcsRamfsCreateFile_full full path with ⟨refused, silent⟩
  have same : (mcsRamfsCreateFile path).final w = w := by rw [final, silent, applyAll_nil]
  simp [mcsRamfsSeedFile, refused, same]

theorem mcsRamfsSeedFile_tables (w : VfsWorld) (path : CString) (data : Nat → UInt8)
    (size : UInt64) : ((mcsRamfsSeedFile path data size).final w).tables = w.tables := by
  have toFs : (mcsRamfsSeedFile path data size).Issues VfsAccess.ToFs w := by
    rw [mcsRamfsSeedFile, issues_bind]
    refine ⟨mcsRamfsCreateFile_toFs w path, ?_⟩
    split
    · exact issues_pure _ _ _
    · simp only [issues_bind, issues_get, result_get, final_get, issues_ite, issues_emit,
        issues_pure, VfsAccess.ToFs, implies_true, and_true, true_and]
      intro _
      exact forLoop_emit_issues _ _ _ _ fun _ _ _ => trivial
  exact final_frame VfsWorld.tables _ w fun access member => (toFs access member).tables

/-- The new node of a seed has block and size of its own. -/
theorem created_node {w : VfsWorld} (space : HasSpace w.fs) {path : CString}
    (short : path.length < 32) :
    ((mcsRamfsCreateFile path).final w).fs.nodes w.fs.nodeCount.toNat = createdNode w.fs path := by
  rw [(mcsRamfsCreateFile_final space short).2]
  exact Function.update_self _ _ _

/-- A seed that does not fit leaves the empty node behind. -/
theorem mcsRamfsSeedFile_large {w : VfsWorld} (space : HasSpace w.fs) {path : CString}
    (short : path.length < 32) (data : Nat → UInt8) {size : UInt64} (large : 256 < size.toNat) :
    (mcsRamfsSeedFile path data size).result w = mcsEnospc ∧
      (mcsRamfsSeedFile path data size).final w = (mcsRamfsCreateFile path).final w := by
  have made := (mcsRamfsCreateFile_final space short).1
  have node := created_node space short
  have larger : (256 : UInt64) < size := UInt64.lt_iff_toNat_lt.mpr large
  simp [mcsRamfsSeedFile, made, node, createdNode, larger]

/-- A seed that fits succeeds whenever there is space. -/
theorem mcsRamfsSeedFile_status {w : VfsWorld} (space : HasSpace w.fs) {path : CString}
    (short : path.length < 32) (data : Nat → UInt8) {size : UInt64} (fits : size.toNat ≤ 256) :
    (mcsRamfsSeedFile path data size).result w = mcsOk := by
  have made := mcsRamfsCreateFile_status space path
  have node := created_node space short
  have notLarger : ¬ (256 : UInt64) < size := by
    rw [UInt64.lt_iff_toNat_lt]
    exact Nat.not_lt.mpr fits
  simp [mcsRamfsSeedFile, made, node, createdNode, notLarger]

theorem mcsRamfsSeedFile_final {w : VfsWorld} (space : HasSpace w.fs) {path : CString}
    (short : path.length < 32) (data : Nat → UInt8) {size : UInt64} (fits : size.toNat ≤ 256)
    (inPool : w.fs.dataUsed.toNat + size.toNat ≤ 2 ^ 64) :
    (mcsRamfsSeedFile path data size).result w = mcsOk ∧
      (mcsRamfsSeedFile path data size).final w =
        { (mcsRamfsCreateFile path).final w with
          fs := ((mcsRamfsCreateFile path).final w).fs.written w.fs.nodeCount.toNat 0 size.toNat
            data size } := by
  have made := (mcsRamfsCreateFile_final space short).1
  have node := created_node space short
  have notLarger : ¬ (256 : UInt64) < size := by
    rw [UInt64.lt_iff_toNat_lt]
    exact Nat.not_lt.mpr fits
  have stored := @storePool_final ((mcsRamfsCreateFile path).final w) w.fs.dataUsed size.toNat
    inPool data
  refine ⟨mcsRamfsSeedFile_status space short data fits, ?_⟩
  simp [mcsRamfsSeedFile, made, node, createdNode, notLarger, -UInt64.toNat_add, stored,
    Event.apply, VfsAccess.apply, VfsWorld.modifyNode, McsRamfs.modifyNode, McsRamfs.written]

end Mcsos.Vfs
