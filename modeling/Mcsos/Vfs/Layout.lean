import Mcsos.Vfs.Refinement

/-!
Contract: the layout of the pool and the positions of the descriptors, in every
run of the RAM file system and the virtual file system.

Nothing here depends on the names of the nodes, so a path may be created again
and again: every node has its own block of the pool, in the order of creation,
and no descriptor ever stands behind the end of its node.
-/

namespace Mcsos.Vfs

open Mcsos.Machine
open Mcsos.Machine.Prog

/-- The node at an index, with its own block of the pool; the root has an empty
one. -/
structure McsVnode.Placed (node : McsVnode) (index : Nat) : Prop where
  id : node.id.toNat = index
  dataOffset : node.dataOffset.toNat = 256 * (index - 1)
  dataCapacity : node.dataCapacity.toNat = capacityOf index
  size : node.size.toNat ≤ node.dataCapacity.toNat

/-- The layout of a world with this many descriptor tables. -/
structure Layout (tableCount : Nat) (w : VfsWorld) : Prop where
  rooted : 1 ≤ w.fs.nodeCount.toNat
  bounded : w.fs.nodeCount.toNat ≤ 64
  dataUsed : w.fs.dataUsed.toNat = 256 * (w.fs.nodeCount.toNat - 1)
  pool : w.fs.dataUsed.toNat ≤ 8192
  node : ∀ index < w.fs.nodeCount.toNat, (w.fs.nodes index).Placed index
  file : ∀ table < tableCount, ∀ slot < 16, (w.tables table slot).used = true →
    (w.tables table slot).node < w.fs.nodeCount.toNat ∧
      (w.tables table slot).offset.toNat ≤
        (w.fs.nodes (w.tables table slot).node).size.toNat

theorem vfsStart_layout (tableCount : Nat) (memory : VfsWorld) :
    Layout tableCount ((vfsStart tableCount).final memory) := by
  obtain ⟨fs, cleared⟩ := vfsStart_cleared tableCount memory
  rw [mcsRamfsInit_final] at fs
  have count : ((vfsStart tableCount).final memory).fs.nodeCount.toNat = 1 := by rw [fs]; rfl
  have used : ((vfsStart tableCount).final memory).fs.dataUsed.toNat = 0 := by rw [fs]; rfl
  refine ⟨by omega, by omega, by omega, by omega, ?_, ?_⟩
  · intro index inside
    have first : index = 0 := by omega
    rw [first, fs]
    simp only [Function.update_self]
    exact ⟨rfl, rfl, rfl, Nat.zero_le _⟩
  · intro table known slot below inUse
    rw [cleared table known slot below] at inUse
    cases inUse

section

variable {tableCount : Nat} {w : VfsWorld}

/-! ### What changes -/

/-- A descriptor is replaced by one that stands inside a node, or by one that
is not in use. -/
theorem Layout.setFile (layout : Layout tableCount w) {table slot : Nat}
    {change : McsFile → McsFile}
    (inside : (change (w.tables table slot)).used = true →
      (change (w.tables table slot)).node < w.fs.nodeCount.toNat ∧
        (change (w.tables table slot)).offset.toNat ≤
          (w.fs.nodes (change (w.tables table slot)).node).size.toNat) :
    Layout tableCount (w.modifyFile table slot change) := by
  refine ⟨layout.rooted, layout.bounded, layout.dataUsed, layout.pool, layout.node, ?_⟩
  intro other known otherSlot below
  by_cases here : (other, otherSlot) = (table, slot)
  · obtain ⟨rfl, rfl⟩ := Prod.mk.inj here
    rw [modifyFile_self]
    exact inside
  · rw [modifyFile_other _ _ here]
    exact layout.file other known otherSlot below

/-- The pool changes, and one node, which does not get shorter and stays inside
its block. -/
theorem Layout.resize (layout : Layout tableCount w) {index : Nat} (data : Nat → UInt8)
    {newSize : UInt64} (grown : (w.fs.nodes index).size.toNat ≤ newSize.toNat)
    (bounded : newSize.toNat ≤ (w.fs.nodes index).dataCapacity.toNat) :
    Layout tableCount
      { w with fs := { w.fs with
        data := data
        nodes := Function.update w.fs.nodes index { w.fs.nodes index with size := newSize } } } := by
  refine ⟨layout.rooted, layout.bounded, layout.dataUsed, layout.pool, ?_, ?_⟩
  · intro other inside
    have placed := layout.node other inside
    show (Function.update w.fs.nodes index _ other).Placed other
    by_cases here : other = index
    · subst here
      rw [Function.update_self]
      exact ⟨placed.id, placed.dataOffset, placed.dataCapacity, bounded⟩
    · rw [Function.update_of_ne here]
      exact placed
  · intro table known slot below used
    obtain ⟨inside, reached⟩ := layout.file table known slot below used
    refine ⟨inside, ?_⟩
    show _ ≤ (Function.update w.fs.nodes index _ _).size.toNat
    by_cases here : (w.tables table slot).node = index
    · rw [here] at reached ⊢
      rw [Function.update_self]
      exact Nat.le_trans reached grown
    · rw [Function.update_of_ne here]
      exact reached

theorem Layout.create (layout : Layout tableCount w) (space : HasSpace w.fs) {path : CString}
    (short : path.length < 32) : Layout tableCount ((mcsRamfsCreateFile path).final w) := by
  have rooted := layout.rooted
  have dataUsed := layout.dataUsed
  have bounded := layout.bounded
  obtain ⟨nodes, pool⟩ := space
  have block : (256 : UInt64).toNat = 256 := rfl
  have count : (w.fs.nodeCount + 1).toNat = w.fs.nodeCount.toNat + 1 := by
    have one : (1 : UInt32).toNat = 1 := rfl
    rw [UInt32.toNat_add, one]
    omega
  have used : (w.fs.dataUsed + 256).toNat = w.fs.dataUsed.toNat + 256 := by
    rw [UInt64.toNat_add, block]
    omega
  rw [(mcsRamfsCreateFile_final ⟨nodes, pool⟩ short).2]
  refine ⟨?_, ?_, ?_, Nat.le_of_lt pool, ?_, ?_⟩
  · show 1 ≤ (w.fs.nodeCount + 1).toNat
    omega
  · show (w.fs.nodeCount + 1).toNat ≤ 64
    omega
  · show (w.fs.dataUsed + 256).toNat = 256 * ((w.fs.nodeCount + 1).toNat - 1)
    omega
  · intro index inside
    show (Function.update w.fs.nodes w.fs.nodeCount.toNat _ index).Placed index
    replace inside : index < (w.fs.nodeCount + 1).toNat := inside
    by_cases newest : index = w.fs.nodeCount.toNat
    · have notRoot : capacityOf index = 256 := if_neg (by omega)
      rw [newest] at notRoot ⊢
      rw [Function.update_self]
      exact ⟨rfl, dataUsed, notRoot.symm, Nat.zero_le _⟩
    · rw [Function.update_of_ne newest]
      exact layout.node index (by omega)
  · intro table known slot below inUse
    obtain ⟨inside, reached⟩ := layout.file table known slot below inUse
    have older : (w.tables table slot).node ≠ w.fs.nodeCount.toNat := by omega
    refine ⟨?_, ?_⟩
    · show _ < (w.fs.nodeCount + 1).toNat
      rw [count]
      exact Nat.lt_succ_of_lt inside
    · show _ ≤ (Function.update w.fs.nodes w.fs.nodeCount.toNat _ _).size.toNat
      rw [Function.update_of_ne older]
      exact reached

/-! ### The calls keep the layout -/

theorem Layout.createFile (layout : Layout tableCount w) {path : CString}
    (short : path.length < 32) : Layout tableCount ((mcsRamfsCreateFile path).final w) := by
  by_cases space : HasSpace w.fs
  · exact layout.create space short
  · rw [final, (mcsRamfsCreateFile_full space path).2, applyAll_nil]
    exact layout

theorem Layout.seed (layout : Layout tableCount w) {path : CString} (short : path.length < 32)
    (data : Nat → UInt8) (size : UInt64) :
    Layout tableCount ((mcsRamfsSeedFile path data size).final w) := by
  by_cases space : HasSpace w.fs
  · have created := layout.create space short
    by_cases fits : size.toNat ≤ 256
    · have pool := layout.pool
      have node := created_node space short
      rw [(mcsRamfsSeedFile_final space short data fits (by omega)).2]
      apply created.resize
      · rw [node]
        exact Nat.zero_le _
      · rw [node]
        exact fits
    · rw [(mcsRamfsSeedFile_large space short data (Nat.not_le.mp fits)).2]
      exact created
  · rw [(mcsRamfsSeedFile_full space path data size).2]
    exact layout

theorem lookup_lt {fs : McsRamfs} {path : CString} {node : Nat}
    (found : mcsRamfsLookup fs path = some node) : node < fs.nodeCount.toNat := by
  have member := List.mem_of_find?_eq_some found
  exact List.mem_range.mp member

theorem created_inside (space : HasSpace w.fs) {path : CString} (short : path.length < 32) :
    w.fs.nodeCount.toNat < ((mcsRamfsCreateFile path).final w).fs.nodeCount.toNat := by
  have one : (1 : UInt32).toNat = 1 := rfl
  have nodes := space.1
  rw [(mcsRamfsCreateFile_final space short).2]
  show w.fs.nodeCount.toNat < (w.fs.nodeCount + 1).toNat
  rw [UInt32.toNat_add, one]
  omega

theorem Layout.openFile (layout : Layout tableCount w) (table : Nat) {path : CString}
    (short : path.length < 32) (flags : UInt32) :
    Layout tableCount ((mcsVfsOpen table path flags).final w) := by
  rcases mcsVfsOpen_cases w table path flags with
    ⟨-, -, -, same⟩ | ⟨node, after, found, outcome⟩
  · rw [same]
    exact layout
  · have opened : Layout tableCount after ∧ node < after.fs.nodeCount.toNat := by
      rcases found with ⟨there, rfl⟩ | ⟨-, -, space, rfl, rfl⟩
      · exact ⟨layout, lookup_lt there⟩
      · exact ⟨layout.create space short, created_inside space short⟩
    rcases outcome with ⟨-, -, left⟩ | ⟨slot, -, -, -, -, left⟩
    · rw [left]
      exact opened.1
    · rw [left]
      exact opened.1.setFile fun _ => ⟨opened.2, Nat.zero_le _⟩

/-- A descriptor is closed or out of range, or stands inside its node. -/
theorem Layout.opened (layout : Layout tableCount w) {table : Nat} (known : table < tableCount)
    (fd : Int) :
    NotOpen w table fd ∨
      ∃ slot, fdSlot fd = some slot ∧ (w.tables table slot).used = true ∧
        (w.tables table slot).node < w.fs.nodeCount.toNat ∧
        (w.tables table slot).offset.toNat ≤
          (w.fs.nodes (w.tables table slot).node).size.toNat := by
  cases inRange : fdSlot fd with
  | none =>
      left
      intro slot impossible
      rw [inRange] at impossible
      cases impossible
  | some slot =>
      have below := ((fdSlot_eq_some_iff fd slot).mp inRange).2
      cases used : (w.tables table slot).used with
      | false =>
          left
          intro other same
          rw [inRange, Option.some.injEq] at same
          rwa [← same]
      | true =>
          right
          obtain ⟨inside, reached⟩ := layout.file table known slot below used
          exact ⟨slot, rfl, used, inside, reached⟩

/-- The block of a node lies in the pool. -/
theorem Layout.block (layout : Layout tableCount w) {index : Nat}
    (inside : index < w.fs.nodeCount.toNat) :
    (w.fs.nodes index).dataOffset.toNat + (w.fs.nodes index).dataCapacity.toNat ≤ 8192 := by
  have placed := layout.node index inside
  have dataUsed := layout.dataUsed
  have pool := layout.pool
  rw [placed.dataOffset, placed.dataCapacity, capacityOf]
  split <;> omega

theorem Layout.read (layout : Layout tableCount w) {table : Nat} (known : table < tableCount)
    (fd : Int) (size : UInt64) : Layout tableCount ((mcsVfsRead table fd size).final w) := by
  rcases layout.opened known fd with notOpen | ⟨slot, inRange, used, inside, reached⟩
  · rw [(notOpen.calls.1 size).2]
    exact layout
  · have block := layout.block inside
    have fits := (layout.node _ inside).size
    rcases mcsVfsRead_open inRange rfl used rfl size reached (by omega) with
      ⟨count, counted, -, left⟩
    rw [left]
    apply layout.setFile
    intro _
    refine ⟨inside, ?_⟩
    show ((w.tables table slot).offset + count).toNat ≤
      (w.fs.nodes (w.tables table slot).node).size.toNat
    rw [UInt64.toNat_add]
    omega

/-- A write keeps the layout, whether or not the sum in its guard wraps: the
guard bounds the offset it leaves. -/
theorem Layout.write (layout : Layout tableCount w) {table : Nat} (known : table < tableCount)
    (fd : Int) (buffer : Nat → UInt8) (size : UInt64) :
    Layout tableCount ((mcsVfsWrite table fd buffer size).final w) := by
  rcases layout.opened known fd with notOpen | ⟨slot, inRange, used, inside, reached⟩
  · rw [(notOpen.calls.2.1 buffer size).2]
    exact layout
  · by_cases fits : (w.tables table slot).offset + size ≤
        (w.fs.nodes (w.tables table slot).node).dataCapacity
    · obtain ⟨data, left⟩ := mcsVfsWrite_passed inRange rfl used rfl fits buffer
      have end' := UInt64.le_iff_toNat_le.mp fits
      have bounded := (layout.node _ inside).size
      have grown := grown_toNat (w.fs.nodes (w.tables table slot).node).size
        ((w.tables table slot).offset + size)
      rw [left]
      apply (layout.resize data (by omega) (by omega)).setFile
      intro _
      refine ⟨inside, ?_⟩
      show ((w.tables table slot).offset + size).toNat ≤
        (Function.update w.fs.nodes (w.tables table slot).node _
          (w.tables table slot).node).size.toNat
      rw [Function.update_self]
      exact (Nat.le_max_right _ _).trans_eq grown.symm
    · rw [(mcsVfsWrite_refused inRange rfl used rfl (UInt64.not_le.mp fits) buffer).2]
      exact layout

theorem Layout.lseek (layout : Layout tableCount w) {table : Nat} (known : table < tableCount)
    (fd : Int) (offset : Int64) (whence : Int) :
    Layout tableCount ((mcsVfsLseek table fd offset whence).final w) := by
  rcases layout.opened known fd with notOpen | ⟨slot, inRange, used, inside, -⟩
  · rw [(notOpen.calls.2.2 offset whence).2]
    exact layout
  · rcases mcsVfsLseek_open inRange rfl used rfl offset whence with
      ⟨-, same⟩ | ⟨newOffset, -, reached, -, left⟩
    · rw [same]
      exact layout
    · rw [left]
      exact layout.setFile fun _ => ⟨inside, reached⟩

theorem Layout.close (layout : Layout tableCount w) (table : Nat) (fd : Int) :
    Layout tableCount ((mcsVfsClose table fd).final w) := by
  cases inRange : fdSlot fd with
  | none =>
      rw [(mcsVfsClose_badFd w table inRange).2]
      exact layout
  | some slot =>
      rw [(mcsVfsClose_final w table inRange).2]
      apply layout.setFile
      intro used
      cases used

/-! ### Accesses to the pool -/

/-- An access to the pool is to the block of the node. -/
def VfsAccess.InBlock (index : Nat) : VfsAccess → Prop
  | .loadData offset | .storeData offset _ =>
      256 * (index - 1) ≤ offset ∧ offset < 256 * (index - 1) + capacityOf index ∧ offset < 8192
  | _ => True

theorem mcsRamfsCreateFile_issues (path : CString) (index : Nat) (w : VfsWorld) :
    (mcsRamfsCreateFile path).Issues (VfsAccess.InBlock index) w := by
  have copied : ∀ node s, (m13Strcpy (.storeName node) path).Issues (VfsAccess.InBlock index) s := by
    intro node s
    rw [m13Strcpy, strcpy_issues_iff]
    intro position _
    trivial
  simp [mcsRamfsCreateFile, issues_ite, copied, VfsAccess.InBlock]

/-- The loop of an open stores to the table only. -/
theorem takeDescriptor_toTable (table node : Nat) (flags : UInt32) (w : VfsWorld) :
    (scanLoop 0 mcsMaxOpenFiles (Vfs.takeDescriptor table node flags)).Issues
      (fun access => ¬ access.ToFs) w := by
  refine scanLoop_issues 0 mcsMaxOpenFiles (Vfs.takeDescriptor table node flags) _
    (fun _ _ => True) trivial ?_
  intro fd s _ _ _
  refine ⟨?_, fun _ => trivial⟩
  cases used : (s.tables table fd).used with
  | true => simp [Vfs.takeDescriptor, used]
  | false => simp [Vfs.takeDescriptor, used, VfsAccess.ToFs]

theorem takeDescriptor_issues (table node : Nat) (flags : UInt32) (index : Nat) (w : VfsWorld) :
    (scanLoop 0 mcsMaxOpenFiles (Vfs.takeDescriptor table node flags)).Issues
      (VfsAccess.InBlock index) w := by
  intro access member
  have toTable := takeDescriptor_toTable table node flags w access member
  cases access with
  | loadData _ | storeData _ _ => exact absurd trivial toTable
  | _ => trivial

theorem mcsVfsOpen_issues (table : Nat) (path : CString) (flags : UInt32) (index : Nat)
    (w : VfsWorld) : (mcsVfsOpen table path flags).Issues (VfsAccess.InBlock index) w := by
  have made : (openNode path flags).Issues (VfsAccess.InBlock index) w := by
    rw [openNode, issues_bind]
    refine ⟨issues_get _ _, ?_⟩
    simp only [result_get, final_get]
    split
    · exact issues_pure _ _ _
    · rw [issues_ite]
      refine ⟨fun _ => issues_pure _ _ _, fun _ => ?_⟩
      rw [issues_bind]
      refine ⟨mcsRamfsCreateFile_issues path index w, ?_⟩
      split <;> exact issues_pure _ _ _
  rw [mcsVfsOpen, issues_bind]
  refine ⟨made, ?_⟩
  split
  · exact issues_pure _ _ _
  · rw [issues_bind]
    exact ⟨takeDescriptor_issues _ _ _ _ _, issues_pure _ _ _⟩

theorem mcsVfsLseek_issues (table : Nat) (fd : Int) (offset : Int64) (whence : Int) (index : Nat)
    (w : VfsWorld) : (mcsVfsLseek table fd offset whence).Issues (VfsAccess.InBlock index) w := by
  rw [mcsVfsLseek, issues_bind]
  refine ⟨issues_get _ _, ?_⟩
  simp only [result_get, final_get]
  split
  · exact issues_pure _ _ _
  · rw [issues_ite]
    refine ⟨fun _ => issues_pure _ _ _, fun _ => ?_⟩
    split
    · exact issues_pure _ _ _
    · simp [issues_ite, VfsAccess.InBlock]

theorem mcsVfsClose_issues (table : Nat) (fd : Int) (index : Nat) (w : VfsWorld) :
    (mcsVfsClose table fd).Issues (VfsAccess.InBlock index) w := by
  unfold mcsVfsClose
  split
  · exact issues_pure _ _ _
  · simp [VfsAccess.InBlock]

/-- An access to a position of a node inside its capacity, by the 64-bit index
the source computes for it. -/
theorem Layout.inBlock (layout : Layout tableCount w) {index : Nat}
    (inside : index < w.fs.nodeCount.toNat) (start : UInt64) (ahead : Nat)
    (below : start.toNat + ahead < (w.fs.nodes index).dataCapacity.toNat) :
    VfsAccess.InBlock index
      (.loadData ((w.fs.nodes index).dataOffset + start + UInt64.ofNat ahead).toNat) := by
  have block := layout.block inside
  have dataOffset := (layout.node index inside).dataOffset
  have dataCapacity := (layout.node index inside).dataCapacity
  have base : ((w.fs.nodes index).dataOffset + start).toNat =
      (w.fs.nodes index).dataOffset.toNat + start.toNat := by
    rw [UInt64.toNat_add]
    omega
  rw [VfsAccess.InBlock, poolIndex (by omega), base]
  omega

theorem Layout.seed_issues (layout : Layout tableCount w) {path : CString}
    (short : path.length < 32) (data : Nat → UInt8) (size : UInt64) :
    (mcsRamfsSeedFile path data size).Issues (VfsAccess.InBlock w.fs.nodeCount.toNat) w := by
  rw [mcsRamfsSeedFile, issues_bind]
  refine ⟨mcsRamfsCreateFile_issues path _ w, ?_⟩
  by_cases space : HasSpace w.fs
  · have created := layout.create space short
    rw [(mcsRamfsCreateFile_final space short).1]
    simp only [issues_bind, issues_get, result_get, final_get, true_and]
    rw [issues_ite]
    refine ⟨fun _ => issues_pure _ _ _, fun fits => ?_⟩
    simp only [issues_bind, issues_emit, issues_pure, VfsAccess.InBlock, and_true]
    apply forLoop_emit_issues
    intro index _ below
    have small := UInt64.le_iff_toNat_le.mp (UInt64.not_lt.mp fits)
    have zero : (0 : UInt64).toNat = 0 := rfl
    have here := created.inBlock (created_inside space short) 0 index (by omega)
    rwa [UInt64.add_zero] at here
  · rw [(mcsRamfsCreateFile_full space path).1]
    exact issues_pure _ _ _

/-- The node a descriptor stands in. -/
def VfsWorld.nodeOf (w : VfsWorld) (table : Nat) (fd : Int) : Nat := (w.tables table fd.toNat).node

theorem NotOpen.issues {table : Nat} {fd : Int} (notOpen : NotOpen w table fd)
    (good : VfsAccess → Prop) :
    (∀ size, (mcsVfsRead table fd size).Issues good w) ∧
      ∀ buffer size, (mcsVfsWrite table fd buffer size).Issues good w := by
  cases inRange : fdSlot fd with
  | none => simp [mcsVfsRead, mcsVfsWrite, inRange]
  | some slot =>
      have unused := notOpen slot inRange
      simp [mcsVfsRead, mcsVfsWrite, inRange, unused]

theorem nodeOf_slot {table slot : Nat} {fd : Int} (inRange : fdSlot fd = some slot) :
    w.nodeOf table fd = (w.tables table slot).node := by
  obtain ⟨rfl, -⟩ := (fdSlot_eq_some_iff fd slot).mp inRange
  rfl

/-- The subtraction of a read does not wrap, since the descriptor stands inside
its node. -/
theorem Layout.remain (layout : Layout tableCount w) {table slot : Nat} (known : table < tableCount)
    (below : slot < 16) (used : (w.tables table slot).used = true) :
    ((w.fs.nodes (w.tables table slot).node).size - (w.tables table slot).offset).toNat =
      (w.fs.nodes (w.tables table slot).node).size.toNat - (w.tables table slot).offset.toNat :=
  UInt64.toNat_sub_of_le _ _
    (UInt64.le_iff_toNat_le.mpr (layout.file table known slot below used).2)

theorem Layout.read_issues (layout : Layout tableCount w) {table : Nat} (known : table < tableCount)
    (fd : Int) (size : UInt64) :
    (mcsVfsRead table fd size).Issues (VfsAccess.InBlock (w.nodeOf table fd)) w := by
  rcases layout.opened known fd with notOpen | ⟨slot, inRange, used, inside, -⟩
  · exact (notOpen.issues _).1 size
  · have remain := layout.remain known ((fdSlot_eq_some_iff fd slot).mp inRange).2 used
    have fits := (layout.node _ inside).size
    rw [nodeOf_slot inRange]
    simp only [mcsVfsRead, issues_bind, issues_get, result_get, final_get, inRange, used,
      Bool.not_true, Bool.false_eq_true, if_false, issues_emit, issues_pure, VfsAccess.InBlock,
      and_true, true_and]
    apply forLoop_emit_issues
    intro index _ below
    apply layout.inBlock inside (w.tables table slot).offset index
    split at below
    next larger => omega
    next smaller =>
      have order := UInt64.le_iff_toNat_le.mp (UInt64.not_lt.mp smaller)
      omega

theorem Layout.write_issues (layout : Layout tableCount w) {table : Nat}
    (known : table < tableCount) (fd : Int) (buffer : Nat → UInt8) {size : UInt64}
    (noWrap : ∀ slot, fdSlot fd = some slot → (w.tables table slot).used = true →
      (w.tables table slot).offset.toNat + size.toNat < 2 ^ 64) :
    (mcsVfsWrite table fd buffer size).Issues (VfsAccess.InBlock (w.nodeOf table fd)) w := by
  rcases layout.opened known fd with notOpen | ⟨slot, inRange, used, inside, -⟩
  · exact (notOpen.issues _).2 buffer size
  · rw [nodeOf_slot inRange]
    simp only [mcsVfsWrite, issues_bind, issues_get, result_get, final_get, inRange, used,
      Bool.not_true, Bool.false_eq_true, if_false, issues_ite, issues_emit, issues_pure,
      VfsAccess.InBlock, implies_true, and_true, true_and]
    intro fits
    apply forLoop_emit_issues
    intro index _ below
    have order := UInt64.le_iff_toNat_le.mp (UInt64.not_lt.mp fits)
    have small := noWrap slot inRange used
    rw [UInt64.toNat_add] at order
    exact layout.inBlock inside (w.tables table slot).offset index (by omega)

end

/-! ### Whole runs -/

/-- The calls of the virtual file system, and the one of the RAM file system
that is not among them. -/
inductive FsCall where
  | createFile (path : CString)
  | vfs (call : VfsCall)

def FsCall.exec : FsCall → VfsProg Unit
  | .createFile path => do let _ ← mcsRamfsCreateFile path
  | .vfs call => do let _ ← call.exec

def FsCall.next (w : VfsWorld) (call : FsCall) : VfsWorld := call.exec.final w

section

variable (w : VfsWorld) (path : CString) (table : Nat) (fd : Int)

@[simp] theorem next_createFile :
    FsCall.next w (.createFile path) = (mcsRamfsCreateFile path).final w := by
  simp [FsCall.next, FsCall.exec]

@[simp] theorem next_seed (data : Nat → UInt8) (size : UInt64) :
    FsCall.next w (.vfs (.seed path data size)) = (mcsRamfsSeedFile path data size).final w := by
  simp [FsCall.next, FsCall.exec, VfsCall.exec]

@[simp] theorem next_openFile (flags : UInt32) :
    FsCall.next w (.vfs (.openFile table path flags)) = (mcsVfsOpen table path flags).final w := by
  simp [FsCall.next, FsCall.exec, VfsCall.exec]

@[simp] theorem next_read (size : UInt64) :
    FsCall.next w (.vfs (.read table fd size)) = (mcsVfsRead table fd size).final w := by
  simp [FsCall.next, FsCall.exec, VfsCall.exec]

@[simp] theorem next_write (buffer : Nat → UInt8) (size : UInt64) :
    FsCall.next w (.vfs (.write table fd buffer size)) =
      (mcsVfsWrite table fd buffer size).final w := by
  simp [FsCall.next, FsCall.exec, VfsCall.exec]

@[simp] theorem next_lseek (offset : Int64) (whence : Int) :
    FsCall.next w (.vfs (.lseek table fd offset whence)) =
      (mcsVfsLseek table fd offset whence).final w := by
  simp [FsCall.next, FsCall.exec, VfsCall.exec]

@[simp] theorem next_close :
    FsCall.next w (.vfs (.close table fd)) = (mcsVfsClose table fd).final w := by
  simp [FsCall.next, FsCall.exec, VfsCall.exec]

end

/-- Paths fit their field, writes end below `2 ^ 64`, and only tables that were
initialised are used. -/
def FsCall.Allowed (tableCount : Nat) (w : VfsWorld) : FsCall → Prop
  | .createFile path | .vfs (.seed path _ _) => path.length < 32
  | .vfs (.openFile table path _) => table < tableCount ∧ path.length < 32
  | .vfs (.write table fd _ size) =>
      table < tableCount ∧ ∀ slot, fdSlot fd = some slot → (w.tables table slot).used = true →
        (w.tables table slot).offset.toNat + size.toNat < 2 ^ 64
  | .vfs (.read table _ _) | .vfs (.lseek table _ _ _) | .vfs (.close table _) =>
      table < tableCount

/-- Paths fit their field, and only tables that were initialised are used. -/
def FsCall.Short (tableCount : Nat) : FsCall → Prop
  | .createFile path | .vfs (.seed path _ _) => path.length < 32
  | .vfs (.openFile table path _) => table < tableCount ∧ path.length < 32
  | .vfs (.read table _ _) | .vfs (.write table _ _ _) | .vfs (.lseek table _ _ _) |
    .vfs (.close table _) => table < tableCount

theorem FsCall.Allowed.short {tableCount : Nat} {w : VfsWorld} {call : FsCall}
    (allowed : call.Allowed tableCount w) : call.Short tableCount := by
  cases call with
  | createFile path => exact allowed
  | vfs call =>
      cases call with
      | write table fd buffer size => exact allowed.1
      | _ => exact allowed

/-- The node a call accesses the pool for: the one it makes, or the one its
descriptor stands in. -/
def FsCall.node (w : VfsWorld) : FsCall → Nat
  | .createFile _ | .vfs (.seed _ _ _) | .vfs (.openFile _ _ _) => w.fs.nodeCount.toNat
  | .vfs (.read table fd _) | .vfs (.write table fd _ _) | .vfs (.lseek table fd _ _) |
    .vfs (.close table fd) => w.nodeOf table fd

/-- The call keeps the layout, its accesses to the pool are inside the block of
its node, and the subtraction a read begins with does not wrap. -/
structure KeepsLayout (tableCount : Nat) (w : VfsWorld) (call : FsCall) : Prop where
  layout : Layout tableCount (FsCall.next w call)
  inBlock : ∀ access ∈ call.exec.trace w, access.InBlock (call.node w)
  remain : ∀ table fd size slot, call = .vfs (.read table fd size) → fdSlot fd = some slot →
    (w.tables table slot).used = true →
      ((w.fs.nodes (w.tables table slot).node).size - (w.tables table slot).offset).toNat =
        (w.fs.nodes (w.tables table slot).node).size.toNat -
          (w.tables table slot).offset.toNat

section

variable {tableCount : Nat} {w : VfsWorld} (layout : Layout tableCount w)

include layout

theorem Layout.next {call : FsCall} (short : call.Short tableCount) :
    Layout tableCount (FsCall.next w call) := by
  cases call with
  | createFile path => simpa using layout.createFile short
  | vfs call =>
      cases call with
      | seed path data size =>
          simpa using layout.seed short data size
      | openFile table path flags =>
          simpa using layout.openFile table short.2 flags
      | read table fd size =>
          simpa using layout.read short fd size
      | write table fd buffer size =>
          simpa using layout.write short fd buffer size
      | lseek table fd offset whence =>
          simpa using layout.lseek short fd offset whence
      | close table fd =>
          simpa using layout.close table fd

theorem Layout.issues {call : FsCall} (allowed : call.Allowed tableCount w) :
    call.exec.Issues (VfsAccess.InBlock (call.node w)) w := by
  cases call with
  | createFile path => simpa [FsCall.exec] using mcsRamfsCreateFile_issues path _ w
  | vfs call =>
      cases call with
      | seed path data size =>
          simpa [FsCall.exec, VfsCall.exec, FsCall.node] using layout.seed_issues allowed data size
      | openFile table path flags =>
          simpa [FsCall.exec, VfsCall.exec, FsCall.node] using mcsVfsOpen_issues table path flags _ w
      | read table fd size =>
          simpa [FsCall.exec, VfsCall.exec, FsCall.node] using layout.read_issues allowed fd size
      | write table fd buffer size =>
          simpa [FsCall.exec, VfsCall.exec, FsCall.node] using
            layout.write_issues allowed.1 fd buffer allowed.2
      | lseek table fd offset whence =>
          simpa [FsCall.exec, VfsCall.exec] using mcsVfsLseek_issues table fd offset whence _ w
      | close table fd =>
          simpa [FsCall.exec, VfsCall.exec] using mcsVfsClose_issues table fd _ w

theorem Layout.keeps {call : FsCall} (allowed : call.Allowed tableCount w) :
    KeepsLayout tableCount w call := by
  refine ⟨layout.next allowed.short, layout.issues allowed, ?_⟩
  intro table fd size slot isRead inRange used
  subst isRead
  exact layout.remain allowed ((fdSlot_eq_some_iff fd slot).mp inRange).2 used

end

/-- The layout holds at the start and is kept by every run, over any number of
descriptor tables and whatever the memory was. -/
theorem run_keeps_layout (tableCount : Nat) (memory : VfsWorld) (calls : List FsCall)
    (allowed : EveryCall FsCall.next (fun w call => call.Allowed tableCount w) calls
      ((vfsStart tableCount).final memory)) :
    Layout tableCount ((vfsStart tableCount).final memory) ∧
      EveryCall FsCall.next (KeepsLayout tableCount) calls
        ((vfsStart tableCount).final memory) := by
  refine ⟨vfsStart_layout tableCount memory, ?_⟩
  refine everyCall_of_invariant (Layout tableCount) ?_ (vfsStart_layout tableCount memory) allowed
  intro w call layout isAllowed
  exact ⟨layout.keeps isAllowed, layout.next isAllowed.short⟩

/-- The layout of every state that calls with short paths lead to. -/
theorem reachable_layout (tableCount : Nat) (memory : VfsWorld) {calls : List FsCall}
    (short : ∀ call ∈ calls, call.Short tableCount) :
    Layout tableCount (calls.foldl FsCall.next ((vfsStart tableCount).final memory)) :=
  EveryCall.final (Layout tableCount) (fun _ _ layout here => layout.next here)
    (everyCall_of_forall short _) (vfsStart_layout tableCount memory)

/-- A path is created twice, the second time through a seed, and the first node
is opened, written and read. -/
def createdTwice : List FsCall :=
  [.createFile helloPath, .vfs (.seed helloPath (fun _ => 7) 300), .vfs (.openFile 0 helloPath 0),
    .vfs (.write 0 0 (fun _ => 9) 256), .vfs (.read 0 0 8)]

theorem run_keeps_layout_createdTwice :
    EveryCall FsCall.next (KeepsLayout 1) createdTwice ((vfsStart 1).final zeroedWorld) := by
  have short : helloPath.length < 32 := by decide
  refine (run_keeps_layout 1 zeroedWorld createdTwice
    ⟨short, short, ⟨by decide, short⟩, ⟨by decide, ?_⟩, show 0 < 1 by decide, trivial⟩).2
  intro slot inRange _
  rw [fdSlot_zero inRange]
  decide +kernel

end Mcsos.Vfs
