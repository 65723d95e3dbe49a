import Mcsos.Vfs.Layout

/-!
What a whole call does to the ramfs of a layout, in four cases: nothing, a new
node, a new node with bytes, or a write through a descriptor. The modules about
names and modes split on these cases and do not look at the calls again.
-/

namespace Mcsos.Vfs

open Mcsos.Machine
open Mcsos.Machine.Prog

/-- The path a call makes a node for. -/
def FsCall.adds (w : VfsWorld) : FsCall → Option CString
  | .createFile path | .vfs (.seed path _ _) => if HasSpace w.fs then some path else none
  | .vfs (.openFile _ path flags) =>
      if mcsRamfsLookup w.fs path = none ∧ flags &&& mcsOCreat ≠ 0 ∧ HasSpace w.fs then
        some path
      else
        none
  | .vfs (.read _ _ _) | .vfs (.write _ _ _ _) | .vfs (.lseek _ _ _ _) | .vfs (.close _ _) => none

section

variable {tableCount : Nat} {w : VfsWorld}

/-- A new node, for the path the call adds. -/
def MakesFile (w : VfsWorld) (call : FsCall) : Prop :=
  ∃ path, call.adds w = some path ∧ HasSpace w.fs ∧ path.length < 32 ∧
    (FsCall.next w call).fs = ((mcsRamfsCreateFile path).final w).fs

/-- A new node with the bytes of a seed. -/
def MakesSeed (w : VfsWorld) (call : FsCall) : Prop :=
  ∃ path data size, call = .vfs (.seed path data size) ∧ call.adds w = some path ∧
    HasSpace w.fs ∧ path.length < 32 ∧ size.toNat ≤ 256 ∧
    (FsCall.next w call).fs =
      ((mcsRamfsCreateFile path).final w).fs.written w.fs.nodeCount.toNat 0 size.toNat data size

/-- A write through a descriptor in use that passes its guard. -/
def WritesFile (tableCount : Nat) (w : VfsWorld) (call : FsCall) : Prop :=
  ∃ table fd buffer size slot, call = .vfs (.write table fd buffer size) ∧ table < tableCount ∧
    fdSlot fd = some slot ∧ (w.tables table slot).used = true ∧
    (w.tables table slot).offset + size ≤
      (w.fs.nodes (w.tables table slot).node).dataCapacity ∧
    (FsCall.next w call).fs = ((mcsVfsWrite table fd buffer size).final w).fs

theorem createFile_cases {path : CString} (short : path.length < 32) :
    ((FsCall.createFile path).adds w = none ∧
        (FsCall.next w (.createFile path)).fs = w.fs) ∨ MakesFile w (.createFile path) := by
  by_cases space : HasSpace w.fs
  · exact Or.inr ⟨path, if_pos space, space, short, by rw [next_createFile]⟩
  · refine Or.inl ⟨if_neg space, ?_⟩
    rw [next_createFile, final, (mcsRamfsCreateFile_full space path).2, applyAll_nil]

theorem Layout.seed_cases (layout : Layout tableCount w) {path : CString}
    (short : path.length < 32) (data : Nat → UInt8) (size : UInt64) :
    ((FsCall.vfs (.seed path data size)).adds w = none ∧
        (FsCall.next w (.vfs (.seed path data size))).fs = w.fs) ∨
      MakesFile w (.vfs (.seed path data size)) ∨ MakesSeed w (.vfs (.seed path data size)) := by
  by_cases space : HasSpace w.fs
  · right
    by_cases fits : size.toNat ≤ 256
    · have pool := layout.pool
      refine Or.inr ⟨path, data, size, rfl, if_pos space, space, short, fits, ?_⟩
      rw [next_seed, (mcsRamfsSeedFile_final space short data fits (by omega)).2]
    · refine Or.inl ⟨path, if_pos space, space, short, ?_⟩
      rw [next_seed, (mcsRamfsSeedFile_large space short data (Nat.lt_of_not_le fits)).2]
  · refine Or.inl ⟨if_neg space, ?_⟩
    rw [next_seed, (mcsRamfsSeedFile_full space path data size).2]

theorem openFile_cases (table : Nat) {path : CString} (short : path.length < 32) (flags : UInt32) :
    ((FsCall.vfs (.openFile table path flags)).adds w = none ∧
        (FsCall.next w (.vfs (.openFile table path flags))).fs = w.fs) ∨
      MakesFile w (.vfs (.openFile table path flags)) := by
  rcases mcsVfsOpen_cases w table path flags with
    ⟨missing, refused, -, same⟩ | ⟨node, after, found, outcome⟩
  · refine Or.inl ⟨if_neg ?_, by rw [next_openFile, same]⟩
    rintro ⟨-, create, space⟩
    rcases refused with noCreate | full
    · exact create noCreate
    · exact full space
  · have world : (FsCall.next w (.vfs (.openFile table path flags))).fs = after.fs := by
      rcases outcome with ⟨-, -, left⟩ | ⟨slot, -, -, -, -, left⟩
      · rw [next_openFile, left]
      · rw [next_openFile, left]
        rfl
    rcases found with ⟨there, rfl⟩ | ⟨missing, create, space, -, rfl⟩
    · refine Or.inl ⟨if_neg ?_, world⟩
      rintro ⟨missing, -⟩
      rw [there] at missing
      cases missing
    · exact Or.inr ⟨path, if_pos ⟨missing, create, space⟩, space, short, world⟩

theorem Layout.read_fs (layout : Layout tableCount w) {table : Nat} (known : table < tableCount)
    (fd : Int) (size : UInt64) : ((mcsVfsRead table fd size).final w).fs = w.fs := by
  rcases layout.opened known fd with notOpen | ⟨slot, inRange, used, inside, reached⟩
  · rw [(notOpen.calls.1 size).2]
  · have block := layout.block inside
    have fits := (layout.node _ inside).size
    rcases mcsVfsRead_open inRange rfl used rfl size reached (by omega) with ⟨count, -, -, left⟩
    rw [left]
    rfl

/-- A read through a descriptor in use returns what its file holds from its
offset on, up to the size. -/
theorem Layout.read_result (layout : Layout tableCount w) {table slot : Nat}
    (known : table < tableCount) {fd : Int} (inRange : fdSlot fd = some slot)
    (used : (w.tables table slot).used = true) (size : UInt64) :
    let bytes := ((fileBytes w.fs (w.tables table slot).node).drop
      (w.tables table slot).offset.toNat).take size.toNat
    (mcsVfsRead table fd size).result w = (Int.ofNat bytes.length, bytes) := by
  intro bytes
  have below := ((fdSlot_eq_some_iff fd slot).mp inRange).2
  obtain ⟨inside, reached⟩ := layout.file table known slot below used
  have block := layout.block inside
  have fits := (layout.node _ inside).size
  rcases mcsVfsRead_open inRange rfl used rfl size reached (by omega) with
    ⟨count, counted, answer, -⟩
  have returned : readRange w.fs.data
      ((w.fs.nodes (w.tables table slot).node).dataOffset.toNat +
        (w.tables table slot).offset.toNat) count.toNat = bytes := by
    rw [counted, ← readRange_take, ← readRange_drop]
    rfl
  rw [answer, returned, ← returned, readRange_length]

theorem Layout.write_cases (layout : Layout tableCount w) {table : Nat}
    (known : table < tableCount) (fd : Int) (buffer : Nat → UInt8) (size : UInt64) :
    (FsCall.next w (.vfs (.write table fd buffer size))).fs = w.fs ∨
      WritesFile tableCount w (.vfs (.write table fd buffer size)) := by
  rcases layout.opened known fd with notOpen | ⟨slot, inRange, used, -, -⟩
  · left
    rw [next_write, (notOpen.calls.2.1 buffer size).2]
  · by_cases fits : (w.tables table slot).offset + size ≤
        (w.fs.nodes (w.tables table slot).node).dataCapacity
    · exact Or.inr
        ⟨table, fd, buffer, size, slot, rfl, known, inRange, used, fits, by rw [next_write]⟩
    · left
      rw [next_write, (mcsVfsWrite_refused inRange rfl used rfl (UInt64.not_le.mp fits) buffer).2]

theorem Layout.lseek_fs (layout : Layout tableCount w) {table : Nat} (known : table < tableCount)
    (fd : Int) (offset : Int64) (whence : Int) :
    ((mcsVfsLseek table fd offset whence).final w).fs = w.fs := by
  rcases layout.opened known fd with notOpen | ⟨slot, inRange, used, -, -⟩
  · rw [(notOpen.calls.2.2 offset whence).2]
  · rcases mcsVfsLseek_open inRange rfl used rfl offset whence with
      ⟨-, same⟩ | ⟨newOffset, -, -, -, left⟩
    · rw [same]
    · rw [left]
      rfl

theorem close_fs (w : VfsWorld) (table : Nat) (fd : Int) :
    ((mcsVfsClose table fd).final w).fs = w.fs := by
  cases inRange : fdSlot fd with
  | none => rw [(mcsVfsClose_badFd w table inRange).2]
  | some slot =>
      rw [(mcsVfsClose_final w table inRange).2]
      rfl

/-- What a call does to the ramfs. -/
theorem Layout.next_cases (layout : Layout tableCount w) {call : FsCall}
    (short : call.Short tableCount) :
    (call.adds w = none ∧ (FsCall.next w call).fs = w.fs) ∨ MakesFile w call ∨ MakesSeed w call ∨
      (call.adds w = none ∧ WritesFile tableCount w call) := by
  cases call with
  | createFile path => exact (createFile_cases short).imp_right Or.inl
  | vfs call =>
      cases call with
      | seed path data size =>
          exact (layout.seed_cases short data size).imp_right (Or.imp_right Or.inl)
      | openFile table path flags => exact (openFile_cases table short.2 flags).imp_right Or.inl
      | read table fd size =>
          refine Or.inl ⟨rfl, ?_⟩
          simpa using layout.read_fs short fd size
      | write table fd buffer size =>
          rcases layout.write_cases short fd buffer size with same | writes
          · exact Or.inl ⟨rfl, same⟩
          · exact Or.inr (Or.inr (Or.inr ⟨rfl, writes⟩))
      | lseek table fd offset whence =>
          refine Or.inl ⟨rfl, ?_⟩
          simpa using layout.lseek_fs short fd offset whence
      | close table fd =>
          refine Or.inl ⟨rfl, ?_⟩
          simpa using close_fs w table fd

/-! ### The bytes of the files -/

/-- A new node leaves the bytes of the older files. -/
theorem created_fileBytes_old (space : HasSpace w.fs) {path : CString} (short : path.length < 32)
    {index : Nat} (older : index < w.fs.nodeCount.toNat) :
    fileBytes ((mcsRamfsCreateFile path).final w).fs index = fileBytes w.fs index := by
  rw [(mcsRamfsCreateFile_final space short).2, fileBytes, fileBytes]
  simp only [Function.update_of_ne (Nat.ne_of_lt older)]

/-- So does a store into the block of another node. -/
theorem Layout.written_fileBytes_old (layout : Layout tableCount w) {index other : Nat}
    (inside : index < w.fs.nodeCount.toNat) (otherInside : other < w.fs.nodeCount.toNat)
    (different : other ≠ index) {start count : Nat}
    (inBlock : start + count ≤ (w.fs.nodes index).dataCapacity.toNat) (src : Nat → UInt8)
    (newSize : UInt64) :
    fileBytes (w.fs.written index start count src newSize) other = fileBytes w.fs other := by
  have placed := layout.node index inside
  have otherPlaced := layout.node other otherInside
  have otherSize := otherPlaced.size
  rw [otherPlaced.dataCapacity] at otherSize
  rw [placed.dataCapacity] at inBlock
  exact written_fileBytes_other different placed.dataOffset otherPlaced.dataOffset otherSize inBlock
    src newSize

section

variable {path : CString} {data : Nat → UInt8} {size : UInt64}

/-- The file a seed makes holds the seeded bytes. -/
theorem seeded_fileBytes_new (space : HasSpace w.fs) (short : path.length < 32) :
    fileBytes (((mcsRamfsCreateFile path).final w).fs.written w.fs.nodeCount.toNat 0 size.toNat data
      size) w.fs.nodeCount.toNat = (List.range size.toNat).map data := by
  have node := created_node space short
  have empty : (((mcsRamfsCreateFile path).final w).fs.nodes w.fs.nodeCount.toNat).size.toNat = 0 :=
    by rw [node]; rfl
  have none : fileBytes ((mcsRamfsCreateFile path).final w).fs w.fs.nodeCount.toNat = [] := by
    rw [fileBytes, empty]
    rfl
  rw [written_fileBytes_self _ (Nat.zero_le _) (by omega), none]
  simp [overwrite]

/-- The older files hold what they held. -/
theorem Layout.seeded_fileBytes_old (layout : Layout tableCount w) (space : HasSpace w.fs)
    (short : path.length < 32) (fits : size.toNat ≤ 256) {index : Nat}
    (older : index < w.fs.nodeCount.toNat) :
    fileBytes (((mcsRamfsCreateFile path).final w).fs.written w.fs.nodeCount.toNat 0 size.toNat data
      size) index = fileBytes w.fs index := by
  have newest := created_inside space short
  have capacity : (((mcsRamfsCreateFile path).final w).fs.nodes
      w.fs.nodeCount.toNat).dataCapacity.toNat = 256 := by
    rw [created_node space short]
    rfl
  rw [(layout.create space short).written_fileBytes_old newest (Nat.lt_trans older newest)
    (Nat.ne_of_lt older) (by omega), created_fileBytes_old space short older]

end

end

end Mcsos.Vfs
