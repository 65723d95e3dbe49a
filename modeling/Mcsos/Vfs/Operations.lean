import Mcsos.Vfs.Nodes

/-!
What each call of the virtual file system does to a world, one description for
each way it can end. Later modules use these descriptions and do not look into
the programs.
-/

namespace Mcsos.Vfs

open Mcsos.Machine
open Mcsos.Machine.Prog

/-! ### Descriptor tables -/

theorem modifyFile_self (w : VfsWorld) (table fd : Nat) (change : McsFile → McsFile) :
    (w.modifyFile table fd change).tables table fd = change (w.tables table fd) := by
  simp [VfsWorld.modifyFile]

theorem modifyFile_other (w : VfsWorld) {table fd other otherFd : Nat}
    (change : McsFile → McsFile) (different : (other, otherFd) ≠ (table, fd)) :
    (w.modifyFile table fd change).tables other otherFd = w.tables other otherFd := by
  by_cases sameTable : other = table
  · subst sameTable
    have otherSlot : otherFd ≠ fd := fun same => different (by rw [same])
    simp [VfsWorld.modifyFile, Function.update_of_ne otherSlot]
  · simp [VfsWorld.modifyFile, Function.update_of_ne sameTable]

theorem modifyFile_modifyFile (w : VfsWorld) (table fd : Nat) (first second : McsFile → McsFile) :
    (w.modifyFile table fd first).modifyFile table fd second =
      w.modifyFile table fd fun file => second (first file) := by
  simp [VfsWorld.modifyFile]

theorem fdSlot_eq_some_iff (fd : Int) (slot : Nat) :
    fdSlot fd = some slot ↔ fd = slot ∧ slot < 16 := by
  unfold fdSlot mcsMaxOpenFiles
  split
  · simp
    omega
  · simp
    omega

theorem fdSlot_zero {slot : Nat} (inRange : fdSlot 0 = some slot) : slot = 0 := by
  have first := ((fdSlot_eq_some_iff 0 slot).mp inRange).1
  omega

theorem mcsFdTableInit_final (w : VfsWorld) (table : Nat) :
    ((mcsFdTableInit table).final w).fs = w.fs ∧
      (∀ slot < 16, (((mcsFdTableInit table).final w).tables table slot).used = false) ∧
      ∀ other, other ≠ table →
        ((mcsFdTableInit table).final w).tables other = w.tables other := by
  have loop := forLoop_invariant 0 mcsMaxOpenFiles
    (fun fd => emit (VfsAccess.storeFileUsed table fd false))
    (fun index (s : VfsWorld) => s.fs = w.fs ∧
      (∀ slot < index, (s.tables table slot).used = false) ∧
      ∀ other, other ≠ table → s.tables other = w.tables other)
    (show w.fs = w.fs ∧ _ from ⟨rfl, by simp, fun _ _ => rfl⟩)
    (by
      intro index s _ _ holds
      rcases holds with ⟨fs, cleared, others⟩
      simp only [final_emit, Event.apply, VfsAccess.apply]
      refine ⟨fs, ?_, ?_⟩
      · intro slot below
        by_cases here : slot = index
        · subst here
          rw [modifyFile_self]
        · rw [modifyFile_other _ _ (by simpa using here)]
          exact cleared slot (by omega)
      · intro other different
        rw [← others other different]
        exact Function.update_of_ne different _ _)
  exact loop

/-! ### Open -/

/-- The node of an open: found, refused, or newly made. -/
theorem openNode_cases (w : VfsWorld) (path : CString) (flags : UInt32) :
    (∃ node, mcsRamfsLookup w.fs path = some node ∧ (openNode path flags).result w = .ok node ∧
        (openNode path flags).final w = w) ∨
      (mcsRamfsLookup w.fs path = none ∧ (flags &&& mcsOCreat = 0 ∨ ¬ HasSpace w.fs) ∧
        ∃ status, status < 0 ∧ (openNode path flags).result w = .error status ∧
          (openNode path flags).final w = w) ∨
      (mcsRamfsLookup w.fs path = none ∧ flags &&& mcsOCreat ≠ 0 ∧ HasSpace w.fs ∧
        (openNode path flags).result w = .ok w.fs.nodeCount.toNat ∧
        (openNode path flags).final w = (mcsRamfsCreateFile path).final w) := by
  cases found : mcsRamfsLookup w.fs path with
  | some node => exact Or.inl ⟨node, rfl, by simp [openNode, found], by simp [openNode, found]⟩
  | none =>
      right
      by_cases create : flags &&& mcsOCreat = 0
      · left
        exact ⟨rfl, Or.inl create, mcsEnoent, by decide, by simp [openNode, found, create],
          by simp [openNode, found, create]⟩
      · by_cases space : HasSpace w.fs
        · right
          have made := mcsRamfsCreateFile_status space path
          refine ⟨rfl, create, space, ?_, ?_⟩
          · simp [openNode, found, create, made]
          · simp [openNode, found, create, made]
        · left
          rcases mcsRamfsCreateFile_full space path with ⟨refused, silent⟩
          have same : (mcsRamfsCreateFile path).final w = w := by
            rw [final, silent, applyAll_nil]
          refine ⟨rfl, Or.inr space, mcsEnospc, by decide, ?_, ?_⟩
          · simp [openNode, found, create, refused]
          · simp [openNode, found, create, refused, same]

/-- The loop of an open takes the first descriptor that is not in use, or finds
all in use. -/
theorem takeDescriptor_cases (w : VfsWorld) (table node : Nat) (flags : UInt32) :
    let loop := scanLoop 0 mcsMaxOpenFiles (takeDescriptor table node flags)
    ((∀ slot < 16, (w.tables table slot).used = true) ∧
        loop.result w = none ∧ loop.final w = w) ∨
      ∃ slot : Nat, slot < 16 ∧ (w.tables table slot).used = false ∧
        (∀ earlier < slot, (w.tables table earlier).used = true) ∧
        loop.result w = some (slot : Int) ∧
        loop.final w = w.modifyFile table slot fun _ => ⟨flags, 0, node, true⟩ := by
  intro loop
  have outcome := scanLoop_invariant 0 mcsMaxOpenFiles (takeDescriptor table node flags)
    (fun index s => s = w ∧ ∀ earlier < index, (w.tables table earlier).used = true)
    (fun status s => ∃ slot : Nat, slot < 16 ∧ (w.tables table slot).used = false ∧
      (∀ earlier < slot, (w.tables table earlier).used = true) ∧
      status = (slot : Int) ∧ s = w.modifyFile table slot fun _ => ⟨flags, 0, node, true⟩)
    (show w = w ∧ _ from ⟨rfl, by simp⟩) ?_
  · cases answer : loop.result w with
    | none =>
        rw [answer] at outcome
        exact Or.inl ⟨outcome.2, rfl, outcome.1⟩
    | some status =>
        rw [answer] at outcome
        rcases outcome with ⟨slot, below, unused, inUse, same, left⟩
        exact Or.inr ⟨slot, below, unused, inUse, by rw [same], left⟩
  · rintro index s - below ⟨same, earlierUsed⟩
    subst same
    cases inUse : (s.tables table index).used with
    | true =>
        have later : ∀ earlier < index + 1, (s.tables table earlier).used = true := by
          intro earlier before
          by_cases last : earlier = index
          · rw [last, inUse]
          · exact earlierUsed earlier (by omega)
        simpa [takeDescriptor, inUse] using later
    | false =>
        simp only [takeDescriptor, result_bind, result_get, final_get, inUse, Bool.false_eq_true,
          if_false, result_pure, final_bind, final_emit, final_pure]
        refine ⟨index, ?_, inUse, earlierUsed, rfl, ?_⟩
        · simpa [mcsMaxOpenFiles] using below
        · simp only [Event.apply, VfsAccess.apply, modifyFile_modifyFile]

/-- An open as a whole: refused for want of a node, or with a node that is
there or newly made, for which it takes the first descriptor not in use. -/
theorem mcsVfsOpen_cases (w : VfsWorld) (table : Nat) (path : CString) (flags : UInt32) :
    (mcsRamfsLookup w.fs path = none ∧ (flags &&& mcsOCreat = 0 ∨ ¬ HasSpace w.fs) ∧
        (mcsVfsOpen table path flags).result w < 0 ∧ (mcsVfsOpen table path flags).final w = w) ∨
      ∃ node after,
        ((mcsRamfsLookup w.fs path = some node ∧ after = w) ∨
          (mcsRamfsLookup w.fs path = none ∧ flags &&& mcsOCreat ≠ 0 ∧ HasSpace w.fs ∧
            node = w.fs.nodeCount.toNat ∧ after = (mcsRamfsCreateFile path).final w)) ∧
        (((∀ slot < 16, (w.tables table slot).used = true) ∧
            (mcsVfsOpen table path flags).result w = mcsEnfile ∧
            (mcsVfsOpen table path flags).final w = after) ∨
          ∃ slot : Nat, slot < 16 ∧ (w.tables table slot).used = false ∧
            (∀ earlier < slot, (w.tables table earlier).used = true) ∧
            (mcsVfsOpen table path flags).result w = slot ∧
            (mcsVfsOpen table path flags).final w =
              after.modifyFile table slot fun _ => ⟨flags, 0, node, true⟩) := by
  have taken : ∀ node after, (openNode path flags).result w = .ok node →
      (openNode path flags).final w = after → after.tables = w.tables →
      ((∀ slot < 16, (w.tables table slot).used = true) ∧
          (mcsVfsOpen table path flags).result w = mcsEnfile ∧
          (mcsVfsOpen table path flags).final w = after) ∨
        ∃ slot : Nat, slot < 16 ∧ (w.tables table slot).used = false ∧
          (∀ earlier < slot, (w.tables table earlier).used = true) ∧
          (mcsVfsOpen table path flags).result w = slot ∧
          (mcsVfsOpen table path flags).final w =
            after.modifyFile table slot fun _ => ⟨flags, 0, node, true⟩ := by
    intro node after answer world tables
    have loop := takeDescriptor_cases after table node flags
    rw [tables] at loop
    simp only [mcsVfsOpen, result_bind, final_bind, answer, world, result_pure, final_pure]
    rcases loop with ⟨inUse, status, same⟩ | ⟨slot, below, unused, inUse, status, left⟩
    · exact Or.inl ⟨inUse, by rw [status]; rfl, same⟩
    · exact Or.inr ⟨slot, below, unused, inUse, by rw [status]; rfl, left⟩
  rcases openNode_cases w path flags with
    ⟨node, found, answer, same⟩ | ⟨missing, refused, status, negative, answer, same⟩ |
      ⟨missing, create, space, answer, made⟩
  · exact Or.inr ⟨node, w, Or.inl ⟨found, rfl⟩, taken node w answer same rfl⟩
  · left
    simp only [mcsVfsOpen, result_bind, final_bind, answer, same, result_pure, final_pure]
    exact ⟨missing, refused, negative, trivial⟩
  · exact Or.inr ⟨_, _, Or.inr ⟨missing, create, space, rfl, rfl⟩,
      taken _ _ answer made (mcsRamfsCreateFile_tables w path)⟩

/-! ### Calls through a descriptor -/

/-- The descriptor is out of range or not in use. -/
def NotOpen (w : VfsWorld) (table : Nat) (fd : Int) : Prop :=
  ∀ slot, fdSlot fd = some slot → (w.tables table slot).used = false

theorem NotOpen.calls {w : VfsWorld} {table : Nat} {fd : Int} (notOpen : NotOpen w table fd) :
    (∀ size, (mcsVfsRead table fd size).result w = (mcsEbadf, []) ∧
        (mcsVfsRead table fd size).final w = w) ∧
      (∀ buffer size, (mcsVfsWrite table fd buffer size).result w = mcsEbadf ∧
        (mcsVfsWrite table fd buffer size).final w = w) ∧
      ∀ offset whence, (mcsVfsLseek table fd offset whence).result w = mcsEbadf ∧
        (mcsVfsLseek table fd offset whence).final w = w := by
  cases inRange : fdSlot fd with
  | none => simp [mcsVfsRead, mcsVfsWrite, mcsVfsLseek, inRange]
  | some slot =>
      have unused := notOpen slot inRange
      simp [mcsVfsRead, mcsVfsWrite, mcsVfsLseek, inRange, unused]

theorem loadPool_final (w : VfsWorld) (source : Nat → Nat) (size : Nat) :
    (forLoop 0 size fun index => emit (VfsAccess.loadData (source index))).final w = w :=
  forLoop_final 0 size _ (fun _ => w) fun _ _ _ => rfl

/-- The size a write leaves. -/
theorem grown_toNat (old reached : UInt64) :
    (if old < reached then reached else old).toNat = max old.toNat reached.toNat := by
  split
  next longer =>
    have order := UInt64.lt_iff_toNat_lt.mp longer
    omega
  next notLonger =>
    have order := UInt64.le_iff_toNat_le.mp (UInt64.not_lt.mp notLonger)
    omega

section

variable {w : VfsWorld} {table : Nat} {fd : Int} {slot : Nat} {file : McsFile} {node : McsVnode}
  (inRange : fdSlot fd = some slot) (entry : w.tables table slot = file)
  (used : file.used = true) (target : w.fs.nodes file.node = node)

include inRange entry used target

/-- A read of an open descriptor that stands inside its file. -/
theorem mcsVfsRead_open (size : UInt64) (reached : file.offset.toNat ≤ node.size.toNat)
    (inPool : node.dataOffset.toNat + node.size.toNat < 2 ^ 63) :
    ∃ count : UInt64, count.toNat = min size.toNat (node.size.toNat - file.offset.toNat) ∧
      (mcsVfsRead table fd size).result w =
        (Int.ofNat count.toNat,
          readRange w.fs.data (node.dataOffset.toNat + file.offset.toNat) count.toNat) ∧
      (mcsVfsRead table fd size).final w =
        w.modifyFile table slot fun file => { file with offset := file.offset + count } := by
  have remain : (node.size - file.offset).toNat = node.size.toNat - file.offset.toNat :=
    UInt64.toNat_sub_of_le _ _ (UInt64.le_iff_toNat_le.mpr reached)
  have base : (node.dataOffset + file.offset).toNat =
      node.dataOffset.toNat + file.offset.toNat := by
    rw [UInt64.toNat_add]
    omega
  have clamped : (if size > node.size - file.offset then node.size - file.offset else size).toNat =
      min size.toNat (node.size.toNat - file.offset.toNat) := by
    split
    next larger =>
      have above := UInt64.lt_iff_toNat_lt.mp larger
      omega
    next notLarger =>
      have below := UInt64.le_iff_toNat_le.mp (UInt64.not_lt.mp notLarger)
      omega
  refine ⟨if size > node.size - file.offset then node.size - file.offset else size, clamped,
    ?_, ?_⟩
  · simp only [mcsVfsRead, result_bind, result_get, final_get, inRange, entry, used, target,
      Bool.not_true, Bool.false_eq_true, if_false, result_pure]
    rw [toInt64_toInt_of_lt (by omega)]
    refine Prod.ext rfl ?_
    apply List.map_congr_left
    intro position inside
    rw [List.mem_range] at inside
    rw [poolIndex (by omega), base]
  · simp [mcsVfsRead, inRange, entry, used, target, loadPool_final, Event.apply, VfsAccess.apply,
      VfsWorld.modifyFile]

/-- A write that passes the guard changes bytes of the pool, the descriptor's
offset and, where it now stands behind the end, the size of its node. This
holds also where the sum in the guard wraps. -/
theorem mcsVfsWrite_passed {size : UInt64} (fits : file.offset + size ≤ node.dataCapacity)
    (buffer : Nat → UInt8) :
    ∃ data, (mcsVfsWrite table fd buffer size).final w =
      { w with
        fs := { w.fs with
          data := data
          nodes := Function.update w.fs.nodes file.node
            { node with
              size := if node.size < file.offset + size then file.offset + size
                else node.size } }
      }.modifyFile table slot fun file => { file with offset := file.offset + size } := by
  have notBeyond : ¬ node.dataCapacity < file.offset + size := UInt64.not_lt.mpr fits
  have copied := forLoop_invariant 0 size.toNat
    (fun index => emit (VfsAccess.storeData
      (node.dataOffset + file.offset + UInt64.ofNat index).toNat (buffer index)))
    (fun _ (s : VfsWorld) => ∃ data, s = { w with fs := { w.fs with data := data } })
    (show ∃ data, w = { w with fs := { w.fs with data := data } } from ⟨w.fs.data, rfl⟩)
    (by
      rintro index s - - ⟨data, rfl⟩
      exact ⟨_, rfl⟩)
  rcases copied with ⟨data, copied⟩
  refine ⟨data, ?_⟩
  by_cases grows : node.size < file.offset + size
  · simp [mcsVfsWrite, inRange, entry, used, target, notBeyond, grows, -UInt64.toNat_add, copied,
      Event.apply, VfsAccess.apply, VfsWorld.modifyFile, VfsWorld.modifyNode, McsRamfs.modifyNode]
  · have same : Function.update w.fs.nodes file.node node = w.fs.nodes := by
      rw [← target, Function.update_eq_self]
    simp [mcsVfsWrite, inRange, entry, used, target, notBeyond, grows, -UInt64.toNat_add, copied,
      Event.apply, VfsAccess.apply, VfsWorld.modifyFile, same]

/-- A write that does not fit is refused. -/
theorem mcsVfsWrite_refused {size : UInt64}
    (beyond : node.dataCapacity < file.offset + size) (buffer : Nat → UInt8) :
    (mcsVfsWrite table fd buffer size).result w = mcsEnospc ∧
      (mcsVfsWrite table fd buffer size).final w = w := by
  simp [mcsVfsWrite, inRange, entry, used, target, beyond]

/-- A write that fits goes into the pool, moves the descriptor and makes the
file longer where it ends behind it. -/
theorem mcsVfsWrite_open {size : UInt64} (fits : file.offset + size ≤ node.dataCapacity)
    (inPool : node.dataOffset.toNat + file.offset.toNat + size.toNat < 2 ^ 64)
    (buffer : Nat → UInt8) :
    (mcsVfsWrite table fd buffer size).result w = size.toInt64.toInt ∧
      (mcsVfsWrite table fd buffer size).final w =
        { w with
          fs := w.fs.written file.node file.offset.toNat size.toNat buffer
            (if node.size < file.offset + size then file.offset + size else node.size)
        }.modifyFile table slot fun file => { file with offset := file.offset + size } := by
  have notBeyond : ¬ node.dataCapacity < file.offset + size := UInt64.not_lt.mpr fits
  have base : (node.dataOffset + file.offset).toNat =
      node.dataOffset.toNat + file.offset.toNat := by
    rw [UInt64.toNat_add]
    omega
  have stored := @storePool_final w (node.dataOffset + file.offset) size.toNat (by omega) buffer
  by_cases grows : node.size < file.offset + size
  · simp [mcsVfsWrite, inRange, entry, used, target, notBeyond, grows, -UInt64.toNat_add,
      stored, base, Event.apply, VfsAccess.apply, VfsWorld.modifyFile, VfsWorld.modifyNode,
      McsRamfs.modifyNode, McsRamfs.written]
  · have same : Function.update w.fs.nodes file.node node = w.fs.nodes := by
      rw [← target, Function.update_eq_self]
    simp [mcsVfsWrite, inRange, entry, used, target, notBeyond, grows, -UInt64.toNat_add,
      stored, base, Event.apply, VfsAccess.apply, VfsWorld.modifyFile, McsRamfs.written, same]

/-- A seek is refused, or moves the descriptor inside the file. -/
theorem mcsVfsLseek_open (offset : Int64) (whence : Int) :
    ((mcsVfsLseek table fd offset whence).result w = mcsEinval ∧
        (mcsVfsLseek table fd offset whence).final w = w) ∨
      ∃ newOffset, seekTarget file node offset whence = some newOffset ∧
        newOffset.toNat ≤ node.size.toNat ∧
        (mcsVfsLseek table fd offset whence).result w = newOffset.toInt64.toInt ∧
        (mcsVfsLseek table fd offset whence).final w =
          w.modifyFile table slot fun file => { file with offset := newOffset } := by
  cases found : seekTarget file node offset whence with
  | none => simp [mcsVfsLseek, inRange, entry, used, target, found]
  | some newOffset =>
      by_cases beyond : node.size < newOffset
      · left
        simp [mcsVfsLseek, inRange, entry, used, target, found, beyond]
      · right
        refine ⟨newOffset, rfl, UInt64.le_iff_toNat_le.mp (UInt64.not_lt.mp beyond), ?_, ?_⟩
        · simp [mcsVfsLseek, inRange, entry, used, target, found, beyond]
        · simp [mcsVfsLseek, inRange, entry, used, target, found, beyond, Event.apply,
            VfsAccess.apply]

end

theorem mcsVfsClose_final (w : VfsWorld) (table : Nat) {fd : Int} {slot : Nat}
    (inRange : fdSlot fd = some slot) :
    (mcsVfsClose table fd).result w = mcsOk ∧
      (mcsVfsClose table fd).final w =
        w.modifyFile table slot fun file => { file with used := false } := by
  simp [mcsVfsClose, inRange, Event.apply, VfsAccess.apply]

theorem mcsVfsClose_badFd (w : VfsWorld) (table : Nat) {fd : Int} (bad : fdSlot fd = none) :
    (mcsVfsClose table fd).result w = mcsEbadf ∧ (mcsVfsClose table fd).final w = w := by
  simp [mcsVfsClose, bad]

end Mcsos.Vfs
