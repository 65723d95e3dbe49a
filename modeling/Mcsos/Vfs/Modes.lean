import Mcsos.Vfs.Effects

/-!
Contract: through which descriptors the bytes of a file are changed and
returned, in every run.

An open records its flags in the descriptor it takes, and no other call looks
at them. A descriptor that is in use reads and writes its file.
-/

namespace Mcsos.Vfs

open Mcsos.Machine
open Mcsos.Machine.Prog

/-- The bytes and the size of a file that is there change only by a write
through a descriptor of the file that is in use and that may write; bytes are
returned only by a read through a descriptor that is in use and that may read,
and they are bytes of its file. -/
structure GoesThrough (mayWrite mayRead : UInt32 → Prop) (w : VfsWorld) (call : FsCall) : Prop where
  changes : ∀ index < w.fs.nodeCount.toNat,
    fileBytes (FsCall.next w call).fs index ≠ fileBytes w.fs index →
      ∃ table fd buffer size slot, call = .vfs (.write table fd buffer size) ∧
        fdSlot fd = some slot ∧ (w.tables table slot).used = true ∧
        (w.tables table slot).node = index ∧ mayWrite (w.tables table slot).flags
  returns : ∀ table fd size, call = .vfs (.read table fd size) →
    ((mcsVfsRead table fd size).result w).2 ≠ [] →
      ∃ slot, fdSlot fd = some slot ∧ (w.tables table slot).used = true ∧
        ((mcsVfsRead table fd size).result w).2 =
          ((fileBytes w.fs (w.tables table slot).node).drop
            (w.tables table slot).offset.toNat).take size.toNat ∧
        mayRead (w.tables table slot).flags

/-- A descriptor writes when it was opened for writing, and reads when it was
opened for reading. -/
def EnforcesModes : VfsWorld → FsCall → Prop :=
  GoesThrough (fun flags => flags &&& (mcsOWronly ||| mcsORdwr) ≠ 0)
    (fun flags => flags &&& (mcsORdonly ||| mcsORdwr) ≠ 0)

/-- Other flags in every descriptor. -/
def VfsWorld.reflag (w : VfsWorld) (flags : Nat → Nat → UInt32) : VfsWorld :=
  { w with tables := fun table slot => { w.tables table slot with flags := flags table slot } }

/-- What a read or a write returns and every access it makes are the same
whatever the flags are. -/
def IgnoresFlags (w : VfsWorld) : FsCall → Prop
  | .vfs (.read table fd size) => ∀ flags,
      (mcsVfsRead table fd size).result (w.reflag flags) = (mcsVfsRead table fd size).result w ∧
        (mcsVfsRead table fd size).trace (w.reflag flags) = (mcsVfsRead table fd size).trace w
  | .vfs (.write table fd buffer size) => ∀ flags,
      (mcsVfsWrite table fd buffer size).result (w.reflag flags) =
          (mcsVfsWrite table fd buffer size).result w ∧
        (mcsVfsWrite table fd buffer size).trace (w.reflag flags) =
          (mcsVfsWrite table fd buffer size).trace w
  | _ => True

section

variable {tableCount : Nat} {w : VfsWorld}

theorem mcsVfsRead_reflag (w : VfsWorld) (flags : Nat → Nat → UInt32) (table : Nat) (fd : Int)
    (size : UInt64) :
    (mcsVfsRead table fd size).result (w.reflag flags) = (mcsVfsRead table fd size).result w ∧
      (mcsVfsRead table fd size).trace (w.reflag flags) = (mcsVfsRead table fd size).trace w := by
  cases inRange : fdSlot fd with
  | none => simp [mcsVfsRead, inRange]
  | some slot =>
      cases used : (w.tables table slot).used with
      | false => simp [mcsVfsRead, inRange, used, VfsWorld.reflag]
      | true => simp [mcsVfsRead, inRange, used, VfsWorld.reflag, forLoop_emit_trace]

theorem mcsVfsWrite_reflag (w : VfsWorld) (flags : Nat → Nat → UInt32) (table : Nat) (fd : Int)
    (buffer : Nat → UInt8) (size : UInt64) :
    (mcsVfsWrite table fd buffer size).result (w.reflag flags) =
        (mcsVfsWrite table fd buffer size).result w ∧
      (mcsVfsWrite table fd buffer size).trace (w.reflag flags) =
        (mcsVfsWrite table fd buffer size).trace w := by
  cases inRange : fdSlot fd with
  | none => simp [mcsVfsWrite, inRange]
  | some slot =>
      cases used : (w.tables table slot).used with
      | false => simp [mcsVfsWrite, inRange, used, VfsWorld.reflag]
      | true =>
          by_cases beyond : (w.fs.nodes (w.tables table slot).node).dataCapacity <
              (w.tables table slot).offset + size
          · simp [mcsVfsWrite, inRange, used, beyond, VfsWorld.reflag]
          · by_cases grows : (w.fs.nodes (w.tables table slot).node).size <
                (w.tables table slot).offset + size
            · simp [mcsVfsWrite, inRange, used, beyond, grows, VfsWorld.reflag, forLoop_emit_trace]
            · simp [mcsVfsWrite, inRange, used, beyond, grows, VfsWorld.reflag, forLoop_emit_trace]

theorem ignoresFlags (w : VfsWorld) (call : FsCall) : IgnoresFlags w call := by
  unfold IgnoresFlags
  split
  · intro flags
    exact mcsVfsRead_reflag w flags _ _ _
  · intro flags
    exact mcsVfsWrite_reflag w flags _ _ _ _
  · trivial

/-- The bytes of a file change only by a write to it. -/
theorem Layout.changes (layout : Layout tableCount w) {call : FsCall}
    (allowed : call.Allowed tableCount w) {index : Nat} (inside : index < w.fs.nodeCount.toNat)
    (changed : fileBytes (FsCall.next w call).fs index ≠ fileBytes w.fs index) :
    ∃ table fd buffer size slot, call = .vfs (.write table fd buffer size) ∧
      fdSlot fd = some slot ∧ (w.tables table slot).used = true ∧
      (w.tables table slot).node = index := by
  rcases layout.next_cases allowed.short with ⟨-, same⟩ | ⟨path, -, space, short, made⟩ |
    ⟨path, data, size, -, -, space, short, fits, made⟩ |
    ⟨-, table, fd, buffer, size, slot, rfl, known, inRange, used, fits, left⟩
  · rw [same] at changed
    exact absurd rfl changed
  · rw [made, created_fileBytes_old space short inside] at changed
    exact absurd rfl changed
  · rw [made, layout.seeded_fileBytes_old space short fits inside] at changed
    exact absurd rfl changed
  · refine ⟨table, fd, buffer, size, slot, rfl, inRange, used, ?_⟩
    by_contra other
    have below := ((fdSlot_eq_some_iff fd slot).mp inRange).2
    have noWrap := allowed.2 slot inRange used
    obtain ⟨nodeInside, -⟩ := layout.file table known slot below used
    have block := layout.block nodeInside
    have inBlock := UInt64.le_iff_toNat_le.mp fits
    rw [UInt64.toNat_add, Nat.mod_eq_of_lt noWrap] at inBlock
    apply changed
    rw [left, (mcsVfsWrite_open inRange rfl used rfl fits (by omega) buffer).2]
    exact layout.written_fileBytes_old nodeInside inside (Ne.symm other) inBlock buffer _

/-- Bytes are returned only by a read through a descriptor in use. -/
theorem Layout.returns (layout : Layout tableCount w) {table : Nat} (known : table < tableCount)
    {fd : Int} {size : UInt64} (returned : ((mcsVfsRead table fd size).result w).2 ≠ []) :
    ∃ slot, fdSlot fd = some slot ∧ (w.tables table slot).used = true ∧
      ((mcsVfsRead table fd size).result w).2 =
        ((fileBytes w.fs (w.tables table slot).node).drop
          (w.tables table slot).offset.toNat).take size.toNat := by
  rcases layout.opened known fd with notOpen | ⟨slot, inRange, used, -, -⟩
  · rw [(notOpen.calls.1 size).1] at returned
    exact absurd rfl returned
  · exact ⟨slot, inRange, used, by rw [layout.read_result known inRange used]⟩

end

/-- In every run of calls with short paths and writes that do not wrap, files
change and bytes are returned only through descriptors in use, whatever modes
they were opened with, and reads and writes do not depend on the modes. -/
theorem run_goesThrough_descriptors (tableCount : Nat) (memory : VfsWorld) (calls : List FsCall)
    (allowed : EveryCall FsCall.next (fun w call => call.Allowed tableCount w) calls
      ((vfsStart tableCount).final memory)) :
    EveryCall FsCall.next
      (fun w call => GoesThrough (fun _ => True) (fun _ => True) w call ∧ IgnoresFlags w call)
      calls ((vfsStart tableCount).final memory) := by
  refine everyCall_of_invariant (Layout tableCount) ?_ (vfsStart_layout tableCount memory) allowed
  intro w call layout isAllowed
  refine ⟨⟨⟨?_, ?_⟩, ignoresFlags w call⟩, layout.next isAllowed.short⟩
  · intro index inside changed
    obtain ⟨table, fd, buffer, size, slot, isWrite, inRange, used, here⟩ :=
      layout.changes isAllowed inside changed
    exact ⟨table, fd, buffer, size, slot, isWrite, inRange, used, here, trivial⟩
  · rintro table fd size rfl returned
    obtain ⟨slot, inRange, used, bytes⟩ := layout.returns isAllowed returned
    exact ⟨slot, inRange, used, bytes, trivial⟩

/-- A file is opened for reading and written to. -/
def writtenReadOnly : List FsCall :=
  [.vfs (.seed helloPath (fun _ => 7) 8), .vfs (.openFile 0 helloPath mcsORdonly),
    .vfs (.write 0 0 (fun _ => 9) 1)]

/-- A file is opened for writing and read. -/
def readWriteOnly : List FsCall :=
  [.vfs (.seed helloPath (fun _ => 7) 8), .vfs (.openFile 0 helloPath mcsOWronly),
    .vfs (.read 0 0 8)]

theorem run_goesThrough_descriptors_writtenReadOnly :
    EveryCall FsCall.next
      (fun w call => GoesThrough (fun _ => True) (fun _ => True) w call ∧ IgnoresFlags w call)
      writtenReadOnly ((vfsStart 1).final zeroedWorld) := by
  have short : helloPath.length < 32 := by decide
  refine run_goesThrough_descriptors 1 zeroedWorld writtenReadOnly
    ⟨short, ⟨by decide, short⟩, ⟨by decide, ?_⟩, trivial⟩
  intro slot inRange _
  rw [fdSlot_zero inRange]
  decide +kernel

theorem modes_not_enforced :
    ¬ EveryCall FsCall.next EnforcesModes writtenReadOnly ((vfsStart 1).final zeroedWorld) ∧
      ¬ EveryCall FsCall.next EnforcesModes readWriteOnly ((vfsStart 1).final zeroedWorld) := by
  constructor
  · rintro ⟨-, -, ⟨changes, -⟩, -⟩
    obtain ⟨table, fd, buffer, size, slot, isWrite, inRange, -, -, mayWrite⟩ :=
      changes 1 (by decide +kernel) (by decide +kernel)
    cases isWrite
    rw [fdSlot_zero inRange] at mayWrite
    exact mayWrite (by decide +kernel)
  · rintro ⟨-, -, ⟨-, returns⟩, -⟩
    obtain ⟨slot, inRange, -, -, mayRead⟩ := returns 0 0 8 rfl (by decide +kernel)
    rw [fdSlot_zero inRange] at mayRead
    exact mayRead (by decide +kernel)

end Mcsos.Vfs
