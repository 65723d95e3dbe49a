import Mcsos.Vfs.Layout

/-!
Contract: the bytes of the pool a write may change, for every size.

The guard of `mcs_vfs_write` adds the size to the offset of the descriptor in
64 bits. A sum that wraps ends below the offset, which is inside the block, so
the guard lets every such write through.
-/

namespace Mcsos.Vfs

open Mcsos.Machine
open Mcsos.Machine.Prog

/-- A byte goes into the extent of the node. -/
def VfsAccess.InExtent (node : McsVnode) : VfsAccess → Prop
  | .storeData offset _ =>
      node.dataOffset.toNat ≤ offset ∧
        offset < node.dataOffset.toNat + node.dataCapacity.toNat
  | _ => True

/-- The write through the descriptor in a slot fails and changes nothing, or it
ends inside the capacity of its node and stores inside the node's extent
only. -/
def WriteBounded (w : VfsWorld) (table : Nat) (fd : Int) (slot : Nat) (buffer : Nat → UInt8)
    (size : UInt64) : Prop :=
  ((mcsVfsWrite table fd buffer size).result w < 0 ∧
      (mcsVfsWrite table fd buffer size).final w = w) ∨
    ((w.tables table slot).offset.toNat + size.toNat ≤
        (w.fs.nodes (w.tables table slot).node).dataCapacity.toNat ∧
      (mcsVfsWrite table fd buffer size).Issues
        (VfsAccess.InExtent (w.fs.nodes (w.tables table slot).node)) w)

section

variable {tableCount : Nat} {w : VfsWorld} {table : Nat} {fd : Int} {slot : Nat}

/-- A write whose sum wraps passes the guard and moves its descriptor back. -/
theorem Layout.wrapped_changes (layout : Layout tableCount w) (known : table < tableCount)
    (inRange : fdSlot fd = some slot) (used : (w.tables table slot).used = true)
    {size : UInt64} (wraps : 2 ^ 64 ≤ (w.tables table slot).offset.toNat + size.toNat)
    (buffer : Nat → UInt8) : (mcsVfsWrite table fd buffer size).final w ≠ w := by
  have below := ((fdSlot_eq_some_iff fd slot).mp inRange).2
  obtain ⟨inside, reached⟩ := layout.file table known slot below used
  have bounded := (layout.node _ inside).size
  have small := size.toNat_lt
  have offsetSmall := (w.tables table slot).offset.toNat_lt
  have sum : ((w.tables table slot).offset + size).toNat =
      (w.tables table slot).offset.toNat + size.toNat - 2 ^ 64 := by
    rw [UInt64.toNat_add]
    omega
  have fits : (w.tables table slot).offset + size ≤
      (w.fs.nodes (w.tables table slot).node).dataCapacity := by
    rw [UInt64.le_iff_toNat_le]
    omega
  obtain ⟨data, left⟩ := mcsVfsWrite_passed inRange rfl used rfl fits buffer
  intro same
  have moved : (((mcsVfsWrite table fd buffer size).final w).tables table slot).offset =
      (w.tables table slot).offset + size := by
    rw [left, modifyFile_self]
  rw [same] at moved
  have equal := congrArg UInt64.toNat moved
  omega

theorem Layout.write_inExtent (layout : Layout tableCount w) (known : table < tableCount)
    (inRange : fdSlot fd = some slot) (used : (w.tables table slot).used = true)
    {size : UInt64} (noWrap : (w.tables table slot).offset.toNat + size.toNat < 2 ^ 64)
    (buffer : Nat → UInt8) :
    (mcsVfsWrite table fd buffer size).Issues
      (VfsAccess.InExtent (w.fs.nodes (w.tables table slot).node)) w := by
  have below := ((fdSlot_eq_some_iff fd slot).mp inRange).2
  obtain ⟨inside, -⟩ := layout.file table known slot below used
  have placed := layout.node _ inside
  have issues := @Layout.write_issues tableCount w layout table known fd buffer size (by
    intro other otherSlot _
    rw [inRange, Option.some.injEq] at otherSlot
    rwa [← otherSlot])
  intro access member
  have inBlock := issues access member
  rw [nodeOf_slot inRange] at inBlock
  cases access with
  | storeData offset value =>
      rw [VfsAccess.InExtent, placed.dataOffset, placed.dataCapacity]
      exact ⟨inBlock.1, inBlock.2.1⟩
  | _ => trivial

/-- A write is bounded exactly when the sum in its guard does not wrap. -/
theorem Layout.writeBounded_iff (layout : Layout tableCount w) (known : table < tableCount)
    (inRange : fdSlot fd = some slot) (used : (w.tables table slot).used = true)
    (buffer : Nat → UInt8) (size : UInt64) :
    WriteBounded w table fd slot buffer size ↔
      (w.tables table slot).offset.toNat + size.toNat < 2 ^ 64 := by
  constructor
  · rintro (⟨-, same⟩ | ⟨ends, -⟩)
    · by_contra wraps
      exact layout.wrapped_changes known inRange used (Nat.not_lt.mp wraps) buffer same
    · have small := (w.fs.nodes (w.tables table slot).node).dataCapacity.toNat_lt
      exact Nat.lt_of_le_of_lt ends small
  · intro noWrap
    by_cases fits : (w.tables table slot).offset + size ≤
        (w.fs.nodes (w.tables table slot).node).dataCapacity
    · have ends := UInt64.le_iff_toNat_le.mp fits
      rw [UInt64.toNat_add, Nat.mod_eq_of_lt noWrap] at ends
      exact Or.inr ⟨ends, layout.write_inExtent known inRange used noWrap buffer⟩
    · rcases mcsVfsWrite_refused inRange rfl used rfl (UInt64.not_le.mp fits) buffer with
        ⟨status, same⟩
      refine Or.inl ⟨?_, same⟩
      rw [status]
      decide

end

/-- In every state that calls with short paths lead to, a write of any size
through an open descriptor is bounded exactly when the descriptor's offset and
the size add up to less than `2 ^ 64`. -/
theorem reachable_vfsWriteBounded_iff (tableCount : Nat) (memory : VfsWorld) (calls : List FsCall)
    (short : ∀ call ∈ calls, call.Short tableCount) {table : Nat} (known : table < tableCount)
    {fd : Int} {slot : Nat} (inRange : fdSlot fd = some slot)
    (used : ((calls.foldl FsCall.next ((vfsStart tableCount).final memory)).tables table
      slot).used = true)
    (buffer : Nat → UInt8) (size : UInt64) :
    WriteBounded (calls.foldl FsCall.next ((vfsStart tableCount).final memory)) table fd slot
        buffer size ↔
      ((calls.foldl FsCall.next ((vfsStart tableCount).final memory)).tables table
        slot).offset.toNat + size.toNat < 2 ^ 64 :=
  (reachable_layout tableCount memory short).writeBounded_iff known inRange used buffer size

/-- A new file is opened and a byte is written to it. -/
def oneByteWritten : List FsCall :=
  [.createFile helloPath, .vfs (.openFile 0 helloPath 4), .vfs (.write 0 0 (fun _ => 9) 1)]

theorem oneByteWritten_short : ∀ call ∈ oneByteWritten, call.Short 1 := by
  have path : helloPath.length < 32 := by decide
  intro call member
  simp only [oneByteWritten, List.mem_cons, List.not_mem_nil, or_false] at member
  rcases member with rfl | rfl | rfl
  · exact path
  · exact ⟨by decide, path⟩
  · exact Nat.zero_lt_one

theorem oneByteWritten_descriptor :
    ((oneByteWritten.foldl FsCall.next ((vfsStart 1).final zeroedWorld)).tables 0 0).used = true ∧
      ((oneByteWritten.foldl FsCall.next ((vfsStart 1).final zeroedWorld)).tables 0 0).offset =
        1 := by
  decide +kernel

/-- Another 200 bytes behind it. -/
theorem reachable_vfsWriteBounded_twoHundred :
    WriteBounded (oneByteWritten.foldl FsCall.next ((vfsStart 1).final zeroedWorld)) 0 0 0
      (fun _ => 9) 200 := by
  rcases oneByteWritten_descriptor with ⟨used, offset⟩
  refine (reachable_vfsWriteBounded_iff 1 zeroedWorld oneByteWritten oneByteWritten_short
    (by decide) (by decide) used _ _).mpr ?_
  rw [offset]
  decide

/-- `2 ^ 64 - 1` bytes behind it pass the guard. -/
theorem wrapping_vfsWrite_not_bounded :
    (∀ call ∈ oneByteWritten, call.Short 1) ∧
      ¬ WriteBounded (oneByteWritten.foldl FsCall.next ((vfsStart 1).final zeroedWorld)) 0 0 0
        (fun _ => 9) 0xffffffffffffffff := by
  rcases oneByteWritten_descriptor with ⟨used, offset⟩
  refine ⟨oneByteWritten_short, ?_⟩
  rw [(reachable_layout 1 zeroedWorld oneByteWritten_short).writeBounded_iff (by decide)
    (by decide) used, offset]
  decide

end Mcsos.Vfs
