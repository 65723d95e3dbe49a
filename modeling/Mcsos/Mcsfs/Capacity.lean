import Mcsos.Mcsfs.Names
import Mcsos.Vfs.Layout

/-!
Contract: when the ramfs and a kernel MCSFS1 refuse space.

Both guards compare the end of the space asked for with the size of the area by
`>=`. The ramfs then never gives out its last block of 256 bytes, and a write
that would fill the data area of a MCSFS1 to the last byte is refused; the
guard of `mcs_vfs_write`, next to them, compares by `>`.
-/

namespace Mcsos.Mcsfs

open Mcsos.Machine
open Mcsos.Machine.Prog
open Mcsos.Vfs

/-- The create fails only when every node is taken or less than a block of the
pool is left. -/
def CreateRefusedFull (w : VfsWorld) (path : CString) : Prop :=
  (mcsRamfsCreateFile path).result w = none →
    w.fs.nodeCount.toNat = 64 ∨ 8192 - w.fs.dataUsed.toNat < 256

/-- A write to a file that is there reports that there is no space only when it
would end behind the data area. -/
def WriteRefusedFull (fs : M15Mcsfs1) (name : CString) (buffer : Nat → UInt8) (size : UInt64) :
    Prop :=
  ∀ index, m15FindInode fs name = some index →
    (m15Mcsfs1Write name buffer size).result fs = m15Mcsfs1Enospc →
      4096 < (fs.inodes index).offset.toNat + size.toNat

/-! ### The ramfs -/

theorem createRefusedFull_iff {tableCount : Nat} {w : VfsWorld} (layout : Layout tableCount w)
    (path : CString) : CreateRefusedFull w path ↔ w.fs.dataUsed.toNat + 256 ≠ 8192 := by
  have dataUsed := layout.dataUsed
  have pool := layout.pool
  have block : (256 : UInt64).toNat = 256 := rfl
  have sum : (w.fs.dataUsed + 256).toNat = w.fs.dataUsed.toNat + 256 := by
    rw [UInt64.toNat_add, block]
    omega
  constructor
  · intro refused lastBlock
    have full : ¬ HasSpace w.fs := by
      rintro ⟨-, inPool⟩
      omega
    have reason := refused (mcsRamfsCreateFile_full full path).1
    omega
  · intro notLast refused
    by_cases space : HasSpace w.fs
    · rw [mcsRamfsCreateFile_status space path] at refused
      cases refused
    · by_contra room
      refine space ⟨?_, ?_⟩
      · have bounded := layout.bounded
        omega
      · omega

/-! ### The kernel MCSFS1 -/

/-- Every file begins inside the data area, and so does the next one. -/
structure StartsInArea (fs : M15Mcsfs1) : Prop where
  dataUsed : fs.dataUsed.toNat < 4096
  files : ∀ index < fs.inodeCount.toNat, (fs.inodes index).offset.toNat < 4096

section

variable {fs : M15Mcsfs1}

/-- A call of any size keeps the beginnings in the area: a write moves
`data_used` to the sum its guard has compared. -/
theorem StartsInArea.run (starts : StartsInArea fs) {call : M15Call} (fits : call.FitsField) :
    StartsInArea (call.run fs) := by
  rcases call.run_cases fs with ⟨same, -⟩ | ⟨name, rfl, space, run⟩ |
    ⟨name, buffer, size, written, rfl, found, inArea, run⟩
  · rwa [same]
  · rw [run]
    constructor
    · rw [m15Mcsfs1Create_final space fits]
      exact starts.dataUsed
    · exact create_inodes (fun inode => inode.offset.toNat < 4096) space fits starts.files
        starts.dataUsed
  · rw [run]
    constructor
    · rw [(m15Mcsfs1Write_final found inArea buffer).2]
      exact inArea
    · exact write_inodes (fun inode => inode.offset.toNat < 4096) found inArea buffer starts.files
        (starts.files written (find_below found))

theorem init_startsInArea (memory : M15Mcsfs1) : StartsInArea (m15Mcsfs1Init.final memory) := by
  rcases m15Mcsfs1Init_final memory with ⟨count, mark, -⟩
  refine ⟨by simp [mark], ?_⟩
  intro index used
  rw [count] at used
  exact absurd used (Nat.not_lt_zero index)

theorem StartsInArea.writeRefusedFull_iff (starts : StartsInArea fs) (name : CString)
    (buffer : Nat → UInt8) {size : UInt64} (small : size.toNat ≤ 4096) :
    WriteRefusedFull fs name buffer size ↔
      ∀ index, m15FindInode fs name = some index →
        (fs.inodes index).offset.toNat + size.toNat ≠ 4096 := by
  have sum : ∀ index, m15FindInode fs name = some index →
      ((fs.inodes index).offset + size).toNat =
        (fs.inodes index).offset.toNat + size.toNat := by
    intro index found
    have start := starts.files index (find_below found)
    rw [UInt64.toNat_add]
    omega
  constructor
  · intro refused index found filling
    have guarded : m15Mcsfs1DataSize ≤ ((fs.inodes index).offset + size).toNat := by
      rw [sum index found, filling]
      exact Nat.le_refl _
    have result : (m15Mcsfs1Write name buffer size).result fs = m15Mcsfs1Enospc := by
      simp [m15Mcsfs1Write, found, guarded, -UInt64.toNat_add]
    have reason := refused index found result
    omega
  · intro notFilling index found refused
    by_contra inside
    have notHere := notFilling index found
    have fits : ((fs.inodes index).offset + size).toNat < 4096 := by
      rw [sum index found]
      omega
    rw [(m15Mcsfs1Write_final found fits buffer).1] at refused
    rw [toInt32_toInt_of_lt (by omega), m15Mcsfs1Enospc] at refused
    omega

end

/-! ### Every reachable state -/

/-- In every state that calls with names that fit lead to, a create is refused
for want of space only, exactly when not one block is left to the byte, and a
write exactly when it does not end at the last byte of the area. -/
theorem reachable_spaceRefused_iff (tableCount : Nat) (memory : VfsWorld)
    (vfsCalls : List FsCall) (short : ∀ call ∈ vfsCalls, call.Short tableCount)
    (disk : M15Mcsfs1) (calls : List M15Call) (fit : ∀ call ∈ calls, call.FitsField) :
    let w := vfsCalls.foldl FsCall.next ((vfsStart tableCount).final memory)
    let fs := calls.foldl M15Call.run (m15Mcsfs1Init.final disk)
    (∀ path, CreateRefusedFull w path ↔ w.fs.dataUsed.toNat + 256 ≠ 8192) ∧
      ∀ name buffer (size : UInt64), size.toNat ≤ 4096 →
        (WriteRefusedFull fs name buffer size ↔
          ∀ index, m15FindInode fs name = some index →
            (fs.inodes index).offset.toNat + size.toNat ≠ 4096) := by
  intro w fs
  have layout : Layout tableCount w := reachable_layout tableCount memory short
  have starts : StartsInArea fs :=
    (everyCall_of_forall fit _).final StartsInArea (fun _ _ holds here => holds.run here)
      (init_startsInArea disk)
  refine ⟨createRefusedFull_iff layout, ?_⟩
  intro name buffer size small
  exact starts.writeRefusedFull_iff name buffer small

/-- 31 files in the ramfs. -/
def lastBlockLeft : VfsWorld :=
  (List.replicate 31 (.createFile helloPath)).foldl FsCall.next ((vfsStart 1).final zeroedWorld)

/-- One empty file in a MCSFS1. -/
def emptyFile : M15Mcsfs1 := M15Call.run (m15Mcsfs1Init.final zeroedMcsfs1) (.create fileA)

/-- A create after 30 others, and a write of 4095 bytes to the empty file. -/
theorem reachable_spaceRefused_oneLess :
    CreateRefusedFull
        ((List.replicate 30 (.createFile helloPath)).foldl FsCall.next
          ((vfsStart 1).final zeroedWorld)) helloPath ∧
      WriteRefusedFull emptyFile fileA (fun _ => 1) 4095 := by
  have short : ∀ call ∈ List.replicate 30 (FsCall.createFile helloPath), call.Short 1 := by
    intro call member
    rw [List.eq_of_mem_replicate member]
    exact show helloPath.length < 32 by decide
  have fit : ∀ call ∈ [M15Call.create fileA], call.FitsField := by
    intro call member
    rw [List.mem_singleton.mp member]
    exact show fileA.length < 64 by decide
  have both := reachable_spaceRefused_iff 1 zeroedWorld _ short zeroedMcsfs1 _ fit
  refine ⟨(both.1 helloPath).mpr (by decide +kernel), ?_⟩
  refine (both.2 fileA (fun _ => 1) 4095 (by decide)).mpr ?_
  intro index found
  have slot : m15FindInode emptyFile fileA = some 0 := by decide +kernel
  have first : index = 0 := Option.some.inj (found.symm.trans slot)
  rw [first]
  decide +kernel

/-- With 256 bytes of the pool left the create fails, and so does a write of the
whole data area. -/
theorem lastBlock_refused :
    ¬ CreateRefusedFull lastBlockLeft helloPath ∧
      ¬ WriteRefusedFull emptyFile fileA (fun _ => 1) 4096 := by
  constructor
  · intro refused
    have reason := refused (by decide +kernel)
    exact absurd reason (by decide +kernel)
  · intro refused
    have reason := refused 0 (by decide +kernel) (by decide +kernel)
    exact absurd reason (by decide +kernel)

end Mcsos.Mcsfs
