import Mcsos.Mcsfs.HighWater

/-!
Contract: the bytes a write of a kernel MCSFS1 may change, for every size.

The guard of the write adds the size to the offset of the file in 64 bits. A
size that makes the sum wrap passes it, and the copy then runs over the whole
address space; the module says which sizes these are.
-/

namespace Mcsos.Mcsfs

open Mcsos.Machine
open Mcsos.Machine.Prog

/-- A write of `size` bytes to the file in slot `index`: inside the data area,
and no change but to these bytes, the size of the file and `data_used`. -/
structure WritesExtent (fs after : M15Mcsfs1) (index : Nat) (size : UInt64) : Prop where
  inside : (fs.inodes index).offset.toNat + size.toNat ≤ 4096
  data : ∀ position, position < (fs.inodes index).offset.toNat ∨
    (fs.inodes index).offset.toNat + size.toNat ≤ position →
      after.data position = fs.data position
  rest : after = { fs with
    dataUsed := after.dataUsed
    inodes := Function.update fs.inodes index
      { fs.inodes index with size := (after.inodes index).size }
    data := after.data }

/-- The write fails and changes nothing, or it keeps to an extent of the data
area. -/
def WriteBounded (fs : M15Mcsfs1) (name : CString) (buffer : Nat → UInt8) (size : UInt64) : Prop :=
  ((m15Mcsfs1Write name buffer size).result fs < 0 ∧
      (m15Mcsfs1Write name buffer size).final fs = fs) ∨
    ∃ index, m15FindInode fs name = some index ∧
      WritesExtent fs ((m15Mcsfs1Write name buffer size).final fs) index size

/-- The creates and writes that lead to the states in question: names fit
their field, and the writes succeed. -/
def Succeeds (fs : M15Mcsfs1) : M15Call → Prop
  | .create name => name.length < 64
  | .write name buffer size => 0 ≤ (m15Mcsfs1Write name buffer size).result fs
  | .read _ _ => True

/-- Every file is inside the data area, and so is the offset of the next. -/
structure InArea (fs : M15Mcsfs1) : Prop where
  dataUsed : fs.dataUsed.toNat < 4096
  files : ∀ index < fs.inodeCount.toNat, (fs.inodes index).dataEnd < 4096

section

variable {fs : M15Mcsfs1}

/-! ### Reachable states -/

/-- A sum that wraps comes from a size that is no success as an `int`. -/
theorem InArea.noWrap_of_success (inArea : InArea fs) {size : UInt64} {index : Nat}
    (used : index < fs.inodeCount.toNat) (success : 0 ≤ size.toUInt32.toInt32.toInt) :
    (fs.inodes index).offset.toNat + size.toNat < 2 ^ 64 := by
  by_contra wraps
  have file := inArea.files index used
  simp only [M15Inode.dataEnd] at file
  have negative := @toInt32_toInt_neg size (by omega)
  omega

theorem InArea.create (inArea : InArea fs) (space : fs.inodeCount.toNat < 32) {name : CString}
    (short : name.length < 64) : InArea ((m15Mcsfs1Create name).final fs) := by
  constructor
  · rw [m15Mcsfs1Create_final space short]
    exact inArea.dataUsed
  · apply create_inodes (fun inode => inode.dataEnd < 4096) space short inArea.files
    simpa [createdInode, M15Inode.dataEnd] using inArea.dataUsed

theorem InArea.write (inArea : InArea fs) {name : CString} {size : UInt64} {index : Nat}
    (found : m15FindInode fs name = some index)
    (noWrap : (fs.inodes index).offset.toNat + size.toNat < 2 ^ 64)
    (fits : ((fs.inodes index).offset + size).toNat < 4096) (buffer : Nat → UInt8) :
    InArea ((m15Mcsfs1Write name buffer size).final fs) := by
  constructor
  · rw [(m15Mcsfs1Write_final found fits buffer).2]
    exact fits
  · apply write_inodes (fun inode => inode.dataEnd < 4096) found fits buffer inArea.files
    rw [UInt64.toNat_add, Nat.mod_eq_of_lt noWrap] at fits
    exact fits

theorem InArea.run (inArea : InArea fs) {call : M15Call} (succeeds : Succeeds fs call) :
    InArea (call.run fs) := by
  rcases call.run_cases fs with ⟨same, _⟩ | ⟨name, rfl, space, run⟩ |
    ⟨name, buffer, size, index, rfl, found, fits, run⟩
  · rwa [same]
  · rw [run]
    exact inArea.create space succeeds
  · have success : 0 ≤ (m15Mcsfs1Write name buffer size).result fs := succeeds
    rw [(m15Mcsfs1Write_final found fits buffer).1] at success
    rw [run]
    exact inArea.write found (inArea.noWrap_of_success (find_below found) success) fits buffer

/-! ### One write -/

/-- A write whose sum wraps is not refused, and stores its size in the inode. -/
theorem InArea.wrapped_changes (inArea : InArea fs) {name : CString} {size : UInt64} {index : Nat}
    (found : m15FindInode fs name = some index)
    (wraps : 2 ^ 64 ≤ (fs.inodes index).offset.toNat + size.toNat) (buffer : Nat → UInt8) :
    (m15Mcsfs1Write name buffer size).final fs ≠ fs := by
  intro same
  have file := inArea.files index (find_below found)
  simp only [M15Inode.dataEnd] at file
  have small := size.toNat_lt
  have fits : ((fs.inodes index).offset + size).toNat < 4096 := by
    rw [UInt64.toNat_add]
    omega
  have stored : (((m15Mcsfs1Write name buffer size).final fs).inodes index).size = size := by
    rw [(m15Mcsfs1Write_final found fits buffer).2]
    simp
  rw [same] at stored
  rw [stored] at file
  omega

/-- A write is bounded exactly when the sum of its guard does not wrap. -/
theorem InArea.writeBounded_iff (inArea : InArea fs) (name : CString) (buffer : Nat → UInt8)
    (size : UInt64) :
    WriteBounded fs name buffer size ↔
      ∀ index, m15FindInode fs name = some index →
        (fs.inodes index).offset.toNat + size.toNat < 2 ^ 64 := by
  constructor
  · rintro (⟨_, same⟩ | ⟨index, found, extent⟩) target foundTarget
    · by_contra wraps
      exact inArea.wrapped_changes foundTarget (Nat.not_lt.mp wraps) buffer same
    · have here : target = index := Option.some.inj (foundTarget.symm.trans found)
      have inside := extent.inside
      rw [here]
      omega
  · intro noWrap
    by_cases refused : WriteRefused fs name size
    · rcases m15Mcsfs1Write_refused refused buffer with ⟨negative, silent⟩
      exact Or.inl ⟨negative, by simp [final, silent]⟩
    · simp only [WriteRefused, not_forall, not_le] at refused
      rcases refused with ⟨index, found, fits⟩
      have sum := fits
      rw [UInt64.toNat_add, Nat.mod_eq_of_lt (noWrap index found)] at sum
      refine Or.inr ⟨index, found, Nat.le_of_lt sum, ?_, ?_⟩
      · intro position outside
        rw [(m15Mcsfs1Write_final found fits buffer).2]
        exact writeRange_outside _ _ outside
      · rw [(m15Mcsfs1Write_final found fits buffer).2]
        simp

end

/-! ### Every reachable state -/

theorem init_inArea (memory : M15Mcsfs1) : InArea (m15Mcsfs1Init.final memory) := by
  rcases m15Mcsfs1Init_final memory with ⟨count, mark, _⟩
  refine ⟨by simp [mark], ?_⟩
  intro index used
  rw [count] at used
  exact absurd used (Nat.not_lt_zero index)

/-- In every state that creates and successful writes lead to, a write of any
size is bounded exactly when offset and size of its file do not wrap. -/
theorem reachable_writeBounded_iff (memory : M15Mcsfs1) (calls : List M15Call)
    (succeed : EveryCall M15Call.run Succeeds calls (m15Mcsfs1Init.final memory))
    (name : CString) (buffer : Nat → UInt8) (size : UInt64) :
    WriteBounded (calls.foldl M15Call.run (m15Mcsfs1Init.final memory)) name buffer size ↔
      ∀ index, m15FindInode (calls.foldl M15Call.run (m15Mcsfs1Init.final memory)) name =
          some index →
        ((calls.foldl M15Call.run (m15Mcsfs1Init.final memory)).inodes index).offset.toNat +
          size.toNat < 2 ^ 64 := by
  have inArea := succeed.final InArea (fun _ _ holds here => holds.run here) (init_inArea memory)
  exact inArea.writeBounded_iff name buffer size

/-- A file of one byte, and a second one behind it. -/
def secondFile : List M15Call := [.create fileA, .write fileA (fun _ => 1) 1, .create fileB]

theorem secondFile_succeeds :
    EveryCall M15Call.run Succeeds secondFile (m15Mcsfs1Init.final zeroedMcsfs1) :=
  ⟨show fileA.length < 64 by decide,
    show (0 : Int) ≤ (m15Mcsfs1Write fileA (fun _ => 1) 1).result _ by decide +kernel,
    show fileB.length < 64 by decide, trivial⟩

theorem secondFile_slot :
    m15FindInode (secondFile.foldl M15Call.run (m15Mcsfs1Init.final zeroedMcsfs1)) fileB =
        some 1 ∧
      ((secondFile.foldl M15Call.run (m15Mcsfs1Init.final zeroedMcsfs1)).inodes 1).offset = 1 := by
  decide +kernel

/-- A write of four bytes to the second file. -/
theorem reachable_writeBounded_fourBytes :
    WriteBounded (secondFile.foldl M15Call.run (m15Mcsfs1Init.final zeroedMcsfs1)) fileB
      (fun _ => 2) 4 := by
  rcases secondFile_slot with ⟨slot, offset⟩
  refine (reachable_writeBounded_iff zeroedMcsfs1 secondFile secondFile_succeeds fileB
    (fun _ => 2) 4).mpr ?_
  intro index found
  rw [slot, Option.some.injEq] at found
  rw [← found, offset]
  decide

/-- A write of `2 ^ 64 - 1` bytes to the second file passes the guard. -/
theorem wrapping_write_not_bounded :
    ¬ WriteBounded (secondFile.foldl M15Call.run (m15Mcsfs1Init.final zeroedMcsfs1)) fileB
      (fun _ => 2) 0xffffffffffffffff := by
  rcases secondFile_slot with ⟨slot, offset⟩
  have inArea := secondFile_succeeds.final InArea (fun _ _ holds here => holds.run here)
    (init_inArea zeroedMcsfs1)
  rw [inArea.writeBounded_iff]
  intro noWrap
  have sum := noWrap 1 slot
  rw [offset] at sum
  exact absurd sum (by decide)

end Mcsos.Mcsfs
