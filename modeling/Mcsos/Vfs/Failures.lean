import Mcsos.Vfs.Layout

/-!
Contract: what a failed open and a failed seed leave behind, in every state.

Both take a node before they know whether they succeed: the open then looks for
a descriptor, the seed compares the size with the block of the new node. There
is no path back, so a failure at the second step leaves an empty file.
-/

namespace Mcsos.Vfs

open Mcsos.Machine
open Mcsos.Machine.Prog

/-- An open that fails changes neither the ramfs nor a table. -/
def FailedOpenKeeps (w : VfsWorld) (table : Nat) (path : CString) (flags : UInt32) : Prop :=
  (mcsVfsOpen table path flags).result w < 0 → (mcsVfsOpen table path flags).final w = w

/-- The path is there, or is not to be made, or cannot be made, or a descriptor
is left for it. -/
def OpenMakesNoOrphan (w : VfsWorld) (table : Nat) (path : CString) (flags : UInt32) : Prop :=
  mcsRamfsLookup w.fs path ≠ none ∨ flags &&& mcsOCreat = 0 ∨ ¬ HasSpace w.fs ∨
    ∃ slot < 16, (w.tables table slot).used = false

/-- A seed that fails for want of space changes nothing, and its path is found
or not found as before. -/
def FailedSeedKeeps (w : VfsWorld) (path : CString) (data : Nat → UInt8) (size : UInt64) : Prop :=
  (mcsRamfsSeedFile path data size).result w = mcsEnospc →
    (mcsRamfsSeedFile path data size).final w = w ∧
      mcsRamfsLookup ((mcsRamfsSeedFile path data size).final w).fs path =
        mcsRamfsLookup w.fs path

section

variable {w : VfsWorld} {path : CString}

theorem created_changes (space : HasSpace w.fs) (short : path.length < 32) :
    (mcsRamfsCreateFile path).final w ≠ w := by
  intro same
  have more := created_inside space short
  rw [same] at more
  exact Nat.lt_irrefl _ more

theorem failedOpenKeeps_iff (short : path.length < 32) (table : Nat) (flags : UInt32) :
    FailedOpenKeeps w table path flags ↔ OpenMakesNoOrphan w table path flags := by
  rcases mcsVfsOpen_cases w table path flags with
    ⟨-, refused, -, same⟩ | ⟨node, after, found, outcome⟩
  · refine ⟨fun _ => ?_, fun _ _ => same⟩
    rcases refused with noCreate | full
    · exact Or.inr (Or.inl noCreate)
    · exact Or.inr (Or.inr (Or.inl full))
  · rcases outcome with ⟨inUse, status, left⟩ | ⟨slot, below, unused, -, status, -⟩
    · have failed : (mcsVfsOpen table path flags).result w < 0 := by
        rw [status]
        decide
      rcases found with ⟨there, rfl⟩ | ⟨missing, create, space, -, rfl⟩
      · exact ⟨fun _ => Or.inl (by simp [there]), fun _ _ => left⟩
      · constructor
        · intro keeps
          exact absurd (left.symm.trans (keeps failed)) (created_changes space short)
        · rintro (there | noCreate | full | ⟨slot, below, unused⟩)
          · exact absurd missing there
          · exact absurd noCreate create
          · exact absurd space full
          · rw [inUse slot below] at unused
            cases unused
    · refine ⟨fun _ => Or.inr (Or.inr (Or.inr ⟨slot, below, unused⟩)), fun _ failed => ?_⟩
      rw [status] at failed
      omega

theorem failedSeedKeeps_iff (short : path.length < 32) (data : Nat → UInt8) (size : UInt64) :
    FailedSeedKeeps w path data size ↔ ¬ HasSpace w.fs ∨ size.toNat ≤ 256 := by
  by_cases space : HasSpace w.fs
  · by_cases fits : size.toNat ≤ 256
    · refine ⟨fun _ => Or.inr fits, fun _ refused => ?_⟩
      rw [mcsRamfsSeedFile_status space short data fits] at refused
      exact absurd refused (by decide)
    · rcases mcsRamfsSeedFile_large space short data (Nat.lt_of_not_le fits) with ⟨status, left⟩
      constructor
      · intro keeps
        exact absurd (left.symm.trans (keeps status).1) (created_changes space short)
      · rintro (full | small)
        · exact absurd space full
        · exact absurd small fits
  · have same := (mcsRamfsSeedFile_full space path data size).2
    exact ⟨fun _ => Or.inl space, fun _ _ => ⟨same, by rw [same]⟩⟩

end

/-! ### Every reachable state -/

/-- In every state that calls lead to, an open that fails changes nothing
exactly when it makes no node that it then finds no descriptor for. -/
theorem reachable_failedOpenKeeps_iff (tableCount : Nat) (memory : VfsWorld) (calls : List FsCall)
    (table : Nat) {path : CString} (short : path.length < 32) (flags : UInt32) :
    FailedOpenKeeps (calls.foldl FsCall.next ((vfsStart tableCount).final memory)) table path
        flags ↔
      OpenMakesNoOrphan (calls.foldl FsCall.next ((vfsStart tableCount).final memory)) table path
        flags :=
  failedOpenKeeps_iff short table flags

/-- The first open of a new file. -/
theorem reachable_failedOpenKeeps_firstOpen :
    FailedOpenKeeps ((vfsStart 1).final zeroedWorld) 0 helloPath mcsOCreat := by
  refine (reachable_failedOpenKeeps_iff 1 zeroedWorld [] 0 (by decide) mcsOCreat).mpr ?_
  exact Or.inr (Or.inr (Or.inr ⟨0, by decide, by decide +kernel⟩))

/-- The root is opened sixteen times. -/
def allDescriptorsTaken : List FsCall := List.replicate 16 (.vfs (.openFile 0 rootName 0))

/-- The open of a new file then fails, and the file is there. -/
theorem orphan_left_by_open :
    ¬ FailedOpenKeeps (allDescriptorsTaken.foldl FsCall.next ((vfsStart 1).final zeroedWorld)) 0
      helloPath mcsOCreat := by
  rw [failedOpenKeeps_iff (by decide)]
  unfold OpenMakesNoOrphan
  rintro (there | noCreate | full | ⟨slot, below, unused⟩)
  · exact there (by decide +kernel)
  · exact absurd noCreate (by decide)
  · exact full (by decide +kernel)
  · have inUse : ∀ slot < 16, ((allDescriptorsTaken.foldl FsCall.next
        ((vfsStart 1).final zeroedWorld)).tables 0 slot).used = true := by
      decide +kernel
    rw [inUse slot below] at unused
    cases unused

/-- In every state that calls lead to, a seed that fails for want of space
changes nothing exactly when no node could be made or the size fits a block. -/
theorem reachable_failedSeedKeeps_iff (tableCount : Nat) (memory : VfsWorld) (calls : List FsCall)
    {path : CString} (short : path.length < 32) (data : Nat → UInt8) (size : UInt64) :
    FailedSeedKeeps (calls.foldl FsCall.next ((vfsStart tableCount).final memory)) path data
        size ↔
      ¬ HasSpace (calls.foldl FsCall.next ((vfsStart tableCount).final memory)).fs ∨
        size.toNat ≤ 256 :=
  failedSeedKeeps_iff short data size

theorem reachable_failedSeedKeeps_wholeBlock :
    FailedSeedKeeps ((vfsStart 1).final zeroedWorld) helloPath (fun _ => 7) 256 :=
  (reachable_failedSeedKeeps_iff 1 zeroedWorld [] (by decide) (fun _ => 7) 256).mpr
    (Or.inr (by decide))

/-- One byte more than a block. -/
theorem orphan_left_by_seed :
    ¬ FailedSeedKeeps ((vfsStart 1).final zeroedWorld) helloPath (fun _ => 7) 257 := by
  rw [failedSeedKeeps_iff (by decide)]
  rintro (full | small)
  · exact full (by decide +kernel)
  · exact absurd small (by decide)

end Mcsos.Vfs
