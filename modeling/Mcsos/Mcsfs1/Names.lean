import Mcsos.Mcsfs.Names
import Mcsos.Mcsfs1.Refinement

/-!
Contract: uniqueness of file names, in every run of either MCSFS1.

The stand-alone file system takes the first inode that is not in use and, like
the kernel's, does not look for the name first. A name created twice stays in
two inodes, and no call reaches the second.
-/

namespace Mcsos.Mcsfs1

open Mcsos.Machine
open Mcsos.Machine.Prog

/-- The file system after a call. -/
def Mcsfs1Call.run (fs : Mcsfs1T) (call : Mcsfs1Call) : Mcsfs1T := call.exec.final fs

/-- The inode is in use and carries the name. -/
def Carries (fs : Mcsfs1T) (index : Nat) (name : CString) : Prop :=
  index < 32 ∧ (fs.inodes index).used ≠ 0 ∧ name.StoredIn (fs.inodes index).name

def AllInUse (fs : Mcsfs1T) : Prop := ∀ index < 32, (fs.inodes index).used ≠ 0

/-- The name a call is to create. -/
def Mcsfs1Call.creates : Mcsfs1Call → Option CString
  | .create name => some name
  | .write _ _ _ | .read _ _ => none

/-- After the call no two inodes in use carry the same name, and a create of a
name that is there fails and changes nothing. -/
def KeepsUnique (fs : Mcsfs1T) (call : Mcsfs1Call) : Prop :=
  Unambiguous (Carries (call.run fs)) ∧
    ∀ name, call.creates = some name → (∃ index, Carries fs index name) →
      (mcsfs1Create name).result fs < 0 ∧ (mcsfs1Create name).final fs = fs

/-- A create is of a name that no inode in use carries, or finds every inode in
use. -/
def CreatesNew (fs : Mcsfs1T) (call : Mcsfs1Call) : Prop :=
  ∀ name, call.creates = some name → AllInUse fs ∨ ∀ index, ¬ Carries fs index name

section

variable {fs : Mcsfs1T} {names : List CString}

theorem Represents.lists (represents : Represents fs names) : Lists (Carries fs) names := by
  intro index name
  constructor
  · rintro ⟨slot, used, stored⟩
    cases present : names[index]? with
    | none =>
        have behind := List.getElem?_eq_none_iff.mp present
        exact absurd (represents.unused index behind slot) used
    | some found =>
        have is := represents.inode index found present
        rw [is.stored.unique stored]
  · intro present
    have is := represents.inode index name present
    exact ⟨represents.slot_lt present, is.used, is.stored⟩

theorem Represents.allInUse_iff (represents : Represents fs names) :
    AllInUse fs ↔ names.length = 32 := by
  have bounded := represents.bounded
  constructor
  · intro all
    by_contra space
    have free : names.length < 32 := by omega
    exact all names.length free (represents.unused names.length (Nat.le_refl _) free)
  · intro full index slot
    have inside : index < names.length := by omega
    exact (represents.inode index _ (List.getElem?_eq_getElem inside)).used

/-- The name a call adds to the table. -/
def Mcsfs1Call.adds (names : List CString) : Mcsfs1Call → Option CString
  | .create name => if name.length < 32 ∧ names.length < 32 then some name else none
  | .write _ _ _ | .read _ _ => none

/-- A create that adds no name fails and changes nothing. -/
theorem Represents.create_refused (represents : Represents fs names) {name : CString}
    (adds : (Mcsfs1Call.create name).adds names = none) :
    (mcsfs1Create name).result fs < 0 ∧ (mcsfs1Create name).final fs = fs := by
  by_cases long : 32 ≤ name.length
  · rcases mcsfs1Create_long fs long with ⟨refused, same⟩
    exact ⟨by rw [refused]; decide, same⟩
  · have short := Nat.lt_of_not_le long
    have bounded := represents.bounded
    simp only [Mcsfs1Call.adds, short, true_and, ite_eq_right_iff, reduceCtorEq, imp_false] at adds
    rcases represents.create_full short (by omega) with ⟨refused, same⟩
    exact ⟨by rw [refused]; decide, same⟩

theorem Represents.write (represents : Represents fs names) (name : CString) (data : Nat → UInt8)
    (size : UInt64) : Represents ((mcsfs1Write name data size).final fs) names := by
  by_cases large : 256 < size.toNat
  · rw [(mcsfs1Write_large fs name data large).2]
    exact represents
  · have small := Nat.le_of_not_lt large
    cases found : names.idxOf? name with
    | none =>
        rw [(represents.write_missing found data small).2]
        exact represents
    | some index =>
        rw [(represents.write_found found data small).2]
        exact represents.withBytes index data small

/-- One call adds one name at most, at the end. -/
theorem Represents.run (represents : Represents fs names) (call : Mcsfs1Call) :
    Represents (call.run fs) (names ++ (call.adds names).toList) := by
  cases call with
  | create name =>
      have run : Mcsfs1Call.run fs (.create name) = (mcsfs1Create name).final fs := by
        simp [Mcsfs1Call.run, Mcsfs1Call.exec]
      rw [run]
      by_cases taken : name.length < 32 ∧ names.length < 32
      · rw [(represents.create_space taken.1 taken.2).2]
        simpa [Mcsfs1Call.adds, taken] using represents.withFile taken.1 taken.2
      · have adds : (Mcsfs1Call.create name).adds names = none := if_neg taken
        rw [(represents.create_refused adds).2, adds]
        simpa using represents
  | write name data size =>
      simpa [Mcsfs1Call.run, Mcsfs1Call.exec, Mcsfs1Call.adds] using represents.write name data size
  | read name size =>
      simpa [Mcsfs1Call.run, Mcsfs1Call.exec, Mcsfs1Call.adds, represents.read_final] using represents

/-- A create that adds no name finds every inode in use, or has a name that
fits no inode. -/
theorem Represents.not_added (represents : Represents fs names) {name : CString}
    (notAdded : (Mcsfs1Call.create name).adds names = none) :
    AllInUse fs ∨ ∀ index, ¬ Carries fs index name := by
  have refused : ¬ (name.length < 32 ∧ names.length < 32) := by
    simpa [Mcsfs1Call.adds] using notAdded
  rw [not_and_or, Nat.not_lt, Nat.not_lt] at refused
  rcases refused with long | full
  · right
    intro index carried
    have present := (represents.lists index name).mp carried
    exact absurd (represents.inode index name present).short (Nat.not_lt.mpr long)
  · left
    have bounded := represents.bounded
    exact represents.allInUse_iff.mpr (by omega)

/-- A call keeps the names unique exactly when it creates a new one, or none. -/
theorem Represents.keepsUnique_iff (represents : Represents fs names) (distinct : names.Nodup)
    (call : Mcsfs1Call) : KeepsUnique fs call ↔ CreatesNew fs call := by
  refine represents.lists.unambiguous_make_iff distinct (represents.run call).lists ?_ ?_
  · intro name adds
    cases call with
    | create created =>
        simp only [Mcsfs1Call.adds, Option.ite_none_right_eq_some] at adds
        refine ⟨adds.2, fun full => ?_⟩
        exact absurd (represents.allInUse_iff.mp full) (Nat.ne_of_lt adds.1.2)
    | write _ _ _ => cases adds
    | read _ _ => cases adds
  · intro name creates notAdded
    cases call with
    | create created =>
        simp only [Mcsfs1Call.creates, Option.some.injEq] at creates
        subst creates
        exact ⟨represents.create_refused notAdded, represents.not_added notAdded⟩
    | write _ _ _ => cases creates
    | read _ _ => cases creates

end

/-- The names stay unique along a run exactly when every create is of a new
name or finds every inode in use. -/
theorem run_keepsUnique_iff (memory : Mcsfs1T) (calls : List Mcsfs1Call) :
    EveryCall Mcsfs1Call.run KeepsUnique calls (mcsfs1Init.final memory) ↔
      EveryCall Mcsfs1Call.run CreatesNew calls (mcsfs1Init.final memory) := by
  refine everyCall_iff (fun fs => ∃ names, Represents fs names ∧ names.Nodup) ?_
    ⟨[], mcsfs1Init_represents memory, List.nodup_nil⟩ (everyCall_true calls _)
  rintro fs call ⟨names, represents, distinct⟩ -
  refine ⟨represents.keepsUnique_iff distinct call, fun keeps => ?_⟩
  have after := represents.run call
  exact ⟨_, after, after.lists.unambiguous_iff.mp keeps.1⟩

/-- In every run of either file system, from any memory, the names stay unique
exactly when every create is of a new name or finds every inode in use. -/
theorem both_keepUnique_iff (kernelMemory : Mcsfs.M15Mcsfs1) (kernelCalls : List Mcsfs.M15Call)
    (fit : ∀ call ∈ kernelCalls, call.FitsField) (memory : Mcsfs1T) (calls : List Mcsfs1Call) :
    (EveryCall Mcsfs.M15Call.run Mcsfs.KeepsUnique kernelCalls
        (Mcsfs.m15Mcsfs1Init.final kernelMemory) ↔
      EveryCall Mcsfs.M15Call.run Mcsfs.CreatesNew kernelCalls
        (Mcsfs.m15Mcsfs1Init.final kernelMemory)) ∧
      (EveryCall Mcsfs1Call.run KeepsUnique calls (mcsfs1Init.final memory) ↔
        EveryCall Mcsfs1Call.run CreatesNew calls (mcsfs1Init.final memory)) :=
  ⟨Mcsfs.run_keepsUnique_iff kernelMemory kernelCalls fit, run_keepsUnique_iff memory calls⟩

def zeroedMcsfs1T : Mcsfs1T := ⟨0, 0, fun _ => ⟨0, fun _ => 0, 0, fun _ => 0⟩⟩

/-- Each creates a file and writes it. -/
theorem both_keepUnique_oneFile :
    EveryCall Mcsfs.M15Call.run Mcsfs.KeepsUnique
        [.create Mcsfs.fileA, .write Mcsfs.fileA (fun _ => 1) 2]
        (Mcsfs.m15Mcsfs1Init.final Mcsfs.zeroedMcsfs1) ∧
      EveryCall Mcsfs1Call.run KeepsUnique
        [.create Mcsfs.fileA, .write Mcsfs.fileA (fun _ => 1) 2]
        (mcsfs1Init.final zeroedMcsfs1T) := by
  have both := both_keepUnique_iff Mcsfs.zeroedMcsfs1
    [.create Mcsfs.fileA, .write Mcsfs.fileA (fun _ => 1) 2] (by
      intro call member
      simp only [List.mem_cons, List.not_mem_nil, or_false] at member
      rcases member with rfl | rfl
      · show Mcsfs.fileA.length < 64
        decide
      · trivial)
    zeroedMcsfs1T [.create Mcsfs.fileA, .write Mcsfs.fileA (fun _ => 1) 2]
  constructor
  · refine both.1.mpr ⟨?_, ?_, trivial⟩
    · rintro name -
      right
      rintro index ⟨slot, used, -⟩
      exact used ((Mcsfs.m15Mcsfs1Init_final Mcsfs.zeroedMcsfs1).2.2 index slot)
    · rintro name ⟨⟩
  · refine both.2.mpr ⟨?_, ?_, trivial⟩
    · rintro name -
      right
      rintro index ⟨slot, used, -⟩
      exact used ((mcsfs1Init_represents zeroedMcsfs1T).unused index (Nat.zero_le _) slot)
    · rintro name ⟨⟩

/-- The second of two creates of one name succeeds in either, and the name then
stands in two inodes. -/
theorem createdTwice_not_unique :
    ¬ EveryCall Mcsfs.M15Call.run Mcsfs.KeepsUnique [.create Mcsfs.fileA, .create Mcsfs.fileA]
        (Mcsfs.m15Mcsfs1Init.final Mcsfs.zeroedMcsfs1) ∧
      ¬ EveryCall Mcsfs1Call.run KeepsUnique [.create Mcsfs.fileA, .create Mcsfs.fileA]
        (mcsfs1Init.final zeroedMcsfs1T) := by
  have stored : ∀ memory : Nat → UInt8, memory 0 = 97 → memory 1 = 0 →
      Mcsfs.fileA.StoredIn memory := by
    intro memory first terminator position inside
    match position, inside with
    | 0, _ => exact first
    | 1, _ => exact terminator
  constructor
  · rintro ⟨-, ⟨unique, -⟩, -⟩
    have same := unique 0 1 Mcsfs.fileA
      ⟨by decide, by decide +kernel, stored _ (by decide +kernel) (by decide +kernel)⟩
      ⟨by decide, by decide +kernel, stored _ (by decide +kernel) (by decide +kernel)⟩
    exact absurd same (by decide)
  · rintro ⟨-, ⟨unique, -⟩, -⟩
    have same := unique 0 1 Mcsfs.fileA
      ⟨by decide, by decide +kernel, stored _ (by decide +kernel) (by decide +kernel)⟩
      ⟨by decide, by decide +kernel, stored _ (by decide +kernel) (by decide +kernel)⟩
    exact absurd same (by decide)

end Mcsos.Mcsfs1
