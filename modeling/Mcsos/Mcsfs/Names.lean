import Mcsos.Mcsfs.HighWater

/-!
The names of a kernel MCSFS1 after any run of creates and writes.

A create does not look for its name, so a name may come to stand in several
inodes; a search stops at the first of them. `Named` lists the names by inode,
whatever the sizes of the writes and whether or not names repeat.
-/

namespace Mcsos.Mcsfs

open Mcsos.Machine
open Mcsos.Machine.Prog

/-- The inode is in use and carries the name. -/
def Carries (fs : M15Mcsfs1) (index : Nat) (name : CString) : Prop :=
  index < 32 ∧ (fs.inodes index).used ≠ 0 ∧ name.StoredIn (fs.nameAt index)

def AllInUse (fs : M15Mcsfs1) : Prop := ∀ index < 32, (fs.inodes index).used ≠ 0

/-- A created name fits its field. -/
def M15Call.FitsField : M15Call → Prop
  | .create name => name.length < 64
  | .write _ _ _ | .read _ _ => True

/-- The name a call is to create. -/
def M15Call.creates : M15Call → Option CString
  | .create name => some name
  | .write _ _ _ | .read _ _ => none

/-- After the call no two inodes in use carry the same name, and a create of a
name that is there fails and changes nothing. -/
def KeepsUnique (fs : M15Mcsfs1) (call : M15Call) : Prop :=
  Unambiguous (Carries (call.run fs)) ∧
    ∀ name, call.creates = some name → (∃ index, Carries fs index name) →
      (m15Mcsfs1Create name).result fs < 0 ∧ (m15Mcsfs1Create name).final fs = fs

/-- A create is of a name that no inode in use carries, or finds every inode in
use. -/
def CreatesNew (fs : M15Mcsfs1) (call : M15Call) : Prop :=
  ∀ name, call.creates = some name → AllInUse fs ∨ ∀ index, ¬ Carries fs index name

/-- The inodes in use carry these names, oldest first. -/
structure Named (fs : M15Mcsfs1) (names : List CString) : Prop where
  counts : CountsUsed fs
  count : fs.inodeCount.toNat = names.length
  stored : ∀ index (name : CString), names[index]? = some name →
    name.length < 64 ∧ name.StoredIn (fs.inodes index).name

section

variable {fs : M15Mcsfs1} {names : List CString}

theorem Named.lists (named : Named fs names) : Lists (Carries fs) names := by
  have bounded := named.counts.bounded
  have count := named.count
  intro index name
  constructor
  · rintro ⟨slot, used, stored⟩
    have below := (named.counts.used index slot).mp used
    have present := List.getElem?_eq_getElem (show index < names.length by omega)
    rcases named.stored index _ present with ⟨short, here⟩
    have carried : (names.get ⟨index, by omega⟩).StoredIn (fs.nameAt index) := by
      intro position inside
      rw [nameAt_eq fs slot (by simpa using Nat.lt_of_le_of_lt inside short)]
      exact here position inside
    rw [present, stored.unique carried]
    rfl
  · intro present
    have below := (List.getElem?_eq_some_iff.mp present).1
    rcases named.stored index name present with ⟨short, here⟩
    have slot : index < 32 := by omega
    refine ⟨slot, (named.counts.used index slot).mpr (by omega), ?_⟩
    intro position inside
    rw [nameAt_eq fs slot (by omega)]
    exact here position inside

theorem Named.allInUse_iff (named : Named fs names) :
    AllInUse fs ↔ 32 ≤ fs.inodeCount.toNat := by
  have bounded := named.counts.bounded
  constructor
  · intro all
    by_contra space
    exact space (Nat.le_of_not_lt fun inside =>
      absurd ((named.counts.used _ inside).mp (all _ inside)) (Nat.lt_irrefl _))
  · intro full index slot
    exact (named.counts.used index slot).mpr (by omega)

/-- The name a call adds to the table. -/
def M15Call.adds (fs : M15Mcsfs1) : M15Call → Option CString
  | .create name => if fs.inodeCount.toNat < 32 then some name else none
  | .write _ _ _ | .read _ _ => none

theorem Named.create (named : Named fs names) (space : fs.inodeCount.toNat < 32) {name : CString}
    (short : name.length < 64) :
    Named ((m15Mcsfs1Create name).final fs) (names ++ [name]) := by
  have count := named.count
  have one : (1 : UInt64).toNat = 1 := rfl
  refine ⟨named.counts.create space short, ?_, ?_⟩
  · rw [m15Mcsfs1Create_final space short, UInt64.toNat_add, one, List.length_append,
      List.length_singleton]
    omega
  · intro index found present
    rw [m15Mcsfs1Create_final space short]
    simp only [count]
    rcases getElem?_concat_cases present with ⟨old, present⟩ | ⟨newest, same⟩
    · rw [Function.update_of_ne (Nat.ne_of_lt old)]
      exact named.stored index found present
    · rw [newest, same, Function.update_self]
      exact ⟨short, name.storedIn_writeRange _⟩

theorem Named.write (named : Named fs names) {name : CString} {size : UInt64} {index : Nat}
    (found : m15FindInode fs name = some index)
    (fits : ((fs.inodes index).offset + size).toNat < 4096) (buffer : Nat → UInt8) :
    Named ((m15Mcsfs1Write name buffer size).final fs) names := by
  refine ⟨named.counts.write found fits buffer, ?_, ?_⟩
  · rw [(m15Mcsfs1Write_final found fits buffer).2]
    exact named.count
  · intro other otherName present
    rw [(m15Mcsfs1Write_final found fits buffer).2]
    have stored := named.stored other otherName present
    by_cases here : other = index
    · subst here
      simpa using stored
    · simpa [Function.update_of_ne here] using stored

/-- One call adds one name at most, at the end. -/
theorem Named.run (named : Named fs names) {call : M15Call} (fits : call.FitsField) :
    Named (call.run fs) (names ++ (call.adds fs).toList) := by
  cases call with
  | create name =>
      have run : M15Call.run fs (.create name) = (m15Mcsfs1Create name).final fs := by
        simp [M15Call.run, M15Call.exec]
      by_cases space : fs.inodeCount.toNat < 32
      · simpa [M15Call.adds, space, run] using named.create space fits
      · have silent := (m15Mcsfs1Create_full (Nat.le_of_not_lt space) name).2
        simpa [M15Call.adds, space, run, final, silent] using named
  | write name buffer size =>
      rcases (M15Call.write name buffer size).run_cases fs with ⟨same, _⟩ | ⟨_, impossible, _⟩ |
        ⟨_, _, _, _, _, found, inArea, run⟩
      · simpa [M15Call.adds, same] using named
      · cases impossible
      · simpa [M15Call.adds, run] using named.write found inArea _
  | read name size =>
      simpa [M15Call.run, M15Call.exec, m15Mcsfs1Read_final, M15Call.adds] using named

/-- A call keeps the names unique exactly when it creates a new one, or none. -/
theorem Named.keepsUnique_iff (named : Named fs names) (distinct : names.Nodup) {call : M15Call}
    (fits : call.FitsField) : KeepsUnique fs call ↔ CreatesNew fs call := by
  refine named.lists.unambiguous_make_iff distinct (named.run fits).lists ?_ ?_
  · intro name adds
    cases call with
    | create created =>
        simp only [M15Call.adds, Option.ite_none_right_eq_some] at adds
        refine ⟨adds.2, fun full => ?_⟩
        exact absurd (named.allInUse_iff.mp full) (Nat.not_le.mpr adds.1)
    | write _ _ _ => cases adds
    | read _ _ => cases adds
  · intro name creates notAdded
    cases call with
    | create created =>
        simp only [M15Call.creates, Option.some.injEq] at creates
        subst creates
        have full : 32 ≤ fs.inodeCount.toNat := by simpa [M15Call.adds] using notAdded
        rcases m15Mcsfs1Create_full full created with ⟨refused, silent⟩
        refine ⟨⟨?_, by rw [final, silent, applyAll_nil]⟩, Or.inl (named.allInUse_iff.mpr full)⟩
        rw [refused]
        decide
    | write _ _ _ => cases creates
    | read _ _ => cases creates

end

theorem init_named (memory : M15Mcsfs1) : Named (m15Mcsfs1Init.final memory) [] := by
  refine ⟨(init_highWater memory).1, ?_, by simp⟩
  rw [(m15Mcsfs1Init_final memory).1]
  rfl

/-- The names stay unique along a run exactly when every create is of a new
name or finds every inode in use. -/
theorem run_keepsUnique_iff (memory : M15Mcsfs1) (calls : List M15Call)
    (fit : ∀ call ∈ calls, call.FitsField) :
    EveryCall M15Call.run KeepsUnique calls (m15Mcsfs1Init.final memory) ↔
      EveryCall M15Call.run CreatesNew calls (m15Mcsfs1Init.final memory) := by
  refine everyCall_iff (fun fs => ∃ names, Named fs names ∧ names.Nodup) ?_
    ⟨[], init_named memory, List.nodup_nil⟩ (everyCall_of_forall fit _)
  rintro fs call ⟨names, named, distinct⟩ fits
  refine ⟨named.keepsUnique_iff distinct fits, fun keeps => ?_⟩
  have after := named.run fits
  exact ⟨_, after, after.lists.unambiguous_iff.mp keeps.1⟩

end Mcsos.Mcsfs
