import Mcsos.Mcsfs.HighWater

/-!
Contract: the bytes of a new name in a kernel MCSFS1, for names of any length.

The copy of a create runs to the terminator of the name and knows nothing of
the 64 bytes of the field. What stands behind the field are the offset, the
size and the flag of the inode itself, then the next inode and at last the
data; `data_used` and the count stand before the inodes.
-/

namespace Mcsos.Mcsfs

open Mcsos.Machine
open Mcsos.Machine.Prog

/-- A byte of a name goes into the name field of the inode. -/
def M15Access.InNameField (index : Nat) : M15Access → Prop
  | .storeName inode position _ => inode = index ∧ position < 64
  | _ => True

/-- The inode the next create takes is made, and nothing else: the name with
its terminator in its field, the offset from `data_used`, no bytes yet. -/
structure MakesInode (fs after : M15Mcsfs1) (name : CString) : Prop where
  name : name.StoredIn (after.nameAt fs.inodeCount.toNat)
  offset : (after.inodes fs.inodeCount.toNat).offset = fs.dataUsed
  size : (after.inodes fs.inodeCount.toNat).size = 0
  used : (after.inodes fs.inodeCount.toNat).used = 1
  others : ∀ index, index ≠ fs.inodeCount.toNat → after.inodes index = fs.inodes index
  data : after.data = fs.data

/-- The create fails and changes nothing, or makes its inode without a store
outside the name field. -/
def CreateRespectsField (fs : M15Mcsfs1) (name : CString) : Prop :=
  ((m15Mcsfs1Create name).result fs < 0 ∧ (m15Mcsfs1Create name).final fs = fs) ∨
    ((m15Mcsfs1Create name).result fs = m15Mcsfs1Ok ∧
      (m15Mcsfs1Create name).Issues (M15Access.InNameField fs.inodeCount.toNat) fs ∧
      MakesInode fs ((m15Mcsfs1Create name).final fs) name)

section

variable {fs : M15Mcsfs1} {name : CString}

/-- The bytes of a name stay in the field exactly when the terminator does. -/
theorem create_inNameField_iff (space : fs.inodeCount.toNat < 32) :
    (m15Mcsfs1Create name).Issues (M15Access.InNameField fs.inodeCount.toNat) fs ↔
      name.length < 64 := by
  have notFull : ¬ m15Mcsfs1MaxFiles ≤ fs.inodeCount.toNat := Nat.not_le.mpr space
  have copied : ∀ s : M15Mcsfs1, (m15Strcpy (.storeName fs.inodeCount.toNat) name).Issues
      (M15Access.InNameField fs.inodeCount.toNat) s ↔ name.length < 64 := by
    intro s
    rw [m15Strcpy, strcpy_issues_iff]
    constructor
    · intro inside
      exact (inside name.length (Nat.le_refl _)).2
    · intro short position inside
      exact ⟨rfl, by omega⟩
  simp [m15Mcsfs1Create, notFull, copied, M15Access.InNameField]

theorem create_makesInode (space : fs.inodeCount.toNat < 32) (short : name.length < 64) :
    MakesInode fs ((m15Mcsfs1Create name).final fs) name := by
  have made : ((m15Mcsfs1Create name).final fs).inodes fs.inodeCount.toNat =
      createdInode fs name := by
    rw [m15Mcsfs1Create_final space short]
    exact Function.update_self _ _ _
  refine ⟨?_, by rw [made]; rfl, by rw [made]; rfl, by rw [made]; rfl, ?_, ?_⟩
  · intro position inside
    rw [nameAt_eq _ space (by omega), made]
    exact name.storedIn_writeRange _ position inside
  · intro index different
    rw [m15Mcsfs1Create_final space short]
    exact Function.update_of_ne different _ _
  · rw [m15Mcsfs1Create_final space short]

theorem createRespectsField_iff (fs : M15Mcsfs1) (name : CString) :
    CreateRespectsField fs name ↔ 32 ≤ fs.inodeCount.toNat ∨ name.length < 64 := by
  by_cases space : fs.inodeCount.toNat < 32
  · have ok := m15Mcsfs1Create_status space name
    constructor
    · rintro (⟨negative, _⟩ | ⟨_, inField, _⟩)
      · rw [ok] at negative
        exact absurd negative (by decide)
      · exact Or.inr ((create_inNameField_iff space).mp inField)
    · rintro (full | short)
      · omega
      · exact Or.inr ⟨ok, (create_inNameField_iff space).mpr short, create_makesInode space short⟩
  · have full := Nat.le_of_not_lt space
    rcases m15Mcsfs1Create_full full name with ⟨refused, silent⟩
    refine ⟨fun _ => Or.inl full, fun _ => Or.inl ⟨?_, ?_⟩⟩
    · rw [refused]
      decide
    · rw [final, silent, applyAll_nil]

/-! ### The number of inodes -/

end

/-! ### Every reachable state -/

end Mcsos.Mcsfs
