import Mcsos.Vfs.Layout

/-!
Contract: the bytes of a new path in the ramfs, for paths of any length.

`m13_strcpy` copies up to the terminator. Behind the 32 bytes of the name stand
the padding, the size, the place and the capacity of the block, all of which
are set before the copy; then the next node, the pool and the two counters.
-/

namespace Mcsos.Vfs

open Mcsos.Machine
open Mcsos.Machine.Prog

/-- A byte of a path goes into the name field of the node. -/
def VfsAccess.InNameField (index : Nat) : VfsAccess → Prop
  | .storeName node position _ => node = index ∧ position < 32
  | _ => True

/-- The node the next create takes is made, with an empty file in the next block
of the pool; no other node and no byte of the pool changes, and the path is
found. -/
structure MakesNode (fs after : McsRamfs) (path : CString) : Prop where
  name : path.StoredIn (after.nameAt fs.nodeCount.toNat)
  size : (after.nodes fs.nodeCount.toNat).size = 0
  dataOffset : (after.nodes fs.nodeCount.toNat).dataOffset = fs.dataUsed
  dataCapacity : (after.nodes fs.nodeCount.toNat).dataCapacity = 256
  others : ∀ index, index ≠ fs.nodeCount.toNat → after.nodes index = fs.nodes index
  data : after.data = fs.data
  found : ∃ index, mcsRamfsLookup after path = some index ∧ path.StoredIn (after.nameAt index)

/-- The create fails and changes nothing, or makes its node without a store
outside the name field. -/
def CreateRespectsField (w : VfsWorld) (path : CString) : Prop :=
  ((mcsRamfsCreateFile path).result w = none ∧ (mcsRamfsCreateFile path).final w = w) ∨
    ((mcsRamfsCreateFile path).Issues (VfsAccess.InNameField w.fs.nodeCount.toNat) w ∧
      MakesNode w.fs ((mcsRamfsCreateFile path).final w).fs path)

/-- The same of the create an open makes; `MCS_ENOSPC` is how the open reports
that it failed. -/
def OpenRespectsField (w : VfsWorld) (table : Nat) (path : CString) (flags : UInt32) : Prop :=
  ((mcsVfsOpen table path flags).result w = mcsEnospc ∧
      (mcsVfsOpen table path flags).final w = w) ∨
    ((mcsVfsOpen table path flags).Issues (VfsAccess.InNameField w.fs.nodeCount.toNat) w ∧
      MakesNode w.fs ((mcsVfsOpen table path flags).final w).fs path)

section

variable {w : VfsWorld} {path : CString}

/-! ### The create -/

/-- The bytes of a path stay in the field exactly when the terminator does. -/
theorem create_inNameField_iff (space : HasSpace w.fs) :
    (mcsRamfsCreateFile path).Issues (VfsAccess.InNameField w.fs.nodeCount.toNat) w ↔
      path.length < 32 := by
  have nodes : ¬ mcsMaxNodes ≤ w.fs.nodeCount.toNat := Nat.not_le.mpr space.1
  have pool : ¬ mcsRamfsDataBytes ≤ (w.fs.dataUsed + 256).toNat := Nat.not_le.mpr space.2
  have copied : ∀ s, (m13Strcpy (.storeName w.fs.nodeCount.toNat) path).Issues
      (VfsAccess.InNameField w.fs.nodeCount.toNat) s ↔ path.length < 32 := by
    intro s
    rw [m13Strcpy, strcpy_issues_iff]
    constructor
    · intro inside
      exact (inside path.length (Nat.le_refl _)).2
    · intro short position inside
      exact ⟨rfl, by omega⟩
  simp [mcsRamfsCreateFile, nodes, pool, -UInt64.toNat_add, copied, VfsAccess.InNameField]

/-- A lookup that succeeds comes to a node with the path, and one node with the
path is enough for it to succeed. -/
theorem lookup_finds {fs : McsRamfs} {index : Nat} (inside : index < fs.nodeCount.toNat)
    (stored : path.StoredIn (fs.nameAt index)) :
    ∃ found, mcsRamfsLookup fs path = some found ∧ path.StoredIn (fs.nameAt found) := by
  cases answer : mcsRamfsLookup fs path with
  | none =>
      have misses := List.find?_eq_none.mp answer index (List.mem_range.mpr inside)
      have hits := (path.strcmp_eq_zero_iff_storedIn (fs.nameAt index)).mpr stored
      exact absurd (by simpa [m13Strcmp] using hits) misses
  | some found =>
      have hits := List.find?_some answer
      exact ⟨found, rfl, (path.strcmp_eq_zero_iff_storedIn _).mp (by simpa [m13Strcmp] using hits)⟩

theorem create_makesNode (space : HasSpace w.fs) (short : path.length < 32) :
    MakesNode w.fs ((mcsRamfsCreateFile path).final w).fs path := by
  have made := created_node space short
  have stored : path.StoredIn
      (((mcsRamfsCreateFile path).final w).fs.nameAt w.fs.nodeCount.toNat) := by
    intro position inside
    rw [nameAt_eq _ space.1 (by omega), made]
    exact path.storedIn_writeRange _ position inside
  refine ⟨stored, by rw [made]; rfl, by rw [made]; rfl, by rw [made]; rfl, ?_, ?_,
    lookup_finds (created_inside space short) stored⟩
  · intro index different
    rw [(mcsRamfsCreateFile_final space short).2]
    exact Function.update_of_ne different _ _
  · rw [(mcsRamfsCreateFile_final space short).2]

theorem createRespectsField_iff (w : VfsWorld) (path : CString) :
    CreateRespectsField w path ↔ ¬ HasSpace w.fs ∨ path.length < 32 := by
  by_cases space : HasSpace w.fs
  · constructor
    · rintro (⟨refused, -⟩ | ⟨inField, -⟩)
      · rw [mcsRamfsCreateFile_status space path] at refused
        cases refused
      · exact Or.inr ((create_inNameField_iff space).mp inField)
    · rintro (full | short)
      · exact absurd space full
      · exact Or.inr ⟨(create_inNameField_iff space).mpr short, create_makesNode space short⟩
  · rcases mcsRamfsCreateFile_full space path with ⟨refused, silent⟩
    exact ⟨fun _ => Or.inl space, fun _ => Or.inl ⟨refused, by rw [final, silent, applyAll_nil]⟩⟩

/-! ### The create of an open -/

/-- An open stores the bytes of a path only in the create it makes. -/
theorem open_inNameField_iff (missing : mcsRamfsLookup w.fs path = none) {flags : UInt32}
    (create : flags &&& mcsOCreat ≠ 0) (table index : Nat) :
    (mcsVfsOpen table path flags).Issues (VfsAccess.InNameField index) w ↔
      (mcsRamfsCreateFile path).Issues (VfsAccess.InNameField index) w := by
  have taken : ∀ node s, (scanLoop 0 mcsMaxOpenFiles (takeDescriptor table node flags)).Issues
      (VfsAccess.InNameField index) s := by
    intro node s access member
    have toTable := takeDescriptor_toTable table node flags s access member
    cases access with
    | storeName _ _ _ => exact absurd trivial toTable
    | _ => trivial
  have made : (openNode path flags).Issues (VfsAccess.InNameField index) w ↔
      (mcsRamfsCreateFile path).Issues (VfsAccess.InNameField index) w := by
    simp only [openNode, issues_bind, issues_get, result_get, final_get, missing, create, if_false,
      true_and, and_iff_left_iff_imp]
    intro _
    split <;> exact issues_pure _ _ _
  rw [mcsVfsOpen, issues_bind, made, and_iff_left_iff_imp]
  intro _
  split
  · exact issues_pure _ _ _
  · rw [issues_bind]
    exact ⟨taken _ _, issues_pure _ _ _⟩

theorem openRespectsField_iff (missing : mcsRamfsLookup w.fs path = none) {flags : UInt32}
    (create : flags &&& mcsOCreat ≠ 0) (table : Nat) :
    OpenRespectsField w table path flags ↔ ¬ HasSpace w.fs ∨ path.length < 32 := by
  have inField := open_inNameField_iff missing create table w.fs.nodeCount.toNat
  by_cases space : HasSpace w.fs
  · rw [create_inNameField_iff space] at inField
    rcases mcsVfsOpen_cases w table path flags with
      ⟨-, noCreate | full, -⟩ | ⟨node, after, found, outcome⟩
    · exact absurd noCreate create
    · exact absurd space full
    · have afterCreate : after = (mcsRamfsCreateFile path).final w := by
        rcases found with ⟨there, -⟩ | ⟨-, -, -, -, rfl⟩
        · rw [missing] at there
          cases there
        · rfl
      have world : ((mcsVfsOpen table path flags).final w).fs =
          ((mcsRamfsCreateFile path).final w).fs := by
        rcases outcome with ⟨-, -, left⟩ | ⟨slot, -, -, -, -, left⟩
        · rw [left, afterCreate]
        · rw [left, afterCreate]
          rfl
      constructor
      · rintro (⟨refused, -⟩ | ⟨inside, -⟩)
        · rcases outcome with ⟨-, status, -⟩ | ⟨slot, -, -, -, status, -⟩
          · rw [status] at refused
            exact absurd refused (by decide)
          · rw [status, mcsEnospc] at refused
            omega
        · exact Or.inr (inField.mp inside)
      · rintro (full | short)
        · exact absurd space full
        · rw [OpenRespectsField, world]
          exact Or.inr ⟨inField.mpr short, create_makesNode space short⟩
  · refine ⟨fun _ => Or.inl space, fun _ => Or.inl ?_⟩
    rcases mcsRamfsCreateFile_full space path with ⟨refused, silent⟩
    have same : (mcsRamfsCreateFile path).final w = w := by rw [final, silent, applyAll_nil]
    simp [mcsVfsOpen, openNode, missing, create, refused, same]

end

/-! ### Every reachable state -/

/-- In every state that calls with paths of any length lead to, a create of any
path, its own or that of an open, respects the name field exactly when there is
no space for it or the path is shorter than the field. -/
theorem reachable_pathInField_iff (tableCount : Nat) (memory : VfsWorld) (calls : List FsCall)
    (path : CString) :
    let w := calls.foldl FsCall.next ((vfsStart tableCount).final memory)
    (CreateRespectsField w path ↔ ¬ HasSpace w.fs ∨ path.length < 32) ∧
      ∀ table flags, mcsRamfsLookup w.fs path = none → flags &&& mcsOCreat ≠ 0 →
        (OpenRespectsField w table path flags ↔ ¬ HasSpace w.fs ∨ path.length < 32) := by
  intro w
  exact ⟨createRespectsField_iff w path,
    fun table flags missing create => openRespectsField_iff missing create table⟩

theorem reachable_pathInField_firstOpen :
    OpenRespectsField ((vfsStart 1).final zeroedWorld) 0 helloPath mcsOCreat :=
  ((reachable_pathInField_iff 1 zeroedWorld [] helloPath).2 0 mcsOCreat (by decide +kernel)
    (by decide)).mpr (Or.inr (by decide))

/-- A path of 37 characters: the field, the padding and one byte of the size. -/
def longPath : CString := ⟨List.replicate 37 120, by simp⟩

/-- The size of the new file is then 120. -/
theorem longPath_leaves_field :
    ¬ CreateRespectsField ((vfsStart 1).final zeroedWorld) longPath ∧
      (((mcsRamfsCreateFile longPath).final ((vfsStart 1).final zeroedWorld)).fs.nodes 1).size =
        120 := by
  constructor
  · rw [createRespectsField_iff]
    rintro (full | short)
    · exact full (by decide +kernel)
    · exact absurd short (by decide)
  · decide +kernel

end Mcsos.Vfs
