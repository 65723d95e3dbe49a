import Mcsos.Mcsfs.Model
import Mcsos.Machine.Slots

/-!
The files a kernel MCSFS1 holds, and what each operation does to them.

`Represents` is the representation invariant while names fit their field and
are created once: slot `i` of the inode array is the file `names[i]`. Every
operation is described once against it, and the later modules use the
descriptions only.
-/

namespace Mcsos.Mcsfs

open Mcsos.Machine
open Mcsos.Machine.Prog

/-- The inode is the file of this name, its extent inside the data area. -/
structure M15Inode.Is (inode : M15Inode) (name : CString) : Prop where
  used : inode.used ≠ 0
  short : name.length < 64
  stored : name.StoredIn inode.name
  extent : inode.offset.toNat + inode.size.toNat < 4096

/-- The file system holds exactly these files, oldest first. -/
structure Represents (fs : M15Mcsfs1) (names : List CString) : Prop where
  bounded : names.length ≤ 32
  count : fs.inodeCount.toNat = names.length
  distinct : names.Nodup
  dataUsed : fs.dataUsed.toNat < 4096
  inode : ∀ index name, names[index]? = some name → (fs.inodes index).Is name

/-! ### Names -/

theorem nameOffset_slot {index position : Nat} (slot : index < 32) (inside : position < 64) :
    index * inodeSize + position < m15Mcsfs1MaxFiles * inodeSize ∧
      (index * inodeSize + position) / inodeSize = index ∧
      (index * inodeSize + position) % inodeSize = position := by
  simp only [inodeSize, m15Mcsfs1MaxFiles]
  omega

/-- Inside the name field the layout is the field itself. -/
theorem nameAt_eq (fs : M15Mcsfs1) {index position : Nat} (slot : index < 32)
    (inside : position < 64) : fs.nameAt index position = (fs.inodes index).name position := by
  rcases nameOffset_slot slot inside with ⟨before, quotient, remainder⟩
  rw [M15Mcsfs1.nameAt, M15Mcsfs1.byteAt, if_pos before, quotient, remainder, M15Inode.byteAt,
    if_pos inside]

theorem storeName_apply (fs : M15Mcsfs1) {index position : Nat} (slot : index < 32)
    (inside : position < 64) (value : UInt8) :
    Event.apply (M15Access.storeName index position value) fs =
      fs.modifyInode index fun inode =>
        { inode with name := Function.update inode.name position value } := by
  rcases nameOffset_slot slot inside with ⟨before, quotient, remainder⟩
  show fs.setByte (index * inodeSize + position) value = _
  simp only [M15Mcsfs1.setByte, before, if_true, quotient, remainder, M15Inode.setByte, inside]

/-- A name that fits is copied into its field and nowhere else. -/
theorem m15Strcpy_final (fs : M15Mcsfs1) {index : Nat} (slot : index < 32) {name : CString}
    (short : name.length < 64) :
    (m15Strcpy (.storeName index) name).final fs =
      fs.modifyInode index fun inode =>
        { inode with name := writeRange inode.name 0 (name.length + 1) name.byteAt } := by
  rw [m15Strcpy, strcpy_final]
  have loop := forLoop_emit_writeRange
    (fun position => M15Access.storeName index position (name.byteAt position))
    (fun bytes => fs.modifyInode index ({ · with name := bytes }))
    (fs.inodes index).name 0 (name.length + 1) name.byteAt (by
      intro position inside memory
      rw [storeName_apply _ slot (by omega)]
      simp [M15Mcsfs1.modifyInode])
  simp only [M15Mcsfs1.modifyInode, Function.update_eq_self] at loop
  exact loop

/-- The search finds the slot of a name. -/
theorem Represents.slot_decides {fs : M15Mcsfs1} {names : List CString}
    (represents : Represents fs names) (target : CString) (index : Nat) (name : CString)
    (present : names[index]? = some name) :
    ((fs.inodes index).used != 0 && m15Strcmp (fs.nameAt index) target == 0) = true ↔
      name = target := by
  have is := represents.inode index name present
  have slot : index < 32 := by
    have inside := (List.getElem?_eq_some_iff.mp present).1
    have bounded := represents.bounded
    omega
  have stored : name.StoredIn (fs.nameAt index) := by
    intro position inside
    have short := is.short
    rw [nameAt_eq fs slot (by omega)]
    exact is.stored position inside
  have used := is.used
  simp [used, m15Strcmp, stored.strcmp_eq_zero_iff]

theorem Represents.find_eq_some_iff {fs : M15Mcsfs1} {names : List CString}
    (represents : Represents fs names) (name : CString) (index : Nat) :
    m15FindInode fs name = some index ↔ names[index]? = some name := by
  rw [m15FindInode, represents.count]
  rw [find?_range_eq_idxOf? (represents.slot_decides name)]
  exact idxOf?_eq_some_iff_getElem? represents.distinct

/-- A name has one slot. -/
theorem Represents.slot_unique {fs : M15Mcsfs1} {names : List CString}
    (represents : Represents fs names) {name : CString} {index other : Nat}
    (found : m15FindInode fs name = some index) (present : names[other]? = some name) :
    other = index := by
  have again := (represents.find_eq_some_iff name other).mpr present
  exact Option.some.inj (again.symm.trans found)

/-! ### Init -/

/-- Nothing is in use and nothing is stored. -/
theorem m15Mcsfs1Init_final (fs : M15Mcsfs1) :
    (m15Mcsfs1Init.final fs).inodeCount = 0 ∧ (m15Mcsfs1Init.final fs).dataUsed = 0 ∧
      ∀ index < 32, ((m15Mcsfs1Init.final fs).inodes index).used = 0 := by
  have stores : m15Mcsfs1Init.final fs =
      (forLoop 0 m15Mcsfs1MaxFiles fun index => emit (M15Access.storeUsed index 0)).final
        { fs with magic := m15Mcsfs1Magic, inodeCount := 0, dataUsed := 0 } := by
    simp [m15Mcsfs1Init, Event.apply, M15Access.apply]
  have cleared := forLoop_invariant 0 m15Mcsfs1MaxFiles
    (fun index => emit (M15Access.storeUsed index 0))
    (fun count (s : M15Mcsfs1) => s.inodeCount = 0 ∧ s.dataUsed = 0 ∧
      ∀ index < count, (s.inodes index).used = 0)
    (show ({ fs with magic := m15Mcsfs1Magic, inodeCount := 0, dataUsed := 0 } :
      M15Mcsfs1).inodeCount = 0 ∧ _ from ⟨rfl, rfl, by simp⟩)
    (by
      intro count s _ _ ⟨inodeCount, dataUsed, unused⟩
      refine ⟨inodeCount, dataUsed, ?_⟩
      intro index below
      show (Function.update s.inodes count _ index).used = 0
      by_cases last : index = count
      · rw [last, Function.update_self]
      · rw [Function.update_of_ne last]
        exact unused index (by omega))
  rw [stores]
  exact cleared

theorem m15Mcsfs1Init_represents (fs : M15Mcsfs1) : Represents (m15Mcsfs1Init.final fs) [] := by
  rcases m15Mcsfs1Init_final fs with ⟨count, mark, _⟩
  refine ⟨by simp, ?_, List.nodup_nil, ?_, by simp⟩
  · rw [count]
    rfl
  · rw [mark]
    decide

/-! ### Create -/

theorem m15Mcsfs1Create_full {fs : M15Mcsfs1} (full : 32 ≤ fs.inodeCount.toNat) (name : CString) :
    (m15Mcsfs1Create name).result fs = m15Mcsfs1Enospc ∧
      (m15Mcsfs1Create name).trace fs = [] := by
  have reached : m15Mcsfs1MaxFiles ≤ fs.inodeCount.toNat := full
  simp [m15Mcsfs1Create, reached]

/-- A create succeeds whenever a slot is left, whatever the name. -/
theorem m15Mcsfs1Create_status {fs : M15Mcsfs1} (space : fs.inodeCount.toNat < 32)
    (name : CString) : (m15Mcsfs1Create name).result fs = m15Mcsfs1Ok := by
  have notFull : ¬ m15Mcsfs1MaxFiles ≤ fs.inodeCount.toNat := by
    simp only [m15Mcsfs1MaxFiles]
    omega
  simp [m15Mcsfs1Create, notFull]

/-- The inode a create makes out of the slot it takes. -/
def createdInode (fs : M15Mcsfs1) (name : CString) : M15Inode :=
  let old := fs.inodes fs.inodeCount.toNat
  { name := writeRange old.name 0 (name.length + 1) name.byteAt
    offset := fs.dataUsed
    size := 0
    used := 1
    padding := old.padding }

theorem m15Mcsfs1Create_final {fs : M15Mcsfs1} (space : fs.inodeCount.toNat < 32) {name : CString}
    (short : name.length < 64) :
    (m15Mcsfs1Create name).final fs =
      { fs with
        inodeCount := fs.inodeCount + 1
        inodes := Function.update fs.inodes fs.inodeCount.toNat (createdInode fs name) } := by
  have notFull : ¬ m15Mcsfs1MaxFiles ≤ fs.inodeCount.toNat := by
    simp only [m15Mcsfs1MaxFiles]
    omega
  simp [m15Mcsfs1Create, notFull, m15Strcpy_final _ space short, Event.apply, M15Access.apply,
    M15Mcsfs1.modifyInode, createdInode]

theorem createdInode_is {fs : M15Mcsfs1} (dataUsed : fs.dataUsed.toNat < 4096) {name : CString}
    (short : name.length < 64) : (createdInode fs name).Is name where
  used := by simp [createdInode]
  short := short
  stored := name.storedIn_writeRange _
  extent := by simpa [createdInode] using dataUsed

/-- A create of a new name that fits adds an empty file. -/
theorem Represents.create {fs : M15Mcsfs1} {names : List CString} (represents : Represents fs names)
    (space : names.length < 32) {name : CString} (short : name.length < 64)
    (fresh : name ∉ names) :
    Represents ((m15Mcsfs1Create name).final fs) (names ++ [name]) := by
  have countSmall : fs.inodeCount.toNat < 32 := by rw [represents.count]; exact space
  rw [m15Mcsfs1Create_final countSmall short]
  refine ⟨by simp; omega, ?_, ?_, represents.dataUsed, ?_⟩
  · have one : (1 : UInt64).toNat = 1 := rfl
    rw [UInt64.toNat_add, one, List.length_append, List.length_singleton, ← represents.count]
    omega
  · rw [← List.concat_eq_append]
    exact represents.distinct.concat fresh
  · intro index found present
    show (Function.update fs.inodes fs.inodeCount.toNat _ index).Is found
    rw [represents.count]
    rcases getElem?_concat_cases present with ⟨old, present⟩ | ⟨newest, same⟩
    · rw [Function.update_of_ne (by omega)]
      exact represents.inode index found present
    · rw [newest, same, Function.update_self]
      exact createdInode_is represents.dataUsed short

/-! ### Write -/

theorem copyToData_final (fs : M15Mcsfs1) (dst size : Nat) (src : Nat → UInt8) :
    (m15Memcpy (fun position => .storeData (dst + position)) src size).final fs =
      { fs with data := writeRange fs.data dst size src } := by
  apply forLoop_emit_writeRange (fun position => M15Access.storeData (dst + position) (src position))
    (fun data => { fs with data := data }) fs.data
  intro position _ memory
  rfl

/-- The write is refused: there is no such file, or no space. -/
def WriteRefused (fs : M15Mcsfs1) (name : CString) (size : UInt64) : Prop :=
  ∀ index, m15FindInode fs name = some index →
    4096 ≤ ((fs.inodes index).offset + size).toNat

theorem m15Mcsfs1Write_refused {fs : M15Mcsfs1} {name : CString} {size : UInt64}
    (refused : WriteRefused fs name size) (buffer : Nat → UInt8) :
    ((m15Mcsfs1Write name buffer size).result fs < 0) ∧
      (m15Mcsfs1Write name buffer size).trace fs = [] := by
  cases found : m15FindInode fs name with
  | none => simp [m15Mcsfs1Write, found, m15Mcsfs1Enoent]
  | some index =>
      have beyond : m15Mcsfs1DataSize ≤ ((fs.inodes index).offset + size).toNat :=
        refused index found
      simp [m15Mcsfs1Write, found, -UInt64.toNat_add, beyond, m15Mcsfs1Enospc]

theorem m15Mcsfs1Write_final {fs : M15Mcsfs1} {name : CString} {size : UInt64} {index : Nat}
    (found : m15FindInode fs name = some index)
    (fits : ((fs.inodes index).offset + size).toNat < 4096) (buffer : Nat → UInt8) :
    (m15Mcsfs1Write name buffer size).result fs = size.toUInt32.toInt32.toInt ∧
      (m15Mcsfs1Write name buffer size).final fs =
        { fs with
          dataUsed := (fs.inodes index).offset + size
          inodes := Function.update fs.inodes index { fs.inodes index with size := size }
          data := writeRange fs.data (fs.inodes index).offset.toNat size.toNat buffer } := by
  have notBeyond : ¬ m15Mcsfs1DataSize ≤ ((fs.inodes index).offset + size).toNat := by
    simp only [m15Mcsfs1DataSize]
    omega
  simp [m15Mcsfs1Write, found, -UInt64.toNat_add, notBeyond, copyToData_final, Event.apply,
    M15Access.apply, M15Mcsfs1.modifyInode]

/-- An offset and a size of the data area do not wrap. -/
theorem offset_add_size {offset size : UInt64} (inside : offset.toNat < 4096)
    (bounded : size.toNat < 4096) : (offset + size).toNat = offset.toNat + size.toNat := by
  rw [UInt64.toNat_add]
  omega

theorem Represents.write {fs : M15Mcsfs1} {names : List CString} (represents : Represents fs names)
    {name : CString} {size : UInt64} {index : Nat} (found : m15FindInode fs name = some index)
    (bounded : size.toNat < 4096)
    (fits : ((fs.inodes index).offset + size).toNat < 4096) (buffer : Nat → UInt8) :
    Represents ((m15Mcsfs1Write name buffer size).final fs) names := by
  have present := (represents.find_eq_some_iff name index).mp found
  have is := represents.inode index name present
  have extent := is.extent
  rw [(m15Mcsfs1Write_final found fits buffer).2]
  refine ⟨represents.bounded, represents.count, represents.distinct, fits, ?_⟩
  intro other otherName otherPresent
  show (Function.update fs.inodes index _ other).Is otherName
  by_cases here : other = index
  · subst here
    rw [Function.update_self]
    have same : otherName = name := Option.some.inj (otherPresent.symm.trans present)
    subst same
    refine ⟨is.used, is.short, is.stored, ?_⟩
    rw [offset_add_size (by omega) bounded] at fits
    exact fits
  · rw [Function.update_of_ne here]
    exact represents.inode other otherName otherPresent

/-! ### Read -/

/-- The bytes of the file in a slot. -/
def fileBytes (fs : M15Mcsfs1) (index : Nat) : List UInt8 :=
  readRange fs.data (fs.inodes index).offset.toNat (fs.inodes index).size.toNat

theorem loadData_final (fs : M15Mcsfs1) (offset size : Nat) :
    (forLoop 0 size fun index => emit (M15Access.loadData (offset + index))).final fs = fs :=
  forLoop_final 0 size _ (fun _ => fs) fun _ _ _ => rfl

theorem m15Mcsfs1Read_final (fs : M15Mcsfs1) (name : CString) (size : UInt64) :
    (m15Mcsfs1Read name size).final fs = fs := by
  cases found : m15FindInode fs name with
  | none => simp [m15Mcsfs1Read, found]
  | some index => simp [m15Mcsfs1Read, found, loadData_final]

/-- A read of a file returns the front of its bytes. -/
theorem Represents.read_result {fs : M15Mcsfs1} {names : List CString}
    (represents : Represents fs names) {name : CString} {index : Nat}
    (present : names[index]? = some name) (size : UInt64) :
    (m15Mcsfs1Read name size).result fs =
      (Int.ofNat (min size.toNat (fileBytes fs index).length),
        (fileBytes fs index).take size.toNat) := by
  have found := (represents.find_eq_some_iff name index).mpr present
  have extent := (represents.inode index name present).extent
  have answer : ∀ count : UInt64, count.toNat = min size.toNat (fs.inodes index).size.toNat →
      (count.toInt64.toInt, readRange fs.data (fs.inodes index).offset.toNat count.toNat) =
      (Int.ofNat (min size.toNat (fileBytes fs index).length),
        (fileBytes fs index).take size.toNat) := by
    intro count clamped
    rw [toInt64_toInt_of_lt (by omega), fileBytes, readRange_take, clamped, readRange_length]
    rfl
  simp only [m15Mcsfs1Read, result_bind, result_get, final_get, found, result_pure]
  apply answer
  split
  next larger =>
    have above := UInt64.lt_iff_toNat_lt.mp larger
    omega
  next notLarger =>
    have below := UInt64.le_iff_toNat_le.mp (UInt64.not_lt.mp notLarger)
    omega

end Mcsos.Mcsfs
