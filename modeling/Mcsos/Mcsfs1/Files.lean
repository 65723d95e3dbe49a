import Mcsos.Machine.Slots
import Mcsos.Mcsfs1.Model

/-!
The files a stand-alone MCSFS1 holds, and what each operation does to them.

`Represents` says that slot `i` of the inode array is the `i`-th name that was
created. A name may be created again: its later slots are shadowed, since every
search stops at the first slot of a name.
-/

namespace Mcsos.Mcsfs1

open Mcsos.Machine
open Mcsos.Machine.Prog

/-- The inode is a file of this name. -/
structure Mcsfs1Inode.Is (inode : Mcsfs1Inode) (name : CString) : Prop where
  used : inode.used ≠ 0
  short : name.length < 32
  stored : name.StoredIn inode.name
  size : inode.size.toNat ≤ 256

/-- The file system holds exactly these files, oldest first. -/
structure Represents (fs : Mcsfs1T) (names : List CString) : Prop where
  bounded : names.length ≤ 32
  count : fs.inodeCount.toNat = names.length
  inode : ∀ index name, names[index]? = some name → (fs.inodes index).Is name
  unused : ∀ index, names.length ≤ index → index < 32 → (fs.inodes index).used = 0

/-- The bytes of the file in a slot. -/
def fileBytes (fs : Mcsfs1T) (index : Nat) : List UInt8 :=
  readRange (fs.inodes index).data 0 (fs.inodes index).size.toNat

/-- The bytes a search for the name comes to. -/
def bytesOf (fs : Mcsfs1T) (names : List CString) (name : CString) : Option (List UInt8) :=
  (names.idxOf? name).map (fileBytes fs)

/-! ### Names -/

/-- `m15_streq` decides what the comparison with a signed answer decides. -/
theorem m15StreqFrom_iff (a : Nat → UInt8) (b : List UInt8) (position : Nat) :
    m15StreqFrom a b position = true ↔ (strcmpFrom a b position).1 = 0 := by
  induction b generalizing position with
  | nil => simp [m15StreqFrom, strcmpFrom, charDifference_eq_zero_iff]
  | cons char rest inductionHypothesis =>
      rw [m15StreqFrom, strcmpFrom]
      split
      · simp [charDifference_eq_zero_iff]
      · split
        next different => simp [charDifference_eq_zero_iff, different]
        · exact inductionHypothesis (position + 1)

/-- A search stops at a slot exactly when the slot is a file of the name. -/
theorem Represents.hits_iff {fs : Mcsfs1T} {names : List CString} (represents : Represents fs names)
    {index : Nat} (slot : index < 32) (name : CString) :
    ((fs.inodes index).used ≠ 0 ∧ m15Streq (fs.inodes index).name name = true) ↔
      names[index]? = some name := by
  cases present : names[index]? with
  | none =>
      have free := represents.unused index (List.getElem?_eq_none_iff.mp present) slot
      simp [free]
  | some stored =>
      have is := represents.inode index stored present
      rw [m15Streq, m15StreqFrom_iff, is.stored.strcmp_eq_zero_iff, Option.some.injEq]
      exact ⟨fun hit => hit.2, fun same => ⟨is.used, same⟩⟩

section

variable {α : Type} {fs : Mcsfs1T} {names : List CString} {name : CString}

theorem Represents.slot_lt (represents : Represents fs names) {index : Nat}
    (present : names[index]? = some name) : index < 32 := by
  have inside := (List.getElem?_eq_some_iff.mp present).1
  have bounded := represents.bounded
  omega

theorem inodeProbe_miss {index : Nat}
    (misses : ¬ ((fs.inodes index).used ≠ 0 ∧ m15Streq (fs.inodes index).name name = true))
    (body : Nat → Mcsfs1Prog α) :
    (inodeProbe name body index).result fs = none ∧
      (inodeProbe name body index).final fs = fs := by
  simp only [inodeProbe, result_bind, final_bind, result_get, final_get, if_neg misses]
  exact ⟨rfl, rfl⟩

theorem inodeProbe_hit {index : Nat}
    (hits : (fs.inodes index).used ≠ 0 ∧ m15Streq (fs.inodes index).name name = true)
    (body : Nat → Mcsfs1Prog α) :
    (inodeProbe name body index).result fs = some ((body index).result fs) ∧
      (inodeProbe name body index).final fs = (body index).final fs := by
  simp only [inodeProbe, result_bind, final_bind, result_get, final_get, if_pos hits]
  exact ⟨rfl, rfl⟩

theorem Represents.atInode_missing (represents : Represents fs names)
    (missing : names.idxOf? name = none) (body : Nat → Mcsfs1Prog α) :
    (atInode name body).result fs = none ∧ (atInode name body).final fs = fs := by
  apply scanLoop_miss
  intro index _ slot
  apply inodeProbe_miss
  rw [represents.hits_iff (by simpa [mcsfs1MaxFiles] using slot)]
  intro present
  exact List.idxOf?_eq_none_iff.mp missing (List.mem_of_getElem? present)

theorem Represents.atInode_found (represents : Represents fs names) {index : Nat}
    (found : names.idxOf? name = some index) (body : Nat → Mcsfs1Prog α) :
    (atInode name body).result fs = some ((body index).result fs) ∧
      (atInode name body).final fs = (body index).final fs := by
  obtain ⟨present, notBefore⟩ := idxOf?_slot found
  have slot := represents.slot_lt present
  obtain ⟨answer, effect⟩ := inodeProbe_hit ((represents.hits_iff slot name).mpr present) body
  rw [← effect]
  apply scanLoop_hit 0 mcsfs1MaxFiles _ fs (Nat.zero_le index) (by simpa [mcsfs1MaxFiles] using slot)
    _ answer
  intro earlier _ before
  apply inodeProbe_miss
  rw [represents.hits_iff (Nat.lt_trans before slot)]
  exact notBefore earlier before

end

/-! ### Init -/

theorem mcsfs1Init_represents (fs : Mcsfs1T) : Represents (mcsfs1Init.final fs) [] := by
  have cleared := forLoop_invariant 0 mcsfs1MaxFiles
    (fun index => emit (Mcsfs1Access.storeUsed index 0))
    (fun done (s : Mcsfs1T) => s.inodeCount = 0 ∧ ∀ index < done, (s.inodes index).used = 0)
    (show ({ fs with magic := mcsfs1Magic, inodeCount := 0 } : Mcsfs1T).inodeCount = 0 ∧ _ from
      ⟨rfl, by simp⟩)
    (by
      intro done s _ _ holds
      refine ⟨holds.1, fun index inside => ?_⟩
      simp only [final_emit, Event.apply, Mcsfs1Access.apply, Mcsfs1T.modifyInode]
      by_cases newest : index = done
      · rw [newest, Function.update_self]
      · rw [Function.update_of_ne newest]
        exact holds.2 index (by omega))
  have stores : mcsfs1Init.final fs =
      (forLoop 0 mcsfs1MaxFiles fun index => emit (Mcsfs1Access.storeUsed index 0)).final
        { fs with magic := mcsfs1Magic, inodeCount := 0 } := by
    simp [mcsfs1Init, Event.apply, Mcsfs1Access.apply]
  rw [stores]
  refine ⟨by simp, by rw [cleared.1]; rfl, by simp, ?_⟩
  intro index _ slot
  exact cleared.2 index (by simpa [mcsfs1MaxFiles] using slot)

/-! ### Create -/

/-- What create makes of an unused inode; the data stays what it was. -/
def createdInode (inode : Mcsfs1Inode) (name : CString) : Mcsfs1Inode :=
  { inode with
    used := 1, name := writeRange inode.name 0 (name.length + 1) name.byteAt, size := 0 }

/-- A name that fits is copied whole, terminator included. -/
theorem copyName_final (fs : Mcsfs1T) (index : Nat) {name : CString} (short : name.length < 32) :
    (copyName index name).final fs =
      fs.modifyInode index fun inode =>
        { inode with name := writeRange inode.name 0 (name.length + 1) name.byteAt } := by
  let copied (size : Nat) : Mcsfs1T := fs.modifyInode index fun inode =>
    { inode with name := writeRange inode.name 0 size name.byteAt }
  have start : fs = copied 0 := by
    simp only [copied, writeRange_zero, Mcsfs1T.modifyInode, Function.update_eq_self]
  have loop := scanLoop_invariant 0 mcsfs1NameLen
    (fun position => (do
      emit (.storeName index position (name.byteAt position))
      if name.byteAt position = 0 then pure (some ()) else pure none : Mcsfs1Prog (Option Unit)))
    (fun position s => position ≤ name.length ∧ s = copied position)
    (fun _ s => s = copied (name.length + 1)) ⟨Nat.zero_le _, start⟩
    (by
      intro position s _ _ holds
      obtain ⟨inside, same⟩ := holds
      have stored : Event.apply (Mcsfs1Access.storeName index position (name.byteAt position)) s =
          copied (position + 1) := by
        rw [same]
        simp [copied, Event.apply, Mcsfs1Access.apply, Mcsfs1T.modifyInode, writeRange_succ]
      simp only [result_bind, final_bind, final_emit, stored]
      by_cases ended : name.byteAt position = 0
      · have last := (name.byteAt_eq_zero_iff inside).mp ended
        simp only [if_pos ended, result_pure, final_pure]
        rw [last]
      · have notLast := (name.byteAt_eq_zero_iff inside).not.mp ended
        simp only [if_neg ended, result_pure, final_pure, and_true]
        omega)
  show (scanLoop 0 mcsfs1NameLen _).final fs = copied (name.length + 1)
  revert loop
  split
  · intro impossible
    have fits : 0 + mcsfs1NameLen ≤ name.length := impossible.1
    simp only [mcsfs1NameLen] at fits
    omega
  · intro left
    exact left

/-- The file system with one more file in a slot. -/
def withFile (fs : Mcsfs1T) (index : Nat) (name : CString) : Mcsfs1T :=
  { fs with
    inodeCount := fs.inodeCount + 1
    inodes := Function.update fs.inodes index (createdInode (fs.inodes index) name) }

theorem createProbe_free {fs : Mcsfs1T} {index : Nat} (free : (fs.inodes index).used = 0)
    {name : CString} (short : name.length < 32) :
    (createProbe name index).result fs = some mcsfs1Ok ∧
      (createProbe name index).final fs = withFile fs index name := by
  simp only [createProbe, result_bind, final_bind, result_get, final_get, if_pos free]
  refine ⟨rfl, ?_⟩
  simp [copyName_final _ _ short, Event.apply, Mcsfs1Access.apply, Mcsfs1T.modifyInode, withFile,
    createdInode]

theorem createProbe_used {fs : Mcsfs1T} {index : Nat} (used : (fs.inodes index).used ≠ 0)
    (name : CString) :
    (createProbe name index).result fs = none ∧ (createProbe name index).final fs = fs := by
  simp only [createProbe, result_bind, final_bind, result_get, final_get, if_neg used]
  exact ⟨rfl, rfl⟩

section

variable {fs : Mcsfs1T} {names : List CString} {name : CString}

theorem mcsfs1Create_long (fs : Mcsfs1T) (long : 32 ≤ name.length) :
    (mcsfs1Create name).result fs = mcsfs1Einval ∧ (mcsfs1Create name).final fs = fs := by
  have refused : m15Strlen name ≥ mcsfs1NameLen := long
  simp only [mcsfs1Create, if_pos refused]
  exact ⟨rfl, rfl⟩

theorem Represents.create_full (represents : Represents fs names) (short : name.length < 32)
    (full : names.length = 32) :
    (mcsfs1Create name).result fs = mcsfs1Enospc ∧ (mcsfs1Create name).final fs = fs := by
  have fits : ¬ m15Strlen name ≥ mcsfs1NameLen := Nat.not_le.mpr short
  have misses := scanLoop_miss 0 mcsfs1MaxFiles (createProbe name) fs (by
    intro index _ slot
    have filled : index < names.length := by
      rw [full]
      simpa [mcsfs1MaxFiles] using slot
    exact createProbe_used (represents.inode index _ (List.getElem?_eq_getElem filled)).used name)
  simp only [mcsfs1Create, if_neg fits, result_bind, final_bind, misses, final_pure]
  exact ⟨rfl, trivial⟩

/-- Create fills the slot behind the last file. -/
theorem Represents.create_space (represents : Represents fs names) (short : name.length < 32)
    (space : names.length < 32) :
    (mcsfs1Create name).result fs = mcsfs1Ok ∧
      (mcsfs1Create name).final fs = withFile fs names.length name := by
  have fits : ¬ m15Strlen name ≥ mcsfs1NameLen := Nat.not_le.mpr short
  have free := represents.unused names.length (Nat.le_refl _) space
  obtain ⟨answer, effect⟩ := createProbe_free free short
  have hit := scanLoop_hit 0 mcsfs1MaxFiles (createProbe name) fs (Nat.zero_le names.length)
    (by simpa [mcsfs1MaxFiles] using space)
    (by
      intro index _ before
      exact createProbe_used (represents.inode index _ (List.getElem?_eq_getElem before)).used name)
    answer
  simp only [mcsfs1Create, if_neg fits, result_bind, final_bind, hit, final_pure, effect]
  exact ⟨rfl, trivial⟩

theorem createdInode_is (inode : Mcsfs1Inode) (short : name.length < 32) :
    (createdInode inode name).Is name :=
  ⟨by simp [createdInode], short, name.storedIn_writeRange _, by simp [createdInode]⟩

theorem Represents.withFile (represents : Represents fs names) (short : name.length < 32)
    (space : names.length < 32) :
    Represents (withFile fs names.length name) (names ++ [name]) where
  bounded := by
    rw [List.length_append, List.length_singleton]
    omega
  count := by
    have count := represents.count
    simp only [Mcsfs1.withFile, UInt32.toNat_add, count, List.length_append, List.length_singleton,
      UInt32.toNat_one]
    omega
  inode := by
    intro index found present
    rcases getElem?_concat_cases present with ⟨old, present⟩ | ⟨newest, same⟩
    · simp only [Mcsfs1.withFile, Function.update_of_ne (Nat.ne_of_lt old)]
      exact represents.inode index found present
    · simp only [Mcsfs1.withFile, newest, Function.update_self, same]
      exact createdInode_is _ short
  unused := by
    intro index behind slot
    rw [List.length_append, List.length_singleton] at behind
    simp only [Mcsfs1.withFile, Function.update_of_ne (show index ≠ names.length by omega)]
    exact represents.unused index (by omega) slot

/-- A file that is created again keeps its bytes. -/
theorem bytesOf_withFile (fs : Mcsfs1T) (names : List CString) (name : CString) :
    bytesOf (withFile fs names.length name) (names ++ [name]) =
      Function.update (bytesOf fs names) name (some ((bytesOf fs names name).getD [])) := by
  funext target
  have older : ∀ index, names.idxOf? target = some index →
      fileBytes (Mcsfs1.withFile fs names.length name) index = fileBytes fs index := by
    intro index found
    have inside := (List.getElem?_eq_some_iff.mp (idxOf?_slot found).1).1
    simp only [fileBytes, Mcsfs1.withFile, Function.update_of_ne (Nat.ne_of_lt inside)]
  have newest : fileBytes (Mcsfs1.withFile fs names.length name) names.length = [] := by
    simp [fileBytes, Mcsfs1.withFile, createdInode, readRange]
  rw [bytesOf, idxOf?_concat]
  by_cases same : name = target
  · subst same
    rw [Function.update_self, bytesOf]
    cases found : names.idxOf? name with
    | none => simp [newest]
    | some index => simp [older index found]
  · rw [Function.update_of_ne (Ne.symm same), bytesOf, if_neg same, Option.or_none]
    cases found : names.idxOf? target with
    | none => rfl
    | some index => simp [older index found]

end

/-! ### Write -/

/-- The file system with other bytes in a slot. -/
def withBytes (fs : Mcsfs1T) (index : Nat) (data : Nat → UInt8) (size : UInt64) : Mcsfs1T :=
  fs.modifyInode index fun inode =>
    { inode with data := writeRange inode.data 0 size.toNat data, size := size }

theorem writeInode_final (fs : Mcsfs1T) (index : Nat) (data : Nat → UInt8) (size : UInt64) :
    (writeInode data size index).final fs = withBytes fs index data size := by
  have loop := forLoop_emit_writeRange
    (fun position => Mcsfs1Access.storeData index position (data position))
    (fun bytes => fs.modifyInode index ({ · with data := bytes }))
    (fs.inodes index).data 0 size.toNat data (by
      intro position _ memory
      simp [Event.apply, Mcsfs1Access.apply, Mcsfs1T.modifyInode])
  simp only [Mcsfs1T.modifyInode, Function.update_eq_self] at loop
  simp only [writeInode, m15Memcpy, final_bind, final_emit, final_pure, loop]
  simp [Event.apply, Mcsfs1Access.apply, Mcsfs1T.modifyInode, withBytes]

section

variable {fs : Mcsfs1T} {names : List CString} {name : CString} {size : UInt64}

theorem mcsfs1Write_large (fs : Mcsfs1T) (name : CString) (data : Nat → UInt8)
    (large : 256 < size.toNat) :
    (mcsfs1Write name data size).result fs = mcsfs1Enospc ∧
      (mcsfs1Write name data size).final fs = fs := by
  have refused : size.toNat > mcsfs1DataSize := large
  simp only [mcsfs1Write, if_pos refused]
  exact ⟨rfl, rfl⟩

theorem Represents.write_missing (represents : Represents fs names)
    (missing : names.idxOf? name = none) (data : Nat → UInt8) (small : size.toNat ≤ 256) :
    (mcsfs1Write name data size).result fs = mcsfs1Enoent ∧
      (mcsfs1Write name data size).final fs = fs := by
  have fits : ¬ size.toNat > mcsfs1DataSize := Nat.not_lt.mpr small
  obtain ⟨answer, same⟩ := represents.atInode_missing missing (writeInode data size)
  simp only [mcsfs1Write, if_neg fits, result_bind, final_bind, answer, same, final_pure]
  exact ⟨rfl, trivial⟩

theorem Represents.write_found (represents : Represents fs names) {index : Nat}
    (found : names.idxOf? name = some index) (data : Nat → UInt8) (small : size.toNat ≤ 256) :
    (mcsfs1Write name data size).result fs = mcsfs1Ok ∧
      (mcsfs1Write name data size).final fs = withBytes fs index data size := by
  have fits : ¬ size.toNat > mcsfs1DataSize := Nat.not_lt.mpr small
  obtain ⟨answer, effect⟩ := represents.atInode_found found (writeInode data size)
  rw [writeInode_final] at effect
  simp only [mcsfs1Write, if_neg fits, result_bind, final_bind, answer, effect, final_pure]
  exact ⟨rfl, trivial⟩

theorem Represents.withBytes (represents : Represents fs names) (index : Nat)
    (data : Nat → UInt8) (small : size.toNat ≤ 256) :
    Represents (withBytes fs index data size) names where
  bounded := represents.bounded
  count := represents.count
  inode := by
    intro other stored present
    have is := represents.inode other stored present
    by_cases same : other = index
    · subst same
      simp only [Mcsfs1.withBytes, Mcsfs1T.modifyInode, Function.update_self]
      exact ⟨is.used, is.short, is.stored, small⟩
    · simpa only [Mcsfs1.withBytes, Mcsfs1T.modifyInode, Function.update_of_ne same] using is
  unused := by
    intro other behind slot
    have free := represents.unused other behind slot
    by_cases same : other = index
    · subst same
      simpa only [Mcsfs1.withBytes, Mcsfs1T.modifyInode, Function.update_self] using free
    · simpa only [Mcsfs1.withBytes, Mcsfs1T.modifyInode, Function.update_of_ne same] using free

/-- A write replaces the bytes of its name and of no other. -/
theorem bytesOf_withBytes (fs : Mcsfs1T) {names : List CString} {index : Nat}
    (found : names.idxOf? name = some index) (data : Nat → UInt8) (size : UInt64) :
    bytesOf (withBytes fs index data size) names =
      Function.update (bytesOf fs names) name (some ((List.range size.toNat).map data)) := by
  funext target
  by_cases same : target = name
  · subst same
    rw [Function.update_self, bytesOf, found, Option.map_some]
    simp only [fileBytes, Mcsfs1.withBytes, Mcsfs1T.modifyInode, Function.update_self, readRange,
      Option.some.injEq]
    apply List.map_congr_left
    intro position inside
    exact writeRange_inside _ 0 data (List.mem_range.mp inside)
  · rw [Function.update_of_ne same, bytesOf, bytesOf]
    cases other : names.idxOf? target with
    | none => rfl
    | some slot =>
        have different : slot ≠ index := by
          intro equal
          have present := (idxOf?_slot found).1
          rw [← equal, (idxOf?_slot other).1] at present
          exact same (Option.some.inj present)
        simp only [Option.map_some, fileBytes, Mcsfs1.withBytes, Mcsfs1T.modifyInode,
          Function.update_of_ne different]

/-! ### Read -/

theorem readInode_final (fs : Mcsfs1T) (size : UInt64) (index : Nat) :
    (readInode size index).final fs = fs := by
  have loop := forLoop_final 0 ((if size > (fs.inodes index).size then (fs.inodes index).size
    else size).toNat) (fun position => emit (Mcsfs1Access.loadData index position))
    (fun _ => fs) (fun _ _ _ => rfl)
  simp only [readInode, m15Memcpy, final_bind, result_get, final_get, final_pure]
  exact loop

/-- A read of an inode hands back the first bytes of its file. -/
theorem readInode_result {index : Nat} (fits : (fs.inodes index).size.toNat ≤ 256)
    (size : UInt64) :
    (readInode size index).result fs =
      ((((fileBytes fs index).take size.toNat).length : Int),
        (fileBytes fs index).take size.toNat) := by
  have limited : (if size > (fs.inodes index).size then (fs.inodes index).size else size).toNat =
      min size.toNat (fs.inodes index).size.toNat := by
    split
    next more =>
      have order := UInt64.lt_iff_toNat_lt.mp more
      omega
    next less =>
      have order := UInt64.le_iff_toNat_le.mp (UInt64.not_lt.mp less)
      omega
  simp only [readInode, result_bind, result_get, final_get, result_pure]
  rw [toInt32_toInt_of_lt (by omega), limited, fileBytes, readRange_take, readRange_length]
  simp [readRange]

theorem Represents.read_final (represents : Represents fs names) (name : CString)
    (size : UInt64) : (mcsfs1Read name size).final fs = fs := by
  simp only [mcsfs1Read, final_bind, final_pure]
  cases found : names.idxOf? name with
  | none => exact (represents.atInode_missing found _).2
  | some index => exact (represents.atInode_found found _).2.trans (readInode_final fs size index)

/-- A read hands back the first bytes of the file a search comes to. -/
theorem Represents.read_result (represents : Represents fs names) (name : CString)
    (size : UInt64) :
    (mcsfs1Read name size).result fs =
      match bytesOf fs names name with
      | none => (mcsfs1Enoent, [])
      | some bytes => (((bytes.take size.toNat).length : Int), bytes.take size.toNat) := by
  simp only [mcsfs1Read, result_bind, result_pure, bytesOf]
  cases found : names.idxOf? name with
  | none =>
      rw [(represents.atInode_missing found _).1]
      rfl
  | some index =>
      have is := represents.inode index name (idxOf?_slot found).1
      rw [(represents.atInode_found found _).1, readInode_result is.size]
      rfl

end

end Mcsos.Mcsfs1
