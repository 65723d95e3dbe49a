import Mcsos.Mcsfs.Isolation

/-!
Contract: `data_used` as the end of the data stored in a kernel MCSFS1.

A create takes it for the offset of the new file. A write sets it to the end
of the file it writes, whichever that is, so it is the end of all files only
as long as every write ends last. Names may be created more than once here:
the module says nothing about which inode a name reaches.
-/

namespace Mcsos.Mcsfs

open Mcsos.Machine
open Mcsos.Machine.Prog

/-- The file system after a call. -/
def M15Call.run (fs : M15Mcsfs1) (call : M15Call) : M15Mcsfs1 := call.exec.final fs

/-- Created names fit their field, and writes are shorter than the data area. -/
def M15Call.Small : M15Call → Prop
  | .create name => name.length < 64
  | .write _ _ size => size.toNat < 4096
  | .read _ _ => True

instance : (call : M15Call) → Decidable call.Small
  | .create name => inferInstanceAs (Decidable (name.length < 64))
  | .write _ _ size => inferInstanceAs (Decidable (size.toNat < 4096))
  | .read _ _ => inferInstanceAs (Decidable True)

/-- Where the data of an inode ends. -/
def M15Inode.dataEnd (inode : M15Inode) : Nat := inode.offset.toNat + inode.size.toNat

/-- No data is stored at `data_used` or behind it. -/
structure HighWater (fs : M15Mcsfs1) : Prop where
  files : ∀ index < 32, (fs.inodes index).used ≠ 0 → (fs.inodes index).dataEnd ≤ fs.dataUsed.toNat
  area : fs.dataUsed.toNat ≤ 4096

/-- A write that is not refused ends at or behind the end of every other file. -/
def EndsLast (fs : M15Mcsfs1) : M15Call → Prop
  | .write name _ size =>
      ∀ index, m15FindInode fs name = some index →
        ((fs.inodes index).offset + size).toNat < 4096 →
        ∀ other < fs.inodeCount.toNat, other ≠ index →
          (fs.inodes other).dataEnd ≤ (fs.inodes index).offset.toNat + size.toNat
  | _ => True

/-- The inodes in use are the first `inode_count` of the 32. -/
structure CountsUsed (fs : M15Mcsfs1) : Prop where
  bounded : fs.inodeCount.toNat ≤ 32
  used : ∀ index < 32, (fs.inodes index).used ≠ 0 ↔ index < fs.inodeCount.toNat

/-! ### The inodes in use -/

theorem find_below {fs : M15Mcsfs1} {name : CString} {index : Nat}
    (found : m15FindInode fs name = some index) : index < fs.inodeCount.toNat :=
  List.mem_range.mp (List.mem_of_find?_eq_some found)

section

variable {fs : M15Mcsfs1}

theorem CountsUsed.create (counts : CountsUsed fs) (space : fs.inodeCount.toNat < 32)
    {name : CString} (short : name.length < 64) :
    CountsUsed ((m15Mcsfs1Create name).final fs) := by
  have one : (1 : UInt64).toNat = 1 := rfl
  have count : (fs.inodeCount + 1).toNat = fs.inodeCount.toNat + 1 := by
    rw [UInt64.toNat_add, one]
    omega
  rw [m15Mcsfs1Create_final space short]
  refine ⟨by rw [count]; omega, ?_⟩
  intro index inside
  show (Function.update fs.inodes fs.inodeCount.toNat _ index).used ≠ 0 ↔ _
  rw [count]
  by_cases newest : index = fs.inodeCount.toNat
  · rw [newest, Function.update_self]
    simp [createdInode]
  · rw [Function.update_of_ne newest, counts.used index inside]
    omega

theorem CountsUsed.write (counts : CountsUsed fs) {name : CString} {size : UInt64} {index : Nat}
    (found : m15FindInode fs name = some index)
    (fits : ((fs.inodes index).offset + size).toNat < 4096) (buffer : Nat → UInt8) :
    CountsUsed ((m15Mcsfs1Write name buffer size).final fs) := by
  rw [(m15Mcsfs1Write_final found fits buffer).2]
  refine ⟨counts.bounded, ?_⟩
  intro other inside
  show (Function.update fs.inodes index _ other).used ≠ 0 ↔ _
  by_cases here : other = index
  · rw [here, Function.update_self]
    exact counts.used index (by omega)
  · rw [Function.update_of_ne here]
    exact counts.used other inside

/-- What holds of the inodes in use and of the new one holds after a create. -/
theorem create_inodes (property : M15Inode → Prop) (space : fs.inodeCount.toNat < 32)
    {name : CString} (short : name.length < 64)
    (old : ∀ index < fs.inodeCount.toNat, property (fs.inodes index))
    (new : property (createdInode fs name)) :
    ∀ index < ((m15Mcsfs1Create name).final fs).inodeCount.toNat,
      property (((m15Mcsfs1Create name).final fs).inodes index) := by
  have one : (1 : UInt64).toNat = 1 := rfl
  rw [m15Mcsfs1Create_final space short]
  intro index used
  show property (Function.update fs.inodes fs.inodeCount.toNat _ index)
  rw [UInt64.toNat_add, one] at used
  by_cases newest : index = fs.inodeCount.toNat
  · rw [newest, Function.update_self]
    exact new
  · rw [Function.update_of_ne newest]
    exact old index (by omega)

/-- What holds of the inodes in use and of the one written holds after a
write. -/
theorem write_inodes (property : M15Inode → Prop) {name : CString} {size : UInt64} {index : Nat}
    (found : m15FindInode fs name = some index)
    (fits : ((fs.inodes index).offset + size).toNat < 4096) (buffer : Nat → UInt8)
    (old : ∀ other < fs.inodeCount.toNat, property (fs.inodes other))
    (written : property { fs.inodes index with size := size }) :
    ∀ other < ((m15Mcsfs1Write name buffer size).final fs).inodeCount.toNat,
      property (((m15Mcsfs1Write name buffer size).final fs).inodes other) := by
  rw [(m15Mcsfs1Write_final found fits buffer).2]
  intro other used
  show property (Function.update fs.inodes index _ other)
  by_cases here : other = index
  · rw [here, Function.update_self]
    exact written
  · rw [Function.update_of_ne here]
    exact old other used

/-! ### One call -/

theorem HighWater.create (highWater : HighWater fs) (space : fs.inodeCount.toNat < 32)
    {name : CString} (short : name.length < 64) :
    HighWater ((m15Mcsfs1Create name).final fs) := by
  rw [m15Mcsfs1Create_final space short]
  refine ⟨?_, highWater.area⟩
  intro index inside
  show (Function.update fs.inodes fs.inodeCount.toNat _ index).used ≠ 0 →
    (Function.update fs.inodes fs.inodeCount.toNat _ index).dataEnd ≤ fs.dataUsed.toNat
  by_cases newest : index = fs.inodeCount.toNat
  · -- the new file is empty and starts at the mark
    rw [newest, Function.update_self]
    intro _
    simp [createdInode, M15Inode.dataEnd]
  · rw [Function.update_of_ne newest]
    exact highWater.files index inside

/-- After a write the mark is the end of the file written. -/
theorem highWater_write_iff (counts : CountsUsed fs) (highWater : HighWater fs) {name : CString}
    {size : UInt64} (bounded : size.toNat < 4096) {index : Nat}
    (found : m15FindInode fs name = some index)
    (fits : ((fs.inodes index).offset + size).toNat < 4096) (buffer : Nat → UInt8) :
    HighWater ((m15Mcsfs1Write name buffer size).final fs) ↔
      ∀ other < fs.inodeCount.toNat, other ≠ index →
        (fs.inodes other).dataEnd ≤ (fs.inodes index).offset.toNat + size.toNat := by
  have below := find_below found
  have inTable := counts.bounded
  have start := highWater.files index (by omega) ((counts.used index (by omega)).mpr below)
  have area := highWater.area
  simp only [M15Inode.dataEnd] at start
  have mark : ((fs.inodes index).offset + size).toNat =
      (fs.inodes index).offset.toNat + size.toNat := by
    rw [UInt64.toNat_add]
    omega
  rw [(m15Mcsfs1Write_final found fits buffer).2, ← mark]
  constructor
  · intro after other used different
    have kept := after.files other (by omega)
    simp only [Function.update_of_ne different] at kept
    exact kept ((counts.used other (by omega)).mpr used)
  · intro endsLast
    refine ⟨?_, Nat.le_of_lt fits⟩
    intro other inside
    show (Function.update fs.inodes index _ other).used ≠ 0 →
      (Function.update fs.inodes index _ other).dataEnd ≤ ((fs.inodes index).offset + size).toNat
    by_cases here : other = index
    · rw [here, Function.update_self, mark]
      intro _
      exact Nat.le_refl _
    · rw [Function.update_of_ne here]
      intro used
      exact endsLast other ((counts.used other inside).mp used) here

/-- What a call can do: nothing, if it is a read or fails, or make an inode, or
write an extent. -/
theorem M15Call.run_cases (fs : M15Mcsfs1) (call : M15Call) :
    (call.run fs = fs ∧
      ∀ name buffer size, call = .write name buffer size → WriteRefused fs name size) ∨
    (∃ name, call = .create name ∧ fs.inodeCount.toNat < 32 ∧
      call.run fs = (m15Mcsfs1Create name).final fs) ∨
    ∃ name buffer size index, call = .write name buffer size ∧
      m15FindInode fs name = some index ∧ ((fs.inodes index).offset + size).toNat < 4096 ∧
      call.run fs = (m15Mcsfs1Write name buffer size).final fs := by
  cases call with
  | create name =>
      by_cases space : fs.inodeCount.toNat < 32
      · exact Or.inr (Or.inl ⟨name, rfl, space, by simp [M15Call.run, M15Call.exec]⟩)
      · have silent := (m15Mcsfs1Create_full (Nat.le_of_not_lt space) name).2
        exact Or.inl ⟨by simp [M15Call.run, M15Call.exec, final, silent], by simp⟩
  | write name buffer size =>
      by_cases refused : WriteRefused fs name size
      · have silent := (m15Mcsfs1Write_refused refused buffer).2
        refine Or.inl ⟨by simp [M15Call.run, M15Call.exec, final, silent], ?_⟩
        rintro _ _ _ ⟨⟩
        exact refused
      · simp only [WriteRefused, not_forall, not_le] at refused
        rcases refused with ⟨index, found, fits⟩
        exact Or.inr (Or.inr ⟨name, buffer, size, index, rfl, found, fits,
          by simp [M15Call.run, M15Call.exec]⟩)
  | read name size =>
      exact Or.inl ⟨by simp [M15Call.run, M15Call.exec, m15Mcsfs1Read_final], by simp⟩

/-- A call keeps the mark exactly when it ends last, and the count in any
case. -/
theorem highWater_run_iff (counts : CountsUsed fs) (highWater : HighWater fs) {call : M15Call}
    (small : call.Small) :
    CountsUsed (call.run fs) ∧ (HighWater (call.run fs) ↔ EndsLast fs call) := by
  rcases call.run_cases fs with ⟨same, refused⟩ | ⟨name, rfl, space, run⟩ |
    ⟨name, buffer, size, index, rfl, found, fits, run⟩
  · rw [same]
    refine ⟨counts, fun _ => ?_, fun _ => highWater⟩
    cases call with
    | create name => trivial
    | read name size => trivial
    | write name buffer size =>
        intro index found fits
        exact absurd fits (Nat.not_lt.mpr (refused name buffer size rfl index found))
  · rw [run]
    exact ⟨counts.create space small, fun _ => trivial, fun _ => highWater.create space small⟩
  · rw [run, highWater_write_iff counts highWater small found fits buffer]
    refine ⟨counts.write found fits buffer, ?_, ?_⟩
    · intro endsLast again foundAgain _
      have same : again = index := Option.some.inj (foundAgain.symm.trans found)
      subst same
      exact endsLast
    · intro endsLast
      exact endsLast index found fits

end

/-! ### Whole runs -/

theorem init_highWater (memory : M15Mcsfs1) :
    CountsUsed (m15Mcsfs1Init.final memory) ∧ HighWater (m15Mcsfs1Init.final memory) := by
  rcases m15Mcsfs1Init_final memory with ⟨count, mark, unused⟩
  refine ⟨⟨by simp [count], ?_⟩, ?_, by simp [mark]⟩
  · intro index inside
    simp [unused index inside, count]
  · intro index inside used
    exact absurd (unused index inside) used

/-- `data_used` is the end of the stored data after every call of a run exactly
when every write of the run ends at or behind the end of every other file. -/
theorem run_highWater_iff (memory : M15Mcsfs1) (calls : List M15Call)
    (small : ∀ call ∈ calls, call.Small) :
    EveryCall M15Call.run (fun fs call => HighWater (call.run fs)) calls
        (m15Mcsfs1Init.final memory) ↔
      EveryCall M15Call.run EndsLast calls (m15Mcsfs1Init.final memory) := by
  refine everyCall_iff (fun fs => CountsUsed fs ∧ HighWater fs) ?_ (init_highWater memory)
    (everyCall_of_forall small _)
  intro fs call ⟨counts, highWater⟩ here
  rcases highWater_run_iff counts highWater here with ⟨stillCounts, iff⟩
  exact ⟨iff, fun stays => ⟨stillCounts, stays⟩⟩

/-- One file, written twice. -/
theorem run_highWater_oneFile :
    EveryCall M15Call.run (fun fs call => HighWater (call.run fs))
      [.create fileA, .write fileA (fun _ => 1) 2, .write fileA (fun _ => 1) 1]
      (m15Mcsfs1Init.final zeroedMcsfs1) := by
  refine (run_highWater_iff zeroedMcsfs1
    [.create fileA, .write fileA (fun _ => 1) 2, .write fileA (fun _ => 1) 1] ?_).mpr ?_
  · decide
  · have alone : ∀ fs : M15Mcsfs1, fs.inodeCount.toNat = 1 → ∀ name buffer size,
        EndsLast fs (.write name buffer size) := by
      intro fs count name buffer size index found _ other used different
      have below := find_below found
      omega
    exact ⟨trivial, alone _ (by decide +kernel) _ _ _, alone _ (by decide +kernel) _ _ _, trivial⟩

/-- The first of two files is written again, shorter. -/
def rewrittenShorter : List M15Call :=
  [.create fileA, .write fileA (fun _ => 1) 5, .create fileB, .write fileB (fun _ => 2) 5,
    .write fileA (fun _ => 1) 1]

/-- The second file then ends behind `data_used`. -/
theorem rewrittenShorter_not_highWater :
    (∀ call ∈ rewrittenShorter, call.Small) ∧
      ¬ HighWater (rewrittenShorter.foldl M15Call.run (m15Mcsfs1Init.final zeroedMcsfs1)) := by
  constructor
  · decide
  · intro highWater
    have second := highWater.files 1 (by decide) (by decide +kernel)
    exact absurd second (by decide +kernel)

end Mcsos.Mcsfs
