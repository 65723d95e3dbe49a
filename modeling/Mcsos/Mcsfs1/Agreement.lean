import Mcsos.Mcsfs.Isolation
import Mcsos.Mcsfs1.Names

/-!
Contract: the two file systems called MCSFS1 agree on archives.

The kernel's keeps all bytes in one area that files are laid out in one after
the other, the stand-alone one gives each inode an area of its own. A client
that writes a file before it creates the next one, and stays within what both
can hold, cannot tell them apart but for the numbers of two errors and what a
write returns.
-/

namespace Mcsos.Mcsfs1

open Mcsos.Machine
open Mcsos.Machine.Prog

/-! ### Archives -/

/-- What the client has put in, oldest first. -/
abbrev Archive := List (CString × List UInt8)

namespace Archive

def names (archive : Archive) : List CString := archive.map Prod.fst

/-- The bytes of all files. -/
def extent (archive : Archive) : Nat := (archive.map fun file => file.2.length).sum

/-- The archive after a call. -/
def after (archive : Archive) : Mcsfs1Call → Archive
  | .create name => if archive.length < 32 then archive ++ [(name, [])] else archive
  | .write name data size =>
      archive.map fun file =>
        if file.1 = name then (name, (List.range size.toNat).map data) else file
  | .read _ _ => archive

/-- The client's part: names are new and fit both name fields, a write is of the
file created last, or of none, and fits an inode's area and what is left of the
common one. -/
def Permits (archive : Archive) : Mcsfs1Call → Prop
  | .create name => name.length < 32 ∧ name ∉ archive.names
  | .write name _ size =>
      size.toNat ≤ 256 ∧
        (name ∈ archive.names → ∃ earlier bytes, archive = earlier ++ [(name, bytes)] ∧
          extent earlier + size.toNat < 4096)
  | .read _ _ => True

/-- What the kernel's file system is to hand back. -/
def Answers (archive : Archive) (answer : Int × List UInt8) : Mcsfs1Call → Prop
  | .create _ =>
      answer = (if archive.length < 32 then Mcsfs.m15Mcsfs1Ok else Mcsfs.m15Mcsfs1Enospc, [])
  | .write name _ size =>
      answer = (if name ∈ archive.names then (size.toNat : Int) else Mcsfs.m15Mcsfs1Enoent, [])
  | .read name size =>
      (name ∉ archive.names ∧ answer = (Mcsfs.m15Mcsfs1Enoent, [])) ∨
        ∃ bytes, (name, bytes) ∈ archive ∧
          answer = (((min size.toNat bytes.length : Nat) : Int), bytes.take size.toNat)

end Archive

/-- The call, made of the kernel's file system. -/
def kernelCall : Mcsfs1Call → Mcsfs.M15Call
  | .create name => .create name
  | .write name data size => .write name data size
  | .read name size => .read name size

/-- The kernel's number of an error, in the stand-alone numbering. -/
def renumbered (status : Int) : Int :=
  if status = Mcsfs.m15Mcsfs1Enoent then mcsfs1Enoent
  else if status = Mcsfs.m15Mcsfs1Enospc then mcsfs1Enospc
  else status

/-- What the stand-alone file system hands back where the kernel's hands back
this: a write that succeeds returns no size. -/
def standAlone (call : Mcsfs1Call) (answer : Int × List UInt8) : Int × List UInt8 :=
  match call with
  | .write _ _ _ => (if 0 ≤ answer.1 then mcsfs1Ok else renumbered answer.1, answer.2)
  | .create _ | .read _ _ => (renumbered answer.1, answer.2)

/-! ### Names and places -/

namespace Archive

variable {archive : Archive}

theorem names_append (file : CString × List UInt8) :
    (archive ++ [file] : Archive).names = archive.names ++ [file.1] := by
  simp [names]

theorem extent_append (file : CString × List UInt8) :
    extent (archive ++ [file]) = archive.extent + file.2.length := by
  simp [extent]

theorem getElem?_names {index : Nat} {file : CString × List UInt8}
    (present : archive[index]? = some file) : archive.names[index]? = some file.1 := by
  rw [names, List.getElem?_map, present]
  rfl

/-- A file lies in front of the end. -/
theorem extent_take {index : Nat} {file : CString × List UInt8}
    (present : archive[index]? = some file) :
    extent (archive.take index) + file.2.length ≤ archive.extent := by
  obtain ⟨inside, here⟩ := List.getElem?_eq_some_iff.mp present
  have parts : archive = archive.take index ++ file :: archive.drop (index + 1) := by
    rw [← here, List.getElem_cons_drop, List.take_append_drop]
  have sum := congrArg extent parts
  rw [extent, extent, List.map_append, List.sum_append, List.map_cons, List.sum_cons] at sum
  rw [extent, extent]
  omega

/-- A write to no file. -/
theorem after_write_missing {name : CString} (missing : name ∉ archive.names) (data : Nat → UInt8)
    (size : UInt64) : archive.after (.write name data size) = archive := by
  have others : ∀ file ∈ archive,
      (if file.1 = name then (name, (List.range size.toNat).map data) else file) = file := by
    intro file member
    apply if_neg
    rintro rfl
    exact missing (List.mem_map_of_mem member)
  rw [after, List.map_congr_left others, List.map_id']

/-- A write to the file created last. -/
theorem after_write_newest {earlier : Archive} {name : CString} (fresh : name ∉ earlier.names)
    (bytes : List UInt8) (data : Nat → UInt8) (size : UInt64) :
    after (earlier ++ [(name, bytes)]) (.write name data size) =
      earlier ++ [(name, (List.range size.toNat).map data)] := by
  have others := after_write_missing fresh data size
  rw [after] at others ⊢
  rw [List.map_append, others]
  simp

end Archive

/-! ### The kernel's file system -/

/-- The files lie one after the other. -/
structure KernelHolds (archive : Archive) (fs : Mcsfs.M15Mcsfs1) : Prop where
  represents : Mcsfs.Represents fs archive.names
  place : ∀ index file, archive[index]? = some file →
    (fs.inodes index).offset.toNat = Archive.extent (archive.take index) ∧
      Mcsfs.fileBytes fs index = file.2
  dataUsed : fs.dataUsed.toNat = archive.extent

section

variable {archive : Archive} {fs : Mcsfs.M15Mcsfs1}

theorem KernelHolds.size (holds : KernelHolds archive fs) {index : Nat}
    {file : CString × List UInt8} (present : archive[index]? = some file) :
    (fs.inodes index).size.toNat = file.2.length := by
  rw [← (holds.place index file present).2, Mcsfs.fileBytes, readRange_length]

theorem KernelHolds.create (holds : KernelHolds archive fs) {name : CString}
    (short : name.length < 32) (fresh : name ∉ archive.names) :
    archive.Answers ((Mcsfs.m15Mcsfs1Create name).result fs, []) (.create name) ∧
      KernelHolds (archive.after (.create name)) ((Mcsfs.m15Mcsfs1Create name).final fs) := by
  have length : archive.names.length = archive.length := List.length_map _
  have count := holds.represents.count
  rw [length] at count
  by_cases space : archive.length < 32
  · have room : fs.inodeCount.toNat < 32 := by omega
    have status := Mcsfs.m15Mcsfs1Create_status room name
    have final := Mcsfs.m15Mcsfs1Create_final room (show name.length < 64 by omega)
    have represents := holds.represents.create (by omega) (show name.length < 64 by omega) fresh
    simp only [Archive.Answers, Archive.after, if_pos space, status, true_and]
    refine ⟨by rwa [Archive.names_append], ?_, ?_⟩
    · intro index file present
      rcases getElem?_concat_cases present with ⟨old, present⟩ | ⟨newest, same⟩
      · obtain ⟨inode, bytes⟩ := Mcsfs.create_old_file holds.represents room
          (show name.length < 64 by omega) (show index < archive.names.length by omega)
        rw [inode, bytes, List.take_append_of_le_length (by omega)]
        exact holds.place index file present
      · rw [newest, same, List.take_left', final]
        · show (Function.update fs.inodes fs.inodeCount.toNat _ archive.length).offset.toNat = _ ∧
            readRange _ (Function.update fs.inodes fs.inodeCount.toNat _ archive.length).offset.toNat
              (Function.update fs.inodes fs.inodeCount.toNat _ archive.length).size.toNat = []
          rw [count, Function.update_self]
          exact ⟨holds.dataUsed, rfl⟩
        · rfl
    · rw [final, Archive.extent_append]
      exact holds.dataUsed
  · obtain ⟨status, silent⟩ :=
      Mcsfs.m15Mcsfs1Create_full (show 32 ≤ fs.inodeCount.toNat by omega) name
    simp only [Archive.Answers, Archive.after, if_neg space, status, final, silent, applyAll_nil,
      true_and]
    exact holds

theorem KernelHolds.find (holds : KernelHolds archive fs) {index : Nat}
    {file : CString × List UInt8} (present : archive[index]? = some file) :
    Mcsfs.m15FindInode fs file.1 = some index :=
  (holds.represents.find_eq_some_iff file.1 index).mpr (Archive.getElem?_names present)

theorem KernelHolds.find_missing (holds : KernelHolds archive fs) {name : CString}
    (missing : name ∉ archive.names) : Mcsfs.m15FindInode fs name = none := by
  rw [Option.eq_none_iff_forall_ne_some]
  intro index found
  exact missing (List.mem_of_getElem? ((holds.represents.find_eq_some_iff name index).mp found))

theorem KernelHolds.write_missing (holds : KernelHolds archive fs) {name : CString}
    (missing : name ∉ archive.names) (data : Nat → UInt8) (size : UInt64) :
    archive.Answers ((Mcsfs.m15Mcsfs1Write name data size).result fs, []) (.write name data size) ∧
      KernelHolds (archive.after (.write name data size))
        ((Mcsfs.m15Mcsfs1Write name data size).final fs) := by
  have none := holds.find_missing missing
  rw [Archive.after_write_missing missing]
  simp only [Archive.Answers, if_neg missing, Mcsfs.m15Mcsfs1Write, result_bind, final_bind,
    result_get, final_get, none, result_pure, final_pure, true_and]
  exact holds

/-- A write to the file created last runs into no other. -/
theorem KernelHolds.write_newest {earlier : Archive} {name : CString} {bytes : List UInt8}
    (holds : KernelHolds (earlier ++ [(name, bytes)]) fs) {size : UInt64} (small : size.toNat ≤ 256)
    (fits : earlier.extent + size.toNat < 4096) (data : Nat → UInt8) :
    Archive.Answers (earlier ++ [(name, bytes)])
        ((Mcsfs.m15Mcsfs1Write name data size).result fs, []) (.write name data size) ∧
      KernelHolds (Archive.after (earlier ++ [(name, bytes)]) (.write name data size))
        ((Mcsfs.m15Mcsfs1Write name data size).final fs) := by
  have distinct := holds.represents.distinct
  rw [Archive.names_append] at distinct
  have fresh : name ∉ earlier.names := by
    intro member
    exact (List.nodup_append.mp distinct).2.2 name member name (by simp) rfl
  have present : (earlier ++ [(name, bytes)])[earlier.length]? = some (name, bytes) :=
    List.getElem?_concat_length
  have found := holds.find present
  have start := (holds.place _ _ present).1
  rw [List.take_left' rfl] at start
  have sum : ((fs.inodes earlier.length).offset + size).toNat = earlier.extent + size.toNat := by
    rw [Mcsfs.offset_add_size (by omega) (by omega), start]
  have inside : ((fs.inodes earlier.length).offset + size).toNat < 4096 := by omega
  obtain ⟨status, final⟩ := Mcsfs.m15Mcsfs1Write_final found inside data
  obtain ⟨own, others⟩ := Mcsfs.write_file found inside data
  have member : name ∈ Archive.names (earlier ++ [(name, bytes)]) := by
    simp [Archive.names]
  rw [Archive.after_write_newest fresh]
  refine ⟨?_, ?_, ?_, ?_⟩
  · simp only [Archive.Answers, if_pos member, status]
    rw [toInt32_toInt_of_lt (by omega)]
  · have represents := holds.represents.write found (by omega) inside data
    rw [Archive.names_append] at represents ⊢
    exact represents
  · intro index file here
    rcases getElem?_concat_cases here with ⟨old, here⟩ | ⟨newest, same⟩
    · have before : (earlier ++ [(name, bytes)])[index]? = some file := by
        rw [List.getElem?_append_left old, here]
      obtain ⟨inode, spared⟩ := others index (by omega)
      have place := holds.place index file before
      have size := holds.size before
      have apart := Archive.extent_take here
      rw [List.take_append_of_le_length (by omega)] at place ⊢
      rw [inode, spared.mpr]
      · exact place
      · intro position within written bounded meets
        omega
    · rw [newest, same, List.take_left' rfl, own, final]
      show (Function.update fs.inodes earlier.length _ earlier.length).offset.toNat = _ ∧ _
      rw [Function.update_self]
      exact ⟨start, rfl⟩
  · rw [final, Archive.extent_append]
    simpa using sum

theorem KernelHolds.read (holds : KernelHolds archive fs) (name : CString) (size : UInt64) :
    archive.Answers ((Mcsfs.m15Mcsfs1Read name size).result fs) (.read name size) := by
  by_cases existing : name ∈ archive.names
  · obtain ⟨file, member, rfl⟩ := List.mem_map.mp existing
    obtain ⟨index, present⟩ := List.mem_iff_getElem?.mp member
    refine Or.inr ⟨file.2, member, ?_⟩
    rw [holds.represents.read_result (Archive.getElem?_names present),
      (holds.place index file present).2]
    rfl
  · refine Or.inl ⟨existing, ?_⟩
    simp only [Mcsfs.m15Mcsfs1Read, result_bind, result_get, final_get,
      holds.find_missing existing, result_pure]

end

/-! ### The stand-alone file system -/

/-- The slots hold the files. -/
structure AloneHolds (archive : Archive) (fs : Mcsfs1T) : Prop where
  represents : Represents fs archive.names
  contents : ∀ file ∈ archive, bytesOf fs archive.names file.1 = some file.2

section

variable {archive : Archive} {fs : Mcsfs1T}

theorem AloneHolds.bytesOf_missing {name : CString} (missing : name ∉ archive.names) :
    bytesOf fs archive.names name = none := by
  rw [bytesOf, List.idxOf?_eq_none_iff.mpr missing]
  rfl

theorem AloneHolds.create (holds : AloneHolds archive fs) {name : CString}
    (short : name.length < 32) (fresh : name ∉ archive.names) :
    (mcsfs1Create name).result fs = (if archive.length < 32 then mcsfs1Ok else mcsfs1Enospc) ∧
      AloneHolds (archive.after (.create name)) ((mcsfs1Create name).final fs) := by
  have length : archive.names.length = archive.length := List.length_map _
  by_cases space : archive.length < 32
  · obtain ⟨status, effect⟩ := holds.represents.create_space short (by omega)
    have represents := holds.represents.withFile short (by omega)
    have contents := bytesOf_withFile fs archive.names name
    simp only [Archive.after, if_pos space, status, effect, true_and]
    refine ⟨by rwa [Archive.names_append], ?_⟩
    intro file member
    rw [Archive.names_append, contents]
    rcases List.mem_append.mp member with old | new
    · have other : file.1 ≠ name := by
        rintro rfl
        exact fresh (List.mem_map_of_mem old)
      rw [Function.update_of_ne other]
      exact holds.contents file old
    · rw [List.mem_singleton.mp new, Function.update_self, AloneHolds.bytesOf_missing fresh]
      rfl
  · have bounded := holds.represents.bounded
    obtain ⟨status, same⟩ := holds.represents.create_full short (by omega)
    simp only [Archive.after, if_neg space, status, same, true_and]
    exact holds

theorem AloneHolds.write_missing (holds : AloneHolds archive fs) {name : CString}
    (missing : name ∉ archive.names) (data : Nat → UInt8) {size : UInt64}
    (small : size.toNat ≤ 256) :
    (mcsfs1Write name data size).result fs = mcsfs1Enoent ∧
      AloneHolds (archive.after (.write name data size)) ((mcsfs1Write name data size).final fs) := by
  obtain ⟨status, same⟩ :=
    holds.represents.write_missing (List.idxOf?_eq_none_iff.mpr missing) data small
  rw [Archive.after_write_missing missing, same]
  exact ⟨status, holds⟩

theorem AloneHolds.write (holds : AloneHolds archive fs) {name : CString}
    (existing : name ∈ archive.names) (data : Nat → UInt8) {size : UInt64}
    (small : size.toNat ≤ 256) :
    (mcsfs1Write name data size).result fs = mcsfs1Ok ∧
      AloneHolds (archive.after (.write name data size)) ((mcsfs1Write name data size).final fs) := by
  cases found : archive.names.idxOf? name with
  | none => exact absurd existing (List.idxOf?_eq_none_iff.mp found)
  | some index =>
      obtain ⟨status, effect⟩ := holds.represents.write_found found data small
      have names : (archive.after (.write name data size)).names = archive.names := by
        rw [Archive.after, Archive.names, List.map_map]
        apply List.map_congr_left
        intro file _
        simp only [Function.comp_apply]
        split
        · exact Eq.symm ‹_›
        · rfl
      refine ⟨status, ?_, ?_⟩
      · rw [names, effect]
        exact holds.represents.withBytes index data small
      · intro file member
        rw [names, effect, bytesOf_withBytes fs found]
        obtain ⟨old, inside, rfl⟩ := List.mem_map.mp member
        by_cases same : old.1 = name
        · simp only [if_pos same, Function.update_self]
        · simp only [if_neg same, Function.update_of_ne same]
          exact holds.contents old inside

theorem AloneHolds.read (holds : AloneHolds archive fs) {name : CString} {size : UInt64}
    {answer : Int × List UInt8} (answers : archive.Answers answer (.read name size)) :
    (mcsfs1Read name size).result fs = standAlone (.read name size) answer := by
  rw [holds.represents.read_result]
  rcases answers with ⟨missing, rfl⟩ | ⟨bytes, member, rfl⟩
  · rw [AloneHolds.bytesOf_missing missing]
    rfl
  · rw [holds.contents (name, bytes) member]
    simp only [standAlone, renumbered, List.length_take]
    rw [if_neg (by simp [Mcsfs.m15Mcsfs1Enoent]; omega), if_neg (by simp [Mcsfs.m15Mcsfs1Enospc]; omega)]

end

/-! ### Runs -/

/-- Both file systems and what has been put in. -/
structure Pair where
  archive : Archive
  kernel : Mcsfs.M15Mcsfs1
  alone : Mcsfs1T

def Pair.next (pair : Pair) (call : Mcsfs1Call) : Pair where
  archive := pair.archive.after call
  kernel := (kernelCall call).exec.final pair.kernel
  alone := call.exec.final pair.alone

/-- Both after their init, whatever was in memory. -/
def Pair.formatted (kernel : Mcsfs.M15Mcsfs1) (alone : Mcsfs1T) : Pair :=
  ⟨[], Mcsfs.m15Mcsfs1Init.final kernel, mcsfs1Init.final alone⟩

/-- The kernel's answer is the archive's, the stand-alone one is the same but
for its numbers, and they count the same files. -/
structure Pair.Agrees (pair : Pair) (call : Mcsfs1Call) : Prop where
  answers : pair.archive.Answers ((kernelCall call).exec.result pair.kernel) call
  alone : call.exec.result pair.alone =
    standAlone call ((kernelCall call).exec.result pair.kernel)
  counts : (pair.next call).kernel.inodeCount.toNat = (pair.next call).alone.inodeCount.toNat

/-- Both hold the archive. -/
structure Pair.Hold (pair : Pair) : Prop where
  kernel : KernelHolds pair.archive pair.kernel
  alone : AloneHolds pair.archive pair.alone

theorem Pair.formatted_hold (kernel : Mcsfs.M15Mcsfs1) (alone : Mcsfs1T) :
    (Pair.formatted kernel alone).Hold where
  kernel := by
    refine ⟨Mcsfs.m15Mcsfs1Init_represents kernel, by simp [Pair.formatted], ?_⟩
    rw [show (Pair.formatted kernel alone).kernel.dataUsed = 0 from
      (Mcsfs.m15Mcsfs1Init_final kernel).2.1]
    rfl
  alone := ⟨mcsfs1Init_represents alone, by simp [Pair.formatted]⟩

theorem Pair.Hold.counts {pair : Pair} (hold : pair.Hold) :
    pair.kernel.inodeCount.toNat = pair.alone.inodeCount.toNat :=
  hold.kernel.represents.count.trans hold.alone.represents.count.symm

theorem Pair.Hold.agrees {pair : Pair} (hold : pair.Hold) {call : Mcsfs1Call}
    (permits : pair.archive.Permits call) : pair.Agrees call ∧ (pair.next call).Hold := by
  obtain ⟨archive, kernel, alone⟩ := pair
  obtain ⟨kernelHolds, aloneHolds⟩ := hold
  cases call with
  | create name =>
      obtain ⟨answers, kernelNext⟩ := kernelHolds.create permits.1 permits.2
      obtain ⟨status, aloneNext⟩ := aloneHolds.create permits.1 permits.2
      have next : (Pair.next ⟨archive, kernel, alone⟩ (.create name)).Hold :=
        ⟨by simpa [Pair.next, kernelCall, Mcsfs.M15Call.exec] using kernelNext,
          by simpa [Pair.next, Mcsfs1Call.exec] using aloneNext⟩
      refine ⟨⟨answers, ?_, next.counts⟩, next⟩
      show ((mcsfs1Create name).result alone, ([] : List UInt8)) =
        standAlone (.create name) ((Mcsfs.m15Mcsfs1Create name).result kernel, [])
      rw [status, answers]
      split <;> rfl
  | write name data size =>
      obtain ⟨small, newest⟩ := permits
      by_cases existing : name ∈ archive.names
      · obtain ⟨earlier, bytes, rfl, fits⟩ := newest existing
        obtain ⟨answers, kernelNext⟩ := kernelHolds.write_newest small fits data
        obtain ⟨status, aloneNext⟩ := aloneHolds.write existing data small
        have next : (Pair.next ⟨earlier ++ [(name, bytes)], kernel, alone⟩
            (.write name data size)).Hold :=
          ⟨by simpa [Pair.next, kernelCall, Mcsfs.M15Call.exec] using kernelNext,
            by simpa [Pair.next, Mcsfs1Call.exec] using aloneNext⟩
        refine ⟨⟨answers, ?_, next.counts⟩, next⟩
        show ((mcsfs1Write name data size).result alone, ([] : List UInt8)) =
          standAlone (.write name data size) ((Mcsfs.m15Mcsfs1Write name data size).result kernel, [])
        rw [status, answers, if_pos existing]
        simp [standAlone]
      · obtain ⟨answers, kernelNext⟩ := kernelHolds.write_missing existing data size
        obtain ⟨status, aloneNext⟩ := aloneHolds.write_missing existing data small
        have next : (Pair.next ⟨archive, kernel, alone⟩ (.write name data size)).Hold :=
          ⟨by simpa [Pair.next, kernelCall, Mcsfs.M15Call.exec] using kernelNext,
            by simpa [Pair.next, Mcsfs1Call.exec] using aloneNext⟩
        refine ⟨⟨answers, ?_, next.counts⟩, next⟩
        show ((mcsfs1Write name data size).result alone, ([] : List UInt8)) =
          standAlone (.write name data size) ((Mcsfs.m15Mcsfs1Write name data size).result kernel, [])
        rw [status, answers, if_neg existing]
        rfl
  | read name size =>
      have answers := kernelHolds.read name size
      have next : (Pair.next ⟨archive, kernel, alone⟩ (.read name size)).Hold :=
        ⟨by simpa [Pair.next, kernelCall, Mcsfs.M15Call.exec, Mcsfs.m15Mcsfs1Read_final,
            Archive.after] using kernelHolds,
          by simpa [Pair.next, Mcsfs1Call.exec, aloneHolds.represents.read_final,
            Archive.after] using aloneHolds⟩
      exact ⟨⟨answers, aloneHolds.read answers, next.counts⟩, next⟩

/-- In a run that writes each file before it creates the next one both file
systems hand back what was put in, whatever was in memory, and tell the same
errors apart. -/
theorem implementations_agree (kernel : Mcsfs.M15Mcsfs1) (alone : Mcsfs1T)
    (calls : List Mcsfs1Call)
    (permitted : EveryCall Pair.next (fun pair call => pair.archive.Permits call) calls
      (Pair.formatted kernel alone)) :
    EveryCall Pair.next Pair.Agrees calls (Pair.formatted kernel alone) :=
  everyCall_of_invariant Pair.Hold (fun _ _ hold permits => hold.agrees permits)
    (Pair.formatted_hold kernel alone) permitted

/-- Two files, the first of them written twice before the second is created. -/
def twoFiles : List Mcsfs1Call :=
  [.create Mcsfs.fileA, .write Mcsfs.fileA (fun _ => 7) 200,
    .write Mcsfs.fileA (fun _ => 1) 3, .create Mcsfs.fileB, .write Mcsfs.fileB (fun _ => 2) 4,
    .read Mcsfs.fileA 10]

theorem implementations_agree_twoFiles :
    EveryCall Pair.next Pair.Agrees twoFiles (Pair.formatted Mcsfs.zeroedMcsfs1 zeroedMcsfs1T) := by
  apply implementations_agree
  refine ⟨⟨by decide, by decide⟩, ⟨by decide, fun _ => ⟨[], [], rfl, by decide⟩⟩,
    ⟨by decide, fun _ => ⟨[], _, rfl, by decide⟩⟩, ⟨by decide, by decide⟩,
    ⟨by decide, fun _ => ⟨[(Mcsfs.fileA, [1, 1, 1])], [], rfl, by decide⟩⟩, trivial, trivial⟩

end Mcsos.Mcsfs1
