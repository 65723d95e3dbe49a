import Mcsos.Machine.Run
import Mcsos.Mcsfs.Files

/-!
Contract: reads after writes, and isolation of files, in every run of the
kernel MCSFS1.

Create takes its offset from `data_used` and reserves nothing, so files created
one after the other start at the same place, and a rewrite may run into the
next file. `Contents` is what a client expects; the module determines exactly
which runs live up to it.
-/

namespace Mcsos.Mcsfs

open Mcsos.Machine
open Mcsos.Machine.Prog

inductive M15Call where
  | create (name : CString)
  | write (name : CString) (buffer : Nat → UInt8) (size : UInt64)
  | read (name : CString) (size : UInt64)

/-- The call, its return value and the bytes it hands back. -/
def M15Call.exec : M15Call → M15Prog (Int × List UInt8)
  | .create name => do return (← m15Mcsfs1Create name, [])
  | .write name buffer size => do return (← m15Mcsfs1Write name buffer size, [])
  | .read name size => m15Mcsfs1Read name size

def M15Call.fileName : M15Call → CString
  | .create name | .write name _ _ | .read name _ => name

/-- What a client expects: for every file that exists the bytes last written
to it. -/
abbrev Contents := CString → Option (List UInt8)

/-- The expectation after a call that returned `status`. -/
def Contents.after (contents : Contents) (status : Int) : M15Call → Contents
  | .create name =>
      if status = m15Mcsfs1Ok then Function.update contents name (some []) else contents
  | .write name buffer size =>
      if 0 ≤ status then
        Function.update contents name (some ((List.range size.toNat).map buffer))
      else
        contents
  | .read _ _ => contents

/-- Every read of an existing file would return the front of its contents. -/
def Faithful (fs : M15Mcsfs1) (contents : Contents) : Prop :=
  ∀ name bytes, contents name = some bytes → ∀ size : UInt64,
    (m15Mcsfs1Read name size).result fs =
      (Int.ofNat (min size.toNat bytes.length), bytes.take size.toNat)

/-- The file system and what its client expects of it. -/
structure Session where
  fs : M15Mcsfs1
  contents : Contents

def Session.next (session : Session) (call : M15Call) : Session where
  fs := call.exec.final session.fs
  contents := session.contents.after (call.exec.result session.fs).1 call

/-- The call changes no answer about a file other than its own. -/
def SparesReads (session : Session) (call : M15Call) : Prop :=
  ∀ name, session.contents name ≠ none → name ≠ call.fileName → ∀ size,
    (m15Mcsfs1Read name size).result (session.next call).fs =
      (m15Mcsfs1Read name size).result session.fs

/-- The call leaves every answer right, and spares the answers about other
files. -/
def Isolated (session : Session) (call : M15Call) : Prop :=
  SparesReads session call ∧ Faithful (session.next call).fs (session.next call).contents

/-- Names that are created are new and fit their field, writes are shorter
than the data area. -/
def Admissible (session : Session) : M15Call → Prop
  | .create name =>
      (m15Mcsfs1Create name).result session.fs = m15Mcsfs1Ok →
        name.length < 64 ∧ session.contents name = none
  | .write _ _ size => size.toNat < 4096
  | .read _ _ => True

/-- Where a write that is not refused runs into the bytes of another file, it
puts there what is there already. -/
def SparesBytes (session : Session) : M15Call → Prop
  | .write name buffer size =>
      ∀ index, m15FindInode session.fs name = some index →
        ((session.fs.inodes index).offset + size).toNat < 4096 →
        ∀ other < session.fs.inodeCount.toNat, other ≠ index →
          ∀ position < (session.fs.inodes other).size.toNat, ∀ written < size.toNat,
            (session.fs.inodes other).offset.toNat + position =
                (session.fs.inodes index).offset.toNat + written →
              buffer written = session.fs.data ((session.fs.inodes other).offset.toNat + position)
  | _ => True

/-! ### The expectation and the inodes -/

/-- The files that are there are the ones expected, with the lengths expected. -/
structure Describes (fs : M15Mcsfs1) (contents : Contents) (names : List CString) : Prop where
  represents : Represents fs names
  exist : ∀ name, contents name ≠ none ↔ name ∈ names
  length : ∀ index name bytes, names[index]? = some name → contents name = some bytes →
    (fs.inodes index).size.toNat = bytes.length

/-- Reads are right exactly when the bytes in the data area are. -/
theorem Describes.faithful_iff {fs : M15Mcsfs1} {contents : Contents} {names : List CString}
    (describes : Describes fs contents names) :
    Faithful fs contents ↔
      ∀ index name bytes, names[index]? = some name → contents name = some bytes →
        fileBytes fs index = bytes := by
  constructor
  · intro faithful index name bytes present expected
    have read := faithful name bytes expected 4096
    rw [describes.represents.read_result present] at read
    have front := (Prod.mk.inj read).2
    have extent := (describes.represents.inode index name present).extent
    have length := describes.length index name bytes present expected
    have whole : (4096 : UInt64).toNat = 4096 := rfl
    rwa [whole, List.take_of_length_le (by simp [fileBytes]; omega),
      List.take_of_length_le (by omega)] at front
  · intro stored name bytes expected size
    have member : name ∈ names := (describes.exist name).mp (by simp [expected])
    rcases List.mem_iff_getElem?.mp member with ⟨index, present⟩
    rw [describes.represents.read_result present, stored index name bytes present expected]

theorem fileBytes_congr {fs other : M15Mcsfs1} {index : Nat}
    (inode : other.inodes index = fs.inodes index) :
    fileBytes other index = fileBytes fs index ↔
      ∀ position < (fs.inodes index).size.toNat,
        other.data ((fs.inodes index).offset.toNat + position) =
          fs.data ((fs.inodes index).offset.toNat + position) := by
  simp [fileBytes, readRange, inode]

theorem Contents.after_other (contents : Contents) (status : Int) {call : M15Call} {name : CString}
    (elsewhere : name ≠ call.fileName) : contents.after status call name = contents name := by
  cases call with
  | create own =>
      simp only [Contents.after]
      split
      · exact Function.update_of_ne elsewhere _ _
      · rfl
  | write own buffer size =>
      simp only [Contents.after]
      split
      · exact Function.update_of_ne elsewhere _ _
      · rfl
  | read own size => rfl

/-- Reads that are right before and after a call say that the call spares the
other files. -/
theorem sparesReads_of_faithful {session : Session} {call : M15Call}
    (before : Faithful session.fs session.contents)
    (after : Faithful (session.next call).fs (session.next call).contents) :
    SparesReads session call := by
  intro name existing elsewhere size
  rcases Option.ne_none_iff_exists'.mp existing with ⟨bytes, expected⟩
  have kept := session.contents.after_other (call.exec.result session.fs).1 elsewhere
  rw [after name bytes (kept.trans expected) size, before name bytes expected size]

/-! ### One call -/

/-- What a call does to a described file system: it is described again, and
its reads stay right exactly when the call spares the bytes of other files. -/
def KeptBy (session : Session) (call : M15Call) : Prop :=
  (∃ names, Describes (session.next call).fs (session.next call).contents names) ∧
    (Faithful (session.next call).fs (session.next call).contents ↔ SparesBytes session call)

/-- A call that changes neither the file system nor the expectation. -/
theorem keptBy_of_same {session : Session} {names : List CString} {call : M15Call}
    (describes : Describes session.fs session.contents names)
    (faithful : Faithful session.fs session.contents) (same : session.next call = session)
    (spares : SparesBytes session call) : KeptBy session call := by
  rw [KeptBy, same]
  exact ⟨⟨names, describes⟩, fun _ => spares, fun _ => faithful⟩

/-- A create leaves the files that are there, with their bytes. -/
theorem create_old_file {fs : M15Mcsfs1} {names : List CString} (represents : Represents fs names)
    (space : fs.inodeCount.toNat < 32) {name : CString} (short : name.length < 64) {index : Nat}
    (old : index < names.length) :
    ((m15Mcsfs1Create name).final fs).inodes index = fs.inodes index ∧
      fileBytes ((m15Mcsfs1Create name).final fs) index = fileBytes fs index := by
  have notNewest : index ≠ fs.inodeCount.toNat := by
    rw [represents.count]
    omega
  have inode : ((m15Mcsfs1Create name).final fs).inodes index = fs.inodes index := by
    rw [m15Mcsfs1Create_final space short]
    exact Function.update_of_ne notNewest _ _
  refine ⟨inode, (fileBytes_congr inode).mpr ?_⟩
  intro position _
  rw [m15Mcsfs1Create_final space short]

/-- The new file is empty. -/
theorem create_new_file {fs : M15Mcsfs1} (space : fs.inodeCount.toNat < 32) {name : CString}
    (short : name.length < 64) :
    (((m15Mcsfs1Create name).final fs).inodes fs.inodeCount.toNat).size = 0 := by
  rw [m15Mcsfs1Create_final space short]
  show (Function.update fs.inodes _ _ _).size = 0
  rw [Function.update_self]
  rfl

/-- A file of the grown list is one of before, or the new and empty one. -/
theorem expected_concat_cases {contents : Contents} {names : List CString} {name found : CString}
    {bytes : List UInt8} {index : Nat} (fresh : name ∉ names)
    (present : (names ++ [name])[index]? = some found)
    (expected : Function.update contents name (some []) found = some bytes) :
    (index < names.length ∧ names[index]? = some found ∧ contents found = some bytes) ∨
      (index = names.length ∧ bytes = []) := by
  rcases getElem?_concat_cases present with ⟨old, present⟩ | ⟨newest, same⟩
  · left
    have other : found ≠ name := by
      intro same
      rw [same] at present
      exact fresh (List.mem_of_getElem? present)
    rw [Function.update_of_ne other] at expected
    exact ⟨old, present, expected⟩
  · right
    rw [same, Function.update_self, Option.some.injEq] at expected
    exact ⟨newest, expected.symm⟩

theorem Describes.create {fs : M15Mcsfs1} {contents : Contents} {names : List CString}
    (describes : Describes fs contents names) (space : fs.inodeCount.toNat < 32) {name : CString}
    (short : name.length < 64) (fresh : name ∉ names) :
    Describes ((m15Mcsfs1Create name).final fs) (Function.update contents name (some []))
      (names ++ [name]) := by
  have count := describes.represents.count
  refine ⟨describes.represents.create (by omega) short fresh, ?_, ?_⟩
  · intro found
    by_cases same : found = name
    · simp [same]
    · simp [same, describes.exist]
  · intro index found bytes present expected
    rcases expected_concat_cases fresh present expected with
      ⟨old, present, expected⟩ | ⟨newest, empty⟩
    · rw [(create_old_file describes.represents space short old).1]
      exact describes.length index found bytes present expected
    · rw [newest, ← count, create_new_file space short, empty]
      rfl

/-- The session after a create that succeeds. -/
theorem next_create {session : Session} (space : session.fs.inodeCount.toNat < 32)
    (name : CString) :
    session.next (.create name) =
      ⟨(m15Mcsfs1Create name).final session.fs,
        Function.update session.contents name (some [])⟩ := by
  have status := m15Mcsfs1Create_status space name
  simp [Session.next, M15Call.exec, Contents.after, status]

theorem keptBy_create {session : Session} {names : List CString}
    (describes : Describes session.fs session.contents names)
    (faithful : Faithful session.fs session.contents) {name : CString}
    (admissible : Admissible session (.create name)) : KeptBy session (.create name) := by
  rcases session with ⟨fs, contents⟩
  by_cases space : fs.inodeCount.toNat < 32
  · have status := m15Mcsfs1Create_status space name
    rcases admissible status with ⟨short, absent⟩
    have fresh : name ∉ names := by
      rw [← describes.exist, not_not]
      exact absent
    have described := describes.create space short fresh
    rw [KeptBy, @next_create ⟨fs, contents⟩ space name]
    refine ⟨⟨_, described⟩, fun _ => trivial, fun _ => ?_⟩
    rw [described.faithful_iff]
    intro index found bytes present expected
    rcases expected_concat_cases fresh present expected with
      ⟨old, present, expected⟩ | ⟨newest, empty⟩
    · rw [(create_old_file describes.represents space short old).2]
      exact describes.faithful_iff.mp faithful index found bytes present expected
    · rw [newest, empty, fileBytes, ← describes.represents.count, create_new_file space short]
      rfl
  · rcases m15Mcsfs1Create_full (Nat.le_of_not_lt space) name with ⟨status, silent⟩
    refine keptBy_of_same describes faithful ?_ trivial
    simp [Session.next, M15Call.exec, final, silent, Contents.after, status, m15Mcsfs1Enospc,
      m15Mcsfs1Ok]

/-- The files after a write that is not refused. -/
theorem write_file {fs : M15Mcsfs1} {name : CString} {size : UInt64} {index : Nat}
    (found : m15FindInode fs name = some index)
    (fits : ((fs.inodes index).offset + size).toNat < 4096) (buffer : Nat → UInt8) :
    fileBytes ((m15Mcsfs1Write name buffer size).final fs) index =
        (List.range size.toNat).map buffer ∧
      ∀ other, other ≠ index →
        ((m15Mcsfs1Write name buffer size).final fs).inodes other = fs.inodes other ∧
        (fileBytes ((m15Mcsfs1Write name buffer size).final fs) other = fileBytes fs other ↔
          ∀ position < (fs.inodes other).size.toNat, ∀ written < size.toNat,
            (fs.inodes other).offset.toNat + position =
                (fs.inodes index).offset.toNat + written →
              buffer written = fs.data ((fs.inodes other).offset.toNat + position)) := by
  rw [(m15Mcsfs1Write_final found fits buffer).2]
  constructor
  · simp only [fileBytes, Function.update_self]
    apply List.map_congr_left
    intro position inside
    exact writeRange_inside _ _ _ (List.mem_range.mp inside)
  · intro other different
    have inode : Function.update fs.inodes index { fs.inodes index with size := size } other =
        fs.inodes other := Function.update_of_ne different _ _
    refine ⟨inode, ?_⟩
    rw [fileBytes_congr inode]
    simp only [writeRange_eq_iff]

/-- What is expected of a slot after a write: the written bytes for the slot
of the name, what was expected before for any other. -/
theorem expected_update_cases {fs : M15Mcsfs1} {contents : Contents} {names : List CString}
    (represents : Represents fs names) {name otherName : CString} {index other : Nat}
    (found : m15FindInode fs name = some index) (otherPresent : names[other]? = some otherName)
    {data bytes : List UInt8}
    (expected : Function.update contents name (some data) otherName = some bytes) :
    (other = index ∧ bytes = data) ∨ (other ≠ index ∧ contents otherName = some bytes) := by
  by_cases same : otherName = name
  · left
    rw [same] at otherPresent
    rw [same, Function.update_self, Option.some.injEq] at expected
    exact ⟨represents.slot_unique found otherPresent, expected.symm⟩
  · right
    rw [Function.update_of_ne same] at expected
    refine ⟨?_, expected⟩
    intro here
    rw [here, (represents.find_eq_some_iff name index).mp found, Option.some.injEq] at otherPresent
    exact same otherPresent.symm

theorem Describes.write {fs : M15Mcsfs1} {contents : Contents} {names : List CString}
    (describes : Describes fs contents names) {name : CString} {size : UInt64} {index : Nat}
    (found : m15FindInode fs name = some index) (bounded : size.toNat < 4096)
    (fits : ((fs.inodes index).offset + size).toNat < 4096) (buffer : Nat → UInt8) :
    Describes ((m15Mcsfs1Write name buffer size).final fs)
      (Function.update contents name (some ((List.range size.toNat).map buffer))) names := by
  have present := (describes.represents.find_eq_some_iff name index).mp found
  refine ⟨describes.represents.write found bounded fits buffer, ?_, ?_⟩
  · intro other
    by_cases same : other = name
    · simp [same, List.mem_of_getElem? present]
    · simp [same, describes.exist]
  · intro other otherName bytes otherPresent expected
    rcases expected_update_cases describes.represents found otherPresent expected with
      ⟨here, written⟩ | ⟨elsewhere, expected⟩
    · rw [here, written, (m15Mcsfs1Write_final found fits buffer).2]
      simp
    · rw [((write_file found fits buffer).2 other elsewhere).1]
      exact describes.length other otherName bytes otherPresent expected

/-- The status and the session after a write that is not refused. -/
theorem next_write {session : Session} {name : CString} {size : UInt64} {index : Nat}
    (found : m15FindInode session.fs name = some index) (bounded : size.toNat < 4096)
    (fits : ((session.fs.inodes index).offset + size).toNat < 4096) (buffer : Nat → UInt8) :
    (m15Mcsfs1Write name buffer size).result session.fs = Int.ofNat size.toNat ∧
      session.next (.write name buffer size) =
        ⟨(m15Mcsfs1Write name buffer size).final session.fs,
          Function.update session.contents name (some ((List.range size.toNat).map buffer))⟩ := by
  have status := (m15Mcsfs1Write_final found fits buffer).1
  rw [toInt32_toInt_of_lt (by omega)] at status
  refine ⟨status, ?_⟩
  simp [Session.next, M15Call.exec, Contents.after, status]

theorem keptBy_write {session : Session} {names : List CString}
    (describes : Describes session.fs session.contents names)
    (faithful : Faithful session.fs session.contents) (name : CString) (buffer : Nat → UInt8)
    {size : UInt64} (bounded : size.toNat < 4096) : KeptBy session (.write name buffer size) := by
  rcases session with ⟨fs, contents⟩
  by_cases refused : WriteRefused fs name size
  · rcases m15Mcsfs1Write_refused refused buffer with ⟨status, silent⟩
    have negative : ¬ 0 ≤ (m15Mcsfs1Write name buffer size).result fs := by omega
    refine keptBy_of_same describes faithful ?_ ?_
    · simp [Session.next, M15Call.exec, final, silent, Contents.after, negative]
    · intro index found fits
      exact absurd fits (Nat.not_lt.mpr (refused index found))
  · simp only [WriteRefused, not_forall, not_le] at refused
    rcases refused with ⟨index, found, fits⟩
    have described := describes.write found bounded fits buffer
    rw [KeptBy, (@next_write ⟨fs, contents⟩ _ _ _ found bounded fits buffer).2]
    refine ⟨⟨names, described⟩, ?_⟩
    rw [described.faithful_iff]
    rcases write_file found fits buffer with ⟨own, others⟩
    constructor
    · intro stored again foundAgain _ other used different
      have same : again = index := Option.some.inj (foundAgain.symm.trans found)
      subst same
      rw [describes.represents.count] at used
      have otherPresent := List.getElem?_eq_getElem used
      have otherName : names[other] ≠ name := by
        intro same
        rw [same] at otherPresent
        exact different (describes.represents.slot_unique found otherPresent)
      have existing := (describes.exist names[other]).mpr (List.getElem_mem used)
      rcases Option.ne_none_iff_exists'.mp existing with ⟨bytes, expected⟩
      have kept := stored other _ bytes otherPresent
        ((Function.update_of_ne otherName _ _).trans expected)
      rw [← describes.faithful_iff.mp faithful other _ bytes otherPresent expected] at kept
      exact (others other different).2.mp kept
    · intro spares other otherName bytes otherPresent expected
      rcases expected_update_cases describes.represents found otherPresent expected with
        ⟨here, written⟩ | ⟨elsewhere, expected⟩
      · rw [here, written]
        exact own
      · have used : other < fs.inodeCount.toNat := by
          rw [describes.represents.count]
          exact (List.getElem?_eq_some_iff.mp otherPresent).1
        rw [(others other elsewhere).2.mpr (spares index found fits other used elsewhere)]
        exact describes.faithful_iff.mp faithful other otherName bytes otherPresent expected

theorem keptBy {session : Session} {names : List CString}
    (describes : Describes session.fs session.contents names)
    (faithful : Faithful session.fs session.contents) {call : M15Call}
    (admissible : Admissible session call) : KeptBy session call := by
  cases call with
  | create name => exact keptBy_create describes faithful admissible
  | write name buffer size => exact keptBy_write describes faithful name buffer admissible
  | read name size =>
      refine keptBy_of_same describes faithful ?_ trivial
      simp [Session.next, M15Call.exec, m15Mcsfs1Read_final, Contents.after]

/-! ### Whole runs -/

/-- The session right after `m15_mcsfs1_init`, whatever the memory was. -/
def initialised (memory : M15Mcsfs1) : Session := ⟨m15Mcsfs1Init.final memory, fun _ => none⟩

/-- In an admissible run reads return the last writes and files do not
interfere exactly when every write of the run spares the bytes stored for
other files. -/
theorem run_isolated_iff (memory : M15Mcsfs1) (calls : List M15Call)
    (admissible : EveryCall Session.next Admissible calls (initialised memory)) :
    EveryCall Session.next Isolated calls (initialised memory) ↔
      EveryCall Session.next SparesBytes calls (initialised memory) := by
  -- The invariant is only kept as long as the run is isolated.
  refine everyCall_iff (fun session => (∃ names, Describes session.fs session.contents names) ∧
    Faithful session.fs session.contents) ?_ ?_ admissible
  · intro session call holds allowed
    rcases holds with ⟨⟨names, describes⟩, faithful⟩
    rcases keptBy describes faithful allowed with ⟨described, stays⟩
    refine ⟨⟨fun isolated => stays.mp isolated.2, ?_⟩, fun isolated => ⟨described, isolated.2⟩⟩
    intro spares
    have after := stays.mpr spares
    exact ⟨sparesReads_of_faithful faithful after, after⟩
  · refine ⟨⟨[], m15Mcsfs1Init_represents memory, ?_, ?_⟩, ?_⟩
    · simp [initialised]
    · simp
    · intro name bytes expected
      exact absurd expected (by simp [initialised])

def fileA : CString := ⟨[97], by simp⟩
def fileB : CString := ⟨[98], by simp⟩

def zeroedMcsfs1 : M15Mcsfs1 where
  magic := 0
  inodeCount := 0
  dataUsed := 0
  inodes := fun _ => ⟨fun _ => 0, 0, 0, 0, fun _ => 0⟩
  data := fun _ => 0

/-- One file, written once. -/
theorem run_isolated_oneFile :
    EveryCall Session.next Isolated [.create fileA, .write fileA (fun _ => 1) 1]
      (initialised zeroedMcsfs1) := by
  refine (run_isolated_iff zeroedMcsfs1 [.create fileA, .write fileA (fun _ => 1) 1] ?_).mpr ?_
  · exact ⟨fun _ => ⟨by decide, rfl⟩, show (1 : UInt64).toNat < 4096 by decide, trivial⟩
  · refine ⟨trivial, ?_, trivial⟩
    intro index found _ other used different
    have slot : m15FindInode ((initialised zeroedMcsfs1).next (.create fileA)).fs fileA = some 0 := by
      decide +kernel
    have count : ((initialised zeroedMcsfs1).next (.create fileA)).fs.inodeCount.toNat = 1 := by
      decide +kernel
    rw [slot, Option.some.injEq] at found
    omega

/-- Two files created one after the other start at the same offset. -/
def createdTogether : List M15Call :=
  [.create fileA, .create fileB, .write fileA (fun _ => 1) 1, .write fileB (fun _ => 2) 1]

/-- After the second write a read of the first file returns the bytes of the
second. -/
theorem createdTogether_not_isolated :
    EveryCall Session.next Admissible createdTogether (initialised zeroedMcsfs1) ∧
      ¬ EveryCall Session.next Isolated createdTogether (initialised zeroedMcsfs1) := by
  have oneByte : (1 : UInt64).toNat < 4096 := by decide
  refine ⟨⟨fun _ => ⟨by decide, rfl⟩, fun _ => ⟨by decide, by decide +kernel⟩, oneByte, oneByte,
    trivial⟩, ?_⟩
  intro isolated
  have last := isolated.2.2.2.1.2 fileA [1] (by decide +kernel) 1
  revert last
  decide +kernel

end Mcsos.Mcsfs
