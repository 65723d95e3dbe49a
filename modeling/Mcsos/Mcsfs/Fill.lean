import Mcsos.Mcsfs.HighWater

/-!
Contract: files created and written one after the other are all there
afterwards.

Each file is written right after it is created, so it starts where the stored
data ends. The extents are consecutive, and no write reaches another file.
-/

namespace Mcsos.Mcsfs

open Mcsos.Machine
open Mcsos.Machine.Prog

/-- A file to be stored: its name and its data. -/
abbrev NamedFile := CString × List UInt8

/-- The bytes that the buffer argument of a write points to. -/
def bufferOf (data : List UInt8) : Nat → UInt8 := fun position => data.getD position 0

/-- Create each file and write it before the next is created. -/
def fillCalls : List NamedFile → List M15Call
  | [] => []
  | (name, data) :: rest =>
      .create name :: .write name (bufferOf data) (UInt64.ofNat data.length) :: fillCalls rest

/-- The call succeeds; a write returns its size. -/
def Accepted (session : Session) : M15Call → Prop
  | .create name => (m15Mcsfs1Create name).result session.fs = m15Mcsfs1Ok
  | .write name buffer size =>
      (m15Mcsfs1Write name buffer size).result session.fs = Int.ofNat size.toNat
  | .read _ _ => True

/-- A read of one of the files returns the front of its data. -/
def ReadsBack (files : List NamedFile) (session : Session) : M15Call → Prop
  | .read name size =>
      ∀ data, (name, data) ∈ files →
        (m15Mcsfs1Read name size).result session.fs =
          (Int.ofNat (min size.toNat data.length), data.take size.toNat)
  | _ => True

/-- The bytes of all files together. -/
def totalLength (files : List NamedFile) : Nat := (files.map fun file => file.2.length).sum

/-- Exactly these files are stored, and their data ends at `data_used`. -/
structure Filled (files : List NamedFile) (session : Session) : Prop where
  describes : Describes session.fs session.contents (files.map Prod.fst)
  faithful : Faithful session.fs session.contents
  counts : CountsUsed session.fs
  highWater : HighWater session.fs
  dataUsed : session.fs.dataUsed.toNat = totalLength files
  contents : ∀ name data, (name, data) ∈ files → session.contents name = some data

theorem bufferOf_map (data : List UInt8) : (List.range data.length).map (bufferOf data) = data := by
  apply List.ext_getElem
  · simp
  · intro position _ inside
    simp [bufferOf, inside]

/-! ### One more file -/

section

variable {files : List NamedFile} {session : Session} {name : CString} {data : List UInt8}

/-- The contents when one more file has its data. -/
theorem contents_update {contents : Contents} (fresh : name ∉ files.map Prod.fst)
    (stored : ∀ other bytes, (other, bytes) ∈ files → contents other = some bytes)
    (data : List UInt8) (other : CString) (bytes : List UInt8)
    (member : (other, bytes) ∈ files ++ [(name, data)]) :
    Function.update contents name (some data) other = some bytes := by
  rcases List.mem_append.mp member with old | newest
  · have different : other ≠ name := by
      rintro rfl
      exact fresh (List.mem_map.mpr ⟨(other, bytes), old, rfl⟩)
    rw [Function.update_of_ne different]
    exact stored other bytes old
  · rw [List.mem_singleton, Prod.mk.injEq] at newest
    rw [newest.1, newest.2, Function.update_self]

/-- The slot a create takes is the one behind those of the files. -/
theorem Filled.count (filled : Filled files session) :
    session.fs.inodeCount.toNat = files.length := by
  rw [filled.describes.represents.count, List.length_map]

/-- A created file is empty. -/
theorem Filled.create (filled : Filled files session) (space : files.length < 32)
    (short : name.length < 64) (fresh : name ∉ files.map Prod.fst) :
    Accepted session (.create name) ∧
      Filled (files ++ [(name, [])]) (session.next (.create name)) := by
  have slot : session.fs.inodeCount.toNat < 32 := filled.count.trans_lt space
  have absent : session.contents name = none := by
    by_contra existing
    exact fresh ((filled.describes.exist name).mp existing)
  have described := filled.describes.create slot short fresh
  have kept : KeptBy session (.create name) :=
    keptBy_create filled.describes filled.faithful fun _ => ⟨short, absent⟩
  have after := next_create slot name
  refine ⟨m15Mcsfs1Create_status slot name, ?_, kept.2.mpr trivial, ?_, ?_, ?_, ?_⟩
  · rw [after, List.map_append]
    exact described
  · rw [after]
    exact filled.counts.create slot short
  · rw [after]
    exact filled.highWater.create slot short
  · rw [after, m15Mcsfs1Create_final slot short]
    simpa [totalLength] using filled.dataUsed
  · rw [after]
    exact contents_update fresh filled.contents []

/-- It starts where the data ends. -/
theorem Filled.created_offset (filled : Filled files session) (space : files.length < 32)
    (short : name.length < 64) :
    ((session.next (.create name)).fs.inodes files.length).offset =
      (session.next (.create name)).fs.dataUsed := by
  have slot : session.fs.inodeCount.toNat < 32 := filled.count.trans_lt space
  rw [next_create slot name, m15Mcsfs1Create_final slot short, ← filled.count]
  show (Function.update session.fs.inodes _ _ _).offset = _
  rw [Function.update_self]
  rfl

/-- The name of the last file leads to the last slot. -/
theorem Filled.last_slot (filled : Filled (files ++ [(name, data)]) session) :
    m15FindInode session.fs name = some files.length := by
  apply (filled.describes.represents.find_eq_some_iff name files.length).mpr
  simp

/-- Every file ends in front of the end of the data. -/
theorem Filled.ends (filled : Filled files session) {other : Nat}
    (used : other < session.fs.inodeCount.toNat) :
    (session.fs.inodes other).dataEnd ≤ session.fs.dataUsed.toNat := by
  have inTable := filled.counts.bounded
  exact filled.highWater.files other (by omega) ((filled.counts.used other (by omega)).mpr used)

/-- A write at the end of the data reaches no other file. -/
theorem Filled.spares (filled : Filled files session) {index : Nat}
    (found : m15FindInode session.fs name = some index)
    (offset : (session.fs.inodes index).offset = session.fs.dataUsed) (buffer : Nat → UInt8)
    (size : UInt64) : SparesBytes session (.write name buffer size) := by
  intro target foundTarget _ other used _ position inside written _ overlap
  have same : target = index := Option.some.inj (foundTarget.symm.trans found)
  have before := filled.ends used
  rw [same, offset] at overlap
  simp only [M15Inode.dataEnd] at before
  omega

/-- The last file, still empty, is written at the end of the data. -/
theorem Filled.write (filled : Filled (files ++ [(name, [])]) session)
    (fresh : name ∉ files.map Prod.fst)
    (offset : (session.fs.inodes files.length).offset = session.fs.dataUsed)
    (total : totalLength files + data.length < 4096) :
    Accepted session (.write name (bufferOf data) (UInt64.ofNat data.length)) ∧
      Filled (files ++ [(name, data)])
        (session.next (.write name (bufferOf data) (UInt64.ofNat data.length))) := by
  have found := filled.last_slot
  have size : (UInt64.ofNat data.length).toNat = data.length :=
    UInt64.toNat_ofNat_of_lt' (show data.length < 2 ^ 64 by omega)
  have bounded : (UInt64.ofNat data.length).toNat < 4096 := by omega
  have mark : session.fs.dataUsed.toNat = totalLength files := by
    simpa [totalLength] using filled.dataUsed
  have sum : ((session.fs.inodes files.length).offset + UInt64.ofNat data.length).toNat =
      totalLength files + data.length := by
    rw [offset, UInt64.toNat_add, size, mark]
    omega
  have fits := sum.trans_lt total
  have kept := keptBy_write filled.describes filled.faithful name (bufferOf data) bounded
  have described := filled.describes.write found bounded fits (bufferOf data)
  rcases next_write found bounded fits (bufferOf data) with ⟨status, after⟩
  rw [size, bufferOf_map] at after described
  refine ⟨status, ?_, kept.2.mpr (filled.spares found offset _ _), ?_, ?_, ?_, ?_⟩
  · rw [after]
    simpa using described
  · rw [after]
    exact filled.counts.write found fits (bufferOf data)
  · rw [after]
    apply (highWater_write_iff filled.counts filled.highWater bounded found fits _).mpr
    intro other used _
    rw [offset]
    exact (filled.ends used).trans (Nat.le_add_right _ _)
  · rw [after, (m15Mcsfs1Write_final found fits (bufferOf data)).2]
    refine sum.trans ?_
    simp [totalLength]
  · rw [after]
    exact contents_update fresh
      (fun other bytes old => filled.contents other bytes (List.mem_append_left _ old)) data

/-- Create and write of one more file. -/
theorem Filled.store (filled : Filled files session) (space : files.length < 32)
    (short : name.length < 64) (fresh : name ∉ files.map Prod.fst)
    (total : totalLength files + data.length < 4096) :
    EveryCall Session.next Accepted (fillCalls [(name, data)]) session ∧
      Filled (files ++ [(name, data)]) ((fillCalls [(name, data)]).foldl Session.next session) := by
  rcases filled.create space short fresh with ⟨created, empty⟩
  rcases empty.write fresh (filled.created_offset space short) total with ⟨written, stored⟩
  exact ⟨⟨created, written, trivial⟩, stored⟩

end

/-! ### All files -/

/-- Files that a fresh file system can hold: their number, their names and
their data. -/
structure Fits (files : List NamedFile) : Prop where
  few : files.length ≤ 32
  distinct : (files.map Prod.fst).Nodup
  short : ∀ file ∈ files, file.1.length < 64
  total : totalLength files < 4096

theorem totalLength_append (files rest : List NamedFile) :
    totalLength (files ++ rest) = totalLength files + totalLength rest := by
  simp [totalLength]

theorem Filled.fill {files rest : List NamedFile} {session : Session}
    (filled : Filled files session) (fits : Fits (files ++ rest)) :
    EveryCall Session.next Accepted (fillCalls rest) session ∧
      Filled (files ++ rest) ((fillCalls rest).foldl Session.next session) := by
  induction rest generalizing files session with
  | nil => simpa [fillCalls, EveryCall] using filled
  | cons file rest inductionHypothesis =>
      rcases file with ⟨name, data⟩
      have few := fits.few
      have total := fits.total
      have distinct := fits.distinct
      rw [totalLength_append] at total
      rw [List.length_append, List.length_cons] at few
      rw [List.map_append, List.nodup_append] at distinct
      have fresh : name ∉ files.map Prod.fst := by
        intro member
        exact distinct.2.2 name member name (by simp) rfl
      have own : data.length ≤ totalLength ((name, data) :: rest) := by simp [totalLength]
      rcases filled.store (by omega) (fits.short (name, data) (by simp)) fresh
        (by omega : totalLength files + data.length < 4096) with ⟨accepted, stored⟩
      have split : files ++ (name, data) :: rest = files ++ [(name, data)] ++ rest := by simp
      rw [split] at fits ⊢
      rcases inductionHypothesis stored fits with ⟨later, all⟩
      exact ⟨⟨accepted.1, accepted.2.1, later⟩, all⟩

theorem initialised_filled (memory : M15Mcsfs1) : Filled [] (initialised memory) := by
  rcases init_highWater memory with ⟨counts, highWater⟩
  refine ⟨⟨m15Mcsfs1Init_represents memory, by simp [initialised], by simp⟩, ?_, counts, highWater,
    ?_, by simp⟩
  · intro name bytes expected
    exact absurd expected (by simp [initialised])
  · show (m15Mcsfs1Init.final memory).dataUsed.toNat = 0
    rw [(m15Mcsfs1Init_final memory).2.1]
    rfl

/-- Reads, in any order, return the files and change nothing. -/
theorem Filled.readsBack {files : List NamedFile} {session : Session}
    (filled : Filled files session) (reads : List (CString × UInt64)) :
    EveryCall Session.next (ReadsBack files) (reads.map fun read => .read read.1 read.2)
      session := by
  induction reads with
  | nil => trivial
  | cons read reads inductionHypothesis =>
      refine ⟨?_, ?_⟩
      · intro data member
        exact filled.faithful read.1 data (filled.contents read.1 data member) read.2
      · have same : session.next (.read read.1 read.2) = session := by
          simp [Session.next, M15Call.exec, m15Mcsfs1Read_final, Contents.after]
        show EveryCall Session.next _ _ (session.next (.read read.1 read.2))
        rw [same]
        exact inductionHypothesis

/-- At most 32 files with different names and less than 4096 bytes of data
altogether, created and written one after the other: every call succeeds, and
every read afterwards returns the front of what was written. -/
theorem sequentialFill_lossless (memory : M15Mcsfs1) (files : List NamedFile)
    (few : files.length ≤ 32) (distinct : (files.map Prod.fst).Nodup)
    (short : ∀ file ∈ files, file.1.length < 64)
    (total : (files.map fun file => file.2.length).sum < 4096) :
    EveryCall Session.next Accepted (fillCalls files) (initialised memory) ∧
      ∀ reads : List (CString × UInt64),
        EveryCall Session.next (ReadsBack files) (reads.map fun read => .read read.1 read.2)
          ((fillCalls files).foldl Session.next (initialised memory)) := by
  have fits : Fits ([] ++ files) := ⟨few, distinct, short, total⟩
  rcases (initialised_filled memory).fill fits with ⟨accepted, filled⟩
  exact ⟨accepted, filled.readsBack⟩

/-- Two files, read back in the opposite order and then once more. -/
theorem sequentialFill_twoFiles :
    EveryCall Session.next Accepted (fillCalls [(fileA, [1, 2, 3]), (fileB, [4])])
        (initialised zeroedMcsfs1) ∧
      EveryCall Session.next (ReadsBack [(fileA, [1, 2, 3]), (fileB, [4])])
        [.read fileB 8, .read fileA 2, .read fileB 1]
        ((fillCalls [(fileA, [1, 2, 3]), (fileB, [4])]).foldl Session.next
          (initialised zeroedMcsfs1)) := by
  rcases sequentialFill_lossless zeroedMcsfs1 [(fileA, [1, 2, 3]), (fileB, [4])] (by decide)
    (by decide) (by decide) (by decide) with ⟨accepted, readsBack⟩
  exact ⟨accepted, readsBack [(fileB, 8), (fileA, 2), (fileB, 1)]⟩

end Mcsos.Mcsfs
