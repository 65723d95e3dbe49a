import Mathlib.Data.Finset.Card
import Mcsos.Machine.Run
import Mcsos.Mcsfs1.Files

/-!
Contract: the stand-alone MCSFS1 refines a map from names to byte strings, in
every run from every memory.

`Directory` is that map together with the number of files created. It moves
with the statuses of the calls alone, and its `answer` says what each call has
to hand back; it knows nothing of slots, and nothing of the memory before
`mcsfs1_init`.
-/

namespace Mcsos.Mcsfs1

open Mcsos.Machine
open Mcsos.Machine.Prog

inductive Mcsfs1Call where
  | create (name : CString)
  | write (name : CString) (data : Nat → UInt8) (size : UInt64)
  | read (name : CString) (size : UInt64)

/-- The call, its return value and the bytes it hands back. -/
def Mcsfs1Call.exec : Mcsfs1Call → Mcsfs1Prog (Int × List UInt8)
  | .create name => do return (← mcsfs1Create name, [])
  | .write name data size => do return (← mcsfs1Write name data size, [])
  | .read name size => mcsfs1Read name size

def Mcsfs1Call.fileName : Mcsfs1Call → CString
  | .create name | .write name _ _ | .read name _ => name

/-- `creates` counts the creates that succeeded; `contents` holds, for every
name that was created, the bytes last written to it. -/
structure Directory where
  creates : Nat
  contents : CString → Option (List UInt8)

namespace Directory

def empty : Directory := ⟨0, fun _ => none⟩

/-- The directory after a call that returned `status`. A name that is created
again keeps its bytes. -/
def after (directory : Directory) (status : Int) : Mcsfs1Call → Directory
  | .create name =>
      if status = mcsfs1Ok then
        { creates := directory.creates + 1
          contents := Function.update directory.contents name
            (some ((directory.contents name).getD [])) }
      else
        directory
  | .write name data size =>
      if status = mcsfs1Ok then
        { directory with
          contents := Function.update directory.contents name
            (some ((List.range size.toNat).map data)) }
      else
        directory
  | .read _ _ => directory

/-- What a call hands back. -/
def answer (directory : Directory) : Mcsfs1Call → Int × List UInt8
  | .create name =>
      if 32 ≤ name.length then (mcsfs1Einval, [])
      else if 32 ≤ directory.creates then (mcsfs1Enospc, [])
      else (mcsfs1Ok, [])
  | .write name _ size =>
      if 256 < size.toNat then (mcsfs1Enospc, [])
      else if directory.contents name = none then (mcsfs1Enoent, [])
      else (mcsfs1Ok, [])
  | .read name size =>
      match directory.contents name with
      | none => (mcsfs1Enoent, [])
      | some bytes => ((min size.toNat bytes.length : Nat), bytes.take size.toNat)

theorem after_contents_other (directory : Directory) (status : Int) {call : Mcsfs1Call}
    {other : CString} (different : other ≠ call.fileName) :
    (directory.after status call).contents other = directory.contents other := by
  cases call with
  | create name =>
      simp only [after]
      split
      · exact Function.update_of_ne different _ _
      · rfl
  | write name data size =>
      simp only [after]
      split
      · exact Function.update_of_ne different _ _
      · rfl
  | read name size => rfl

end Directory

/-- The file system and the directory its calls have built up. -/
structure Session where
  fs : Mcsfs1T
  directory : Directory

def Session.next (session : Session) (call : Mcsfs1Call) : Session where
  fs := call.exec.final session.fs
  directory := session.directory.after (call.exec.result session.fs).1 call

/-- The session after `mcsfs1_init` on some memory. -/
def formatted (prior : Mcsfs1T) : Session := ⟨mcsfs1Init.final prior, Directory.empty⟩

/-! ### The simulation -/

/-- The directory is the one the slots hold. -/
def Session.Held (session : Session) : Prop :=
  ∃ names, Represents session.fs names ∧
    session.directory = ⟨names.length, bytesOf session.fs names⟩

theorem formatted_held (prior : Mcsfs1T) : (formatted prior).Held :=
  ⟨[], mcsfs1Init_represents prior, rfl⟩

/-- The call hands back what the directory says, the directory stays the one
the slots hold, and a call that fails changes nothing. -/
structure Session.Simulates (session : Session) (call : Mcsfs1Call) : Prop where
  answer : call.exec.result session.fs = session.directory.answer call
  held : (session.next call).Held
  failed : (call.exec.result session.fs).1 < 0 → call.exec.final session.fs = session.fs

section

variable {session : Session}

/-- A call that changes neither side. -/
theorem Session.Held.simulates_same (held : session.Held) {call : Mcsfs1Call}
    (answer : call.exec.result session.fs = session.directory.answer call)
    (same : call.exec.final session.fs = session.fs)
    (after : session.directory.after (call.exec.result session.fs).1 call = session.directory) :
    session.Simulates call := by
  refine ⟨answer, ?_, fun _ => same⟩
  rw [Session.next, same, after]
  exact held

theorem Session.Held.create (held : session.Held) (name : CString) :
    session.Simulates (.create name) := by
  obtain ⟨names, represents, directory⟩ := held
  have creates : session.directory.creates = names.length := by rw [directory]
  have result : (Mcsfs1Call.create name).exec.result session.fs =
      ((mcsfs1Create name).result session.fs, []) := rfl
  have final : (Mcsfs1Call.create name).exec.final session.fs =
      (mcsfs1Create name).final session.fs := by simp [Mcsfs1Call.exec]
  by_cases long : 32 ≤ name.length
  · obtain ⟨status, same⟩ := mcsfs1Create_long session.fs long
    refine Session.Held.simulates_same ⟨names, represents, directory⟩ ?_ (final.trans same) ?_
    · simp [result, status, Directory.answer, long]
    · simp [result, status, Directory.after, mcsfs1Einval, mcsfs1Ok]
  · have short : name.length < 32 := by omega
    by_cases full : names.length = 32
    · obtain ⟨status, same⟩ := represents.create_full short full
      refine Session.Held.simulates_same ⟨names, represents, directory⟩ ?_ (final.trans same) ?_
      · simp [result, status, Directory.answer, long, creates, full]
      · simp [result, status, Directory.after, mcsfs1Enospc, mcsfs1Ok]
    · have space : names.length < 32 := by
        have bounded := represents.bounded
        omega
      obtain ⟨status, effect⟩ := represents.create_space short space
      refine ⟨?_, ⟨names ++ [name], ?_, ?_⟩, ?_⟩
      · have notFull : ¬ 32 ≤ names.length := by omega
        simp [result, status, Directory.answer, long, creates, notFull]
      · rw [Session.next, final, effect]
        exact represents.withFile short space
      · simp only [Session.next, result, status, final, effect, Directory.after, if_true,
          bytesOf_withFile, directory, List.length_append, List.length_singleton]
      · rw [result, status]
        intro negative
        exact absurd negative (by decide)

theorem Session.Held.write (held : session.Held) (name : CString) (data : Nat → UInt8)
    (size : UInt64) : session.Simulates (.write name data size) := by
  obtain ⟨names, represents, directory⟩ := held
  have contents : session.directory.contents name = bytesOf session.fs names name := by
    rw [directory]
  have result : (Mcsfs1Call.write name data size).exec.result session.fs =
      ((mcsfs1Write name data size).result session.fs, []) := rfl
  have final : (Mcsfs1Call.write name data size).exec.final session.fs =
      (mcsfs1Write name data size).final session.fs := by simp [Mcsfs1Call.exec]
  by_cases large : 256 < size.toNat
  · obtain ⟨status, same⟩ := mcsfs1Write_large session.fs name data large
    refine Session.Held.simulates_same ⟨names, represents, directory⟩ ?_ (final.trans same) ?_
    · simp [result, status, Directory.answer, large]
    · simp [result, status, Directory.after, mcsfs1Enospc, mcsfs1Ok]
  · have small : size.toNat ≤ 256 := by omega
    cases found : names.idxOf? name with
    | none =>
        obtain ⟨status, same⟩ := represents.write_missing found data small
        refine Session.Held.simulates_same ⟨names, represents, directory⟩ ?_ (final.trans same) ?_
        · simp [result, status, Directory.answer, large, contents, bytesOf, found]
        · simp [result, status, Directory.after, mcsfs1Enoent, mcsfs1Ok]
    | some index =>
        obtain ⟨status, effect⟩ := represents.write_found found data small
        refine ⟨?_, ⟨names, ?_, ?_⟩, ?_⟩
        · simp [result, status, Directory.answer, large, contents, bytesOf, found]
        · rw [Session.next, final, effect]
          exact represents.withBytes index data small
        · simp only [Session.next, result, status, final, effect, Directory.after, if_true,
            bytesOf_withBytes session.fs found, directory]
        · rw [result, status]
          intro negative
          exact absurd negative (by decide)

theorem Session.Held.read (held : session.Held) (name : CString) (size : UInt64) :
    session.Simulates (.read name size) := by
  obtain ⟨names, represents, directory⟩ := held
  have contents : session.directory.contents name = bytesOf session.fs names name := by
    rw [directory]
  refine Session.Held.simulates_same ⟨names, represents, directory⟩ ?_
    (represents.read_final name size) rfl
  show (mcsfs1Read name size).result session.fs = _
  rw [represents.read_result, Directory.answer, contents]
  cases bytesOf session.fs names name with
  | none => rfl
  | some bytes => simp only [List.length_take]

theorem Session.Held.call (held : session.Held) (call : Mcsfs1Call) : session.Simulates call := by
  cases call with
  | create name => exact held.create name
  | write name data size => exact held.write name data size
  | read name size => exact held.read name size

/-- `inode_count` counts the files created and the inodes in use. -/
theorem Session.Held.counts (held : session.Held) :
    session.fs.inodeCount.toNat = session.directory.creates ∧
      session.fs.inodeCount.toNat =
        ((Finset.range 32).filter fun index => (session.fs.inodes index).used ≠ 0).card := by
  obtain ⟨names, represents, directory⟩ := held
  have inUse : ((Finset.range 32).filter fun index => (session.fs.inodes index).used ≠ 0) =
      Finset.range names.length := by
    ext index
    rw [Finset.mem_filter, Finset.mem_range, Finset.mem_range]
    constructor
    · intro used
      by_contra behind
      exact used.2 (represents.unused index (by omega) used.1)
    · intro filled
      have bounded := represents.bounded
      exact ⟨by omega, (represents.inode index _ (List.getElem?_eq_getElem filled)).used⟩
  rw [inUse, Finset.card_range, directory]
  exact ⟨represents.count, represents.count⟩

end

/-! ### Whole runs -/

/-- What a call has to do, by the directory before it. -/
def Directory.Accepts (directory : Directory) (answer : Int × List UInt8) : Mcsfs1Call → Prop
  | .create name => answer.1 = mcsfs1Ok ↔ name.length < 32 ∧ directory.creates < 32
  | .write name _ size =>
      answer.1 = mcsfs1Ok ↔ size.toNat ≤ 256 ∧ directory.contents name ≠ none
  | .read name size =>
      match directory.contents name with
      | none => answer = (mcsfs1Enoent, [])
      | some bytes => answer = (((min size.toNat bytes.length : Nat) : Int), bytes.take size.toNat)

/-- The call refines the map: its answer is right, it changes no other name's
reads, `inode_count` counts the inodes in use, and a failure changes nothing. -/
structure Session.Refines (session : Session) (call : Mcsfs1Call) : Prop where
  accepts : session.directory.Accepts (call.exec.result session.fs) call
  others : ∀ other ≠ call.fileName, ∀ size,
    (mcsfs1Read other size).result (session.next call).fs =
      (mcsfs1Read other size).result session.fs
  count : (session.next call).fs.inodeCount.toNat =
    ((Finset.range 32).filter fun index => ((session.next call).fs.inodes index).used ≠ 0).card
  failed : (call.exec.result session.fs).1 < 0 → (session.next call).fs = session.fs

/-- What a client sees of a run: the answer of each call and `inode_count`
after it. -/
def observations : List Mcsfs1Call → Mcsfs1T → List ((Int × List UInt8) × UInt32)
  | [], _ => []
  | call :: rest, fs =>
      (call.exec.result fs, (call.exec.final fs).inodeCount) ::
        observations rest (call.exec.final fs)

theorem Directory.accepts_answer (directory : Directory) (call : Mcsfs1Call) :
    directory.Accepts (directory.answer call) call := by
  cases call with
  | create name =>
      simp only [Accepts, answer]
      split
      next long => simp [mcsfs1Einval, mcsfs1Ok, Nat.not_lt.mpr long]
      next short =>
        split
        next full => simp [mcsfs1Enospc, mcsfs1Ok, Nat.not_lt.mpr full]
        next space => simpa using And.intro (Nat.not_le.mp short) (Nat.not_le.mp space)
  | write name data size =>
      simp only [Accepts, answer]
      split
      next large => simp [mcsfs1Enospc, mcsfs1Ok, Nat.not_le.mpr large]
      next small =>
        split
        next missing => simp [mcsfs1Enoent, mcsfs1Ok, missing]
        next found => simpa [found] using small
  | read name size =>
      simp only [Accepts, answer]
      cases directory.contents name with
      | none => rfl
      | some bytes => rfl

theorem Session.Held.refines {session : Session} (held : session.Held) (call : Mcsfs1Call) :
    session.Refines call := by
  have simulates := held.call call
  refine ⟨?_, ?_, simulates.held.counts.2, simulates.failed⟩
  · rw [simulates.answer]
    exact session.directory.accepts_answer call
  · intro other different size
    have before : _ = session.directory.answer (.read other size) := (held.read other size).answer
    have after : _ = (session.next call).directory.answer (.read other size) :=
      (simulates.held.read other size).answer
    have same : (session.next call).directory.contents other = session.directory.contents other :=
      session.directory.after_contents_other _ different
    rw [Directory.answer, same] at after
    exact after.trans before.symm

/-- Two file systems with one directory cannot be told apart. -/
theorem observations_eq (calls : List Mcsfs1Call) {left right : Session} (leftHeld : left.Held)
    (rightHeld : right.Held) (same : left.directory = right.directory) :
    observations calls left.fs = observations calls right.fs := by
  induction calls generalizing left right with
  | nil => rfl
  | cons call rest inductionHypothesis =>
      have leftStep := leftHeld.call call
      have rightStep := rightHeld.call call
      have answers : call.exec.result left.fs = call.exec.result right.fs := by
        rw [leftStep.answer, rightStep.answer, same]
      have directories : (left.next call).directory = (right.next call).directory := by
        rw [Session.next, Session.next, answers, same]
      have counts : (left.next call).fs.inodeCount = (right.next call).fs.inodeCount := by
        apply UInt32.toNat_inj.mp
        rw [leftStep.held.counts.1, rightStep.held.counts.1, directories]
      have later := inductionHypothesis leftStep.held rightStep.held directories
      rw [observations, observations, answers]
      exact congrArg₂ List.cons (congrArg _ counts) later

/-- After `mcsfs1_init` on any memory every run refines the map, and what a
client sees of it does not depend on that memory. -/
theorem run_refines_directory (prior : Mcsfs1T) (calls : List Mcsfs1Call) :
    EveryCall Session.next Session.Refines calls (formatted prior) ∧
      ∀ other, observations calls (formatted other).fs = observations calls (formatted prior).fs := by
  constructor
  · refine everyCall_of_invariant Session.Held ?_ (formatted_held prior)
      (everyCall_true calls (formatted prior))
    intro session call held _
    exact ⟨held.refines call, (held.call call).held⟩
  · intro other
    exact observations_eq calls (formatted_held other) (formatted_held prior) rfl

end Mcsos.Mcsfs1
