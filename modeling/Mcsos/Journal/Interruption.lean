import Mcsos.Journal.Invariant

/-!
Contract: what a machine finds that stopped inside `m16_journal_clear`.

The clear wipes the structure from its first byte on, and the first byte is
one of the magic, which comes back with the last store. Between the two no
state passes `m16_journal_fsck`.
-/

namespace Mcsos.Journal

open Mcsos.Machine
open Mcsos.Machine.Prog

/-- The checks at the next start: the journal is accepted, and so is its replay
to a disk of this many blocks. -/
structure Usable (diskBlockCount : UInt64) (m : JournalMachine) : Prop where
  fsck : m16JournalFsck.result m = .ok
  replay : (m16JournalReplay diskBlockCount).result m = .ok

/-- An append is to a block of the disk. -/
def JournalCall.InRange (diskBlockCount : UInt64) : JournalCall → Prop
  | .append targetBlock _ => targetBlock < diskBlockCount
  | _ => True

/-- The journal of a session, with every record on the disk. -/
structure Session.OnDisk (diskBlockCount : UInt64) (session : Session) : Prop where
  valid : session.Valid
  inRange : ∀ record ∈ session.ledger.appended, record.targetBlock < diskBlockCount

section

variable {diskBlockCount : UInt64}

theorem Session.OnDisk.next {session : Session} (onDisk : session.OnDisk diskBlockCount)
    {call : JournalCall} (inRange : call.InRange diskBlockCount) :
    (session.next call).OnDisk diskBlockCount := by
  refine ⟨Ledger.Describes.after onDisk.valid call, ?_⟩
  cases call with
  | init => simp [Session.next, Ledger.after, Ledger.empty]
  | clear => simp [Session.next, Ledger.after, Ledger.empty]
  | commit => exact onDisk.inRange
  | replay count => exact onDisk.inRange
  | append targetBlock data =>
      intro record member
      simp only [Session.next, Ledger.after] at member
      split at member
      · rcases List.mem_append.mp member with old | newest
        · exact onDisk.inRange record old
        · rw [List.mem_singleton.mp newest]
          exact inRange
      · exact onDisk.inRange record member

/-- A journal that holds records of the disk is usable. -/
theorem Holds.usable {m : JournalMachine} {records : List JournalRecord}
    (holds : Holds m.journal records)
    (inRange : ∀ record ∈ records, record.targetBlock < diskBlockCount) :
    Usable diskBlockCount m := by
  refine ⟨fsck_ok holds, ?_⟩
  by_cases committed : m.journal.committed = 0
  · simp [m16JournalReplay, holds.magic, committed]
  · exact (holds.replay_accepted committed inRange).1

/-- A journal whose magic is broken is not. -/
theorem Usable.magic {m : JournalMachine} (usable : Usable diskBlockCount m) :
    m.journal.magic = m16JournalMagic := by
  by_contra broken
  have refused := usable.fsck
  simp [m16JournalFsck, broken] at refused

/-! ### Inside the clear -/

/-- A machine that stops inside the clear of a usable journal finds a usable
one exactly when it stops before the first store or after the last. -/
theorem Session.OnDisk.clear_usable_iff {session : Session} (onDisk : session.OnDisk diskBlockCount)
    {done : List JournalAccess} (stopped : done <+: m16JournalClear.trace session.machine) :
    Usable diskBlockCount (applyAll done session.machine) ↔
      done = [] ∨ done = m16JournalClear.trace session.machine := by
  have holds := onDisk.valid.holds
  constructor
  · intro usable
    rcases m16JournalClear_stops session.machine done stopped with none | all | broken
    · exact Or.inl none
    · exact Or.inr all
    · exact absurd usable.magic broken
  · rintro (rfl | rfl)
    · exact holds.usable onDisk.inRange
    · exact (m16JournalClear_holds holds.magic).1.usable (by simp)

end

/-- For every journal that a run of the calls leaves, with every append to a
block of the disk, and every point at which a clear of it may stop. -/
theorem interrupted_clear_usable_iff (memory : JournalMachine) (diskBlockCount : UInt64)
    (calls : List JournalCall) (inRange : ∀ call ∈ calls, call.InRange diskBlockCount)
    (done : List JournalAccess)
    (stopped : done <+: m16JournalClear.trace
      (calls.foldl Session.next (initialised memory)).machine) :
    Usable diskBlockCount
        (applyAll done (calls.foldl Session.next (initialised memory)).machine) ↔
      done = [] ∨
        done = m16JournalClear.trace (calls.foldl Session.next (initialised memory)).machine := by
  have entry : (initialised memory).OnDisk diskBlockCount :=
    ⟨initialised_valid memory, by simp [initialised, Ledger.empty]⟩
  have reached := (everyCall_of_forall inRange (initialised memory)).final
    (Session.OnDisk diskBlockCount) (fun _ _ onDisk here => onDisk.next here) entry
  exact reached.clear_usable_iff stopped

/-- A clear of one committed record that does not begin. -/
theorem interrupted_clear_usable_iff_notBegun :
    Usable 2 (applyAll ([] : List JournalAccess) ([JournalCall.append 1 fun _ => 7, .commit].foldl Session.next
      (initialised zeroedMachine)).machine) :=
  (interrupted_clear_usable_iff zeroedMachine 2 [.append 1 fun _ => 7, .commit]
    (by simp [JournalCall.InRange]) [] List.nil_prefix).mpr (Or.inl rfl)

/-- One byte into the clear of a fresh journal, the journal is corrupt. -/
theorem first_byte_of_clear_not_usable :
    [JournalAccess.storeByte 0 0] <+: m16JournalClear.trace (initialised zeroedMachine).machine ∧
      m16JournalFsck.result
        (applyAll [JournalAccess.storeByte 0 0] (initialised zeroedMachine).machine) =
        .ecorrupt := by
  have magic := (initialised_valid zeroedMachine).holds.magic
  generalize (initialised zeroedMachine).machine = m at magic ⊢
  constructor
  · rw [m16JournalClear_trace, m16Memzero, forLoop_emit_trace]
    obtain ⟨rest, size⟩ : ∃ rest, journalSize = rest + 1 := ⟨journalSize - 1, by decide⟩
    rw [size, List.range'_succ, List.map_cons, List.cons_append]
    exact List.cons_prefix_cons.mpr ⟨rfl, List.nil_prefix⟩
  · have stored : (applyAll [JournalAccess.storeByte 0 0] m).journal.magic =
        UInt32.ofNat (replaceByte m.journal.magic.toNat 0 0) := rfl
    have broken : UInt32.ofNat (replaceByte m16JournalMagic.toNat 0 0) ≠ m16JournalMagic := by
      decide
    rw [magic] at stored
    generalize applyAll [JournalAccess.storeByte 0 0] m = stopped at stored
    simp [m16JournalFsck, stored, broken]

end Mcsos.Journal
